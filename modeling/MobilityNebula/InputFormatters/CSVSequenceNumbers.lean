import MobilityNebula.Library.InitialSegments
import MobilityNebula.InputFormatters.CSVContent

/-!
# CSVSequenceNumbers — the numbers of the formatted buffers

The watermark processing behind the formatter counts on sequence numbers `1, 2, 3, …` without gaps, each
with its chunks `1, …, k`.  The chunks are always right.  The numbers are not: a raw buffer emits under its
own number only if it holds a tuple of its own or is the last one to arrive of a tuple it is a part of.  For
runs of the real shredder and any tuple delimiter, `emitsNumber` says from the delimiters and the order of
arrival alone which numbers are emitted.
-/

namespace MobilityNebula.InputFormatters

open Library CSVInputFormatter ShredderSystem ShredderInput List FormattedTupleBuffer ShredderInvariant
  SequenceShredder PipelineExecutionContext

/-! ## Whole runs of the formatter -/

/-- The calls format what the shredder returned to them, in the order in which they returned; then the stream
is flushed. -/
def CSVInputFormatter.formatRun (f : CSVInputFormatter) (stream : RawStream) (originId : Nat)
    (sys : ShredderSystem) (pec : PipelineExecutionContext) :
    Except FormatterError PipelineExecutionContext := do
  let pec ← f.formatCalls stream originId sys.returned.reverse pec
  let flushed ← f.flushFinalTuple originId pec sys.shredder
  .ok flushed.2

namespace ShredderInvariant

variable {raw : ShredderInput} {sys : ShredderSystem} {N : Nat}

lemma contract (inv : ShredderInvariant raw sys) (hall : sys.AllReturned N)
    (hfirst : raw.firstSpanMissed sys.entered N = false) :
    ShredderContract raw N sys.returned.reverse (raw.flushedBuffers N) := by
  have hcalls : sys.calls = sys.returned.map Prod.fst := by
    simp [calls, returnedCalls, hall.inFlight]
  have hmem : ∀ result ∈ sys.returned.reverse, result.1 ∈ sys.calls := by
    intro result hresult
    rw [hcalls]
    exact mem_map_of_mem (mem_reverse.1 hresult)
  have hreported : (sys.returned.reverse.flatMap fun result => result.1.reportedSpans).Perm sys.reported := by
    rw [reported, returnedCalls, flatMap_map]
    exact (reverse_perm _).flatMap_right _
  refine ⟨?_, fun result hresult => (inv.specs _ (hmem result hresult)).delimiter,
    fun result hresult => inv.buffers result (mem_reverse.1 hresult), ?_, ?_, ?_, rfl⟩
  · -- every buffer was processed once
    have hnumbers : (sys.returned.map fun result => result.1.sequenceNumber).Perm sys.entered := by
      have hnumbers := inv.numbers
      rwa [hcalls, map_map] at hnumbers
    rw [map_reverse]
    refine (reverse_perm _).trans (hnumbers.trans ?_)
    refine (perm_ext_iff_of_nodup inv.nodup nodup_range').2 fun sn => ?_
    rw [hall.entered, mem_range'_1]
    omega
  · intro result hresult d e hspan
    exact lastArrival_bounds (inv.completedBy_of_reports (hmem result hresult) hspan).last
  · have hnodup := inv.nodup_reportedSpans
    rw [hcalls, flatMap_map] at hnodup
    exact ((reverse_perm _).flatMap_right _).nodup_iff.2 hnodup
  · intro d e
    rw [hreported.mem_iff]
    constructor
    · intro hspan
      rcases mem_flatMap.1 hspan with ⟨call, hcall, hreport⟩
      have hcomplete := (inv.completedBy_of_reports (mem_calls_of_returned hcall) hreport).complete
      refine ⟨hcomplete.span, ?_⟩
      exact le_of_mem_seen hall (hcomplete.arrived e (le_of_lt hcomplete.span.lt) le_rfl)
    · rintro ⟨hspan, he⟩
      exact (inv.reported_iff hall hspan he).2 fun _ => hfirst

end ShredderInvariant

variable {f : CSVInputFormatter}
variable {stream : RawStream}

/-- A run succeeds exactly if all its tuples are accepted.  Each call then produces its chunks and the flush
produces its own under the number it chose. -/
lemma formatRun_spec {sys : ShredderSystem} {N : Nat}
    (inv : ShredderInvariant (f.rawBuffers stream) sys) (hall : sys.AllReturned N)
    (hfirst : (f.rawBuffers stream).firstSpanMissed sys.entered N = false)
    (hrange : (N + 1) / 64 < sys.shredder.tail + sys.shredder.numberOfBitmaps) (originId : Nat)
    (pec : PipelineExecutionContext) :
    SucceedsIff ((∀ w ∈ sys.returned.reverse.flatMap (fun result => f.callTuples (f.rawBuffers stream) result.1),
          f.accepts w = true) ∧
        f.accepts (f.openTuple (f.rawBuffers stream) N) = true) (f.formatRun stream originId sys pec)
      fun pec' => ∃ (outputs : List (List FormattedTupleBuffer)) (last : List FormattedTupleBuffer),
        pec' = pec.emitAll (outputs.flatten ++ last) ∧
        List.Forall₂ (fun result => f.Produces (f.rawBuffers stream) result.1) sys.returned.reverse outputs ∧
        f.FlushProduces (f.rawBuffers stream) N (sys.flushNumber (f.rawBuffers stream) N) last := by
  rcases inv.flushFinalPartialTuple_spec hall hrange with ⟨s', hflush⟩
  have hspec := formatAll_spec (inv.contract hall hfirst) originId (sys.flushNumber (f.rawBuffers stream) N) pec
  -- the run is the formatting of all calls and of the buffers the flush returns
  have hsame : f.formatRun stream originId sys pec
      = f.formatAll stream originId sys.returned.reverse ((f.rawBuffers stream).flushedBuffers N)
          (sys.flushNumber (f.rawBuffers stream) N) pec := by
    unfold formatRun formatAll flushFinalTuple
    cases f.formatCalls stream originId sys.returned.reverse pec with
    | error error => rfl
    | ok pec' =>
      simp only [hflush]
      cases hformat : f.formatFlushedBuffers originId ((f.rawBuffers stream).flushedBuffers N)
          (sys.flushNumber (f.rawBuffers stream) N) pec' with
      | error error | ok pec'' => simp [hformat, bind, Except.bind]
  rw [hsame]
  refine hspec.mono ?_
  rintro pec' ⟨outputs, last, hpec, hproduce, hlast, _⟩
  exact ⟨outputs, last, hpec, hproduce, hlast⟩

/-! ## Numbers and chunks -/

/-- The chunks of one sequence number: `1, …, k`, the last one marked as such. -/
def ChunksOf (n : Nat) (chunks : List FormattedTupleBuffer) : Prop :=
  chunks.map header
    = (range' 1 chunks.length).map fun chunk => (n, chunk, decide (chunk = chunks.length))

/-- What the watermark processing requires: the sequence numbers are `1, …, M`, and the chunk numbers of
each are `1, …, k` with the last-chunk flag on `k` only. -/
def GaplessOutput (emitted : List FormattedTupleBuffer) : Prop :=
  IsInitialSegment (fun n => ∃ b ∈ emitted, b.sequenceNumber = n) ∧
    ∀ n, ChunksOf n (emitted.filter fun b => decide (b.sequenceNumber = n))

/-- The emitted buffers have the sequence numbers `numbers`, each with its chunks. -/
structure NumberedOutput (numbers : List Nat) (emitted : List FormattedTupleBuffer) : Prop where
  mem : ∀ n, (∃ b ∈ emitted, b.sequenceNumber = n) ↔ n ∈ numbers
  chunks : ∀ n, ChunksOf n (emitted.filter fun b => decide (b.sequenceNumber = n))

namespace CallOutput

variable {sn n : Nat} {tuples : List Bytes} {chunks : List FormattedTupleBuffer}
variable (h : CallOutput sn tuples chunks)
include h

lemma sequenceNumber : ∀ b ∈ chunks, b.sequenceNumber = sn := by
  intro b hb
  have hheader := mem_map_of_mem (f := header) hb
  rw [h.headers] at hheader
  rcases mem_map.1 hheader with ⟨chunk, _, heq⟩
  exact (congrArg Prod.fst heq).symm

lemma filter_self : (chunks.filter fun b => decide (b.sequenceNumber = sn)) = chunks := by
  refine filter_eq_self.2 fun b hb => ?_
  exact decide_eq_true (h.sequenceNumber b hb)

lemma filter_of_ne (hne : sn ≠ n) : (chunks.filter fun b => decide (b.sequenceNumber = n)) = [] := by
  refine filter_eq_nil_iff.2 fun b hb => ?_
  rw [h.sequenceNumber b hb, decide_eq_true_eq]
  exact hne

end CallOutput

namespace NumberedOutput

variable {numbers : List Nat} {emitted chunks : List FormattedTupleBuffer} {sn : Nat}
  {tuples : List Bytes}

lemma nil : NumberedOutput [] [] := by
  refine ⟨by simp, fun n => ?_⟩
  rfl

variable (h : NumberedOutput numbers emitted)
include h

lemma filter_of_not_mem (hnot : sn ∉ numbers) : (emitted.filter fun b => decide (b.sequenceNumber = sn)) = [] := by
  refine filter_eq_nil_iff.2 fun b hb => ?_
  rw [decide_eq_true_eq]
  intro heq
  exact hnot ((h.mem sn).1 ⟨b, hb, heq⟩)

lemma insert (hnew : CallOutput sn tuples chunks) (hnot : sn ∉ numbers) {all : List FormattedTupleBuffer}
    (hall : all = chunks ++ emitted ∨ all = emitted ++ chunks) : NumberedOutput (sn :: numbers) all := by
  have hmem : ∀ b, b ∈ all ↔ b ∈ chunks ∨ b ∈ emitted := by
    intro b
    rcases hall with rfl | rfl
    · exact mem_append
    · exact mem_append.trans or_comm
  have hfilter : ∀ n, (all.filter fun b => decide (b.sequenceNumber = n))
      = if n = sn then chunks else emitted.filter fun b => decide (b.sequenceNumber = n) := by
    intro n
    by_cases hn : n = sn
    · subst hn
      rw [if_pos rfl]
      rcases hall with rfl | rfl
      · rw [filter_append, hnew.filter_self, h.filter_of_not_mem hnot, append_nil]
      · rw [filter_append, hnew.filter_self, h.filter_of_not_mem hnot, nil_append]
    · rw [if_neg hn]
      have hother := hnew.filter_of_ne (Ne.symm hn)
      rcases hall with rfl | rfl
      · rw [filter_append, hother, nil_append]
      · rw [filter_append, hother, append_nil]
  constructor
  · intro n
    rw [mem_cons, ← h.mem n]
    constructor
    · rintro ⟨b, hb, rfl⟩
      rcases (hmem b).1 hb with hchunk | hold
      · exact .inl (hnew.sequenceNumber b hchunk)
      · exact .inr ⟨b, hold, rfl⟩
    · rintro (rfl | ⟨b, hold, hn⟩)
      · rcases exists_mem_of_ne_nil _ hnew.nonempty with ⟨b, hb⟩
        exact ⟨b, (hmem b).2 (.inl hb), hnew.sequenceNumber b hb⟩
      · exact ⟨b, (hmem b).2 (.inr hold), hn⟩
  · intro n
    rw [hfilter n]
    split
    case isTrue hn =>
      subst hn
      exact hnew.headers
    case isFalse => exact h.chunks n

lemma gapless_iff : GaplessOutput emitted ↔ IsInitialSegment (· ∈ numbers) := by
  constructor
  · intro hgapless
    exact hgapless.1.congr h.mem
  · intro hsegment
    exact ⟨hsegment.congr fun n => (h.mem n).symm, h.chunks⟩

end NumberedOutput

/-- The calls emit under the numbers of those that do not return early. -/
lemma numberedOutput_of_forall₂ {raw : ShredderInput}
    {returned : List (ProcessSequenceNumberCall × SpanningTupleBuffers)} {outputs : List (List FormattedTupleBuffer)}
    (h : List.Forall₂ (fun result => f.Produces raw result.1) returned outputs)
    (hnodup : (returned.map fun result => result.1.sequenceNumber).Nodup) :
    NumberedOutput ((returned.filter fun result => result.1.emits raw).map fun result =>
      result.1.sequenceNumber) outputs.flatten := by
  induction h with
  | nil => exact .nil
  | @cons result chunks rest outputs hcall _ ih =>
    rw [map_cons, nodup_cons] at hnodup
    have hrest := ih hnodup.2
    unfold Produces at hcall
    split at hcall
    case isTrue hemits =>
      rw [filter_cons, if_pos hemits, map_cons, flatten_cons]
      refine hrest.insert hcall (fun hmem => hnodup.1 ?_) (.inl rfl)
      exact ((filter_sublist).map _).subset hmem
    case isFalse hnot =>
      rw [filter_cons, if_neg hnot, hcall, flatten_cons, nil_append]
      exact hrest

/-! ## The numbers that are emitted -/

def ShredderInput.hasSeveralDelimiters (raw : ShredderInput) (n : Nat) : Bool :=
  raw.hasTupleDelimiter n
    && decide ((raw.stagedBuffer n).offsetOfFirstTupleDelimiter
      ≠ (raw.stagedBuffer n).offsetOfLastTupleDelimiter)

/-- The buffer was the last one to arrive of a tuple between two of the marks `0, …, N`. -/
def ShredderInput.completesSpan (raw : ShredderInput) (arrivals : List Nat) (N n : Nat) : Bool :=
  (spansUpTo raw.Mark N).any fun span => decide (lastArrival arrivals span.1 span.2 = some n)

/-- The number of the flushed tuple, if there is one: the last buffer if it has no delimiter, else the number
behind it, provided that there are bytes behind its last delimiter. -/
def CSVInputFormatter.flushedNumber? (f : CSVInputFormatter) (raw : ShredderInput) (N : Nat) : Option Nat :=
  if N = 0 then
    none
  else if raw.hasTupleDelimiter N then
    if f.trailingBytes (raw.stagedBuffer N) = [] then none else some (N + 1)
  else
    some N

/-- Number `n` is emitted for the buffers `1, …, N` that arrived in this order. -/
def CSVInputFormatter.emitsNumber (f : CSVInputFormatter) (raw : ShredderInput) (arrivals : List Nat)
    (N n : Nat) : Bool :=
  (decide (1 ≤ n) && decide (n ≤ N)
      && (raw.hasSeveralDelimiters n || raw.completesSpan arrivals N n))
    || decide (f.flushedNumber? raw N = some n)

namespace ShredderInvariant

variable {raw : ShredderInput} {sys : ShredderSystem} {call : ProcessSequenceNumberCall} {N : Nat}

lemma reportedSpans_ne_nil_iff (inv : ShredderInvariant raw sys) (hall : sys.AllReturned N)
    (hfirst : raw.firstSpanMissed sys.entered N = false) (hcall : call ∈ sys.returnedCalls) :
    call.reportedSpans ≠ [] ↔ raw.completesSpan sys.entered N call.sequenceNumber = true := by
  have hspec := inv.specs call (mem_calls_of_returned hcall)
  rw [completesSpan, any_eq_true]
  constructor
  · intro hne
    rcases exists_mem_of_ne_nil _ hne with ⟨⟨d, e⟩, hmem⟩
    have hdone := inv.completedBy_of_reports (mem_calls_of_returned hcall) hmem
    have hspan := hdone.complete.span
    have he := le_of_mem_seen hall (hdone.complete.arrived e (le_of_lt hspan.lt) le_rfl)
    rcases inv.lastArrival_seen hall hspan he with ⟨x, _, hdone', hlast⟩
    refine ⟨(d, e), (mem_spansUpTo raw.mark_zero).2 ⟨hspan, he⟩, ?_⟩
    rw [decide_eq_true_eq, ← inv.lastArrival_entered, hlast, hdone.unique hdone']
  · rintro ⟨⟨d, e⟩, hmem, hlast⟩
    rcases (mem_spansUpTo raw.mark_zero).1 hmem with ⟨hspan, he⟩
    rw [decide_eq_true_eq] at hlast
    rcases inv.lastArrival_seen hall hspan he with ⟨x, hx, hdone, hlast'⟩
    rw [inv.lastArrival_entered, hlast, Option.some_inj] at hlast'
    subst hlast'
    -- the span was not missed, so the call that completed it reports it
    have hreported := (inv.reported_iff hall hspan he).2 fun _ => hfirst
    have hnot := (inv.reported_iff_not_missed hall hdone hx).1 hreported
    exact ne_nil_of_mem ((hspec.reports d e).2 ⟨hdone, hnot⟩)

end ShredderInvariant

/-- A call does not return early if it reports a span or has tuples of its own. -/
lemma CallContract.emits_iff {raw : ShredderInput} {call : ProcessSequenceNumberCall} (h : CallContract raw call) :
    call.emits raw = true ↔ raw.hasSeveralDelimiters call.sequenceNumber = true ∨ call.reportedSpans ≠ [] := by
  constructor
  · intro hemits
    unfold ProcessSequenceNumberCall.emits at hemits
    cases hdel : call.hasTupleDelimiter with
    | true =>
      rw [hdel, if_pos rfl, Bool.or_eq_true] at hemits
      rcases hemits with hstretch | hseveral
      · right
        rcases h.stretch hdel with ⟨hax, hxb, _, _⟩
        rw [decide_eq_true_eq] at hstretch
        rw [h.reportedSpans_eq hdel]
        rcases Nat.lt_or_ge call.startIndex call.sequenceNumber with hlt | hge
        · simp [hlt]
        · have hlt : call.sequenceNumber < call.endIndex := by omega
          simp [hlt]
      · left
        rw [hasSeveralDelimiters, ← h.delimiter, hdel, Bool.true_and]
        exact hseveral
    | false =>
      rw [hdel, if_neg (by simp)] at hemits
      right
      rw [(h.innerStretch hdel hemits).2.2.2]
      simp
  · rintro (hseveral | hne)
    · rw [hasSeveralDelimiters, Bool.and_eq_true, ← h.delimiter] at hseveral
      rw [ProcessSequenceNumberCall.emits, if_pos hseveral.1, hseveral.2, Bool.or_true]
    · rcases exists_mem_of_ne_nil _ hne with ⟨⟨d, e⟩, hmem⟩
      exact h.emits_of_reports hmem

section Flush

variable {f : CSVInputFormatter} {stream : RawStream} {N : Nat}

lemma openTuple_of_delimiter (hpos : 0 < N) (hdelimiter : (f.rawBuffers stream).hasTupleDelimiter N = true) :
    f.openTuple (f.rawBuffers stream) N = f.trailingBytes ((f.rawBuffers stream).stagedBuffer N) := by
  have hlast : Nat.findGreatest (f.rawBuffers stream).Mark N = N :=
    le_antisymm (Nat.findGreatest_le N) (Nat.le_findGreatest le_rfl (.inr hdelimiter))
  rw [openTuple, hlast, staged_of_pos _ hpos, bytesBetween, Nat.sub_self, range'_zero, flatMap_nil, append_nil]

lemma openTuple_ne_nil (hpos : 0 < N) (hle : N ≤ stream.numberOfBuffers)
    (hno : (f.rawBuffers stream).hasTupleDelimiter N = false) : f.openTuple (f.rawBuffers stream) N ≠ [] := by
  have hbelow : Nat.findGreatest (f.rawBuffers stream).Mark N < N := by
    refine lt_of_le_of_ne (Nat.findGreatest_le N) fun heq => ?_
    have hmark : (f.rawBuffers stream).Mark (Nat.findGreatest (f.rawBuffers stream).Mark N) :=
      Nat.findGreatest_spec (Nat.zero_le N) (mark_zero _)
    rw [heq, mark_iff_of_pos _ hpos, hno] at hmark
    cases hmark
  have hbytes : ((f.rawBuffers stream).staged N).getBuffer.take
      ((f.rawBuffers stream).staged N).sizeOfBufferInBytes = stream.bytes N := by
    have hparts := getBuffer_stagedBuffer f stream N
    rw [staged_of_pos _ hpos, hparts.1, hparts.2, take_length]
  intro hempty
  rw [openTuple, append_eq_nil_iff, bytesBetween, flatMap_eq_nil_iff] at hempty
  have hnil := hempty.2 N (mem_range'_1.2 (by omega))
  rw [hbytes] at hnil
  exact stream.bytes_ne_nil hpos hle hnil

lemma flushProduces_cases {flushNumber : Nat} {chunks : List FormattedTupleBuffer} (hle : N ≤ stream.numberOfBuffers)
    (hnumber : 0 < N → flushNumber = if (f.rawBuffers stream).hasTupleDelimiter N then N + 1 else N)
    (h : f.FlushProduces (f.rawBuffers stream) N flushNumber chunks) :
    (f.flushedNumber? (f.rawBuffers stream) N = none ∧ chunks = []) ∨
      (f.flushedNumber? (f.rawBuffers stream) N = some flushNumber ∧
        ∃ tuples, CallOutput flushNumber tuples chunks) := by
  unfold FlushProduces at h
  unfold flushedNumber?
  rcases Nat.eq_zero_or_pos N with rfl | hpos
  · -- no buffer, no tuple
    have hempty : f.openTuple (f.rawBuffers stream) 0 = [] := by
      simp [openTuple, bytesBetween, ShredderInput.staged, trailingBytes, StagedBuffer.getBuffer]
    rw [if_pos hempty] at h
    exact .inl ⟨rfl, h⟩
  · rw [if_neg (Nat.ne_of_gt hpos)]
    cases hdel : (f.rawBuffers stream).hasTupleDelimiter N with
    | true =>
      have hnext : flushNumber = N + 1 := by rw [hnumber hpos, if_pos hdel]
      rw [openTuple_of_delimiter hpos hdel] at h
      rw [if_pos rfl, hnext]
      rw [hnext] at h
      split at h
      case isTrue hempty => exact .inl ⟨if_pos hempty, h⟩
      case isFalse hne => exact .inr ⟨if_neg hne, _, h⟩
    | false =>
      have hlast : flushNumber = N := by rw [hnumber hpos, if_neg (by simp [hdel])]
      rw [if_neg (openTuple_ne_nil hpos hle hdel)] at h
      exact .inr ⟨by rw [if_neg (by simp), hlast], _, h⟩

end Flush

/-! ## Gapless numbers -/

namespace CSVInputFormatter

variable {f : CSVInputFormatter} {stream : RawStream} {sys : ShredderSystem} {N : Nat}
variable {raw : ShredderInput} {arrivals : List Nat}

lemma emitsNumber_iff {n : Nat} : f.emitsNumber raw arrivals N n = true ↔ ((1 ≤ n ∧ n ≤ N) ∧
          (raw.hasSeveralDelimiters n = true ∨ raw.completesSpan arrivals N n = true)) ∨
        f.flushedNumber? raw N = some n := by
  simp [emitsNumber]

lemma emitsNumber_bounds {n : Nat} (h : f.emitsNumber raw arrivals N n = true) : 1 ≤ n ∧ n ≤ N + 1 := by
  rcases emitsNumber_iff.1 h with ⟨hrange, _⟩ | hflush
  · omega
  · unfold flushedNumber? at hflush
    split_ifs at hflush
    all_goals
      rw [Option.some_inj] at hflush
      omega

/-- The calls emit under the numbers of the buffers with several delimiters and of the last arrivals. -/
lemma mem_callNumbers (inv : ShredderInvariant (f.rawBuffers stream) sys) (hall : sys.AllReturned N)
    (hfirst : (f.rawBuffers stream).firstSpanMissed sys.entered N = false) (n : Nat) :
    n ∈ ((sys.returned.reverse.filter fun result => result.1.emits (f.rawBuffers stream)).map
        fun result => result.1.sequenceNumber) ↔
      (1 ≤ n ∧ n ≤ N) ∧ ((f.rawBuffers stream).hasSeveralDelimiters n = true ∨
        (f.rawBuffers stream).completesSpan sys.entered N n = true) := by
  have contract := inv.contract hall hfirst
  -- whether a call emits can be said about its number
  have hcall : ∀ result ∈ sys.returned.reverse, (result.1.emits (f.rawBuffers stream) = true ↔
      (f.rawBuffers stream).hasSeveralDelimiters result.1.sequenceNumber = true ∨
        (f.rawBuffers stream).completesSpan sys.entered N result.1.sequenceNumber = true) := by
    intro result hresult
    have hmem : result.1 ∈ sys.returnedCalls := mem_returnedCalls.2 ⟨result.2, mem_reverse.1 hresult⟩
    rw [(contract.call hresult).emits_iff, inv.reportedSpans_ne_nil_iff hall hfirst hmem]
  constructor
  · intro hmem
    rcases mem_map.1 hmem with ⟨result, hfilter, rfl⟩
    rcases mem_filter.1 hfilter with ⟨hresult, hemits⟩
    have hrange := mem_range'_1.1 (contract.numbers.mem_iff.1 (mem_map_of_mem hresult))
    exact ⟨by omega, (hcall result hresult).1 hemits⟩
  · rintro ⟨hrange, hemits⟩
    have hnumber : n ∈ sys.returned.reverse.map fun result => result.1.sequenceNumber :=
      contract.numbers.mem_iff.2 (mem_range'_1.2 (by omega))
    rcases mem_map.1 hnumber with ⟨result, hresult, rfl⟩
    exact mem_map_of_mem (mem_filter.2 ⟨hresult, (hcall result hresult).2 hemits⟩)

/-- A last buffer without a delimiter emits nothing itself: it can only complete a span that ends in it. -/
lemma last_silent (hpos : 1 ≤ N) (hno : raw.hasTupleDelimiter N = false) :
    ¬ (raw.hasSeveralDelimiters N = true ∨ raw.completesSpan arrivals N N = true) := by
  rintro (hseveral | hspan)
  · rw [hasSeveralDelimiters, hno, Bool.false_and] at hseveral
    cases hseveral
  · rw [completesSpan, any_eq_true] at hspan
    rcases hspan with ⟨⟨d, e⟩, hmem, hlast⟩
    rcases (mem_spansUpTo raw.mark_zero).1 hmem with ⟨hspan, he⟩
    have hbounds := lastArrival_bounds (of_decide_eq_true hlast)
    have heq : e = N := le_antisymm he hbounds.2
    have hmark := hspan.right
    rw [heq, raw.mark_iff_of_pos hpos, hno] at hmark
    cases hmark

lemma flushedNumber_fresh {n : Nat} (hnumber : f.flushedNumber? raw N = some n) (hrange : 1 ≤ n ∧ n ≤ N) :
    ¬ (raw.hasSeveralDelimiters n = true ∨ raw.completesSpan arrivals N n = true) := by
  have hlast : n = N ∧ raw.hasTupleDelimiter N = false := by
    unfold flushedNumber? at hnumber
    split at hnumber
    case isTrue => simp at hnumber
    case isFalse =>
      cases hdel : raw.hasTupleDelimiter N with
      | true =>
        rw [hdel, if_pos rfl] at hnumber
        split at hnumber
        case isTrue => simp at hnumber
        case isFalse =>
          rw [Option.some_inj] at hnumber
          omega
      | false =>
        rw [hdel, if_neg (by simp), Option.some_inj] at hnumber
        exact ⟨hnumber.symm, rfl⟩
  rcases hlast with ⟨rfl, hno⟩
  exact last_silent hrange.1 hno

end CSVInputFormatter

lemma numberedOutput_formatRun {sys : ShredderSystem}
    {N originId : Nat} (inv : ShredderInvariant (f.rawBuffers stream) sys) (hall : sys.AllReturned N)
    (hle : N ≤ stream.numberOfBuffers) (hfirst : (f.rawBuffers stream).firstSpanMissed sys.entered N = false)
    (hrange : (N + 1) / 64 < sys.shredder.tail + sys.shredder.numberOfBitmaps)
    {bufferSize : Nat} {pec : PipelineExecutionContext}
    (hok : f.formatRun stream originId sys ⟨bufferSize, [], []⟩ = .ok pec) :
    ∃ numbers, NumberedOutput numbers pec.emitted ∧
      ∀ n, n ∈ numbers ↔ f.emitsNumber (f.rawBuffers stream) sys.entered N n = true := by
  rcases ((formatRun_spec inv hall hfirst hrange originId _).of_eq_ok hok).2 with ⟨outputs, last, rfl, hproduce, hflush⟩
  have contract := inv.contract hall hfirst
  have hcalls := numberedOutput_of_forall₂ hproduce (contract.numbers.nodup_iff.2 nodup_range')
  have hmem := mem_callNumbers inv hall hfirst
  rcases flushProduces_cases hle (fun hpos => inv.flushNumber_eq hall hpos hfirst) hflush with
    ⟨hnone, rfl⟩ | ⟨hsome, tuples, houtput⟩
  · refine ⟨_, ?_, fun n => (hmem n).trans ?_⟩
    · simpa [emitAll] using hcalls
    · rw [emitsNumber_iff, hnone]
      simp
  · refine ⟨_, hcalls.insert houtput ?_ (.inr rfl), fun n => ?_⟩
    · rw [hmem]
      rintro ⟨hin, hemits⟩
      exact flushedNumber_fresh hsome hin hemits
    · rw [mem_cons, hmem, emitsNumber_iff, hsome, Option.some_inj, or_comm,
        @eq_comm _ n]

/-- The numbers and chunks of a run are gapless exactly if with every emitted number all smaller ones are
emitted too.  That the chunks are right needs no condition. -/
theorem emitted_numbers_gapless_iff (f : CSVInputFormatter) (stream : RawStream) (originId bufferSize : Nat)
    (events : List ShredderEvent) (sys : ShredderSystem) (hrun : run (f.rawBuffers stream) events = some sys)
    (hall : sys.AllReturned stream.numberOfBuffers)
    (hfirst : (f.rawBuffers stream).firstSpanMissed (arrivals events) stream.numberOfBuffers = false)
    (hrange : (sys.shredder.isInRange (stream.numberOfBuffers + 1)).2 = true) (pec : PipelineExecutionContext)
    (hok : f.formatRun stream originId sys ⟨bufferSize, [], []⟩ = .ok pec) :
    GaplessOutput pec.emitted ↔ ∀ n, f.emitsNumber (f.rawBuffers stream) (arrivals events)
          stream.numberOfBuffers n = true →
        ∀ x, 1 ≤ x → x < n → f.emitsNumber (f.rawBuffers stream) (arrivals events) stream.numberOfBuffers x = true := by
  have inv := of_run hrun
  rw [← entered_of_run hrun] at hfirst ⊢
  rcases numberedOutput_formatRun inv hall le_rfl hfirst (isInRange_iff.1 hrange) hok with ⟨numbers, houtput, hmem⟩
  rw [houtput.gapless_iff, isInitialSegment_congr hmem]
  exact isInitialSegment_iff (fun n hn => (emitsNumber_bounds hn).1) fun n hn => (emitsNumber_bounds hn).2

/-! ### Two lines -/

def lineByLine : RawStream where
  buffers := [[49, 10], [50, 10]]
  nonempty := by simp

def cutLine : RawStream where
  buffers := [[49], [50, 10]]
  nonempty := by simp

/-- The headers of what is emitted when one thread processes the buffers in the given order. -/
def CSVInputFormatter.headersInOrder (f : CSVInputFormatter) (stream : RawStream) (order : List Nat) :
    Option (List (Nat × Nat × Bool)) := do
  let sys ← run (f.rawBuffers stream) (callsInOrder order)
  let pec ← (f.formatRun stream 1 sys ⟨4096, [], []⟩).toOption
  some (pec.emitted.map header)

lemma exists_formatRun {order : List Nat}
    {headers : List (Nat × Nat × Bool)} (h : f.headersInOrder stream order = some headers) :
    ∃ sys pec, run (f.rawBuffers stream) (callsInOrder order) = some sys ∧
      f.formatRun stream 1 sys ⟨4096, [], []⟩ = .ok pec ∧ pec.emitted.map header = headers := by
  simp only [headersInOrder, Option.bind_eq_bind, Option.bind_eq_some_iff, Option.some_inj] at h
  rcases h with ⟨sys, hrun, pec, hok, hheaders⟩
  refine ⟨sys, pec, hrun, ?_, hheaders⟩
  cases hformat : f.formatRun stream 1 sys ⟨4096, [], []⟩ with
  | error error =>
    rw [hformat] at hok
    cases hok
  | ok pec' =>
    rw [hformat] at hok
    rw [Option.some_inj.1 hok]

/-- Buffers of one line each are numbered without gaps. -/
theorem emitted_numbers_gapless_iff_applies :
    ∃ sys pec, run (sampleFormatter.rawBuffers lineByLine) (callsInOrder [2, 1]) = some sys ∧
      sampleFormatter.formatRun lineByLine 1 sys ⟨4096, [], []⟩ = .ok pec ∧ GaplessOutput pec.emitted := by
  have heval : sampleFormatter.headersInOrder lineByLine [2, 1] = some [(1, 1, true)] := by
    decide +kernel
  rcases exists_formatRun heval with ⟨sys, pec, hrun, hok, _⟩
  refine ⟨sys, pec, hrun, hok, ?_⟩
  rcases exists_run_callsInOrder (sampleFormatter.rawBuffers lineByLine) (show [2, 1].Perm (range' 1 2) by decide)
    (by decide) with ⟨sys', hrun', hall, _⟩
  rw [hrun, Option.some_inj] at hrun'
  subst hrun'
  have hrange : (sys.shredder.isInRange (lineByLine.numberOfBuffers + 1)).2 = true :=
    (of_run hrun).isInRange_of_lt (by decide)
  have hiff := emitted_numbers_gapless_iff sampleFormatter lineByLine 1 4096 (callsInOrder [2, 1]) sys hrun hall
    (by decide +kernel) hrange pec hok
  refine hiff.2 fun n hn => ?_
  -- there are three numbers to look at
  have hsmall : ∀ n ≤ 3, sampleFormatter.emitsNumber (sampleFormatter.rawBuffers lineByLine)
        (arrivals (callsInOrder [2, 1])) lineByLine.numberOfBuffers n = true →
      ∀ x < n, 1 ≤ x → sampleFormatter.emitsNumber (sampleFormatter.rawBuffers lineByLine)
        (arrivals (callsInOrder [2, 1])) lineByLine.numberOfBuffers x = true := by
    decide +kernel
  intro x hx hxn
  exact hsmall n (emitsNumber_bounds hn).2 hn x hxn hx

/-- The first buffer of a cut line emits nothing: the only sequence number is 2. -/
theorem cut_line_leaves_gap : ∃ sys pec, run (sampleFormatter.rawBuffers cutLine) (callsInOrder [1, 2]) = some sys ∧
      sampleFormatter.formatRun cutLine 1 sys ⟨4096, [], []⟩ = .ok pec ∧
      pec.emitted.map header = [(2, 1, true)] ∧ ¬ GaplessOutput pec.emitted := by
  have heval : sampleFormatter.headersInOrder cutLine [1, 2] = some [(2, 1, true)] := by
    decide +kernel
  rcases exists_formatRun heval with ⟨sys, pec, hrun, hok, hheaders⟩
  refine ⟨sys, pec, hrun, hok, hheaders, ?_⟩
  rintro ⟨⟨M, hM⟩, _⟩
  have hnumbers : ∀ n, (∃ b ∈ pec.emitted, b.sequenceNumber = n) ↔ n = 2 := by
    intro n
    have hmem : (∃ b ∈ pec.emitted, b.sequenceNumber = n) ↔ n ∈ (pec.emitted.map header).map Prod.fst := by
      simp [header]
    rw [hmem, hheaders]
    simp
  have htwo := (hM 2).1 ((hnumbers 2).2 rfl)
  have hone := (hnumbers 1).1 ((hM 1).2 ⟨le_rfl, le_trans (by decide) htwo.2⟩)
  cases hone

/-! ## The number of the flush -/

/-- Once all buffers are processed, the flush returns the staged buffers from the last delimiter on and the dummy,
and a number under which no call has emitted anything, if the first span was not missed and the dummy is in
range. -/
theorem flush_returns_open_tuple (f : CSVInputFormatter) (stream : RawStream) (originId bufferSize : Nat)
    (events : List ShredderEvent) (sys : ShredderSystem) (hrun : run (f.rawBuffers stream) events = some sys)
    (hall : sys.AllReturned stream.numberOfBuffers)
    (hfirst : (f.rawBuffers stream).firstSpanMissed (arrivals events) stream.numberOfBuffers = false)
    (hrange : (sys.shredder.isInRange (stream.numberOfBuffers + 1)).2 = true) (pec : PipelineExecutionContext)
    (hok : f.formatCalls stream originId sys.returned.reverse ⟨bufferSize, [], []⟩ = .ok pec) :
    ∃ s' number, sys.shredder.flushFinalPartialTuple
        = some (s', (f.rawBuffers stream).flushedBuffers stream.numberOfBuffers, number) ∧
      (number = stream.numberOfBuffers ∨ number = stream.numberOfBuffers + 1) ∧
      ∀ b ∈ pec.emitted, b.sequenceNumber ≠ number := by
  have inv := of_run hrun
  rw [← entered_of_run hrun] at hfirst
  have contract := inv.contract hall hfirst
  rcases inv.flushFinalPartialTuple_spec hall (isInRange_iff.1 hrange) with ⟨s', hflush⟩
  refine ⟨s', _, hflush, ?_, ?_⟩
  · unfold flushNumber
    split
    · exact .inr rfl
    · exact .inl rfl
  · rcases ((formatCalls_spec originId sys.returned.reverse
      (fun result hresult => ⟨contract.call hresult, contract.buffers result hresult⟩) _).of_eq_ok hok).2 with
      ⟨outputs, rfl, hproduce, _⟩
    have hnumbers := numberedOutput_of_forall₂ hproduce (contract.numbers.nodup_iff.2 nodup_range')
    intro b hb heq
    have hb' : b ∈ outputs.flatten := by simpa [emitAll] using hb
    rcases (mem_callNumbers inv hall hfirst _).1 ((hnumbers.mem _).1 ⟨b, hb', heq⟩) with ⟨⟨hpos, hle⟩, hemits⟩
    have hN : 0 < stream.numberOfBuffers := Nat.lt_of_lt_of_le hpos hle
    rw [inv.flushNumber_eq hall hN hfirst] at hle hemits
    -- behind the last buffer if that has a delimiter, else its own number
    cases hdelimiter : (f.rawBuffers stream).hasTupleDelimiter stream.numberOfBuffers with
    | true =>
      rw [hdelimiter, if_pos rfl] at hle
      omega
    | false =>
      rw [hdelimiter, if_neg Bool.false_ne_true] at hemits
      exact last_silent hN hdelimiter hemits

/-- The flush after the calls for a cut line. -/
theorem flush_returns_open_tuple_cutLine :
    ∃ sys pec s' number, run (sampleFormatter.rawBuffers cutLine) (callsInOrder [1, 2]) = some sys ∧
      sampleFormatter.formatCalls cutLine 1 sys.returned.reverse ⟨4096, [], []⟩ = .ok pec ∧
      sys.shredder.flushFinalPartialTuple
        = some (s', (sampleFormatter.rawBuffers cutLine).flushedBuffers cutLine.numberOfBuffers, number) ∧
      ∀ b ∈ pec.emitted, b.sequenceNumber ≠ number := by
  rcases exists_run_callsInOrder (sampleFormatter.rawBuffers cutLine) (show [1, 2].Perm (range' 1 2) from .refl _)
    (by decide) with ⟨sys, hrun, hall, _⟩
  have hrange : (sys.shredder.isInRange (cutLine.numberOfBuffers + 1)).2 = true :=
    (of_run hrun).isInRange_of_lt (by decide)
  have heval : ((run (sampleFormatter.rawBuffers cutLine) (callsInOrder [1, 2])).bind fun sys =>
      (sampleFormatter.formatCalls cutLine 1 sys.returned.reverse ⟨4096, [], []⟩).toOption).isSome = true := by
    decide +kernel
  rw [hrun, Option.bind_some] at heval
  rcases hok : sampleFormatter.formatCalls cutLine 1 sys.returned.reverse ⟨4096, [], []⟩ with error | pec
  · rw [hok] at heval
    cases heval
  · rcases flush_returns_open_tuple sampleFormatter cutLine 1 4096 _ sys hrun hall (by decide +kernel) hrange pec hok
      with ⟨s', number, hflush, -, hfresh⟩
    exact ⟨sys, pec, s', number, hrun, hok, hflush, hfresh⟩

/-- A first line in 64 buffers; the last one holds a second line and the beginning of a third. -/
def openLastBuffer : RawStream where
  buffers := replicate 63 [49] ++ [[10, 49, 10, 50]]
  nonempty := by decide

/-- Buffer 1 arrives last and misses the first span: the flush takes the number 64, under which the second line
was emitted. -/
theorem flush_reuses_number :
    ((run (sampleFormatter.rawBuffers openLastBuffer) (callsInOrder lastBufferFirst)).bind fun sys =>
      (sampleFormatter.formatCalls openLastBuffer 1 sys.returned.reverse ⟨4096, [], []⟩).toOption.bind fun pec =>
        sys.shredder.flushFinalPartialTuple.map fun flushed =>
          (pec.emitted.map sequenceNumber, flushed.2.2)) = some ([64], 64) := by
  decide +kernel

end MobilityNebula.InputFormatters
