import MobilityNebula.InputFormatters.RawStream
import MobilityNebula.InputFormatters.ShredderFlush

/-!
# FormattedCalls — what the calls of the formatter and the flush emit

What the formatter needs from the shredder is a contract: each span between consecutive delimiters is
reported once, with its buffers, and the flush returns the buffers from the last delimiter on.  Under that
contract and for any tuple delimiter, a call either emits nothing, or the tuples of the spans it reports and
the tuples inside its buffer as chunks of its own sequence number (`CallContract.formatBuffers_spec`).
-/

namespace MobilityNebula.InputFormatters

open Library SequenceShredder CSVInputFormatter ProcessSequenceNumberCall ShredderInput List PipelineExecutionContext

/-! ## The contract -/

/-- What the shredder answers to the calls for the buffers `1, …, N`, in the order in which they return, and
to the flush. -/
structure ShredderContract (raw : ShredderInput) (N : Nat)
    (returned : List (ProcessSequenceNumberCall × SpanningTupleBuffers))
    (flushed : SpanningTupleBuffers) : Prop where
  numbers : (returned.map fun result => result.1.sequenceNumber).Perm (range' 1 N)
  delimiter : ∀ result ∈ returned,
    result.1.hasTupleDelimiter = raw.hasTupleDelimiter result.1.sequenceNumber
  buffers : ∀ result ∈ returned, result.2 = raw.buffersOf result.1
  /-- A call reports spans its own buffer belongs to. -/
  contains : ∀ result ∈ returned, ∀ d e, (d, e) ∈ result.1.reportedSpans →
    d ≤ result.1.sequenceNumber ∧ result.1.sequenceNumber ≤ e
  exactlyOnce : (returned.flatMap fun result => result.1.reportedSpans).Nodup
  spans : ∀ d e, (d, e) ∈ (returned.flatMap fun result => result.1.reportedSpans) ↔
    Consecutive raw.Mark d e ∧ e ≤ N
  flush : flushed.stagedBuffers
    = (indicesOfSpan (Nat.findGreatest raw.Mark N) N).map raw.staged
      ++ [dummyStagedBuffer]

/-! ## All calls and the flush -/

namespace CSVInputFormatter

variable (f : CSVInputFormatter)

def formatCalls (stream : RawStream) (originId : Nat) :
    List (ProcessSequenceNumberCall × SpanningTupleBuffers) → PipelineExecutionContext →
      Except FormatterError PipelineExecutionContext
  | [], pec => .ok pec
  | (call, result) :: rest, pec => do
    let pec ← f.formatBuffers (stream.rawTB call.sequenceNumber) originId result pec
    formatCalls stream originId rest pec

def formatAll (stream : RawStream) (originId : Nat) (returned : List (ProcessSequenceNumberCall × SpanningTupleBuffers))
    (flushed : SpanningTupleBuffers) (flushNumber : Nat) (pec : PipelineExecutionContext) :
    Except FormatterError PipelineExecutionContext := do
  let pec ← f.formatCalls stream originId returned pec
  f.formatFlushedBuffers originId flushed flushNumber pec

end CSVInputFormatter

/-! ## The tuples of a call -/

namespace CSVInputFormatter

variable (f : CSVInputFormatter)

def spanTuples (raw : ShredderInput) (s e : Nat) : List Bytes :=
  if s < e then [f.spanTuple raw s e] else []

end CSVInputFormatter

/-- The call does not return early: it has more than a single buffer with a single delimiter. -/
def ProcessSequenceNumberCall.emits (raw : ShredderInput) (call : ProcessSequenceNumberCall) : Bool :=
  if call.hasTupleDelimiter then
    decide (call.startIndex ≠ call.endIndex)
      || decide ((raw.stagedBuffer call.sequenceNumber).offsetOfFirstTupleDelimiter
          ≠ (raw.stagedBuffer call.sequenceNumber).offsetOfLastTupleDelimiter)
  else
    call.returnsBuffers

variable (f : CSVInputFormatter) (raw : ShredderInput)

def CSVInputFormatter.callTuples (call : ProcessSequenceNumberCall) : List Bytes :=
  if call.emits raw then
    if call.hasTupleDelimiter then
      f.spanTuples raw call.startIndex call.sequenceNumber
        ++ (f.innerTuples (raw.stagedBuffer call.sequenceNumber)
          ++ f.spanTuples raw call.sequenceNumber call.endIndex)
    else
      [f.spanTuple raw call.startIndex call.endIndex]
  else
    []

/-- The chunks a call adds to the emitted buffers. -/
def CSVInputFormatter.Produces
    (call : ProcessSequenceNumberCall) (chunks : List FormattedTupleBuffer) : Prop :=
  if call.emits raw then CallOutput call.sequenceNumber (f.callTuples raw call) chunks else chunks = []

/-! ## Stretches of buffers -/

section Stretch

variable {f : CSVInputFormatter} {stream : RawStream} {a x b : Nat}

lemma length_stretch (raw : ShredderInput) (a b : Nat) : ((indicesOfSpan a b).map raw.staged).length = b + 1 - a := by
  rw [length_map, indicesOfSpan, length_range']

lemma isSingleDelimiter_stretch (raw : ShredderInput) (hpos : 0 < x) (hax : a ≤ x) (hxb : x ≤ b) :
    isSingleDelimiter ((indicesOfSpan a b).map raw.staged)
      = (decide (a = b) && decide ((raw.stagedBuffer x).offsetOfFirstTupleDelimiter
          = (raw.stagedBuffer x).offsetOfLastTupleDelimiter)) := by
  by_cases hone : a = b
  · have hx : a = x := by omega
    subst hone hx
    rw [indicesOfSpan, Nat.add_sub_cancel_left, range'_one, map_singleton, staged_of_pos _ hpos]
    simp [isSingleDelimiter]
  · have hlength := length_stretch raw a b
    rw [decide_eq_false hone, Bool.false_and]
    unfold isSingleDelimiter
    split
    case h_1 heq =>
      rw [heq, length_singleton] at hlength
      omega
    case h_2 => rfl

lemma partialTuples_span {s e : Nat} (has : a ≤ s) (hse : s ≤ e) (heb : e ≤ b)
    (hmark : s < e → (f.rawBuffers stream).Mark s) :
    f.PartialTuples ((indicesOfSpan a b).map (f.rawBuffers stream).staged)
      (s - a) (e - a) (f.spanTuples (f.rawBuffers stream) s e) := by
  constructor
  · intro hlt
    have hlt' : s < e := by omega
    exact ⟨_, partialTuple_span has hlt' heb (hmark hlt'), if_pos hlt'⟩
  · intro hnot
    exact if_neg (by omega)

/-- A buffer with a delimiter gets the stretch from the start of the tuple that ends in it to the end of
the tuple that starts in it. -/
lemma formatWithTupleDelimiter_stretch (hpos : 0 < x) (hax : a ≤ x) (hxb : x ≤ b)
    (hstart : a < x → (f.rawBuffers stream).Mark a) (hend : x < b → (f.rawBuffers stream).Mark x)
    (hskip : isSingleDelimiter ((indicesOfSpan a b).map (f.rawBuffers stream).staged) = false)
    (originId : Nat) (pec : PipelineExecutionContext) {tuples : List Bytes}
    (htuples : tuples = f.spanTuples (f.rawBuffers stream) a x ++ (f.innerTuples ((f.rawBuffers stream).stagedBuffer x)
        ++ f.spanTuples (f.rawBuffers stream) x b)) :
    SucceedsIff (∀ w ∈ tuples, f.accepts w = true) (f.formatWithTupleDelimiter (stream.rawTB x) originId
        ⟨x - a, (indicesOfSpan a b).map (f.rawBuffers stream).staged⟩ pec)
      fun pec' => ∃ chunks, pec' = pec.emitAll chunks ∧ CallOutput x tuples chunks ∧
        ∀ b ∈ chunks, f.Layout pec.bufferSize 0 b := by
  have hown : ((indicesOfSpan a b).map (f.rawBuffers stream).staged)[x - a]?
      = some ((f.rawBuffers stream).stagedBuffer x) := by
    rw [getElem?_map, indicesOfSpan, getElem?_range' (by omega),
      Option.map_some, Nat.one_mul, Nat.add_sub_cancel' hax, staged_of_pos _ hpos]
  have hbefore := partialTuples_span (le_refl a) hax hxb hstart
  have hafter := partialTuples_span hax hxb (le_refl b) hend
  have hlast : ((indicesOfSpan a b).map (f.rawBuffers stream).staged).length - 1 = b - a := by
    rw [length_stretch]
    omega
  rw [Nat.sub_self] at hbefore
  rw [← hlast] at hafter
  rw [htuples]
  exact @CSVInputFormatter.formatWithTupleDelimiter_spec f (stream.rawTB x) originId pec
    ⟨x - a, (indicesOfSpan a b).map (f.rawBuffers stream).staged⟩ _ _ _
    hskip hown hbefore hafter

lemma formatWithoutTupleDelimiter_stretch (hax : a < x) (hxb : x < b)
    (hmark : (f.rawBuffers stream).Mark a) (originId : Nat) (pec : PipelineExecutionContext) :
    SucceedsIff (∀ w ∈ [f.spanTuple (f.rawBuffers stream) a b], f.accepts w = true)
      (f.formatWithoutTupleDelimiter (stream.rawTB x) originId
        ⟨x - a, (indicesOfSpan a b).map (f.rawBuffers stream).staged⟩ pec)
      fun pec' => ∃ chunks, pec' = pec.emitAll chunks ∧ CallOutput x [f.spanTuple (f.rawBuffers stream) a b] chunks ∧
          ∀ b ∈ chunks, f.Layout pec.bufferSize 0 b := by
  have hlength := length_stretch (f.rawBuffers stream) a b
  have htuple := partialTuple_span (le_refl a) (hax.trans hxb) (le_refl b) hmark
  rw [Nat.sub_self, show b - a = b + 1 - a - 1 by omega, ← hlength] at htuple
  have hcall := @CSVInputFormatter.formatWithoutTupleDelimiter_spec f (stream.rawTB x) originId pec
    ⟨x - a, (indicesOfSpan a b).map (f.rawBuffers stream).staged⟩ _
    (by rw [hlength]; omega) htuple
  exact hcall.congr (by simp)

end Stretch

/-! ## One call -/

structure CallContract (raw : ShredderInput) (call : ProcessSequenceNumberCall) : Prop where
  pos : 0 < call.sequenceNumber
  delimiter : call.hasTupleDelimiter = raw.hasTupleDelimiter call.sequenceNumber
  span : ∀ d e, (d, e) ∈ call.reportedSpans → Consecutive raw.Mark d e
  contains : ∀ d e, (d, e) ∈ call.reportedSpans → d ≤ call.sequenceNumber ∧ call.sequenceNumber ≤ e

namespace CallContract

variable {raw : ShredderInput} {call : ProcessSequenceNumberCall}

section

variable (h : CallContract raw call) (hyes : call.hasTupleDelimiter = true)
include h hyes

lemma leading (hv : call.spanningTuple.isStartValid = true) :
    Consecutive raw.Mark call.spanningTuple.spanStart call.sequenceNumber :=
  h.span _ _ (by simp [reportedSpans, hyes, hv])

lemma trailing (hv : call.spanningTuple.isEndValid = true) :
    Consecutive raw.Mark call.sequenceNumber call.spanningTuple.spanEnd :=
  h.span _ _ (by simp [reportedSpans, hyes, hv])

lemma stretch : call.startIndex ≤ call.sequenceNumber ∧ call.sequenceNumber ≤ call.endIndex ∧
      (call.startIndex < call.sequenceNumber → Consecutive raw.Mark call.startIndex call.sequenceNumber) ∧
      (call.sequenceNumber < call.endIndex → Consecutive raw.Mark call.sequenceNumber call.endIndex) := by
  unfold startIndex endIndex
  have hleading := h.leading hyes
  have htrailing := h.trailing hyes
  cases hs : call.spanningTuple.isStartValid with
  | false =>
    cases he : call.spanningTuple.isEndValid with
    | false => simp
    | true => simp [htrailing he, le_of_lt (htrailing he).lt]
  | true =>
    cases he : call.spanningTuple.isEndValid with
    | false => simp [hleading hs, le_of_lt (hleading hs).lt]
    | true =>
      simp [hleading hs, htrailing he, le_of_lt (hleading hs).lt, le_of_lt (htrailing he).lt]

lemma reportedSpans_eq : call.reportedSpans
      = (if call.startIndex < call.sequenceNumber then [(call.startIndex, call.sequenceNumber)] else [])
        ++ (if call.sequenceNumber < call.endIndex then [(call.sequenceNumber, call.endIndex)] else []) := by
  have hleading := h.leading hyes
  have htrailing := h.trailing hyes
  unfold reportedSpans startIndex endIndex
  cases hs : call.spanningTuple.isStartValid with
  | false =>
    cases he : call.spanningTuple.isEndValid with
    | false => simp [hyes]
    | true => simp [hyes, (htrailing he).lt]
  | true =>
    cases he : call.spanningTuple.isEndValid with
    | false => simp [hyes, (hleading hs).lt]
    | true => simp [hyes, (hleading hs).lt, (htrailing he).lt]

end

lemma innerStretch (h : CallContract raw call) (hno : call.hasTupleDelimiter = false)
    (hret : call.returnsBuffers = true) :
    call.startIndex < call.sequenceNumber ∧ call.sequenceNumber < call.endIndex ∧
      Consecutive raw.Mark call.startIndex call.endIndex ∧ call.reportedSpans = [(call.startIndex, call.endIndex)] := by
  rw [returnsBuffers, hno, Bool.false_or, Bool.and_eq_true] at hret
  have hspans : call.reportedSpans = [(call.startIndex, call.endIndex)] := by
    simp [reportedSpans, startIndex, endIndex, hno, hret.1, hret.2]
  have hmem : (call.startIndex, call.endIndex) ∈ call.reportedSpans := by
    rw [hspans]
    exact mem_singleton.2 rfl
  have hspan := h.span _ _ hmem
  have hin := h.contains _ _ hmem
  -- the buffer is no mark, so it is neither end of the span
  have hmark : ¬ raw.Mark call.sequenceNumber := by
    rw [raw.mark_iff_of_pos h.pos, ← h.delimiter, hno]
    simp
  refine ⟨lt_of_le_of_ne hin.1 ?_, lt_of_le_of_ne hin.2 ?_, hspan, hspans⟩
  · intro heq
    exact hmark (heq ▸ hspan.left)
  · intro heq
    exact hmark (heq ▸ hspan.right)

lemma emits_of_reports (h : CallContract raw call) {d e : Nat} (hmem : (d, e) ∈ call.reportedSpans) :
    call.emits raw = true := by
  unfold emits
  cases hdel : call.hasTupleDelimiter with
  | true =>
    rcases h.stretch hdel with ⟨hax, hxb, _, _⟩
    have hne : call.startIndex ≠ call.endIndex := by
      intro heq
      rw [h.reportedSpans_eq hdel, if_neg (by omega), if_neg (by omega)] at hmem
      simp at hmem
    simp [hne]
  | false => simpa using CallSpec.returnsBuffers_of_reports hmem

variable {f : CSVInputFormatter} {stream : RawStream}

lemma formatBuffers_spec (h : CallContract (f.rawBuffers stream) call) (originId : Nat)
    (pec : PipelineExecutionContext) :
    SucceedsIff (∀ w ∈ f.callTuples (f.rawBuffers stream) call, f.accepts w = true)
      (f.formatBuffers (stream.rawTB call.sequenceNumber) originId ((f.rawBuffers stream).buffersOf call) pec)
      fun pec' => ∃ chunks, pec' = pec.emitAll chunks ∧ f.Produces (f.rawBuffers stream) call chunks ∧
        ∀ b ∈ chunks, f.Layout pec.bufferSize 0 b := by
  have hbranch : (f.stageRawBuffer (stream.rawTB call.sequenceNumber)).1 = call.hasTupleDelimiter := h.delimiter.symm
  -- a call that returns early needs nothing and emits nothing
  have hnothing : call.emits (f.rawBuffers stream) = false →
      SucceedsIff (∀ w ∈ f.callTuples (f.rawBuffers stream) call, f.accepts w = true)
        (.ok pec : Except FormatterError PipelineExecutionContext) fun pec' =>
          ∃ chunks, pec' = pec.emitAll chunks ∧ f.Produces (f.rawBuffers stream) call chunks ∧
            ∀ b ∈ chunks, f.Layout pec.bufferSize 0 b := by
    intro hemits
    refine ⟨fun _ => ⟨pec, rfl, [], pec.emitAll_nil.symm, ?_, by simp⟩, fun hnot => absurd ?_ hnot⟩
    · rw [Produces, if_neg (by simp [hemits])]
    · simp [callTuples, hemits]
  rw [formatBuffers, hbranch]
  cases hdel : call.hasTupleDelimiter with
  | true =>
    rcases h.stretch hdel with ⟨hax, hxb, hstart, hend⟩
    have hbuffers : (f.rawBuffers stream).buffersOf call = ⟨call.sequenceNumber - call.startIndex,
            (indicesOfSpan call.startIndex call.endIndex).map (f.rawBuffers stream).staged⟩ := by
      simp [buffersOf, returnsBuffers, hdel]
    have hskip := isSingleDelimiter_stretch (f.rawBuffers stream).toShredderInput h.pos hax hxb
    rw [if_pos rfl, hbuffers]
    cases hemits : call.emits (f.rawBuffers stream) with
    | false =>
      have hsingle : isSingleDelimiter ((indicesOfSpan call.startIndex call.endIndex).map
            (f.rawBuffers stream).staged) = true := by
        rw [hskip]
        simpa [emits, hdel] using hemits
      rw [formatWithTupleDelimiter]
      simp only [hsingle, if_true]
      exact hnothing hemits
    | true =>
      have hmore : isSingleDelimiter ((indicesOfSpan call.startIndex call.endIndex).map
            (f.rawBuffers stream).staged) = false := by
        rw [hskip]
        simpa [emits, hdel, ← not_and_or] using hemits
      refine (formatWithTupleDelimiter_stretch h.pos hax hxb (fun hlt => (hstart hlt).left)
        (fun hlt => (hend hlt).left) hmore originId pec (by
          rw [callTuples, if_pos hemits, if_pos hdel])).mono ?_
      rintro pec' ⟨chunks, hpec, houtput, hlayout⟩
      exact ⟨chunks, hpec, by rwa [Produces, if_pos hemits], hlayout⟩
  | false =>
    have hemits : call.emits (f.rawBuffers stream) = call.returnsBuffers := by
      simp [emits, hdel]
    rw [if_neg (by simp), buffersOf]
    cases hret : call.returnsBuffers with
    | false =>
      -- nothing was returned, so there is nothing to format
      exact hnothing (hemits.trans hret)
    | true =>
      rcases h.innerStretch hdel hret with ⟨hax, hxb, hspan, _⟩
      have htuples : f.callTuples (f.rawBuffers stream) call
          = [f.spanTuple (f.rawBuffers stream) call.startIndex call.endIndex] := by
        simp [callTuples, hemits, hret, hdel]
      rw [htuples]
      refine (formatWithoutTupleDelimiter_stretch hax hxb hspan.left originId pec).mono ?_
      rintro pec' ⟨chunks, hpec, houtput, hlayout⟩
      refine ⟨chunks, hpec, ?_, hlayout⟩
      rwa [Produces, if_pos (hemits.trans hret), htuples]

end CallContract

/-! ## All calls and the flush -/

/-- The chunks the flush adds: those of the tuple behind the last mark, unless it is empty. -/
def CSVInputFormatter.FlushProduces (N flushNumber : Nat)
    (chunks : List FormattedTupleBuffer) : Prop :=
  if f.openTuple raw N = [] then chunks = [] else CallOutput flushNumber [f.openTuple raw N] chunks

section AllCalls

variable {f : CSVInputFormatter} {stream : RawStream}

lemma formatCalls_spec (originId : Nat) (returned : List (ProcessSequenceNumberCall × SpanningTupleBuffers))
    (hcalls : ∀ result ∈ returned, CallContract (f.rawBuffers stream) result.1 ∧
      result.2 = (f.rawBuffers stream).buffersOf result.1) (pec : PipelineExecutionContext) :
    SucceedsIff (∀ w ∈ returned.flatMap (fun result => f.callTuples (f.rawBuffers stream) result.1), f.accepts w = true)
      (f.formatCalls stream originId returned pec)
      fun pec' => ∃ outputs : List (List FormattedTupleBuffer), pec' = pec.emitAll outputs.flatten ∧
        List.Forall₂ (fun result => f.Produces (f.rawBuffers stream) result.1) returned outputs ∧
        ∀ b ∈ outputs.flatten, f.Layout pec.bufferSize 0 b := by
  induction returned generalizing pec with
  | nil =>
    exact ⟨fun _ => ⟨pec, rfl, [], pec.emitAll_nil.symm, .nil, by simp⟩,
      fun hnot => absurd (by simp) hnot⟩
  | cons result rest ih =>
    rcases result with ⟨call, buffers⟩
    have hcall := hcalls _ mem_cons_self
    have hrest := fun result hresult => hcalls result (mem_cons_of_mem _ hresult)
    have hbuffers : buffers = (f.rawBuffers stream).buffersOf call := hcall.2
    subst hbuffers
    have hfirst := hcall.1.formatBuffers_spec originId pec
    refine (hfirst.bind fun pec' hpec' => (ih hrest pec').mono (S := fun pec'' =>
      ∃ outputs : List (List FormattedTupleBuffer), pec'' = pec.emitAll outputs.flatten ∧
        List.Forall₂ (fun result => f.Produces (f.rawBuffers stream) result.1)
          ((call, (f.rawBuffers stream).buffersOf call) :: rest) outputs ∧
        ∀ b ∈ outputs.flatten, f.Layout pec.bufferSize 0 b) ?_).congr ?_
    · rintro pec'' ⟨outputs, hpec'', hproduce, hlayouts⟩
      rcases hpec' with ⟨chunks, rfl, hchunks, hlayout⟩
      refine ⟨chunks :: outputs, ?_, hproduce.cons hchunks, ?_⟩
      · rw [hpec'', emitAll_append, flatten_cons]
      · rw [flatten_cons]
        exact forall_mem_append.2 ⟨hlayout, hlayouts⟩
    · rw [flatMap_cons, forall_mem_append]

/-- The flushed tuple is what stands behind the last mark. -/
lemma partialTuple_flushed (f : CSVInputFormatter) (stream : RawStream) (N : Nat) :
    f.partialTuple 0 (N + 1 - Nat.findGreatest (f.rawBuffers stream).Mark N)
        ((indicesOfSpan (Nat.findGreatest (f.rawBuffers stream).Mark N) N).map (f.rawBuffers stream).staged
          ++ [dummyStagedBuffer]) = .ok (f.openTuple (f.rawBuffers stream) N) := by
  have hle : Nat.findGreatest (f.rawBuffers stream).Mark N ≤ N := Nat.findGreatest_le N
  have hmark : (f.rawBuffers stream).Mark (Nat.findGreatest (f.rawBuffers stream).Mark N) :=
    Nat.findGreatest_spec (Nat.zero_le N) (mark_zero _)
  have hsame : ∀ p, p ≤ N → ((f.rawBuffers stream).withDummy (N + 1)).staged p = (f.rawBuffers stream).staged p :=
    fun p hp => withDummy_staged (Nat.ne_of_lt (Nat.lt_succ_of_le hp))
  -- the dummy takes the position behind the last buffer
  have hwhole := partialTuple_map (f := f) ((f.rawBuffers stream).withDummy (N + 1)).staged
    (a := Nat.findGreatest (f.rawBuffers stream).Mark N) le_rfl (Nat.lt_succ_of_le hle) le_rfl (by
      rw [hsame _ hle]
      exact firstBytesOfPartialTuple_eq hmark)
  rw [Nat.sub_self, map_staged_withDummy hle] at hwhole
  have hdummy : (((f.rawBuffers stream).withDummy (N + 1)).staged (N + 1)).getBuffer = [] := by
    rw [staged_of_pos _ (Nat.succ_pos N), withDummy_stagedBuffer_self]
    rfl
  have hbetween : (range' (Nat.findGreatest (f.rawBuffers stream).Mark N + 1)
        (N + 1 - (Nat.findGreatest (f.rawBuffers stream).Mark N + 1))).flatMap (fun p =>
          (((f.rawBuffers stream).withDummy (N + 1)).staged p).getBuffer.take
            (((f.rawBuffers stream).withDummy (N + 1)).staged p).sizeOfBufferInBytes)
      = bytesBetween (f.rawBuffers stream) (Nat.findGreatest (f.rawBuffers stream).Mark N) (N + 1) := by
    refine flatMap_congr fun p hp => ?_
    have hrange := mem_range'_1.1 hp
    rw [hsame p (by omega)]
  rw [hwhole, hdummy, hbetween, take_nil, append_nil]
  rfl

variable {returned : List (ProcessSequenceNumberCall × SpanningTupleBuffers)}
  {flushed : SpanningTupleBuffers} {N : Nat}

variable (h : ShredderContract (f.rawBuffers stream) N returned flushed)
include h

variable (originId flushNumber : Nat)

lemma formatFlushedBuffers_contract (pec : PipelineExecutionContext) :
    SucceedsIff (f.accepts (f.openTuple (f.rawBuffers stream) N) = true)
      (f.formatFlushedBuffers originId flushed flushNumber pec)
      fun pec' => ∃ chunks, pec' = pec.emitAll chunks ∧ f.FlushProduces (f.rawBuffers stream) N flushNumber chunks ∧
        ∀ b ∈ chunks, f.Layout pec.bufferSize 0 b := by
  have hle : Nat.findGreatest (f.rawBuffers stream).Mark N ≤ N := Nat.findGreatest_le N
  have hlength : flushed.stagedBuffers.length = N + 1 - Nat.findGreatest (f.rawBuffers stream).Mark N + 1 := by
    rw [h.flush, length_append, length_stretch, length_singleton]
  have htuple := partialTuple_flushed f stream N
  rw [← h.flush, show N + 1 - Nat.findGreatest (f.rawBuffers stream).Mark N
    = flushed.stagedBuffers.length - 1 by omega] at htuple
  refine (formatFlushedBuffers_spec f originId flushNumber pec (by omega)
    htuple).mono ?_
  intro pec' hpec'
  by_cases hempty : f.openTuple (f.rawBuffers stream) N = []
  · rw [if_pos hempty] at hpec'
    exact ⟨[], hpec'.trans pec.emitAll_nil.symm, (if_pos hempty).mpr rfl, by simp⟩
  · rw [if_neg hempty] at hpec'
    rcases hpec' with ⟨chunks, hpec', houtput, hlayout⟩
    exact ⟨chunks, hpec', (if_neg hempty).mpr houtput, hlayout⟩

lemma ShredderContract.call
    {result : ProcessSequenceNumberCall × SpanningTupleBuffers} (hresult : result ∈ returned) :
    CallContract (f.rawBuffers stream) result.1 := by
  have hnumber := h.numbers.mem_iff.1 (mem_map_of_mem hresult)
  have hrange := mem_range'_1.1 hnumber
  refine ⟨by omega, h.delimiter _ hresult, ?_, h.contains _ hresult⟩
  intro s e hmem
  exact ((h.spans s e).1 (mem_flatMap.2 ⟨result, hresult, hmem⟩)).1

/-- All calls and the flush succeed exactly if all tuples are accepted; each call then produces its
chunks. -/
lemma formatAll_spec (pec : PipelineExecutionContext) : SucceedsIff
      ((∀ w ∈ returned.flatMap (fun result => f.callTuples (f.rawBuffers stream) result.1), f.accepts w = true) ∧
        f.accepts (f.openTuple (f.rawBuffers stream) N) = true)
      (f.formatAll stream originId returned flushed flushNumber pec)
      fun pec' => ∃ (outputs : List (List FormattedTupleBuffer)) (last : List FormattedTupleBuffer),
        pec' = pec.emitAll (outputs.flatten ++ last) ∧
        List.Forall₂ (fun result => f.Produces (f.rawBuffers stream) result.1) returned outputs ∧
        f.FlushProduces (f.rawBuffers stream) N flushNumber last ∧
        ∀ b ∈ outputs.flatten ++ last, f.Layout pec.bufferSize 0 b := by
  have hcalls := formatCalls_spec originId returned
    (fun result hresult => ⟨h.call hresult, h.buffers result hresult⟩) pec
  refine hcalls.bind fun pec' hpec' => (formatFlushedBuffers_contract h originId flushNumber pec').mono ?_
  rintro pec'' ⟨last, hpec'', hflush, hlast⟩
  rcases hpec' with ⟨outputs, rfl, hproduce, hlayouts⟩
  refine ⟨outputs, last, ?_, hproduce, hflush, forall_mem_append.2 ⟨hlayouts, hlast⟩⟩
  rw [hpec'', emitAll_append]

end AllCalls

end MobilityNebula.InputFormatters
