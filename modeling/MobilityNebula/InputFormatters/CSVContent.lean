import MobilityNebula.InputFormatters.FormattedCalls
import MobilityNebula.InputFormatters.TupleStream

/-!
# CSVContent — the formatter emits the tuples of the stream

Under the contract of the shredder and with a one-byte tuple delimiter, the formatter emits every piece of
the stream once, wherever the stream was cut into buffers and in whatever order they were processed
(`emitted_tuples_perm_pieces`).

A piece with a field that a parse function rejects makes the call that processes it throw.
-/

namespace MobilityNebula.InputFormatters

open Library FormattedTupleBuffer CSVInputFormatter ProcessSequenceNumberCall List

/-! ## The chunks of several calls -/

def CSVInputFormatter.insideTuples (f : CSVInputFormatter) (stream : RawStream) (n : Nat) : List Bytes :=
  if (f.rawBuffers stream).hasTupleDelimiter n then f.innerTuples ((f.rawBuffers stream).stagedBuffer n) else []

section Outputs

variable {f : CSVInputFormatter} {raw : ShredderInput}
  {returned : List (ProcessSequenceNumberCall × SpanningTupleBuffers)}
  {outputs : List (List FormattedTupleBuffer)}

variable {call : ProcessSequenceNumberCall} {chunks : List FormattedTupleBuffer}

lemma CSVInputFormatter.Produces.processed
    (h : f.Produces raw call chunks) :
    chunks.flatMap processedTuples = f.callTuples raw call ∧
      ∀ b ∈ chunks, b.numberOfTuples = b.processedTuples.length := by
  unfold Produces at h
  split at h
  case isTrue => exact ⟨h.processed, h.counted⟩
  case isFalse hnot =>
    subst h
    simp [callTuples, hnot]

lemma processed_of_forall₂ (h : List.Forall₂ (fun result => f.Produces raw result.1) returned outputs) :
    outputs.flatten.flatMap processedTuples = returned.flatMap (fun result => f.callTuples raw result.1) ∧
      ∀ b ∈ outputs.flatten, b.numberOfTuples = b.processedTuples.length := by
  induction h with
  | nil => simp
  | cons hcall _ ih =>
    have hfirst := hcall.processed
    refine ⟨?_, ?_⟩
    · rw [flatten_cons, flatMap_append, flatMap_cons, hfirst.1, ih.1]
    · intro b hb
      rcases mem_append.1 hb with hnew | hold
      · exact hfirst.2 b hnew
      · exact ih.2 b hold

lemma CSVInputFormatter.FlushProduces.processed {N flushNumber : Nat} (h : f.FlushProduces raw N flushNumber chunks) :
    chunks.flatMap processedTuples = (if f.openTuple raw N = [] then [] else [f.openTuple raw N]) ∧
      ∀ b ∈ chunks, b.numberOfTuples = b.processedTuples.length := by
  unfold FlushProduces at h
  split at h
  case isTrue hempty =>
    subst h
    simp [hempty]
  case isFalse hnot => exact ⟨by rw [if_neg hnot, h.processed], h.counted⟩

variable {flushed : SpanningTupleBuffers}

/-- The spans are reported once and the buffers are processed once. -/
lemma ShredderContract.tuples_perm_of {N : Nat}
    (h : ShredderContract raw N returned flushed) {text : Nat × Nat → Bytes} {inside : Nat → List Bytes}
    (hcall : ∀ result ∈ returned, (f.callTuples raw result.1).Perm
      (result.1.reportedSpans.map text ++ inside result.1.sequenceNumber)) :
    (returned.flatMap fun result => f.callTuples raw result.1).Perm
      ((spansUpTo raw.Mark N).map text ++ (range' 1 N).flatMap inside) := by
  have hspans : (returned.flatMap fun result => result.1.reportedSpans).Perm (spansUpTo raw.Mark N) := by
    refine (perm_ext_iff_of_nodup h.exactlyOnce (nodup_spansUpTo raw.mark_zero _)).2 ?_
    rintro ⟨s, e⟩
    rw [h.spans, mem_spansUpTo raw.mark_zero]
  have hinside := h.numbers.flatMap_right inside
  rw [flatMap_map] at hinside
  refine (List.Perm.flatMap_left _ hcall).trans ((flatMap_append_perm _ _ _).symm.trans ?_)
  refine .append ?_ hinside
  have hmapped := hspans.map text
  rwa [map_flatMap] at hmapped

lemma CallContract.reportedSpans_of_not_emits (h : CallContract raw call)
    (hemits : call.emits raw = false) : call.reportedSpans = [] := by
  by_contra hne
  rcases exists_mem_of_ne_nil _ hne with ⟨⟨s, e⟩, hmem⟩
  exact absurd (h.emits_of_reports hmem) (by simp [hemits])

/-- The tuples of a call are those of the spans it reports and those inside its buffer. -/
lemma CallContract.callTuples_perm {stream : RawStream} (h : CallContract (f.rawBuffers stream) call)
    (hnone : call.emits (f.rawBuffers stream) = false → f.insideTuples stream call.sequenceNumber = []) :
    (f.callTuples (f.rawBuffers stream) call).Perm
      (call.reportedSpans.map (fun span => f.spanTuple (f.rawBuffers stream) span.1 span.2)
        ++ f.insideTuples stream call.sequenceNumber) := by
  cases hemits : call.emits (f.rawBuffers stream) with
  | false => simp [callTuples, hemits, h.reportedSpans_of_not_emits hemits, hnone hemits]
  | true =>
    rw [callTuples, if_pos hemits, insideTuples, ← h.delimiter]
    cases hdel : call.hasTupleDelimiter with
    | true =>
      rw [if_pos rfl, if_pos rfl, h.reportedSpans_eq hdel, map_append, append_assoc]
      unfold spanTuples
      split_ifs <;> exact .append_left _ perm_append_comm
    | false =>
      have hreturns : call.returnsBuffers = true := by
        simpa [emits, hdel] using hemits
      rw [if_neg Bool.false_ne_true, if_neg Bool.false_ne_true, (h.innerStretch hdel hreturns).2.2.2, append_nil]
      exact .refl _

/-- If the tuples of the calls and the open tuple make up the pieces, all calls and the flush succeed exactly if all
pieces are accepted, and then emit them. -/
lemma ShredderContract.formatAll_of_pieces {stream : RawStream} {N : Nat}
    (h : ShredderContract (f.rawBuffers stream) N returned flushed) {all done : List Bytes}
    (hdone : (returned.flatMap fun result => f.callTuples (f.rawBuffers stream) result.1).Perm done)
    (hall : all = done ++ (if f.openTuple (f.rawBuffers stream) N = [] then []
      else [f.openTuple (f.rawBuffers stream) N])) (originId flushNumber : Nat) (pec : PipelineExecutionContext) :
    SucceedsIff (∀ w ∈ all, f.accepts w = true) (f.formatAll stream originId returned flushed flushNumber pec)
      fun pec' => ∃ chunks, pec' = pec.emitAll chunks ∧ (chunks.flatMap processedTuples).Perm all ∧
        ∀ b ∈ chunks, b.numberOfTuples = b.processedTuples.length := by
  refine ((formatAll_spec h originId flushNumber pec).mono ?_).congr ?_
  · rintro pec' ⟨outputs, last, hpec, hproduce, hflush, _⟩
    have hcalls := processed_of_forall₂ hproduce
    have hlast := hflush.processed
    refine ⟨outputs.flatten ++ last, hpec, ?_, forall_mem_append.2 ⟨hcalls.2, hlast.2⟩⟩
    rw [flatMap_append, hcalls.1, hlast.1, hall]
    exact hdone.append_right _
  · -- the pieces are those of the calls and the one of the flush
    have hforall : (∀ w ∈ returned.flatMap (fun result => f.callTuples (f.rawBuffers stream) result.1),
        f.accepts w = true) ↔ ∀ w ∈ done, f.accepts w = true :=
      ⟨fun hall w hw => hall w (hdone.mem_iff.2 hw), fun hall w hw => hall w (hdone.mem_iff.1 hw)⟩
    rw [hall, forall_mem_append, hforall]
    by_cases hempty : f.openTuple (f.rawBuffers stream) N = []
    · simp [hempty, accepts_nil]
    · simp [hempty]

end Outputs

/-! ## The pieces of the calls -/

section OneByte

variable {f : CSVInputFormatter} {d : UInt8} {stream : RawStream} {call : ProcessSequenceNumberCall}
variable (hd : f.tupleDelimiter = [d])

include hd

lemma insideTuples_eq (p : Nat) : f.insideTuples stream p = inner d (stream.bytes p) := by
  unfold insideTuples
  split
  case isTrue hyes => exact innerTuples_stagedBuffer hd ((hasTupleDelimiter_iff hd).1 hyes)
  case isFalse hno => exact (inner_of_not_mem (mt (hasTupleDelimiter_iff hd).2 hno)).symm

lemma inner_of_not_emits (h : CallContract (f.rawBuffers stream) call)
    (hnot : call.emits (f.rawBuffers stream) = false) : inner d (stream.bytes call.sequenceNumber) = [] := by
  cases hdel : call.hasTupleDelimiter with
  | true =>
    have hmem : d ∈ stream.bytes call.sequenceNumber := (hasTupleDelimiter_iff hd).1 (h.delimiter ▸ hdel)
    simp only [emits, hdel, if_true, Bool.or_eq_false_iff,
      stagedBuffer_of_mem hd hmem, decide_eq_false_iff_not, not_not] at hnot
    exact inner_eq_nil hmem hnot.2
  | false => simp [← insideTuples_eq hd, insideTuples, ← h.delimiter, hdel]

/-! ## All calls -/

variable {returned : List (ProcessSequenceNumberCall × SpanningTupleBuffers)}
  {flushed : SpanningTupleBuffers}

/-- The calls process the texts of all spans and the inner pieces of all buffers. -/
lemma ShredderContract.tuples_perm (h : ShredderContract (f.rawBuffers stream)
      stream.numberOfBuffers returned flushed) :
    (returned.flatMap fun result => f.callTuples (f.rawBuffers stream) result.1).Perm
      ((spansUpTo (BlockMark d stream.bytes) stream.numberOfBuffers).map
          (fun span => spanText d stream.bytes span.1 span.2)
        ++ (range' 1 stream.numberOfBuffers).flatMap fun p => inner d (stream.bytes p)) := by
  have hmark : (f.rawBuffers stream).Mark = BlockMark d stream.bytes := funext fun p => propext (mark_iff hd)
  have hperm := h.tuples_perm_of fun result hresult => (h.call hresult).callTuples_perm fun hemits =>
    (insideTuples_eq hd _).trans (inner_of_not_emits hd (h.call hresult) hemits)
  have htexts : ∀ span ∈ spansUpTo (f.rawBuffers stream).Mark stream.numberOfBuffers,
      f.spanTuple (f.rawBuffers stream) span.1 span.2 = spanText d stream.bytes span.1 span.2 := fun span hspan =>
    spanTuple_eq hd ((mem_spansUpTo (f.rawBuffers stream).mark_zero).1 hspan).1
  rwa [map_congr_left htexts, spansUpTo_congr hmark, funext (insideTuples_eq hd)] at hperm

end OneByte

/-! ## The content law -/

/-- The calls and the flush succeed exactly if no piece of the stream is malformed; the tuples counted in
the emitted buffers are then the pieces of the stream. -/
theorem emitted_tuples_perm_pieces (f : CSVInputFormatter) (d : UInt8) (hd : f.tupleDelimiter = [d])
    (stream : RawStream) (returned : List (ProcessSequenceNumberCall × SpanningTupleBuffers))
    (flushed : SpanningTupleBuffers)
    (contract : ShredderContract (f.rawBuffers stream) stream.numberOfBuffers returned flushed)
    (originId flushNumber bufferSize : Nat) :
    ((∃ pec, f.formatAll stream originId returned flushed flushNumber ⟨bufferSize, [], []⟩ = .ok pec)
      ↔ ∀ w ∈ piecesOf d stream.content, f.accepts w = true) ∧
    ∀ pec, f.formatAll stream originId returned flushed flushNumber ⟨bufferSize, [], []⟩ = .ok pec →
      (pec.emitted.flatMap processedTuples).Perm (piecesOf d stream.content) ∧
      ∀ b ∈ pec.emitted, b.numberOfTuples = b.processedTuples.length := by
  rcases @splitOn_textUpTo _ _ d stream.bytes rfl stream.numberOfBuffers with ⟨done, hsplit, hperm⟩
  have hpieces : piecesOf d stream.content
      = done ++ (if f.openTuple (f.rawBuffers stream) stream.numberOfBuffers = [] then []
          else [f.openTuple (f.rawBuffers stream) stream.numberOfBuffers]) := by
    rw [openTuple_eq hd, piecesOf, stream.content_eq, hsplit, getLast?_concat, dropLast_concat]
    by_cases hempty : openText d stream.bytes stream.numberOfBuffers = []
    · simp [hempty]
    · simp [hempty]
  have hspec := contract.formatAll_of_pieces ((contract.tuples_perm hd).trans hperm.symm) hpieces originId flushNumber
    ⟨bufferSize, [], []⟩
  refine ⟨hspec.exists_ok_iff, fun pec hrun => ?_⟩
  rcases (hspec.of_eq_ok hrun).2 with ⟨chunks, rfl, hemitted, hcounted⟩
  exact ⟨hemitted, hcounted⟩

/-! ### A small stream -/

def sampleFormatter : CSVInputFormatter where
  tupleDelimiter := [10]
  fieldDelimiter := [44]
  fieldParseFunctions := [parseUInt8]
  fieldSizes := [1]

/-- The line `c2` in two buffers and the start of another line. -/
def sampleStream (c : UInt8) : RawStream where
  buffers := [[c], [50, 10, 51]]
  nonempty := by simp

/-- The second buffer comes first and completes nothing; the first one then completes the first line. -/
def sampleReturned (raw : ShredderInput) : List (ProcessSequenceNumberCall × SpanningTupleBuffers) :=
  [⟨2, true, raw.stagedBuffer 2, ⟨0, 0, false, false⟩, 63⟩,
    ⟨1, false, raw.stagedBuffer 1, ⟨0, 2, true, true⟩, 63⟩].map fun call => (call, raw.buffersOf call)

def sampleFlushed (raw : ShredderInput) : SpanningTupleBuffers :=
  ⟨1, [raw.staged 2, SequenceShredder.dummyStagedBuffer]⟩

lemma sampleContract {c : UInt8} {raw : ShredderInput} (hraw : raw = sampleFormatter.rawBuffers (sampleStream c))
    (hno : raw.hasTupleDelimiter 1 = false) : ShredderContract raw 2 (sampleReturned raw) (sampleFlushed raw) := by
  have hyes : raw.hasTupleDelimiter 2 = true := by
    rw [hraw]
    rfl
  have hspans : spansUpTo raw.Mark 2 = [(0, 2)] := by
    simp [spansUpTo, ShredderInput.Mark, hno, hyes, Nat.findGreatest]
  refine ⟨.swap _ _ _, ?_, ?_, ?_, ?_, ?_, ?_⟩
  · simp [sampleReturned, hno, hyes]
  · simp [sampleReturned]
  · simp [sampleReturned, reportedSpans]
  · simp [sampleReturned, reportedSpans]
  · intro s e
    rw [← mem_spansUpTo raw.mark_zero, hspans]
    simp [sampleReturned, reportedSpans]
  · simp [sampleFlushed, Nat.findGreatest, ShredderInput.Mark, hyes, SequenceShredder.indicesOfSpan]

/-- The lines `12` and `3`. -/
theorem emitted_tuples_perm_pieces_applies : ∃ pec, sampleFormatter.formatAll (sampleStream 49) 1
        (sampleReturned (sampleFormatter.rawBuffers (sampleStream 49)))
        (sampleFlushed (sampleFormatter.rawBuffers (sampleStream 49))) 3 ⟨4096, [], []⟩ = .ok pec ∧
      (pec.emitted.flatMap processedTuples).Perm [[49, 50], [51]] := by
  have hlaw := emitted_tuples_perm_pieces sampleFormatter 10 rfl (sampleStream 49) _ _
    (sampleContract rfl (by decide)) 1 3 4096
  rcases hlaw.1.2 (by decide) with ⟨pec, hrun⟩
  exact ⟨pec, hrun, (hlaw.2 pec hrun).1⟩

/-- The line `x2` is no number: the call that completes it throws, and nothing is emitted. -/
theorem malformed_line_throws : ShredderContract (sampleFormatter.rawBuffers (sampleStream 120)) 2
        (sampleReturned (sampleFormatter.rawBuffers (sampleStream 120)))
        (sampleFlushed (sampleFormatter.rawBuffers (sampleStream 120))) ∧
      piecesOf 10 (sampleStream 120).content = [[120, 50], [51]] ∧
      sampleFormatter.formatAll (sampleStream 120) 1 (sampleReturned (sampleFormatter.rawBuffers (sampleStream 120)))
        (sampleFlushed (sampleFormatter.rawBuffers (sampleStream 120))) 3 ⟨4096, [], []⟩
        = .error (.cannotFormatMalformedStringValue .notAnInteger [120, 50]) :=
  ⟨sampleContract rfl (by decide), by decide, by rfl⟩

end MobilityNebula.InputFormatters
