import MobilityNebula.InputFormatters.CSVContent

/-!
# RowAlignment — where the rows of a formatted buffer start

The offset moves by the size of the fields that are written, and a tuple with too few tokens writes too few
fields.  `row_alignment_iff`: the rows stay aligned exactly if every tuple writes a whole row.  For calls with
well-formed lines `parse_call_chunks` says which buffers they emit and where in them the rows are.
-/

namespace MobilityNebula.InputFormatters

open Library CSVInputFormatter List FormattedTupleBuffer PipelineExecutionContext

/-! ## Alignment -/

/-- Between two tuples: the offset is that of the next row. -/
def ProgressTracker.Aligned (f : CSVInputFormatter) (t : ProgressTracker) : Prop :=
  t.currentFieldOffsetTBFormatted = t.numTuplesInTBFormatted * f.tupleSizeInBytes

/-- The rounds in which a call processes its tuples, with the tracker after each of them.  The flag says whether
the round starts with `checkAndHandleFullBuffer`; that of a leading partial tuple does not. -/
def CSVInputFormatter.processTuples (f : CSVInputFormatter) : List (Bool × Bytes) → PipelineExecutionContext →
    ProgressTracker → Except FormatterError (List ProgressTracker)
  | [], _, _ => .ok []
  | (isChecked, tuple) :: rest, pec, t => do
    let checked := if isChecked then t.checkAndHandleFullBuffer f pec else (pec, t)
    let processed ← checked.2.processCurrentTuple f tuple
    let trackers ← processTuples f rest checked.1 (processed.progressOneTuple f)
    .ok (processed.progressOneTuple f :: trackers)

namespace ProgressTracker

variable {f : CSVInputFormatter} {t t' : ProgressTracker}

lemma Aligned.check (h : t.Aligned f) (isChecked : Bool) (pec : PipelineExecutionContext) :
    (if isChecked then t.checkAndHandleFullBuffer f pec else (pec, t)).2.Aligned f := by
  cases isChecked with
  | false => exact h
  | true =>
    rcases t.checkAndHandleFullBuffer_eq f pec with ⟨heq, _⟩ | heq
    · simpa [heq] using h
    · simp [heq, Aligned, afterFullChunk]

/-- A tuple keeps the alignment exactly if it writes a whole row. -/
lemma Aligned.tuple_iff (h : t.Aligned f) {tuple : Bytes} (hok : t.processCurrentTuple f tuple = .ok t') :
    (t'.progressOneTuple f).Aligned f ↔ f.writtenSize tuple = f.tupleSizeInBytes := by
  rcases ((t.processCurrentTuple_spec f tuple).of_eq_ok hok).2 with ⟨writes, _, rfl⟩
  calc ProgressTracker.Aligned f _ ↔ t.currentFieldOffsetTBFormatted + f.writtenSize tuple
          = (t.numTuplesInTBFormatted + 1) * f.tupleSizeInBytes := .rfl
    _ ↔ f.writtenSize tuple = f.tupleSizeInBytes := by
        rw [h, Nat.succ_mul, Nat.add_right_inj]

end ProgressTracker

/-- Over any tuples that are parsed without an exception the rows stay aligned exactly if no tuple writes less
than a row. -/
theorem row_alignment_iff (f : CSVInputFormatter) (tuples : List (Bool × Bytes)) (pec : PipelineExecutionContext)
    (t : ProgressTracker) (hstart : t.Aligned f) (trackers : List ProgressTracker)
    (hok : f.processTuples tuples pec t = .ok trackers) :
    (∀ t' ∈ trackers, t'.Aligned f) ↔ ∀ tuple ∈ tuples, f.writtenSize tuple.2 = f.tupleSizeInBytes := by
  induction tuples generalizing pec t trackers with
  | nil =>
    cases hok
    simp
  | cons round rest ih =>
    rcases round with ⟨isChecked, tuple⟩
    rw [processTuples] at hok
    rcases exists_of_bind_eq_ok hok with ⟨processed, hprocess, hok⟩
    rcases exists_of_bind_eq_ok hok with ⟨later, hrest, hok⟩
    cases hok
    have hfirst := (hstart.check isChecked pec).tuple_iff hprocess
    rw [forall_mem_cons, forall_mem_cons, hfirst]
    -- the later rounds start aligned, or the first one already went wrong
    exact and_congr_right fun hrow => ih _ _ (hfirst.2 hrow) _ hrest

/-! ## The rounds of a call -/

section

variable {f : CSVInputFormatter} {pec pec' : PipelineExecutionContext} {t t' : ProgressTracker}

lemma processTuples_cons {isChecked : Bool} {tuple : Bytes} {rest : List (Bool × Bytes)}
    {checked : PipelineExecutionContext × ProgressTracker} {processed : ProgressTracker}
    {trackers : List ProgressTracker}
    (hchecked : (if isChecked then t.checkAndHandleFullBuffer f pec else (pec, t)) = checked)
    (hprocess : checked.2.processCurrentTuple f tuple = .ok processed)
    (hrest : f.processTuples rest checked.1 (processed.progressOneTuple f) = .ok trackers) :
    f.processTuples ((isChecked, tuple) :: rest) pec t = .ok (processed.progressOneTuple f :: trackers) := by
  rw [processTuples, hchecked]
  simp only [hprocess, hrest, bind, Except.bind]

lemma processTuples_of_processPartialTuple {isChecked isNotEmpty : Bool} {i j : Nat} {buffers : List StagedBuffer}
    {checked : PipelineExecutionContext × ProgressTracker}
    (hchecked : (if isChecked then t.checkAndHandleFullBuffer f pec else (pec, t)) = checked)
    (h : f.processPartialTuple i j buffers checked.2 = .ok (t', isNotEmpty)) :
    ∃ tuple, f.partialTuple i j buffers = .ok tuple ∧ f.processTuples [(isChecked, tuple)] pec t = .ok [t'] := by
  rcases exists_of_bind_eq_ok h with ⟨tuple, htuple, h⟩
  rcases exists_of_bind_eq_ok h with ⟨processed, hprocessed, h⟩
  cases h
  exact ⟨tuple, htuple, processTuples_cons hchecked hprocessed (processTuples.eq_1 ..)⟩

lemma processTuples_of_processCurrentBufferLoop {fuel : Nat}
    (h : t.processCurrentBufferLoop f fuel pec = .ok (pec', t')) :
    ∃ lines trackers, f.processTuples (map (true, ·) lines) pec t = .ok trackers ∧ trackers.getLastD t = t' := by
  induction fuel generalizing pec t with
  | zero => cases h
  | succ fuel ih =>
    unfold ProgressTracker.processCurrentBufferLoop at h
    split at h
    · cases h
      exact ⟨[], [], rfl, rfl⟩
    · rcases exists_of_bind_eq_ok h with ⟨processed, hprocessed, hrest⟩
      rcases ih hrest with ⟨lines, trackers, htrackers, hlast⟩
      exact ⟨_ :: lines, _, processTuples_cons (if_pos rfl) hprocessed htrackers, (getLastD_cons ..).trans hlast⟩

/-- While `formatBuffers` makes progress, the tracker is aligned if the tuples of the current buffer fill rows. -/
lemma CallProgress.aligned_iff {capacity room sn : Nat} {tuples : List Bytes} {chunks : List FormattedTupleBuffer}
    (h : CallProgress f capacity room sn tuples chunks t) :
    t.Aligned f ↔ (t.tupleBufferFormatted.processedTuples.map f.writtenSize).sum
      = t.tupleBufferFormatted.processedTuples.length * f.tupleSizeInBytes := by
  rw [ProgressTracker.Aligned, h.offset, sum_writtenSizes, h.count]

end

def pairFormatter : CSVInputFormatter where
  tupleDelimiter := [10]
  fieldDelimiter := [44]
  fieldParseFunctions := [parseUInt8, parseUInt8]
  fieldSizes := [1, 1]

def pairTracker : ProgressTracker :=
  ProgressTracker.create 1 1 (allocateTupleBuffer ⟨8, [], []⟩)

/-- The lines `7,8` and `1,2,3`: a field too many is ignored. -/
theorem row_alignment_iff_pairs :
    ∃ trackers, pairFormatter.processTuples [(false, [55, 44, 56]), (true, [49, 44, 50, 44, 51])] ⟨8, [], []⟩
        pairTracker = .ok trackers ∧ ∀ t ∈ trackers, t.Aligned pairFormatter := by
  refine ⟨_, rfl, ?_⟩
  exact (row_alignment_iff pairFormatter [(false, [55, 44, 56]), (true, [49, 44, 50, 44, 51])] ⟨8, [], []⟩
    pairTracker rfl _ rfl).2 (by decide)

/-- The line `7,` has one token: the next row would start at byte one. -/
theorem short_line_misaligns : ∃ t, pairFormatter.processTuples [(true, [55, 44])] ⟨8, [], []⟩ pairTracker = .ok [t] ∧
      t.numTuplesInTBFormatted = 1 ∧ t.currentFieldOffsetTBFormatted = 1 ∧ pairFormatter.tupleSizeInBytes = 2 :=
  ⟨_, rfl, rfl, rfl, rfl⟩

/-! ## Rows of well-formed lines -/

namespace CSVInputFormatter

variable {f : CSVInputFormatter}

/-- The offsets of the fields of the first `n` rows. -/
def rowOffsets (f : CSVInputFormatter) (n : Nat) : List Nat :=
  (range n).flatMap fun i => fieldOffsets f.fieldSizes (i * f.tupleSizeInBytes)

/-- A line with a token for each field that its parse function accepts. -/
structure WellFormed (f : CSVInputFormatter) (line : Bytes) : Prop where
  accepted : f.accepts line = true
  fields : (f.tokenize line).length = f.fieldSizes.length

lemma WellFormed.writtenSizes {line : Bytes} (h : f.WellFormed line)
    (hschema : f.fieldParseFunctions.length = f.fieldSizes.length) : f.writtenSizes line = f.fieldSizes := by
  have hsizes : ((f.tokenize line).zip (f.fieldParseFunctions.zip f.fieldSizes)).map Prod.snd
      = f.fieldParseFunctions.zip f.fieldSizes := by
    apply map_snd_zip
    rw [length_zip, h.fields, hschema, Nat.min_self]
  calc f.writtenSizes line
      = (((f.tokenize line).zip (f.fieldParseFunctions.zip f.fieldSizes)).map Prod.snd).map Prod.snd := by
        rw [map_map]
        rfl
    _ = f.fieldSizes := by rw [hsizes, map_snd_zip hschema.ge]

lemma fieldOffsets_rows {tuples : List Bytes} (h : ∀ w ∈ tuples, f.writtenSizes w = f.fieldSizes) :
    fieldOffsets (tuples.flatMap f.writtenSizes) 0 = f.rowOffsets tuples.length := by
  induction tuples using reverseRecOn with
  | nil => rfl
  | append_singleton tuples tuple ih =>
    rw [forall_mem_append] at h
    have hsum := sum_writtenSizes_of_rows (f := f) fun w hw => congrArg sum (h.1 w hw)
    rw [flatMap_append, fieldOffsets_append, ih h.1, hsum, Nat.zero_add]
    simp [rowOffsets, range_succ, h.2 tuple]

end CSVInputFormatter

/-- One call with well-formed lines: its buffers are the chunks `1, …, k` of its number, the rows of each lie one
behind the other inside the buffer and are counted, and all tuples of the call are in them. -/
theorem parse_call_chunks (f : CSVInputFormatter) (stream : RawStream) (call : ProcessSequenceNumberCall)
    (contract : CallContract (f.rawBuffers stream) call) (originId : Nat) (pec : PipelineExecutionContext)
    (hschema : f.fieldParseFunctions.length = f.fieldSizes.length)
    (hlines : ∀ w ∈ f.callTuples (f.rawBuffers stream) call, f.WellFormed w)
    (hholds : f.tupleSizeInBytes ≤ pec.bufferSize) (hmax : pec.bufferSize < 2 ^ 64) :
    ∃ chunks, f.formatBuffers (stream.rawTB call.sequenceNumber) originId ((f.rawBuffers stream).buffersOf call) pec
        = .ok (pec.emitAll chunks) ∧
      chunks.map header = (range' 1 chunks.length).map
        (fun chunk => (call.sequenceNumber, chunk, decide (chunk = chunks.length))) ∧
      (∀ b ∈ chunks, b.writtenFields.map Prod.fst = f.rowOffsets b.numberOfTuples ∧
        b.numberOfTuples * f.tupleSizeInBytes ≤ b.bufferSize) ∧
      (chunks.map numberOfTuples).sum = (f.callTuples (f.rawBuffers stream) call).length := by
  rcases (contract.formatBuffers_spec originId pec).ok fun w hw => (hlines w hw).accepted with
    ⟨pec', hrun, chunks, rfl, hproduces, hlayout⟩
  refine ⟨chunks, hrun, ?_⟩
  unfold Produces at hproduces
  split at hproduces
  case isFalse hquiet =>
    simp [hproduces, callTuples, hquiet]
  case isTrue =>
    refine ⟨hproduces.headers, fun b hb => ?_, ?_⟩
    · have hrows : ∀ w ∈ b.processedTuples, f.writtenSizes w = f.fieldSizes := by
        intro w hw
        refine (hlines w ?_).writtenSizes hschema
        rw [← hproduces.processed]
        exact mem_flatMap.2 ⟨b, hb, hw⟩
      rw [hproduces.counted b hb, (hlayout b hb).offsets, (hlayout b hb).bufferSize]
      exact ⟨fieldOffsets_rows hrows, (hlayout b hb).fits hholds hmax fun w hw => congrArg sum (hrows w hw)⟩
    · rw [← hproduces.processed, length_flatMap]
      exact congrArg sum (map_congr_left hproduces.counted)

/-- The lines `2`, `3` and `4` in one raw buffer. -/
def linesInOneBuffer : RawStream where
  buffers := [[50, 10, 51, 10, 52, 10]]
  nonempty := by simp

def callOfLines : ProcessSequenceNumberCall :=
  ⟨1, true, (sampleFormatter.rawBuffers linesInOneBuffer).stagedBuffer 1, ⟨0, 1, true, false⟩, 63⟩

lemma callOfLines_contract : CallContract (sampleFormatter.rawBuffers linesInOneBuffer) callOfLines := by
  have hspan : ∀ d e, (d, e) ∈ callOfLines.reportedSpans → d = 0 ∧ e = 1 := by
    simp [ProcessSequenceNumberCall.reportedSpans, callOfLines]
  refine ⟨Nat.one_pos, rfl, fun d e h => ?_, fun d e h => ?_⟩
  · rcases hspan d e h with ⟨rfl, rfl⟩
    exact ⟨Nat.one_pos, .inl rfl, .inr rfl, fun p hp hp' => by omega⟩
  · rcases hspan d e h with ⟨rfl, rfl⟩
    exact ⟨Nat.zero_le 1, Nat.le_refl 1⟩

/-- Formatted buffers of two bytes: the call emits two chunks. -/
theorem parse_call_chunks_lines : ∃ chunks, sampleFormatter.formatBuffers (linesInOneBuffer.rawTB 1) 1
        ((sampleFormatter.rawBuffers linesInOneBuffer).buffersOf callOfLines) ⟨2, [], []⟩
          = .ok (emitAll ⟨2, [], []⟩ chunks) ∧
      (∀ b ∈ chunks, b.writtenFields.map Prod.fst = sampleFormatter.rowOffsets b.numberOfTuples) ∧
      (chunks.map numberOfTuples).sum = 3 := by
  have hlines : ∀ w ∈ sampleFormatter.callTuples (sampleFormatter.rawBuffers linesInOneBuffer) callOfLines,
      sampleFormatter.accepts w = true ∧ (sampleFormatter.tokenize w).length = 1 := by decide
  rcases parse_call_chunks sampleFormatter linesInOneBuffer callOfLines callOfLines_contract 1 ⟨2, [], []⟩ rfl
    (fun w hw => ⟨(hlines w hw).1, (hlines w hw).2⟩) (by decide) (by decide) with ⟨chunks, hrun, _, hrows, hsum⟩
  exact ⟨chunks, hrun, fun b hb => (hrows b hb).1, hsum⟩

end MobilityNebula.InputFormatters
