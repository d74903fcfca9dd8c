import MobilityNebula.Library.Outcome
import MobilityNebula.InputFormatters.CSVInputFormatter

/-!
# FormattedOutput — what one call of the formatter emits

For any tuple delimiter, a call hands a list of tuple strings to `processCurrentTuple`: the leading partial
tuple, the tuples inside the buffer (`tuplesFrom`) and the trailing partial tuple.  It succeeds exactly if
the parse functions accept all of them.  It then emits its formatted buffers as the chunks `1, …, k` of its
sequence number, the last of them marked as such, and every chunk counts the tuples processed into it
(`CallOutput`).

The fields are written one behind the other; a field takes its size, whether or not the tuple has a token for
every field (`Layout`).
-/

namespace MobilityNebula.InputFormatters

open Library ProgressTracker PipelineExecutionContext List FormattedTupleBuffer SucceedsIff

/-! ## Accepted tuples -/

def CSVInputFormatter.accepts (f : CSVInputFormatter) (tuple : Bytes) : Bool :=
  ((f.tokenize tuple).zip (f.fieldParseFunctions.zip f.fieldSizes)).all fun field =>
    (field.2.1 field.1).isOk

lemma CSVInputFormatter.accepts_nil (f : CSVInputFormatter) : f.accepts [] = true := rfl

/-! ## Written fields -/

/-- The bytes at the field pointer; a child buffer leaves a `uint32_t`. -/
def FieldValue.sizeInBytes : FieldValue → Nat
  | .bytes value => value.length
  | .child _ => 4

def fieldOffsets : List Nat → Nat → List Nat
  | [], _ => []
  | size :: sizes, offset => offset :: fieldOffsets sizes (offset + size)

lemma fieldOffsets_append (sizes more : List Nat) (offset : Nat) :
    fieldOffsets (sizes ++ more) offset = fieldOffsets sizes offset ++ fieldOffsets more (offset + sizes.sum) := by
  induction sizes generalizing offset with
  | nil => rfl
  | cons size sizes ih => simp [fieldOffsets, ih, Nat.add_assoc]

namespace CSVInputFormatter

variable (f : CSVInputFormatter)

def writtenSizes (tuple : Bytes) : List Nat :=
  ((f.tokenize tuple).zip (f.fieldParseFunctions.zip f.fieldSizes)).map fun field => field.2.2

def writtenSize (tuple : Bytes) : Nat := (f.writtenSizes tuple).sum

def FillsFields : Prop :=
  ∀ field ∈ f.fieldParseFunctions.zip f.fieldSizes, ∀ token value, field.1 token = .ok value →
    value.sizeInBytes = field.2

end CSVInputFormatter

/-- `writes` are the values of the fields, one behind the other from `offset` on. -/
structure FieldsWritten (fields : List (Bytes × (Bytes → Except FormatterError FieldValue) × Nat)) (offset : Nat)
    (writes : List (Nat × FieldValue)) : Prop where
  offsets : writes.map Prod.fst = fieldOffsets (fields.map fun field => field.2.2) offset
  sizes : (∀ field ∈ fields, ∀ token value, field.2.1 token = .ok value → value.sizeInBytes = field.2.2) →
    (writes.map fun write => write.2.sizeInBytes) = fields.map fun field => field.2.2

namespace ProgressTracker

variable (t : ProgressTracker)

def withFields (writes : List (Nat × FieldValue)) (offset : Nat) : ProgressTracker :=
  let buffer := t.tupleBufferFormatted
  { t with
    tupleBufferFormatted := { buffer with writtenFields := writes }
    currentFieldOffsetTBFormatted := offset }

def addTuple (tuple : Bytes) : ProgressTracker :=
  let buffer := t.tupleBufferFormatted
  { t with
    tupleBufferFormatted := { buffer with processedTuples := buffer.processedTuples ++ [tuple] } }

lemma processFields_spec (fields : List (Bytes × (Bytes → Except FormatterError FieldValue) × Nat))
    (t : ProgressTracker) :
    SucceedsIff ((fields.all fun field => (field.2.1 field.1).isOk) = true) (processFields fields t)
      fun t' => ∃ writes, FieldsWritten fields t.currentFieldOffsetTBFormatted writes ∧
        t' = t.withFields (t.tupleBufferFormatted.writtenFields ++ writes)
          (t.currentFieldOffsetTBFormatted + (fields.map fun field => field.2.2).sum) := by
  induction fields generalizing t with
  | nil =>
    refine ⟨fun _ => ⟨t, rfl, [], ⟨rfl, fun _ => rfl⟩, ?_⟩, fun hnot => absurd rfl hnot⟩
    simp [withFields]
  | cons field rest ih =>
    rcases field with ⟨token, parseFunction, fieldSize⟩
    -- the rest of the loop starts from a tracker that differs in fields only
    refine ((of_isOk (parseFunction token)).bind fun value hvalue => (ih _).mono ?_).congr
      (by rw [all_cons, Bool.and_eq_true])
    rintro t' ⟨writes, hwrites, rfl⟩
    refine ⟨(t.currentFieldOffsetTBFormatted, value) :: writes, ⟨?_, fun hfills => ?_⟩, ?_⟩
    · rw [map_cons, hwrites.offsets, map_cons, fieldOffsets]
    · rw [map_cons, hwrites.sizes fun field hmem => hfills field (mem_cons_of_mem _ hmem),
        hfills _ mem_cons_self _ _ hvalue, map_cons]
    · simp [withFields, Nat.add_assoc]

lemma processCurrentTuple_spec (f : CSVInputFormatter) (t : ProgressTracker) (tuple : Bytes) :
    SucceedsIff (f.accepts tuple = true) (t.processCurrentTuple f tuple) fun t' =>
      ∃ writes, FieldsWritten ((f.tokenize tuple).zip (f.fieldParseFunctions.zip f.fieldSizes))
          t.currentFieldOffsetTBFormatted writes ∧
        t' = (t.addTuple tuple).withFields (t.tupleBufferFormatted.writtenFields ++ writes)
          (t.currentFieldOffsetTBFormatted + f.writtenSize tuple) :=
  processFields_spec _ (t.addTuple tuple)

def fullChunk : FormattedTupleBuffer :=
  let buffer := t.tupleBufferFormatted
  { buffer with numberOfTuples := t.numTuplesInTBFormatted, lastChunk := false }

def finalChunk : FormattedTupleBuffer :=
  let buffer := t.tupleBufferFormatted
  { buffer with numberOfTuples := t.numTuplesInTBFormatted, lastChunk := true }

/-- The tracker with the buffer that replaces a full one. -/
def afterFullChunk (pec : PipelineExecutionContext) : ProgressTracker :=
  let t := { t with chunkNumber := t.chunkNumber + 1 }
  let t := t.setNewTupleBufferFormatted pec.allocateTupleBuffer
  { t with currentFieldOffsetTBFormatted := 0, numTuplesInTBFormatted := 0 }

lemma checkAndHandleFullBuffer_eq (f : CSVInputFormatter) (t : ProgressTracker) (pec : PipelineExecutionContext) :
    (t.checkAndHandleFullBuffer f pec = (pec, t) ∧
        f.tupleSizeInBytes ≤ (t.tupleBufferFormatted.bufferSize + 2 ^ 64 - t.currentFieldOffsetTBFormatted) % 2 ^ 64) ∨
      t.checkAndHandleFullBuffer f pec = (pec.emitBuffer t.fullChunk, t.afterFullChunk pec) := by
  by_cases hfull : (t.tupleBufferFormatted.bufferSize + 2 ^ 64 - t.currentFieldOffsetTBFormatted)
      % 2 ^ 64 < f.tupleSizeInBytes
  · exact .inr (if_pos hfull)
  · exact .inl ⟨if_neg hfull, Nat.le_of_not_lt hfull⟩

end ProgressTracker

/-! ## Progress of a call -/

namespace PipelineExecutionContext

variable (pec : PipelineExecutionContext) (buffers more : List FormattedTupleBuffer)

def emitAll : PipelineExecutionContext := { pec with emitted := pec.emitted ++ buffers }

lemma emitAll_nil : pec.emitAll [] = pec := by
  simp [emitAll]

lemma emitAll_append : (pec.emitAll buffers).emitAll more = pec.emitAll (buffers ++ more) := by
  simp [emitAll]

lemma emitBuffer_eq (buffer : FormattedTupleBuffer) : pec.emitBuffer buffer = pec.emitAll [buffer] := rfl

end PipelineExecutionContext

def FormattedTupleBuffer.header (b : FormattedTupleBuffer) : Nat × Nat × Bool :=
  (b.sequenceNumber, b.chunkNumber, b.lastChunk)

/-- Between two tuples: `tuples` were processed for sequence number `sn`, those of the full buffers
`chunks` are emitted and the others are in the current buffer. -/
structure FormattingProgress (sn : Nat) (tuples : List Bytes) (chunks : List FormattedTupleBuffer)
    (t : ProgressTracker) : Prop where
  processed :
    chunks.flatMap processedTuples ++ t.tupleBufferFormatted.processedTuples
      = tuples
  counted : ∀ b ∈ chunks, b.numberOfTuples = b.processedTuples.length
  count : t.numTuplesInTBFormatted = t.tupleBufferFormatted.processedTuples.length
  headers : chunks.map header
    = (range' 1 chunks.length).map fun chunk => (sn, chunk, false)
  sequenceNumber : t.sequenceNumber = sn
  chunkNumber : t.chunkNumber = chunks.length + 1
  bufferNumber : t.tupleBufferFormatted.sequenceNumber = sn
  bufferChunk : t.tupleBufferFormatted.chunkNumber = chunks.length + 1

/-- The output of a call that processed `tuples` for sequence number `sn`. -/
structure CallOutput (sn : Nat) (tuples : List Bytes) (chunks : List FormattedTupleBuffer) : Prop where
  processed : chunks.flatMap processedTuples = tuples
  counted : ∀ b ∈ chunks, b.numberOfTuples = b.processedTuples.length
  nonempty : chunks ≠ []
  headers : chunks.map header
    = (range' 1 chunks.length).map fun chunk => (sn, chunk, decide (chunk = chunks.length))

/-- The written fields of a buffer.  `room` more tuples fit if all tuples have all their fields. -/
structure CSVInputFormatter.Layout (f : CSVInputFormatter) (capacity room : Nat) (b : FormattedTupleBuffer) : Prop where
  bufferSize : b.bufferSize = capacity
  offsets : b.writtenFields.map Prod.fst = fieldOffsets (b.processedTuples.flatMap f.writtenSizes) 0
  sizes : f.FillsFields →
    (b.writtenFields.map fun write => write.2.sizeInBytes) = b.processedTuples.flatMap f.writtenSizes
  fits : f.tupleSizeInBytes ≤ capacity → capacity < 2 ^ 64 →
    (∀ w ∈ b.processedTuples, f.writtenSize w = f.tupleSizeInBytes) →
    (b.processedTuples.length + room) * f.tupleSizeInBytes ≤ capacity

/-- The progress of a call together with what is written. -/
structure CallProgress (f : CSVInputFormatter) (capacity room sn : Nat) (tuples : List Bytes)
    (chunks : List FormattedTupleBuffer) (t : ProgressTracker) : Prop
    extends FormattingProgress sn tuples chunks t where
  offset : t.currentFieldOffsetTBFormatted
    = (t.tupleBufferFormatted.processedTuples.flatMap f.writtenSizes).sum
  current : f.Layout capacity room t.tupleBufferFormatted
  layouts : ∀ b ∈ chunks, f.Layout capacity 0 b

namespace CSVInputFormatter

variable {f : CSVInputFormatter} {capacity : Nat} {b : FormattedTupleBuffer}

lemma sum_writtenSizes (f : CSVInputFormatter) (tuples : List Bytes) :
    (tuples.flatMap f.writtenSizes).sum = (tuples.map f.writtenSize).sum := by
  induction tuples with
  | nil => rfl
  | cons tuple tuples ih => simp [writtenSize, ih]

lemma sum_writtenSizes_of_rows {tuples : List Bytes} (h : ∀ w ∈ tuples, f.writtenSize w = f.tupleSizeInBytes) :
    (tuples.flatMap f.writtenSizes).sum = tuples.length * f.tupleSizeInBytes := by
  rw [sum_writtenSizes, map_congr_left h, map_const', sum_replicate, smul_eq_mul]

namespace Layout

lemma addTuple (h : f.Layout capacity 1 b) {tuple : Bytes} {writes : List (Nat × FieldValue)}
    (hwrites : FieldsWritten ((f.tokenize tuple).zip (f.fieldParseFunctions.zip f.fieldSizes))
      (b.processedTuples.flatMap f.writtenSizes).sum writes) :
    f.Layout capacity 0 { b with
      writtenFields := b.writtenFields ++ writes
      processedTuples := b.processedTuples ++ [tuple] } where
  bufferSize := h.bufferSize
  offsets := by
    rw [map_append, h.offsets, hwrites.offsets, flatMap_append, fieldOffsets_append, Nat.zero_add]
    simp [writtenSizes]
  sizes hfills := by
    rw [map_append, h.sizes hfills, flatMap_append, hwrites.sizes fun field hmem => hfills _ (of_mem_zip hmem).2]
    simp [writtenSizes]
  fits hholds hmax hrows := by
    rw [length_append, length_singleton, Nat.add_zero]
    exact h.fits hholds hmax fun w hw => hrows w (mem_append_left _ hw)

lemma room_of_available (h : f.Layout capacity 0 b) (havailable : f.tupleSizeInBytes
      ≤ (b.bufferSize + 2 ^ 64 - (b.processedTuples.flatMap f.writtenSizes).sum) % 2 ^ 64) :
    f.Layout capacity 1 b where
  bufferSize := h.bufferSize
  offsets := h.offsets
  sizes := h.sizes
  fits hholds hmax hrows := by
    have hfits := h.fits hholds hmax hrows
    rw [sum_writtenSizes_of_rows hrows, h.bufferSize] at havailable
    rw [Nat.add_zero] at hfits
    rw [Nat.succ_mul]
    -- the offset lies inside the buffer, so the subtraction does not wrap around
    omega

end Layout

end CSVInputFormatter

namespace CallProgress

variable {f : CSVInputFormatter} {capacity room sn : Nat} {tuples : List Bytes}
  {chunks : List FormattedTupleBuffer} {t : ProgressTracker}

lemma layout_fresh (f : CSVInputFormatter) (pec : PipelineExecutionContext) (t : ProgressTracker) :
    f.Layout pec.bufferSize 1 (t.setNewTupleBufferFormatted pec.allocateTupleBuffer).tupleBufferFormatted where
  bufferSize := rfl
  offsets := rfl
  sizes _ := rfl
  fits hholds _ _ := by
    simpa [setNewTupleBufferFormatted, allocateTupleBuffer] using hholds

lemma start (hnumber : t.sequenceNumber = sn) (hchunk : t.chunkNumber = 1)
    (hcount : t.numTuplesInTBFormatted = 0) (hoffset : t.currentFieldOffsetTBFormatted = 0)
    (pec : PipelineExecutionContext) :
    CallProgress f pec.bufferSize 1 sn [] [] (t.setNewTupleBufferFormatted pec.allocateTupleBuffer) :=
  ⟨⟨rfl, by simp, hcount, rfl, hnumber, hchunk, hnumber, hchunk⟩, hoffset, layout_fresh f pec t, by simp⟩

lemma weaken (h : CallProgress f capacity 1 sn tuples chunks t) : CallProgress f capacity 0 sn tuples chunks t where
  toFormattingProgress := h.toFormattingProgress
  offset := h.offset
  current := ⟨h.current.bufferSize, h.current.offsets, h.current.sizes, fun hholds hmax hrows =>
    (Nat.mul_le_mul_right _ (Nat.le_succ _)).trans (h.current.fits hholds hmax hrows)⟩
  layouts := h.layouts

/-- The loop starts from the count of the leading tuple and another position in the raw buffer. -/
lemma resetForNewRawTB (h : CallProgress f capacity room sn tuples chunks t) (count : Nat) (raw : Bytes) (start : Nat) :
    CallProgress f capacity room sn tuples chunks (({ t with
      tupleBufferFormatted := { t.tupleBufferFormatted with numberOfTuples := count } } :
        ProgressTracker).resetForNewRawTB f raw start) :=
  { h with current := { h.current with } }

lemma tuple (h : CallProgress f capacity 1 sn tuples chunks t) (tuple : Bytes) :
    SucceedsIff (f.accepts tuple = true) (t.processCurrentTuple f tuple) fun t' =>
      CallProgress f capacity 0 sn (tuples ++ [tuple]) chunks (t'.progressOneTuple f) ∧
        t'.tupleBufferRawSV = t.tupleBufferRawSV ∧
        t'.currentTupleEndrawTB = t.currentTupleEndrawTB ∧
        t'.tupleBufferFormatted.numberOfTuples = t.tupleBufferFormatted.numberOfTuples := by
  refine (t.processCurrentTuple_spec f tuple).mono ?_
  rintro t' ⟨writes, hwrites, rfl⟩
  rw [h.offset] at hwrites
  refine ⟨⟨⟨?_, h.counted, ?_, h.headers, h.sequenceNumber, h.chunkNumber, h.bufferNumber,
    h.bufferChunk⟩, ?_, h.current.addTuple hwrites, h.layouts⟩, rfl, rfl, rfl⟩
  · rw [← h.processed, append_assoc]
    rfl
  · have hlength : (t.tupleBufferFormatted.processedTuples ++ [tuple]).length
        = t.numTuplesInTBFormatted + 1 := by
      rw [h.count, length_append, length_singleton]
    exact hlength.symm
  · have hsum : ((t.tupleBufferFormatted.processedTuples ++ [tuple]).flatMap f.writtenSizes).sum
        = t.currentFieldOffsetTBFormatted + f.writtenSize tuple := by
      rw [h.offset, flatMap_append, sum_append]
      simp [CSVInputFormatter.writtenSize]
    exact hsum.symm

variable (h : CallProgress f capacity 0 sn tuples chunks t)
include h

lemma full (pec : PipelineExecutionContext) (hcapacity : pec.bufferSize = capacity) :
    ∃ more t', t.checkAndHandleFullBuffer f pec = (pec.emitAll more, t') ∧
      CallProgress f capacity 1 sn tuples (chunks ++ more) t' ∧ t'.tupleBufferRawSV = t.tupleBufferRawSV ∧
      t'.currentTupleStartrawTB = t.currentTupleStartrawTB ∧ t'.currentTupleEndrawTB = t.currentTupleEndrawTB := by
  rcases t.checkAndHandleFullBuffer_eq f pec with ⟨heq, havailable⟩ | heq
  · rw [h.offset] at havailable
    refine ⟨[], t, ?_, ?_, rfl, rfl, rfl⟩
    · rw [heq, pec.emitAll_nil]
    · rw [append_nil]
      exact ⟨h.toFormattingProgress, h.offset, h.current.room_of_available havailable, h.layouts⟩
  · refine ⟨[t.fullChunk], t.afterFullChunk pec, heq, ⟨⟨?_, ?_, rfl, ?_, h.sequenceNumber, ?_,
      h.sequenceNumber, ?_⟩, rfl, ?_, ?_⟩, rfl, rfl, rfl⟩
    · -- the tuples of the current buffer are now those of the last chunk
      have hempty : (t.afterFullChunk pec).tupleBufferFormatted.processedTuples = [] := rfl
      rw [hempty, append_nil, flatMap_append, ← h.processed]
      simp [fullChunk]
    · intro b hb
      rcases mem_append.1 hb with hold | hnew
      · exact h.counted b hold
      · rw [mem_singleton] at hnew
        rw [hnew]
        exact h.count
    · rw [map_append, length_append, length_singleton, range'_concat,
        map_append, h.headers]
      simp [header, fullChunk, h.bufferNumber, h.bufferChunk, Nat.add_comm]
    · have hnext : (t.afterFullChunk pec).chunkNumber = t.chunkNumber + 1 := rfl
      rw [hnext, h.chunkNumber, length_append, length_singleton]
    · have hnext : (t.afterFullChunk pec).tupleBufferFormatted.chunkNumber = t.chunkNumber + 1 := rfl
      rw [hnext, h.chunkNumber, length_append, length_singleton]
    · rw [← hcapacity]
      exact layout_fresh f pec { t with chunkNumber := t.chunkNumber + 1 }
    · intro b hb
      rcases mem_append.1 hb with hold | hnew
      · exact h.layouts b hold
      · rw [mem_singleton.1 hnew]
        exact ⟨h.current.bufferSize, h.current.offsets, h.current.sizes, h.current.fits⟩

lemma finish (count : Nat) (hcount : count = t.numTuplesInTBFormatted) : CallOutput sn tuples
        (chunks ++ [{ t.tupleBufferFormatted with numberOfTuples := count, lastChunk := true }]) ∧
      ∀ b ∈ chunks ++ [{ t.tupleBufferFormatted with numberOfTuples := count, lastChunk := true }],
        f.Layout capacity 0 b := by
  refine ⟨⟨?_, ?_, by simp, ?_⟩, fun b hb => ?_⟩
  · rw [← h.processed, flatMap_append]
    simp
  · intro b hb
    rcases mem_append.1 hb with hold | hnew
    · exact h.counted b hold
    · rw [mem_singleton] at hnew
      rw [hnew]
      exact hcount.trans h.count
  · -- the flag is false below the last chunk number
    have hinit : ((range' 1 chunks.length).map fun chunk =>
        (sn, chunk, decide (chunk = chunks.length + 1)))
          = (range' 1 chunks.length).map fun chunk => (sn, chunk, false) := by
      refine map_congr_left fun chunk hchunk => ?_
      have hrange := mem_range'_1.1 hchunk
      simp only [Prod.mk.injEq, decide_eq_false_iff_not, true_and]
      omega
    rw [map_append, length_append, length_singleton, range'_concat, map_append, hinit, h.headers]
    simp [header, h.bufferNumber, h.bufferChunk, Nat.add_comm]
  · rcases mem_append.1 hb with hold | hnew
    · exact h.layouts b hold
    · rw [mem_singleton.1 hnew]
      exact ⟨h.current.bufferSize, h.current.offsets, h.current.sizes, h.current.fits⟩

lemma emitFinalChunk (pec : PipelineExecutionContext) :
    ∃ chunks', (pec.emitAll chunks).emitBuffer t.finalChunk = pec.emitAll chunks' ∧
      CallOutput sn tuples chunks' ∧ ∀ b ∈ chunks', f.Layout capacity 0 b := by
  refine ⟨chunks ++ [t.finalChunk], ?_, h.finish _ rfl⟩
  rw [emitBuffer_eq, emitAll_append]

end CallProgress

/-! ## The tuples inside a buffer -/

/-- The strings between the delimiters from position `start` on, as the loop of `processCurrentBuffer` cuts
them out. -/
def tuplesFrom (tupleDelimiter raw : Bytes) : Nat → Nat → List Bytes
  | 0, _ => []
  | fuel + 1, start =>
    match find tupleDelimiter raw start with
    | none => []
    | some currentTupleEnd =>
      (raw.drop start).take (currentTupleEnd - start)
        :: tuplesFrom tupleDelimiter raw fuel (currentTupleEnd + 1)

namespace CallProgress

variable {f : CSVInputFormatter} {sn : Nat}

lemma processCurrentBufferLoop_spec (pec : PipelineExecutionContext) (fuel : Nat) :
    ∀ {tuples : List Bytes} {chunks : List FormattedTupleBuffer} {t : ProgressTracker},
      CallProgress f pec.bufferSize 0 sn tuples chunks t → t.currentTupleEndrawTB = t.findIndexOfNextTuple f →
      1 ≤ fuel → t.tupleBufferRawSV.length + 2 ≤ fuel + t.currentTupleStartrawTB →
      SucceedsIff (∀ w ∈ tuplesFrom f.tupleDelimiter t.tupleBufferRawSV fuel t.currentTupleStartrawTB,
          f.accepts w = true) (t.processCurrentBufferLoop f fuel (pec.emitAll chunks))
        fun result => ∃ chunks', result.1 = pec.emitAll chunks' ∧ CallProgress f pec.bufferSize 0 sn (tuples
              ++ tuplesFrom f.tupleDelimiter t.tupleBufferRawSV fuel t.currentTupleStartrawTB)
            chunks' result.2 := by
  induction fuel with
  | zero =>
    intro tuples chunks t _ _ hfuel
    omega
  | succ fuel ih =>
    intro tuples chunks t h hend _ hfuel
    rw [findIndexOfNextTuple] at hend
    unfold processCurrentBufferLoop tuplesFrom
    rw [hend]
    cases hfind : find f.tupleDelimiter t.tupleBufferRawSV t.currentTupleStartrawTB with
    | none =>
      refine ⟨fun _ => ⟨_, rfl, chunks, rfl, ?_⟩, fun hnot => absurd (by simp) hnot⟩
      simpa using h
    | some currentTupleEnd =>
      have hbounds := find_bounds hfind
      rcases h.full (pec.emitAll chunks) rfl with ⟨more, t₁, hfull, hprogress, hraw, hstart, hpos⟩
      simp only [hfull, emitAll_append]
      have htuple : t₁.getNextTuple currentTupleEnd = (t.tupleBufferRawSV.drop t.currentTupleStartrawTB).take
              (currentTupleEnd - t.currentTupleStartrawTB) := by
        rw [getNextTuple, hraw, hstart]
      rw [htuple]
      refine ((hprogress.tuple _).bind ?_).congr (by rw [forall_mem_cons])
      rintro t₂ ⟨hprogress₂, hraw₂, hpos₂, _⟩
      -- the next round starts behind the delimiter just found
      have hraw₃ : (t₂.progressOneTuple f).tupleBufferRawSV = t.tupleBufferRawSV := hraw₂.trans hraw
      have hstart₃ : (t₂.progressOneTuple f).currentTupleStartrawTB = currentTupleEnd + 1 := by
        have hend₂ : t₂.currentTupleEndrawTB = some currentTupleEnd := by
          rw [hpos₂, hpos, hend, hfind]
        simp [progressOneTuple, hend₂]
      have hnext := ih hprogress₂ rfl
      rw [hraw₃, hstart₃] at hnext
      -- a delimiter at the very end leaves at least one round to find nothing
      have hone : 1 ≤ fuel := by omega
      refine (hnext hone (by omega)).mono ?_
      rintro result ⟨chunks', hresult, hdone⟩
      refine ⟨chunks', hresult, ?_⟩
      rw [append_assoc, singleton_append] at hdone
      exact hdone

end CallProgress

/-! ## Whole calls -/

/-- The partial tuple from buffer `i` to buffer `j`, if the buffers are different. -/
structure CSVInputFormatter.PartialTuples (f : CSVInputFormatter) (buffers : List StagedBuffer)
    (i j : Nat) (tuples : List Bytes) : Prop where
  one : i < j → ∃ tuple, f.partialTuple i j buffers = .ok tuple ∧ tuples = [tuple]
  none : ¬ i < j → tuples = []

namespace CSVInputFormatter

variable {f : CSVInputFormatter} {capacity sn originId : Nat} {tuples : List Bytes}
  {chunks : List FormattedTupleBuffer} {t : ProgressTracker} {buffers : List StagedBuffer} {i j : Nat}

def innerTuples (f : CSVInputFormatter) (b : StagedBuffer) : List Bytes :=
  let raw := b.getBuffer.take b.sizeOfBufferInBytes
  tuplesFrom f.tupleDelimiter raw (raw.length + 2)
    (b.offsetOfFirstTupleDelimiter + f.tupleDelimiter.length)

lemma processPartialTuple_spec (h : CallProgress f capacity 1 sn tuples chunks t) {tuple : Bytes}
    (htuple : f.partialTuple i j buffers = .ok tuple) :
    SucceedsIff (f.accepts tuple = true) (f.processPartialTuple i j buffers t) fun result =>
      CallProgress f capacity 0 sn (tuples ++ [tuple]) chunks result.1 ∧ result.2 = !tuple.isEmpty ∧
        result.1.tupleBufferFormatted.numberOfTuples = t.tupleBufferFormatted.numberOfTuples := by
  unfold processPartialTuple
  rw [htuple]
  refine ((h.tuple tuple).bind (q := True) ?_).congr (by rw [and_true])
  rintro t' ⟨hprogress, _, _, hkept⟩
  exact pure ⟨hprogress, rfl, hkept⟩

lemma formatWithTupleDelimiter_spec (f : CSVInputFormatter) (rawTB : TupleBuffer) (originId : Nat)
    (pec : PipelineExecutionContext) {result : SpanningTupleBuffers} {own : StagedBuffer} {before after : List Bytes}
    (hskip : isSingleDelimiter result.stagedBuffers = false)
    (hown : result.stagedBuffers[result.indexOfProcessedSequenceNumber]? = some own)
    (hbefore : f.PartialTuples result.stagedBuffers 0 result.indexOfProcessedSequenceNumber before)
    (hafter : f.PartialTuples result.stagedBuffers result.indexOfProcessedSequenceNumber
      (result.stagedBuffers.length - 1) after) :
    SucceedsIff (∀ w ∈ before ++ (f.innerTuples own ++ after), f.accepts w = true)
      (f.formatWithTupleDelimiter rawTB originId result pec) fun pec' =>
        ∃ chunks, pec' = pec.emitAll chunks ∧
          CallOutput rawTB.sequenceNumber (before ++ (f.innerTuples own ++ after)) chunks ∧
          ∀ b ∈ chunks, f.Layout pec.bufferSize 0 b := by
  have hstart : CallProgress f pec.bufferSize 1 rawTB.sequenceNumber [] []
      ((f.trackerFor rawTB originId pec).setNewTupleBufferFormatted pec.allocateTupleBuffer) :=
    .start (t := f.trackerFor rawTB originId pec) rfl rfl rfl rfl pec
  unfold formatWithTupleDelimiter
  simp only [hskip, Bool.false_eq_true, if_false, hown]
  -- the leading partial tuple
  have hleading : SucceedsIff (∀ w ∈ before, f.accepts w = true) (if result.indexOfProcessedSequenceNumber ≠ 0 then do
        let next ← f.processPartialTuple 0 result.indexOfProcessedSequenceNumber result.stagedBuffers
          ((f.trackerFor rawTB originId pec).setNewTupleBufferFormatted pec.allocateTupleBuffer)
        .ok next.1
      else
        .ok ((f.trackerFor rawTB originId pec).setNewTupleBufferFormatted pec.allocateTupleBuffer))
      (CallProgress f pec.bufferSize 0 rawTB.sequenceNumber before []) := by
    by_cases hindex : result.indexOfProcessedSequenceNumber ≠ 0
    · rcases hbefore.one (Nat.pos_of_ne_zero hindex) with ⟨tuple, htuple, rfl⟩
      rw [if_pos hindex]
      refine ((processPartialTuple_spec hstart htuple).bind (q := True) ?_).congr (by simp)
      rintro ⟨t, isNotEmpty⟩ ⟨hprogress, _⟩
      exact pure hprogress
    · have hnone := hbefore.none (by omega)
      subst hnone
      rw [if_neg hindex]
      exact (pure hstart.weaken).congr (by simp)
  refine (hleading.bind (q := ∀ w ∈ f.innerTuples own ++ after, f.accepts w = true) ?_).congr forall_mem_append.symm
  intro t hprogress
  -- the tuples inside the buffer
  have hloop := CallProgress.processCurrentBufferLoop_spec pec ((own.getBuffer.take own.sizeOfBufferInBytes).length + 2)
    (hprogress.resetForNewRawTB t.numTuplesInTBFormatted (own.getBuffer.take own.sizeOfBufferInBytes)
      (own.offsetOfFirstTupleDelimiter + f.tupleDelimiter.length)) rfl (by omega) (Nat.le_add_right _ _)
  rw [emitAll_nil] at hloop
  refine (hloop.bind (q := ∀ w ∈ after, f.accepts w = true) ?_).congr forall_mem_append.symm
  rintro ⟨pec₁, t₁⟩ ⟨chunks, hpec, hprogress₁⟩
  subst hpec
  -- the trailing partial tuple
  by_cases hindex : result.indexOfProcessedSequenceNumber < result.stagedBuffers.length - 1
  · rcases hafter.one hindex with ⟨tuple, htuple, rfl⟩
    rcases hprogress₁.full (pec.emitAll chunks) rfl with ⟨more, t₂, hfull, hprogress₂, _, _, _⟩
    simp only [hindex, if_true, hfull, emitAll_append]
    refine (((processPartialTuple_spec hprogress₂ htuple).bind (q := True)
      (R := fun next => next.1 = pec.emitAll (chunks ++ more) ∧ CallProgress f pec.bufferSize 0 rawTB.sequenceNumber
          (before ++ f.innerTuples own ++ [tuple]) (chunks ++ more) next.2) ?_).bind
      (q := True) ?_).congr (by simp)
    · rintro ⟨t, isNotEmpty⟩ ⟨hprogress₃, _⟩
      exact pure ⟨rfl, hprogress₃⟩
    · rintro ⟨pec₃, t₃⟩ ⟨hpec₃, hprogress₃⟩
      subst hpec₃
      rw [append_assoc] at hprogress₃
      exact pure (hprogress₃.emitFinalChunk pec)
  · have hnone := hafter.none hindex
    subst hnone
    simp only [hindex, if_false]
    rw [append_nil]
    have hnothing : True ↔ ∀ w ∈ ([] : List Bytes), f.accepts w = true := by simp
    refine congr ?_ hnothing
    exact pure (hprogress₁.emitFinalChunk pec)

/-- A formatted buffer for one partial tuple.  Its count starts from the count of a fresh buffer. -/
lemma formatSingleTuple_spec (pec : PipelineExecutionContext) {tuple : Bytes}
    (hnumber : t.sequenceNumber = sn) (hchunk : t.chunkNumber = 1)
    (hcount : t.numTuplesInTBFormatted = 0) (hoffset : t.currentFieldOffsetTBFormatted = 0)
    (htuple : f.partialTuple 0 (buffers.length - 1) buffers = .ok tuple) :
    SucceedsIff (f.accepts tuple = true) (f.formatSingleTuple buffers t pec) fun result =>
      (∃ chunks, result.1 = pec.emitAll chunks ∧ CallOutput sn [tuple] chunks ∧
        ∀ b ∈ chunks, f.Layout pec.bufferSize 0 b) ∧ result.2 = !tuple.isEmpty := by
  have hstart := CallProgress.start (f := f) hnumber hchunk hcount hoffset pec
  refine ((processPartialTuple_spec hstart htuple).bind (q := True) ?_).congr (by rw [and_true])
  rintro ⟨t', isNotEmpty⟩ ⟨hprogress, hempty, hkept⟩
  refine pure ⟨⟨[_], rfl, ?_⟩, hempty⟩
  have hone : t'.numTuplesInTBFormatted = 1 := by
    have hprocessed := hprogress.processed
    simp only [flatMap_nil, nil_append] at hprocessed
    rw [hprogress.count, hprocessed, length_singleton]
  have hfresh : t'.tupleBufferFormatted.numberOfTuples = 0 := hkept
  exact hprogress.finish _ (by rw [hone, hfresh])

lemma formatWithoutTupleDelimiter_spec (f : CSVInputFormatter) (rawTB : TupleBuffer) (originId : Nat)
    (pec : PipelineExecutionContext) {result : SpanningTupleBuffers} {tuple : Bytes}
    (hlength : 3 ≤ result.stagedBuffers.length)
    (htuple : f.partialTuple 0 (result.stagedBuffers.length - 1) result.stagedBuffers = .ok tuple) :
    SucceedsIff (f.accepts tuple = true) (f.formatWithoutTupleDelimiter rawTB originId result pec)
      fun pec' => ∃ chunks, pec' = pec.emitAll chunks ∧
        CallOutput rawTB.sequenceNumber [tuple] chunks ∧ ∀ b ∈ chunks, f.Layout pec.bufferSize 0 b := by
  unfold formatWithoutTupleDelimiter
  rw [if_neg (by omega)]
  refine ((formatSingleTuple_spec (t := f.trackerFor rawTB originId pec) pec rfl rfl rfl rfl htuple).bind
    (q := True) ?_).congr (by rw [and_true])
  rintro ⟨pec', isNotEmpty⟩ ⟨houtput, _⟩
  exact pure houtput

lemma formatFlushedBuffers_spec (f : CSVInputFormatter) (originId sequenceNumber : Nat)
    (pec : PipelineExecutionContext) {flushed : SpanningTupleBuffers} {tuple : Bytes}
    (hlength : flushed.stagedBuffers.length ≠ 1)
    (htuple : f.partialTuple 0 (flushed.stagedBuffers.length - 1) flushed.stagedBuffers = .ok tuple) :
    SucceedsIff (f.accepts tuple = true) (f.formatFlushedBuffers originId flushed sequenceNumber pec) fun pec' =>
        if tuple = [] then pec' = pec
        else ∃ chunks, pec' = pec.emitAll chunks ∧ CallOutput sequenceNumber [tuple] chunks ∧
          ∀ b ∈ chunks, f.Layout pec.bufferSize 0 b := by
  unfold formatFlushedBuffers
  rw [if_neg hlength]
  have hsingle := @formatSingleTuple_spec f sequenceNumber
    (.create sequenceNumber originId pec.allocateTupleBuffer) flushed.stagedBuffers pec
    tuple rfl rfl rfl rfl htuple
  refine (hsingle.bind (q := True) ?_).congr (by rw [and_true])
  rintro ⟨flushedPec, isNotEmpty⟩ ⟨houtput, hempty⟩
  simp only at hempty houtput
  refine pure ?_
  cases tuple with
  | nil =>
    simp [hempty]
  | cons byte rest =>
    simpa [hempty] using houtput

end CSVInputFormatter

end MobilityNebula.InputFormatters
