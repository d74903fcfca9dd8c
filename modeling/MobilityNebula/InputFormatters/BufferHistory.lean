import MobilityNebula.InputFormatters.CSVContent

/-!
# BufferHistory — what earlier users of a buffer leave to the consumer

Releasing a buffer resets its number of tuples and its children.  The formatter sets the origin, the numbers and
the last-chunk flag, and writes the fields for which a line has tokens.  Watermark, creation timestamp and all
other bytes are those of earlier users (`output_independent_iff`).
-/

namespace MobilityNebula.InputFormatters

open Library FormattedTupleBuffer CSVInputFormatter List

/-! ## Memory -/

abbrev Memory := Nat → UInt8

def Memory.write (memory : Memory) (offset : Nat) (value : Bytes) : Memory :=
  fun i => if offset ≤ i then value.getD (i - offset) (memory i) else memory i

/-- The bytes at the field pointer: those of the value, or the index of the next child as a `uint32_t`. -/
def FieldValue.memoryBytes (children : Nat) : FieldValue → Bytes
  | .bytes value => value
  | .child _ => integerBytes 4 children

def FieldValue.childCount : FieldValue → Nat
  | .bytes _ => 0
  | .child _ => 1

def replay : List (Nat × FieldValue) → Nat → Memory → Memory
  | [], _, memory => memory
  | (offset, value) :: rest, children, memory =>
    replay rest (children + value.childCount) (memory.write offset (value.memoryBytes children))

lemma FieldValue.length_memoryBytes (children : Nat) (value : FieldValue) :
    (value.memoryBytes children).length = value.sizeInBytes := by
  cases value with
  | bytes value => rfl
  | child content => rfl

lemma Memory.write_write (memory : Memory) (offset : Nat) (value more : Bytes) :
    (memory.write offset value).write (offset + value.length) more = memory.write offset (value ++ more) := by
  funext i
  by_cases hfrom : offset ≤ i
  · by_cases hbehind : offset + value.length ≤ i
    · simp [Memory.write, hfrom, hbehind, Nat.le_sub_of_add_le', getElem?_append_right, Nat.sub_sub]
    · have hin : i - offset < value.length := by omega
      simp [Memory.write, hfrom, hbehind, getElem?_append_left, hin]
  · have hnot : ¬ offset + value.length ≤ i := by omega
    simp [Memory.write, hfrom, hnot]

lemma replay_eq_write {writes : List (Nat × FieldValue)} {sizes : List Nat} {offset : Nat}
    (hoffsets : writes.map Prod.fst = fieldOffsets sizes offset)
    (hsizes : (writes.map fun write => write.2.sizeInBytes) = sizes) (children : Nat) :
    ∃ bytes : Bytes, bytes.length = sizes.sum ∧
      ∀ memory, replay writes children memory = memory.write offset bytes := by
  induction writes generalizing sizes offset children with
  | nil =>
    subst hsizes
    exact ⟨[], rfl, fun memory => funext fun i => by simp [replay, Memory.write]⟩
  | cons write writes ih =>
    subst hsizes
    rcases write with ⟨start, value⟩
    rcases cons.inj hoffsets with ⟨rfl, hrest⟩
    rcases ih hrest rfl (children + value.childCount) with ⟨bytes, hlength, hreplay⟩
    refine ⟨value.memoryBytes children ++ bytes, ?_, fun memory => ?_⟩
    · rw [length_append, value.length_memoryBytes, hlength]
      rfl
    · rw [replay, hreplay, ← Memory.write_write, value.length_memoryBytes]

lemma write_independent_iff (bytes : Bytes) (n : Nat) :
    (∀ memory memory' : Memory, (range n).map (memory.write 0 bytes) = (range n).map (memory'.write 0 bytes))
      ↔ n ≤ bytes.length := by
  constructor
  · intro h
    by_contra hlt
    have hat := map_inj_left.1 (h (fun _ => 0) (fun _ => 1)) bytes.length (mem_range.2 (not_le.1 hlt))
    simp [Memory.write] at hat
  · intro hle memory memory'
    refine map_congr_left fun i hi => ?_
    have hlt : i < bytes.length := (mem_range.1 hi).trans_le hle
    simp [Memory.write, hlt]

/-! ## Consumers -/

/-- What is left in a pooled buffer. -/
structure RecycledBuffer where
  watermark : Nat
  creationTimestamp : Nat
  memory : Memory

/-- What a consumer reads: origin, numbers and flag, number of tuples, watermark, creation timestamp, and the bytes
of the counted rows. -/
def CSVInputFormatter.consumed (f : CSVInputFormatter) (b : FormattedTupleBuffer) (recycled : RecycledBuffer) :
    Nat × (Nat × Nat × Bool) × Nat × Nat × Nat × Bytes :=
  (b.originId, b.header, b.numberOfTuples, recycled.watermark, recycled.creationTimestamp,
    (range (b.numberOfTuples * f.tupleSizeInBytes)).map (replay b.writtenFields 0 recycled.memory))

def CSVInputFormatter.allTuples (f : CSVInputFormatter) (raw : ShredderInput)
    (returned : List (ProcessSequenceNumberCall × SpanningTupleBuffers)) (N : Nat) : List Bytes :=
  returned.flatMap (fun result => f.callTuples raw result.1)
    ++ (if f.openTuple raw N = [] then [] else [f.openTuple raw N])

variable {f : CSVInputFormatter}

lemma writtenSize_le (f : CSVInputFormatter) (tuple : Bytes) : f.writtenSize tuple ≤ f.tupleSizeInBytes := by
  have hzip : ∀ (tokens : List Bytes) (functions : List (Bytes → Except FormatterError FieldValue)) (sizes : List Nat),
      ((tokens.zip (functions.zip sizes)).map fun field => field.2.2).sum ≤ sizes.sum := by
    intro tokens functions sizes
    induction sizes generalizing tokens functions with
    | nil => simp
    | cons size sizes ih =>
      cases tokens with
      | nil => simp
      | cons token tokens =>
        cases functions with
        | nil => simp
        | cons function functions => simpa using ih tokens functions
  exact hzip _ _ _

lemma rows_written_iff (f : CSVInputFormatter) (tuples : List Bytes) :
    tuples.length * f.tupleSizeInBytes ≤ (tuples.flatMap f.writtenSizes).sum
      ↔ ∀ w ∈ tuples, f.writtenSize w = f.tupleSizeInBytes := by
  refine ⟨fun h => ?_, fun h => (sum_writtenSizes_of_rows h).ge⟩
  rw [sum_writtenSizes] at h
  induction tuples with
  | nil => simp
  | cons tuple tuples ih =>
    have hrest : (tuples.map f.writtenSize).sum ≤ tuples.length * f.tupleSizeInBytes := by
      simpa using sum_le_card_nsmul (tuples.map f.writtenSize) _ (by simp [writtenSize_le])
    have hfirst := writtenSize_le f tuple
    rw [length_cons, Nat.succ_mul, map_cons, sum_cons] at h
    exact forall_mem_cons.2 ⟨by omega, ih (by omega)⟩

/-- One buffer, with any contents of its memory. -/
lemma consumed_independent_iff {capacity : Nat} {b : FormattedTupleBuffer} (hfills : f.FillsFields)
    (hlayout : f.Layout capacity 0 b) (hcount : b.numberOfTuples = b.processedTuples.length) (w₁ t₁ w₂ t₂ : Nat) :
    (∀ memory₁ memory₂, f.consumed b ⟨w₁, t₁, memory₁⟩ = f.consumed b ⟨w₂, t₂, memory₂⟩)
      ↔ (w₁ = w₂ ∧ t₁ = t₂) ∧ ∀ w ∈ b.processedTuples, f.writtenSize w = f.tupleSizeInBytes := by
  rcases replay_eq_write hlayout.offsets (hlayout.sizes hfills) 0 with ⟨bytes, hlength, hreplay⟩
  rw [← rows_written_iff, ← hcount, ← hlength, ← write_independent_iff]
  simp only [consumed, hreplay, Prod.mk.injEq, true_and]
  exact ⟨fun h => ⟨⟨(h default default).1, (h default default).2.1⟩, fun m₁ m₂ => (h m₁ m₂).2.2⟩,
    fun h m₁ m₂ => ⟨h.1.1, h.1.2, h.2 m₁ m₂⟩⟩

/-- For two histories of the pool: the consumers of the emitted buffers read the same, whatever is in the memory of
the buffers, exactly if the histories left the same watermarks and timestamps and every line has all its fields. -/
theorem output_independent_iff (f : CSVInputFormatter) (hfills : f.FillsFields) (stream : RawStream)
    (returned : List (ProcessSequenceNumberCall × SpanningTupleBuffers)) (flushed : SpanningTupleBuffers)
    (contract : ShredderContract (f.rawBuffers stream) stream.numberOfBuffers returned flushed)
    (originId flushNumber bufferSize : Nat) (pec : PipelineExecutionContext)
    (hrun : f.formatAll stream originId returned flushed flushNumber ⟨bufferSize, [], []⟩ = .ok pec)
    (watermarks₁ timestamps₁ watermarks₂ timestamps₂ : Nat → Nat) :
    (∀ memories₁ memories₂ : Nat → Memory, ∀ i b, pec.emitted[i]? = some b →
        f.consumed b ⟨watermarks₁ i, timestamps₁ i, memories₁ i⟩
          = f.consumed b ⟨watermarks₂ i, timestamps₂ i, memories₂ i⟩)
      ↔ (∀ i < pec.emitted.length, watermarks₁ i = watermarks₂ i ∧ timestamps₁ i = timestamps₂ i) ∧
        ∀ w ∈ f.allTuples (f.rawBuffers stream) returned stream.numberOfBuffers,
          f.writtenSize w = f.tupleSizeInBytes := by
  rcases ((formatAll_spec contract originId flushNumber ⟨bufferSize, [], []⟩).of_eq_ok hrun).2 with
    ⟨outputs, last, rfl, hproduce, hflush, hlayout⟩
  have hcalls := processed_of_forall₂ hproduce
  have hlast := hflush.processed
  have htuples : f.allTuples (f.rawBuffers stream) returned stream.numberOfBuffers
      = (outputs.flatten ++ last).flatMap processedTuples := by
    rw [flatMap_append, hcalls.1, hlast.1, allTuples]
  have hcounts := forall_mem_append.2 ⟨hcalls.2, hlast.2⟩
  -- buffer by buffer
  have hbuffer := fun i b (hb : (outputs.flatten ++ last)[i]? = some b) =>
    consumed_independent_iff hfills (hlayout b (mem_of_getElem? hb)) (hcounts b (mem_of_getElem? hb))
      (watermarks₁ i) (timestamps₁ i) (watermarks₂ i) (timestamps₂ i)
  rw [htuples, forall_mem_flatMap]
  constructor
  · intro h
    have hall := fun i b hb => (hbuffer i b hb).1 fun m₁ m₂ => h (fun _ => m₁) (fun _ => m₂) i b hb
    refine ⟨fun i hi => (hall i _ (getElem?_eq_getElem hi)).1, fun b hb => ?_⟩
    rcases getElem?_of_mem hb with ⟨i, hi⟩
    exact (hall i b hi).2
  · rintro ⟨hmetadata, hrows⟩ memories₁ memories₂ i b hb
    exact (hbuffer i b hb).2 ⟨hmetadata i (List.getElem?_eq_some_iff.1 hb).1, hrows b (List.mem_of_getElem? hb)⟩ _ _

/-- The parse functions of the source with the sizes of their types. -/
inductive ParsesType : (Bytes → Except FormatterError FieldValue) → Nat → Prop where
  | integer (type : IntegerType) : ParsesType (parseIntegerString type) type.sizeInBytes
  | char : ParsesType parseChar 1
  | boolean : ParsesType parseBoolean 1
  | varsized : ParsesType parseVarsized 4

lemma ParsesType.sizeInBytes {parse : Bytes → Except FormatterError FieldValue} {size : Nat}
    (h : ParsesType parse size) {token : Bytes} {value : FieldValue} (hvalue : parse token = .ok value) :
    value.sizeInBytes = size := by
  cases h with
  | integer type =>
    unfold parseIntegerString at hvalue
    split at hvalue <;> cases hvalue
    simp [FieldValue.sizeInBytes, integerBytes]
  | char =>
    unfold parseChar at hvalue
    split at hvalue <;> cases hvalue
    assumption
  | boolean =>
    unfold parseBoolean at hvalue
    split_ifs at hvalue <;> cases hvalue <;> rfl
  | varsized =>
    cases hvalue
    rfl

lemma fillsFields_of_parsesType (h : ∀ field ∈ f.fieldParseFunctions.zip f.fieldSizes, ParsesType field.1 field.2) :
    f.FillsFields :=
  fun field hfield _ _ hvalue => (h field hfield).sizeInBytes hvalue

lemma sampleFormatter_fillsFields : sampleFormatter.FillsFields := by
  refine fillsFields_of_parsesType fun field hfield => ?_
  rw [mem_singleton.1 hfield]
  exact .integer ⟨false, 1⟩

/-- The lines `12` and `3` with buffers that differ in their memory only. -/
theorem output_independent_iff_sample : ∃ pec, sampleFormatter.formatAll (sampleStream 49) 1
        (sampleReturned (sampleFormatter.rawBuffers (sampleStream 49)))
        (sampleFlushed (sampleFormatter.rawBuffers (sampleStream 49))) 3 ⟨4096, [], []⟩ = .ok pec ∧
      ∀ memories₁ memories₂ : Nat → Memory, ∀ i b, pec.emitted[i]? = some b →
        sampleFormatter.consumed b ⟨0, 5, memories₁ i⟩ = sampleFormatter.consumed b ⟨0, 5, memories₂ i⟩ := by
  refine ⟨_, rfl, (output_independent_iff sampleFormatter sampleFormatter_fillsFields (sampleStream 49) _ _
    (sampleContract rfl (by decide)) 1 3 4096 _ rfl (fun _ => 0) (fun _ => 5) (fun _ => 0) (fun _ => 5)).2 ?_⟩
  exact ⟨fun _ _ => ⟨rfl, rfl⟩, by decide⟩

/-- The watermark 7 of an earlier user of the first buffer is read by the consumer of the line `12`. -/
theorem stale_watermark_consumed : ∃ pec b, ShredderContract (sampleFormatter.rawBuffers (sampleStream 49)) 2
        (sampleReturned (sampleFormatter.rawBuffers (sampleStream 49)))
        (sampleFlushed (sampleFormatter.rawBuffers (sampleStream 49))) ∧
      sampleFormatter.formatAll (sampleStream 49) 1 (sampleReturned (sampleFormatter.rawBuffers (sampleStream 49)))
        (sampleFlushed (sampleFormatter.rawBuffers (sampleStream 49))) 3 ⟨4096, [], []⟩ = .ok pec ∧
      pec.emitted[0]? = some b ∧
      sampleFormatter.consumed b ⟨0, 0, fun _ => 0⟩ ≠ sampleFormatter.consumed b ⟨7, 0, fun _ => 0⟩ :=
  ⟨_, _, sampleContract rfl (by decide), rfl, rfl, by decide⟩

end MobilityNebula.InputFormatters
