import MobilityNebula.DataTypes.Schema

/-!
# MemoryLayout — where the fields of tuples lie in a buffer

A row layout puts whole tuples one behind the other, a column layout all values of a field.
-/

namespace MobilityNebula.Memory

open DataTypes List

/-- A `RowLayout` or a `ColumnLayout`. -/
structure MemoryLayout where
  type : MemoryLayoutType
  physicalFieldSizes : List Nat
  recordSize : Nat
  capacity : Nat

namespace MemoryLayout

def create (type : MemoryLayoutType) (bufferSize : Nat) (schema : Schema) : MemoryLayout :=
  let physicalFieldSizes := schema.fields.map fun field => field.dataType.getSizeInBytes
  let recordSize := physicalFieldSizes.sum
  ⟨type, physicalFieldSizes, recordSize, if 0 < recordSize then bufferSize / recordSize else 0⟩

/-- The values of the offset counter of the constructors. -/
def offsetsFrom : Nat → List Nat → List Nat
  | _, [] => []
  | offsetCounter, size :: sizes => offsetCounter :: offsetsFrom (offsetCounter + size) sizes

variable (layout : MemoryLayout)

def getFieldSize (fieldIndex : Nat) : Nat := layout.physicalFieldSizes.getD fieldIndex 0

/-- `fieldOffSets` or `columnOffsets`. -/
def fieldOffsets : List Nat :=
  match layout.type with
  | .rowLayout => offsetsFrom 0 layout.physicalFieldSizes
  | .columnarLayout => offsetsFrom 0 (layout.physicalFieldSizes.map (· * layout.capacity))

/-- Fails with `CannotAccessBuffer`. -/
def getFieldOffset (tupleIndex fieldIndex : Nat) : Option Nat :=
  match layout.fieldOffsets[fieldIndex]? with
  | none => none
  | some fieldOffset =>
    if layout.capacity ≤ tupleIndex then
      none
    else
      match layout.type with
      | .rowLayout => some (tupleIndex * layout.recordSize + fieldOffset)
      | .columnarLayout => some (tupleIndex * layout.getFieldSize fieldIndex + fieldOffset)

/-- The bytes in front of a field in a tuple. -/
def before (fieldIndex : Nat) : Nat := (layout.physicalFieldSizes.take fieldIndex).sum

/-- Where a field of a tuple begins. -/
def place (tupleIndex fieldIndex : Nat) : Nat :=
  match layout.type with
  | .rowLayout => tupleIndex * layout.recordSize + layout.before fieldIndex
  | .columnarLayout => tupleIndex * layout.getFieldSize fieldIndex + layout.before fieldIndex * layout.capacity

/-- The buffer takes as many tuples of the schema as fit into it, and every field of such a tuple has bytes
of its own. -/
structure DisjointCells (bufferSize : Nat) (schema : Schema) : Prop where
  fieldSizes : layout.physicalFieldSizes = schema.fields.map fun field => field.dataType.getSizeInBytes
  -- no tuple fits for a schema without bytes
  capacity : layout.capacity = bufferSize / layout.physicalFieldSizes.sum
  inside : ∀ t < layout.capacity, ∀ f < layout.physicalFieldSizes.length,
    ∃ offset, layout.getFieldOffset t f = some offset ∧ offset + layout.getFieldSize f ≤ bufferSize
  disjoint : ∀ t f u g offset offset', layout.getFieldOffset t f = some offset →
    layout.getFieldOffset u g = some offset' → (t, f) ≠ (u, g) → ∀ byte,
      offset ≤ byte ∧ byte < offset + layout.getFieldSize f →
        ¬ (offset' ≤ byte ∧ byte < offset' + layout.getFieldSize g)

lemma getElem?_offsetsFrom (offset : Nat) (sizes : List Nat) (i : Nat) :
    (offsetsFrom offset sizes)[i]? = sizes[i]?.map fun _ => offset + (sizes.take i).sum := by
  induction sizes generalizing offset i with
  | nil => rfl
  | cons size sizes ih =>
    cases i with
    | zero => rfl
    | succ i => simp [offsetsFrom, ih, Nat.add_assoc]

variable {layout} {t f u g offset : Nat}

lemma getFieldOffset_eq_some : layout.getFieldOffset t f = some offset ↔
    f < layout.physicalFieldSizes.length ∧ t < layout.capacity ∧ layout.place t f = offset := by
  unfold getFieldOffset fieldOffsets place before
  cases layout.type <;> by_cases hf : f < layout.physicalFieldSizes.length <;>
    simp [getElem?_offsetsFrom, hf, ← map_take, List.sum_map_mul_right]

lemma before_add_getFieldSize (f : Nat) : layout.before f + layout.getFieldSize f = layout.before (f + 1) := by
  simp only [before, getFieldSize, take_add_one, sum_append, getD_eq_getElem?_getD]
  cases layout.physicalFieldSizes[f]? <;> simp

lemma before_mono (h : f ≤ g) : layout.before f ≤ layout.before g :=
  (take_sublist_take_left h).sum_le_sum fun _ _ => Nat.zero_le _

lemma before_le_sum (f : Nat) : layout.before f ≤ layout.physicalFieldSizes.sum :=
  (take_sublist _ _).sum_le_sum fun _ _ => Nat.zero_le _

/-- Which of two fields of tuples comes first in the buffer. -/
def Precedes (layout : MemoryLayout) (t f u g : Nat) : Prop :=
  match layout.type with
  | .rowLayout => t < u ∨ t = u ∧ f < g
  | .columnarLayout => f < g ∨ f = g ∧ t < u

lemma precedes_or (hne : (t, f) ≠ (u, g)) : layout.Precedes t f u g ∨ layout.Precedes u g t f := by
  rw [Ne, Prod.mk.injEq] at hne
  unfold Precedes
  split <;> omega

lemma place_add_le (hsize : layout.recordSize = layout.physicalFieldSizes.sum) (ht : t < layout.capacity)
    (h : layout.Precedes t f u g) : layout.place t f + layout.getFieldSize f ≤ layout.place u g := by
  have hnext := layout.before_add_getFieldSize f
  unfold Precedes at h
  unfold place
  split at h <;> rcases h with hlt | ⟨rfl, hlt⟩
  · have htuple := Nat.mul_le_mul_right layout.recordSize (Nat.add_one_le_iff.2 hlt)
    have hinside := layout.before_le_sum (f + 1)
    rw [Nat.add_one_mul] at htuple
    omega
  · have hfield := layout.before_mono (Nat.add_one_le_iff.2 hlt)
    omega
  · have hcolumn := Nat.mul_le_mul_right layout.capacity (layout.before_mono (Nat.add_one_le_iff.2 hlt))
    have hinside := Nat.mul_le_mul_right (layout.getFieldSize f) (Nat.add_one_le_iff.2 ht)
    rw [← hnext, Nat.add_mul, Nat.mul_comm (layout.getFieldSize f)] at hcolumn
    rw [Nat.add_one_mul] at hinside
    omega
  · have hvalue := Nat.mul_le_mul_right (layout.getFieldSize f) (Nat.add_one_le_iff.2 hlt)
    rw [Nat.add_one_mul] at hvalue
    omega

/-- The place behind the last tuple, or behind the last column, is where the used part of the buffer ends. -/
lemma place_add_le_used (hsize : layout.recordSize = layout.physicalFieldSizes.sum) (ht : t < layout.capacity)
    (hf : f < layout.physicalFieldSizes.length) :
    layout.place t f + layout.getFieldSize f ≤ layout.recordSize * layout.capacity := by
  cases htype : layout.type with
  | rowLayout =>
    have hend := place_add_le (f := f) (u := layout.capacity) (g := 0) hsize ht (by simp [Precedes, htype, ht])
    simpa [place, htype, before, Nat.mul_comm] using hend
  | columnarLayout =>
    have hend := place_add_le (u := 0) (g := layout.physicalFieldSizes.length) hsize ht
      (by simp only [Precedes, htype]; exact .inl hf)
    simpa [place, htype, before, hsize] using hend

theorem layouts_address_disjoint_cells (type : MemoryLayoutType) (bufferSize : Nat) (schema : Schema) :
    (create type bufferSize schema).DisjointCells bufferSize schema where
  fieldSizes := rfl
  capacity := by
    simp only [create]
    split
    case isTrue => rfl
    case isFalse h => rw [Nat.eq_zero_of_not_pos h, Nat.div_zero]
  inside t ht f hf := by
    refine ⟨_, getFieldOffset_eq_some.2 ⟨hf, ht, rfl⟩, (place_add_le_used rfl ht hf).trans ?_⟩
    simp only [create]
    split
    · exact Nat.mul_div_le _ _
    · exact Nat.zero_le _
  disjoint t f u g offset offset' h h' hne byte hbyte := by
    rcases getFieldOffset_eq_some.1 h with ⟨-, ht, rfl⟩
    rcases getFieldOffset_eq_some.1 h' with ⟨-, hu, rfl⟩
    rcases precedes_or hne with hfirst | hfirst
    · have hle := place_add_le rfl ht hfirst
      omega
    · have hle := place_add_le rfl hu hfirst
      omega

end MemoryLayout

end MobilityNebula.Memory
