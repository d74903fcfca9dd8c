import MobilityNebula.Memory.BufferManager

/-!
# ChildBuffers — variable-sized values in child buffers

A variable-sized value is stored in a child buffer behind its length, and the tuple holds the index of the child.
`storeChildBuffer` returns the index with 32 bits, but `BufferControlBlock::loadChildBuffer` takes one with 16
bits: the children behind the first `2 ^ 16` are not found again.  The children here are those of the buffer
manager with their payload (`children_storeChildBuffer`, `segment_loadChildBuffer`).
-/

namespace MobilityNebula.Memory

open List

/-- A child: its control block, and the length and the characters in its payload. -/
structure ChildBuffer where
  controlBlock : Nat
  stringSize : Nat
  characters : List UInt8
  deriving DecidableEq

namespace ChildBuffer

variable (children : List ChildBuffer)

/-- `TupleBuffer::storeChildBuffer`: the children afterwards and the index. -/
def storeChildBuffer (child : ChildBuffer) : List ChildBuffer × Nat :=
  (children ++ [child], children.length % 2 ^ 32)

/-- `TupleBuffer::loadChildBuffer`: the index of 32 bits becomes one of 16 bits. -/
def loadChildBuffer (bufferIndex : Nat) : Option ChildBuffer :=
  children[bufferIndex % 2 ^ 32 % 2 ^ 16]?

section BufferManager

variable {children} {m : BufferManager} {parent : SegmentId}
  (hchildren : (m.controlBlock parent).children = children.map controlBlock)
include hchildren

lemma children_storeChildBuffer (child : ChildBuffer) :
    ((m.storeChildBuffer parent child.controlBlock).controlBlock parent).children
      = (storeChildBuffer children child).1.map controlBlock := by
  by_cases hself : parent = child.controlBlock
  · simp [BufferManager.storeChildBuffer, BufferManager.retain, BufferManager.modifyBlock, storeChildBuffer,
      ← hself, hchildren]
  · simp [BufferManager.storeChildBuffer, BufferManager.retain, BufferManager.modifyBlock, storeChildBuffer,
      hself, hchildren]

lemma segment_loadChildBuffer (bufferIndex : Nat) :
    (m.loadChildBuffer parent bufferIndex).map Prod.snd = (loadChildBuffer children bufferIndex).map controlBlock := by
  have hmod : bufferIndex % 2 ^ 32 % 2 ^ 16 = bufferIndex % 2 ^ 16 := by omega
  rw [BufferManager.loadChildBuffer, loadChildBuffer, hmod, hchildren, getElem?_map, Option.map_map, Option.map_map]
  rfl

end BufferManager

/-- The payload of a value; the child has a control block of its own. -/
def ofValue (value : Nat × List UInt8) : ChildBuffer := ⟨value.1, value.2.length % 2 ^ 32, value.2⟩

def writeVarSizedData (value : Nat × List UInt8) : List ChildBuffer × Nat :=
  storeChildBuffer children (ofValue value)

def readVarSizedData (childBufferIdx : Nat) : Option (List UInt8) :=
  (loadChildBuffer children childBufferIdx).map fun child => child.characters.take child.stringSize

variable (values : List (Nat × List UInt8))

def writeAll : List ChildBuffer × List Nat :=
  values.foldl (fun (children, indices) value =>
    let (children, index) := writeVarSizedData children value
    (children, indices ++ [index])) ([], [])

lemma writeAll_eq : writeAll values = (values.map ofValue, (range values.length).map (· % 2 ^ 32)) := by
  induction values using reverseRecOn with
  | nil => rfl
  | append_singleton values value ih =>
    rw [writeAll, foldl_append, ← writeAll, ih]
    simp [writeVarSizedData, storeChildBuffer, range_succ]

/-- The child with number `k` is looked for at the place of number `k % 2 ^ 16`. -/
lemma load_index (k : Nat) : loadChildBuffer (writeAll values).1 (k % 2 ^ 32) = (values[k % 2 ^ 16]?).map ofValue := by
  have hmod : k % 2 ^ 32 % 2 ^ 32 % 2 ^ 16 = k % 2 ^ 16 := by omega
  rw [loadChildBuffer, hmod, writeAll_eq, getElem?_map]

lemma indices_writeAll {k : Nat} (hk : k < values.length) : (writeAll values).2[k]? = some (k % 2 ^ 32) := by
  rw [writeAll_eq, getElem?_map, getElem?_range hk, Option.map_some]

/-- Up to `2 ^ 16` values every child is found by its index, and its value is read as it was written; if the
children are different, then no more than that are all found. -/
theorem child_buffers_found (values : List (Nat × List UInt8)) (hsize : ∀ value ∈ values, value.2.length < 2 ^ 32 - 4) :
    (values.length ≤ 2 ^ 16 → ∀ (k : Nat) value, values[k]? = some value → ∃ index,
      (writeAll values).2[k]? = some index ∧
      loadChildBuffer (writeAll values).1 index = some (ofValue value) ∧
      readVarSizedData (writeAll values).1 index = some value.2) ∧
    ((values.map Prod.fst).Nodup → (∀ (k : Nat) value, values[k]? = some value → ∃ index,
      (writeAll values).2[k]? = some index ∧
      (loadChildBuffer (writeAll values).1 index).map ChildBuffer.controlBlock = some value.1) →
      values.length ≤ 2 ^ 16) := by
  constructor
  · intro hlength k value hget
    have hk := (List.getElem?_eq_some_iff.1 hget).1
    have hload := load_index values k
    rw [Nat.mod_eq_of_lt (a := k) (b := 2 ^ 16) (by omega), hget, Option.map_some] at hload
    refine ⟨_, indices_writeAll values hk, hload, ?_⟩
    have hmod : value.2.length % 2 ^ 32 = value.2.length := by
      have := hsize value (mem_of_getElem? hget)
      omega
    rw [readVarSizedData, hload, Option.map_some, ofValue, hmod, take_length]
  · intro hnodup hall
    by_contra hlt
    -- the child with number `2 ^ 16` is looked for at the place of the first one
    have hk : 2 ^ 16 < values.length := Nat.lt_of_not_le hlt
    rcases hall _ _ (getElem?_eq_getElem hk) with ⟨index, hindex, hload⟩
    rw [indices_writeAll values hk] at hindex
    rw [← Option.some.inj hindex, load_index, Nat.mod_self, getElem?_eq_getElem (Nat.zero_lt_of_lt hk)] at hload
    have heq : (values.map Prod.fst)[0]? = (values.map Prod.fst)[2 ^ 16]? := by
      rw [getElem?_map, getElem?_map, getElem?_eq_getElem (Nat.zero_lt_of_lt hk), getElem?_eq_getElem hk]
      exact hload
    have hzero := (getElem?_inj (by rw [length_map]; exact Nat.zero_lt_of_lt hk) hnodup).1 heq
    cases hzero

theorem child_buffers_found_two : ∃ index, (writeAll [(1, [65]), (2, [66])]).2[1]? = some index ∧
      readVarSizedData (writeAll [(1, [65]), (2, [66])]).1 index = some [66] := by
  rcases (child_buffers_found [(1, [65]), (2, [66])] (by simp)).1 (by simp) 1 (2, [66]) rfl with
    ⟨index, hindex, -, hread⟩
  exact ⟨index, hindex, hread⟩

/-- Of `2 ^ 16 + 1` children, the last one got the index `2 ^ 16`, and this index loads the first one. -/
theorem last_child_not_found : (writeAll ((range (2 ^ 16 + 1)).map fun k => (k, []))).2[2 ^ 16]? = some (2 ^ 16) ∧
      loadChildBuffer (writeAll ((range (2 ^ 16 + 1)).map fun k => (k, []))).1 (2 ^ 16) = some ⟨0, 0, []⟩ := by
  constructor
  · exact indices_writeAll _ (by rw [length_map, length_range]; exact Nat.lt_succ_self _)
  · have hload := load_index ((range (2 ^ 16 + 1)).map fun k => (k, [])) (2 ^ 16)
    rw [Nat.mod_self, getElem?_map, getElem?_range (Nat.succ_pos _)] at hload
    exact hload

end ChildBuffer

end MobilityNebula.Memory
