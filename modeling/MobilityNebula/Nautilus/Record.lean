import Mathlib.Data.List.Basic

/-!
# Record — the fields of a tuple

A record maps field names to values; reading a field that it does not have is an error.
-/

namespace MobilityNebula.Nautilus

abbrev RecordFieldIdentifier := String

/-- The value of each field that the record has. -/
def Record (V : Type) := RecordFieldIdentifier → Option V

namespace Record

variable {V : Type}

def empty : Record V := fun _ => none

variable (record : Record V) (field : RecordFieldIdentifier)

/-- Fails with `FieldNotFound` if there is no such field. -/
def read : Option V := record field

def write (value : V) : Record V :=
  Function.update record field (some value)

lemma read_write_self (value : V) : (record.write field value).read field = some value := Function.update_self ..

lemma read_write_of_ne {field field' : RecordFieldIdentifier} (hne : field' ≠ field) (record : Record V)
    (value : V) : (record.write field value).read field' = record.read field' := Function.update_of_ne hne ..

variable {record}

lemma isSome_read_write {field : RecordFieldIdentifier} (field' : RecordFieldIdentifier)
    (value : V) (h : (record.read field).isSome = true) : ((record.write field' value).read field).isSome = true := by
  by_cases heq : field = field'
  · rw [heq, read_write_self]
    rfl
  · rw [read_write_of_ne heq]
    exact h

/-! ## Copying fields -/

/-- The fields are read from the record and written into the target, one after the other. -/
def copyFields (record : Record V) (fields : List RecordFieldIdentifier) (target : Record V) : Option (Record V) :=
  fields.foldlM (fun target field => do
    let value ← record.read field
    some (target.write field value)) target

def HasFields (record : Record V) (fields : List RecordFieldIdentifier) : Prop :=
  ∀ field ∈ fields, (record.read field).isSome = true

def overlay (record : Record V) (fields : List RecordFieldIdentifier) (target : Record V) : Record V :=
  fun field => if field ∈ fields then record.read field else target.read field

lemma read_overlay (record : Record V) (fields : List RecordFieldIdentifier) (target : Record V)
    (field : RecordFieldIdentifier) :
    (record.overlay fields target).read field = if field ∈ fields then record.read field else target.read field := rfl

variable {fields : List RecordFieldIdentifier}

lemma copyFields_eq (h : record.HasFields fields)
    (target : Record V) : record.copyFields fields target = some (record.overlay fields target) := by
  induction fields generalizing target with
  | nil => rfl
  | cons field fields ih =>
    have hcons := List.forall_mem_cons.1 h
    rcases Option.isSome_iff_exists.1 hcons.1 with ⟨value, hvalue⟩
    have hfirst : record.copyFields (field :: fields) target = record.copyFields fields (target.write field value) := by
      rw [copyFields, List.foldlM_cons, hvalue]
      rfl
    rw [hfirst, ih hcons.2, Option.some_inj]
    funext field'
    simp only [overlay, List.mem_cons]
    by_cases hmem : field' ∈ fields
    · rw [if_pos hmem, if_pos (Or.inr hmem)]
    · rw [if_neg hmem]
      by_cases heq : field' = field
      · rw [if_pos (Or.inl heq), heq, read_write_self, hvalue]
      · rw [if_neg (by simp [heq, hmem]), read_write_of_ne heq]

lemma HasFields.overlay (h : record.HasFields fields)
    (target : Record V) : (record.overlay fields target).HasFields fields := by
  intro field hmem
  rw [read_overlay, if_pos hmem]
  exact h field hmem

end Record

end MobilityNebula.Nautilus
