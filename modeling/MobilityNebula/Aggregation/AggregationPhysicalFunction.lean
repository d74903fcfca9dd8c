import MobilityNebula.Library.Aggregates
import MobilityNebula.Nautilus.VarVal

/-!
# AggregationPhysicalFunction — aggregation states in memory

Embedding of the functions COUNT, SUM, MIN, MAX and AVG over integers.  A function works on its state, a piece
of memory of a fixed size; the states of all functions of a query lie one behind the other, and the operators
walk over them.

Above it stands what the states are for: each function is an aggregate of its typed state
(`AggregationPhysicalFunction.aggregate`), merging agrees with adding (`aggregate_lawful`), and the order of the
records does not matter (`aggregate_commutative`).  Walking over the packed states applies each aggregate to
its own state (`stateAt_forEachState`).
-/

namespace MobilityNebula.Aggregation

open Library InputFormatters Nautilus

universe u

/-! ## The functions -/

inductive AggregationType where
  | count
  | sum
  | min
  | max
  | avg
  deriving DecidableEq, Repr

structure AggregationPhysicalFunction (ρ : Type u) where
  aggregationType : AggregationType
  inputType : IntegerType
  inputFunction : ρ → Integer inputType

/-- The type of the count that AVG keeps behind its sum. -/
def countType : IntegerType := ⟨false, 8⟩

namespace AggregationPhysicalFunction

variable {ρ : Type u} (f : AggregationPhysicalFunction ρ) (mem : MemArea) (aggregationState : Nat)

def getSizeOfStateInBytes : Nat :=
  match f.aggregationType with
  | .count | .sum | .min | .max => f.inputType.sizeInBytes
  | .avg => f.inputType.sizeInBytes + countType.sizeInBytes

def reset : MemArea :=
  match f.aggregationType with
  | .count | .sum | .avg => memset mem aggregationState 0 f.getSizeOfStateInBytes
  | .min => writeToMemory f.inputType (createNautilusMaxValue f.inputType) mem aggregationState
  | .max => writeToMemory f.inputType (createNautilusMinValue f.inputType) mem aggregationState

def lift (record : ρ) : MemArea :=
  match f.aggregationType with
  | .count =>
    let count := readVarValFromMemory mem aggregationState f.inputType
    writeToMemory f.inputType (count + 1) mem aggregationState
  | .sum =>
    let sum := readVarValFromMemory mem aggregationState f.inputType
    writeToMemory f.inputType (sum + f.inputFunction record) mem aggregationState
  | .min =>
    let min := readVarValFromMemory mem aggregationState f.inputType
    let value := f.inputFunction record
    if lessThan f.inputType value min then writeToMemory f.inputType value mem aggregationState else mem
  | .max =>
    let max := readVarValFromMemory mem aggregationState f.inputType
    let value := f.inputFunction record
    if lessThan f.inputType max value then writeToMemory f.inputType value mem aggregationState else mem
  | .avg =>
    let memAreaCount := aggregationState + f.inputType.sizeInBytes
    let sum := readVarValFromMemory mem aggregationState f.inputType
    let count := readVarValFromMemory mem memAreaCount countType
    let mem := writeToMemory f.inputType (sum + f.inputFunction record) mem aggregationState
    writeToMemory countType (count + 1) mem memAreaCount

/-- The second state is in the memory area of another entry. -/
def combine (mem₁ : MemArea) (aggregationState₁ : Nat) (mem₂ : MemArea) (aggregationState₂ : Nat) : MemArea :=
  match f.aggregationType with
  | .count | .sum =>
    let value₁ := readVarValFromMemory mem₁ aggregationState₁ f.inputType
    let value₂ := readVarValFromMemory mem₂ aggregationState₂ f.inputType
    writeToMemory f.inputType (value₁ + value₂) mem₁ aggregationState₁
  | .min =>
    let min₁ := readVarValFromMemory mem₁ aggregationState₁ f.inputType
    let min₂ := readVarValFromMemory mem₂ aggregationState₂ f.inputType
    if lessThan f.inputType min₂ min₁ then writeToMemory f.inputType min₂ mem₁ aggregationState₁ else mem₁
  | .max =>
    let max₁ := readVarValFromMemory mem₁ aggregationState₁ f.inputType
    let max₂ := readVarValFromMemory mem₂ aggregationState₂ f.inputType
    if lessThan f.inputType max₁ max₂ then writeToMemory f.inputType max₂ mem₁ aggregationState₁ else mem₁
  | .avg =>
    let sum₁ := readVarValFromMemory mem₁ aggregationState₁ f.inputType
    let count₁ := readVarValFromMemory mem₁ (aggregationState₁ + f.inputType.sizeInBytes) countType
    let sum₂ := readVarValFromMemory mem₂ aggregationState₂ f.inputType
    let count₂ := readVarValFromMemory mem₂ (aggregationState₂ + f.inputType.sizeInBytes) countType
    let mem₁ := writeToMemory f.inputType (sum₁ + sum₂) mem₁ aggregationState₁
    writeToMemory countType (count₁ + count₂) mem₁ (aggregationState₁ + f.inputType.sizeInBytes)

/-! ## Typed states -/

/-- A state as the values it holds; the count is used by AVG only. -/
abbrev State : Type := Integer f.inputType × Integer countType

def stateAt : f.State :=
  (readVarValFromMemory mem aggregationState f.inputType,
    if f.aggregationType = .avg then
      readVarValFromMemory mem (aggregationState + f.inputType.sizeInBytes) countType
    else 0)

variable (type : IntegerType) (v w : Integer type)

def smaller : Integer type := if lessThan type v w then v else w

def larger : Integer type := if lessThan type w v then v else w

def aggregate : Aggregate ρ f.State where
  reset :=
    match f.aggregationType with
    | .count | .sum | .avg => (0, 0)
    | .min => (createNautilusMaxValue f.inputType, 0)
    | .max => (createNautilusMinValue f.inputType, 0)
  lift s record :=
    match f.aggregationType with
    | .count => (s.1 + 1, s.2)
    | .sum => (s.1 + f.inputFunction record, s.2)
    | .min => (smaller f.inputType (f.inputFunction record) s.1, s.2)
    | .max => (larger f.inputType (f.inputFunction record) s.1, s.2)
    | .avg => (s.1 + f.inputFunction record, s.2 + 1)
  combine s t :=
    match f.aggregationType with
    | .count | .sum => (s.1 + t.1, s.2)
    | .min => (smaller f.inputType t.1 s.1, s.2)
    | .max => (larger f.inputType t.1 s.1, s.2)
    | .avg => (s.1 + t.1, s.2 + t.2)

lemma valueOf_smaller : valueOf type (smaller type v w) = Min.min (valueOf type v) (valueOf type w) := by
  unfold smaller
  split_ifs with hlt
  · exact (min_eq_left (lessThan_iff.1 hlt).le).symm
  · exact (min_eq_right (not_lt.1 fun h => hlt (lessThan_iff.2 h))).symm

lemma valueOf_larger : valueOf type (larger type v w) = Max.max (valueOf type v) (valueOf type w) := by
  unfold larger
  split_ifs with hlt
  · exact (max_eq_left (lessThan_iff.1 hlt).le).symm
  · exact (max_eq_right (not_lt.1 fun h => hlt (lessThan_iff.2 h))).symm

variable (a b c : Integer type)

lemma smaller_assoc : smaller type (smaller type a b) c = smaller type a (smaller type b c) := by
  apply valueOf_injective type
  simp only [valueOf_smaller, min_assoc]

lemma larger_assoc : larger type (larger type a b) c = larger type a (larger type b c) := by
  apply valueOf_injective type
  simp only [valueOf_larger, max_assoc]

lemma smaller_left_comm : smaller type a (smaller type b c) = smaller type b (smaller type a c) := by
  apply valueOf_injective type
  simp only [valueOf_smaller]
  exact min_left_comm _ _ _

lemma larger_left_comm : larger type a (larger type b c) = larger type b (larger type a c) := by
  apply valueOf_injective type
  simp only [valueOf_larger]
  exact max_left_comm _ _ _

lemma smaller_max (a : Integer type) : smaller type (createNautilusMaxValue type) a = a := by
  apply valueOf_injective type
  rw [valueOf_smaller]
  exact min_eq_right (valueOf_le_max type a)

lemma larger_min (a : Integer type) : larger type (createNautilusMinValue type) a = a := by
  apply valueOf_injective type
  rw [valueOf_larger]
  exact max_eq_right (min_le_valueOf type a)

lemma aggregate_lawful : f.aggregate.Lawful where
  combine_reset s := by
    rcases f with ⟨type, inputType, inputFunction⟩
    cases type with
    | count => simp [aggregate]
    | sum => simp [aggregate]
    | min => simp [aggregate, smaller_max]
    | max => simp [aggregate, larger_min]
    | avg => simp [aggregate]
  combine_lift s t record := by
    rcases f with ⟨type, inputType, inputFunction⟩
    cases type with
    | count | sum | avg => simp [aggregate, BitVec.add_assoc]
    | min => simp [aggregate, smaller_assoc]
    | max => simp [aggregate, larger_assoc]

lemma aggregate_commutative : f.aggregate.Commutative := by
  rcases f with ⟨type, inputType, inputFunction⟩
  intro s x y
  cases type with
  | count => rfl
  | sum | avg => simp [aggregate, BitVec.add_assoc, BitVec.add_comm (inputFunction x)]
  | min => simp [aggregate, smaller_left_comm inputType (inputFunction x)]
  | max => simp [aggregate, larger_left_comm inputType (inputFunction x)]

/-! ## What the functions do to their states -/

lemma le_getSizeOfStateInBytes : f.inputType.sizeInBytes ≤ f.getSizeOfStateInBytes := by
  unfold getSizeOfStateInBytes
  cases f.aggregationType with
  | avg => exact Nat.le_add_right _ _
  | _ => exact le_refl _

variable {f} in
lemma stateAt_congr {mem mem' : MemArea} {aggregationState : Nat}
    (h : ∀ i, aggregationState ≤ i → i < aggregationState + f.getSizeOfStateInBytes → mem' i = mem i) :
    f.stateAt mem' aggregationState = f.stateAt mem aggregationState := by
  have hsize := f.le_getSizeOfStateInBytes
  unfold stateAt
  rw [readVarValFromMemory_congr fun i hlo hhi => h i hlo (by omega)]
  split_ifs with havg
  · have hsize' : f.getSizeOfStateInBytes = f.inputType.sizeInBytes + countType.sizeInBytes := by
      rw [getSizeOfStateInBytes, havg]
    rw [readVarValFromMemory_congr fun i hlo hhi => h i (by omega) (by omega)]
  · rfl

lemma unchangedOutside_reset :
    UnchangedOutside aggregationState f.getSizeOfStateInBytes mem (f.reset mem aggregationState) := by
  unfold reset
  cases htype : f.aggregationType with
  | min | max =>
    simp only [getSizeOfStateInBytes, htype]
    exact unchangedOutside_writeToMemory _ mem aggregationState
  | count | sum | avg => exact unchangedOutside_memset mem aggregationState 0 _

lemma unchangedOutside_writeSumAndCount (sum : Integer f.inputType) (count : Integer countType) :
    UnchangedOutside aggregationState (f.inputType.sizeInBytes + countType.sizeInBytes) mem
      (writeToMemory countType count (writeToMemory f.inputType sum mem aggregationState)
        (aggregationState + f.inputType.sizeInBytes)) := by
  refine (unchangedOutside_writeToMemory sum mem aggregationState).trans
    (unchangedOutside_writeToMemory count _ _) (le_refl _) ?_ (Nat.le_add_right _ _) ?_
  · omega
  · omega

lemma unchangedOutside_lift (record : ρ) :
    UnchangedOutside aggregationState f.getSizeOfStateInBytes mem (f.lift mem aggregationState record) := by
  unfold lift
  cases htype : f.aggregationType with
  | count | sum =>
    simp only [getSizeOfStateInBytes, htype]
    exact unchangedOutside_writeToMemory _ mem aggregationState
  | min | max =>
    simp only [getSizeOfStateInBytes, htype]
    split_ifs
    · exact unchangedOutside_writeToMemory _ mem aggregationState
    · exact .refl _ _ mem
  | avg =>
    simp only [getSizeOfStateInBytes, htype]
    exact f.unchangedOutside_writeSumAndCount mem aggregationState _ _

lemma unchangedOutside_combine (mem₁ : MemArea) (aggregationState₁ : Nat) (mem₂ : MemArea) (aggregationState₂ : Nat) :
    UnchangedOutside aggregationState₁ f.getSizeOfStateInBytes mem₁
      (f.combine mem₁ aggregationState₁ mem₂ aggregationState₂) := by
  unfold combine
  cases htype : f.aggregationType with
  | count | sum =>
    simp only [getSizeOfStateInBytes, htype]
    exact unchangedOutside_writeToMemory _ mem₁ aggregationState₁
  | min | max =>
    simp only [getSizeOfStateInBytes, htype]
    split_ifs
    · exact unchangedOutside_writeToMemory _ mem₁ aggregationState₁
    · exact .refl _ _ mem₁
  | avg =>
    simp only [getSizeOfStateInBytes, htype]
    exact f.unchangedOutside_writeSumAndCount mem₁ aggregationState₁ _ _

variable {f} in
lemma stateAt_writeSumAndCount (htype : f.aggregationType = .avg) (mem : MemArea) (aggregationState : Nat)
    (sum : Integer f.inputType) (count : Integer countType) :
    f.stateAt (writeToMemory countType count (writeToMemory f.inputType sum mem aggregationState)
      (aggregationState + f.inputType.sizeInBytes)) aggregationState = (sum, count) := by
  unfold stateAt
  rw [if_pos htype, readVarValFromMemory_writeToMemory,
    readVarValFromMemory_of_unchanged (unchangedOutside_writeToMemory count _ _) (.inl (le_refl _)),
    readVarValFromMemory_writeToMemory]

variable {f} in
lemma stateAt_writeToMemory (htype : f.aggregationType ≠ .avg) (mem : MemArea) (aggregationState : Nat)
    (value : Integer f.inputType) :
    f.stateAt (writeToMemory f.inputType value mem aggregationState) aggregationState = (value, 0) := by
  unfold stateAt
  rw [if_neg htype, readVarValFromMemory_writeToMemory]

lemma stateAt_memset : f.stateAt (memset mem aggregationState 0 f.getSizeOfStateInBytes) aggregationState = (0, 0) := by
  have hsize := f.le_getSizeOfStateInBytes
  unfold stateAt
  rw [readVarValFromMemory_memset mem (le_refl _) (by omega)]
  split_ifs with havg
  · have hsize' : f.getSizeOfStateInBytes = f.inputType.sizeInBytes + countType.sizeInBytes := by
      rw [getSizeOfStateInBytes, havg]
    rw [readVarValFromMemory_memset mem (Nat.le_add_right _ _) (by omega)]
  · rfl

lemma stateAt_reset : f.stateAt (f.reset mem aggregationState) aggregationState = f.aggregate.reset := by
  unfold reset aggregate
  cases htype : f.aggregationType with
  | min | max => exact stateAt_writeToMemory (by simp [htype]) mem aggregationState _
  | count | sum | avg => exact f.stateAt_memset mem aggregationState

lemma stateAt_lift (record : ρ) :
    f.stateAt (f.lift mem aggregationState record) aggregationState
      = f.aggregate.lift (f.stateAt mem aggregationState) record := by
  have hread : (f.stateAt mem aggregationState).1 = readVarValFromMemory mem aggregationState f.inputType := rfl
  have hcount : f.aggregationType ≠ .avg → (f.stateAt mem aggregationState).2 = 0 := fun h => if_neg h
  unfold lift aggregate
  cases htype : f.aggregationType with
  | count | sum =>
    simp only
    rw [stateAt_writeToMemory (by simp [htype]), hread, hcount (by simp [htype])]
  | min | max =>
    simp only [smaller, larger, hread, hcount (by simp [htype])]
    split_ifs
    · exact stateAt_writeToMemory (by simp [htype]) mem aggregationState _
    · exact Prod.ext hread (hcount (by simp [htype]))
  | avg =>
    rw [stateAt_writeSumAndCount htype, stateAt, if_pos htype]

lemma stateAt_combine (mem₁ : MemArea) (aggregationState₁ : Nat) (mem₂ : MemArea) (aggregationState₂ : Nat) :
    f.stateAt (f.combine mem₁ aggregationState₁ mem₂ aggregationState₂) aggregationState₁
      = f.aggregate.combine (f.stateAt mem₁ aggregationState₁) (f.stateAt mem₂ aggregationState₂) := by
  have hread : ∀ mem state, (f.stateAt mem state).1 = readVarValFromMemory mem state f.inputType := fun _ _ => rfl
  have hcount : f.aggregationType ≠ .avg → (f.stateAt mem₁ aggregationState₁).2 = 0 := fun h => if_neg h
  unfold combine aggregate
  cases htype : f.aggregationType with
  | count | sum =>
    simp only
    rw [stateAt_writeToMemory (by simp [htype]), hread, hread, hcount (by simp [htype])]
  | min | max =>
    simp only [smaller, larger, hread, hcount (by simp [htype])]
    split_ifs
    · exact stateAt_writeToMemory (by simp [htype]) mem₁ aggregationState₁ _
    · exact Prod.ext (hread _ _) (hcount (by simp [htype]))
  | avg =>
    rw [stateAt_writeSumAndCount htype, stateAt, if_pos htype, stateAt, if_pos htype]

end AggregationPhysicalFunction

/-! ## Packed states -/

section Packed

variable {ρ : Type u}

/-- Where the states of the functions begin, if the first one begins at the given address. -/
def statePositions : List (AggregationPhysicalFunction ρ) → Nat → List (AggregationPhysicalFunction ρ × Nat)
  | [], _ => []
  | f :: functions, state => (f, state) :: statePositions functions (state + f.getSizeOfStateInBytes)

/-- The loop over the functions that hands each its state and then moves on by the size of the state. -/
def forEachState (operation : AggregationPhysicalFunction ρ → MemArea → Nat → MemArea) :
    List (AggregationPhysicalFunction ρ) → MemArea → Nat → MemArea
  | [], mem, _ => mem
  | f :: functions, mem, state =>
    forEachState operation functions (operation f mem state) (state + f.getSizeOfStateInBytes)

variable {operation : AggregationPhysicalFunction ρ → MemArea → Nat → MemArea}

variable {functions : List (AggregationPhysicalFunction ρ)} {p : AggregationPhysicalFunction ρ × Nat}

lemma le_of_mem_statePositions {state : Nat} (hmem : p ∈ statePositions functions state) : state ≤ p.2 := by
  induction functions generalizing state with
  | nil => cases hmem
  | cons f functions ih =>
    rcases List.mem_cons.1 hmem with rfl | hmem
    · exact le_refl _
    · exact (Nat.le_add_right _ _).trans (ih hmem)

lemma forEachState_before
    (hlocal : ∀ f mem state, UnchangedOutside state f.getSizeOfStateInBytes mem (operation f mem state))
    (functions : List (AggregationPhysicalFunction ρ)) (mem : MemArea) {state i : Nat} (hi : i < state) :
    forEachState operation functions mem state i = mem i := by
  induction functions generalizing mem state with
  | nil => rfl
  | cons f functions ih =>
    rw [forEachState, ih _ (by omega)]
    exact hlocal f mem state i (.inl hi)

/-- Each function's state changes as its own operation says: the operations before it work on earlier
bytes, those behind it on later ones. -/
lemma stateAt_forEachState (change : (f : AggregationPhysicalFunction ρ) → Nat → f.State → f.State)
    (hlocal : ∀ f mem state, UnchangedOutside state f.getSizeOfStateInBytes mem (operation f mem state))
    (hchange : ∀ f mem state, f.stateAt (operation f mem state) state = change f state (f.stateAt mem state))
    (mem : MemArea) {state : Nat} (hmem : p ∈ statePositions functions state) :
    p.1.stateAt (forEachState operation functions mem state) p.2 = change p.1 p.2 (p.1.stateAt mem p.2) := by
  induction functions generalizing mem state with
  | nil => cases hmem
  | cons f functions ih =>
    rw [forEachState]
    rcases List.mem_cons.1 hmem with rfl | hmem
    · rw [← hchange]
      exact AggregationPhysicalFunction.stateAt_congr fun i _ hhi => forEachState_before hlocal functions _ hhi
    · have hle := le_of_mem_statePositions hmem
      rw [ih _ hmem]
      congr 1
      exact AggregationPhysicalFunction.stateAt_congr fun i hlo _ => hlocal f mem state i (.inr (hle.trans hlo))

variable (functions : List (AggregationPhysicalFunction ρ)) (mem : MemArea)

def resetStates : MemArea :=
  forEachState (fun f mem state => f.reset mem state) functions mem 0

def liftStates (record : ρ) : MemArea :=
  forEachState (fun f mem state => f.lift mem state record) functions mem 0

def combineStates (mem other : MemArea) : MemArea :=
  forEachState (fun f mem state => f.combine mem state other state) functions mem 0

/-- Each state is reset and then merged with the state of another entry. -/
def resetAndCombineStates (mem other : MemArea) : MemArea :=
  forEachState (fun f mem state => f.combine (f.reset mem state) state other state) functions mem 0

/-- Every state is the fold of its aggregate over the records. -/
def HoldsFolds (records : List ρ) : Prop :=
  ∀ p ∈ statePositions functions 0, p.1.stateAt mem p.2 = p.1.aggregate.fold records

variable {functions}

lemma holdsFolds_resetStates : HoldsFolds functions (resetStates functions mem) [] := by
  intro p hmem
  exact stateAt_forEachState (fun f _ _ => f.aggregate.reset) (fun f => f.unchangedOutside_reset)
    (fun f => f.stateAt_reset) mem hmem

namespace HoldsFolds

variable {mem mem' : MemArea} {records records' : List ρ}

lemma liftStates (h : HoldsFolds functions mem records) (record : ρ) :
    HoldsFolds functions (liftStates functions mem record) (records ++ [record]) := by
  intro p hmem
  rw [Aggregate.fold_append_singleton, ← h p hmem]
  exact stateAt_forEachState (fun f _ s => f.aggregate.lift s record)
    (fun f mem state => f.unchangedOutside_lift mem state record)
    (fun f mem state => f.stateAt_lift mem state record) mem hmem

lemma combineStates (h : HoldsFolds functions mem records) (h' : HoldsFolds functions mem' records') :
    HoldsFolds functions (combineStates functions mem mem') (records ++ records') := by
  intro p hmem
  rw [← p.1.aggregate_lawful.fold_append, ← h p hmem, ← h' p hmem]
  exact stateAt_forEachState (fun f state s => f.aggregate.combine s (f.stateAt mem' state))
    (fun f mem state => f.unchangedOutside_combine mem state mem' state)
    (fun f mem state => f.stateAt_combine mem state mem' state) mem hmem

lemma resetAndCombineStates (mem : MemArea) (h' : HoldsFolds functions mem' records') :
    HoldsFolds functions (resetAndCombineStates functions mem mem') records' := by
  intro p hmem
  have hfold := p.1.aggregate_lawful.fold_append [] records'
  rw [List.nil_append, ← h' p hmem] at hfold
  rw [← h' p hmem, ← hfold]
  refine stateAt_forEachState (fun f state _ => f.aggregate.combine f.aggregate.reset (f.stateAt mem' state))
    ?_ ?_ mem hmem
  · intro f mem state
    exact (f.unchangedOutside_reset mem state).trans (f.unchangedOutside_combine _ state mem' state)
      (le_refl _) (le_refl _) (le_refl _) (le_refl _)
  · intro f mem state
    rw [f.stateAt_combine, f.stateAt_reset]

end HoldsFolds

end Packed

end MobilityNebula.Aggregation
