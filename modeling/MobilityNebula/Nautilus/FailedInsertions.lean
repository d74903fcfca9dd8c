import MobilityNebula.Nautilus.ChainedHashMapRef

/-!
# FailedInsertions — insertions that run out of buffers

An insertion takes a buffer for the array of chain starts if there is none, one for a page if the last page is
full, and one for each variable-sized key field, and throws if it gets none.  The key fields are stored after
the entry was put into its chain.  `attempt` is an operation for which only the given number of buffers is left;
with enough of them it is the operation of `ChainedHashMapState.step` (`step_of_attempt`).

A failure before the entry is in its chain cannot be observed; a failure after it leaves an entry whose keys
are partly zero (`failed_insertion_unchanged_iff`).
-/

namespace MobilityNebula.Nautilus

open ChainedHashMap

universe v

/-- The memory of a key field: a value of fixed size, or a pointer to variable-sized data. -/
inductive KeyField where
  | fixed (value : Nat)
  | pointer (data : Option (List UInt8))
  deriving DecidableEq

def KeyField.zeroed : KeyField → KeyField
  | fixed _ => fixed 0
  | pointer _ => pointer none

/-- The keys that are stored if the given number of buffers is left, and whether all of them are. -/
def copyKeysToEntry : Nat → List KeyField → List KeyField × Bool
  | _, [] => ([], true)
  | buffers, .fixed value :: rest => ((copyKeysToEntry buffers rest).map (.fixed value :: ·) id)
  | 0, .pointer data :: rest => ((.pointer data :: rest).map KeyField.zeroed, false)
  | buffers + 1, .pointer data :: rest => ((copyKeysToEntry buffers rest).map (.pointer data :: ·) id)

/-- What is left after a buffer was taken, if one is needed. -/
def takeBuffer (needed : Bool) (buffers : Nat) : Option Nat :=
  match needed, buffers with
  | false, buffers => some buffers
  | true, 0 => none
  | true, buffers + 1 => some buffers

namespace ChainedHashMapState

variable {ν : Type v} (hashFunction : List KeyField → Nat) (zero : ν) (buffers : Nat)
  (s : ChainedHashMapState (List KeyField) ν)

def needsPage : Bool := s.map.numberOfTuples % s.entriesPerPage = 0

/-- `insertEntry` and `copyKeysToEntry`, with a flag that is false if a buffer was missing. -/
def insertWithBuffers (keys : List KeyField) (newValue : ν) : ChainedHashMapState (List KeyField) ν × Bool :=
  match takeBuffer s.map.chains.isEmpty buffers with
  | none => (s, false)
  | some buffers =>
    let s' := { s with map := { s.map with chains := s.map.allocatedChains } }
    match takeBuffer s.needsPage buffers with
    | none => (s', false)
    | some buffers =>
      let (storedKeys, stored) := copyKeysToEntry buffers keys
      -- the value is still zero if the callback for the new entry is not reached
      ({ s' with
          map := s'.map.insertEntry ⟨hashFunction keys, storedKeys, if stored then newValue else zero⟩
          numberOfPages := s.allocatePage.getD 0 }, stored)

def attempt : MapOperation (List KeyField) ν → ChainedHashMapState (List KeyField) ν × Bool
  | .findOrCreateEntry keys newValue =>
    match s.map.findKey keys (hashFunction keys) with
    | some _ => (s, true)
    | none => s.insertWithBuffers hashFunction zero buffers keys newValue
  | .insertOrUpdateEntry keys onUpdate newValue =>
    match s.map.findKey keys (hashFunction keys) with
    | some _ => ({ s with map := s.map.writeEntry keys (hashFunction keys) onUpdate }, true)
    | none => s.insertWithBuffers hashFunction zero buffers keys newValue
  | .clear => ({ s with map := { s.map with chains := [], numberOfTuples := 0 }, numberOfPages := 0 }, true)

/-- The buffers an insertion takes before the entry is in its chain. -/
def buffersBeforeEntry : Nat := s.map.chains.isEmpty.toNat + s.needsPage.toNat

/-- Nothing tells the second map from the first: neither what it holds nor what later operations do. -/
structure SameMap (s s' : ChainedHashMapState (List KeyField) ν) : Prop where
  lookup : s'.map.lookup = s.map.lookup
  numberOfTuples : s'.map.numberOfTuples = s.map.numberOfTuples
  later : ∀ operations, ∃ t t' callbacks, s.run hashFunction operations = some (t, callbacks) ∧
    s'.run hashFunction operations = some (t', callbacks) ∧ t'.map.lookup = t.map.lookup ∧
    t'.map.numberOfTuples = t.map.numberOfTuples

variable {hashFunction zero buffers s} {keys : List KeyField}

lemma copyKeysToEntry_of_stored (h : (copyKeysToEntry buffers keys).2 = true) :
    (copyKeysToEntry buffers keys).1 = keys := by
  fun_induction copyKeysToEntry buffers keys with
  | case1 => rfl
  | case2 buffers value rest ih => exact congrArg (.fixed value :: ·) (ih h)
  | case3 => cases h
  | case4 buffers data rest ih => exact congrArg (.pointer data :: ·) (ih h)

lemma IsValid.allocatedChains (h : s.IsValid hashFunction) :
    IsValid hashFunction { s with map := { s.map with chains := s.map.allocatedChains } } := by
  have hmap := h.isHashMap
  have hflatten := flatten_allocatedChains s.map
  refine ⟨⟨.inr hmap.length_allocatedChains, ?_, hmap.placed_allocatedChains, ?_, ?_⟩, h.entriesPerPage_pos, h.pages⟩
  · rw [hflatten]
    exact hmap.hash_eq
  · rw [hflatten]
    exact hmap.nodup
  · rw [hflatten]
    exact hmap.count

variable {s' : ChainedHashMapState (List KeyField) ν}

lemma numberOfTuples_eq_of_lookup_eq (h : s.IsValid hashFunction)
    (h' : s'.IsValid hashFunction) (hlookup : s'.map.lookup = s.map.lookup) :
    s'.map.numberOfTuples = s.map.numberOfTuples := by
  have hkeys : ∀ (map : ChainedHashMap (List KeyField) ν) k,
      k ∈ map.chains.flatten.map ChainedHashMapEntry.keys ↔ map.lookup k ≠ none := by
    intro map k
    rw [Ne, lookup_eq_none_iff, List.mem_map]
    push Not
    rfl
  have hperm := (List.perm_ext_iff_of_nodup h'.isHashMap.nodup h.isHashMap.nodup).2 fun k => by
    rw [hkeys, hkeys, hlookup]
  rw [h'.isHashMap.count, h.isHashMap.count, ← List.length_map ChainedHashMapEntry.keys, hperm.length_eq,
    List.length_map]

lemma SameMap.of_lookup_eq (h : s.IsValid hashFunction)
    (h' : s'.IsValid hashFunction) (hlookup : s'.map.lookup = s.map.lookup) : SameMap hashFunction s s' where
  lookup := hlookup
  numberOfTuples := numberOfTuples_eq_of_lookup_eq h h' hlookup
  later operations := by
    rcases run_refines h operations with ⟨t, hrun, ht, hlookup₁⟩
    rcases run_refines h' operations with ⟨t', hrun', ht', hlookup₂⟩
    rw [hlookup] at hrun' hlookup₂
    have hlookup' := hlookup₂.trans hlookup₁.symm
    exact ⟨t, t', _, hrun, hrun', hlookup', numberOfTuples_eq_of_lookup_eq ht ht' hlookup'⟩

/-- A failed insertion: before the entry is in its chain at most the array of chain starts is new, and after it
the entry is counted. -/
lemma insertWithBuffers_of_failed {newValue : ν}
    (hfailed : (s.insertWithBuffers hashFunction zero buffers keys newValue).2 = false) :
    buffers < s.buffersBeforeEntry ∧ ((s.insertWithBuffers hashFunction zero buffers keys newValue).1 = s ∨
          (s.insertWithBuffers hashFunction zero buffers keys newValue).1
            = { s with map := { s.map with chains := s.map.allocatedChains } }) ∨
      s.buffersBeforeEntry ≤ buffers ∧
        (s.insertWithBuffers hashFunction zero buffers keys newValue).1.map.numberOfTuples
          = s.map.numberOfTuples + 1 := by
  revert hfailed
  simp only [insertWithBuffers, buffersBeforeEntry]
  cases s.map.chains.isEmpty <;> cases s.needsPage <;> rcases buffers with - | - | buffers <;>
    simp [takeBuffer, insertEntry]

lemma insertWithBuffers_of_success (h : s.IsValid hashFunction) {newValue : ν}
    (hdone : (s.insertWithBuffers hashFunction zero buffers keys newValue).2 = true) :
    s.allocatePage.map (fun numberOfPages =>
        { s with map := s.map.insertEntry ⟨hashFunction keys, keys, newValue⟩, numberOfPages })
      = some (s.insertWithBuffers hashFunction zero buffers keys newValue).1 := by
  have hchains : ({ s.map with chains := s.map.allocatedChains } : ChainedHashMap _ ν).allocatedChains
      = s.map.allocatedChains := by
    have hpos := and_mask_lt s.map 0
    refine if_neg fun hnil => ?_
    have hzero : s.map.allocatedChains.length = 0 := congrArg List.length hnil
    rw [h.isHashMap.length_allocatedChains] at hzero
    omega
  revert hdone
  unfold insertWithBuffers
  split
  · simp
  · simp only
    split
    · simp
    · intro hdone
      simp only at hdone
      simp only [copyKeysToEntry_of_stored hdone, hdone, if_true, h.allocatePage, Option.map_some, Option.getD_some,
        insertEntry, hchains]
      rfl

/-- With enough buffers an attempt is the operation itself. -/
lemma step_of_attempt (h : s.IsValid hashFunction) (operation : MapOperation (List KeyField) ν)
    (hdone : (s.attempt hashFunction zero buffers operation).2 = true) :
    (s.step hashFunction operation).map Prod.fst = some (s.attempt hashFunction zero buffers operation).1 := by
  cases operation with
  | clear => rfl
  | findOrCreateEntry keys newValue =>
    cases hfind : s.map.findKey keys (hashFunction keys) with
    | some e => simp [step, attempt, hfind]
    | none =>
      simp only [attempt, hfind] at hdone ⊢
      rw [← insertWithBuffers_of_success h hdone]
      simp [step, hfind, findOrCreateEntry, Function.comp_def]
  | insertOrUpdateEntry keys onUpdate newValue =>
    cases hfind : s.map.findKey keys (hashFunction keys) with
    | some e => simp [step, attempt, hfind, insertOrUpdateEntry]
    | none =>
      simp only [attempt, hfind] at hdone ⊢
      rw [← insertWithBuffers_of_success h hdone]
      simp [step, hfind, insertOrUpdateEntry, Function.comp_def]

/-- An operation that throws for a missing buffer leaves the map as it was iff the buffer was missing before the
entry was put into its chain. -/
theorem failed_insertion_unchanged_iff (hashFunction : List KeyField → Nat) (zero : ν)
    (entrySize numberOfBuckets pageSize : Nat) (s₀ s : ChainedHashMapState (List KeyField) ν)
    (hcreate : create (List KeyField) ν entrySize numberOfBuckets pageSize = some s₀)
    (operations : List (MapOperation (List KeyField) ν)) (callbacks : List (Option Callback))
    (hrun : s₀.run hashFunction operations = some (s, callbacks)) (buffers : Nat)
    (operation : MapOperation (List KeyField) ν) (hfailed : (s.attempt hashFunction zero buffers operation).2 = false) :
    SameMap hashFunction s (s.attempt hashFunction zero buffers operation).1 ↔ buffers < s.buffersBeforeEntry := by
  have h : s.IsValid hashFunction := by
    rcases run_refines (isValid_of_create hashFunction hcreate).1 operations with ⟨s', hrun', h', -⟩
    cases hrun.symm.trans hrun'
    exact h'
  -- only an insertion can fail
  have hinsert : ∃ keys newValue, s.attempt hashFunction zero buffers operation
      = s.insertWithBuffers hashFunction zero buffers keys newValue := by
    revert hfailed
    fun_cases attempt hashFunction zero buffers s operation <;> simp
  rcases hinsert with ⟨keys, newValue, hinsert⟩
  rw [hinsert] at hfailed ⊢
  rcases insertWithBuffers_of_failed hfailed with ⟨hlt, heq | heq⟩ | ⟨hle, hcount⟩
  · rw [heq]
    exact ⟨fun _ => hlt, fun _ => .of_lookup_eq h h rfl⟩
  · rw [heq]
    refine ⟨fun _ => hlt, fun _ => .of_lookup_eq h h.allocatedChains ?_⟩
    funext k
    simp only [lookup, flatten_allocatedChains]
  · constructor
    · intro hsame
      have := hsame.numberOfTuples
      omega
    · intro hlt
      omega

/-- The page for a third entry is missing. -/
theorem failed_insertion_unchanged_iff_third : ∃ (s s' : ChainedHashMapState (List KeyField) Nat) (callbacks : _),
      create (List KeyField) Nat 32 1 40 = some s ∧
      s.run (fun _ => 0) [.findOrCreateEntry [.fixed 4] 9, .findOrCreateEntry [.pointer (some [65])] 8]
        = some (s', callbacks) ∧ s'.map.numberOfTuples = 2 ∧
      SameMap (fun _ => 0) s' (s'.attempt (fun _ => 0) 0 0 (.findOrCreateEntry [.fixed 5] 7)).1 :=
  ⟨_, _, _, rfl, rfl, rfl, (failed_insertion_unchanged_iff (fun _ => 0) 0 32 1 40 _ _ rfl
    [.findOrCreateEntry [.fixed 4] 9, .findOrCreateEntry [.pointer (some [65])] 8] _ rfl 0
    (.findOrCreateEntry [.fixed 5] 7) (by decide)).2 (by decide)⟩

/-- The buffer for the variable-sized key is missing: the map has an entry more, whose key is a null pointer. -/
theorem failed_insertion_leaves_entry :
    ∃ s : ChainedHashMapState (List KeyField) Nat, create (List KeyField) Nat 32 1 40 = some s ∧
      (s.attempt (fun _ => 0) 0 2 (.findOrCreateEntry [.pointer (some [65])] 7)).2 = false ∧
      s.map.numberOfTuples = 0 ∧ s.map.lookup [.pointer none] = none ∧
      (s.attempt (fun _ => 0) 0 2 (.findOrCreateEntry [.pointer (some [65])] 7)).1.map.numberOfTuples = 1 ∧
      (s.attempt (fun _ => 0) 0 2 (.findOrCreateEntry [.pointer (some [65])] 7)).1.map.lookup [.pointer none]
        = some 0 :=
  ⟨_, rfl, by decide, rfl, rfl, by decide, by decide⟩

end ChainedHashMapState

end MobilityNebula.Nautilus
