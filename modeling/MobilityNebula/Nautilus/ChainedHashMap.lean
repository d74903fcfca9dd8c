import Mathlib

/-!
# ChainedHashMap — a hash map with chaining

Embedding of `ChainedHashMap.cpp` and `ChainedHashMapRef.cpp`.  An entry has a hash, the values of the key
fields and the value memory area; the entries whose hashes agree in the low bits form a chain, the newest
entry first.  A pointer to an entry is the key of the entry: the keys of a map are distinct
(`IsHashMap.nodup`).  The storage pages, which only give addresses to the entries, are left out.

What an operation does is said with `lookup`, the value stored for a key.
-/

namespace MobilityNebula.Nautilus

open List

universe u v

/-! ## Chains of entries -/

structure ChainedHashMapEntry (κ : Type u) (ν : Type v) where
  hash : Nat
  keys : κ
  value : ν

/-- The number of chains for an expected number of keys, with the load factor 0.75. -/
def calcCapacity (numberOfKeys : Nat) : Nat :=
  let capacity := 2 ^ (Nat.log2 numberOfKeys + 1)
  if capacity * 3 / 4 < numberOfKeys then capacity * 2 else capacity

lemma exists_calcCapacity (numberOfKeys : Nat) : ∃ k, calcCapacity numberOfKeys = 2 ^ k := by
  simp only [calcCapacity]
  split_ifs
  · exact ⟨Nat.log2 numberOfKeys + 1 + 1, (Nat.pow_succ _ _).symm⟩
  · exact ⟨_, rfl⟩

structure ChainedHashMap (κ : Type u) (ν : Type v) where
  numberOfChains : Nat
  isPowerOfTwo : ∃ k, numberOfChains = 2 ^ k
  /-- The chains by their index; none before the first entry is inserted. -/
  chains : List (List (ChainedHashMapEntry κ ν))
  numberOfTuples : Nat

namespace ChainedHashMap

variable {κ : Type u} {ν : Type v} (map : ChainedHashMap κ ν)

def create (κ : Type u) (ν : Type v) (numberOfBuckets : Nat) : ChainedHashMap κ ν where
  numberOfChains := calcCapacity numberOfBuckets
  isPowerOfTwo := exists_calcCapacity numberOfBuckets
  chains := []
  numberOfTuples := 0

def createNewMapWithSameConfiguration (other : ChainedHashMap κ ν) : ChainedHashMap κ ν :=
  create κ ν other.numberOfChains

def mask : Nat := map.numberOfChains - 1

def findChain (hash : Nat) : List (ChainedHashMapEntry κ ν) :=
  if map.numberOfTuples = 0 then [] else map.chains.getD (hash &&& map.mask) []

/-- The chains into which an entry is inserted. -/
def allocatedChains : List (List (ChainedHashMapEntry κ ν)) :=
  if map.chains = [] then replicate map.numberOfChains [] else map.chains

/-- The new entry becomes the first of its chain. -/
def insertEntry (newEntry : ChainedHashMapEntry κ ν) : ChainedHashMap κ ν :=
  { map with
    chains := map.allocatedChains.modify (newEntry.hash &&& map.mask) (newEntry :: ·)
    numberOfTuples := map.numberOfTuples + 1 }

/-- The entries that an iteration from `begin` to `end` visits: it goes from chain to chain and stops after
`numberOfTuples` entries. -/
def iterate : List (ChainedHashMapEntry κ ν) :=
  map.chains.flatten.take map.numberOfTuples

/-- The entries stand in the chains of their hashes, and no key occurs twice. -/
structure IsHashMap (hashFunction : κ → Nat) (map : ChainedHashMap κ ν) : Prop where
  allocated : map.chains = [] ∨ map.chains.length = map.numberOfChains
  hash_eq : ∀ e ∈ map.chains.flatten, e.hash = hashFunction e.keys
  placed : ∀ i chain, map.chains[i]? = some chain → ∀ e ∈ chain, e.hash &&& map.mask = i
  nodup : (map.chains.flatten.map ChainedHashMapEntry.keys).Nodup
  count : map.numberOfTuples = map.chains.flatten.length

variable {hashFunction : κ → Nat} {map}

lemma and_mask_lt (map : ChainedHashMap κ ν) (hash : Nat) : hash &&& map.mask < map.numberOfChains := by
  rcases map.isPowerOfTwo with ⟨k, hk⟩
  rw [mask, hk, Nat.and_two_pow_sub_one_eq_mod]
  exact Nat.mod_lt _ (Nat.two_pow_pos k)

variable {e : ChainedHashMapEntry κ ν} {chains : List (List (ChainedHashMapEntry κ ν))}

lemma mem_flatten_of_mem_getD {i : Nat} (hmem : e ∈ chains.getD i []) : e ∈ chains.flatten := by
  rw [getD_eq_getElem?_getD] at hmem
  cases hchain : chains[i]? with
  | none => exact absurd hmem (by simp [hchain])
  | some chain =>
    rw [hchain, Option.getD_some] at hmem
    exact mem_flatten.2 ⟨chain, mem_of_getElem? hchain, hmem⟩

lemma flatten_allocatedChains (map : ChainedHashMap κ ν) : map.allocatedChains.flatten = map.chains.flatten := by
  unfold allocatedChains
  split_ifs with hnil
  · simp [hnil]
  · rfl

lemma flatten_modify_cons_perm (e : ChainedHashMapEntry κ ν)
    {i : Nat} (hi : i < chains.length) : (chains.modify i (e :: ·)).flatten.Perm (e :: chains.flatten) := by
  induction chains generalizing i with
  | nil => cases hi
  | cons chain rest ih =>
    cases i with
    | zero => simp
    | succ i =>
      exact ((ih (Nat.lt_of_succ_lt_succ hi)).append_left chain).trans perm_middle

namespace IsHashMap

lemma create (hashFunction : κ → Nat) (numberOfBuckets : Nat) :
    IsHashMap hashFunction (ChainedHashMap.create κ ν numberOfBuckets) where
  allocated := .inl rfl
  hash_eq := by simp [ChainedHashMap.create]
  placed := by simp [ChainedHashMap.create]
  nodup := by simp [ChainedHashMap.create]
  count := by simp [ChainedHashMap.create]

variable (h : IsHashMap hashFunction map)
include h

lemma iterate_eq : map.iterate = map.chains.flatten := by
  rw [iterate, h.count, take_length]

lemma mem_chain
    (hmem : e ∈ map.chains.flatten) : e ∈ map.chains.getD (hashFunction e.keys &&& map.mask) [] := by
  rcases mem_flatten.1 hmem with ⟨chain, hchain, he⟩
  rcases mem_iff_getElem?.1 hchain with ⟨i, hi⟩
  have hplaced := h.placed i chain hi e he
  rw [h.hash_eq e hmem] at hplaced
  rw [hplaced, getD_eq_getElem?_getD, hi]
  exact he

lemma nodup_chain {chain : List (ChainedHashMapEntry κ ν)}
    (hchain : chain ∈ map.chains) : (chain.map ChainedHashMapEntry.keys).Nodup :=
  h.nodup.sublist ((sublist_flatten_of_mem hchain).map _)

lemma length_allocatedChains : map.allocatedChains.length = map.numberOfChains := by
  unfold allocatedChains
  split_ifs with hnil
  · exact length_replicate
  · exact h.allocated.resolve_left hnil

lemma placed_allocatedChains (i : Nat)
    (chain : List (ChainedHashMapEntry κ ν)) (hchain : map.allocatedChains[i]? = some chain) :
    ∀ e ∈ chain, e.hash &&& map.mask = i := by
  unfold allocatedChains at hchain
  split_ifs at hchain with hnil
  · have hempty := eq_of_mem_replicate (mem_of_getElem? hchain)
    simp [hempty]
  · exact h.placed i chain hchain

lemma insertEntry_perm (newEntry : ChainedHashMapEntry κ ν) :
    (map.insertEntry newEntry).chains.flatten.Perm (newEntry :: map.chains.flatten) := by
  have hlt : newEntry.hash &&& map.mask < map.allocatedChains.length := by
    rw [h.length_allocatedChains]
    exact map.and_mask_lt newEntry.hash
  have hperm := flatten_modify_cons_perm newEntry hlt
  rwa [flatten_allocatedChains] at hperm

lemma insertEntry {newEntry : ChainedHashMapEntry κ ν} (hhash : newEntry.hash = hashFunction newEntry.keys)
    (hnew : ∀ e ∈ map.chains.flatten, e.keys ≠ newEntry.keys) :
    IsHashMap hashFunction (map.insertEntry newEntry) where
  allocated := by
    right
    show (map.allocatedChains.modify _ _).length = map.numberOfChains
    rw [length_modify, h.length_allocatedChains]
  hash_eq e hmem := by
    rcases mem_cons.1 ((h.insertEntry_perm newEntry).subset hmem) with rfl | hmem
    · exact hhash
    · exact h.hash_eq e hmem
  placed i chain hchain := by
    replace hchain : (map.allocatedChains.modify (newEntry.hash &&& map.mask) (newEntry :: ·))[i]?
        = some chain := hchain
    rw [getElem?_modify] at hchain
    rcases Option.map_eq_some_iff.1 hchain with ⟨old, hold, rfl⟩
    have hplaced := h.placed_allocatedChains i old hold
    by_cases hi : newEntry.hash &&& map.mask = i
    · rw [if_pos hi]
      exact forall_mem_cons.2 ⟨hi, hplaced⟩
    · rw [if_neg hi]
      exact hplaced
  nodup := by
    rw [((h.insertEntry_perm newEntry).map _).nodup_iff, map_cons, nodup_cons]
    refine ⟨fun hmem => ?_, h.nodup⟩
    rcases mem_map.1 hmem with ⟨e, he, hkeys⟩
    exact hnew e he hkeys
  count := by
    rw [(h.insertEntry_perm newEntry).length_eq, length_cons, ← h.count]
    rfl

end IsHashMap

/-! ## Finding and writing entries -/

variable [DecidableEq κ] (map : ChainedHashMap κ ν)

/-- `compareKeys` is equality: no key field of type `FLOAT` holds a NaN, which differs from itself. -/
def findKey (keys : κ) (hash : Nat) : Option (ChainedHashMapEntry κ ν) :=
  (map.findChain hash).find? fun e => e.keys = keys

/-- Writes the value of the first entry of a chain that has the key. -/
def writeChain (keys : κ) (f : ν → ν) : List (ChainedHashMapEntry κ ν) → List (ChainedHashMapEntry κ ν)
  | [] => []
  | e :: rest => if e.keys = keys then { e with value := f e.value } :: rest else e :: writeChain keys f rest

def writeEntry (keys : κ) (hash : Nat) (f : ν → ν) : ChainedHashMap κ ν :=
  { map with chains := map.chains.modify (hash &&& map.mask) (writeChain keys f) }

/-- The map in which the key has an entry; a new one gets the given value. -/
def findOrCreateEntry (keys : κ) (hashFunction : κ → Nat) (newValue : ν) : ChainedHashMap κ ν :=
  match map.findKey keys (hashFunction keys) with
  | some _ => map
  | none => map.insertEntry ⟨hashFunction keys, keys, newValue⟩

def insertOrUpdateEntry (otherEntry : ChainedHashMapEntry κ ν) (onUpdate : ν → ν) (newValue : ν) : ChainedHashMap κ ν :=
  match map.findKey otherEntry.keys otherEntry.hash with
  | some _ => map.writeEntry otherEntry.keys otherEntry.hash onUpdate
  | none => map.insertEntry ⟨otherEntry.hash, otherEntry.keys, newValue⟩

def lookup (keys : κ) : Option ν :=
  (map.chains.flatten.find? fun e => e.keys = keys).map ChainedHashMapEntry.value

lemma lookup_create (numberOfBuckets : Nat) (keys : κ) :
    (ChainedHashMap.create κ ν numberOfBuckets).lookup keys = none := rfl

variable {map} {keys : κ}

lemma lookup_eq_none_iff : map.lookup keys = none ↔ ∀ e ∈ map.chains.flatten, e.keys ≠ keys := by
  rw [lookup, Option.map_eq_none_iff, find?_eq_none]
  simp only [decide_eq_true_eq, ne_eq]

variable {entries : List (ChainedHashMapEntry κ ν)}

lemma find?_keys_eq_some_iff
    (hnodup : (entries.map ChainedHashMapEntry.keys).Nodup) :
    (entries.find? fun e => e.keys = keys) = some e ↔ e ∈ entries ∧ e.keys = keys := by
  constructor
  · intro hfind
    exact ⟨mem_of_find?_eq_some hfind, by simpa using find?_some hfind⟩
  · rintro ⟨hmem, rfl⟩
    cases hfind : entries.find? fun e' => e'.keys = e.keys with
    | none => exact absurd (decide_eq_true rfl) (find?_eq_none.1 hfind e hmem)
    | some e' =>
      have hkeys : e'.keys = e.keys := by simpa using find?_some hfind
      rw [inj_on_of_nodup_map hnodup (mem_of_find?_eq_some hfind) hmem hkeys]

def writeValue (keys : κ) (f : ν → ν) (e : ChainedHashMapEntry κ ν) : ChainedHashMapEntry κ ν :=
  if e.keys = keys then { e with value := f e.value } else e

lemma writeValue_keys (keys : κ) (f : ν → ν) (e : ChainedHashMapEntry κ ν) : (writeValue keys f e).keys = e.keys := by
  unfold writeValue
  split_ifs
  · rfl
  · rfl

lemma writeValue_hash (keys : κ) (f : ν → ν) (e : ChainedHashMapEntry κ ν) : (writeValue keys f e).hash = e.hash := by
  unfold writeValue
  split_ifs
  · rfl
  · rfl

lemma map_writeValue_of_ne (f : ν → ν)
    (hne : ∀ e ∈ entries, e.keys ≠ keys) : entries.map (writeValue keys f) = entries := by
  refine (map_congr_left fun e he => ?_).trans (map_id _)
  exact if_neg (hne e he)

lemma writeChain_eq (f : ν → ν) {chain : List (ChainedHashMapEntry κ ν)}
    (hnodup : (chain.map ChainedHashMapEntry.keys).Nodup) :
    writeChain keys f chain = chain.map (writeValue keys f) := by
  induction chain with
  | nil => rfl
  | cons e rest ih =>
    rw [map_cons, nodup_cons] at hnodup
    rw [writeChain, map_cons]
    by_cases hkeys : e.keys = keys
    · have hrest : ∀ e' ∈ rest, e'.keys ≠ keys := fun e' he' heq =>
        hnodup.1 (hkeys ▸ heq ▸ mem_map_of_mem he')
      rw [if_pos hkeys, map_writeValue_of_ne f hrest, writeValue, if_pos hkeys]
    · rw [if_neg hkeys, writeValue, if_neg hkeys, ih hnodup.2]

namespace IsHashMap

variable (h : IsHashMap hashFunction map)
include h

lemma lookup_eq_some_iff {value : ν} :
    map.lookup keys = some value ↔ ∃ e ∈ map.iterate, e.keys = keys ∧ e.value = value := by
  rw [lookup, Option.map_eq_some_iff, h.iterate_eq]
  constructor
  · rintro ⟨e, hfind, hvalue⟩
    have hmem := (find?_keys_eq_some_iff h.nodup).1 hfind
    exact ⟨e, hmem.1, hmem.2, hvalue⟩
  · rintro ⟨e, hmem, hkeys, hvalue⟩
    exact ⟨e, (find?_keys_eq_some_iff h.nodup).2 ⟨hmem, hkeys⟩, hvalue⟩

variable (keys : κ)

lemma findKey_isSome_iff :
    (map.findKey keys (hashFunction keys)).isSome = true ↔ ∃ e ∈ map.chains.flatten, e.keys = keys := by
  rw [findKey, find?_isSome]
  simp only [decide_eq_true_eq]
  constructor
  · rintro ⟨e, hmem, hkeys⟩
    rw [findChain] at hmem
    split_ifs at hmem
    · cases hmem
    · exact ⟨e, mem_flatten_of_mem_getD hmem, hkeys⟩
  · rintro ⟨e, hmem, rfl⟩
    refine ⟨e, ?_, rfl⟩
    have hne : map.numberOfTuples ≠ 0 := by
      rw [h.count]
      exact Nat.ne_of_gt (length_pos_of_mem hmem)
    rw [findChain, if_neg hne]
    exact h.mem_chain hmem

lemma findKey_eq_none_iff : map.findKey keys (hashFunction keys) = none ↔ map.lookup keys = none := by
  rw [lookup_eq_none_iff, ← Option.not_isSome_iff_eq_none, h.findKey_isSome_iff]
  push Not
  rfl

lemma lookup_insertEntry {newEntry : ChainedHashMapEntry κ ν}
    (hhash : newEntry.hash = hashFunction newEntry.keys) (hnew : map.lookup newEntry.keys = none) (keys : κ) :
    (map.insertEntry newEntry).lookup keys = if keys = newEntry.keys then some newEntry.value else map.lookup keys := by
  have hinsert := h.insertEntry hhash (lookup_eq_none_iff.1 hnew)
  refine Option.ext fun value => ?_
  rw [hinsert.lookup_eq_some_iff, hinsert.iterate_eq]
  simp only [(h.insertEntry_perm newEntry).mem_iff, mem_cons]
  split_ifs with hkeys
  · rw [Option.some_inj]
    constructor
    · rintro ⟨e, rfl | hmem, he, hvalue⟩
      · exact hvalue
      · exact absurd (he.trans hkeys) (lookup_eq_none_iff.1 hnew e hmem)
    · intro hvalue
      exact ⟨newEntry, .inl rfl, hkeys.symm, hvalue⟩
  · rw [h.lookup_eq_some_iff, h.iterate_eq]
    constructor
    · rintro ⟨e, rfl | hmem, he, hvalue⟩
      · exact absurd he.symm hkeys
      · exact ⟨e, hmem, he, hvalue⟩
    · rintro ⟨e, hmem, he, hvalue⟩
      exact ⟨e, .inr hmem, he, hvalue⟩

variable (f : ν → ν)

lemma chains_writeEntry :
    (map.writeEntry keys (hashFunction keys) f).chains = map.chains.map (List.map (writeValue keys f)) := by
  refine ext_getElem? fun i => ?_
  rw [writeEntry, getElem?_modify, getElem?_map]
  cases hchain : map.chains[i]? with
  | none => rfl
  | some chain =>
    have hmem := mem_of_getElem? hchain
    rw [Option.map_eq_map, Option.map_some, Option.map_some, Option.some_inj]
    by_cases hi : hashFunction keys &&& map.mask = i
    · rw [if_pos hi]
      exact writeChain_eq f (h.nodup_chain hmem)
    · -- an entry with the key would stand in the chain of its hash
      rw [if_neg hi]
      refine (map_writeValue_of_ne f fun e he heq => hi ?_).symm
      rw [← heq, ← h.hash_eq e (mem_flatten.2 ⟨chain, hmem, he⟩)]
      exact h.placed i chain hchain e he

lemma flatten_writeEntry :
    (map.writeEntry keys (hashFunction keys) f).chains.flatten = map.chains.flatten.map (writeValue keys f) := by
  rw [h.chains_writeEntry, map_flatten]

lemma writeEntry : IsHashMap hashFunction (map.writeEntry keys (hashFunction keys) f) where
  allocated := by
    rw [h.chains_writeEntry, map_eq_nil_iff, length_map]
    exact h.allocated
  hash_eq e hmem := by
    rw [h.flatten_writeEntry] at hmem
    rcases mem_map.1 hmem with ⟨e', he', rfl⟩
    rw [writeValue_hash, writeValue_keys]
    exact h.hash_eq e' he'
  placed i chain hchain e hmem := by
    rw [h.chains_writeEntry, getElem?_map] at hchain
    rcases Option.map_eq_some_iff.1 hchain with ⟨old, hold, rfl⟩
    rcases mem_map.1 hmem with ⟨e', he', rfl⟩
    rw [writeValue_hash]
    exact h.placed i old hold e' he'
  nodup := by
    rw [h.flatten_writeEntry, map_map]
    have hkeys : ChainedHashMapEntry.keys ∘ writeValue keys f = ChainedHashMapEntry.keys :=
      funext (writeValue_keys keys f)
    rw [hkeys]
    exact h.nodup
  count := by
    rw [h.flatten_writeEntry, length_map]
    exact h.count

lemma lookup_writeEntry (keys' : κ) : (map.writeEntry keys (hashFunction keys) f).lookup keys'
      = if keys' = keys then (map.lookup keys').map f else map.lookup keys' := by
  rw [lookup, h.flatten_writeEntry, find?_map]
  have hpred : (fun e : ChainedHashMapEntry κ ν => decide (e.keys = keys')) ∘ writeValue keys f
      = fun e => decide (e.keys = keys') := by
    funext e
    exact congrArg (fun k => decide (k = keys')) (writeValue_keys keys f e)
  rw [hpred]
  rw [lookup]
  cases hfind : map.chains.flatten.find? fun e => e.keys = keys' with
  | none => simp
  | some e =>
    have hkeys : e.keys = keys' := by simpa using find?_some hfind
    by_cases heq : keys' = keys
    · simp [writeValue, hkeys, heq]
    · simp [writeValue, hkeys, heq]

/-! ## The two ways to change a map -/

lemma findOrCreateEntry_writeEntry (newValue : ν) (f : ν → ν) : IsHashMap hashFunction
        ((map.findOrCreateEntry keys hashFunction newValue).writeEntry keys (hashFunction keys) f) ∧
      ∀ keys', ((map.findOrCreateEntry keys hashFunction newValue).writeEntry keys (hashFunction keys) f).lookup keys'
        = if keys' = keys then some (f ((map.lookup keys).getD newValue)) else map.lookup keys' := by
  cases hfind : map.findKey keys (hashFunction keys) with
  | some e =>
    have hcreate : map.findOrCreateEntry keys hashFunction newValue = map := by
      rw [findOrCreateEntry, hfind]
    rw [hcreate]
    refine ⟨h.writeEntry keys f, fun keys' => ?_⟩
    rw [h.lookup_writeEntry]
    cases hlookup : map.lookup keys with
    | none =>
      rw [(h.findKey_eq_none_iff keys).2 hlookup] at hfind
      cases hfind
    | some value =>
      split_ifs with heq
      · rw [heq, hlookup]
        rfl
      · rfl
  | none =>
    have hlookup := (h.findKey_eq_none_iff keys).1 hfind
    have hcreate : map.findOrCreateEntry keys hashFunction newValue
        = map.insertEntry ⟨hashFunction keys, keys, newValue⟩ := by
      rw [findOrCreateEntry, hfind]
    have hinsert : IsHashMap hashFunction (map.insertEntry ⟨hashFunction keys, keys, newValue⟩) :=
      h.insertEntry rfl (lookup_eq_none_iff.1 hlookup)
    rw [hcreate]
    refine ⟨hinsert.writeEntry keys f, fun keys' => ?_⟩
    rw [hinsert.lookup_writeEntry, h.lookup_insertEntry rfl hlookup, hlookup]
    split_ifs with heq
    · rfl
    · rfl

lemma insertOrUpdateEntry {otherEntry : ChainedHashMapEntry κ ν}
    (hhash : otherEntry.hash = hashFunction otherEntry.keys) (onUpdate : ν → ν) (newValue : ν) :
    IsHashMap hashFunction (map.insertOrUpdateEntry otherEntry onUpdate newValue) ∧
      ∀ keys, (map.insertOrUpdateEntry otherEntry onUpdate newValue).lookup keys
        = if keys = otherEntry.keys then some ((map.lookup keys).elim newValue onUpdate) else map.lookup keys := by
  rw [ChainedHashMap.insertOrUpdateEntry, hhash]
  cases hfind : map.findKey otherEntry.keys (hashFunction otherEntry.keys) with
  | some e =>
    refine ⟨h.writeEntry otherEntry.keys onUpdate, fun keys => ?_⟩
    rw [h.lookup_writeEntry]
    split_ifs with heq
    · cases hlookup : map.lookup keys with
      | none =>
        rw [heq, ← h.findKey_eq_none_iff, hfind] at hlookup
        cases hlookup
      | some value => rfl
    · rfl
  | none =>
    have hlookup := (h.findKey_eq_none_iff otherEntry.keys).1 hfind
    have hinsert := @lookup_insertEntry κ ν hashFunction _ map h
      ⟨hashFunction otherEntry.keys, otherEntry.keys, newValue⟩ rfl hlookup
    refine ⟨h.insertEntry rfl (lookup_eq_none_iff.1 hlookup), fun keys => (hinsert keys).trans ?_⟩
    split_ifs with heq
    · rw [heq, hlookup]
      rfl
    · rfl

end IsHashMap

end ChainedHashMap

end MobilityNebula.Nautilus
