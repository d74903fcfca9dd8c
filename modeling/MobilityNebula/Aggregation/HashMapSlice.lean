import MobilityNebula.Library.Grouping
import MobilityNebula.Nautilus.ChainedHashMap
import MobilityNebula.Nautilus.Record

/-!
# HashMapSlice — the hash maps of an aggregation

Embedding of `HashMapSlice.cpp` and of the part of the build and probe operators that works on hash maps.  A
slice has one hash map for each worker; the build side adds a record to the map of its worker, the probe side
merges maps.  How the states of an entry are reset, changed and merged is `StateOperations`; that a state
stands for a list of records is a relation `represents`, which the operations keep.

The result: if a map holds the records of `l` and another one those of `l'`, then merging gives a map that
holds the records of `l ++ l'` (`MapHolds.mergeInto`).
-/

namespace MobilityNebula.Aggregation

open Library Nautilus List ChainedHashMap Option

/-! ## Keys and states -/

/-- The part of the hash map options that an aggregation uses. -/
structure HashMapOptions (V : Type) where
  fieldKeys : List RecordFieldIdentifier
  keyFunctions : List (Record V → V)
  hashFunction : List V → Nat
  numberOfBuckets : Nat
  numberOfBuckets_pos : 0 < numberOfBuckets
  length_keyFunctions : keyFunctions.length = fieldKeys.length

namespace HashMapOptions

variable {V : Type} (options : HashMapOptions V) (record : Record V)

/-- The build operator evaluates the key functions one after the other and writes each value into the
record. -/
def writeKeys : Record V :=
  (options.fieldKeys.zip options.keyFunctions).foldl (fun record key => record.write key.1 (key.2 record)) record

def readKeys : Option (List V) := options.fieldKeys.mapM record.read

def keysOf : List V := (options.readKeys (options.writeKeys record)).getD []

lemma isSome_read_foldl {pairs : List (RecordFieldIdentifier × (Record V → V))} {record : Record V}
    {field : RecordFieldIdentifier} (h : (record.read field).isSome = true ∨ field ∈ pairs.map Prod.fst) :
    ((pairs.foldl (fun record key => record.write key.1 (key.2 record)) record).read field).isSome = true := by
  induction pairs generalizing record with
  | nil => exact h.resolve_right (by simp)
  | cons pair rest ih =>
    refine ih ?_
    rw [map_cons, mem_cons] at h
    rcases h with hread | rfl | hmem
    · exact .inl (Record.isSome_read_write _ _ hread)
    · exact .inl (by rw [Record.read_write_self]; rfl)
    · exact .inr hmem

lemma readKeys_writeKeys : options.readKeys (options.writeKeys record) = some (options.keysOf record) := by
  have hfst : (options.fieldKeys.zip options.keyFunctions).map Prod.fst = options.fieldKeys :=
    map_fst_zip (le_of_eq options.length_keyFunctions.symm)
  have hread : ∀ field ∈ options.fieldKeys, ((options.writeKeys record).read field).isSome = true :=
    fun field hmem => isSome_read_foldl (.inr (hfst.symm ▸ hmem))
  have hkeys : ∀ (r : Record V) (fields : List RecordFieldIdentifier),
      (∀ field ∈ fields, (r.read field).isSome = true) → (fields.mapM r.read).isSome = true := by
    intro r fields
    induction fields with
    | nil => exact fun _ => rfl
    | cons field fields ih =>
      intro hall
      have hcons := forall_mem_cons.1 hall
      rcases isSome_iff_exists.1 hcons.1 with ⟨value, hvalue⟩
      rcases isSome_iff_exists.1 (ih hcons.2) with ⟨values, hvalues⟩
      rw [mapM_cons, hvalue, hvalues]
      rfl
  rcases isSome_iff_exists.1 (hkeys _ _ hread) with ⟨keys, hsome⟩
  rw [keysOf, readKeys, hsome]
  rfl

end HashMapOptions

/-- What the operators do with the states of an entry. -/
structure StateOperations (ρ ν : Type) where
  reset : ν
  lift : ν → ρ → ν
  combine : ν → ν → ν
  /-- The states of a new entry that takes over the states of another one. -/
  resetAndCombine : ν → ν

/-- The states stand for lists of records. -/
structure IsStateOf {ρ ν : Type} (states : StateOperations ρ ν) (represents : ν → List ρ → Prop) : Prop where
  reset : represents states.reset []
  lift : ∀ {v l}, represents v l → ∀ record, represents (states.lift v record) (l ++ [record])
  combine : ∀ {v l v' l'}, represents v l → represents v' l' → represents (states.combine v v') (l ++ l')
  resetAndCombine : ∀ {v l}, represents v l → represents (states.resetAndCombine v) l

/-! ## One hash map -/

section Map

variable {V ν : Type} [DecidableEq V] (options : HashMapOptions V) (states : StateOperations (Record V) ν)

def addToMap (hashMap : ChainedHashMap (List V) ν) (record : Record V) : Option (ChainedHashMap (List V) ν) := do
  let record := options.writeKeys record
  let keys ← options.readKeys record
  let hashMap := hashMap.findOrCreateEntry keys options.hashFunction states.reset
  some (hashMap.writeEntry keys (options.hashFunction keys) fun state => states.lift state record)

/-- The loop of the probe operator over the entries of one hash map. -/
def mergeInto (finalHashMap currentMap : ChainedHashMap (List V) ν) : ChainedHashMap (List V) ν :=
  currentMap.iterate.foldl
    (fun finalHashMap entry => finalHashMap.insertOrUpdateEntry entry
      (fun globalState => states.combine globalState entry.value) (states.resetAndCombine entry.value))
    finalHashMap

/-- Every key of the records has one entry, and its states stand for the records with that key. -/
structure MapHolds (represents : ν → List (Record V) → Prop) (hashMap : ChainedHashMap (List V) ν)
    (records : List (Record V)) : Prop where
  isHashMap : hashMap.IsHashMap options.hashFunction
  none_iff : ∀ keys, hashMap.lookup keys = none ↔ group options.keysOf keys records = []
  represents : ∀ keys v, hashMap.lookup keys = some v →
    represents v ((group options.keysOf keys records).map options.writeKeys)

namespace MapHolds

variable {options states} {represents : ν → List (Record V) → Prop}
  {hashMap hashMap' : ChainedHashMap (List V) ν} {records records' : List (Record V)}

lemma create (numberOfBuckets : Nat) : MapHolds options represents (create (List V) ν numberOfBuckets) [] where
  isHashMap := .create _ _
  none_iff keys := by simp [lookup_create]
  represents keys v hlookup := absurd hlookup (by simp [lookup_create])

lemma nil_of_numberOfTuples (h : MapHolds options represents hashMap records)
    (hzero : hashMap.numberOfTuples = 0) : records = [] := by
  rw [h.isHashMap.count] at hzero
  have hempty := eq_nil_of_length_eq_zero hzero
  refine eq_nil_iff_forall_not_mem.2 fun record hmem => ?_
  have hnone := (h.none_iff (options.keysOf record)).1
    (lookup_eq_none_iff.2 fun e he => absurd (hempty ▸ he) not_mem_nil)
  exact group_eq_nil_iff.1 hnone record hmem rfl

lemma addToMap (hstates : IsStateOf states represents) (h : MapHolds options represents hashMap records)
    (record : Record V) :
    ∃ hashMap', addToMap options states hashMap record = some hashMap' ∧
      MapHolds options represents hashMap' (records ++ [record]) := by
  rcases h.isHashMap.findOrCreateEntry_writeEntry (options.keysOf record) states.reset
    (fun state => states.lift state (options.writeKeys record)) with ⟨hmap, hlookup⟩
  refine ⟨_, ?_, hmap, ?_, ?_⟩
  · rw [Aggregation.addToMap, options.readKeys_writeKeys]
    rfl
  · intro keys
    rw [hlookup]
    split_ifs with hkeys
    · rw [hkeys, group_append_singleton_self]
      simp
    · rw [group_append_singleton_of_ne (Ne.symm hkeys)]
      exact h.none_iff keys
  · intro keys v hv
    rw [hlookup] at hv
    split_ifs at hv with hkeys
    · rw [hkeys, group_append_singleton_self, map_append, map_singleton, ← some_inj.1 hv]
      refine hstates.lift ?_ _
      -- the entry is there, or it is new and no record had the key
      cases hold : hashMap.lookup (options.keysOf record) with
      | none =>
        rw [(h.none_iff _).1 hold]
        exact hstates.reset
      | some v => exact h.represents _ v hold
    · rw [group_append_singleton_of_ne (Ne.symm hkeys)]
      exact h.represents keys v hv

lemma lookup_foldl_insertOrUpdateEntry {finalHashMap : ChainedHashMap (List V) ν}
    (h : finalHashMap.IsHashMap options.hashFunction) {entries : List (ChainedHashMapEntry (List V) ν)}
    (hhash : ∀ e ∈ entries, e.hash = options.hashFunction e.keys)
    (hnodup : (entries.map ChainedHashMapEntry.keys).Nodup) :
    let result := entries.foldl (fun finalHashMap entry => finalHashMap.insertOrUpdateEntry entry
        (fun globalState => states.combine globalState entry.value) (states.resetAndCombine entry.value))
      finalHashMap
    result.IsHashMap options.hashFunction ∧ ∀ keys, result.lookup keys = match entries.find? fun e => e.keys = keys with
        | none => finalHashMap.lookup keys
        | some e => some ((finalHashMap.lookup keys).elim (states.resetAndCombine e.value)
            fun globalState => states.combine globalState e.value) := by
  induction entries generalizing finalHashMap with
  | nil => exact ⟨h, fun keys => rfl⟩
  | cons e rest ih =>
    have hcons := forall_mem_cons.1 hhash
    rw [map_cons, nodup_cons] at hnodup
    rcases h.insertOrUpdateEntry hcons.1 (fun globalState => states.combine globalState e.value)
      (states.resetAndCombine e.value) with ⟨hfirst, hlookup⟩
    rcases ih hfirst hcons.2 hnodup.2 with ⟨hmap, hrest⟩
    refine ⟨hmap, fun keys => (hrest keys).trans ?_⟩
    by_cases hkeys : e.keys = keys
    · -- no later entry has this key
      have hnone : (rest.find? fun e' => e'.keys = keys) = none := by
        refine find?_eq_none.2 fun e' he' heq => hnodup.1 ?_
        rw [hkeys, ← of_decide_eq_true heq]
        exact mem_map_of_mem he'
      rw [hnone, find?_cons_of_pos (by simpa using hkeys), hlookup, if_pos hkeys.symm]
    · rw [find?_cons_of_neg (by simpa using hkeys), hlookup, if_neg (Ne.symm hkeys)]

lemma mergeInto (hstates : IsStateOf states represents) (h : MapHolds options represents hashMap records)
    (h' : MapHolds options represents hashMap' records') :
    MapHolds options represents (mergeInto states hashMap hashMap') (records ++ records') := by
  have hloop := @lookup_foldl_insertOrUpdateEntry V ν _ options states hashMap h.isHashMap hashMap'.iterate
    (by rw [h'.isHashMap.iterate_eq]; exact h'.isHashMap.hash_eq)
    (by rw [h'.isHashMap.iterate_eq]; exact h'.isHashMap.nodup)
  rcases hloop with ⟨hmap, hlookup⟩
  rw [h'.isHashMap.iterate_eq] at hlookup
  have hfind : ∀ keys, (hashMap'.chains.flatten.find? fun e => e.keys = keys) = none ↔
      group options.keysOf keys records' = [] := by
    intro keys
    rw [← h'.none_iff, ChainedHashMap.lookup, map_eq_none_iff]
  refine ⟨hmap, fun keys => ?_, fun keys v hv => ?_⟩
  · rw [Aggregation.mergeInto, h'.isHashMap.iterate_eq, hlookup, group_append, append_eq_nil_iff, ← hfind,
      ← h.none_iff]
    cases hashMap'.chains.flatten.find? fun e => e.keys = keys with
    | none => simp
    | some e => simp
  · rw [Aggregation.mergeInto, h'.isHashMap.iterate_eq, hlookup] at hv
    rw [group_append, map_append]
    cases hother : hashMap'.chains.flatten.find? fun e => e.keys = keys with
    | none =>
      rw [hother] at hv
      rw [(hfind keys).1 hother, map_nil, append_nil]
      exact h.represents keys v hv
    | some e =>
      have hother' : hashMap'.lookup keys = some e.value := by rw [ChainedHashMap.lookup, hother]; rfl
      have hstate := h'.represents keys e.value hother'
      rw [hother, some_inj] at hv
      rw [← hv]
      cases hold : hashMap.lookup keys with
      | none =>
        rw [(h.none_iff keys).1 hold, map_nil, nil_append]
        exact hstates.resetAndCombine hstate
      | some globalState => exact hstates.combine (h.represents keys globalState hold) hstate

end MapHolds

end Map

/-! ## The hash maps of a slice -/

structure HashMapSlice (V ν : Type) where
  hashMaps : List (Option (ChainedHashMap (List V) ν))

/-- A tuple on its way into a slice: the worker that processes it, and the record. -/
abbrev WorkerRecord (V : Type) := Nat × Record V

namespace HashMapSlice

variable {V ν : Type} [DecidableEq V]

def create (V ν : Type) (numberOfHashMaps : Nat) : HashMapSlice V ν := ⟨replicate numberOfHashMaps none⟩

def getHashMapPtr (slice : HashMapSlice V ν) (workerThreadId : Nat) : Option (ChainedHashMap (List V) ν) :=
  (slice.hashMaps[workerThreadId % slice.hashMaps.length]?).join

/-- A record is added to the hash map of its worker, which is created if there is none yet. -/
def add (options : HashMapOptions V) (states : StateOperations (Record V) ν) (slice : HashMapSlice V ν)
    (tuple : WorkerRecord V) : Option (HashMapSlice V ν) := do
  let pos := tuple.1 % slice.hashMaps.length
  let hashMap ← slice.hashMaps[pos]?
  let hashMap := hashMap.getD (ChainedHashMap.create _ _ options.numberOfBuckets)
  let hashMap ← addToMap options states hashMap tuple.2
  some ⟨slice.hashMaps.set pos (some hashMap)⟩

def recordsAt (numberOfHashMaps pos : Nat) (tuples : List (WorkerRecord V)) : List (Record V) :=
  (group (fun tuple => tuple.1 % numberOfHashMaps) pos tuples).map Prod.snd

variable (options : HashMapOptions V) (represents : ν → List (Record V) → Prop)

def OptionHolds :
    Option (ChainedHashMap (List V) ν) → List (Record V) → Prop
  | none, records => records = []
  | some hashMap, records => MapHolds options represents hashMap records

/-- Each hash map holds the records of its worker position. -/
structure Holds (numberOfHashMaps : Nat) (slice : HashMapSlice V ν) (tuples : List (WorkerRecord V)) : Prop where
  length_eq : slice.hashMaps.length = numberOfHashMaps
  maps : ∀ pos hashMap, slice.hashMaps[pos]? = some hashMap →
    OptionHolds options represents hashMap (recordsAt numberOfHashMaps pos tuples)

lemma holds_create (numberOfHashMaps : Nat) :
    Holds options represents numberOfHashMaps (create V ν numberOfHashMaps) [] where
  length_eq := length_replicate
  maps pos hashMap hget := by
    rw [eq_of_mem_replicate (mem_of_getElem? hget)]
    rfl

variable {options represents} {states : StateOperations (Record V) ν} {numberOfHashMaps : Nat}
  {slice : HashMapSlice V ν} {tuples : List (WorkerRecord V)}

lemma Holds.add (hstates : IsStateOf states represents) (hpos : 0 < numberOfHashMaps)
    (h : Holds options represents numberOfHashMaps slice tuples) (tuple : WorkerRecord V) :
    ∃ slice', slice.add options states tuple = some slice' ∧
      Holds options represents numberOfHashMaps slice' (tuples ++ [tuple]) := by
  generalize hworker : tuple.1 % numberOfHashMaps = pos
  have hlt : pos < slice.hashMaps.length := by
    rw [h.length_eq, ← hworker]
    exact Nat.mod_lt _ hpos
  have hget : slice.hashMaps[pos]? = some slice.hashMaps[pos] := getElem?_eq_getElem hlt
  generalize hold : slice.hashMaps[pos] = hashMap at hget
  -- the hash map that the record is added to
  have hholds : MapHolds options represents
      (hashMap.getD (.create _ _ options.numberOfBuckets)) (recordsAt numberOfHashMaps pos tuples) := by
    have hmap := h.maps pos hashMap hget
    cases hashMap with
    | none =>
      rw [show recordsAt numberOfHashMaps pos tuples = [] from hmap]
      exact .create options.numberOfBuckets
    | some hashMap => exact hmap
  rcases hholds.addToMap hstates tuple.2 with ⟨hashMap', hadd, hholds'⟩
  refine ⟨⟨slice.hashMaps.set pos (some hashMap')⟩, ?_, ?_, ?_⟩
  · rw [HashMapSlice.add, h.length_eq, hworker, hget]
    simp only [bind_eq_bind, bind_some, hadd]
  · rw [length_set]
    exact h.length_eq
  · intro pos' hashMap'' hget'
    rw [getElem?_set] at hget'
    split_ifs at hget' with heq
    · rw [← some_inj.1 hget', ← heq, ← hworker, recordsAt, group_append_singleton_self, map_append, hworker]
      exact hholds'
    · have hne : tuple.1 % numberOfHashMaps ≠ pos' := fun hne => heq (hworker.symm.trans hne)
      have hsame : recordsAt numberOfHashMaps pos' (tuples ++ [tuple]) = recordsAt numberOfHashMaps pos' tuples :=
        congrArg (map Prod.snd) (@group_append_singleton_of_ne _ _ _ _ pos' tuple hne tuples)
      rw [hsame]
      exact h.maps pos' hashMap'' hget'

end HashMapSlice

end MobilityNebula.Aggregation
