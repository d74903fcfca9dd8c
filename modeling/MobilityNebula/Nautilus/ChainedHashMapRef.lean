import MobilityNebula.Nautilus.ChainedHashMap

/-!
# ChainedHashMapRef — whole runs of a hash map, its pages and its iterator

A run is a sequence of `findOrCreateEntry`, `insertOrUpdateEntry` and `clear`.  Besides the chains it moves

* the storage pages: entry number `n` since the last `clear` lies in slot `n % entriesPerPage` of page
  `n / entriesPerPage`,
* the array of chain starts, whose last element points to itself and ends every iteration.

`MapOperation.apply` says what an operation does to a finite map; `ChainedHashMapState.step_refines` relates the
two.
-/

namespace MobilityNebula.Nautilus

open ChainedHashMap Option ChainedHashMapEntry Function

universe u v

/-! ## Iterating -/

/-- What an element of the array of chain starts points to. -/
inductive ChainPointer (κ : Type u) (ν : Type v) where
  | null
  | entry (e : ChainedHashMapEntry κ ν) (next : List (ChainedHashMapEntry κ ν))
  | endMarker

namespace ChainPointer

variable {κ : Type u} {ν : Type v}

def ofChain : List (ChainedHashMapEntry κ ν) → ChainPointer κ ν
  | [] => null
  | e :: next => entry e next

def entries : ChainPointer κ ν → List (ChainedHashMapEntry κ ν)
  | null => []
  | entry e next => e :: next
  | endMarker => []

end ChainPointer

structure EntryIterator (κ : Type u) (ν : Type v) where
  chainIndex : Nat
  currentEntry : ChainPointer κ ν

namespace ChainedHashMap

variable {κ : Type u} {ν : Type v} (map : ChainedHashMap κ ν)

/-- The array of chain starts; one element more than there are chains. -/
def chainStarts : List (ChainPointer κ ν) :=
  map.chains.map ChainPointer.ofChain ++ [.endMarker]

/-- Counts the entries of the chains until it has seen as many as asked for. -/
def countChains (tupleIndex : Nat) : List (List (ChainedHashMapEntry κ ν)) → Nat → Nat → Option Nat
  | [], _, _ => none
  | chain :: rest, seenTuples, chainIndex =>
    if tupleIndex ≤ seenTuples + chain.length then some chainIndex
    else countChains tupleIndex rest (seenTuples + chain.length) (chainIndex + 1)

/-- The chain in which the counting reaches the index; it starts with the first chain that is not empty. -/
def findChainIndexProxy (tupleIndex : Nat) : Option Nat :=
  let first := map.chains.findIdx fun chain => !chain.isEmpty
  countChains tupleIndex (map.chains.drop first) 0 first

/-- The first pointer that is not null; behind the end of the array the precondition of `getStartOfChain`
fails. -/
def skipNull : List (ChainPointer κ ν) → Nat → Option (EntryIterator κ ν)
  | [], _ => none
  | .null :: rest, chainIndex => skipNull rest (chainIndex + 1)
  | .entry e next :: _, chainIndex => some ⟨chainIndex, .entry e next⟩
  | .endMarker :: _, chainIndex => some ⟨chainIndex, .endMarker⟩

/-- The operator `++`: the next entry of the chain or the start of a later chain. -/
def advance (it : EntryIterator κ ν) : Option (EntryIterator κ ν) :=
  match it.currentEntry with
  | .null => none
  | .entry _ (e :: next) => some ⟨it.chainIndex, .entry e next⟩
  | .entry _ [] => skipNull (map.chainStarts.drop (it.chainIndex + 1)) (it.chainIndex + 1)
  | .endMarker => some it

/-- The loop from an iterator to the end that is `n` tuples away, and the entries it visits. -/
def visit (map : ChainedHashMap κ ν) : Nat → EntryIterator κ ν → Option (List (ChainedHashMapEntry κ ν))
  | 0, _ => some []
  | n + 1, it =>
    match it.currentEntry with
    | .entry e _ => (map.advance it).bind fun it' => (map.visit n it').map (e :: ·)
    | .null | .endMarker => none

/-- The loop from `begin` to `end`.  Both look for their chain unless the map is empty. -/
def visitAll : Option (List (ChainedHashMapEntry κ ν)) :=
  if map.numberOfTuples = 0 then some []
  else
    (map.findChainIndexProxy 0).bind fun chainIndex =>
      (map.findChainIndexProxy map.numberOfTuples).bind fun _ =>
        (map.chainStarts[chainIndex]?).bind fun start => map.visit map.numberOfTuples ⟨chainIndex, start⟩

def remaining (it : EntryIterator κ ν) : List (ChainedHashMapEntry κ ν) :=
  it.currentEntry.entries ++ (map.chains.drop (it.chainIndex + 1)).flatten

/-- The iterator points to an entry of its chain, or nothing remains. -/
def IsAt (it : EntryIterator κ ν) : Prop :=
  it.currentEntry.entries = [] ∧ map.remaining it = [] ∨
    it.currentEntry.entries ≠ [] ∧ it.chainIndex < map.chains.length

variable {map} {chains : List (List (ChainedHashMapEntry κ ν))}

lemma skipNull_eq {i : Nat} (h : map.chains.drop i = chains) :
    ∃ it, skipNull (chains.map ChainPointer.ofChain ++ [.endMarker]) i = some it ∧ map.IsAt it ∧
      map.remaining it = chains.flatten := by
  induction chains generalizing i with
  | nil =>
    have hremaining : map.remaining ⟨i, .endMarker⟩ = [] := by
      rw [remaining, ← List.drop_drop, h]
      rfl
    exact ⟨⟨i, .endMarker⟩, rfl, .inl ⟨rfl, hremaining⟩, hremaining⟩
  | cons chain rest ih =>
    have hrest : map.chains.drop (i + 1) = rest := by rw [← List.drop_drop, h, List.drop_one, List.tail_cons]
    cases chain with
    | nil => exact ih hrest
    | cons e next =>
      have hi : i < map.chains.length := by
        have hlength := congrArg List.length h
        rw [List.length_drop, List.length_cons] at hlength
        omega
      refine ⟨⟨i, .entry e next⟩, rfl, .inr ⟨List.cons_ne_nil e next, hi⟩, ?_⟩
      rw [remaining, hrest]
      rfl

lemma advance_entry {i : Nat} {e : ChainedHashMapEntry κ ν} {next : List (ChainedHashMapEntry κ ν)}
    (hi : i < map.chains.length) :
    ∃ it, map.advance ⟨i, .entry e next⟩ = some it ∧ map.IsAt it ∧
      map.remaining it = next ++ (map.chains.drop (i + 1)).flatten := by
  cases next with
  | cons e' next => exact ⟨⟨i, .entry e' next⟩, rfl, .inr ⟨List.cons_ne_nil e' next, hi⟩, rfl⟩
  | nil =>
    rcases @skipNull_eq κ ν map _ (i + 1) rfl with ⟨it, hskip, hat, hit⟩
    refine ⟨it, ?_, hat, hit⟩
    rw [advance, chainStarts, List.drop_append_of_le_length (by rwa [List.length_map]), ← List.map_drop]
    exact hskip

lemma visit_eq {n : Nat} {it : EntryIterator κ ν} (hat : map.IsAt it) (hlength : (map.remaining it).length = n) :
    map.visit n it = some (map.remaining it) := by
  induction n generalizing it with
  | zero => rw [List.length_eq_zero_iff.1 hlength, visit]
  | succ n ih =>
    rcases hat with ⟨-, hnil⟩ | ⟨hne, hi⟩
    · rw [hnil] at hlength
      cases hlength
    rcases it with ⟨i, _ | ⟨e, next⟩ | _⟩
    · exact absurd rfl hne
    · rcases @advance_entry κ ν map i e next hi with ⟨it', hadvance, hat', hit'⟩
      have hremaining : map.remaining ⟨i, .entry e next⟩ = e :: map.remaining it' := by
        rw [hit']
        rfl
      rw [hremaining, List.length_cons, Nat.add_right_cancel_iff] at hlength
      simp only [visit, hadvance, bind_some, ih hat' hlength, map_some, hremaining]
    · exact absurd rfl hne

lemma countChains_ne_none {tupleIndex seenTuples chainIndex : Nat}
    (hne : chains ≠ []) (h : tupleIndex ≤ seenTuples + chains.flatten.length) :
    ∃ i, countChains tupleIndex chains seenTuples chainIndex = some i := by
  induction chains generalizing seenTuples chainIndex with
  | nil => exact absurd rfl hne
  | cons chain rest ih =>
    rw [countChains]
    split_ifs with hseen
    · exact ⟨chainIndex, rfl⟩
    · rw [List.flatten_cons, List.length_append] at h
      refine ih (fun hnil => ?_) (by omega)
      rw [hnil, List.flatten_nil, List.length_nil] at h
      omega

lemma drop_findIdx (h : chains.flatten ≠ []) :
    ∃ e next rest, chains.drop (chains.findIdx fun chain => !chain.isEmpty) = (e :: next) :: rest ∧
      ((e :: next) :: rest).flatten = chains.flatten := by
  induction chains with
  | nil => exact absurd rfl h
  | cons chain rest ih =>
    cases chain with
    | nil =>
      rcases ih h with ⟨e, next, rest', hdrop, hflatten⟩
      refine ⟨e, next, rest', ?_, hflatten⟩
      rw [List.findIdx_cons]
      exact hdrop
    | cons e next =>
      refine ⟨e, next, rest, ?_, rfl⟩
      rfl

/-- An iteration visits every entry once and stops. -/
lemma IsHashMap.visitAll_eq {hashFunction : κ → Nat} (h : IsHashMap hashFunction map) :
    map.visitAll = some map.iterate := by
  rw [h.iterate_eq, visitAll]
  split_ifs with hzero
  · rw [h.count, List.length_eq_zero_iff] at hzero
    rw [hzero]
  · have hne : map.chains.flatten ≠ [] := fun hnil => hzero (by rw [h.count, hnil, List.length_nil])
    rcases drop_findIdx hne with ⟨e, next, rest, hdrop, hflatten⟩
    have hbegin : map.findChainIndexProxy 0 = some (map.chains.findIdx fun chain => !chain.isEmpty) := by
      rw [findChainIndexProxy, hdrop, countChains, if_pos (Nat.zero_le _)]
    have hend : ∃ i, map.findChainIndexProxy map.numberOfTuples = some i := by
      rw [findChainIndexProxy, hdrop]
      exact countChains_ne_none (List.cons_ne_nil _ _) (by rw [hflatten, h.count, Nat.zero_add])
    rcases hend with ⟨i, hi⟩
    -- `begin` points to the first entry of all
    have hget : map.chains[map.chains.findIdx fun chain => !chain.isEmpty]? = some (e :: next) := by
      rw [← List.head?_drop, hdrop, List.head?_cons]
    have hlt := (List.getElem?_eq_some_iff.1 hget).1
    have hstart : map.chainStarts[map.chains.findIdx fun chain => !chain.isEmpty]? = some (.entry e next) := by
      rw [chainStarts, List.getElem?_append_left (by rwa [List.length_map]), List.getElem?_map, hget]
      rfl
    have hremaining : map.remaining ⟨map.chains.findIdx fun chain => !chain.isEmpty, .entry e next⟩
        = map.chains.flatten := by
      rw [remaining, ← List.drop_drop, hdrop, ← hflatten]
      rfl
    rw [hbegin, hi, bind_some, bind_some, hstart, bind_some, ← hremaining]
    exact visit_eq (.inr ⟨List.cons_ne_nil e next, hlt⟩) (by rw [hremaining, h.count])

end ChainedHashMap

/-! ## Runs -/

/-- An operation with what its callbacks write: the new value of an entry or the change of a value. -/
inductive MapOperation (κ : Type u) (ν : Type v) where
  | findOrCreateEntry (keys : κ) (newValue : ν)
  | insertOrUpdateEntry (keys : κ) (onUpdate : ν → ν) (newValue : ν)
  | clear

inductive Callback where
  | onInsert
  | onUpdate
  deriving DecidableEq, Repr

structure ChainedHashMapState (κ : Type u) (ν : Type v) where
  entrySize : Nat
  pageSize : Nat
  map : ChainedHashMap κ ν
  numberOfPages : Nat

namespace ChainedHashMapState

variable {κ : Type u} {ν : Type v} (s : ChainedHashMapState κ ν)

def entriesPerPage : Nat := s.pageSize / s.entrySize

def create (κ : Type u) (ν : Type v) (entrySize numberOfBuckets pageSize : Nat) : Option (ChainedHashMapState κ ν) :=
  if 0 < entrySize ∧ 0 < pageSize / entrySize ∧ 0 < numberOfBuckets then
    some ⟨entrySize, pageSize, ChainedHashMap.create κ ν numberOfBuckets, 0⟩
  else none

/-- The number of pages for one entry more; fails if the entry is not on one of them. -/
def allocatePage : Option Nat :=
  let numberOfPages :=
    if s.map.numberOfTuples % s.entriesPerPage = 0 then s.numberOfPages + 1 else s.numberOfPages
  if s.map.numberOfTuples / s.entriesPerPage < numberOfPages then some numberOfPages else none

/-- The page of entry number `n` and the first byte behind which it is stored. -/
def address (n : Nat) : Nat × Nat :=
  (n / s.entriesPerPage, (n - n / s.entriesPerPage * s.entriesPerPage) * s.entrySize)

/-- The state after an operation and the callback it has run. -/
def step [DecidableEq κ] (hashFunction : κ → Nat) (s : ChainedHashMapState κ ν) :
    MapOperation κ ν → Option (ChainedHashMapState κ ν × Option Callback)
  | .findOrCreateEntry keys newValue =>
    match s.map.findKey keys (hashFunction keys) with
    | some _ => some (s, none)
    | none => s.allocatePage.map fun numberOfPages =>
      ({ s with map := s.map.findOrCreateEntry keys hashFunction newValue, numberOfPages }, some .onInsert)
  | .insertOrUpdateEntry keys onUpdate newValue =>
    -- the other entry has the hash of its keys
    let merged := s.map.insertOrUpdateEntry ⟨hashFunction keys, keys, newValue⟩ onUpdate newValue
    match s.map.findKey keys (hashFunction keys) with
    | some _ => some ({ s with map := merged }, some .onUpdate)
    | none => s.allocatePage.map fun numberOfPages => ({ s with map := merged, numberOfPages }, some .onInsert)
  | .clear => some ({ s with map := { s.map with chains := [], numberOfTuples := 0 }, numberOfPages := 0 }, none)

def run [DecidableEq κ] (hashFunction : κ → Nat) :
    ChainedHashMapState κ ν → List (MapOperation κ ν) → Option (ChainedHashMapState κ ν × List (Option Callback))
  | s, [] => some (s, [])
  | s, operation :: rest =>
    (s.step hashFunction operation).bind fun (s', callback) =>
      (run hashFunction s' rest).map fun (s'', callbacks) => (s'', callback :: callbacks)

end ChainedHashMapState

/-! ## The finite map -/

namespace MapOperation

variable {κ : Type u} {ν : Type v} [DecidableEq κ]

def apply (contents : κ → Option ν) : MapOperation κ ν → κ → Option ν
  | findOrCreateEntry keys newValue => update contents keys (some ((contents keys).getD newValue))
  | insertOrUpdateEntry keys onUpdate newValue =>
    update contents keys (some ((contents keys).elim newValue onUpdate))
  | clear => fun _ => none

/-- Which callback has to run: the one for new keys, or for a present key the one for updates. -/
def callback (contents : κ → Option ν) : MapOperation κ ν → Option Callback
  | findOrCreateEntry keys _ => if (contents keys).isNone then some .onInsert else none
  | insertOrUpdateEntry keys _ _ => if (contents keys).isNone then some .onInsert else some .onUpdate
  | clear => none

def callbacks : (κ → Option ν) → List (MapOperation κ ν) → List (Option Callback)
  | _, [] => []
  | contents, operation :: rest => operation.callback contents :: callbacks (operation.apply contents) rest

def keysSinceClear (keys : List κ) : MapOperation κ ν → List κ
  | findOrCreateEntry key _ => key :: keys
  | insertOrUpdateEntry key _ _ => key :: keys
  | clear => []

variable {contents : κ → Option ν}

lemma apply_ne_none_iff {keys : List κ} (h : ∀ k, contents k ≠ none ↔ k ∈ keys)
    (operation : MapOperation κ ν) (k : κ) : operation.apply contents k ≠ none ↔ k ∈ operation.keysSinceClear keys := by
  have hupdate : ∀ key value, update contents key (some value) k ≠ none ↔ k ∈ key :: keys := by
    intro key value
    by_cases hk : k = key
    · simp [hk]
    · rw [update_of_ne hk, h, List.mem_cons]
      simp [hk]
  cases operation with
  | findOrCreateEntry key newValue => exact hupdate key _
  | insertOrUpdateEntry key onUpdate newValue => exact hupdate key _
  | clear => simp [apply, keysSinceClear]

lemma foldl_apply_ne_none_iff {keys : List κ} (h : ∀ k, contents k ≠ none ↔ k ∈ keys)
    (operations : List (MapOperation κ ν)) (k : κ) :
    operations.foldl apply contents k ≠ none ↔ k ∈ operations.foldl keysSinceClear keys := by
  induction operations generalizing contents keys with
  | nil => exact h k
  | cons operation rest ih => exact ih (apply_ne_none_iff h operation)

end MapOperation

namespace ChainedHashMapState

variable {κ : Type u} {ν : Type v} [DecidableEq κ] {hashFunction : κ → Nat} {s : ChainedHashMapState κ ν}

/-- The chains are in order, and there are just enough pages. -/
structure IsValid (hashFunction : κ → Nat) (s : ChainedHashMapState κ ν) : Prop where
  isHashMap : s.map.IsHashMap hashFunction
  entriesPerPage_pos : 0 < s.entriesPerPage
  pages : s.numberOfPages = (s.map.numberOfTuples + (s.entriesPerPage - 1)) / s.entriesPerPage

omit [DecidableEq κ] in
lemma IsValid.allocatePage (h : s.IsValid hashFunction) :
    s.allocatePage = some ((s.map.numberOfTuples + 1 + (s.entriesPerPage - 1)) / s.entriesPerPage) := by
  have hpos := h.entriesPerPage_pos
  have hsucc : s.map.numberOfTuples + 1 + (s.entriesPerPage - 1) = s.map.numberOfTuples + s.entriesPerPage := by omega
  have hdiv := Nat.div_add_mod s.map.numberOfTuples s.entriesPerPage
  have hmod := Nat.mod_lt s.map.numberOfTuples hpos
  -- a page is full exactly if the next entry is the first of its page
  have hpages : (if s.map.numberOfTuples % s.entriesPerPage = 0 then s.numberOfPages + 1 else s.numberOfPages)
      = s.map.numberOfTuples / s.entriesPerPage + 1 := by
    rw [h.pages]
    split_ifs with hfull
    · rw [Nat.add_right_cancel_iff]
      exact Nat.div_eq_of_lt_le (by rw [Nat.mul_comm]; omega) (by rw [Nat.add_mul, Nat.mul_comm]; omega)
    · exact Nat.div_eq_of_lt_le (by rw [Nat.add_mul, Nat.mul_comm]; omega)
        (by rw [Nat.add_mul, Nat.add_mul, Nat.mul_comm]; omega)
  rw [ChainedHashMapState.allocatePage, hpages, if_pos (Nat.lt_succ_self _), hsucc, Nat.add_div_right _ hpos]

omit [DecidableEq κ] in
/-- One entry more on the pages that were allocated for it. -/
lemma IsValid.insert (h : s.IsValid hashFunction) {map : ChainedHashMap κ ν} (hmap : map.IsHashMap hashFunction)
    (hcount : map.numberOfTuples = s.map.numberOfTuples + 1) :
    IsValid hashFunction { s with
      map := map
      numberOfPages := (s.map.numberOfTuples + 1 + (s.entriesPerPage - 1)) / s.entriesPerPage } :=
  ⟨hmap, h.entriesPerPage_pos, by rw [hcount]; rfl⟩

/-- Every operation does to the entries what it should do to a finite map, and runs the right callback. -/
lemma step_refines (h : s.IsValid hashFunction) (operation : MapOperation κ ν) :
    ∃ s', s.step hashFunction operation = some (s', operation.callback s.map.lookup) ∧ s'.IsValid hashFunction ∧
      s'.map.lookup = operation.apply s.map.lookup := by
  cases operation with
  | clear =>
    refine ⟨_, rfl, ⟨?_, h.entriesPerPage_pos, ?_⟩, rfl⟩
    · exact ⟨.inl rfl, by simp, by simp, by simp, rfl⟩
    · have hlt : 0 + (s.entriesPerPage - 1) < s.entriesPerPage := by
        have hpos := h.entriesPerPage_pos
        omega
      exact (Nat.div_eq_of_lt hlt).symm
  | findOrCreateEntry keys newValue =>
    have hnone := h.isHashMap.findKey_eq_none_iff keys
    cases hfind : s.map.findKey keys (hashFunction keys) with
    | some e =>
      rcases ne_none_iff_exists'.1 fun hlookup => some_ne_none e (hfind ▸ hnone.2 hlookup) with ⟨value, hvalue⟩
      refine ⟨s, ?_, h, ?_⟩
      · simp only [step, hfind, MapOperation.callback, hvalue, isNone_some, Bool.false_eq_true, if_false]
      · simp only [MapOperation.apply, hvalue, getD_some]
        exact (update_eq_self_iff.2 hvalue.symm).symm
    | none =>
      have hlookup := hnone.1 hfind
      have hmap : s.map.findOrCreateEntry keys hashFunction newValue
          = s.map.insertEntry ⟨hashFunction keys, keys, newValue⟩ := by
        rw [findOrCreateEntry, hfind]
      have hinsert : (s.map.insertEntry ⟨hashFunction keys, keys, newValue⟩).IsHashMap hashFunction :=
        h.isHashMap.insertEntry rfl (ChainedHashMap.lookup_eq_none_iff.1 hlookup)
      refine ⟨_, ?_, h.insert hinsert rfl, ?_⟩
      · simp only [step, hfind, h.allocatePage, map_some, hmap, MapOperation.callback, hlookup,
          isNone_none, if_true]
      · funext keys'
        rw [@ChainedHashMap.IsHashMap.lookup_insertEntry κ ν hashFunction _ s.map h.isHashMap
          ⟨hashFunction keys, keys, newValue⟩ rfl hlookup, MapOperation.apply, hlookup, getD_none,
          update_apply]
  | insertOrUpdateEntry keys onUpdate newValue =>
    have hnone := h.isHashMap.findKey_eq_none_iff keys
    have hmerge := @ChainedHashMap.IsHashMap.insertOrUpdateEntry κ ν hashFunction _ s.map h.isHashMap
      ⟨hashFunction keys, keys, newValue⟩ rfl onUpdate newValue
    have happly : (s.map.insertOrUpdateEntry ⟨hashFunction keys, keys, newValue⟩ onUpdate newValue).lookup
        = MapOperation.apply s.map.lookup (.insertOrUpdateEntry keys onUpdate newValue) := by
      funext keys'
      rw [hmerge.2, MapOperation.apply, update_apply]
      exact ite_congr rfl (fun heq => by rw [heq]) fun _ => rfl
    cases hfind : s.map.findKey keys (hashFunction keys) with
    | some e =>
      have hlookup : (s.map.lookup keys).isNone = false := by
        rw [isNone_eq_false_iff, isSome_iff_ne_none]
        exact fun hlookup => some_ne_none e (hfind ▸ hnone.2 hlookup)
      have hcount : (s.map.insertOrUpdateEntry ⟨hashFunction keys, keys, newValue⟩ onUpdate newValue).numberOfTuples
          = s.map.numberOfTuples := by
        rw [insertOrUpdateEntry, hfind]
        rfl
      refine ⟨{ s with map := s.map.insertOrUpdateEntry ⟨hashFunction keys, keys, newValue⟩ onUpdate newValue }, ?_,
        ⟨hmerge.1, h.entriesPerPage_pos, hcount.symm ▸ h.pages⟩, happly⟩
      simp only [step, hfind, MapOperation.callback, hlookup, Bool.false_eq_true, if_false]
    | none =>
      have hlookup := hnone.1 hfind
      have hcount : (s.map.insertOrUpdateEntry ⟨hashFunction keys, keys, newValue⟩ onUpdate newValue).numberOfTuples
          = s.map.numberOfTuples + 1 := by
        rw [insertOrUpdateEntry, hfind]
        rfl
      refine ⟨_, ?_, h.insert hmerge.1 hcount, happly⟩
      simp only [step, hfind, h.allocatePage, map_some, MapOperation.callback, hlookup, isNone_none, if_true]

lemma run_refines (h : s.IsValid hashFunction) (operations : List (MapOperation κ ν)) :
    ∃ s', s.run hashFunction operations = some (s', MapOperation.callbacks s.map.lookup operations) ∧
      s'.IsValid hashFunction ∧ s'.map.lookup = operations.foldl MapOperation.apply s.map.lookup := by
  induction operations generalizing s with
  | nil => exact ⟨s, rfl, h, rfl⟩
  | cons operation rest ih =>
    rcases step_refines h operation with ⟨s₁, hstep, h₁, hlookup₁⟩
    rcases ih h₁ with ⟨s₂, hrun, h₂, hlookup₂⟩
    refine ⟨s₂, ?_, h₂, ?_⟩
    · simp only [run, hstep, bind_some, hrun, map_some, MapOperation.callbacks, hlookup₁]
    · rw [hlookup₂, hlookup₁, List.foldl_cons]

omit [DecidableEq κ] in
/-- The entries lie on allocated pages, side by side. -/
lemma IsValid.address (h : s.IsValid hashFunction) {n n' : Nat} (hn : n < s.map.numberOfTuples) (hne : n ≠ n') :
    (s.address n).1 < s.numberOfPages ∧ (s.address n).2 + s.entrySize ≤ s.pageSize ∧
      ((s.address n).1 = (s.address n').1 →
        (s.address n).2 + s.entrySize ≤ (s.address n').2 ∨ (s.address n').2 + s.entrySize ≤ (s.address n).2) := by
  have hpos := h.entriesPerPage_pos
  have hoffset : ∀ m, m - m / s.entriesPerPage * s.entriesPerPage = m % s.entriesPerPage :=
    fun m => (Nat.mod_eq_sub_div_mul).symm
  have hbehind : ∀ {a b}, a < b → a * s.entrySize + s.entrySize ≤ b * s.entrySize := by
    intro a b hab
    rw [← Nat.succ_mul]
    exact Nat.mul_le_mul_right _ hab
  simp only [ChainedHashMapState.address, hoffset]
  refine ⟨?_, ?_, fun hpage => ?_⟩
  · rw [h.pages, Nat.lt_iff_add_one_le, ← Nat.add_div_right _ hpos]
    exact Nat.div_le_div_right (by omega)
  · exact (hbehind (Nat.mod_lt n hpos)).trans (Nat.div_mul_le_self s.pageSize s.entrySize)
  · have hmod : n % s.entriesPerPage ≠ n' % s.entriesPerPage := fun hmod => hne (by
      rw [← Nat.div_add_mod n s.entriesPerPage, hpage, hmod, Nat.div_add_mod])
    rcases Nat.lt_or_gt_of_ne hmod with hlt | hlt
    · exact .inl (hbehind hlt)
    · exact .inr (hbehind hlt)

lemma isValid_of_create (hashFunction : κ → Nat) {entrySize numberOfBuckets pageSize : Nat}
    (hcreate : create κ ν entrySize numberOfBuckets pageSize = some s) :
    s.IsValid hashFunction ∧ s.map.lookup = fun _ => none := by
  rw [create] at hcreate
  split_ifs at hcreate with hpre
  cases hcreate
  refine ⟨⟨.create hashFunction numberOfBuckets, hpre.2.1, ?_⟩, rfl⟩
  have hlt : 0 + (pageSize / entrySize - 1) < pageSize / entrySize := by omega
  exact (Nat.div_eq_of_lt hlt).symm

/-- A hash map is a finite map: after every run there is one entry for each key since the last `clear`, with the
value it should have; the callbacks ran as they should; a lookup finds the entry of a key; an iteration visits
every entry once and stops; and the entries do not overlap. -/
theorem run_is_finite_map (hashFunction : κ → Nat) (entrySize numberOfBuckets pageSize : Nat)
    (s : ChainedHashMapState κ ν) (hcreate : create κ ν entrySize numberOfBuckets pageSize = some s)
    (operations : List (MapOperation κ ν)) :
    ∃ s', s.run hashFunction operations = some (s', MapOperation.callbacks (fun _ => none) operations) ∧
      s'.map.visitAll = some s'.map.iterate ∧ (s'.map.iterate.map keys).Nodup ∧
      (∀ k, k ∈ s'.map.iterate.map keys ↔ k ∈ operations.foldl MapOperation.keysSinceClear []) ∧
      s'.map.numberOfTuples = (operations.foldl MapOperation.keysSinceClear []).dedup.length ∧
      (∀ e ∈ s'.map.iterate, operations.foldl MapOperation.apply (fun _ => none) e.keys = some e.value ∧
        s'.map.findKey e.keys (hashFunction e.keys) = some e) ∧
      ∀ n n', n < s'.map.numberOfTuples → n ≠ n' →
        (s'.address n).1 < s'.numberOfPages ∧ (s'.address n).2 + s'.entrySize ≤ s'.pageSize ∧
          ((s'.address n).1 = (s'.address n').1 → (s'.address n).2 + s'.entrySize ≤ (s'.address n').2 ∨
              (s'.address n').2 + s'.entrySize ≤ (s'.address n).2) := by
  have hvalid := isValid_of_create hashFunction hcreate
  rcases run_refines hvalid.1 operations with ⟨s', hrun, h, hlookup⟩
  rw [hvalid.2] at hrun hlookup
  have hnodup : (s'.map.iterate.map keys).Nodup := h.isHashMap.iterate_eq ▸ h.isHashMap.nodup
  -- a key has an entry if it has a value
  have hkeys : ∀ k, k ∈ s'.map.iterate.map keys ↔ k ∈ operations.foldl MapOperation.keysSinceClear [] := by
    intro k
    have hempty : ∀ k, (fun _ => none : κ → Option ν) k ≠ none ↔ k ∈ ([] : List κ) := by simp
    rw [← MapOperation.foldl_apply_ne_none_iff hempty, ← hlookup, Ne, lookup_eq_none_iff,
      ← h.isHashMap.iterate_eq, List.mem_map]
    push Not
    rfl
  refine ⟨s', hrun, h.isHashMap.visitAll_eq, hnodup, hkeys, ?_, ?_, fun n n' hn hne => h.address hn hne⟩
  · have hperm := (List.perm_ext_iff_of_nodup hnodup (List.nodup_dedup _)).2 fun k =>
      (hkeys k).trans List.mem_dedup.symm
    rw [← hperm.length_eq, List.length_map, h.isHashMap.iterate_eq, h.isHashMap.count]
  · intro e he
    refine ⟨?_, ?_⟩
    · rw [← hlookup]
      exact h.isHashMap.lookup_eq_some_iff.2 ⟨e, he, rfl, rfl⟩
    · have hfound := (h.isHashMap.findKey_isSome_iff e.keys).2 ⟨e, h.isHashMap.iterate_eq ▸ he, rfl⟩
      rcases isSome_iff_exists.1 hfound with ⟨e', he'⟩
      have hkeys' : e'.keys = e.keys := by simpa using List.find?_some he'
      have hmem' : e' ∈ s'.map.iterate := by
        have hchain := List.mem_of_find?_eq_some he'
        rw [findChain] at hchain
        split_ifs at hchain
        · cases hchain
        · exact h.isHashMap.iterate_eq ▸ mem_flatten_of_mem_getD hchain
      rw [he', List.inj_on_of_nodup_map hnodup hmem' he hkeys']

/-- Two keys in one chain, with a `clear` in between; every page holds one entry. -/
theorem run_is_finite_map_collision : ∃ s s' : ChainedHashMapState Nat Nat, create Nat Nat 32 1 40 = some s ∧
      s.run (fun _ => 0) [.findOrCreateEntry 1 10, .clear, .insertOrUpdateEntry 2 (· + 1) 20, .findOrCreateEntry 3 30,
          .insertOrUpdateEntry 2 (· + 1) 20]
        = some (s', [some .onInsert, none, some .onInsert, some .onInsert, some .onUpdate]) ∧
      s'.map.numberOfTuples = 2 := by
  rcases run_is_finite_map (fun _ => 0) 32 1 40 _ rfl [.findOrCreateEntry 1 10, .clear,
    .insertOrUpdateEntry 2 (· + 1) 20, .findOrCreateEntry 3 30, .insertOrUpdateEntry 2 (· + 1) 20] with
    ⟨s', hrun, -, -, -, hcount, -⟩
  exact ⟨_, s', rfl, hrun, hcount⟩

end ChainedHashMapState

end MobilityNebula.Nautilus
