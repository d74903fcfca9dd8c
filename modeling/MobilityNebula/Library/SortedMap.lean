import Mathlib.Data.List.Sort

/-!
# SortedMap — an ordered map and its iterations

A map with linearly ordered keys as the list of its entries in ascending order, the shape in which C++ code
sees a `std::map`.  Besides lookup and `operator[]` (`upsert`) there are the two loops such code runs over a
map: one that changes values, carries an accumulator and may break (`mapAccumUntil`), and one that erases
entries and may break (`eraseUntil`).

A loop that breaks stops early only because the keys are sorted.  `mapAccumUntil_eq` and `eraseUntil_eq` say
what the loops compute without the break: a change of values, a fold and a filter.
-/

namespace MobilityNebula.Library

open List

universe u v w

/-- The entries of an ordered map, in ascending order of their keys. -/
structure SortedMap (κ : Type u) (α : Type v) [LinearOrder κ] where
  entries : List (κ × α)
  sorted : entries.Pairwise fun a b => a.1 < b.1

namespace SortedMap

variable {κ : Type u} {α : Type v} {σ : Type w} [LinearOrder κ]

/-! ## Lookup -/

def empty : SortedMap κ α := ⟨[], List.Pairwise.nil⟩

def findEntry (k : κ) : List (κ × α) → Option α
  | [] => none
  | (k', a) :: rest => if k' = k then some a else findEntry k rest

def find? (m : SortedMap κ α) (k : κ) : Option α := findEntry k m.entries

lemma find?_empty (k : κ) : (empty : SortedMap κ α).find? k = none := rfl

variable {entries : List (κ × α)}

lemma findEntry_eq_none {k : κ} (h : ∀ e ∈ entries, e.1 ≠ k) : findEntry k entries = none := by
  induction entries with
  | nil => rfl
  | cons e rest ih =>
    rcases e with ⟨k', a⟩
    have hne : k' ≠ k := h (k', a) mem_cons_self
    rw [findEntry, if_neg hne]
    exact ih fun e he => h e (mem_cons_of_mem _ he)

lemma findEntry_eq_some_iff (hsorted : entries.Pairwise fun a b => a.1 < b.1)
    {k : κ} {a : α} : findEntry k entries = some a ↔ (k, a) ∈ entries := by
  induction entries with
  | nil => simp [findEntry]
  | cons e rest ih =>
    rcases e with ⟨k', a'⟩
    rw [pairwise_cons] at hsorted
    by_cases hk : k' = k
    · subst hk
      -- the key does not occur again
      have hnot : (k', a) ∉ rest := fun hmem => lt_irrefl k' (hsorted.1 (k', a) hmem)
      simp [findEntry, hnot, eq_comm]
    · have hk' : k ≠ k' := fun heq => hk heq.symm
      simp [findEntry, hk, hk', ih hsorted.2]

lemma mem_entries_iff {m : SortedMap κ α} {k : κ} {a : α} : (k, a) ∈ m.entries ↔ m.find? k = some a :=
  (findEntry_eq_some_iff m.sorted).symm

/-! ## Insertion -/

def upsertEntries (k : κ) (f : Option α → α) : List (κ × α) → List (κ × α)
  | [] => [(k, f none)]
  | (k', a) :: rest =>
    if k < k' then
      (k, f none) :: (k', a) :: rest
    else if k' = k then
      (k', f (some a)) :: rest
    else
      (k', a) :: upsertEntries k f rest

lemma key_of_mem_upsertEntries {k : κ} {f : Option α → α} {e : κ × α}
    (h : e ∈ upsertEntries k f entries) : e.1 = k ∨ ∃ e' ∈ entries, e.1 = e'.1 := by
  induction entries with
  | nil =>
    rw [upsertEntries, mem_singleton] at h
    exact .inl (by rw [h])
  | cons e' rest ih =>
    rcases e' with ⟨k', a⟩
    unfold upsertEntries at h
    split_ifs at h
    · rcases mem_cons.1 h with rfl | hmem
      · exact .inl rfl
      · exact .inr ⟨e, hmem, rfl⟩
    · rcases mem_cons.1 h with rfl | hmem
      · exact .inr ⟨(k', a), mem_cons_self, rfl⟩
      · exact .inr ⟨e, mem_cons_of_mem _ hmem, rfl⟩
    · rcases mem_cons.1 h with rfl | hmem
      · exact .inr ⟨(k', a), mem_cons_self, rfl⟩
      · rcases ih hmem with hk | ⟨e', he', hkey⟩
        · exact .inl hk
        · exact .inr ⟨e', mem_cons_of_mem _ he', hkey⟩

lemma sorted_upsertEntries (k : κ) (f : Option α → α) (hsorted : entries.Pairwise fun a b => a.1 < b.1) :
    (upsertEntries k f entries).Pairwise fun a b => a.1 < b.1 := by
  induction entries with
  | nil => exact pairwise_singleton _ _
  | cons e rest ih =>
    have hcons := pairwise_cons.1 hsorted
    unfold upsertEntries
    split_ifs with hlt heq
    · refine pairwise_cons.2 ⟨fun e he => ?_, hsorted⟩
      rcases mem_cons.1 he with rfl | hmem
      · exact hlt
      · exact lt_trans hlt (hcons.1 e hmem)
    · exact pairwise_cons.2 ⟨fun e he => hcons.1 e he, hcons.2⟩
    · refine pairwise_cons.2 ⟨fun e he => ?_, ih hcons.2⟩
      rcases key_of_mem_upsertEntries he with hk | ⟨e', he', hkey⟩
      · rw [hk]
        exact lt_of_le_of_ne (not_lt.1 hlt) heq
      · rw [hkey]
        exact hcons.1 e' he'

variable (m : SortedMap κ α)

/-- `m[k] = f(m[k])`, where `f` is given nothing if the key is new. -/
def upsert (k : κ) (f : Option α → α) : SortedMap κ α :=
  ⟨upsertEntries k f m.entries, sorted_upsertEntries k f m.sorted⟩

lemma findEntry_upsertEntries (k : κ) (f : Option α → α) (hsorted : entries.Pairwise fun a b => a.1 < b.1) (k₀ : κ) :
    findEntry k₀ (upsertEntries k f entries)
      = if k₀ = k then some (f (findEntry k entries)) else findEntry k₀ entries := by
  induction entries with
  | nil =>
    by_cases hk : k₀ = k
    · simp [upsertEntries, findEntry, hk]
    · simp [upsertEntries, findEntry, hk, Ne.symm hk]
  | cons e rest ih =>
    rcases e with ⟨k', a⟩
    have hcons := pairwise_cons.1 hsorted
    rcases lt_trichotomy k k' with hlt | heq | hgt
    · -- inserted in front of all larger keys
      have hnone : findEntry k ((k', a) :: rest) = none := by
        refine findEntry_eq_none fun e he => ?_
        rcases mem_cons.1 he with rfl | hmem
        · exact ne_of_gt hlt
        · exact ne_of_gt (lt_trans hlt (hcons.1 e hmem))
      rw [upsertEntries, if_pos hlt, hnone]
      simp only [findEntry, eq_comm]
    · subst heq
      rw [upsertEntries, if_neg (lt_irrefl k), if_pos rfl]
      by_cases hk : k₀ = k
      · simp [findEntry, hk]
      · simp [findEntry, hk, Ne.symm hk]
    · rw [upsertEntries, if_neg (not_lt_of_gt hgt), if_neg (ne_of_lt hgt)]
      simp only [findEntry, ih hcons.2, if_neg (ne_of_lt hgt)]
      by_cases hk : k₀ = k
      · rw [if_neg (fun h => ne_of_lt hgt (h.trans hk)), if_pos hk, if_pos hk]
      · rw [if_neg hk, if_neg hk]

lemma find?_upsert (k : κ) (f : Option α → α) (k₀ : κ) :
    (m.upsert k f).find? k₀ = if k₀ = k then some (f (m.find? k)) else m.find? k₀ :=
  findEntry_upsertEntries k f m.sorted k₀

/-! ## A loop that changes values -/

def mapValues (g : κ → α → α) : SortedMap κ α :=
  ⟨m.entries.map fun e => (e.1, g e.1 e.2), pairwise_map.2 m.sorted⟩

lemma find?_mapValues (g : κ → α → α) (k : κ) : (m.mapValues g).find? k = (m.find? k).map (g k) := by
  rcases m with ⟨entries, hsorted⟩
  show findEntry k (entries.map fun e => (e.1, g e.1 e.2)) = (findEntry k entries).map (g k)
  clear hsorted
  induction entries with
  | nil => rfl
  | cons e rest ih =>
    rcases e with ⟨k', a⟩
    by_cases hk : k' = k
    · simp [findEntry, hk]
    · simpa [findEntry, hk] using ih

/-- The loop over the entries in ascending order that replaces values and carries an accumulator; it breaks
where `step` gives nothing. -/
def mapAccumEntries (step : σ → κ → α → Option (α × σ)) : σ → List (κ × α) → List (κ × α) × σ
  | s, [] => ([], s)
  | s, (k, a) :: rest =>
    match step s k a with
    | none => ((k, a) :: rest, s)
    | some (a', s') =>
      let (rest', s'') := mapAccumEntries step s' rest
      ((k, a') :: rest', s'')

omit [LinearOrder κ] in
lemma keys_mapAccumEntries (step : σ → κ → α → Option (α × σ)) (s : σ) (entries : List (κ × α)) :
    (mapAccumEntries step s entries).1.map Prod.fst = entries.map Prod.fst := by
  induction entries generalizing s with
  | nil => rfl
  | cons e rest ih =>
    simp only [mapAccumEntries]
    split
    · rfl
    · simp [ih]

lemma sorted_iff_keys : (entries.Pairwise fun a b => a.1 < b.1) ↔ (entries.map Prod.fst).Pairwise (· < ·) :=
  pairwise_map.symm

def mapAccumUntil (step : σ → κ → α → Option (α × σ)) (s : σ) : SortedMap κ α × σ :=
  (⟨(mapAccumEntries step s m.entries).1, by
      rw [sorted_iff_keys, keys_mapAccumEntries, ← sorted_iff_keys]
      exact m.sorted⟩,
    (mapAccumEntries step s m.entries).2)

/-- A loop that breaks at the first key with `stop`, when `stop` holds of all larger keys too. -/
lemma mapAccumUntil_eq (stop : κ → Prop) [DecidablePred stop]
    (hstop : ∀ k k', k < k' → stop k → stop k') (g : κ → α → α) (upd : σ → κ → α → σ) (s : σ) :
    m.mapAccumUntil (fun s k a => if stop k then none else some (g k a, upd s k a)) s
      = (m.mapValues (fun k a => if stop k then a else g k a),
          (m.entries.filter fun e => !decide (stop e.1)).foldl (fun s e => upd s e.1 e.2) s) := by
  rcases m with ⟨entries, hsorted⟩
  have hentries : mapAccumEntries (fun s k a => if stop k then none else some (g k a, upd s k a)) s entries
      = (entries.map (fun e => (e.1, if stop e.1 then e.2 else g e.1 e.2)),
          (entries.filter fun e => !decide (stop e.1)).foldl (fun s e => upd s e.1 e.2) s) := by
    induction entries generalizing s with
    | nil => rfl
    | cons e rest ih =>
      rcases e with ⟨k, a⟩
      have hcons := pairwise_cons.1 hsorted
      by_cases hk : stop k
      · -- every later key stops too, so the rest is neither changed nor visited
        have hrest : ∀ e ∈ rest, stop e.1 := fun e he => hstop k e.1 (hcons.1 e he) hk
        have hmap : rest.map (fun e => (e.1, if stop e.1 then e.2 else g e.1 e.2)) = rest := by
          conv_rhs => rw [← map_id rest]
          refine map_congr_left fun e he => ?_
          simp [hrest e he]
        have hfilter : (rest.filter fun e => !decide (stop e.1)) = [] := by
          simpa [filter_eq_nil_iff] using fun k a he => hrest (k, a) he
        simp [mapAccumEntries, hk, hmap, hfilter]
      · simp [mapAccumEntries, hk, ih (upd s k a) hcons.2]
  simp only [mapAccumUntil, hentries, mapValues]

/-! ## A loop that erases -/

def filter (p : κ → α → Bool) : SortedMap κ α :=
  ⟨m.entries.filter fun e => p e.1 e.2, m.sorted.filter _⟩

lemma find?_filter (p : κ → α → Bool) (k : κ) : (m.filter p).find? k = (m.find? k).filter (p k) := by
  refine Option.ext fun a => ?_
  rw [← mem_entries_iff, Option.filter_eq_some_iff, ← mem_entries_iff]
  exact mem_filter

def erase (k : κ) : SortedMap κ α := m.filter fun k' _ => k' != k

lemma find?_erase (k k₀ : κ) : (m.erase k).find? k₀ = if k₀ = k then none else m.find? k₀ := by
  rw [erase, find?_filter]
  cases m.find? k₀ with
  | none => simp
  | some a =>
    by_cases heq : k₀ = k
    · simp [heq]
    · simp [heq]

/-- What a pass of an erasing loop does with the entry it is at. -/
inductive EraseStep where
  | erase
  | keep
  | stop
  deriving DecidableEq, Repr

/-- The loop over the entries in ascending order that erases some and may break. -/
def eraseEntries (decide : κ → α → EraseStep) : List (κ × α) → List (κ × α)
  | [] => []
  | (k, a) :: rest =>
    match decide k a with
    | .erase => eraseEntries decide rest
    | .keep => (k, a) :: eraseEntries decide rest
    | .stop => (k, a) :: rest

omit [LinearOrder κ] in
lemma sublist_eraseEntries (decide : κ → α → EraseStep) (entries : List (κ × α)) :
    (eraseEntries decide entries).Sublist entries := by
  induction entries with
  | nil => exact .refl _
  | cons e rest ih =>
    simp only [eraseEntries]
    split
    · exact ih.cons _
    · exact ih.cons_cons _
    · exact .refl _

def eraseUntil (decide : κ → α → EraseStep) : SortedMap κ α :=
  ⟨eraseEntries decide m.entries, m.sorted.sublist (sublist_eraseEntries decide m.entries)⟩

/-- A loop that breaks only where nothing behind it would be erased. -/
lemma eraseUntil_eq (decide : κ → α → EraseStep)
    (hstop : ∀ k a k' a', k < k' → decide k a = .stop → decide k' a' ≠ .erase) :
    m.eraseUntil decide = m.filter fun k a => decide k a != .erase := by
  rcases m with ⟨entries, hsorted⟩
  have hentries : eraseEntries decide entries = entries.filter fun e => decide e.1 e.2 != .erase := by
    induction entries with
    | nil => rfl
    | cons e rest ih =>
      rcases e with ⟨k, a⟩
      have hcons := pairwise_cons.1 hsorted
      cases hd : decide k a with
      | erase | keep => simp [eraseEntries, hd, ih hcons.2]
      | stop =>
        have hrest : (rest.filter fun e => decide e.1 e.2 != .erase) = rest := by
          refine filter_eq_self.2 fun e he => ?_
          simpa using hstop k a e.1 e.2 (hcons.1 e he) hd
        simp [eraseEntries, hd, hrest]
  simp only [eraseUntil, filter, hentries]

end SortedMap

end MobilityNebula.Library
