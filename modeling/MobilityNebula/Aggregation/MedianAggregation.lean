import MobilityNebula.Library.Aggregates
import MobilityNebula.Nautilus.PagedVector

/-!
# MedianAggregation — the middle values of a paged vector

Embedding of `MedianAggregationPhysicalFunction.cpp`.  The state is a paged vector of records.  The median is
found without sorting: for each candidate the loop counts how many items are smaller and how many are equal,
and these counts tell the ranks the candidate has in the sorted list (`hasRank_of_sorted`, `hasRank_unique`).
-/

namespace MobilityNebula.Aggregation

open Library Library.Aggregate Nautilus List

structure MedianAggregationPhysicalFunction (ρ β : Type) where
  inputFunction : ρ → β
  capacity : Nat

namespace MedianAggregationPhysicalFunction

variable {ρ β γ : Type} (function : MedianAggregationPhysicalFunction ρ β)

def states : Aggregate ρ (PagedVector ρ) where
  reset := PagedVector.create
  lift state record := state.writeRecord function.capacity record
  combine state state' := state.copyFrom state'

lemma states_eval (function : MedianAggregationPhysicalFunction ρ β) (parts : Parts ρ) :
    (function.states.eval parts).WellFormed ∧ (function.states.eval parts).toList = parts.values := by
  refine eval_invariant (P := fun l (s : PagedVector ρ) => s.WellFormed ∧ s.toList = l) ?_ ?_ ?_ parts
  · exact ⟨.create, PagedVector.toList_create⟩
  · rintro l s x ⟨hwf, rfl⟩
    exact hwf.writeRecord function.capacity x
  · rintro l s l' s' ⟨hwf, rfl⟩ ⟨hwf', rfl⟩
    exact hwf.copyFrom hwf'

variable [LinearOrder β]

/-- The inner loop: how many items are smaller than the candidate, and how many are equal to it. -/
def countItems (items : List β) (candidate : β) : Nat × Nat :=
  items.foldl (fun count item =>
    (if item < candidate then count.1 + 1 else count.1, if item = candidate then count.2 + 1 else count.2)) (0, 0)

/-- The candidate is at the given position of the sorted items, or at one of several if items are equal. -/
def hasRank (items : List β) (medianPos : Nat) (candidate : β) : Bool :=
  let (countLessThan, countEqual) := countItems items candidate
  countLessThan ≤ medianPos && medianPos < countLessThan + countEqual

def checkCandidate (items : List β) (medianPos : Nat) (found : Option Nat) (candidate : β × Nat) : Option Nat :=
  if found = none ∧ hasRank items medianPos candidate.1 then some candidate.2 else found

/-- The outer loop over the candidates with their positions. -/
def findMedians (items : List β) (medianPos1 medianPos2 : Nat) : Option Nat × Option Nat :=
  items.zipIdx.foldl (fun found candidate =>
    (checkCandidate items medianPos1 found.1 candidate, checkCandidate items medianPos2 found.2 candidate)) (none, none)

/-- The positions of the two records that are selected; `none` if the vector is empty. -/
def medianItemPositions (vector : PagedVector ρ) : Option (Option Nat × Option Nat) := do
  let numberOfEntries := vector.getTotalNumberOfEntries
  if 0 < numberOfEntries then
    let items ← vector.iterate
    some (findMedians (items.map function.inputFunction) ((numberOfEntries - 1) / 2) (numberOfEntries / 2))
  else
    none

def lower (average : β → β → γ) (zero : γ) (vector : PagedVector ρ) : Option γ := do
  match ← function.medianItemPositions vector with
  | (some medianItemPos1, some medianItemPos2) =>
    let medianRecord1 ← vector.readRecord medianItemPos1
    let medianRecord2 ← vector.readRecord medianItemPos2
    some (average (function.inputFunction medianRecord1) (function.inputFunction medianRecord2))
  | _ => some zero

/-! ## Ranks -/

variable {function} {items : List β} {medianPos : Nat} {v w : β}

lemma countItems_eq (items : List β) (v : β) : countItems items v = (items.countP (· < v), items.countP (· = v)) := by
  have hloop : ∀ less equal, items.foldl (fun count item =>
      (if item < v then count.1 + 1 else count.1, if item = v then count.2 + 1 else count.2)) (less, equal)
        = (less + items.countP (· < v), equal + items.countP (· = v)) := by
    induction items with
    | nil => exact fun _ _ => rfl
    | cons item rest ih =>
      intro less equal
      rw [foldl_cons, ih, countP_cons, countP_cons, Prod.mk.injEq]
      simp only [decide_eq_true_eq]
      constructor
      · split_ifs <;> omega
      · split_ifs <;> omega
  rw [countItems, hloop, Nat.zero_add, Nat.zero_add]

lemma hasRank_iff_countP : hasRank items medianPos v = true ↔
    items.countP (· < v) ≤ medianPos ∧ medianPos < items.countP (· < v) + items.countP (· = v) := by
  rw [hasRank, countItems_eq]
  simp

lemma countP_add_le (hlt : v < w) : items.countP (· < v) + items.countP (· = v) ≤ items.countP (· < w) := by
  induction items with
  | nil => exact Nat.le_refl _
  | cons item rest ih =>
    simp only [countP_cons, decide_eq_true_eq]
    rcases lt_trichotomy item v with h | h | h
    · rw [if_pos h, if_neg h.ne, if_pos (h.trans hlt)]
      omega
    · rw [if_neg h.not_lt, if_pos h, if_pos (h.trans_lt hlt)]
      omega
    · rw [if_neg h.not_gt, if_neg h.ne']
      split_ifs <;> omega

lemma hasRank_unique (hv : hasRank items medianPos v = true) (hw : hasRank items medianPos w = true) : v = w := by
  rw [hasRank_iff_countP] at hv hw
  rcases lt_trichotomy v w with hlt | heq | hlt
  · have hle : items.countP (· < v) + items.countP (· = v) ≤ items.countP (· < w) := countP_add_le hlt
    omega
  · exact heq
  · have hle : items.countP (· < w) + items.countP (· = w) ≤ items.countP (· < v) := countP_add_le hlt
    omega

lemma hasRank_of_sorted (hsorted : items.Pairwise (· ≤ ·)) (hget : items[medianPos]? = some v) :
    hasRank items medianPos v = true := by
  rcases List.getElem?_eq_some_iff.1 hget with ⟨hlt, hv⟩
  have hsplit : items.take medianPos ++ v :: items.drop (medianPos + 1) = items := by
    rw [← hv, getElem_cons_drop, take_append_drop]
  have hlength : (items.take medianPos).length = medianPos := length_take_of_le hlt.le
  rw [← hsplit, pairwise_append, pairwise_cons] at hsorted
  -- the items before it are not larger, those behind it not smaller
  have hbefore : ∀ x ∈ items.take medianPos, x ≤ v := fun x hx => hsorted.2.2 x hx v mem_cons_self
  have hbehind : (items.drop (medianPos + 1)).countP (· < v) = 0 :=
    countP_eq_zero.2 fun x hx => by simpa using hsorted.2.1.1 x hx
  have hcount : ∀ l : List β, (∀ x ∈ l, x ≤ v) → l.countP (· < v) + l.countP (· = v) = l.length := by
    intro l hl
    induction l with
    | nil => rfl
    | cons x rest ih =>
      rcases forall_mem_cons.1 hl with ⟨hx, hrest⟩
      have hih := ih hrest
      simp only [countP_cons, decide_eq_true_eq, length_cons]
      rcases hx.lt_or_eq with h | h
      · rw [if_pos h, if_neg h.ne]
        omega
      · rw [if_neg h.not_lt, if_pos h]
        omega
  have htake := hcount _ hbefore
  rw [hasRank_iff_countP, ← hsplit]
  simp only [countP_append, countP_cons, lt_irrefl, decide_true, decide_false, hbehind]
  simp only [if_true, Bool.false_eq_true, if_false]
  omega

lemma hasRank_perm {items' : List β} (hperm : items.Perm items') :
    hasRank items medianPos v = hasRank items' medianPos v := by
  rw [hasRank, hasRank, countItems_eq, countItems_eq, hperm.countP_eq, hperm.countP_eq]

/-! ## The loop -/

lemma foldl_checkCandidate (candidates : List (β × Nat)) : candidates.foldl (checkCandidate items medianPos) none
      = (candidates.find? fun candidate => hasRank items medianPos candidate.1).map Prod.snd := by
  have hfound : ∀ (l : List (β × Nat)) p, l.foldl (checkCandidate items medianPos) (some p) = some p := by
    intro l p
    induction l with
    | nil => rfl
    | cons _ rest ih => exact ih
  induction candidates with
  | nil => rfl
  | cons candidate rest ih =>
    cases hrank : hasRank items medianPos candidate.1 with
    | true => simp [checkCandidate, hrank, hfound]
    | false => simpa [checkCandidate, hrank] using ih

lemma findMedians_eq (items : List β) (medianPos1 medianPos2 : Nat) : findMedians items medianPos1 medianPos2
      = (items.zipIdx.foldl (checkCandidate items medianPos1) none,
        items.zipIdx.foldl (checkCandidate items medianPos2) none) := by
  have hloop : ∀ (l : List (β × Nat)) found found', l.foldl (fun found candidate =>
      (checkCandidate items medianPos1 found.1 candidate, checkCandidate items medianPos2 found.2 candidate))
        (found, found')
      = (l.foldl (checkCandidate items medianPos1) found, l.foldl (checkCandidate items medianPos2) found') := by
    intro l
    induction l with
    | nil => exact fun _ _ => rfl
    | cons candidate rest ih => exact fun _ _ => ih _ _
  exact hloop _ _ _

/-- For each position there is an item of this rank, and the loop finds the first one. -/
lemma find_of_lt (hlt : medianPos < items.length) :
    ∃ p v, items.zipIdx.foldl (checkCandidate items medianPos) none = some p ∧ items[p]? = some v ∧
      (items.insertionSort (· ≤ ·))[medianPos]? = some v := by
  have hperm := perm_insertionSort (· ≤ ·) items
  have hget := getElem?_eq_getElem (l := items.insertionSort (· ≤ ·)) (hperm.length_eq ▸ hlt)
  have hrank := hasRank_of_sorted (pairwise_insertionSort (· ≤ ·) items) hget
  rw [hasRank_perm hperm] at hrank
  rcases mem_iff_getElem?.1 (hperm.subset (mem_of_getElem? hget)) with ⟨i, hi⟩
  rw [foldl_checkCandidate]
  cases hfind : items.zipIdx.find? fun candidate => hasRank items medianPos candidate.1 with
  | none => exact absurd hrank (find?_eq_none.1 hfind (_, i) (mem_zipIdx_iff_getElem?.2 hi))
  | some candidate =>
    refine ⟨candidate.2, candidate.1, rfl, mem_zipIdx_iff_getElem?.1 (mem_of_find?_eq_some hfind), ?_⟩
    have hrank' := find?_some hfind
    rw [hget, hasRank_unique hrank hrank']

/-- Of a non-empty state, both records are found, and they hold the values of rank `(n - 1) / 2` and `n / 2`
of the sorted values. -/
theorem lower_selects_median_ranks (function : MedianAggregationPhysicalFunction ρ β) (average : β → β → γ) (zero : γ)
    (parts : Parts ρ) (hne : parts.values ≠ []) :
    ∃ pos1 pos2 record1 record2,
      function.medianItemPositions (function.states.eval parts) = some (some pos1, some pos2) ∧
      (function.states.eval parts).readRecord pos1 = some record1 ∧
      (function.states.eval parts).readRecord pos2 = some record2 ∧
      ((parts.values.map function.inputFunction).insertionSort (· ≤ ·))[(parts.values.length - 1) / 2]?
        = some (function.inputFunction record1) ∧
      ((parts.values.map function.inputFunction).insertionSort (· ≤ ·))[parts.values.length / 2]?
        = some (function.inputFunction record2) ∧
      function.lower average zero (function.states.eval parts)
        = some (average (function.inputFunction record1) (function.inputFunction record2)) := by
  rcases function.states_eval parts with ⟨hwf, htoList⟩
  have hpos : 0 < parts.values.length := length_pos_iff.2 hne
  have hlength : (parts.values.map function.inputFunction).length = parts.values.length := length_map _
  have hlow : (parts.values.length - 1) / 2 < (parts.values.map function.inputFunction).length := by omega
  have hhigh : parts.values.length / 2 < (parts.values.map function.inputFunction).length := by omega
  rcases find_of_lt hlow with ⟨pos1, v1, hfind1, hget1, hsorted1⟩
  rcases find_of_lt hhigh with ⟨pos2, v2, hfind2, hget2, hsorted2⟩
  rw [getElem?_map, Option.map_eq_some_iff] at hget1 hget2
  rcases hget1 with ⟨record1, hget1, rfl⟩
  rcases hget2 with ⟨record2, hget2, rfl⟩
  have hpositions : function.medianItemPositions (function.states.eval parts) = some (some pos1, some pos2) := by
    rw [medianItemPositions, hwf.getTotalNumberOfEntries_eq, hwf.iterate_eq, htoList, if_pos hpos]
    simp only [Option.bind_eq_bind, Option.bind_some, findMedians_eq, hfind1, hfind2]
  have hread1 := hwf.readRecord_eq pos1
  have hread2 := hwf.readRecord_eq pos2
  rw [htoList, hget1] at hread1
  rw [htoList, hget2] at hread2
  refine ⟨pos1, pos2, record1, record2, hpositions, hread1, hread2, hsorted1, hsorted2, ?_⟩
  simp only [lower, hpositions, Option.bind_eq_bind, Option.bind_some, hread1, hread2]

theorem lower_selects_median_ranks_three : ∃ pos1 pos2 record1 record2,
      (⟨id, 2⟩ : MedianAggregationPhysicalFunction Nat Nat).medianItemPositions
        ((⟨id, 2⟩ : MedianAggregationPhysicalFunction Nat Nat).states.eval
          (.combine (.lift (.lift .reset 8) 3) (.lift .reset 5))) = some (some pos1, some pos2) ∧
      ([8, 3, 5].insertionSort (· ≤ ·))[1]? = some record1 ∧ ([8, 3, 5].insertionSort (· ≤ ·))[1]? = some record2 := by
  rcases lower_selects_median_ranks (⟨id, 2⟩ : MedianAggregationPhysicalFunction Nat Nat) (fun a b => (a + b) / 2) 0
    (.combine (.lift (.lift .reset 8) 3) (.lift .reset 5)) (by simp [Parts.values]) with
    ⟨pos1, pos2, record1, record2, hpos, -, -, h1, h2, -⟩
  exact ⟨pos1, pos2, record1, record2, hpos, h1, h2⟩

end MedianAggregationPhysicalFunction

end MobilityNebula.Aggregation
