import MobilityNebula.Library.Grouping

/-!
# OrderOfAppearance — groups in the order in which their keys appear

The keys of a list in the order of their first appearance are sorted by the position of that appearance.
Laying the groups one after the other in a sorted order of the keys is a stable sort: it gives back a part of
the list exactly if that part was sorted already (`filter_flatMap_group_eq_iff`).
-/

namespace MobilityNebula.Library

open List

universe u v

/-! ## First appearances -/

section FirstAppearances

variable {κ : Type v} [DecidableEq κ]

/-- The elements of a list, each at its first appearance. -/
def firstAppearances (l : List κ) : List κ := l.reverse.dedup.reverse

lemma firstAppearances_append_singleton (l : List κ) (k : κ) :
    firstAppearances (l ++ [k]) = if k ∈ l then firstAppearances l else firstAppearances l ++ [k] := by
  rw [firstAppearances, reverse_append, reverse_singleton, singleton_append, firstAppearances]
  split_ifs with hmem
  · rw [dedup_cons_of_mem (mem_reverse.2 hmem)]
  · rw [dedup_cons_of_notMem (fun h => hmem (mem_reverse.1 h)), reverse_cons]

lemma mem_firstAppearances {l : List κ} {k : κ} : k ∈ firstAppearances l ↔ k ∈ l := by
  rw [firstAppearances, mem_reverse, mem_dedup, mem_reverse]

lemma pairwise_idxOf_firstAppearances (l : List κ) :
    (firstAppearances l).Pairwise fun a b => l.idxOf a < l.idxOf b := by
  induction l using reverseRecOn with
  | nil => exact .nil
  | append_singleton l k ih =>
    -- an element of the list keeps its position
    have hold : ∀ a ∈ firstAppearances l, (l ++ [k]).idxOf a = l.idxOf a := fun a ha =>
      idxOf_append_of_mem (mem_firstAppearances.1 ha)
    have hrest : (firstAppearances l).Pairwise fun a b => (l ++ [k]).idxOf a < (l ++ [k]).idxOf b := by
      refine ih.imp_of_mem fun {a b} ha hb hlt => ?_
      rw [hold a ha, hold b hb]
      exact hlt
    rw [firstAppearances_append_singleton]
    split_ifs with hmem
    · exact hrest
    · refine pairwise_append.2 ⟨hrest, pairwise_singleton _ _, fun a ha b hb => ?_⟩
      rw [mem_singleton.1 hb, hold a ha, idxOf_append_of_notMem hmem]
      exact Nat.lt_of_lt_of_le (idxOf_lt_length_of_mem (mem_firstAppearances.1 ha)) (Nat.le_add_right _ _)

end FirstAppearances

/-! ## Sorting by groups -/

section Groups

variable {α : Type u} {κ : Type v} [DecidableEq κ] {key : α → κ} {rank : κ → Nat} {l : List α}

/-- A list in which no element with the property follows one without it. -/
lemma filter_append_filter_not {p : α → Bool} (h : l.Pairwise fun a b => p b = true → p a = true) :
    l.filter p ++ l.filter (fun x => !p x) = l := by
  induction l with
  | nil => rfl
  | cons x l ih =>
    have hcons := pairwise_cons.1 h
    cases hp : p x with
    | true =>
      rw [filter_cons_of_pos hp, filter_cons_of_neg (by simp [hp]), cons_append, ih hcons.2]
    | false =>
      have hnone : l.filter p = [] := filter_eq_nil_iff.2 fun y hy hpy => by
        rw [hcons.1 y hy hpy] at hp
        cases hp
      have hall : l.filter (fun y => !p y) = l := by
        have hsplit := ih hcons.2
        rwa [hnone, nil_append] at hsplit
      rw [filter_cons_of_neg (by simp [hp]), hnone, nil_append, filter_cons_of_pos (by simp [hp]),
        hall]

variable {keys : List κ}

lemma flatMap_group_of_sorted (hkeys : keys.Pairwise fun k k' => rank k < rank k')
    (hmem : ∀ x ∈ l, key x ∈ keys) (hl : l.Pairwise fun a b => rank (key a) ≤ rank (key b)) :
    (keys.flatMap fun k => group key k l) = l := by
  induction keys generalizing l with
  | nil =>
    have hnil : l = [] := eq_nil_iff_forall_not_mem.2 fun x hx => not_mem_nil (hmem x hx)
    rw [hnil, flatMap_nil]
  | cons k rest ih =>
    have hcons := pairwise_cons.1 hkeys
    -- the elements with the first key have the least rank, so they come first
    have hfirst : l.Pairwise fun a b => decide (key b = k) = true → decide (key a = k) = true := by
      refine hl.imp_of_mem fun {a b} ha _ hle hb => decide_eq_true ?_
      rw [of_decide_eq_true hb] at hle
      rcases mem_cons.1 (hmem a ha) with heq | hrest
      · exact heq
      · exact absurd (hcons.1 _ hrest) (Nat.not_lt.2 hle)
    generalize hothers : l.filter (fun x => !decide (key x = k)) = others
    have hothersMem : ∀ x ∈ others, x ∈ l ∧ key x ≠ k := fun x hx => by
      rw [← hothers, mem_filter] at hx
      exact ⟨hx.1, by simpa using hx.2⟩
    have hrest : (rest.flatMap fun k' => group key k' l) = others := by
      have hsorted : others.Pairwise fun a b => rank (key a) ≤ rank (key b) := hothers ▸ hl.filter _
      have hothersRest : ∀ x ∈ others, key x ∈ rest := fun x hx =>
        (mem_cons.1 (hmem x (hothersMem x hx).1)).resolve_left (hothersMem x hx).2
      refine .trans (flatMap_congr fun k' hk' => ?_) (ih hcons.2 hothersRest hsorted)
      have hne : k' ≠ k := fun heq => Nat.lt_irrefl _ (heq ▸ hcons.1 k' hk')
      rw [group, group, ← hothers, filter_filter]
      refine filter_congr fun x _ => ?_
      by_cases hx : key x = k'
      · simp [hx, hne]
      · simp [hx]
    calc ((k :: rest).flatMap fun k' => group key k' l)
        = l.filter (fun x => decide (key x = k)) ++ others := by rw [flatMap_cons, hrest, group]
      _ = l.filter (fun x => decide (key x = k)) ++ l.filter (fun x => !decide (key x = k)) := by rw [hothers]
      _ = l := filter_append_filter_not hfirst

lemma pairwise_flatMap_group (key : α → κ) (hkeys : keys.Pairwise fun k k' => rank k < rank k') (l : List α) :
    (keys.flatMap fun k => group key k l).Pairwise fun a b => rank (key a) ≤ rank (key b) := by
  refine pairwise_flatMap.2 ⟨fun k _ => ?_, hkeys.imp fun {k k'} hlt a ha b hb => ?_⟩
  · refine .imp_of_mem (fun {a b} ha hb _ => ?_) (pairwise_of_forall fun _ _ => trivial)
    exact Nat.le_of_eq (congrArg rank ((mem_group.1 ha).2.trans (mem_group.1 hb).2.symm))
  · rw [(mem_group.1 ha).2, (mem_group.1 hb).2]
    exact Nat.le_of_lt hlt

/-- Laying out the groups leaves a part of the list as it is exactly if that part is sorted. -/
lemma filter_flatMap_group_eq_iff (hkeys : keys.Pairwise fun k k' => rank k < rank k')
    {p : α → Bool} (hmem : ∀ x ∈ l, p x = true → key x ∈ keys) :
    (keys.flatMap fun k => group key k l).filter p = l.filter p ↔
      (l.filter p).Pairwise fun a b => rank (key a) ≤ rank (key b) := by
  constructor
  · intro heq
    rw [← heq]
    exact (pairwise_flatMap_group key hkeys l).filter p
  · intro hsorted
    have hcomm : (keys.flatMap fun k => group key k l).filter p = keys.flatMap fun k => group key k (l.filter p) := by
      rw [filter_flatMap]
      exact flatMap_congr fun k _ => filter_comm ..
    rw [hcomm]
    refine flatMap_group_of_sorted hkeys (fun x hx => ?_) hsorted
    exact hmem x (mem_filter.1 hx).1 (mem_filter.1 hx).2

end Groups

end MobilityNebula.Library
