import Mathlib.Data.Nat.Find

/-!
# InitialSegments — numberings without gaps

A set of numbers is gapless if it is `1, …, M` for some `M`.  For a bounded set of positive numbers that
is the case exactly if with every number it has all smaller ones.  A set with gaps still has a longest
gapless beginning (`IsLongestPrefix`).  The same for lists: a downwards closed part of a sorted list is a
beginning of it (`isPrefix_of_closed`).
-/

namespace MobilityNebula.Library

open List

variable {P Q : ℕ → Prop}

/-- The numbers with property `P` are `1, …, M` for some `M`. -/
def IsInitialSegment (P : ℕ → Prop) : Prop := ∃ M, ∀ n, P n ↔ 1 ≤ n ∧ n ≤ M

lemma IsInitialSegment.congr (h : IsInitialSegment P) (hPQ : ∀ n, P n ↔ Q n) : IsInitialSegment Q := by
  rcases h with ⟨M, hM⟩
  exact ⟨M, fun n => (hPQ n).symm.trans (hM n)⟩

lemma isInitialSegment_congr (hPQ : ∀ n, P n ↔ Q n) : IsInitialSegment P ↔ IsInitialSegment Q :=
  ⟨fun h => h.congr hPQ, fun h => h.congr fun n => (hPQ n).symm⟩

lemma isInitialSegment_iff [DecidablePred P] {B : ℕ} (hpos : ∀ n, P n → 1 ≤ n) (hbound : ∀ n, P n → n ≤ B) :
    IsInitialSegment P ↔ ∀ n, P n → ∀ x, 1 ≤ x → x < n → P x := by
  constructor
  · rintro ⟨M, hM⟩ n hn x hx hxn
    have hle := ((hM n).1 hn).2
    exact (hM x).2 ⟨hx, le_trans (le_of_lt hxn) hle⟩
  · intro hclosed
    refine ⟨Nat.findGreatest P B, fun n => ⟨fun hn => ⟨hpos n hn, ?_⟩, ?_⟩⟩
    · exact Nat.le_findGreatest (hbound n hn) hn
    · rintro ⟨hn, hle⟩
      -- the greatest number has the property, since there is one at least as large as `n`
      have hgreatest : P (Nat.findGreatest P B) :=
        Nat.findGreatest_of_ne_zero rfl (Nat.ne_of_gt (lt_of_lt_of_le hn hle))
      rcases Nat.eq_or_lt_of_le hle with heq | hlt
      · rw [heq]
        exact hgreatest
      · exact hclosed _ hgreatest n hn hlt

/-! ## The longest gapless beginning -/

/-- All of `1, …, p` have property `P`, and `p + 1` does not. -/
structure IsLongestPrefix (P : ℕ → Prop) (p : ℕ) : Prop where
  all : ∀ s, 1 ≤ s → s ≤ p → P s
  stops : ¬ P (p + 1)

lemma IsLongestPrefix.unique {p q : ℕ} (hp : IsLongestPrefix P p) (hq : IsLongestPrefix P q) : p = q := by
  rcases lt_trichotomy p q with hlt | heq | hgt
  · exact absurd (hq.all (p + 1) (Nat.le_add_left 1 p) hlt) hp.stops
  · exact heq
  · exact absurd (hp.all (q + 1) (Nat.le_add_left 1 q) hgt) hq.stops

lemma IsLongestPrefix.mono {p q : ℕ} (hp : IsLongestPrefix P p) (hq : IsLongestPrefix Q q)
    (hPQ : ∀ n, P n → Q n) : p ≤ q := by
  by_contra hlt
  exact hq.stops (hPQ _ (hp.all (q + 1) (Nat.le_add_left 1 q) (Nat.lt_of_not_le hlt)))

/-! ## Beginnings of sorted lists -/

section Lists

universe u

variable {α : Type u} {R : α → α → Prop}

/-- A sorted list whose elements are a downwards closed part of another sorted list is a beginning of it. -/
lemma isPrefix_of_closed (hasymm : ∀ x y, R x y → ¬ R y x) {l m : List α} (hl : l.Pairwise R) (hm : m.Pairwise R)
    (hsubset : ∀ x ∈ m, x ∈ l) (hclosed : ∀ x ∈ m, ∀ y ∈ l, R y x → y ∈ m) : m <+: l := by
  induction l generalizing m with
  | nil =>
    have hnil : m = [] := eq_nil_iff_forall_not_mem.2 fun x hx => not_mem_nil (hsubset x hx)
    exact hnil ▸ nil_prefix
  | cons a l ih =>
    cases m with
    | nil => exact nil_prefix
    | cons b m =>
      have hl' := pairwise_cons.1 hl
      have hm' := pairwise_cons.1 hm
      -- the first element of the whole list is the first one of the part
      have heq : b = a := by
        rcases mem_cons.1 (hsubset b mem_cons_self) with heq | hmem
        · exact heq
        · rcases mem_cons.1 (hclosed b mem_cons_self a mem_cons_self (hl'.1 b hmem)) with heq | hmem'
          · exact heq.symm
          · exact absurd (hl'.1 b hmem) (hasymm _ _ (hm'.1 a hmem'))
      subst heq
      have hirrefl : ∀ x, ¬ R x x := fun x h => hasymm x x h h
      refine cons_prefix_cons.2 ⟨rfl, ih hl'.2 hm'.2 (fun x hx => ?_) fun x hx y hy hyx => ?_⟩
      · refine (mem_cons.1 (hsubset x (mem_cons_of_mem _ hx))).resolve_left fun hxb => ?_
        exact hirrefl x (by simpa [hxb] using hm'.1 x hx)
      · have hmem := hclosed x (mem_cons_of_mem _ hx) y (mem_cons_of_mem _ hy) hyx
        refine (mem_cons.1 hmem).resolve_left fun hyb => ?_
        exact hirrefl y (by simpa [hyb] using hl'.1 y hy)

end Lists

end MobilityNebula.Library
