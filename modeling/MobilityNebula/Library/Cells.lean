import Mathlib

/-!
# Cells — cutting a line at a set of boundaries

A set of boundaries cuts a linear order into cells: the cell of a point goes from the greatest boundary that
is not above the point to the least boundary above it.  Two points are in one cell iff they have the same
cell, so a cell is known by its end.  The boundaries used here are arithmetic progressions.
-/

namespace MobilityNebula.Library

universe u

/-! ## Cells of a linear order -/

section Cells

variable {α : Type u} [LinearOrder α] {B : Set α}

/-- The cell of `t` between the boundaries `B` is `[lo, hi)`. -/
structure IsCell (B : Set α) (t lo hi : α) : Prop where
  greatest : IsGreatest {b | b ∈ B ∧ b ≤ t} lo
  least : IsLeast {b | b ∈ B ∧ t < b} hi

namespace IsCell

variable {t t' lo hi lo' hi' b : α} (h : IsCell B t lo hi)
include h

lemma lo_le : lo ≤ t := h.greatest.1.2

lemma lt_hi : t < hi := h.least.1.2

lemma le_lo (hb : b ∈ B) (hle : b ≤ t) : b ≤ lo := h.greatest.2 ⟨hb, hle⟩

lemma hi_le (hb : b ∈ B) (hlt : t < b) : hi ≤ b := h.least.2 ⟨hb, hlt⟩

lemma of_mem (hlo : lo ≤ t') (hhi : t' < hi) : IsCell B t' lo hi := by
  refine ⟨⟨⟨h.greatest.1.1, hlo⟩, ?_⟩, ⟨⟨h.least.1.1, hhi⟩, ?_⟩⟩
  · rintro b ⟨hb, hle⟩
    rcases le_or_gt b t with hbt | htb
    · exact h.le_lo hb hbt
    · exact absurd (lt_of_le_of_lt hle hhi) (not_lt.2 (h.hi_le hb htb))
  · rintro b ⟨hb, hlt⟩
    rcases le_or_gt b t with hbt | htb
    · exact absurd (lt_of_le_of_lt hlo hlt) (not_lt.2 (h.le_lo hb hbt))
    · exact h.hi_le hb htb

lemma unique (h' : IsCell B t lo' hi') : lo = lo' ∧ hi = hi' :=
  ⟨h.greatest.unique h'.greatest, h.least.unique h'.least⟩

lemma lo_eq_of_hi_eq (h' : IsCell B t' lo' hi) : lo = lo' := by
  rcases le_total t t' with htt' | ht't
  · exact ((h.of_mem (h.lo_le.trans htt') h'.lt_hi).unique h').1
  · exact (h.unique (h'.of_mem (h'.lo_le.trans ht't) h.lt_hi)).1

end IsCell

end Cells

/-! ## Arithmetic progressions -/

/-- The numbers `c`, `c + d`, `c + 2 d`, … -/
def progression (c d : Nat) : Set Nat := {b | c ≤ b ∧ d ∣ b - c}

lemma mem_progression_iff {c d b : Nat} : b ∈ progression c d ↔ ∃ k, b = c + d * k := by
  constructor
  · rintro ⟨hle, k, hk⟩
    exact ⟨k, by omega⟩
  · rintro ⟨k, rfl⟩
    exact ⟨Nat.le_add_right _ _, k, by omega⟩

lemma isGreatest_progression {c d t : Nat} (hct : c ≤ t) :
    IsGreatest {b | b ∈ progression c d ∧ b ≤ t} (t - (t - c) % d) := by
  have hdiv : d * ((t - c) / d) + (t - c) % d = t - c := Nat.div_add_mod _ _
  refine ⟨⟨mem_progression_iff.2 ⟨(t - c) / d, by omega⟩, Nat.sub_le _ _⟩, ?_⟩
  rintro b ⟨hb, hbt⟩
  rcases mem_progression_iff.1 hb with ⟨k, rfl⟩
  have hk : d * k ≤ d * ((t - c) / d) := by
    rcases Nat.eq_zero_or_pos d with rfl | hd
    · simp
    · exact Nat.mul_le_mul_left d ((Nat.le_div_iff_mul_le hd).2 (by rw [Nat.mul_comm]; omega))
  omega

lemma isLeast_progression {c d t : Nat} (hd : 0 < d) (hct : c ≤ t) :
    IsLeast {b | b ∈ progression c d ∧ t < b} (t + d - (t - c) % d) := by
  have hdiv : d * ((t - c) / d) + (t - c) % d = t - c := Nat.div_add_mod _ _
  have hmod : (t - c) % d < d := Nat.mod_lt _ hd
  refine ⟨⟨mem_progression_iff.2 ⟨(t - c) / d + 1, by rw [Nat.mul_add, Nat.mul_one]; omega⟩, by omega⟩, ?_⟩
  rintro b ⟨hb, htb⟩
  rcases mem_progression_iff.1 hb with ⟨k, rfl⟩
  have hk : (t - c) / d + 1 ≤ k := (Nat.div_lt_iff_lt_mul hd).2 (by rw [Nat.mul_comm]; omega)
  have hmul : d * ((t - c) / d + 1) ≤ d * k := Nat.mul_le_mul_left d hk
  rw [Nat.mul_add, Nat.mul_one] at hmul
  omega

lemma isLeast_progression_of_lt {c d t : Nat} (htc : t < c) : IsLeast {b | b ∈ progression c d ∧ t < b} c := by
  refine ⟨⟨mem_progression_iff.2 ⟨0, by simp⟩, htc⟩, ?_⟩
  rintro b ⟨hb, _⟩
  exact hb.1

end MobilityNebula.Library
