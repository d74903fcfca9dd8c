import Mathlib.Tactic

/-!
# RingBuffer — logical indices in a ring that moves and doubles

A ring of `n` slots holds a window `[t, t + n)` of logical indices, each in the slot given by its
remainder modulo `n`.  Inside a window the slot determines the index.  When the ring doubles, the slots
of the indices that were already there must not change; `mod_two_mul_of_wrapped` gives the condition
under which they do not.
-/

namespace MobilityNebula.Library

variable {n t t₀ a b m : ℕ}

lemma eq_of_mod_eq_of_window (ha : t ≤ a) (ha' : a < t + n) (hb : t ≤ b) (hb' : b < t + n)
    (h : a % n = b % n) : a = b := by
  rcases le_total a b with hab | hba
  · have hdvd : n ∣ b - a := (Nat.modEq_iff_dvd' hab).1 h
    have hzero : b - a = 0 := Nat.eq_zero_of_dvd_of_lt hdvd (by omega)
    omega
  · have hdvd : n ∣ a - b := (Nat.modEq_iff_dvd' hba).1 h.symm
    have hzero : a - b = 0 := Nat.eq_zero_of_dvd_of_lt hdvd (by omega)
    omega

lemma exists_window_of_slot (hm : m < n) (t : ℕ) : ∃ b, t ≤ b ∧ b < t + n ∧ b % n = m := by
  have hpos : 0 < n := by omega
  have hlt : t % n < n := Nat.mod_lt t hpos
  -- move `t` up to the next index whose remainder is `m`
  refine ⟨t + (m + n - t % n) % n, by omega, ?_, ?_⟩
  · have hr := Nat.mod_lt (m + n - t % n) hpos
    omega
  · have hsum : t % n + (m + n - t % n) = m + n := by omega
    rw [Nat.add_mod, Nat.mod_mod, ← Nat.add_mod, Nat.add_mod, ← Nat.mod_add_mod, ← Nat.add_mod]
    rw [hsum, Nat.add_mod_right, Nat.mod_eq_of_lt hm]

/-- The window start moved from `t₀` to `t` and passed a multiple of `n`; if doubling keeps the slot of
`t`, it keeps the slot of every index of the old window that is still in the new one. -/
lemma mod_two_mul_of_wrapped (hm : t₀ ≤ m) (hmt : m < t) (hzero : m % n = 0)
    (htail : t % (2 * n) = t % n) (htb : t ≤ b) (hb : b < t₀ + n) : b % (2 * n) = b % n := by
  have hslot : ∀ c, m ≤ c → c < m + n → c % n = c - m := by
    intro c hmc hcm
    rcases Nat.dvd_of_mod_eq_zero hzero with ⟨q, rfl⟩
    have hc : c = n * q + (c - n * q) := by omega
    calc
      c % n = (n * q + (c - n * q)) % n := by rw [← hc]
      _ = (c - n * q) % n := by rw [Nat.mul_add_mod]
      _ = c - n * q := Nat.mod_eq_of_lt (by omega)
  -- the multiple of `n` that was passed is a multiple of `2 * n`
  have heven : m % (2 * n) = 0 := by
    rw [hslot t (by omega) (by omega)] at htail
    have hmod : t ≡ t - m [MOD 2 * n] := by
      rw [Nat.ModEq, htail, Nat.mod_eq_of_lt (by omega)]
    have hdvd : 2 * n ∣ t - (t - m) := (Nat.modEq_iff_dvd' (by omega)).1 hmod.symm
    have hsub : t - (t - m) = m := by omega
    exact Nat.mod_eq_zero_of_dvd (hsub ▸ hdvd)
  rcases Nat.dvd_of_mod_eq_zero heven with ⟨q, rfl⟩
  have hb2 : b = 2 * n * q + (b - 2 * n * q) := by omega
  calc
    b % (2 * n) = (2 * n * q + (b - 2 * n * q)) % (2 * n) := by rw [← hb2]
    _ = (b - 2 * n * q) % (2 * n) := by rw [Nat.mul_add_mod]
    _ = b - 2 * n * q := Nat.mod_eq_of_lt (by omega)
    _ = b % n := (hslot b (by omega) (by omega)).symm

end MobilityNebula.Library
