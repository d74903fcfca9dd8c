import Mathlib.Data.Nat.Bitwise

/-!
# Bits — counting and testing bits of a 64-bit word

The counting functions of the C++ `<bit>` header together with the facts that turn word-level tests
(`mask | w == w`, `bit & w`, `w == ~0`) into statements about single bits.
-/

namespace MobilityNebula.Library

/-! ## Counting -/

/-- The number of leading `true`s among `f 0, …, f (n - 1)`. -/
def countOnes (f : Nat → Bool) : Nat → Nat
  | 0 => 0
  | n + 1 => if f 0 then countOnes (fun i => f (i + 1)) n + 1 else 0

/-- `std::countl_one`: ones from the most significant bit on. -/
def countlOne (x : BitVec 64) : Nat := countOnes (fun i => x.getLsbD (63 - i)) 64

/-- `std::countr_one`: ones from the least significant bit on. -/
def countrOne (x : BitVec 64) : Nat := countOnes x.getLsbD 64

/-- `std::countl_zero`. -/
def countlZero (x : BitVec 64) : Nat := countlOne (~~~x)

variable {f : Nat → Bool}

lemma countOnes_get {n i : Nat} (h : i < countOnes f n) : f i = true := by
  induction n generalizing f i with
  | zero => simp [countOnes] at h
  | succ n ih =>
    by_cases h0 : f 0
    · cases i with
      | zero => exact h0
      | succ i =>
        simp only [countOnes, h0, if_true] at h
        exact ih (f := fun i => f (i + 1)) (by omega)
    · simp [countOnes, h0] at h

lemma countOnes_stop {n : Nat} (h : countOnes f n < n) : f (countOnes f n) = false := by
  induction n generalizing f with
  | zero => simp [countOnes] at h
  | succ n ih =>
    by_cases h0 : f 0
    · simp only [countOnes, h0, if_true] at h ⊢
      exact ih (f := fun i => f (i + 1)) (by omega)
    · simp only [countOnes, h0]
      simpa using h0

lemma countOnes_eq {n k : Nat} (hk : k < n) (hones : ∀ i, i < k → f i = true)
    (hstop : f k = false) : countOnes f n = k := by
  rcases lt_trichotomy (countOnes f n) k with hlt | heq | hgt
  · have hzero := countOnes_stop (lt_trans hlt hk)
    rw [hones _ hlt] at hzero
    cases hzero
  · exact heq
  · have hone := countOnes_get hgt
    rw [hstop] at hone
    cases hone

/-! ## Testing -/

section

variable {i : Nat} (hi : i < 64)
include hi

lemma getLsbD_one_shiftLeft (j : Nat) : (1#64 <<< i).getLsbD j = decide (j = i) := by
  rw [Bool.eq_iff_iff]
  simp only [BitVec.getLsbD_shiftLeft, BitVec.getLsbD_one, Bool.and_eq_true, Bool.not_eq_true',
    decide_eq_true_eq, decide_eq_false_iff_not]
  omega

lemma one_shiftLeft_and_ne_zero (w : BitVec 64) : decide ((1#64 <<< i) &&& w ≠ 0#64) = w.getLsbD i := by
  rw [Bool.eq_iff_iff, decide_eq_true_eq]
  constructor
  · intro hne
    by_contra hbit
    apply hne
    apply BitVec.eq_of_getLsbD_eq
    intro j hj
    rw [BitVec.getLsbD_and, getLsbD_one_shiftLeft hi, BitVec.getLsbD_zero]
    by_cases hji : j = i
    · subst hji
      simpa using hbit
    · simp [hji]
  · intro hbit hzero
    have hget := congrArg (fun v => v.getLsbD i) hzero
    simp only [BitVec.getLsbD_and, getLsbD_one_shiftLeft hi, BitVec.getLsbD_zero, hbit] at hget
    simp at hget

lemma getLsbD_lowerMask (j : Nat) : ((1#64 <<< i) - 1#64).getLsbD j = decide (j < i) := by
  have hpow : 2 ^ i < 2 ^ 64 := Nat.pow_lt_pow_right (by omega) hi
  have hpos : 0 < 2 ^ i := Nat.two_pow_pos i
  have hnat : ((1#64 <<< i) - 1#64).toNat = 2 ^ i - 1 := by
    have hshift : (1#64 <<< i).toNat = 2 ^ i := by
      rw [BitVec.toNat_shiftLeft, Nat.shiftLeft_eq]
      simpa using hpow
    rw [BitVec.toNat_sub, hshift]
    simp only [BitVec.toNat_ofNat]
    omega
  rw [← BitVec.testBit_toNat, hnat, Nat.testBit_two_pow_sub_one]

lemma getLsbD_higherMask (j : Nat) : (BitVec.allOnes 64 ^^^ (((1#64 <<< i) - 1#64) ||| (1#64 <<< i))).getLsbD j
      = (decide (i < j) && decide (j < 64)) := by
  rw [BitVec.getLsbD_xor, BitVec.getLsbD_or, getLsbD_lowerMask hi, getLsbD_one_shiftLeft hi, BitVec.getLsbD_allOnes]
  by_cases h64 : j < 64
  · rcases lt_trichotomy j i with hlt | heq | hgt
    · have hni : ¬ i < j := by omega
      simp [h64, hlt, hni]
    · subst heq
      simp [h64]
    · have hni : ¬ j < i := by omega
      have hne : j ≠ i := by omega
      simp [h64, hgt, hni, hne]
  · have hni : ¬ j < i := by omega
    have hne : j ≠ i := by omega
    simp [h64, hni, hne]

end

lemma getLsbD_or_xor (a b : BitVec 64) (i : Nat) : ((a ||| b) ^^^ a).getLsbD i = (b.getLsbD i && !a.getLsbD i) := by
  rw [BitVec.getLsbD_xor, BitVec.getLsbD_or]
  cases a.getLsbD i with
  | true => simp
  | false => simp

lemma or_eq_right_iff (mask w : BitVec 64) : mask ||| w = w ↔ ∀ i, mask.getLsbD i = true → w.getLsbD i = true := by
  constructor
  · intro h i hi
    rw [← h, BitVec.getLsbD_or, hi, Bool.true_or]
  · intro h
    apply BitVec.eq_of_getLsbD_eq
    intro i _
    rw [BitVec.getLsbD_or]
    cases hm : mask.getLsbD i with
    | false => simp
    | true => simp [h i hm]

lemma eq_allOnes_iff (w : BitVec 64) : w = BitVec.allOnes 64 ↔ ∀ i, i < 64 → w.getLsbD i = true := by
  constructor
  · intro h i hi
    rw [h, BitVec.getLsbD_allOnes]
    simpa using hi
  · intro h
    apply BitVec.eq_of_getLsbD_eq
    intro i hi
    rw [h i hi, BitVec.getLsbD_allOnes]
    simpa using hi

lemma eq_zero_iff_bits (w : BitVec 64) : w = 0#64 ↔ ∀ i, i < 64 → w.getLsbD i = false := by
  constructor
  · intro h i _
    rw [h, BitVec.getLsbD_zero]
  · intro h
    apply BitVec.eq_of_getLsbD_eq
    intro i hi
    rw [h i hi, BitVec.getLsbD_zero]

end MobilityNebula.Library
