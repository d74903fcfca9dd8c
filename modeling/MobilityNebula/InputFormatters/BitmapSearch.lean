import MobilityNebula.InputFormatters.SequenceShredder

/-!
# BitmapSearch — what the four bit searches of the shredder return

The searches are described by the bits they read, with no reference to how the ring got there.  Each
lemma names the bit at which the search stops and gives the whole result, so that no caller unfolds a
search again.
-/

namespace MobilityNebula.InputFormatters

open Library Option

/-! ## Index arithmetic -/

variable (x : Nat)

lemma shiftRight_bitmapSizeBitShift : x >>> bitmapSizeBitShift = x / 64 := by
  simp [bitmapSizeBitShift, Nat.shiftRight_eq_div_pow]

lemma shiftLeft_bitmapSizeBitShift : x <<< bitmapSizeBitShift = x * 64 := by
  simp [bitmapSizeBitShift, Nat.shiftLeft_eq]

lemma and_bitmapSizeModulo : x &&& bitmapSizeModulo = x % 64 := by
  have h := Nat.and_two_pow_sub_one_eq_mod x 6
  simpa [bitmapSizeModulo, sizeOfBitmapInBits] using h

lemma SequenceShredder.isInRange_iff {s : SequenceShredder} {sequenceNumber : Nat} :
    (s.isInRange sequenceNumber).2 = true ↔ sequenceNumber / 64 < s.tail + s.numberOfBitmaps := by
  rw [isInRange, shiftRight_bitmapSizeBitShift]
  by_cases hlt : sequenceNumber / 64 < s.tail + s.numberOfBitmaps
  · simp [hlt]
  · simp [hlt]

/-- The number of bitmaps is a power of two that fits a machine word, which is what makes
`& (n - 1)` the remainder modulo `n`. -/
structure IsRingSize (n : Nat) : Prop where
  isPow : ∃ k, k ≤ 58 ∧ n = 2 ^ k

namespace IsRingSize

variable {n : Nat} (h : IsRingSize n)
include h

lemma pos : 0 < n := by
  rcases h.isPow with ⟨k, _, rfl⟩
  exact Nat.two_pow_pos k

lemma and_sub_one : x &&& (n - 1) = x % n := by
  rcases h.isPow with ⟨k, _, rfl⟩
  exact Nat.and_two_pow_sub_one_eq_mod x k

lemma and_mul_sub_one : x &&& (n * 64 - 1) = x % (n * 64) := by
  rcases h.isPow with ⟨k, _, rfl⟩
  have hpow : 2 ^ k * 64 = 2 ^ (k + 6) := by
    rw [pow_add]
    norm_num
  rw [hpow]
  exact Nat.and_two_pow_sub_one_eq_mod x (k + 6)

lemma dvd_word : n ∣ 2 ^ 64 := by
  rcases h.isPow with ⟨k, hk, rfl⟩
  exact pow_dvd_pow 2 (by omega)

lemma le_word : n ≤ 2 ^ 64 :=
  Nat.le_of_dvd (by positivity) h.dvd_word

lemma two_mul (hmax : 2 * n ≤ maxNumberOfBitmaps) : IsRingSize (2 * n) := by
  rcases h.isPow with ⟨k, _, hk⟩
  refine ⟨k + 1, ?_, by rw [hk, pow_succ]; omega⟩
  by_contra hbig
  have hpow : 2 ^ 58 ≤ 2 ^ k := Nat.pow_le_pow_right (by omega) (by omega)
  rw [hk, maxNumberOfBitmaps] at hmax
  omega

/-- Stepping down from bitmap `b` in the ring, as the source computes it on unsigned words. -/
lemma lowerIndex {b offset : Nat} (hb : offset ≤ b) (hn : offset ≤ n) :
    (b % n + 2 ^ 64 - offset) % 2 ^ 64 &&& (n - 1) = (b - offset) % n := by
  rw [h.and_sub_one, Nat.mod_mod_of_dvd _ h.dvd_word]
  have hle := h.le_word
  rcases h.dvd_word with ⟨c, hc⟩
  -- both sides leave the same remainder once the offset is added back
  have hmod : (b % n + 2 ^ 64 - offset + offset) % n = (b - offset + offset) % n := by
    rw [Nat.sub_add_cancel (by omega), Nat.sub_add_cancel hb, hc]
    simp
  exact Nat.ModEq.add_right_cancel' offset hmod

lemma higherIndex (b offset : Nat) : (b % n + offset) &&& (n - 1) = (b + offset) % n := by
  rw [h.and_sub_one, Nat.mod_add_mod]

end IsRingSize

/-! ## Searching one bitmap -/

lemma tryGetSpanningTupleStart_eq {i j offset : Nat} {td su : Bitmap} (hj : j < i) (hi : i < 64)
    (hzero : su.getLsbD j = false) (hones : ∀ q, j < q → q < i → su.getLsbD q = true) :
    tryGetSpanningTupleStart i offset td su = some (offset + j, td.getLsbD j) := by
  have hbit : ∀ q, q < i → (su <<< (64 - i)).getLsbD (63 - q) = su.getLsbD (i - 1 - q) := by
    intro q hq
    rw [BitVec.getLsbD_shiftLeft]
    have hidx : 63 - q - (64 - i) = i - 1 - q := by omega
    have hlow : ¬ 63 - q < 64 - i := by omega
    have hword : 63 - q < 64 := by omega
    simp [hidx, hlow, hword]
  have hcount : countlOne (su <<< (64 - i)) = i - 1 - j := by
    refine countOnes_eq (by omega) ?_ ?_
    · intro q hq
      rw [hbit q (by omega)]
      exact hones _ (by omega) (by omega)
    · rw [hbit _ (by omega)]
      have hidx : i - 1 - (i - 1 - j) = j := by omega
      rw [hidx, hzero]
  have hshift : 64 - i < 64 := by omega
  have hle : i - 1 - j + 1 ≤ i := by omega
  have hindex : i - (i - 1 - j + 1) = j := by omega
  have hj64 : j < 64 := by omega
  simp only [tryGetSpanningTupleStart, shiftLeft?, sub?, sizeOfBitmapInBits, firstBitMask, hshift,
    if_true, bind_eq_bind, bind_some, hcount, hle, hindex, hj64,
    one_shiftLeft_and_ne_zero hj64]

lemma tryGetSpanningTupleEnd_eq {i j offset : Nat} {td su : Bitmap} (hij : i < j) (hj : j < 64)
    (hstop : (su &&& ~~~td).getLsbD j = false) (hones : ∀ q, i < q → q < j → (su &&& ~~~td).getLsbD q = true) :
    tryGetSpanningTupleEnd i offset td su = some (offset + j, td.getLsbD j) := by
  have hcount : countrOne ((su &&& ~~~td) >>> (i + 1)) = j - (i + 1) := by
    refine countOnes_eq (by omega) ?_ ?_
    · intro q hq
      rw [BitVec.getLsbD_ushiftRight]
      exact hones _ (by omega) (by omega)
    · rw [BitVec.getLsbD_ushiftRight]
      have hidx : i + 1 + (j - (i + 1)) = j := by omega
      rw [hidx, hstop]
  have hshift : i + 1 < 64 := by omega
  have hindex : i + (j - (i + 1) + 1) = j := by omega
  simp only [tryGetSpanningTupleEnd, shiftRight?, shiftLeft?, sizeOfBitmapInBits, firstBitMask,
    hshift, if_true, bind_eq_bind, bind_some, hcount, hindex, hj,
    one_shiftLeft_and_ne_zero hj]

/-! ## Searching other bitmaps -/

section

variable {snapshot : BitmapVectorSnapshot}

/-- The loop goes on to offset `d` through the bitmaps that `index` names. -/
lemma skipBitmaps_steps {next index : Nat → Nat} {d fuel offset : Nat} (hd : offset < d) (hfuel : d ≤ offset + fuel)
    (hindex : ∀ i, i ≤ d → next i = index i)
    (hskip : ∀ i, offset < i → i < d → allBuffersSeenButNoDelimiter snapshot (index i) = true)
    (hstop : allBuffersSeenButNoDelimiter snapshot (index d) = false) :
    skipBitmaps snapshot next fuel offset = some (index d, d) := by
  induction fuel generalizing offset with
  | zero => omega
  | succ fuel ih =>
    simp only [skipBitmaps, hindex (offset + 1) hd]
    rcases Nat.lt_or_eq_of_le hd with hlt | rfl
    · rw [if_pos (hskip (offset + 1) (Nat.lt_succ_self offset) hlt)]
      exact ih hlt (by omega) fun i hi => hskip i (by omega)
    · simp [hstop]

lemma allBuffersSeenButNoDelimiter_eq_true_iff {i : Nat} : allBuffersSeenButNoDelimiter snapshot i = true ↔
      ∀ q, q < 64 → (snapshot.seenAndUsedVectorSnapshot i).getLsbD q = true ∧
        (snapshot.tupleDelimiterVectorSnapshot i).getLsbD q = false := by
  rw [allBuffersSeenButNoDelimiter, Bool.and_eq_true, decide_eq_true_eq, decide_eq_true_eq, maxValue,
    eq_allOnes_iff, eq_zero_iff_bits]
  constructor
  · rintro ⟨hsu, htd⟩ q hq
    exact ⟨hsu q hq, htd q hq⟩
  · intro h
    exact ⟨fun q hq => (h q hq).1, fun q hq => (h q hq).2⟩

end

lemma tryToFindLowerWrappingSpanningTuple_eq {n b b' j : Nat} {snapshot : BitmapVectorSnapshot}
    (hn : IsRingSize n) (hmod : snapshot.numberOfBitmapsModulo = n - 1) (hb : b' < b) (hnear : b - b' ≤ n) (hj : j < 64)
    (hskip : ∀ c, b' < c → c < b → allBuffersSeenButNoDelimiter snapshot (c % n) = true)
    (hzero : (snapshot.seenAndUsedVectorSnapshot (b' % n)).getLsbD j = false)
    (hones : ∀ q, j < q → q < 64 → (snapshot.seenAndUsedVectorSnapshot (b' % n)).getLsbD q = true) :
    tryToFindLowerWrappingSpanningTuple (b * 64) (b % n) snapshot
      = some (b' * 64 + j, (snapshot.tupleDelimiterVectorSnapshot (b' % n)).getLsbD j) := by
  have hpos := hn.pos
  have hlast : b - (b - b') = b' := by omega
  have hloop := @skipBitmaps_steps snapshot
    (fun offset => (b % n + 2 ^ 64 - offset) % 2 ^ 64 &&& snapshot.numberOfBitmapsModulo) (fun i => (b - i) % n)
    (b - b') (snapshot.numberOfBitmapsModulo + 1) 0 (by omega) (by omega)
    (fun i hi => by
      rw [hmod]
      exact hn.lowerIndex (by omega) (by omega))
    (fun i hpos hi => hskip (b - i) (by omega) (by omega))
    (by
      rw [hlast, Bool.eq_false_iff]
      intro hall
      exact absurd ((allBuffersSeenButNoDelimiter_eq_true_iff.1 hall j hj).1) (by simp [hzero]))
  have hcount : countlOne (snapshot.seenAndUsedVectorSnapshot (b' % n)) = 63 - j := by
    refine countOnes_eq (by omega) ?_ ?_
    · intro q hq
      exact hones _ (by omega) (by omega)
    · rw [show 63 - (63 - j) = j by omega, hzero]
  have hpot : 63 - j + 1 ≤ 64 := by omega
  have hstart : 64 - (63 - j + 1) = j := by omega
  have hoff : (b - b') * 64 ≤ b * 64 := by omega
  have hfirst : b * 64 - (b - b') * 64 = b' * 64 := by omega
  simp only [tryToFindLowerWrappingSpanningTuple, hloop, bind_eq_bind, bind_some,
    hlast, hcount, sub?, sizeOfBitmapInBits, hpot, if_true, hstart, shiftLeft_bitmapSizeBitShift,
    hoff, hfirst, shiftLeft?, hj, firstBitMask, one_shiftLeft_and_ne_zero hj]

lemma tryToFindHigherWrappingSpanningTuple_eq {n b b' j : Nat} {snapshot : BitmapVectorSnapshot}
    (hn : IsRingSize n) (hmod : snapshot.numberOfBitmapsModulo = n - 1) (hb : b < b') (hnear : b' - b ≤ n) (hj : j < 64)
    (hskip : ∀ c, b < c → c < b' → allBuffersSeenButNoDelimiter snapshot (c % n) = true)
    (hstop : (snapshot.seenAndUsedVectorSnapshot (b' % n)
      &&& ~~~(snapshot.tupleDelimiterVectorSnapshot (b' % n))).getLsbD j = false)
    (hones : ∀ q, q < j → (snapshot.seenAndUsedVectorSnapshot (b' % n)
      &&& ~~~(snapshot.tupleDelimiterVectorSnapshot (b' % n))).getLsbD q = true) :
    tryToFindHigherWrappingSpanningTuple (b * 64) (b % n) snapshot
      = some (b' * 64 + j, (snapshot.tupleDelimiterVectorSnapshot (b' % n)).getLsbD j
          && decide (b' % n ≠ snapshot.tail % n)) := by
  have hpos := hn.pos
  have hlast : b + (b' - b) = b' := by omega
  have hloop := @skipBitmaps_steps snapshot
    (fun offset => (b % n + offset) &&& snapshot.numberOfBitmapsModulo) (fun i => (b + i) % n)
    (b' - b) (snapshot.numberOfBitmapsModulo + 1) 0 (by omega) (by omega)
    (fun i _ => hmod ▸ hn.higherIndex b i)
    (fun i hpos hi => hskip (b + i) (by omega) (by omega))
    (by
      rw [hlast, Bool.eq_false_iff]
      intro hall
      rcases allBuffersSeenButNoDelimiter_eq_true_iff.1 hall j hj with ⟨hsu, htd⟩
      rw [BitVec.getLsbD_and, BitVec.getLsbD_not, hsu, htd] at hstop
      simp [hj] at hstop)
  have hcount : countrOne (snapshot.seenAndUsedVectorSnapshot (b' % n)
      &&& ~~~(snapshot.tupleDelimiterVectorSnapshot (b' % n))) = j :=
    countOnes_eq hj hones hstop
  have htail : snapshot.tail &&& snapshot.numberOfBitmapsModulo = snapshot.tail % n := by
    rw [hmod]
    exact hn.and_sub_one _
  have hfirst : b * 64 + (b' - b) * 64 = b' * 64 := by omega
  simp only [tryToFindHigherWrappingSpanningTuple, hloop, bind_eq_bind, bind_some,
    hlast, hcount, shiftLeft?, sizeOfBitmapInBits, hj, if_true, firstBitMask,
    one_shiftLeft_and_ne_zero hj, htail, shiftLeft_bitmapSizeBitShift, hfirst]

end MobilityNebula.InputFormatters
