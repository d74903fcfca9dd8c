import MobilityNebula.InputFormatters.BitmapRing

/-!
# SpanSearch — the search on the snapshot finds the spans the arrival completes

The snapshot is taken in the locked section that sets the bit of the new sequence number `x`, so it
represents the arrivals `x :: seen`.  `findSpanningTuple_spec` says what the four wrapping modes find in
terms of `StartOf` and `EndOf`, that is, in terms of what `x` can reach over buffers without a delimiter.

The two modes that look into higher bitmaps ask whether the *number* of the start is nonzero where they
should ask whether the start is *valid*.  A span that starts at position 0 is therefore missed when its
end is in a higher bitmap and `x` itself has no delimiter; `SearchSpec.both` records exactly that.
-/

namespace MobilityNebula.InputFormatters

open Library SequenceShredder List Option

/-- What the search returns for the arrival `x`. -/
structure SearchSpec (mark : Nat → Prop) (seen : List Nat) (x : Nat) (hasTupleDelimiter : Bool)
    (found : SpanningTuple) : Prop where
  startOf : found.isStartValid = true → StartOf mark seen x found.spanStart
  endOf : found.isEndValid = true → EndOf mark seen x found.spanEnd
  start : hasTupleDelimiter = true → ∀ d, StartOf mark seen x d → found.isStartValid = true
  stop : hasTupleDelimiter = true → ∀ e, EndOf mark seen x e → found.isEndValid = true
  both : hasTupleDelimiter = false → ∀ d e, StartOf mark seen x d → EndOf mark seen x e →
    ((found.isStartValid = true ∧ found.isEndValid = true) ↔ (d ≠ 0 ∨ x / 64 = e / 64))

@[simps]
def SequenceShredder.vectorSnapshot (s : SequenceShredder) : BitmapVectorSnapshot where
  tail := s.tail
  numberOfBitmapsModulo := s.numberOfBitmapsModulo
  tupleDelimiterVectorSnapshot := s.tupleDelimiterBitmaps
  seenAndUsedVectorSnapshot := s.seenAndUsedBitmaps

section OnlySeen

variable {mark : Nat → Prop} {seen : List Nat} {used : Nat → Prop} {s : SequenceShredder} {p b : Nat}

variable (h : RingBits mark seen used s)
include h

lemma RingBits.onlySeen_iff (hp : s.InRing p) : (ringBit s.seenAndUsedBitmaps s.numberOfBitmaps p = true ∧
      ringBit s.tupleDelimiterBitmaps s.numberOfBitmaps p = false) ↔ p ∈ seen ∧ ¬ mark p := by
  constructor
  · rintro ⟨hsu, htd⟩
    have hdone := (h.done p hp).1 hsu
    refine ⟨hdone.1, fun hm => ?_⟩
    have hbit := (h.delimiter p hp).2 ⟨hdone.1, hm⟩
    rw [htd] at hbit
    cases hbit
  · rintro ⟨hseen, hmark⟩
    exact ⟨(h.done p hp).2 (done_of_not_mark hseen hmark), h.delimiter_eq_false hp fun hm => hmark hm.2⟩

lemma RingBits.onlySeen_getLsbD (hp : s.InRing p) (hp' : p ∈ seen ∧ ¬ mark p) :
    (s.seenAndUsedBitmaps (p / 64 % s.numberOfBitmaps)
      &&& ~~~(s.tupleDelimiterBitmaps (p / 64 % s.numberOfBitmaps))).getLsbD (p % 64) = true := by
  rcases (h.onlySeen_iff hp).2 hp' with ⟨hsu, htd⟩
  have hlt : p % 64 < 64 := Nat.mod_lt _ (by omega)
  simp only [ringBit] at hsu htd
  rw [BitVec.getLsbD_and, BitVec.getLsbD_not, hsu, htd]
  simp [hlt]

lemma RingBits.onlySeen_getLsbD_eq_false (hp : s.InRing p) (hp' : ¬ (p ∈ seen ∧ ¬ mark p)) :
    (s.seenAndUsedBitmaps (p / 64 % s.numberOfBitmaps)
      &&& ~~~(s.tupleDelimiterBitmaps (p / 64 % s.numberOfBitmaps))).getLsbD (p % 64) = false := by
  rw [Bool.eq_false_iff]
  intro hbit
  rw [BitVec.getLsbD_and, BitVec.getLsbD_not, Bool.and_eq_true, Bool.and_eq_true, Bool.not_eq_true'] at hbit
  exact hp' ((h.onlySeen_iff hp).1 ⟨hbit.1, hbit.2.2⟩)

lemma RingBits.allBuffersSeenButNoDelimiter_of (hb : s.tail ≤ b)
    (hb' : b < s.tail + s.numberOfBitmaps) (hall : ∀ p, p / 64 = b → p ∈ seen ∧ ¬ mark p) :
    allBuffersSeenButNoDelimiter s.vectorSnapshot (b % s.numberOfBitmaps) = true := by
  rw [allBuffersSeenButNoDelimiter_eq_true_iff]
  intro q hq
  have hring : s.InRing (b * 64 + q) := ⟨by omega, by omega⟩
  have hbits := (h.onlySeen_iff hring).2 (hall (b * 64 + q) (by omega))
  rwa [ringBit_mul_add b hq, ringBit_mul_add b hq] at hbits

end OnlySeen

/-! ## Where the searches stop -/

section Search

variable {mark : Nat → Prop} {seen : List Nat} {used : Nat → Prop} {s : SequenceShredder}
  {x j e : Nat}

/-- `j` is where the walk down from `x` stops. -/
structure StopBelow (mark : Nat → Prop) (seen : List Nat) (used : Nat → Prop) (x j : Nat) : Prop where
  lt : j < x
  isOpen : ¬ Done mark seen used j
  between : ∀ p, j < p → p < x → p ∈ seen ∧ ¬ mark p

/-- `e` is where the walk up from `x` stops. -/
structure StopAbove (mark : Nat → Prop) (seen : List Nat) (x e : Nat) : Prop where
  lt : x < e
  isStop : ¬ (e ∈ seen ∧ ¬ mark e)
  between : ∀ p, x < p → p < e → p ∈ seen ∧ ¬ mark p

lemma StopBelow.mem_cons (hj : StopBelow mark seen used x j) : ∀ p, j < p → p < x → p ∈ x :: seen ∧ ¬ mark p :=
  fun p hp hpx => ⟨mem_cons_of_mem x (hj.between p hp hpx).1, (hj.between p hp hpx).2⟩

lemma StopAbove.mem_cons (he : StopAbove mark seen x e) : ∀ p, x < p → p < e → p ∈ x :: seen ∧ ¬ mark p :=
  fun p hp hpe => ⟨mem_cons_of_mem x (he.between p hp hpe).1, (he.between p hp hpe).2⟩

lemma StopBelow.not_done_cons (hj : StopBelow mark seen used x j) : ¬ Done mark (x :: seen) used j := by
  rw [done_cons_iff (Nat.ne_of_lt hj.lt)]
  exact hj.isOpen

lemma StopAbove.isStop_cons (he : StopAbove mark seen x e) : ¬ (e ∈ x :: seen ∧ ¬ mark e) := by
  rintro ⟨hmem, hmark⟩
  rcases List.mem_cons.1 hmem with heq | hseen
  · exact absurd heq (Nat.ne_of_gt he.lt)
  · exact he.isStop ⟨hseen, hmark⟩

/-! ## Walking down -/

section Below

variable (h : RingBits mark (x :: seen) used s) (hj : StopBelow mark seen used x j)
include h hj

/-- The walk down does not leave the ring: behind the tail everything is done. -/
lemma StopBelow.inRing : s.InRing j := by
  have hx := h.ahead x mem_cons_self
  have hlt := hj.lt
  refine ⟨?_, by omega⟩
  by_contra hlow
  exact hj.not_done_cons (h.behind j (by omega))

lemma StopBelow.delimiter_iff : ringBit s.tupleDelimiterBitmaps s.numberOfBitmaps j = true ↔ StartOf mark seen x j := by
  rw [h.delimiter j (hj.inRing h), startOf_iff_of_not_done hj.lt hj.isOpen hj.between]
  have hne : j ≠ x := Nat.ne_of_lt hj.lt
  simp [hne]

lemma StopBelow.tryGetSpanningTupleStart (hsame : j / 64 = x / 64) : tryGetSpanningTupleStart (x % 64) (x / 64 * 64)
        (s.tupleDelimiterBitmaps (x / 64 % s.numberOfBitmaps)) (s.seenAndUsedBitmaps (x / 64 % s.numberOfBitmaps))
      = some (j, ringBit s.tupleDelimiterBitmaps s.numberOfBitmaps j) := by
  have hring := hj.inRing h
  have hlt := hj.lt
  have hzero := h.done_eq_false hring hj.not_done_cons
  simp only [ringBit, hsame] at hzero
  have hresult := @tryGetSpanningTupleStart_eq (x % 64) (j % 64) (x / 64 * 64)
    (s.tupleDelimiterBitmaps (x / 64 % s.numberOfBitmaps)) _ (by omega)
    (Nat.mod_lt _ (by omega)) hzero (by
      intro q hq hqx
      have hp := hj.mem_cons (x / 64 * 64 + q) (by omega) (by omega)
      have hin : s.InRing (x / 64 * 64 + q) := by
        have := hring.1
        have := h.ahead x mem_cons_self
        exact ⟨by omega, by omega⟩
      have hbit := (h.done _ hin).2 (done_of_not_mark hp.1 hp.2)
      rwa [ringBit_mul_add _ (by omega)] at hbit)
  rw [hresult]
  have hpos : x / 64 * 64 + j % 64 = j := by omega
  simp [hpos, ringBit, hsame]

lemma StopBelow.tryToFindLowerWrappingSpanningTuple (hlower : j / 64 < x / 64) :
    tryToFindLowerWrappingSpanningTuple (x / 64 * 64) (x / 64 % s.numberOfBitmaps) s.vectorSnapshot
      = some (j, ringBit s.tupleDelimiterBitmaps s.numberOfBitmaps j) := by
  have hring := hj.inRing h
  have hx := h.ahead x mem_cons_self
  have hlow := hring.1
  have hzero := h.done_eq_false hring hj.not_done_cons
  have hbetween := hj.mem_cons
  have hresult := @tryToFindLowerWrappingSpanningTuple_eq s.numberOfBitmaps (x / 64) (j / 64) (j % 64)
    s.vectorSnapshot h.size h.modulo hlower (by omega)
    (Nat.mod_lt _ (by omega)) (by
      intro c hc hcx
      refine h.allBuffersSeenButNoDelimiter_of (by omega) (by omega) ?_
      intro p hp
      exact hbetween p (by omega) (by omega)) hzero (by
      intro q hq hq64
      have hp := hbetween (j / 64 * 64 + q) (by omega) (by omega)
      have hin : s.InRing (j / 64 * 64 + q) := ⟨by omega, by omega⟩
      have hbit := (h.done _ hin).2 (done_of_not_mark hp.1 hp.2)
      rwa [ringBit_mul_add _ hq64] at hbit)
  rw [hresult]
  have hpos : j / 64 * 64 + j % 64 = j := by omega
  simp [hpos, ringBit]

end Below

/-! ## Walking up -/

section Above

variable (h : RingRepresents mark (x :: seen) used s) (he : StopAbove mark seen x e)
include h he

lemma StopAbove.delimiter_iff (hring : s.InRing e) :
    ringBit s.tupleDelimiterBitmaps s.numberOfBitmaps e = true ↔ EndOf mark seen x e := by
  rw [h.delimiter e hring, endOf_iff_of_stop he.lt he.isStop he.between]
  have hne : e ≠ x := Nat.ne_of_gt he.lt
  simp [hne]

variable (hlow : s.tail ≤ x / 64)
include hlow

lemma StopAbove.tryGetSpanningTupleEnd (hsame : x / 64 = e / 64) : tryGetSpanningTupleEnd (x % 64) (x / 64 * 64)
        (s.tupleDelimiterBitmaps (x / 64 % s.numberOfBitmaps)) (s.seenAndUsedBitmaps (x / 64 % s.numberOfBitmaps))
      = some (e, ringBit s.tupleDelimiterBitmaps s.numberOfBitmaps e) := by
  have hx := h.ahead x mem_cons_self
  have hlt := he.lt
  have hring : s.InRing e := ⟨by omega, by omega⟩
  have hstop := h.onlySeen_getLsbD_eq_false hring he.isStop_cons
  rw [← hsame] at hstop
  have hresult := @tryGetSpanningTupleEnd_eq (x % 64) (e % 64) (x / 64 * 64) _ _ (by omega)
    (Nat.mod_lt _ (by omega)) hstop (by
      intro q hq hqe
      have hp := he.mem_cons (x / 64 * 64 + q) (by omega) (by omega)
      have hbit := h.onlySeen_getLsbD ⟨by omega, by omega⟩ hp
      rwa [show (x / 64 * 64 + q) / 64 = x / 64 by omega, show (x / 64 * 64 + q) % 64 = q by omega] at hbit)
  have hpos : x / 64 * 64 + e % 64 = e := by omega
  rw [hresult, hpos]
  simp [ringBit, hsame]

/-- The bitmaps between `x` and the end are skipped. -/
lemma StopAbove.skipped : ∀ c, x / 64 < c → c < e / 64 →
      allBuffersSeenButNoDelimiter s.vectorSnapshot (c % s.numberOfBitmaps) = true := by
  intro c hc hce
  have hbetween := he.mem_cons
  have hlast := h.ahead _ (hbetween (c * 64) (by omega) (by omega)).1
  refine h.allBuffersSeenButNoDelimiter_of (by omega) (by omega) ?_
  intro p hp
  exact hbetween p (by omega) (by omega)

/-- The search in higher bitmaps.  If it runs into the tail bitmap, the end has not arrived yet and what
it returns is not valid. -/
lemma StopAbove.tryToFindHigherWrappingSpanningTuple (hhigher : x / 64 < e / 64) :
    ∃ found valid, tryToFindHigherWrappingSpanningTuple (x / 64 * 64)
        (x / 64 % s.numberOfBitmaps) s.vectorSnapshot = some (found, valid) ∧
      (valid = true → found = e) ∧ (valid = true ↔ EndOf mark seen x e) := by
  have hskip := he.skipped h hlow
  have hx := h.ahead x mem_cons_self
  have hbetween := he.mem_cons
  rcases Nat.lt_or_ge (e / 64) (s.tail + s.numberOfBitmaps) with hin | hout
  · have hring : s.InRing e := ⟨by omega, hin⟩
    have hresult := @tryToFindHigherWrappingSpanningTuple_eq s.numberOfBitmaps (x / 64) (e / 64)
      (e % 64) s.vectorSnapshot h.size h.modulo
      hhigher (by omega) (Nat.mod_lt _ (by omega)) hskip
      (h.onlySeen_getLsbD_eq_false hring he.isStop_cons) (by
        intro q hq
        have hbit := h.onlySeen_getLsbD (p := e / 64 * 64 + q) ⟨by omega, by omega⟩
          (hbetween _ (by omega) (by omega))
        rwa [show (e / 64 * 64 + q) / 64 = e / 64 by omega, show (e / 64 * 64 + q) % 64 = q by omega] at hbit)
    have hnotTail : e / 64 % s.numberOfBitmaps ≠ s.tail % s.numberOfBitmaps := by
      intro hmod
      have heq := eq_of_mod_eq_of_window hring.1 hring.2 (le_refl s.tail) (by omega) hmod
      omega
    refine ⟨_, _, hresult, ?_, ?_⟩
    · intro _
      omega
    · rw [← he.delimiter_iff h hring]
      simp [ringBit, hnotTail]
  · -- everything up to the end of the ring was passed; the next bitmap is the tail bitmap itself
    have hfirst : e = (s.tail + s.numberOfBitmaps) * 64 := by
      by_contra hne
      have hseen := (hbetween ((s.tail + s.numberOfBitmaps) * 64) (by omega) (by omega)).1
      have hlast := h.ahead _ hseen
      omega
    have hunseen : ¬ EndOf mark seen x e := by
      intro hend
      have hlast := h.ahead e (mem_cons_of_mem x hend.isSeen)
      omega
    rcases h.tailOpen with ⟨p, hp, hopen⟩
    have hring : s.InRing p := ⟨by omega, by omega⟩
    have hstop : ∃ q, q < 64 ∧ (s.seenAndUsedBitmaps (s.tail % s.numberOfBitmaps)
        &&& ~~~(s.tupleDelimiterBitmaps (s.tail % s.numberOfBitmaps))).getLsbD q = false := by
      refine ⟨p % 64, Nat.mod_lt _ (by omega), ?_⟩
      have hbit := h.onlySeen_getLsbD_eq_false hring (fun hpass => hopen (done_of_not_mark hpass.1 hpass.2))
      rwa [hp] at hbit
    have hwrap : e / 64 % s.numberOfBitmaps = s.tail % s.numberOfBitmaps := by
      rw [show e / 64 = s.tail + s.numberOfBitmaps by omega, Nat.add_mod_right]
    have hspec := Nat.find_spec hstop
    have hresult := @tryToFindHigherWrappingSpanningTuple_eq s.numberOfBitmaps (x / 64) (e / 64)
      (Nat.find hstop) s.vectorSnapshot h.size
      h.modulo hhigher (by omega) hspec.1 hskip (by rw [hwrap]; exact hspec.2) (by
        intro q hq
        rw [hwrap]
        have hmin := Nat.find_min hstop hq
        by_contra hbit
        exact hmin ⟨lt_trans hq hspec.1, Bool.eq_false_iff.2 hbit⟩)
    refine ⟨_, _, hresult, ?_, ?_⟩
    · intro hvalid
      simp [hwrap] at hvalid
    · simp [hwrap, hunseen]

end Above

end Search

/-! ## The wrapping checks -/

namespace SequenceShredder

variable (s : SequenceShredder) (x : Nat)

/-- The bits of the own bitmap of `x` that only say *seen*. -/
def wrappingCheckBitmap : Bitmap :=
  let bitmapIndex := (x >>> bitmapSizeBitShift) &&& s.numberOfBitmapsModulo
  (s.tupleDelimiterBitmaps bitmapIndex ||| s.seenAndUsedBitmaps bitmapIndex)
    ^^^ s.tupleDelimiterBitmaps bitmapIndex

def needToCheckForWrappingToLower : Bool :=
  let sequenceNumberBit := firstBitMask <<< (x &&& bitmapSizeModulo)
  decide ((sequenceNumberBit - 1#64) ||| s.wrappingCheckBitmap x = s.wrappingCheckBitmap x)

def needToCheckForWrappingToHigher : Bool :=
  let sequenceNumberBit := firstBitMask <<< (x &&& bitmapSizeModulo)
  decide ((maxValue ^^^ ((sequenceNumberBit - 1#64) ||| sequenceNumberBit))
    ||| s.wrappingCheckBitmap x = s.wrappingCheckBitmap x)

/-- The snapshot the first locked section takes of the ring it leaves behind. -/
def snapshotFor : Snapshot :=
  let bitmapIndex := (x >>> bitmapSizeBitShift) &&& s.numberOfBitmapsModulo
  if s.needToCheckForWrappingToLower x || s.needToCheckForWrappingToHigher x then
    .bitmapVector s.vectorSnapshot
  else
    .bitmap
      { numberOfBitmapsModulo := s.numberOfBitmapsModulo
        tupleDelimiterBitmapSnapshot := s.tupleDelimiterBitmaps bitmapIndex
        seenAndUsedBitmapSnapshot := s.seenAndUsedBitmaps bitmapIndex }

/-- Everything the first locked section returns is read off the ring it leaves behind. -/
lemma stageSequenceNumber_eq (hasTupleDelimiter : Bool) (buffer : StagedBuffer) (x : Nat) :
    s.stageSequenceNumber hasTupleDelimiter buffer x = ((s.stageSequenceNumber hasTupleDelimiter buffer x).1,
        (s.stageSequenceNumber hasTupleDelimiter buffer x).1.snapshotFor x,
        (s.stageSequenceNumber hasTupleDelimiter buffer x).1.needToCheckForWrappingToLower x,
        (s.stageSequenceNumber hasTupleDelimiter buffer x).1.needToCheckForWrappingToHigher x) :=
  rfl

lemma numberOfBitmapsModulo_snapshotFor : (s.snapshotFor x).numberOfBitmapsModulo = s.numberOfBitmapsModulo := by
  simp only [snapshotFor]
  split
  · rfl
  · rfl

end SequenceShredder

section Modes

variable {mark : Nat → Prop} {seen : List Nat} {used : Nat → Prop} {s : SequenceShredder}
  {x j e : Nat}

lemma RingBits.getLsbD_wrappingCheckBitmap (h : RingBits mark seen used s) (x q : Nat) :
    (s.wrappingCheckBitmap x).getLsbD q = ((s.seenAndUsedBitmaps (x / 64 % s.numberOfBitmaps)).getLsbD q
          && !(s.tupleDelimiterBitmaps (x / 64 % s.numberOfBitmaps)).getLsbD q) := by
  simp only [wrappingCheckBitmap, shiftRight_bitmapSizeBitShift, h.tail_and_modulo]
  exact getLsbD_or_xor _ _ q

lemma RingBits.getLsbD_wrappingCheckBitmap_iff (h : RingBits mark seen used s) {p : Nat}
    (hp : s.InRing p) (hsame : p / 64 = x / 64) :
    (s.wrappingCheckBitmap x).getLsbD (p % 64) = true ↔ p ∈ seen ∧ ¬ mark p := by
  rw [h.getLsbD_wrappingCheckBitmap, ← h.onlySeen_iff hp, Bool.and_eq_true, Bool.not_eq_true']
  simp [ringBit, hsame]

lemma StopBelow.needToCheckForWrappingToLower_eq (h : RingBits mark (x :: seen) used s)
    (hj : StopBelow mark seen used x j) : s.needToCheckForWrappingToLower x = decide (j / 64 < x / 64) := by
  have hring := hj.inRing h
  have hx := h.ahead x mem_cons_self
  have hlt := hj.lt
  have hlow := hring.1
  have hbit : x % 64 < 64 := Nat.mod_lt _ (by omega)
  simp only [needToCheckForWrappingToLower, and_bitmapSizeModulo, firstBitMask]
  rw [decide_eq_decide, or_eq_right_iff]
  constructor
  · intro hall
    by_contra hnot
    have hsame : j / 64 = x / 64 := by omega
    have hset := hall (j % 64) (by rw [getLsbD_lowerMask hbit]; simp; omega)
    rcases (h.getLsbD_wrappingCheckBitmap_iff hring hsame).1 hset with ⟨hseen, hmark⟩
    exact hj.not_done_cons (done_of_not_mark hseen hmark)
  · intro hlower i hi
    rw [getLsbD_lowerMask hbit, decide_eq_true_eq] at hi
    have hpass := hj.mem_cons (x / 64 * 64 + i) (by omega) (by omega)
    have hset := (h.getLsbD_wrappingCheckBitmap_iff (x := x) (p := x / 64 * 64 + i)
      ⟨by omega, by omega⟩ (by omega)).2 hpass
    rwa [show (x / 64 * 64 + i) % 64 = i by omega] at hset

lemma StopAbove.needToCheckForWrappingToHigher_eq (h : RingBits mark (x :: seen) used s)
    (he : StopAbove mark seen x e) (hlow : s.tail ≤ x / 64) :
    s.needToCheckForWrappingToHigher x = decide (x / 64 < e / 64) := by
  have hx := h.ahead x mem_cons_self
  have hlt := he.lt
  have hbit : x % 64 < 64 := Nat.mod_lt _ (by omega)
  simp only [needToCheckForWrappingToHigher, and_bitmapSizeModulo, firstBitMask, maxValue]
  rw [decide_eq_decide, or_eq_right_iff]
  constructor
  · intro hall
    by_contra hnot
    have hsame : e / 64 = x / 64 := by omega
    have hset := hall (e % 64) (by rw [getLsbD_higherMask hbit]; simp; omega)
    exact he.isStop_cons ((h.getLsbD_wrappingCheckBitmap_iff ⟨by omega, by omega⟩ hsame).1 hset)
  · intro hhigher i hi
    rw [getLsbD_higherMask hbit, Bool.and_eq_true, decide_eq_true_eq, decide_eq_true_eq] at hi
    have hpass := he.mem_cons (x / 64 * 64 + i) (by omega) (by omega)
    have hset := (h.getLsbD_wrappingCheckBitmap_iff (x := x) (p := x / 64 * 64 + i)
      ⟨by omega, by omega⟩ (by omega)).2 hpass
    rwa [show (x / 64 * 64 + i) % 64 = i by omega] at hset

/-- Both walks have been made to their ends. -/
lemma SearchSpec.of_walks {hasTupleDelimiter startValid endValid : Bool} {found : Nat}
    (hj : StopBelow mark seen used x j) (he : StopAbove mark seen x e)
    (hstart : startValid = true ↔ StartOf mark seen x j) (hfound : endValid = true → found = e)
    (hend : endValid = true ↔ EndOf mark seen x e) (hsearched : hasTupleDelimiter = false → j ≠ 0 ∨ x / 64 = e / 64) :
    SearchSpec mark seen x hasTupleDelimiter ⟨j, found, startValid, endValid⟩ := by
  have hstart' : ∀ d, StartOf mark seen x d → d = j ∧ startValid = true := by
    intro d hd
    have hdj := ((startOf_iff_of_not_done hj.lt hj.isOpen hj.between).1 hd).1
    exact ⟨hdj, hstart.2 (hdj ▸ hd)⟩
  have hend' : ∀ e', EndOf mark seen x e' → e' = e ∧ endValid = true := by
    intro e' he'
    have hee := ((endOf_iff_of_stop he.lt he.isStop he.between).1 he').1
    exact ⟨hee, hend.2 (hee ▸ he')⟩
  refine ⟨fun hv => hstart.1 hv, ?_, fun _ d hd => (hstart' d hd).2, fun _ e' he' => (hend' e' he').2, ?_⟩
  · intro hv
    have hval := hend.1 hv
    rwa [← hfound hv] at hval
  · intro hno d e' hd he'
    rcases hstart' d hd with ⟨rfl, hsv⟩
    rcases hend' e' he' with ⟨rfl, hev⟩
    exact ⟨fun _ => hsearched hno, fun _ => ⟨hsv, hev⟩⟩

/-- The searches that give up on the end: they do so only for a start at position 0, and the span is
lost if its end is in a higher bitmap. -/
lemma SearchSpec.of_start_zero {startValid : Bool} (he : StopAbove mark seen x e)
    (hj : StopBelow mark seen used x 0) (hstart : startValid = true ↔ StartOf mark seen x 0)
    (hhigher : x / 64 < e / 64) : SearchSpec mark seen x false ⟨0, invalidSequenceNumber, startValid, false⟩ := by
  refine ⟨fun hv => hstart.1 hv, by simp, by simp, by simp, ?_⟩
  intro _ d e' hd he'
  have hd0 := ((startOf_iff_of_not_done hj.lt hj.isOpen hj.between).1 hd).1
  have hee := ((endOf_iff_of_stop he.lt he.isStop he.between).1 he').1
  subst hd0 hee
  have hne : x / 64 ≠ e' / 64 := Nat.ne_of_lt hhigher
  simp [hne]

section Snapshots

variable (hasTupleDelimiter : Bool) (h : RingRepresents mark (x :: seen) used s)
  (hj : StopBelow mark seen used x j) (he : StopAbove mark seen x e) (hlow : s.tail ≤ x / 64)
include h hj he hlow

/-- No wrapping: start and end are in the own bitmap. -/
lemma findSpanningTuple_noWrapping (hjl : j / 64 = x / 64) (heh : x / 64 = e / 64) :
    ∃ found, findSpanningTuple hasTupleDelimiter x (.bitmap
          { numberOfBitmapsModulo := s.numberOfBitmapsModulo
            tupleDelimiterBitmapSnapshot := s.tupleDelimiterBitmaps (x / 64 % s.numberOfBitmaps)
            seenAndUsedBitmapSnapshot := s.seenAndUsedBitmaps (x / 64 % s.numberOfBitmaps) })
        .noWrapping = some found ∧ SearchSpec mark seen x hasTupleDelimiter found := by
  have hfindStart := hj.tryGetSpanningTupleStart h.toRingBits hjl
  have hfindEnd := he.tryGetSpanningTupleEnd h hlow heh
  have hring : s.InRing e := by
    have hx := h.ahead x mem_cons_self
    exact ⟨by omega, by omega⟩
  refine ⟨_, ?_, .of_walks hj he (hj.delimiter_iff h.toRingBits) (fun _ => rfl)
    (he.delimiter_iff h hring) (fun _ => .inr heh)⟩
  simp only [findSpanningTuple, shiftRight_bitmapSizeBitShift, shiftLeft_bitmapSizeBitShift,
    and_bitmapSizeModulo, hfindStart, hfindEnd, bind_eq_bind, bind_some]

/-- Only the start can be in another bitmap.  Without an end the start is not searched for, which
matters only for a buffer with a delimiter. -/
lemma findSpanningTuple_lower (hjl : j / 64 < x / 64) (heh : x / 64 = e / 64) :
    ∃ found, findSpanningTuple hasTupleDelimiter x (.bitmapVector s.vectorSnapshot)
        .checkWrappingToLower = some found ∧ SearchSpec mark seen x hasTupleDelimiter found := by
  have hfindStart := hj.tryToFindLowerWrappingSpanningTuple h.toRingBits hjl
  have hfindEnd := he.tryGetSpanningTupleEnd h hlow heh
  have hring : s.InRing e := by
    have hx := h.ahead x mem_cons_self
    exact ⟨by omega, by omega⟩
  have hend := he.delimiter_iff h hring
  simp only [findSpanningTuple, shiftRight_bitmapSizeBitShift, shiftLeft_bitmapSizeBitShift,
    and_bitmapSizeModulo, vectorSnapshot_numberOfBitmapsModulo,
    vectorSnapshot_tupleDelimiterVectorSnapshot,
    vectorSnapshot_seenAndUsedVectorSnapshot, h.tail_and_modulo, hfindStart, hfindEnd,
    bind_eq_bind, bind_some]
  split
  case isTrue =>
    exact ⟨_, rfl, .of_walks hj he (hj.delimiter_iff h.toRingBits) (fun _ => rfl) hend (fun _ => .inr heh)⟩
  case isFalse hskip =>
    rw [Bool.or_eq_true, not_or] at hskip
    refine ⟨_, rfl, by simp, fun hv => absurd hv hskip.1, fun hyes => absurd hyes hskip.2,
      fun hyes => absurd hyes hskip.2, ?_⟩
    intro _ d e' _ he'
    have hee := ((endOf_iff_of_stop he.lt he.isStop he.between).1 he').1
    exact absurd (hend.2 (hee ▸ he')) hskip.1

/-- The end can be in a higher bitmap: the common part of the two modes that look there. -/
lemma findSpanningTuple_higher (heh : x / 64 < e / 64) : ∃ found, (if j ≠ 0 || hasTupleDelimiter then
        (tryToFindHigherWrappingSpanningTuple (x / 64 * 64) (x / 64 % s.numberOfBitmaps)
            s.vectorSnapshot).bind fun result =>
          some (⟨j, result.1, ringBit s.tupleDelimiterBitmaps s.numberOfBitmaps j, result.2⟩ : SpanningTuple)
      else
        some ⟨j, invalidSequenceNumber, ringBit s.tupleDelimiterBitmaps s.numberOfBitmaps j, false⟩) = some found ∧
      SearchSpec mark seen x hasTupleDelimiter found := by
  have hstart := hj.delimiter_iff h.toRingBits
  rcases he.tryToFindHigherWrappingSpanningTuple h hlow heh with ⟨found, valid, hfindEnd, hfound, hend⟩
  split
  case isTrue hsearch =>
    rw [Bool.or_eq_true, decide_eq_true_eq] at hsearch
    refine ⟨_, by rw [hfindEnd]; rfl, .of_walks hj he hstart hfound hend ?_⟩
    intro hno
    exact .inl (hsearch.resolve_right (by simp [hno]))
  case isFalse hskip =>
    rw [Bool.or_eq_true, not_or, decide_eq_true_eq, not_not, Bool.not_eq_true] at hskip
    rcases hskip with ⟨rfl, rfl⟩
    exact ⟨_, rfl, .of_start_zero he hj hstart heh⟩

end Snapshots

/-- The search of each wrapping mode on the snapshot of the ring that the first locked section leaves
behind. -/
lemma findSpanningTuple_spec (hasTupleDelimiter : Bool)
    (h : RingRepresents mark (x :: seen) used s) (hx : x ∉ seen) (hpos : 0 < x) (hzero : mark 0)
    (hused : ∀ d, used d → ∃ e, Complete mark seen d e) :
    ∃ found, findSpanningTuple hasTupleDelimiter x (s.snapshotFor x)
        (wrappingModeOf (s.needToCheckForWrappingToLower x) (s.needToCheckForWrappingToHigher x)) = some found ∧
      SearchSpec mark seen x hasTupleDelimiter found := by
  rcases exists_not_done_below hused hzero hpos hx with ⟨j, hjx, hopen, hjbetween⟩
  rcases exists_stop_above mark seen x with ⟨e, hxe, hstop, hebetween⟩
  have hj : StopBelow mark seen used x j := ⟨hjx, hopen, hjbetween⟩
  have he : StopAbove mark seen x e := ⟨hxe, hstop, hebetween⟩
  have hlow : s.tail ≤ x / 64 := by
    have hring := (hj.inRing h.toRingBits).1
    omega
  have hlower := hj.needToCheckForWrappingToLower_eq h.toRingBits
  have hhigher := he.needToCheckForWrappingToHigher_eq h.toRingBits hlow
  -- one case per wrapping mode: does the walk down, does the walk up leave the own bitmap?
  by_cases hjl : j / 64 < x / 64
  · by_cases heh : x / 64 < e / 64
    · have hresult := findSpanningTuple_higher hasTupleDelimiter h hj he hlow heh
      have hfindStart := hj.tryToFindLowerWrappingSpanningTuple h.toRingBits hjl
      simpa only [snapshotFor, hlower, hhigher, hjl, heh, decide_true, Bool.or_self,
        if_true, wrappingModeOf, findSpanningTuple, shiftRight_bitmapSizeBitShift,
        shiftLeft_bitmapSizeBitShift, vectorSnapshot_numberOfBitmapsModulo,
        h.tail_and_modulo, hfindStart, bind_eq_bind, bind_some] using hresult
    · have hresult := findSpanningTuple_lower hasTupleDelimiter h hj he hlow hjl
        (by omega)
      simpa only [snapshotFor, hlower, hhigher, hjl, heh, decide_true, decide_false,
        Bool.true_or, if_true, wrappingModeOf] using hresult
  · by_cases heh : x / 64 < e / 64
    · have hresult := findSpanningTuple_higher hasTupleDelimiter h hj he hlow heh
      have hfindStart := hj.tryGetSpanningTupleStart h.toRingBits (by omega)
      simpa only [snapshotFor, hlower, hhigher, hjl, heh, decide_true, decide_false,
        Bool.or_true, if_true, wrappingModeOf, findSpanningTuple, shiftRight_bitmapSizeBitShift,
        shiftLeft_bitmapSizeBitShift, and_bitmapSizeModulo,
        vectorSnapshot_numberOfBitmapsModulo,
        vectorSnapshot_tupleDelimiterVectorSnapshot,
        vectorSnapshot_seenAndUsedVectorSnapshot, h.tail_and_modulo, hfindStart,
        bind_eq_bind, bind_some] using hresult
    · have hresult := findSpanningTuple_noWrapping hasTupleDelimiter h hj he hlow
        (by omega) (by omega)
      simpa only [snapshotFor, hlower, hhigher, hjl, heh, decide_false, Bool.or_self,
        Bool.false_eq_true, if_false, wrappingModeOf, shiftRight_bitmapSizeBitShift,
        h.tail_and_modulo] using hresult

end Modes

end MobilityNebula.InputFormatters
