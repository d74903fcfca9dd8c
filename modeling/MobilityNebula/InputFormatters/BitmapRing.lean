import MobilityNebula.Library.RingBuffer
import MobilityNebula.Library.Spans
import MobilityNebula.InputFormatters.BitmapSearch

/-!
# BitmapRing — what the bits of the shredder stand for

`RingBits` relates the two bitmap vectors to the arrivals of `Library.Spans`: inside the ring a tuple
delimiter bit says that a marked position arrived, a seen-and-used bit that a position is done, and
everything behind the tail is done.  Each operation on the bitmaps (setting a bit, moving the tail,
doubling the ring) is shown to keep that relation.
-/

namespace MobilityNebula.InputFormatters

open Library SequenceShredder Function

/-! ## Single bits -/

/-- The bit that stands for position `p` in a ring of `n` bitmaps. -/
def ringBit (bitmaps : Nat → Bitmap) (n p : Nat) : Bool :=
  (bitmaps (p / 64 % n)).getLsbD (p % 64)

section RingBit

variable {bitmaps : Nat → Bitmap} {n t p x : Nat}

/-- The bit at place `q` of bitmap `b` stands for position `b * 64 + q`. -/
lemma ringBit_mul_add (b : Nat) {q : Nat} (hq : q < 64) :
    ringBit bitmaps n (b * 64 + q) = (bitmaps (b % n)).getLsbD q := by
  have hdiv : (b * 64 + q) / 64 = b := by omega
  have hmod : (b * 64 + q) % 64 = q := by omega
  simp [ringBit, hdiv, hmod]

lemma ringBit_setBit (hx : t ≤ x / 64) (hx' : x / 64 < t + n) (hp : t ≤ p / 64) (hp' : p / 64 < t + n) :
    ringBit (update bitmaps (x / 64 % n) (bitmaps (x / 64 % n) ||| (firstBitMask <<< (x % 64)))) n p
      = (ringBit bitmaps n p || decide (p = x)) := by
  have hbit : x % 64 < 64 := Nat.mod_lt _ (by omega)
  by_cases hword : p / 64 % n = x / 64 % n
  · have hsame : p / 64 = x / 64 := eq_of_mod_eq_of_window hp hp' hx hx' hword
    have hiff : p % 64 = x % 64 ↔ p = x := by omega
    simp [ringBit, hword, firstBitMask, getLsbD_one_shiftLeft hbit, hiff]
  · have hne : p ≠ x := fun heq => hword (by rw [heq])
    simp [ringBit, hword, hne]

/-- Resetting the oldest bitmap makes room for the next one. -/
lemma ringBit_clear (hp : t + 1 ≤ p / 64) (hp' : p / 64 < t + 1 + n) : ringBit (update bitmaps (t % n) 0#64) n p
      = (ringBit bitmaps n p && decide (p / 64 < t + n)) := by
  by_cases hnew : p / 64 < t + n
  · have hne : p / 64 % n ≠ t % n := by
      intro hmod
      have heq := eq_of_mod_eq_of_window (by omega) hnew (le_refl t) (by omega) hmod
      omega
    simp [ringBit, hne, hnew]
  · have heq : p / 64 = t + n := by omega
    simp [ringBit, heq]

/-- Doubling keeps the bits of the old window and starts the new bitmaps empty.  `clean` says that the
ring is empty from bitmap `hi` on; `slots` that the bitmaps below `hi` stay where they are. -/
lemma ringBit_resize {hi : Nat} (hn : 0 < n)
    (clean : ∀ p, t ≤ p / 64 → p / 64 < t + n → hi ≤ p / 64 → ringBit bitmaps n p = false)
    (slots : ∀ b, t ≤ b → b < hi → b % (2 * n) = b % n) (hp : t ≤ p / 64) (hp' : p / 64 < t + 2 * n) :
    ringBit (resize n 0#64 bitmaps) (2 * n) p = (ringBit bitmaps n p && decide (p / 64 < hi)) := by
  by_cases hold : p / 64 < hi
  · have hlt : p / 64 % n < n := Nat.mod_lt _ hn
    simp [ringBit, resize, slots _ hp hold, hlt, hold]
  · by_cases hslot : p / 64 % (2 * n) < n
    · -- the slot was in use before, but only for a bitmap at or above `hi`
      rcases exists_window_of_slot hslot t with ⟨b, hb, hb', hmod⟩
      have hbhi : hi ≤ b := by
        by_contra hlt
        have hsame := slots b hb (by omega)
        have heq := eq_of_mod_eq_of_window hb (by omega) hp hp' (hsame.trans hmod)
        omega
      have hbit := clean (b * 64 + p % 64) (by omega) (by omega) (by omega)
      rw [ringBit_mul_add b (Nat.mod_lt _ (by omega)), hmod] at hbit
      simp [ringBit, resize, hslot, hbit, hold]
    · simp [ringBit, resize, hslot, hold]

end RingBit

/-! ## The representation -/

/-- Position `p` is in the part of the ring that is currently in use. -/
def SequenceShredder.InRing (s : SequenceShredder) (p : Nat) : Prop :=
  s.tail ≤ p / 64 ∧ p / 64 < s.tail + s.numberOfBitmaps

/-- The bitmaps stand for the arrivals `seen` and the starts `used`. -/
structure RingBits (mark : Nat → Prop) (seen : List Nat) (used : Nat → Prop) (s : SequenceShredder) : Prop where
  size : IsRingSize s.numberOfBitmaps
  modulo : s.numberOfBitmapsModulo = s.numberOfBitmaps - 1
  delimiter : ∀ p, s.InRing p →
    (ringBit s.tupleDelimiterBitmaps s.numberOfBitmaps p = true ↔ p ∈ seen ∧ mark p)
  done : ∀ p, s.InRing p →
    (ringBit s.seenAndUsedBitmaps s.numberOfBitmaps p = true ↔ Done mark seen used p)
  behind : ∀ p, p / 64 < s.tail → Done mark seen used p
  ahead : ∀ p, p ∈ seen → p / 64 < s.tail + s.numberOfBitmaps

/-- Between two locked sections the tail bitmap also has a position that is not done: it is the last
bitmap that has to be kept. -/
structure RingRepresents (mark : Nat → Prop) (seen : List Nat) (used : Nat → Prop)
    (s : SequenceShredder) : Prop extends RingBits mark seen used s where
  tailOpen : ∃ p, p / 64 = s.tail ∧ ¬ Done mark seen used p

namespace RingBits

variable {mark : Nat → Prop} {seen : List Nat} {used : Nat → Prop} {s : SequenceShredder}
  {p x b : Nat}

variable (h : RingBits mark seen used s)
include h

lemma delimiter_eq_false (hp : s.InRing p) (hnot : ¬ (p ∈ seen ∧ mark p)) :
    ringBit s.tupleDelimiterBitmaps s.numberOfBitmaps p = false := by
  rw [Bool.eq_false_iff]
  exact fun hbit => hnot ((h.delimiter p hp).1 hbit)

lemma done_eq_false (hp : s.InRing p) (hopen : ¬ Done mark seen used p) :
    ringBit s.seenAndUsedBitmaps s.numberOfBitmaps p = false := by
  rw [Bool.eq_false_iff]
  exact fun hbit => hopen ((h.done p hp).1 hbit)

lemma tail_and_modulo (x : Nat) : x &&& s.numberOfBitmapsModulo = x % s.numberOfBitmaps := by
  rw [h.modulo, h.size.and_sub_one]

lemma seenAndUsed_eq_maxValue_iff (hb : s.tail ≤ b) (hb' : b < s.tail + s.numberOfBitmaps) :
    s.seenAndUsedBitmaps (b % s.numberOfBitmaps) = maxValue ↔ ∀ p, p / 64 = b → Done mark seen used p := by
  rw [maxValue, eq_allOnes_iff]
  constructor
  · intro hones p hp
    have hring : s.InRing p := ⟨by omega, by omega⟩
    refine (h.done p hring).1 ?_
    have hbit := hones (p % 64) (Nat.mod_lt _ (by omega))
    rwa [← hp] at hbit
  · intro hdone q hq
    have hring : s.InRing (b * 64 + q) := ⟨by omega, by omega⟩
    have hbit := (h.done _ hring).2 (hdone (b * 64 + q) (by omega))
    rwa [ringBit_mul_add b hq] at hbit

lemma setUsed (hp : s.InRing x) (hx : x ∈ seen) : RingBits mark seen (fun d => used d ∨ d = x)
      { s with
        seenAndUsedBitmaps := update s.seenAndUsedBitmaps (x / 64 % s.numberOfBitmaps)
            (s.seenAndUsedBitmaps (x / 64 % s.numberOfBitmaps)
              ||| (firstBitMask <<< (x % 64))) } := by
  refine { h with done := ?_, behind := ?_ }
  · intro p hring
    have hset := @ringBit_setBit s.seenAndUsedBitmaps s.numberOfBitmaps s.tail p x hp.1 hp.2 hring.1 hring.2
    have hold := h.done p hring
    simp only [hset, Bool.or_eq_true, decide_eq_true_eq, hold]
    constructor
    · rintro (hdone | rfl)
      · exact ⟨hdone.1, fun hm => .inl (hdone.2 hm)⟩
      · exact ⟨hx, fun _ => .inr rfl⟩
    · rintro ⟨hseen, huse⟩
      by_cases heq : p = x
      · exact .inr heq
      · refine .inl ⟨hseen, fun hm => ?_⟩
        rcases huse hm with hu | hpx
        · exact hu
        · exact absurd hpx heq
  · intro p hlt
    rcases h.behind p hlt with ⟨hseen, huse⟩
    exact ⟨hseen, fun hm => .inl (huse hm)⟩

lemma stage {hasTupleDelimiter : Bool} (buffer : StagedBuffer)
    (hmark : mark x ↔ hasTupleDelimiter = true) (hx : x ∉ seen) (hunused : ¬ used x)
    (hrange : x / 64 < s.tail + s.numberOfBitmaps) :
    RingBits mark (x :: seen) used (s.stageSequenceNumber hasTupleDelimiter buffer x).1 := by
  have hring : s.InRing x := by
    refine ⟨?_, hrange⟩
    by_contra hlt
    exact hx (h.behind x (by omega)).1
  have hset : ∀ bitmaps : Nat → Bitmap, ∀ p, s.InRing p → ringBit (update bitmaps (x / 64 % s.numberOfBitmaps)
        (bitmaps (x / 64 % s.numberOfBitmaps) ||| (firstBitMask <<< (x % 64))))
        s.numberOfBitmaps p = (ringBit bitmaps s.numberOfBitmaps p || decide (p = x)) :=
    fun bitmaps p hp => ringBit_setBit hring.1 hring.2 hp.1 hp.2
  have hindex : (x >>> bitmapSizeBitShift) &&& s.numberOfBitmapsModulo = x / 64 % s.numberOfBitmaps := by
    rw [shiftRight_bitmapSizeBitShift, h.tail_and_modulo]
  have hbehind : ∀ p, p / 64 < s.tail → Done mark (x :: seen) used p := by
    intro p hp
    have hpx : p ≠ x := fun heq => by
      have := hring.1
      omega
    exact (done_cons_iff hpx).2 (h.behind p hp)
  have hahead : ∀ p, p ∈ x :: seen → p / 64 < s.tail + s.numberOfBitmaps := by
    intro p hp
    rcases List.mem_cons.1 hp with rfl | hmem
    · exact hrange
    · exact h.ahead p hmem
  have hother : ∀ p, p ≠ x → (p ∈ x :: seen ↔ p ∈ seen) := by
    intro p hp
    simp [hp]
  -- the position itself: marked and not used, or not marked and hence done
  have hself : Done mark (x :: seen) used x ↔ hasTupleDelimiter = false := by
    rw [Done, hmark]
    cases hasTupleDelimiter with
    | true => simp [hunused]
    | false => simp
  refine ⟨h.size, h.modulo, ?_, ?_, hbehind, hahead⟩
  · intro p hp
    have hold := h.delimiter p hp
    cases hasTupleDelimiter with
    | true =>
      simp only [stageSequenceNumber, hindex, and_bitmapSizeModulo, if_true,
        hset _ p hp, Bool.or_eq_true, decide_eq_true_eq, hold]
      by_cases heq : p = x
      · subst heq
        simp [hmark]
      · simp [heq]
    | false =>
      simp only [stageSequenceNumber, Bool.false_eq_true, if_false, hold]
      by_cases heq : p = x
      · subst heq
        simp [hmark]
      · rw [hother p heq]
  · intro p hp
    have hold := h.done p hp
    cases hasTupleDelimiter with
    | true =>
      simp only [stageSequenceNumber, if_true, hold]
      by_cases heq : p = x
      · subst heq
        have hnot : ¬ Done mark seen used p := fun hd => hx hd.1
        simp [hnot, hself]
      · rw [done_cons_iff heq]
    | false =>
      simp only [stageSequenceNumber, hindex, and_bitmapSizeModulo,
        Bool.false_eq_true, if_false, hset _ p hp, Bool.or_eq_true, decide_eq_true_eq, hold]
      by_cases heq : p = x
      · subst heq
        simp [hself]
      · simp [heq, done_cons_iff heq]

lemma clearTail (hfull : ∀ p, p / 64 = s.tail → Done mark seen used p) : RingBits mark seen used
      { s with
        tupleDelimiterBitmaps := update s.tupleDelimiterBitmaps (s.tail % s.numberOfBitmaps) 0#64
        seenAndUsedBitmaps := update s.seenAndUsedBitmaps (s.tail % s.numberOfBitmaps) 0#64
        tail := s.tail + 1 } := by
  -- a bitmap keeps what it says about the positions that have arrived
  have hkeep : ∀ {bitmaps : Nat → Bitmap} {Q : Nat → Prop},
      (∀ p, s.InRing p → (ringBit bitmaps s.numberOfBitmaps p = true ↔ Q p)) → (∀ p, Q p → p ∈ seen) →
      ∀ p, { s with tail := s.tail + 1 }.InRing p →
      (ringBit (update bitmaps (s.tail % s.numberOfBitmaps) 0#64) s.numberOfBitmaps p = true ↔ Q p) := by
    rintro bitmaps Q hbits hseen p ⟨hlow, hhigh⟩
    have hin : s.tail ≤ p / 64 := Nat.le_of_succ_le hlow
    rw [ringBit_clear hlow hhigh, Bool.and_eq_true, decide_eq_true_eq]
    constructor
    · rintro ⟨hbit, hold⟩
      exact (hbits p ⟨hin, hold⟩).1 hbit
    · intro hQ
      have hold := h.ahead p (hseen p hQ)
      exact ⟨(hbits p ⟨hin, hold⟩).2 hQ, hold⟩
  refine ⟨h.size, h.modulo, hkeep h.delimiter fun _ => And.left, hkeep h.done fun _ => And.left, ?_, ?_⟩
  · intro p hp
    rcases Nat.lt_or_ge (p / 64) s.tail with hlt | hge
    · exact h.behind p hlt
    · exact hfull p (by simp only at hp; omega)
  · intro p hp
    have hold := h.ahead p hp
    simp only
    omega

/-- Doubling the ring after the tail has passed a multiple of the ring size.  `t₀` is the tail at which
the arrivals still fitted the ring. -/
lemma double {t₀ m : Nat} (hahead : ∀ p, p ∈ seen → p / 64 < t₀ + s.numberOfBitmaps) (hm : t₀ ≤ m) (hmt : m < s.tail)
    (hzero : m % s.numberOfBitmaps = 0) (htail : s.tail % (2 * s.numberOfBitmaps) = s.tail % s.numberOfBitmaps)
    (hmax : 2 * s.numberOfBitmaps ≤ maxNumberOfBitmaps) : RingBits mark seen used s.doubleNumberOfBitmaps := by
  have hpos := h.size.pos
  have hshift : s.numberOfBitmaps <<< 1 = 2 * s.numberOfBitmaps := by
    omega
  have hslots : ∀ b, s.tail ≤ b → b < t₀ + s.numberOfBitmaps → b % (2 * s.numberOfBitmaps) = b % s.numberOfBitmaps :=
    fun b hb hb' => mod_two_mul_of_wrapped hm hmt hzero htail hb hb'
  have hsize : IsRingSize (2 * s.numberOfBitmaps) := h.size.two_mul hmax
  have hbits : ∀ bitmaps : Nat → Bitmap, ∀ P : Nat → Prop,
      (∀ p, s.InRing p → (ringBit bitmaps s.numberOfBitmaps p = true ↔ P p)) →
      (∀ p, P p → p ∈ seen) →
      ∀ p, s.tail ≤ p / 64 → p / 64 < s.tail + 2 * s.numberOfBitmaps → (ringBit (resize s.numberOfBitmaps 0#64 bitmaps)
          (2 * s.numberOfBitmaps) p = true ↔ P p) := by
    intro bitmaps P hP hseen p hp hp'
    have hclean : ∀ q, s.tail ≤ q / 64 → q / 64 < s.tail + s.numberOfBitmaps →
        t₀ + s.numberOfBitmaps ≤ q / 64 → ringBit bitmaps s.numberOfBitmaps q = false := by
      intro q hq hq' hhi
      rw [Bool.eq_false_iff]
      intro hbit
      have hlt := hahead q (hseen q ((hP q ⟨hq, hq'⟩).1 hbit))
      omega
    rw [ringBit_resize hpos hclean hslots hp hp', Bool.and_eq_true, decide_eq_true_eq]
    constructor
    · rintro ⟨hbit, hlt⟩
      exact (hP p ⟨hp, by omega⟩).1 hbit
    · intro hPp
      have hlt := hahead p (hseen p hPp)
      exact ⟨(hP p ⟨hp, by omega⟩).2 hPp, hlt⟩
  refine ⟨?_, rfl, ?_, ?_, h.behind, ?_⟩
  · simpa [doubleNumberOfBitmaps, hshift] using hsize
  · rintro p ⟨hlow, hhigh⟩
    exact hbits _ (fun p => p ∈ seen ∧ mark p) h.delimiter (fun q hq => hq.1) p hlow hhigh
  · rintro p ⟨hlow, hhigh⟩
    exact hbits _ (Done mark seen used) h.done (fun q hq => hq.1) p hlow hhigh
  · intro p hp
    have hlt := h.ahead p hp
    simp only [doubleNumberOfBitmaps, hshift]
    omega

end RingBits

/-! ## Moving the tail -/

/-- What a locked section may change about the shape of the ring: the tail moves up and the ring grows,
but what is still in use keeps its slot and its contents. -/
structure RingAdvanced (s s' : SequenceShredder) : Prop where
  tail_le : s.tail ≤ s'.tail
  size_le : s.numberOfBitmaps ≤ s'.numberOfBitmaps
  size_eq : s'.tail = s.tail → s'.numberOfBitmaps = s.numberOfBitmaps
  keepsSlot : ∀ b, s'.tail ≤ b → b < s.tail + s.numberOfBitmaps →
    b % s'.numberOfBitmaps = b % s.numberOfBitmaps
  keepsStaged : ∀ i, i < s.numberOfBitmaps * 64 →
    s'.stagedBuffers i = s.stagedBuffers i ∧ s'.stagedBufferUses i = s.stagedBufferUses i
  fresh : ∀ i, s'.stagedBuffers i = s.stagedBuffers i ∧ s'.stagedBufferUses i = s.stagedBufferUses i ∨
    (s'.stagedBuffers i).buffer = none ∧ s'.stagedBufferUses i = 0

lemma RingAdvanced.refl (s : SequenceShredder) : RingAdvanced s s :=
  ⟨le_rfl, le_rfl, fun _ => rfl, fun _ _ _ => rfl, fun _ _ => ⟨rfl, rfl⟩, fun _ => .inl ⟨rfl, rfl⟩⟩

section IncrementTail

variable {mark : Nat → Prop} {seen : List Nat} {used : Nat → Prop}

/-- The loop stops at the first bitmap with a position that is not done.  It gets there with the fuel it
has, because no arrival is at or above bitmap `hi`. -/
lemma incrementTailLoop_spec {hi : Nat} (fuel : Nat) (s : SequenceShredder) (wrapped : Bool)
    (h : RingBits mark seen used s) (hfull : ∀ p, p / 64 = s.tail → Done mark seen used p)
    (hhi : ∀ p, p ∈ seen → p / 64 < hi) (hfuel : hi ≤ s.tail + fuel) :
    ∃ s' wrapped', incrementTailLoop fuel s wrapped = some (s', wrapped') ∧
      RingRepresents mark seen used s' ∧ s.tail < s'.tail ∧ s'.tail ≤ hi ∧
      s'.numberOfBitmaps = s.numberOfBitmaps ∧ s'.stagedBuffers = s.stagedBuffers ∧
      s'.stagedBufferUses = s.stagedBufferUses ∧
      (wrapped' = true → wrapped = true ∨ ∃ m, s.tail ≤ m ∧ m < s'.tail ∧ m % s.numberOfBitmaps = 0) := by
  induction fuel generalizing s wrapped with
  | zero =>
    have hlt := hhi _ (hfull (s.tail * 64) (by omega)).1
    omega
  | succ fuel ih =>
    have hlt := hhi _ (hfull (s.tail * 64) (by omega)).1
    have hstep := h.clearTail hfull
    have hpos := h.size.pos
    simp only [incrementTailLoop, h.tail_and_modulo]
    by_cases hnext : ∀ p, p / 64 = s.tail + 1 → Done mark seen used p
    · -- the next bitmap is complete too: another round
      have hmax := (hstep.seenAndUsed_eq_maxValue_iff (b := s.tail + 1) le_rfl
        (by simp only; omega)).2 hnext
      rw [if_pos hmax]
      rcases ih _ (wrapped || decide (s.tail % s.numberOfBitmaps = 0)) hstep hnext
          (by simp only; omega) with
        ⟨s', wrapped', hrun, hrep, htail, hle, hnum, hbuf, huses, hwrap⟩
      refine ⟨s', wrapped', hrun, hrep, by simp only at htail; omega, hle, hnum, hbuf, huses, ?_⟩
      intro hw
      rcases hwrap hw with hor | ⟨m, hm, hm', hzero⟩
      · rw [Bool.or_eq_true, decide_eq_true_eq] at hor
        rcases hor with hw0 | hzero
        · exact .inl hw0
        · exact .inr ⟨s.tail, le_rfl, by simp only at htail; omega, hzero⟩
      · exact .inr ⟨m, by simp only at hm; omega, hm', hzero⟩
    · have hmax := fun heq => hnext
        ((hstep.seenAndUsed_eq_maxValue_iff (b := s.tail + 1) le_rfl (by simp only; omega)).1 heq)
      rw [if_neg hmax]
      push Not at hnext
      refine ⟨_, _, rfl, ⟨hstep, hnext⟩, by simp, by simp only; omega, rfl, rfl, rfl, ?_⟩
      intro hw
      rw [Bool.or_eq_true, decide_eq_true_eq] at hw
      rcases hw with hw0 | hzero
      · exact .inl hw0
      · exact .inr ⟨s.tail, le_rfl, by simp, hzero⟩

lemma incrementTail_spec (s : SequenceShredder) (h : RingBits mark seen used s)
    (hfull : ∀ p, p / 64 = s.tail → Done mark seen used p) :
    ∃ s', s.incrementTail = some s' ∧ RingRepresents mark seen used s' ∧ RingAdvanced s s' := by
  rcases incrementTailLoop_spec s.numberOfBitmaps s false h hfull h.ahead le_rfl with
    ⟨s₁, wrapped, hrun, hrep, htail, hle, hnum, hbuf, huses, hwrap⟩
  have hshift : s₁.numberOfBitmaps <<< 1 = 2 * s₁.numberOfBitmaps := by
    omega
  have hstay : RingAdvanced s s₁ :=
    ⟨le_of_lt htail, hnum.ge, fun heq => absurd heq (Nat.ne_of_gt htail), fun b _ _ => by rw [hnum],
      fun i _ => ⟨by rw [hbuf], by rw [huses]⟩, fun i => .inl ⟨by rw [hbuf], by rw [huses]⟩⟩
  simp only [incrementTail, hrun, Option.bind_eq_bind, Option.bind_some]
  split
  case isFalse => exact ⟨s₁, rfl, hrep, hstay⟩
  case isTrue hgrow =>
    simp only [Bool.and_eq_true, decide_eq_true_eq, hshift] at hgrow
    rcases hgrow with ⟨⟨_, hwrapped⟩, hkeep, hmax⟩
    rcases hwrap hwrapped with hfalse | ⟨m, hm, hm', hzero⟩
    · cases hfalse
    · -- the second condition of the source says that the tail bitmap keeps its slot
      have hdouble : IsRingSize (2 * s₁.numberOfBitmaps) := hrep.size.two_mul hmax
      have hslot : s₁.tail % (2 * s₁.numberOfBitmaps) = s₁.tail % s₁.numberOfBitmaps := by
        rwa [hdouble.and_sub_one, hrep.tail_and_modulo] at hkeep
      have hahead : ∀ p, p ∈ seen → p / 64 < s.tail + s₁.numberOfBitmaps := by
        rw [hnum]
        exact h.ahead
      rw [← hnum] at hzero
      have hbits := hrep.toRingBits.double hahead hm hm' hzero hslot hmax
      refine ⟨_, rfl, ⟨hbits, hrep.tailOpen⟩, ?_⟩
      refine ⟨le_of_lt htail, ?_, fun heq => absurd heq (Nat.ne_of_gt htail), ?_, ?_, ?_⟩
      · simp only [doubleNumberOfBitmaps, hshift]
        omega
      · intro b hb hb'
        simp only [doubleNumberOfBitmaps, hshift] at hb ⊢
        rw [← hnum] at hb'
        rw [mod_two_mul_of_wrapped hm hm' hzero hslot hb hb', hnum]
      · intro i hi
        have hlt : i < s₁.stagedBuffersSize := by
          simpa [stagedBuffersSize, shiftLeft_bitmapSizeBitShift, hnum] using hi
        simp [doubleNumberOfBitmaps, resize, hlt, hbuf, huses]
      · intro i
        by_cases hlt : i < s₁.stagedBuffersSize
        · exact .inl (by
            simp [doubleNumberOfBitmaps, resize, hlt, hbuf, huses])
        · exact .inr (by
            simp [doubleNumberOfBitmaps, resize, hlt])

end IncrementTail

end MobilityNebula.InputFormatters
