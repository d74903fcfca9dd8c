import MobilityNebula.InputFormatters.BitmapRing
import MobilityNebula.InputFormatters.ShredderSystem

/-!
# StagedBufferUses — slots, uses and the loops that collect staged buffers

A staged buffer leaves the ring with its last use.  The uses a position has left are its initial uses
minus the reported spans that contain it, minus one for the call that returned the buffer itself
(`ShredderSystem.remainingUses`).  The loops of the second locked section take exactly the uses that the
spans of the call account for (`ProcessSequenceNumberCall.usesOf_eq`).
-/

namespace MobilityNebula.InputFormatters

open Library List

/-! ## Slots -/

def slotOf (n p : Nat) : Nat := p % (n * 64)

lemma slotOf_eq (n p : Nat) : slotOf n p = p % 64 + 64 * (p / 64 % n) := by
  rw [slotOf, Nat.mul_comm, Nat.mod_mul]

lemma slotOf_congr {n n' p : Nat} (h : p / 64 % n = p / 64 % n') : slotOf n p = slotOf n' p := by
  rw [slotOf_eq, slotOf_eq, h]

lemma slotOf_lt {n : Nat} (hn : 0 < n) (p : Nat) : slotOf n p < n * 64 :=
  Nat.mod_lt _ (by omega)

lemma slotOf_inj {s : SequenceShredder} {p q : Nat} (hp : s.InRing p) (hq : s.InRing q)
    (h : slotOf s.numberOfBitmaps p = slotOf s.numberOfBitmaps q) : p = q := by
  have hp1 := hp.1
  have hp2 := hp.2
  have hq1 := hq.1
  have hq2 := hq.2
  exact eq_of_mod_eq_of_window (t := s.tail * 64) (n := s.numberOfBitmaps * 64) (by omega) (by omega)
    (by omega) (by omega) h

lemma IsRingSize.and_slots {n : Nat} (h : IsRingSize n) (p : Nat) :
    p &&& (n <<< bitmapSizeBitShift - 1) = slotOf n p := by
  rw [shiftLeft_bitmapSizeBitShift, h.and_mul_sub_one, slotOf]

lemma IsRingSize.and_slots_mul {n : Nat} (h : IsRingSize n) (p : Nat) :
    p &&& (n * sizeOfBitmapInBits - 1) = slotOf n p := by
  rw [sizeOfBitmapInBits, h.and_mul_sub_one, slotOf]

/-! ## The collecting loops -/

namespace SequenceShredder

/-- What the collecting loops leave alone. -/
structure SameBitmaps (s s' : SequenceShredder) : Prop where
  tail : s'.tail = s.tail
  tupleDelimiterBitmaps : s'.tupleDelimiterBitmaps = s.tupleDelimiterBitmaps
  seenAndUsedBitmaps : s'.seenAndUsedBitmaps = s.seenAndUsedBitmaps
  numberOfBitmaps : s'.numberOfBitmaps = s.numberOfBitmaps
  numberOfBitmapsModulo : s'.numberOfBitmapsModulo = s.numberOfBitmapsModulo

section TakeStagedBuffer

variable (s : SequenceShredder) (position : Nat) (uses : Int)

lemma takeStagedBuffer_uses_self : (s.takeStagedBuffer position uses).1.stagedBufferUses position
      = s.stagedBufferUses position - uses := by
  simp [takeStagedBuffer]

lemma takeStagedBuffer_of_ne {i : Nat} (hi : i ≠ position) :
    (s.takeStagedBuffer position uses).1.stagedBufferUses i = s.stagedBufferUses i ∧
      (s.takeStagedBuffer position uses).1.stagedBuffers i = s.stagedBuffers i := by
  refine ⟨by simp [takeStagedBuffer, hi], ?_⟩
  simp only [takeStagedBuffer]
  split
  · simp [hi]
  · rfl

lemma takeStagedBuffer_self_of_uses_left (hleft : s.stagedBufferUses position - uses ≠ 0) :
    (s.takeStagedBuffer position uses).1.stagedBuffers position = s.stagedBuffers position := by
  simp [takeStagedBuffer, hleft]

end TakeStagedBuffer

/-- The loop over positions with slots of their own returns what is staged in each slot, takes the uses
of each and empties the slots without uses left. -/
lemma collectStagedBuffers_spec {usesOf : Nat → Int} {isAllowed : Int → Bool} {modulo : Nat}
    {slot : Nat → Nat} (positions : List Nat) (s : SequenceShredder) (hslot : ∀ p ∈ positions, p &&& modulo = slot p)
    (hinj : positions.Pairwise fun p q => slot p ≠ slot q)
    (hallowed : ∀ p ∈ positions, isAllowed (s.stagedBufferUses (slot p) - usesOf p) = true) :
    ∃ s', collectStagedBuffers usesOf isAllowed modulo positions s
        = some (s', positions.map fun p => s.stagedBuffers (slot p)) ∧
      SameBitmaps s s' ∧
      (∀ p ∈ positions, s'.stagedBufferUses (slot p) = s.stagedBufferUses (slot p) - usesOf p ∧
        (s'.stagedBufferUses (slot p) ≠ 0 → s'.stagedBuffers (slot p) = s.stagedBuffers (slot p)) ∧
        (s'.stagedBufferUses (slot p) = 0 → (s'.stagedBuffers (slot p)).buffer = none)) ∧
      (∀ i, (∀ p ∈ positions, slot p ≠ i) →
        s'.stagedBufferUses i = s.stagedBufferUses i ∧ s'.stagedBuffers i = s.stagedBuffers i) := by
  induction positions generalizing s with
  | nil =>
    exact ⟨s, rfl, ⟨rfl, rfl, rfl, rfl, rfl⟩, by simp, by simp⟩
  | cons p rest ih =>
    rcases pairwise_cons.1 hinj with ⟨hfirst, hrest⟩
    have hp : p &&& modulo = slot p := hslot p mem_cons_self
    have hother : ∀ i, slot p ≠ i → _ := fun i hi =>
      takeStagedBuffer_of_ne s (slot p) (usesOf p) (Ne.symm hi)
    rcases ih (s.takeStagedBuffer (slot p) (usesOf p)).1
        (fun q hq => hslot q (mem_cons_of_mem p hq)) hrest (by
          intro q hq
          rw [(hother _ (hfirst q hq)).1]
          exact hallowed q (mem_cons_of_mem p hq)) with
      ⟨s', hrun, hsame, htaken, huntouched⟩
    refine ⟨s', ?_, { hsame with }, ?_, ?_⟩
    · have hmap : (rest.map fun q =>
            (s.takeStagedBuffer (slot p) (usesOf p)).1.stagedBuffers (slot q))
          = rest.map fun q => s.stagedBuffers (slot q) :=
        map_congr_left fun q hq => (hother _ (hfirst q hq)).2
      have hok := hallowed p mem_cons_self
      rw [← takeStagedBuffer_uses_self] at hok
      simp only [collectStagedBuffers, hp, hok, if_true, hrun, hmap]
      rfl
    · intro q hq
      rcases mem_cons.1 hq with rfl | hmem
      · -- no later round touches the slot of the first one
        rcases huntouched (slot q) (fun r hr => Ne.symm (hfirst r hr)) with ⟨huses, hbuffer⟩
        rw [takeStagedBuffer_uses_self] at huses
        rw [huses, hbuffer]
        refine ⟨rfl, takeStagedBuffer_self_of_uses_left s (slot q) (usesOf q), fun hzero => ?_⟩
        simp [takeStagedBuffer, hzero]
      · rcases htaken q hmem with ⟨huses, hbuffer, hempty⟩
        rcases hother _ (hfirst q hmem) with ⟨huses', hbuffer'⟩
        exact ⟨by rw [huses, huses'], fun hleft => (hbuffer hleft).trans hbuffer', hempty⟩
    · intro i hi
      rcases huntouched i (fun q hq => hi q (mem_cons_of_mem p hq)) with ⟨huses, hbuffer⟩
      rcases hother i (hi p mem_cons_self) with ⟨huses', hbuffer'⟩
      exact ⟨huses.trans huses', hbuffer.trans hbuffer'⟩

lemma mem_indicesOfSpan {a b p : Nat} : p ∈ indicesOfSpan a b ↔ a ≤ p ∧ p ≤ b := by
  rw [indicesOfSpan, mem_range'_1]
  omega

lemma nodup_indicesOfSpan (a b : Nat) : (indicesOfSpan a b).Nodup := nodup_range'

end SequenceShredder

/-! ## Counting uses -/

def ShredderInput.initialUses (raw : ShredderInput) (p : Nat) : Int :=
  if p = 0 then 1 else if raw.hasTupleDelimiter p then 3 else 1

namespace ProcessSequenceNumberCall

/-- The uses a call takes of position `p`: one for each span it reports, and one for returning a buffer
with a delimiter itself. -/
def takes (call : ProcessSequenceNumberCall) (p : Nat) : Int :=
  call.reportedSpans.countP (covers p)
    + if call.hasTupleDelimiter = true ∧ call.sequenceNumber = p then 1 else 0

/-- The start a call found is below it and the end above it. -/
structure Ordered (call : ProcessSequenceNumberCall) : Prop where
  start_lt : call.spanningTuple.isStartValid = true →
    call.spanningTuple.spanStart < call.sequenceNumber
  lt_end : call.spanningTuple.isEndValid = true →
    call.sequenceNumber < call.spanningTuple.spanEnd

section Takes

variable {call : ProcessSequenceNumberCall} {p : Nat}

lemma takes_eq_zero_of_not_returnsBuffers (h : call.returnsBuffers = false) : call.takes p = 0 := by
  rw [returnsBuffers, Bool.or_eq_false_iff] at h
  simp [takes, reportedSpans, h.1, h.2]

lemma Ordered.startIndex_le (h : call.Ordered) : call.startIndex ≤ call.sequenceNumber := by
  unfold startIndex
  split
  case isTrue hv => exact le_of_lt (h.start_lt hv)
  case isFalse => exact le_rfl

lemma Ordered.le_endIndex (h : call.Ordered) : call.sequenceNumber ≤ call.endIndex := by
  unfold endIndex
  split
  case isTrue hv => exact le_of_lt (h.lt_end hv)
  case isFalse => exact le_rfl

/-- A call for a buffer without a delimiter takes one use of every position of its span. -/
lemma takes_of_no_delimiter (hno : call.hasTupleDelimiter = false) (hret : call.returnsBuffers = true) :
    call.takes p = if call.startIndex ≤ p ∧ p ≤ call.endIndex then 1 else 0 := by
  rw [returnsBuffers, hno, Bool.false_or, Bool.and_eq_true] at hret
  simp [takes, reportedSpans, startIndex, endIndex, hno, hret.1, hret.2, covers, countP_cons]

/-- A call for a buffer with a delimiter takes one use of every other position it returns and up to
three of its own. -/
lemma Ordered.takes_of_delimiter (h : call.Ordered) (hyes : call.hasTupleDelimiter = true) : call.takes p =
      if call.startIndex ≤ p ∧ p ≤ call.endIndex then
        if p ≠ call.sequenceNumber then 1
        else 1 + (if call.startIndex < call.sequenceNumber then 1 else 0)
          + (if call.sequenceNumber < call.endIndex then 1 else 0)
      else 0 := by
  have hstart := h.start_lt
  have hend := h.lt_end
  have hcover : ∀ d e : Nat, countP (covers p) [(d, e)] = if d ≤ p ∧ p ≤ e then 1 else 0 := by
    intro d e
    simp [covers, countP_cons]
  cases hsv : call.spanningTuple.isStartValid with
  | false =>
    cases hev : call.spanningTuple.isEndValid with
    | false =>
      simp only [takes, reportedSpans, startIndex, endIndex, hyes, hsv, hev, true_and, if_true,
        Bool.false_eq_true, if_false, append_nil, countP_nil]
      split_ifs <;> omega
    | true =>
      have hlt := hend hev
      simp only [takes, reportedSpans, startIndex, endIndex, hyes, hsv, hev, true_and, if_true,
        Bool.false_eq_true, if_false, nil_append, hcover]
      split_ifs <;> omega
  | true =>
    have hlt := hstart hsv
    cases hev : call.spanningTuple.isEndValid with
    | false =>
      simp only [takes, reportedSpans, startIndex, endIndex, hyes, hsv, hev, true_and, if_true,
        Bool.false_eq_true, if_false, append_nil, hcover]
      split_ifs <;> omega
    | true =>
      have hlt' := hend hev
      simp only [takes, reportedSpans, startIndex, endIndex, hyes, hsv, hev, true_and, if_true, countP_append, hcover]
      split_ifs <;> omega

lemma Ordered.one_le_takes (h : call.Ordered) (hret : call.returnsBuffers = true)
    (hp : call.startIndex ≤ p ∧ p ≤ call.endIndex) : 1 ≤ call.takes p := by
  cases hdel : call.hasTupleDelimiter with
  | false =>
    rw [takes_of_no_delimiter hdel hret, if_pos hp]
  | true =>
    rw [h.takes_of_delimiter hdel, if_pos hp]
    split_ifs <;> omega

lemma Ordered.takes_eq_zero_of_outside (h : call.Ordered) (hret : call.returnsBuffers = true)
    (hp : ¬ (call.startIndex ≤ p ∧ p ≤ call.endIndex)) : call.takes p = 0 := by
  cases hdel : call.hasTupleDelimiter with
  | false =>
    rw [takes_of_no_delimiter hdel hret, if_neg hp]
  | true =>
    rw [h.takes_of_delimiter hdel, if_neg hp]

end Takes

lemma sum_takes_eq (calls : List ProcessSequenceNumberCall) (p : Nat) : (calls.map fun call => call.takes p).sum
      = ((calls.flatMap reportedSpans).countP (covers p) : Int)
        + calls.countP fun call => call.hasTupleDelimiter && decide (call.sequenceNumber = p) := by
  induction calls with
  | nil => simp
  | cons call rest ih =>
    rw [map_cons, sum_cons, ih, flatMap_cons, countP_append, countP_cons, takes]
    push_cast
    by_cases hown : call.hasTupleDelimiter = true ∧ call.sequenceNumber = p
    · simp [hown]
      ring
    · have hown' : ¬ (call.hasTupleDelimiter && decide (call.sequenceNumber = p)) = true := by
        simpa using hown
      simp only [hown, hown', if_false]
      push_cast
      ring

/-- Calls with different sequence numbers that report different spans never take more uses of a position
than it has. -/
lemma sum_takes_le {raw : ShredderInput} {calls : List ProcessSequenceNumberCall}
    (hdelimiter : ∀ call ∈ calls, call.hasTupleDelimiter = raw.hasTupleDelimiter call.sequenceNumber)
    (hpos : ∀ call ∈ calls, 0 < call.sequenceNumber)
    (hnumbers : (calls.map sequenceNumber).Nodup) (hnodup : (calls.flatMap reportedSpans).Nodup)
    (hspans : ∀ span ∈ calls.flatMap reportedSpans, Consecutive raw.Mark span.1 span.2) (p : Nat) :
    (calls.map fun call => call.takes p).sum ≤ raw.initialUses p := by
  rw [sum_takes_eq]
  have hown : calls.countP (fun call => call.hasTupleDelimiter && decide (call.sequenceNumber = p)) ≤ 1 := by
    calc
      calls.countP (fun call => call.hasTupleDelimiter && decide (call.sequenceNumber = p))
          ≤ calls.countP (fun call => call.sequenceNumber == p) := countP_mono_left fun call _ h => by
              rw [Bool.and_eq_true, decide_eq_true_eq] at h
              simpa using h.2
      _ = (calls.map sequenceNumber).count p := by
            rw [count, countP_map]
            rfl
      _ ≤ 1 := nodup_iff_count_le_one.1 hnumbers p
  have hnone : raw.hasTupleDelimiter p = false ∨ p = 0 →
      calls.countP (fun call => call.hasTupleDelimiter && decide (call.sequenceNumber = p)) = 0 := by
    intro hp
    rw [countP_eq_zero]
    intro call hcall h
    rw [Bool.and_eq_true, decide_eq_true_eq] at h
    rcases h with ⟨hyes, rfl⟩
    rcases hp with hno | hzero
    · rw [hdelimiter call hcall, hno] at hyes
      cases hyes
    · exact absurd hzero (Nat.ne_of_gt (hpos call hcall))
  by_cases hzero : p = 0
  · subst hzero
    have hcount := countP_covers_zero_le_one hnodup hspans
    simp only [ShredderInput.initialUses, if_true]
    omega
  · by_cases hmark : raw.hasTupleDelimiter p = true
    · have hcount := countP_covers_le_two hnodup hspans (.inr hmark)
      simp only [ShredderInput.initialUses, hzero, if_false, hmark, if_true]
      omega
    · have hno : raw.hasTupleDelimiter p = false := by simpa using hmark
      have hcount := countP_covers_le_one hnodup hspans
        (p := p) (by simp [ShredderInput.Mark, hzero, hno])
      rw [hnone (.inl hno)]
      simp only [ShredderInput.initialUses, hzero, if_false, hno, Bool.false_eq_true]
      omega

/-- Calls that report every start up to `p`, among them the call of `p` itself, take all its uses. -/
lemma initialUses_le_sum_takes {raw : ShredderInput} {calls : List ProcessSequenceNumberCall} {seen : List Nat}
    {p : Nat} (hpos : 0 < p) (hspans : ∀ span ∈ calls.flatMap reportedSpans, Consecutive raw.Mark span.1 span.2)
    (hdone : ∀ q ≤ p, Done raw.Mark seen (fun d => ∃ e, (d, e) ∈ calls.flatMap reportedSpans) q)
    (hown : raw.hasTupleDelimiter p = true → ∃ call ∈ calls, call.hasTupleDelimiter = true ∧ call.sequenceNumber = p) :
    raw.initialUses p ≤ (calls.map fun call => call.takes p).sum := by
  rw [sum_takes_eq]
  -- the span that starts at the last mark before `p`
  have hmark : raw.Mark (Nat.findGreatest raw.Mark (p - 1)) := Nat.findGreatest_spec (Nat.zero_le _) raw.mark_zero
  have hm : Nat.findGreatest raw.Mark (p - 1) ≤ p - 1 := Nat.findGreatest_le _
  rcases (hdone _ (by omega)).2 hmark with ⟨e, he⟩
  have hspan := hspans _ he
  have hle : p ≤ e := by
    by_contra hlt
    exact Nat.findGreatest_is_greatest hspan.lt (by omega) hspan.right
  have hcov : covers p (Nat.findGreatest raw.Mark (p - 1), e) = true := covers_iff.2 ⟨by omega, hle⟩
  by_cases hdel : raw.hasTupleDelimiter p = true
  · rcases (hdone p le_rfl).2 (.inr hdel) with ⟨e', he'⟩
    rcases hown hdel with ⟨call, hcall, hyes, hsn⟩
    have hself := countP_pos_iff (p := fun call : ProcessSequenceNumberCall =>
      call.hasTupleDelimiter && decide (call.sequenceNumber = p)).2 ⟨call, hcall, by simp [hyes, hsn]⟩
    have hmem : (p, e') ∈ (calls.flatMap reportedSpans).erase (Nat.findGreatest raw.Mark (p - 1), e) := by
      refine (mem_erase_of_ne fun heq => ?_).2 he'
      rw [Prod.mk.injEq] at heq
      omega
    have hcov' : covers p (p, e') = true := covers_iff.2 ⟨le_rfl, le_of_lt (hspans _ he').lt⟩
    have hnext := countP_pos_iff.2 ⟨_, hmem, hcov'⟩
    rw [(perm_cons_erase he).countP_eq, countP_cons_of_pos hcov]
    simp only [ShredderInput.initialUses, Nat.ne_of_gt hpos, if_false, hdel, if_true]
    omega
  · have hone := countP_pos_iff.2 ⟨_, he, hcov⟩
    simp only [ShredderInput.initialUses, Nat.ne_of_gt hpos, if_false, hdel, Bool.false_eq_true]
    omega

end ProcessSequenceNumberCall

end MobilityNebula.InputFormatters
