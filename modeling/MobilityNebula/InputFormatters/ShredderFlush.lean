import MobilityNebula.Library.Blocks
import MobilityNebula.InputFormatters.SpanningTuples

/-!
# ShredderFlush — the end of the stream

`flushFinalPartialTuple` looks for the largest sequence number in the ring and processes a dummy buffer
behind it.  Once all calls have returned, the dummy is one more buffer with a delimiter, so the invariant of
the shredder carries over to the input that contains it (`ShredderInvariant.withDummy`) and the flush is one
more call (`flushFinalPartialTuple_spec`).  The flush does not ask `isInRange`: the result needs the position of
the dummy to be in the ring.
-/

namespace MobilityNebula.InputFormatters

open Library ShredderInput SequenceShredder ShredderSystem Option List ProcessSequenceNumberCall Function

/-! ## Inputs that agree on the arrivals -/

section Congruence

variable {mark mark' : Nat → Prop} {seen : List Nat}

section

variable (hmark : ∀ p ∈ seen, (mark p ↔ mark' p))
include hmark

lemma complete_congr {d e : Nat} : Complete mark seen d e ↔ Complete mark' seen d e := by
  -- one direction, for any two markings that agree
  have hone : ∀ m m' : Nat → Prop, (∀ p ∈ seen, (m p ↔ m' p)) → Complete m seen d e → Complete m' seen d e := by
    intro m m' hagree h
    have hlt := h.span.lt
    have hin : ∀ p, d ≤ p → p ≤ e → (m p ↔ m' p) := fun p hd he => hagree p (h.arrived p hd he)
    refine ⟨⟨hlt, (hin d le_rfl (le_of_lt hlt)).1 h.span.left,
      (hin e (le_of_lt hlt) le_rfl).1 h.span.right, ?_⟩, h.arrived⟩
    intro p hd he hp
    exact h.span.between p hd he ((hin p (le_of_lt hd) (le_of_lt he)).2 hp)
  exact ⟨hone mark mark' hmark, hone mark' mark fun p hp => (hmark p hp).symm⟩

lemma completedBy_congr {x d e : Nat} : CompletedBy mark seen x d e ↔ CompletedBy mark' seen x d e :=
  ⟨fun h => ⟨(complete_congr hmark).1 h.complete, h.last⟩, fun h => ⟨(complete_congr hmark).2 h.complete, h.last⟩⟩

lemma done_congr {used : Nat → Prop} {p : Nat} : Done mark seen used p ↔ Done mark' seen used p := by
  constructor
  · rintro ⟨hp, huse⟩
    exact ⟨hp, fun h => huse ((hmark p hp).2 h)⟩
  · rintro ⟨hp, huse⟩
    exact ⟨hp, fun h => huse ((hmark p hp).1 h)⟩

end

lemma RingRepresents.congr_mark {used : Nat → Prop} {s : SequenceShredder}
    (h : RingRepresents mark seen used s) (hmark : ∀ p ∈ seen, (mark p ↔ mark' p)) :
    RingRepresents mark' seen used s := by
  refine ⟨⟨h.size, h.modulo, ?_, ?_, ?_, h.ahead⟩, ?_⟩
  · intro p hp
    rw [h.delimiter p hp]
    exact and_congr_right fun hseen => hmark p hseen
  · intro p hp
    rw [h.done p hp]
    exact done_congr hmark
  · intro p hp
    exact (done_congr hmark).1 (h.behind p hp)
  · rcases h.tailOpen with ⟨p, hp, hopen⟩
    exact ⟨p, hp, fun hdone => hopen ((done_congr hmark).2 hdone)⟩

end Congruence

/-! ## The input with the dummy -/

namespace ShredderInput

variable (raw : ShredderInput)

/-- The input in which the dummy buffer of the flush stands at position `n`. -/
def withDummy (n : Nat) : ShredderInput where
  sizeOfTupleDelimiter := raw.sizeOfTupleDelimiter
  hasTupleDelimiter := update raw.hasTupleDelimiter n true
  stagedBuffer := update raw.stagedBuffer n dummyStagedBuffer

variable {raw} {n p : Nat}

lemma withDummy_hasTupleDelimiter_self : (raw.withDummy n).hasTupleDelimiter n = true := update_self _ _ _

lemma withDummy_hasTupleDelimiter (h : p ≠ n) : (raw.withDummy n).hasTupleDelimiter p = raw.hasTupleDelimiter p :=
  update_of_ne h _ _

lemma withDummy_stagedBuffer_self : (raw.withDummy n).stagedBuffer n = dummyStagedBuffer := update_self _ _ _

lemma withDummy_stagedBuffer (h : p ≠ n) : (raw.withDummy n).stagedBuffer p = raw.stagedBuffer p := update_of_ne h _ _

lemma withDummy_mark (h : p ≠ n) : (raw.withDummy n).Mark p ↔ raw.Mark p := by
  rw [Mark, Mark, withDummy_hasTupleDelimiter h]

lemma withDummy_staged (h : p ≠ n) : (raw.withDummy n).staged p = raw.staged p := by
  rw [staged, withDummy_stagedBuffer h]
  rfl

lemma withDummy_initialUses (h : p ≠ n) : (raw.withDummy n).initialUses p = raw.initialUses p := by
  rw [initialUses, initialUses, withDummy_hasTupleDelimiter h]

end ShredderInput

variable {call : ProcessSequenceNumberCall}

lemma ShredderInput.withDummy_buffersOf {raw : ShredderInput} {n : Nat} (h : call.endIndex < n) :
    (raw.withDummy n).buffersOf call = raw.buffersOf call := by
  have hmap : (indicesOfSpan call.startIndex call.endIndex).map (raw.withDummy n).staged
      = (indicesOfSpan call.startIndex call.endIndex).map raw.staged := by
    refine map_congr_left fun p hp => withDummy_staged ?_
    have hle := (SequenceShredder.mem_indicesOfSpan.1 hp).2
    omega
  rw [buffersOf, buffersOf, hmap]

lemma ShredderInput.map_staged_withDummy {raw : ShredderInput} {a m : Nat} (h : a ≤ m) :
    (indicesOfSpan a (m + 1)).map (raw.withDummy (m + 1)).staged
      = (indicesOfSpan a m).map raw.staged ++ [dummyStagedBuffer] := by
  have hsplit : indicesOfSpan a (m + 1) = indicesOfSpan a m ++ [m + 1] := by
    rw [indicesOfSpan, indicesOfSpan, show m + 1 + 1 - a = m + 1 - a + 1 by omega, range'_concat, Nat.one_mul,
      Nat.add_sub_cancel' (by omega)]
  rw [hsplit, map_append, map_singleton, staged_of_pos _ (Nat.succ_pos m), withDummy_stagedBuffer_self]
  congr 1
  refine map_congr_left fun p hp => withDummy_staged ?_
  have hle := (SequenceShredder.mem_indicesOfSpan.1 hp).2
  omega

namespace ShredderInvariant

variable {raw : ShredderInput} {sys : ShredderSystem} {m : Nat}

lemma le_of_mem_seen (hall : sys.AllReturned m) {p : Nat} (hp : p ∈ sys.seen) : p ≤ m := by
  rcases mem_seen_iff.1 hp with hmem | rfl
  · exact ((hall.entered p).1 hmem).2
  · exact Nat.zero_le m

/-- The invariant does not look at buffers that have not arrived. -/
lemma withDummy (inv : ShredderInvariant raw sys) (hall : sys.AllReturned m) :
    ShredderInvariant (raw.withDummy (m + 1)) sys := by
  have hne : ∀ p ∈ sys.seen, p ≠ m + 1 := by
    intro p hp
    have hle := le_of_mem_seen hall hp
    omega
  have hmark : ∀ p ∈ sys.seen, (raw.Mark p ↔ (raw.withDummy (m + 1)).Mark p) :=
    fun p hp => (withDummy_mark (hne p hp)).symm
  have huses : ∀ p ∈ sys.seen, sys.remainingUses (raw.withDummy (m + 1)) p = sys.remainingUses raw p := by
    intro p hp
    rw [remainingUses, remainingUses, withDummy_initialUses (hne p hp)]
  refine { inv with ring := inv.ring.congr_mark hmark, specs := ?_, slots := ?_, buffers := ?_ }
  · intro call hcall
    have hspec := inv.specs call hcall
    have hown := hne _ hspec.isSeen
    refine { hspec with delimiter := ?_, staged := ?_, reports := ?_ }
    · rw [hspec.delimiter, withDummy_hasTupleDelimiter hown]
    · rw [hspec.staged, withDummy_stagedBuffer hown]
    · intro d e
      rw [hspec.reports d e, completedBy_congr hmark, ShredderInput.Missed, ShredderInput.Missed,
        withDummy_hasTupleDelimiter hown]
  · intro p hp hlow
    rw [UsesLeft, huses p hp, withDummy_staged (hne p hp)]
    exact inv.slots p hp hlow
  · rintro ⟨call, buffers⟩ hresult
    have hcall : call ∈ sys.returnedCalls := mem_returnedCalls.2 ⟨buffers, hresult⟩
    have hspec := inv.specs call (mem_calls_of_returned hcall)
    have hlt : call.endIndex < m + 1 := Nat.lt_succ_of_le (le_of_mem_seen hall hspec.endIndex_mem)
    rw [inv.buffers _ hresult, withDummy_buffersOf hlt]

end ShredderInvariant

/-! ## The search for the largest sequence number -/

lemma countlZero_eq {w : Bitmap} {i : Nat} (hi : i < 64) (hbits : ∀ j, j < 64 → (w.getLsbD j = true ↔ j ≤ i)) :
    countlZero w = 63 - i := by
  refine countOnes_eq (by omega) ?_ ?_
  · intro j hj
    have hzero : w.getLsbD (63 - j) = false := by
      rw [Bool.eq_false_iff]
      intro hbit
      have hle := (hbits (63 - j) (by omega)).1 hbit
      omega
    rw [BitVec.getLsbD_not, hzero]
    simp only [Bool.not_false, Bool.and_true, decide_eq_true_eq]
    omega
  · have hone : w.getLsbD (63 - (63 - i)) = true := (hbits _ (by omega)).2 (by omega)
    rw [BitVec.getLsbD_not, hone]
    simp

/-- The buffers the flush returns: those from the last mark on, and the dummy. -/
def ShredderInput.flushedBuffers (raw : ShredderInput) (m : Nat) : SpanningTupleBuffers :=
  ⟨m + 1 - Nat.findGreatest raw.Mark m,
    (indicesOfSpan (Nat.findGreatest raw.Mark m) m).map raw.staged
      ++ [dummyStagedBuffer]⟩

/-- The sequence number the flush uses: behind the last buffer, unless the uses of the last buffer say that
no tuple with its number was produced. -/
def ShredderSystem.flushNumber (sys : ShredderSystem) (raw : ShredderInput) (m : Nat) : Nat :=
  if raw.Mark m ∧ sys.remainingUses raw m ≠ 2 then m + 1 else m

namespace ShredderInvariant

variable {raw : ShredderInput} {sys : ShredderSystem} {m : Nat}

lemma mem_seen_iff_le (hall : sys.AllReturned m) {p : Nat} : p ∈ sys.seen ↔ p ≤ m := by
  rw [mem_seen_iff, hall.entered]
  omega

section

variable (inv : ShredderInvariant raw sys) (hall : sys.AllReturned m)
include inv hall

lemma seenBit_iff {b : Nat}
    (hb : sys.shredder.tail ≤ b) (hb' : b < sys.shredder.tail + sys.shredder.numberOfBitmaps) {i : Nat}
    (hi : i < 64) :
    (sys.shredder.seenAndUsedBitmaps (b % sys.shredder.numberOfBitmaps)
        ||| sys.shredder.tupleDelimiterBitmaps (b % sys.shredder.numberOfBitmaps)).getLsbD i = true ↔
      b * 64 + i ≤ m := by
  have hin : sys.shredder.InRing (b * 64 + i) := ⟨by omega, by omega⟩
  have hdelimiter := inv.ring.delimiter _ hin
  have hdone := inv.ring.done _ hin
  rw [ringBit_mul_add b hi] at hdelimiter hdone
  rw [BitVec.getLsbD_or, Bool.or_eq_true, hdelimiter, hdone, ← mem_seen_iff_le hall]
  constructor
  · rintro (hold | hmark)
    · exact hold.1
    · exact hmark.1
  · intro hseen
    by_cases hmark : raw.Mark (b * 64 + i)
    · exact .inr ⟨hseen, hmark⟩
    · exact .inl ⟨hseen, fun h => absurd h hmark⟩

lemma inRing_last : sys.shredder.InRing m := by
  refine ⟨?_, inv.ring.ahead m ((mem_seen_iff_le hall).2 le_rfl)⟩
  rw [inv.tail_eq hall]
  refine Nat.div_le_div_right ?_
  unfold oldestOpen
  split
  · exact Nat.zero_le m
  · exact Nat.findGreatest_le m

lemma find_lastBitmap : (range' 1 sys.shredder.numberOfBitmaps).find? (fun offsetToTail =>
        decide (sys.shredder.seenAndUsedBitmaps ((sys.shredder.tail + (sys.shredder.numberOfBitmaps - offsetToTail))
              &&& sys.shredder.numberOfBitmapsModulo)
          ||| sys.shredder.tupleDelimiterBitmaps ((sys.shredder.tail + (sys.shredder.numberOfBitmaps - offsetToTail))
              &&& sys.shredder.numberOfBitmapsModulo) ≠ 0#64))
      = some (sys.shredder.tail + sys.shredder.numberOfBitmaps - m / 64) := by
  rcases inv.inRing_last hall with ⟨hlow, hhigh⟩
  simp only [inv.ring.tail_and_modulo]
  rw [find?_range'_eq_some]
  refine ⟨?_, mem_range'_1.2 (by omega), ?_⟩
  · -- the bit of the last buffer is set
    rw [show sys.shredder.tail + (sys.shredder.numberOfBitmaps
      - (sys.shredder.tail + sys.shredder.numberOfBitmaps - m / 64)) = m / 64 by omega, decide_eq_true_eq]
    intro hzero
    have hbit := (inv.seenBit_iff hall hlow hhigh (Nat.mod_lt m (by omega))).2 (by omega)
    rw [(eq_zero_iff_bits _).1 hzero _ (Nat.mod_lt m (by omega))] at hbit
    cases hbit
  · -- the bitmaps above it are empty
    intro offset hone hbelow
    simp only [ne_eq, decide_not, Bool.not_not, decide_eq_true_eq]
    refine (eq_zero_iff_bits _).2 fun i hi => ?_
    rw [Bool.eq_false_iff]
    intro hbit
    have hle := (inv.seenBit_iff hall (by omega) (by omega) hi).1 hbit
    omega

end

/-! ## The dummy call -/

lemma stretch_of_dummy {seen : List Nat} (hspec : CallSpec (raw.withDummy (m + 1)) ((m + 1) :: seen) call)
    (hseen : ∀ p, p ∈ seen ↔ p ≤ m) (hsn : call.sequenceNumber = m + 1) :
    call.hasTupleDelimiter = true ∧ call.startIndex = Nat.findGreatest raw.Mark m ∧ call.endIndex = m + 1 := by
  have hyes : call.hasTupleDelimiter = true := by
    rw [hspec.delimiter, hsn, withDummy_hasTupleDelimiter_self]
  have hgreatest : Nat.findGreatest raw.Mark m ≤ m := Nat.findGreatest_le m
  have hmark : raw.Mark (Nat.findGreatest raw.Mark m) := by
    exact Nat.findGreatest_spec (Nat.zero_le m) raw.mark_zero
  -- the span in front of the dummy
  have hspan : Consecutive (raw.withDummy (m + 1)).Mark (Nat.findGreatest raw.Mark m) (m + 1) := by
    refine ⟨by omega, (withDummy_mark (by omega)).2 hmark,
      .inr withDummy_hasTupleDelimiter_self, ?_⟩
    intro p hp hpm hmarked
    have hle := Nat.le_findGreatest (Nat.le_of_lt_succ hpm) ((withDummy_mark (Nat.ne_of_lt hpm)).1 hmarked)
    omega
  have hcompleted : CompletedBy (raw.withDummy (m + 1)).Mark ((m + 1) :: seen) (m + 1)
      (Nat.findGreatest raw.Mark m) (m + 1) := by
    refine ⟨⟨hspan, fun p _ hpe => ?_⟩, ?_⟩
    · rcases Nat.eq_or_lt_of_le hpe with rfl | hlt
      · exact mem_cons_self
      · exact mem_cons_of_mem _ ((hseen p).2 (Nat.le_of_lt_succ hlt))
    · refine find?_cons_of_pos ?_
      simp only [le_refl, decide_true, Bool.and_true, decide_eq_true_eq]
      omega
  have hreported := (hspec.reports (Nat.findGreatest raw.Mark m) (m + 1)).2 (by
    rw [hsn]
    refine ⟨hcompleted, fun hmissed => ?_⟩
    have hno := hmissed.2.1
    rw [withDummy_hasTupleDelimiter_self] at hno
    exact absurd hno (by simp))
  refine ⟨hyes, ?_, ?_⟩
  · rcases (mem_reportedSpans_of_delimiter hyes).1 hreported with ⟨hv, hstart, _⟩ | ⟨_, hstart, _⟩
    · rw [startIndex, if_pos hv, hstart]
    · omega
  · -- nothing arrived behind the dummy
    have hle := hspec.le_endIndex
    rcases mem_cons.1 hspec.endIndex_mem with heq | hmem
    · exact heq
    · have hlt := (hseen _).1 hmem
      omega

variable (inv : ShredderInvariant raw sys) (hall : sys.AllReturned m)
include inv hall

lemma processDummy (hrange : (m + 1) / 64 < sys.shredder.tail + sys.shredder.numberOfBitmaps) :
    ∃ s', sys.shredder.processSequenceNumber true dummyStagedBuffer (m + 1) = some (s', raw.flushedBuffers m) := by
  have hnew : m + 1 ∉ sys.entered := by
    rw [hall.entered]
    omega
  have hgranted : m + 1 ∈ (sys.askInRange (m + 1)).inRange := by
    simp [ShredderSystem.askInRange, isInRange, shiftRight_bitmapSizeBitShift, hrange]
  have hsame : (sys.askInRange (m + 1)).shredder = sys.shredder := by
    simp [ShredderSystem.askInRange, isInRange, shiftRight_bitmapSizeBitShift, hrange]
  have inv' := (inv.withDummy hall).askInRange (m + 1)
  -- the first locked section
  rcases inv'.beginCall (Nat.succ_pos m) hgranted hnew with ⟨sys₁, hbegin, inv₁⟩
  simp only [ShredderSystem.beginCall, bind_eq_bind, bind_eq_some_iff, some_inj, hsame] at hbegin
  rcases hbegin with ⟨⟨s₁, call⟩, hbegin, rfl⟩
  have hstaged : call.sequenceNumber = m + 1 ∧ s₁.tail = sys.shredder.tail := by
    simp only [beginProcessSequenceNumber, bind_eq_bind, bind_eq_some_iff, some_inj, Prod.mk.injEq] at hbegin
    rcases hbegin with ⟨found, _, rfl, rfl⟩
    exact ⟨rfl, rfl⟩
  have hcall : call ∈ call :: (sys.askInRange (m + 1)).inFlight := mem_cons_self
  rcases stretch_of_dummy (inv₁.specs call (mem_calls_of_inFlight hcall))
    (fun p => mem_seen_iff_le hall) hstaged.1 with ⟨hyes, hstart, hend⟩
  -- the second locked section; the tail has not passed the dummy
  have hlow : s₁.tail ≤ call.sequenceNumber / 64 := by
    have hlast := (inv.inRing_last hall).1
    omega
  rcases inv₁.endCall_withTupleDelimiter hcall hyes hlow with ⟨sys₂, hfinish, inv₂⟩
  simp only [ShredderSystem.endCall, bind_eq_bind, bind_eq_some_iff, some_inj] at hfinish
  rcases hfinish with ⟨⟨s₂, buffers⟩, hfinish, rfl⟩
  have hbuffers : buffers = (raw.withDummy (m + 1)).buffersOf call := inv₂.buffers (call, buffers) mem_cons_self
  have hgreatest : Nat.findGreatest raw.Mark m ≤ m := Nat.findGreatest_le m
  have hret : call.returnsBuffers = true := by
    rw [returnsBuffers, hyes, Bool.true_or]
  refine ⟨s₂, ?_⟩
  rw [withDummy_hasTupleDelimiter_self, withDummy_stagedBuffer_self] at hbegin
  rw [processSequenceNumber, hbegin]
  simp only [bind_eq_bind, bind_some, hfinish]
  rw [hbuffers, buffersOf, if_pos hret, hstart, hend, hstaged.1, map_staged_withDummy hgreatest, flushedBuffers]

/-! ## The flush -/

lemma flushFinalPartialTuple_spec (hrange : (m + 1) / 64 < sys.shredder.tail + sys.shredder.numberOfBitmaps) :
    ∃ s', sys.shredder.flushFinalPartialTuple = some (s', raw.flushedBuffers m, sys.flushNumber raw m) := by
  rcases inv.processDummy hall hrange with ⟨s', hprocess⟩
  rcases inv.inRing_last hall with ⟨hlow, hhigh⟩
  have hmod : m % 64 < 64 := Nat.mod_lt m (by omega)
  have hseen : m ∈ sys.seen := (mem_seen_iff_le hall).2 le_rfl
  -- the bitmap of the last buffer
  have hoffset : sys.shredder.tail + (m / 64 - sys.shredder.tail) = m / 64 := by omega
  have hdistance : sys.shredder.numberOfBitmaps
      - (sys.shredder.tail + sys.shredder.numberOfBitmaps - m / 64) = m / 64 - sys.shredder.tail := by
    omega
  have hzeros : countlZero (sys.shredder.seenAndUsedBitmaps (m / 64 % sys.shredder.numberOfBitmaps)
      ||| sys.shredder.tupleDelimiterBitmaps (m / 64 % sys.shredder.numberOfBitmaps)) = 63 - m % 64 := by
    refine countlZero_eq hmod fun j hj => ?_
    rw [inv.seenBit_iff hall hlow hhigh hj]
    omega
  -- the number behind the last buffer
  have hnext : sys.shredder.tail * 64 + (m / 64 - sys.shredder.tail) % sys.shredder.numberOfBitmaps * 64
      + (64 - (63 - m % 64)) = m + 1 := by
    rw [Nat.mod_eq_of_lt (by omega)]
    omega
  have hbit : (sys.shredder.tupleDelimiterBitmaps (m / 64 % sys.shredder.numberOfBitmaps)).getLsbD
      (m % 64) = true ↔ raw.Mark m := by
    have hdelimiter := inv.ring.delimiter m ⟨hlow, hhigh⟩
    rw [ringBit] at hdelimiter
    rw [hdelimiter]
    exact and_iff_right hseen
  have hplace : 64 - (63 - m % 64) - 1 = m % 64 := by omega
  have hshift : shiftLeft? firstBitMask (m % 64) = some (1#64 <<< (m % 64)) := if_pos hmod
  have huses := (inv.slots m hseen hlow).1
  rw [slotOf] at huses
  refine ⟨s', ?_⟩
  unfold flushFinalPartialTuple
  simp only [inv.find_lastBitmap hall]
  simp only [inv.ring.tail_and_modulo, hoffset, hdistance, hzeros, shiftLeft_bitmapSizeBitShift,
    sizeOfBitmapInBits, hnext, hplace, hshift, hprocess, bind_eq_bind, bind_some,
    Nat.add_sub_cancel, stagedBuffersSize, inv.ring.size.and_mul_sub_one, huses,
    BitVec.and_comm _ (1#64 <<< (m % 64)), one_shiftLeft_and_ne_zero hmod]
  by_cases hnumber : raw.Mark m ∧ sys.remainingUses raw m ≠ 2
  · rw [flushNumber, if_pos hnumber]
    simp [hbit.2 hnumber.1, hnumber.2]
  · rw [flushNumber, if_neg hnumber, if_neg]
    rw [Bool.and_eq_true, hbit, decide_eq_true_eq]
    exact hnumber

/-- If no span was missed, the number behind the last buffer is used exactly if that has a delimiter. -/
lemma remainingUses_last_le (hpos : 0 < m) (hdelimiter : raw.hasTupleDelimiter m = true)
    (hfirst : raw.firstSpanMissed sys.entered m = false) : sys.remainingUses raw m ≤ 1 := by
  -- the tuple that ends in the last buffer was reported
  have hspan : Consecutive raw.Mark (Nat.findGreatest raw.Mark (m - 1)) m := by
    have hmark : raw.Mark (m - 1 + 1) := by
      rw [Nat.sub_add_cancel hpos]
      exact .inr hdelimiter
    have hspan := consecutive_findGreatest raw.mark_zero hmark
    rwa [Nat.sub_add_cancel hpos] at hspan
  have hreported := (inv.reported_iff hall hspan le_rfl).2 fun _ => hfirst
  have hspans : 1 ≤ sys.reported.countP (covers m) := by
    refine countP_pos_iff.2 ⟨_, hreported, ?_⟩
    simp [covers, le_of_lt hspan.lt]
  -- its own call returned it
  have hcalls : sys.calls = sys.returnedCalls := by
    simp [calls, hall.inFlight]
  rcases mem_map.1 (inv.numbers.mem_iff.2 ((hall.entered m).2 ⟨hpos, le_rfl⟩)) with ⟨call, hcall, hsn⟩
  have hyes : call.hasTupleDelimiter = true := by
    rw [(inv.specs call hcall).delimiter, hsn, hdelimiter]
  have hown : 1 ≤ sys.returnedCalls.countP fun call =>
      call.hasTupleDelimiter && decide (call.sequenceNumber = m) := by
    refine countP_pos_iff.2 ⟨call, hcalls ▸ hcall, ?_⟩
    simp [hyes, hsn]
  rw [remainingUses, sum_takes_eq, initialUses]
  rw [reported] at hspans
  omega

lemma flushNumber_eq (hpos : 0 < m) (hfirst : raw.firstSpanMissed sys.entered m = false) :
    sys.flushNumber raw m = if raw.hasTupleDelimiter m then m + 1 else m := by
  by_cases hdelimiter : raw.hasTupleDelimiter m = true
  · have hle := inv.remainingUses_last_le hall hpos hdelimiter hfirst
    rw [flushNumber, if_pos hdelimiter, if_pos ⟨.inr hdelimiter, by omega⟩]
  · have hnot : ¬ raw.Mark m := fun h => hdelimiter ((raw.mark_iff_of_pos hpos).1 h)
    rw [flushNumber, if_neg hdelimiter, if_neg fun h => hnot h.1]

end ShredderInvariant

end MobilityNebula.InputFormatters
