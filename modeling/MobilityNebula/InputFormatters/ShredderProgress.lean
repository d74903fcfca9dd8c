import MobilityNebula.InputFormatters.ShredderInvariant

/-!
# ShredderProgress — every enabled event has a next state and keeps the invariant

One lemma per event.  The second locked section comes in three forms (a buffer without a delimiter that
completed nothing, one that completed a span, a buffer with a delimiter); all of them end in
`ShredderInvariant.finish`, which says what is left to show about the bitmaps and the slots.
-/

namespace MobilityNebula.InputFormatters

open Library SequenceShredder ProcessSequenceNumberCall ShredderInput ShredderSystem List Option Function
  BitVec RingAdvanced

/-! ## Asking for the range -/

lemma ShredderInvariant.askInRange {raw : ShredderInput} {sys : ShredderSystem}
    (inv : ShredderInvariant raw sys) (sn : Nat) : ShredderInvariant raw (sys.askInRange sn) := by
  unfold ShredderSystem.askInRange isInRange
  by_cases hrange : sn >>> bitmapSizeBitShift < sys.shredder.tail + sys.shredder.numberOfBitmaps
  · simp only [hrange, if_true]
    refine { inv with inRange := ?_ }
    intro sn' hsn'
    rcases mem_cons.1 hsn' with rfl | hmem
    · rwa [shiftRight_bitmapSizeBitShift] at hrange
    · exact inv.inRange sn' hmem
  · -- only the number of resize requests changes
    simp only [hrange, if_false]
    exact { inv with
      ring := { inv.ring with }
      fits := fun call hcall => ⟨(inv.fits call hcall).size, (inv.fits call hcall).index⟩ }

/-! ## The first locked section -/

/-- The tail bitmap stays open: if the arrival fills its last open position, the walk down from there
finds another one. -/
lemma RingRepresents.stage {mark : Nat → Prop} {seen : List Nat} {used : Nat → Prop}
    {s : SequenceShredder} {x : Nat} (h : RingRepresents mark seen used s) {hasTupleDelimiter : Bool}
    (buffer : StagedBuffer) (hmark : mark x ↔ hasTupleDelimiter = true) (hx : x ∉ seen)
    (hpos : 0 < x) (hzero : mark 0) (hused : ∀ d, used d → ∃ e, Complete mark seen d e)
    (hrange : x / 64 < s.tail + s.numberOfBitmaps) :
    RingRepresents mark (x :: seen) used (s.stageSequenceNumber hasTupleDelimiter buffer x).1 := by
  have hunused : ¬ used x := by
    intro hu
    rcases hused x hu with ⟨e, hcomplete⟩
    exact hx (hcomplete.arrived x le_rfl (le_of_lt hcomplete.span.lt))
  refine ⟨h.toRingBits.stage buffer hmark hx hunused hrange, ?_⟩
  rcases h.tailOpen with ⟨p, hp, hopen⟩
  by_cases hpx : p = x
  · subst hpx
    rcases exists_not_done_below hused hzero hpos hx with ⟨j, hj, hjopen, _⟩
    have hlow : s.tail ≤ j / 64 := by
      by_contra hlt
      exact hjopen (h.behind j (by omega))
    have htail : j / 64 = s.tail := by omega
    refine ⟨j, htail, ?_⟩
    rwa [done_cons_iff (Nat.ne_of_lt hj)]
  · refine ⟨p, hp, ?_⟩
    rwa [done_cons_iff hpx]

section Slots

variable {s : SequenceShredder} (h : IsRingSize s.numberOfBitmaps) (hasTupleDelimiter : Bool)
  (buffer : StagedBuffer) (x : Nat)
include h

lemma IsRingSize.stagedBuffers_stage : (s.stageSequenceNumber hasTupleDelimiter buffer x).1.stagedBuffers
      = update s.stagedBuffers (slotOf s.numberOfBitmaps x) buffer := by
  rw [← h.and_slots]
  rfl

lemma IsRingSize.stagedBufferUses_stage : (s.stageSequenceNumber hasTupleDelimiter buffer x).1.stagedBufferUses
      = update s.stagedBufferUses (slotOf s.numberOfBitmaps x) (if hasTupleDelimiter then 3 else 1) := by
  rw [← h.and_slots]
  rfl

end Slots

lemma CallSpec.takes_eq_zero {raw : ShredderInput} {seen : List Nat}
    {call : ProcessSequenceNumberCall} (h : CallSpec raw seen call) {p : Nat} (hp : p ∉ seen) : call.takes p = 0 := by
  have hspans : call.reportedSpans.countP (covers p) = 0 := by
    rw [countP_eq_zero]
    rintro ⟨d, e⟩ hmem hcov
    have hcomplete := ((h.reports d e).1 hmem).1.complete
    exact hcomplete.not_between hp (covers_iff.1 hcov)
  have hown : call.sequenceNumber ≠ p := fun heq => hp (heq ▸ h.isSeen)
  simp [ProcessSequenceNumberCall.takes, hspans, hown]

/-! ## Setting the used bits and moving the tail -/

section Mark

variable {mark : Nat → Prop} {seen : List Nat} {used used' : Nat → Prop} {s s' : SequenceShredder}

lemma RingBits.of_sameBitmaps (h : RingBits mark seen used s)
    (hsame : SameBitmaps s s') : RingBits mark seen used s' := by
  rcases s' with ⟨tail', td', su', n', modulo', requests', buffers', uses'⟩
  rcases hsame with ⟨ht, htd, hsu, hn, hm⟩
  subst ht htd hsu hn hm
  exact { h with }

lemma RingBits.congr_used (h : RingBits mark seen used s) (hused : ∀ d, used d ↔ used' d) :
    RingBits mark seen used' s := by
  have heq : used = used' := funext fun d => propext (hused d)
  exact heq ▸ h

/-- The shredder with further bits set in one seen-and-used bitmap. -/
def SequenceShredder.setSeenAndUsed (s : SequenceShredder) (bitmapIndex : Nat) (bits : Bitmap) : SequenceShredder :=
  { s with
    seenAndUsedBitmaps :=
      update s.seenAndUsedBitmaps bitmapIndex (s.seenAndUsedBitmaps bitmapIndex ||| bits) }

/-- The shredder with the buffer of one slot moved out. -/
def SequenceShredder.emptySlot (s : SequenceShredder) (position : Nat) : SequenceShredder :=
  { s with
    stagedBuffers :=
      update s.stagedBuffers position { s.stagedBuffers position with buffer := none } }

lemma RingBits.setUsed_if (h : RingBits mark seen used s) {x bitmapIndex : Nat} {isValid : Bool}
    (hindex : isValid = true → bitmapIndex = x / 64 % s.numberOfBitmaps) (hx : isValid = true → s.InRing x ∧ x ∈ seen) :
    RingBits mark seen (fun d => used d ∨ (isValid = true ∧ d = x)) (s.setSeenAndUsed bitmapIndex
        ((ofBool isValid).setWidth 64 <<< (x &&& bitmapSizeModulo))) := by
  cases isValid with
  | false =>
    have hzero : (ofBool false).setWidth 64 <<< (x &&& bitmapSizeModulo) = 0#64 := by
      simp
    simp only [setSeenAndUsed, hzero, or_zero, update_eq_self]
    exact h.congr_used (by simp)
  | true =>
    have hone : (ofBool true).setWidth 64 = firstBitMask := by decide
    rw [hindex rfl, hone, and_bitmapSizeModulo]
    exact (h.setUsed (hx rfl).1 (hx rfl).2).congr_used (by simp)

/-- The tail is moved exactly if its bitmap is complete, so afterwards the tail bitmap is open again. -/
lemma RingBits.incrementTail_if {isCompleted : Bool} (h : RingBits mark seen used s)
    (hcompleted : isCompleted = true ↔ ∀ p, p / 64 = s.tail → Done mark seen used p) :
    ∃ s', (if isCompleted then s.incrementTail else some s) = some s' ∧
      RingRepresents mark seen used s' ∧ RingAdvanced s s' := by
  cases hc : isCompleted with
  | true =>
    simpa using incrementTail_spec s h (hcompleted.1 hc)
  | false =>
    have hopen : ∃ p, p / 64 = s.tail ∧ ¬ Done mark seen used p := by
      by_contra hall
      push Not at hall
      have htrue := hcompleted.2 hall
      rw [hc] at htrue
      cases htrue
    exact ⟨s, rfl, ⟨h, hopen⟩, refl s⟩

lemma exists_new_of_completed {t : Nat} (hopen : ∃ p, p / 64 = t ∧ ¬ Done mark seen used p)
    (hall : ∀ p, p / 64 = t → Done mark seen used' p) :
    ∃ p, p / 64 = t ∧ used' p ∧ ¬ used p := by
  rcases hopen with ⟨p, hp, hnot⟩
  have hdone := hall p hp
  have hmark : mark p := by
    by_contra hm
    exact hnot (done_of_not_mark hdone.1 hm)
  exact ⟨p, hp, hdone.2 hmark, fun hu => hnot ⟨hdone.1, fun _ => hu⟩⟩

lemma RingBits.completedTail_iff (h : RingBits mark seen used s) {b : Nat} :
    (s.seenAndUsedBitmaps (b % s.numberOfBitmaps) = maxValue ∧ b = s.tail) ↔
      b = s.tail ∧ ∀ p, p / 64 = s.tail → Done mark seen used p := by
  have hpos := h.size.pos
  constructor
  · rintro ⟨hmax, rfl⟩
    exact ⟨rfl, (h.seenAndUsed_eq_maxValue_iff le_rfl (by omega)).1 hmax⟩
  · rintro ⟨rfl, hall⟩
    exact ⟨(h.seenAndUsed_eq_maxValue_iff le_rfl (by omega)).2 hall, rfl⟩

variable (h : RingRepresents mark seen used s)
include h

/-- Setting the bits of the two starts of a buffer with a delimiter, each as far as it is valid, and moving the tail if
that completed the tail bitmap. -/
lemma RingRepresents.setStarts (hsame : SameBitmaps s s') {a x aIndex xIndex : Nat} {aValid xValid : Bool}
    (ha : aValid = true → s.InRing a ∧ a ∈ seen ∧ aIndex = a / 64 % s.numberOfBitmaps)
    (hx : s.InRing x) (hseen : x ∈ seen) (hindex : xIndex = x / 64 % s.numberOfBitmaps) :
    let s₂ := (s'.setSeenAndUsed aIndex
        ((ofBool aValid).setWidth 64 <<< (a &&& bitmapSizeModulo))).setSeenAndUsed xIndex
        ((ofBool xValid).setWidth 64 <<< (x &&& bitmapSizeModulo))
    ∃ s₃, (if ((decide (s₂.seenAndUsedBitmaps aIndex = maxValue) && aValid)
              && decide (a >>> bitmapSizeBitShift = s₂.tail))
            || ((decide (s₂.seenAndUsedBitmaps xIndex = maxValue) && xValid)
              && decide (x >>> bitmapSizeBitShift = s₂.tail)) then
          s₂.incrementTail
        else
          some s₂) = some s₃ ∧
      RingRepresents mark seen (fun d => (used d ∨ (aValid = true ∧ d = a)) ∨ (xValid = true ∧ d = x)) s₃ ∧
      RingAdvanced s₂ s₃ := by
  intro s₂
  have hring : ∀ p, s.InRing p → s'.InRing p := by
    intro p hp
    rw [SequenceShredder.InRing, hsame.tail, hsame.numberOfBitmaps]
    exact hp
  rw [← hsame.numberOfBitmaps] at hindex
  have haIndex : aValid = true → aIndex = a / 64 % s'.numberOfBitmaps := by
    intro hv
    rw [hsame.numberOfBitmaps]
    exact (ha hv).2.2
  have hused : RingBits mark seen (fun d => (used d ∨ (aValid = true ∧ d = a)) ∨ (xValid = true ∧ d = x)) s₂ :=
    ((h.toRingBits.of_sameBitmaps hsame).setUsed_if haIndex
      fun hv => ⟨hring a (ha hv).1, (ha hv).2.1⟩).setUsed_if (fun _ => hindex) fun _ => ⟨hring x hx, hseen⟩
  refine hused.incrementTail_if ?_
  have hcompleted : ∀ {b i : Nat}, i = b / 64 % s'.numberOfBitmaps →
      ((s₂.seenAndUsedBitmaps i = maxValue ∧ b >>> bitmapSizeBitShift = s₂.tail) ↔
        b / 64 = s₂.tail ∧ ∀ p, p / 64 = s₂.tail → Done mark seen
          (fun d => (used d ∨ (aValid = true ∧ d = a)) ∨ (xValid = true ∧ d = x)) p) := by
    intro b i hi
    rw [hi, shiftRight_bitmapSizeBitShift]
    exact hused.completedTail_iff
  simp only [Bool.or_eq_true, Bool.and_eq_true, decide_eq_true_eq]
  constructor
  · rintro (⟨⟨hmax, hv⟩, htail⟩ | ⟨⟨hmax, _⟩, htail⟩)
    · exact ((hcompleted (haIndex hv)).1 ⟨hmax, htail⟩).2
    · exact ((hcompleted hindex).1 ⟨hmax, htail⟩).2
  · intro hall
    have hopen : ∃ p, p / 64 = s₂.tail ∧ ¬ Done mark seen used p := by
      rw [show s₂.tail = s.tail from hsame.tail]
      exact h.tailOpen
    rcases exists_new_of_completed hopen hall with ⟨p, hp, (hu | ⟨hv, rfl⟩) | ⟨hv, rfl⟩, hold⟩
    · exact absurd hu hold
    · rcases (hcompleted (haIndex hv)).2 ⟨hp, hall⟩ with ⟨hmax, htail⟩
      exact .inl ⟨⟨hmax, hv⟩, htail⟩
    · rcases (hcompleted hindex).2 ⟨hp, hall⟩ with ⟨hmax, htail⟩
      exact .inr ⟨⟨hmax, hv⟩, htail⟩

/-- The same for one start. -/
lemma RingRepresents.setStart (hsame : SameBitmaps s s') {a bitmapIndex : Nat} (ha : s.InRing a)
    (hseen : a ∈ seen) (hindex : bitmapIndex = a / 64 % s.numberOfBitmaps) :
    let s₂ := s'.setSeenAndUsed bitmapIndex (firstBitMask <<< (a &&& bitmapSizeModulo))
    ∃ s₃, (if decide (s₂.seenAndUsedBitmaps bitmapIndex = maxValue) && decide (a >>> bitmapSizeBitShift = s₂.tail) then
          s₂.incrementTail
        else
          some s₂) = some s₃ ∧
      RingRepresents mark seen (fun d => used d ∨ d = a) s₃ ∧ RingAdvanced s₂ s₃ := by
  have hboth := @setStarts _ _ _ _ _ h hsame 0 a bitmapIndex bitmapIndex false true nofun ha hseen hindex
  intro s₂
  simpa [s₂, setSeenAndUsed, firstBitMask] using hboth

lemma RingRepresents.congr_used (hused : ∀ d, used d ↔ used' d) : RingRepresents mark seen used' s := by
  have heq : used = used' := funext fun d => propext (hused d)
  exact heq ▸ h

end Mark

namespace ShredderInvariant

variable {raw : ShredderInput} {sys : ShredderSystem} {call : ProcessSequenceNumberCall}

/-- The slots as they have to be once the call has taken its uses. -/
def SlotsLeft (raw : ShredderInput) (sys : ShredderSystem) (call : ProcessSequenceNumberCall) (s' : SequenceShredder) :
    Prop :=
  ∀ p ∈ sys.seen, sys.shredder.tail ≤ p / 64 →
    raw.UsesLeft s' sys.shredder.numberOfBitmaps p (sys.remainingUses raw p - call.takes p)

/-- Slot `i` is left as it was or its buffer was moved out. -/
def TakenFrom (s s' : SequenceShredder) (i : Nat) : Prop :=
  0 ≤ s'.stagedBufferUses i ∧ (s'.stagedBuffers i = s.stagedBuffers i ∨ (s'.stagedBuffers i).buffer = none)

lemma mem_reportedSpans_of_delimiter (hyes : call.hasTupleDelimiter = true) {d e : Nat} :
    (d, e) ∈ call.reportedSpans ↔ (call.spanningTuple.isStartValid = true ∧ d = call.spanningTuple.spanStart ∧
        e = call.sequenceNumber) ∨
      (call.spanningTuple.isEndValid = true ∧ d = call.sequenceNumber ∧ e = call.spanningTuple.spanEnd) := by
  simp only [reportedSpans, hyes, if_true, mem_append]
  cases call.spanningTuple.isStartValid with
  | false | true =>
    cases call.spanningTuple.isEndValid with
    | false => simp
    | true => simp

section

variable (inv : ShredderInvariant raw sys)
include inv

lemma remainingUses_of_not_seen {p : Nat} (hp : p ∉ sys.seen) : sys.remainingUses raw p = raw.initialUses p := by
  have hzero : ∀ t ∈ sys.returnedCalls.map (fun call => call.takes p), t = 0 := by
    intro t ht
    rcases mem_map.1 ht with ⟨call, hcall, rfl⟩
    exact (inv.specs call (mem_calls_of_returned hcall)).takes_eq_zero hp
  rw [remainingUses, sum_eq_zero hzero, sub_zero]

lemma inRing_of_enabled {sn : Nat} (h : sys.Enabled (.beginCall sn)) : sn ∉ sys.seen ∧ sys.shredder.InRing sn := by
  have hunseen : sn ∉ sys.seen := by
    rw [mem_seen_iff]
    rintro (hmem | hzero)
    · exact h.2.2 hmem
    · exact absurd hzero (Nat.ne_of_gt h.1)
  refine ⟨hunseen, ?_, inv.inRange sn h.2.1⟩
  by_contra hlt
  exact hunseen (inv.ring.behind sn (by omega)).1

lemma beginCall {sn : Nat} (hpos : 0 < sn) (hrange : sn ∈ sys.inRange) (hnew : sn ∉ sys.entered) :
    ∃ sys', sys.beginCall raw sn = some sys' ∧ ShredderInvariant raw sys' := by
  rcases inv.inRing_of_enabled ⟨hpos, hrange, hnew⟩ with ⟨hunseen, hin⟩
  have hring := inv.ring.stage (raw.stagedBuffer sn) (raw.mark_iff_of_pos hpos) hunseen hpos
    raw.mark_zero (fun d => inv.complete_of_used) (inv.inRange sn hrange)
  rcases findSpanningTuple_spec (raw.hasTupleDelimiter sn) hring hunseen hpos raw.mark_zero
      (fun d => inv.complete_of_used) with ⟨found, hfind, hsearch⟩
  have hstaged := inv.ring.size.stagedBuffers_stage (raw.hasTupleDelimiter sn) (raw.stagedBuffer sn) sn
  have huses := inv.ring.size.stagedBufferUses_stage (raw.hasTupleDelimiter sn) (raw.stagedBuffer sn) sn
  have hsize : sys.shredder.numberOfBitmapsModulo + 1 = sys.shredder.numberOfBitmaps := by
    have hpos := inv.ring.size.pos
    rw [inv.ring.modulo]
    omega
  have hbegin : sys.shredder.beginProcessSequenceNumber (raw.hasTupleDelimiter sn) (raw.stagedBuffer sn) sn = some
        ((sys.shredder.stageSequenceNumber (raw.hasTupleDelimiter sn) (raw.stagedBuffer sn) sn).1,
          ⟨sn, raw.hasTupleDelimiter sn, raw.stagedBuffer sn, found, sys.shredder.numberOfBitmapsModulo⟩) := by
    rw [beginProcessSequenceNumber, stageSequenceNumber_eq]
    simp only [hfind, bind_eq_bind, bind_some, numberOfBitmapsModulo_snapshotFor]
    rfl
  refine ⟨_, by rw [ShredderSystem.beginCall, hbegin]; rfl, ?_⟩
  refine ⟨hring, inv.size_ge, inv.size_eq, inv.inRange, nodup_cons.2 ⟨hnew, inv.nodup⟩,
    inv.numbers.cons sn, ?_, ?_, ?_, ?_, ?_, inv.buffers⟩
  · intro call hcall
    rcases mem_cons.1 hcall with rfl | hmem
    · exact .of_search hunseen hpos hsearch
    · exact (inv.specs call hmem).cons hunseen
  · intro call hcall
    rcases mem_cons.1 hcall with rfl | hmem
    · refine ⟨?_, fun b _ _ => ?_⟩
      · simpa [hsize] using inv.ring.size
      · simp only [hsize]
        rfl
    · exact ⟨(inv.fits call hmem).size, (inv.fits call hmem).index⟩
  · intro p hp hlow
    rcases mem_cons.1 hp with rfl | hmem
    · have hleft : sys.remainingUses raw p = if raw.hasTupleDelimiter p then 3 else 1 :=
        (inv.remainingUses_of_not_seen hunseen).trans (if_neg (Nat.ne_of_gt hpos))
      refine ⟨(congrFun huses _).trans ((update_self _ _ _).trans hleft.symm), fun _ =>
        (congrFun hstaged _).trans ((update_self _ _ _).trans (raw.staged_of_pos hpos).symm), fun hzero => ?_⟩
      have hsome := hleft.symm.trans hzero
      split at hsome <;> cases hsome
    · have hne : slotOf sys.shredder.numberOfBitmaps p ≠ slotOf sys.shredder.numberOfBitmaps sn := by
        intro heq
        have hpx := slotOf_inj ⟨hlow, inv.ring.ahead p hmem⟩ hin heq
        exact hunseen (hpx ▸ hmem)
      have hold := inv.slots p hmem hlow
      have hkept := (congrFun hstaged _).trans (update_of_ne hne _ _)
      exact ⟨(congrFun huses _).trans ((update_of_ne hne _ _).trans hold.1), fun hleft => hkept.trans (hold.2.1 hleft),
        fun hzero => (congrArg StagedBuffer.buffer hkept).trans (hold.2.2 hzero)⟩
  · intro i
    simp only [huses]
    by_cases hi : i = slotOf sys.shredder.numberOfBitmaps sn
    · rw [hi, update_self]
      split <;> omega
    · rw [update_of_ne hi]
      exact inv.nonneg i
  · intro i
    simp only [hstaged]
    by_cases hi : i = slotOf sys.shredder.numberOfBitmaps sn
    · refine .inr ⟨_, mem_cons_self, by simp [hstaged, hi], by rw [hi, hsize], fun hlt => ?_⟩
      exact absurd hin.1 (Nat.not_le_of_lt hlt)
    · rw [update_of_ne hi]
      rcases inv.origin i with hnone | ⟨c, hc, hholds⟩
      · exact .inl hnone
      · refine .inr ⟨c, mem_cons_of_mem _ hc, by simpa [hstaged, hi] using hholds.1, hholds.2.1, fun hlt => ?_⟩
        exact ⟨mem_cons_of_mem _ (hholds.2.2 hlt).1, (hholds.2.2 hlt).2⟩

/-! ## The second locked section -/

variable (hcall : call ∈ sys.inFlight)
include hcall

lemma start_of_reports {d e : Nat} (h : (d, e) ∈ call.reportedSpans) : sys.shredder.tail ≤ d / 64 ∧ d ∈ sys.seen := by
  have hcomplete := (inv.completedBy_of_reports (mem_calls_of_inFlight hcall) h).complete
  refine ⟨?_, hcomplete.arrived d le_rfl (le_of_lt hcomplete.span.lt)⟩
  by_contra hlt
  have hdone := inv.ring.behind d (by omega)
  exact inv.not_used_of_inFlight hcall h (hdone.2 hcomplete.span.left)

/-- Moving a call from in flight to returned.  `s'` is the shredder after the staged buffers were
collected and the bits were set, `s''` the one after the tail was moved. -/
lemma finish {s' s'' : SequenceShredder} {buffers : SpanningTupleBuffers} {sys' : ShredderSystem}
    (hsys' : sys' = { sys with
      shredder := s'', inFlight := sys.inFlight.erase call, returned := (call, buffers) :: sys.returned })
    (hadvanced : RingAdvanced s' s'') (htail : s'.tail = sys.shredder.tail)
    (hnumber : s'.numberOfBitmaps = sys.shredder.numberOfBitmaps)
    (hring : RingRepresents raw.Mark sys.seen (fun d => sys.Used d ∨ ∃ e, (d, e) ∈ call.reportedSpans) s'')
    (hslots : SlotsLeft raw sys call s') (htaken : ∀ i, TakenFrom sys.shredder s' i)
    (hown : ∀ i, sys.Holds i call → call.sequenceNumber / 64 < sys.shredder.tail → (s'.stagedBuffers i).buffer = none)
    (hbuffers : buffers = raw.buffersOf call) :
    ShredderInvariant raw sys' := by
  have hperm : (sys.inFlight.erase call ++ call :: sys.returnedCalls).Perm sys.calls :=
    perm_middle.trans ((perm_cons_erase hcall).symm.append_right _)
  have hused : sys'.Used = fun d => sys.Used d ∨ ∃ e, (d, e) ∈ call.reportedSpans := by
    funext d
    apply propext
    simp only [hsys', ShredderSystem.Used, reported, returnedCalls, map_cons, flatMap_cons, mem_append]
    constructor
    · rintro ⟨e, hnew | hold⟩
      · exact .inr ⟨e, hnew⟩
      · exact .inl ⟨e, hold⟩
    · rintro (⟨e, hold⟩ | ⟨e, hnew⟩)
      · exact ⟨e, .inr hold⟩
      · exact ⟨e, .inl hnew⟩
  have hleft : ∀ p, sys'.remainingUses raw p = sys.remainingUses raw p - call.takes p := by
    intro p
    simp only [hsys', remainingUses, returnedCalls, map_cons, sum_cons]
    ring
  subst hsys'
  have htail_le := hadvanced.tail_le
  have hsize_le := hadvanced.size_le
  have hpos : 0 < s'.numberOfBitmaps := by
    rw [hnumber]
    exact inv.ring.size.pos
  refine ⟨?_, ?_, ?_, ?_, inv.nodup, (hperm.map _).trans inv.numbers, ?_, ?_, ?_, ?_, ?_, ?_⟩
  · rw [hused]
    exact hring
  · exact (hnumber ▸ inv.size_ge).trans hsize_le
  · intro hzero
    have htail' : s''.tail = s'.tail := by
      simp only at hzero
      omega
    rw [hadvanced.size_eq htail', hnumber]
    exact inv.size_eq (by simp only at hzero; omega)
  · intro sn hsn
    have hold := inv.inRange sn hsn
    simp only
    omega
  · intro c hc
    exact inv.specs c (hperm.mem_iff.1 hc)
  · -- the ring moved, but not under the positions of the calls
    intro c hc
    have hmem := hperm.mem_iff.1 hc
    have hfits := inv.fits c hmem
    refine ⟨hfits.size, fun b hb hb' => ?_⟩
    have hlast := inv.ring.ahead _ (inv.specs c hmem).endIndex_mem
    have hslot := hadvanced.keepsSlot b hb (by omega)
    simp only at hb ⊢
    rw [hslot, hnumber]
    exact hfits.index b (by omega) hb'
  · intro p hp hlow
    simp only at hlow ⊢
    have hahead := inv.ring.ahead p hp
    have hslot : slotOf s''.numberOfBitmaps p = slotOf s'.numberOfBitmaps p :=
      slotOf_congr (hadvanced.keepsSlot _ hlow (by omega))
    have hkept := hadvanced.keepsStaged _ (slotOf_lt hpos p)
    rw [hnumber] at hslot hkept
    rcases hslots p hp (by omega) with ⟨heq, hheld, hmoved⟩
    rw [hleft]
    exact ⟨by rw [hslot, hkept.2, heq], by rwa [hslot, hkept.1], by rwa [hslot, hkept.1]⟩
  · intro i
    rcases hadvanced.fresh i with ⟨-, heq⟩ | ⟨-, hzero⟩
    · exact heq ▸ (htaken i).1
    · exact le_of_eq hzero.symm
  · intro i
    rcases hadvanced.fresh i with ⟨heq, -⟩ | ⟨hnone, -⟩
    case inr => exact .inl hnone
    rcases (htaken i).2 with heq' | hnone
    case inr => exact .inl (by rwa [heq])
    rcases inv.origin i with hnone | ⟨c, hc, hholds⟩
    case inl => exact .inl (by rwa [heq, heq'])
    by_cases hkeep : c.sequenceNumber / 64 < s''.tail → c ∈ sys.inFlight.erase call ∧ c.hasTupleDelimiter = true
    · exact .inr ⟨c, hperm.mem_iff.2 hc, (heq.trans heq').trans hholds.1, hholds.2.1, hkeep⟩
    · -- the tail passes a buffer without uses left
      rcases Classical.not_imp.1 hkeep with ⟨hpassed, hgone⟩
      refine .inl ?_
      simp only [heq]
      rcases Nat.lt_or_ge (c.sequenceNumber / 64) sys.shredder.tail with hbehind | hin
      · rcases hholds.2.2 hbehind with ⟨hflight, hyes⟩
        have hsame : c = call := by
          by_contra hne
          exact hgone ⟨(mem_erase_of_ne hne).2 hflight, hyes⟩
        exact hown i (hsame ▸ hholds) (hsame ▸ hbehind)
      · have hspec := inv.specs c hc
        have hall := @initialUses_le_sum_takes raw (call :: sys.returnedCalls) sys.seen c.sequenceNumber hspec.pos
          (by
            rintro ⟨d, e⟩ hmem
            rcases mem_flatMap.1 hmem with ⟨c', hc', hreport⟩
            exact (inv.completedBy_of_reports (hperm.mem_iff.1 (mem_append_right _ hc')) hreport).complete.span)
          (by
            intro q hq
            have hdone := hring.behind q (lt_of_le_of_lt (Nat.div_le_div_right hq) hpassed)
            rwa [← hused] at hdone)
          (by
            intro hdel
            rw [← hspec.delimiter] at hdel
            rcases mem_append.1 (hperm.mem_iff.2 hc) with hflight | hreturned
            · exact absurd ⟨hflight, hdel⟩ hgone
            · exact ⟨c, hreturned, hdel, rfl⟩)
        have hle := inv.takes_le_remainingUses hcall c.sequenceNumber
        rw [map_cons, sum_cons] at hall
        have hindex : i = slotOf sys.shredder.numberOfBitmaps c.sequenceNumber :=
          hholds.2.1.trans (slotOf_congr ((inv.fits c hc).index _ hin (Nat.div_le_div_right hspec.le_endIndex)))
        rw [hindex]
        refine (hslots _ hspec.isSeen hin).2.2 ?_
        rw [remainingUses] at hle ⊢
        omega
  · intro result hresult
    rcases mem_cons.1 hresult with rfl | hmem
    · exact hbuffers
    · exact inv.buffers result hmem

/-- The collecting loops return the staged buffers of the call's stretch of positions. -/
lemma collect (hret : call.returnsBuffers = true) (hlow : sys.shredder.tail ≤ call.startIndex / 64)
    (usesOf : Nat → Int) (isAllowed : Int → Bool) {modulo : Nat}
    (hmodulo : ∀ p, p &&& modulo = slotOf (call.numberOfBitmapsModuloSnapshot + 1) p)
    (huses : ∀ p, call.startIndex ≤ p ∧ p ≤ call.endIndex → usesOf p = call.takes p)
    (hallowed : ∀ uses, 0 ≤ uses → isAllowed uses = true) :
    ∃ s', collectStagedBuffers usesOf isAllowed modulo (indicesOfSpan call.startIndex call.endIndex) sys.shredder
        = some (s', (indicesOfSpan call.startIndex call.endIndex).map raw.staged) ∧
      SameBitmaps sys.shredder s' ∧ SlotsLeft raw sys call s' ∧ ∀ i, TakenFrom sys.shredder s' i := by
  have hspec := inv.specs call (mem_calls_of_inFlight hcall)
  have hfits := inv.fits call (mem_calls_of_inFlight hcall)
  have hrange : ∀ p, call.startIndex ≤ p ∧ p ≤ call.endIndex → p ∈ sys.seen ∧ sys.shredder.InRing p := by
    intro p hp
    have hseen : p ∈ sys.seen := by
      by_contra hnot
      have hzero := hspec.takes_eq_zero hnot
      have hone := hspec.one_le_takes hret hp
      omega
    exact ⟨hseen, by omega, inv.ring.ahead p hseen⟩
  have hslotp : ∀ p ∈ indicesOfSpan call.startIndex call.endIndex,
      p &&& modulo = slotOf sys.shredder.numberOfBitmaps p := by
    intro p hp
    have hp' := mem_indicesOfSpan.1 hp
    have hin := (hrange p hp').2.1
    rw [hmodulo p]
    exact slotOf_congr (hfits.index _ hin (by omega))
  have hleft : ∀ p, call.startIndex ≤ p ∧ p ≤ call.endIndex →
      sys.shredder.stagedBufferUses (slotOf sys.shredder.numberOfBitmaps p) - usesOf p
        = sys.remainingUses raw p - call.takes p := by
    intro p hp
    rw [huses p hp, (inv.slots p (hrange p hp).1 (hrange p hp).2.1).1]
  rcases collectStagedBuffers_spec (indicesOfSpan call.startIndex call.endIndex) sys.shredder hslotp
      (by
        refine .imp_of_mem ?_ (nodup_indicesOfSpan call.startIndex call.endIndex)
        intro p q hp hq hne heq
        exact hne (slotOf_inj (hrange p (mem_indicesOfSpan.1 hp)).2 (hrange q (mem_indicesOfSpan.1 hq)).2 heq))
      (by
        intro p hp
        refine hallowed _ ?_
        have hle := inv.takes_le_remainingUses hcall p
        rw [hleft p (mem_indicesOfSpan.1 hp)]
        omega) with ⟨s', hrun, hsame, htaken, huntouched⟩
  refine ⟨s', ?_, hsame, ?_, ?_⟩
  · rw [hrun]
    refine congrArg (fun buffers => some (s', buffers)) (map_congr_left fun p hp => ?_)
    have hp' := mem_indicesOfSpan.1 hp
    refine (inv.slots p (hrange p hp').1 (hrange p hp').2.1).2.1 ?_
    have hone := hspec.one_le_takes hret hp'
    have hle := inv.takes_le_remainingUses hcall p
    omega
  · intro p hp hptail
    by_cases hin : call.startIndex ≤ p ∧ p ≤ call.endIndex
    · rcases htaken p (mem_indicesOfSpan.2 hin) with ⟨htake, hkeep, hempty⟩
      rw [hleft p hin] at htake
      rw [htake] at hkeep hempty
      refine ⟨htake, fun hpos => ?_, hempty⟩
      rw [hkeep (by omega)]
      have hone := hspec.one_le_takes hret hin
      exact (inv.slots p hp hptail).2.1 (by omega)
    · have hzero := hspec.takes_eq_zero_of_outside hret hin
      have hother := huntouched (slotOf sys.shredder.numberOfBitmaps p) (by
        intro q hq heq
        have hq' := mem_indicesOfSpan.1 hq
        have hqp := slotOf_inj (hrange q hq').2 ⟨hptail, inv.ring.ahead p hp⟩ heq
        exact hin (hqp ▸ hq'))
      rcases inv.slots p hp hptail with ⟨heq, hheld, hempty⟩
      rw [hzero, sub_zero]
      exact ⟨hother.1.trans heq, by rwa [hother.2], by rwa [hother.2]⟩
  · intro i
    by_cases hi : ∃ p ∈ indicesOfSpan call.startIndex call.endIndex, slotOf sys.shredder.numberOfBitmaps p = i
    · rcases hi with ⟨p, hp, rfl⟩
      have hle := inv.takes_le_remainingUses hcall p
      rcases htaken p hp with ⟨htake, hkeep, hempty⟩
      rw [hleft p (mem_indicesOfSpan.1 hp)] at htake
      refine ⟨by omega, ?_⟩
      by_cases hzero : s'.stagedBufferUses (slotOf sys.shredder.numberOfBitmaps p) = 0
      · exact .inr (hempty hzero)
      · exact .inl (hkeep hzero)
    · rcases huntouched i fun p hp heq => hi ⟨p, hp, heq⟩ with ⟨huses, hbuffer⟩
      exact ⟨huses ▸ inv.nonneg i, .inl hbuffer⟩

lemma endCall_withoutTupleDelimiter
    (hno : call.hasTupleDelimiter = false) (hsv : call.spanningTuple.isStartValid = true)
    (hev : call.spanningTuple.isEndValid = true) :
    ∃ sys', sys.endCall call = some sys' ∧ ShredderInvariant raw sys' := by
  have hspec := inv.specs call (mem_calls_of_inFlight hcall)
  have hfits := inv.fits call (mem_calls_of_inFlight hcall)
  have hret : call.returnsBuffers = true := by
    simp [returnsBuffers, hsv, hev]
  have hstart : call.startIndex = call.spanningTuple.spanStart := by
    simp [startIndex, hsv]
  have hend : call.endIndex = call.spanningTuple.spanEnd := by
    simp [endIndex, hev]
  have hspans : call.reportedSpans = [(call.startIndex, call.endIndex)] := by
    simp [reportedSpans, hno, hsv, hev, hstart, hend]
  have hmem : (call.startIndex, call.endIndex) ∈ call.reportedSpans := by simp [hspans]
  rcases inv.start_of_reports hcall hmem with ⟨hlow, hseen⟩
  have hlt := hspec.start_lt hsv
  have hle := hspec.le_endIndex
  rcases inv.collect hcall hret hlow (fun _ => 1) (fun _ => true)
      (hfits.size.and_slots) (by
        intro p hp
        rw [takes_of_no_delimiter hno hret, if_pos hp])
      (fun _ _ => rfl) with ⟨s₁, hrun, hsame, hslots, htaken⟩
  rw [hstart] at hlow hseen hspans
  rw [hstart, hend] at hrun
  have hindex : (call.spanningTuple.spanStart >>> bitmapSizeBitShift) &&& call.numberOfBitmapsModuloSnapshot
        = call.spanningTuple.spanStart / 64 % sys.shredder.numberOfBitmaps := by
    rw [shiftRight_bitmapSizeBitShift, ← hfits.index _ hlow (by omega)]
    exact hfits.size.and_sub_one _
  rcases inv.ring.setStart hsame ⟨hlow, inv.ring.ahead _ hseen⟩ hseen hindex with ⟨s₃, hinc, hring, hadvanced⟩
  have hused : ∀ d, (sys.Used d ∨ d = call.spanningTuple.spanStart) ↔
      (sys.Used d ∨ ∃ e, (d, e) ∈ call.reportedSpans) := by
    intro d
    simp [hspans]
  have hsub : sub? call.sequenceNumber call.spanningTuple.spanStart
      = some (call.sequenceNumber - call.spanningTuple.spanStart) := by
    simp [sub?, le_of_lt hlt]
  have hbuffers : (⟨call.sequenceNumber - call.spanningTuple.spanStart, (indicesOfSpan call.spanningTuple.spanStart
        call.spanningTuple.spanEnd).map raw.staged⟩ : SpanningTupleBuffers) = raw.buffersOf call := by
    simp [buffersOf, hret, hstart, hend]
  refine ⟨_, ?_, inv.finish hcall rfl hadvanced hsame.tail hsame.numberOfBitmaps
    (hring.congr_used hused) hslots htaken (fun _ _ hbehind => absurd hbehind (by omega)) rfl⟩
  have hcheck : sys.shredder.checkSpanningTupleWithoutTupleDelimiter call.spanningTuple call.sequenceNumber
      call.numberOfBitmapsModuloSnapshot = some (s₃, raw.buffersOf call) := by
    rw [← hbuffers]
    exact bind_eq_some_iff.2 ⟨_, hrun, bind_eq_some_iff.2 ⟨s₃, hinc, bind_eq_some_iff.2 ⟨_, hsub, rfl⟩⟩⟩
  simp only [endCall, endProcessSequenceNumber, hno, hsv, hev,
    Bool.false_eq_true, if_false, Bool.and_self, if_true, hcheck, bind_eq_bind, bind_some]

lemma endCall_withTupleDelimiter
    (hyes : call.hasTupleDelimiter = true) (hnotBehind : sys.shredder.tail ≤ call.sequenceNumber / 64) :
    ∃ sys', sys.endCall call = some sys' ∧ ShredderInvariant raw sys' := by
  have hspec := inv.specs call (mem_calls_of_inFlight hcall)
  have hfits := inv.fits call (mem_calls_of_inFlight hcall)
  have hret : call.returnsBuffers = true := by
    simp [returnsBuffers, hyes]
  have hle := hspec.startIndex_le
  have hle' := hspec.le_endIndex
  have hlowStart : call.spanningTuple.isStartValid = true → sys.shredder.tail ≤ call.spanningTuple.spanStart / 64 ∧
        call.spanningTuple.spanStart ∈ sys.seen := by
    intro hsv
    exact inv.start_of_reports hcall ((mem_reportedSpans_of_delimiter hyes).2 (.inl ⟨hsv, rfl, rfl⟩))
  have hlow : sys.shredder.tail ≤ call.startIndex / 64 := by
    unfold startIndex
    split
    case isTrue hsv => exact (hlowStart hsv).1
    case isFalse => exact hnotBehind
  rcases inv.collect hcall hret hlow (fun p => if p ≠ call.sequenceNumber then 1
        else 1 + (if call.startIndex < call.sequenceNumber then 1 else 0)
          + (if call.sequenceNumber < call.endIndex then 1 else 0))
      (fun uses => decide (0 ≤ uses)) (hfits.size.and_slots_mul) (by
        intro p hp
        rw [hspec.takes_of_delimiter hyes, if_pos hp])
      (fun uses huses => by simpa using huses) with ⟨s₁, hrun, hsame, hslots, htaken⟩
  have hindexOf : ∀ p, sys.shredder.tail ≤ p / 64 → p ≤ call.endIndex →
      (p >>> bitmapSizeBitShift) &&& call.numberOfBitmapsModuloSnapshot = p / 64 % sys.shredder.numberOfBitmaps := by
    intro p hp hpe
    rw [shiftRight_bitmapSizeBitShift, ← hfits.index _ hp (Nat.div_le_div_right hpe)]
    exact hfits.size.and_sub_one _
  rcases @RingRepresents.setStarts _ _ _ _ _ inv.ring hsame call.spanningTuple.spanStart
      call.sequenceNumber _ _ call.spanningTuple.isStartValid call.spanningTuple.isEndValid
      (by
        intro hsv
        have hlt := hspec.start_lt hsv
        rcases hlowStart hsv with ⟨hlow', hseen⟩
        exact ⟨⟨hlow', inv.ring.ahead _ hseen⟩, hseen, hindexOf _ hlow' (by omega)⟩)
      ⟨hnotBehind, inv.ring.ahead _ hspec.isSeen⟩ hspec.isSeen (hindexOf _ hnotBehind hle') with
    ⟨s₃, hinc, hring, hadvanced⟩
  have hused : ∀ d, ((sys.Used d ∨ (call.spanningTuple.isStartValid = true ∧ d = call.spanningTuple.spanStart)) ∨
      (call.spanningTuple.isEndValid = true ∧ d = call.sequenceNumber)) ↔
      (sys.Used d ∨ ∃ e, (d, e) ∈ call.reportedSpans) := by
    intro d
    simp only [mem_reportedSpans_of_delimiter hyes]
    constructor
    · rintro ((hu | ⟨hsv, rfl⟩) | ⟨hev, rfl⟩)
      · exact .inl hu
      · exact .inr ⟨_, .inl ⟨hsv, rfl, rfl⟩⟩
      · exact .inr ⟨_, .inr ⟨hev, rfl, rfl⟩⟩
    · rintro (hu | ⟨e, ⟨hsv, rfl, _⟩ | ⟨hev, rfl, _⟩⟩)
      · exact .inl (.inl hu)
      · exact .inl (.inr ⟨hsv, rfl⟩)
      · exact .inr ⟨hev, rfl⟩
  have hin : ¬ call.sequenceNumber < sys.shredder.tail <<< bitmapSizeBitShift := by
    rw [shiftLeft_bitmapSizeBitShift]
    omega
  have hsub : sub? call.sequenceNumber call.startIndex = some (call.sequenceNumber - call.startIndex) := by
    simp [sub?, hle]
  have hbuffers : (⟨call.sequenceNumber - call.startIndex,
      (indicesOfSpan call.startIndex call.endIndex).map raw.staged⟩ : SpanningTupleBuffers) = raw.buffersOf call := by
    simp [buffersOf, hret]
  refine ⟨_, ?_, inv.finish hcall rfl hadvanced hsame.tail hsame.numberOfBitmaps
    (hring.congr_used hused) hslots htaken (fun _ _ hbehind => absurd hbehind (Nat.not_lt.2 hnotBehind)) rfl⟩
  have hcheck : sys.shredder.checkSpanningTupleWithTupleDelimiter call.spanningTuple call.sequenceNumber
      call.numberOfBitmapsModuloSnapshot call.stagedBufferOfSequenceNumber = some (s₃, raw.buffersOf call) := by
    unfold checkSpanningTupleWithTupleDelimiter
    rw [← hbuffers, if_neg hin]
    exact bind_eq_some_iff.2 ⟨_, hrun, bind_eq_some_iff.2 ⟨s₃, hinc, bind_eq_some_iff.2 ⟨_, hsub, rfl⟩⟩⟩
  simp only [endCall, endProcessSequenceNumber, hyes, if_true, hcheck, bind_eq_bind, bind_some]

lemma endCall_nothing (hret : call.returnsBuffers = false) :
    ∃ sys', sys.endCall call = some sys' ∧ ShredderInvariant raw sys' := by
  have hparts := hret
  rw [returnsBuffers, Bool.or_eq_false_iff] at hparts
  have hspans : call.reportedSpans = [] := by
    simp [reportedSpans, hparts.1, hparts.2]
  have htakes : ∀ p, call.takes p = 0 := fun p =>
    takes_eq_zero_of_not_returnsBuffers hret
  have hbuffers : (⟨0, []⟩ : SpanningTupleBuffers) = raw.buffersOf call := by
    simp [buffersOf, hret]
  refine ⟨_, ?_, inv.finish hcall rfl (refl sys.shredder) rfl rfl
    (inv.ring.congr_used (by simp [hspans])) (by simpa [SlotsLeft, htakes] using inv.slots)
    (fun i => ⟨inv.nonneg i, .inl rfl⟩) (fun i hholds hbehind => ?_) hbuffers⟩
  · simp only [endCall, endProcessSequenceNumber, hparts.1, hparts.2,
      Bool.false_eq_true, if_false, bind_eq_bind, bind_some]
  · have hyes := (hholds.2.2 hbehind).2
    rw [hparts.1] at hyes
    cases hyes

end

/-- A buffer with a delimiter behind the tail: two other calls completed both its spans, so its own call
reports nothing and gets its buffer back, from the slot or from its own copy. -/
lemma endCall_behindTail {raw : RawBuffers} (inv : ShredderInvariant raw sys)
    (hcall : call ∈ sys.inFlight) (hyes : call.hasTupleDelimiter = true)
    (hbehind : call.sequenceNumber / 64 < sys.shredder.tail) :
    ∃ sys', sys.endCall call = some sys' ∧ ShredderInvariant raw sys' := by
  have hspec := inv.specs call (mem_calls_of_inFlight hcall)
  have hret : call.returnsBuffers = true := by
    simp [returnsBuffers, hyes]
  have hsv : call.spanningTuple.isStartValid = false := by
    rw [Bool.eq_false_iff]
    intro hv
    have hmem := (mem_reportedSpans_of_delimiter hyes).2 (.inl ⟨hv, rfl, rfl⟩)
    have hlow := (inv.start_of_reports hcall hmem).1
    have hlt := hspec.start_lt hv
    omega
  have hev : call.spanningTuple.isEndValid = false := by
    rw [Bool.eq_false_iff]
    intro hv
    have hmem := (mem_reportedSpans_of_delimiter hyes).2 (.inr ⟨hv, rfl, rfl⟩)
    have hlow := (inv.start_of_reports hcall hmem).1
    omega
  have hstart : call.startIndex = call.sequenceNumber := by
    simp [startIndex, hsv]
  have hend : call.endIndex = call.sequenceNumber := by
    simp [endIndex, hev]
  have hspans : call.reportedSpans = [] := by
    simp [reportedSpans, hyes, hsv, hev]
  have hbuffers : (⟨0, [raw.stagedBuffer call.sequenceNumber]⟩ : SpanningTupleBuffers) = raw.buffersOf call := by
    simp [buffersOf, hret, hstart, hend, indicesOfSpan, raw.staged_of_pos hspec.pos]
  have hring : RingRepresents raw.Mark sys.seen (fun d => sys.Used d ∨ ∃ e, (d, e) ∈ call.reportedSpans) sys.shredder :=
    inv.ring.congr_used (by simp [hspans])
  have htakes : ∀ p ∈ sys.seen, sys.shredder.tail ≤ p / 64 → call.takes p = 0 := by
    intro p _ hp
    refine hspec.takes_eq_zero_of_outside hret ?_
    omega
  rcases raw.ownsBuffer call.sequenceNumber with ⟨own, hown, hownNumber⟩
  have hmin : call.sequenceNumber < sys.shredder.tail <<< bitmapSizeBitShift := by
    rw [shiftLeft_bitmapSizeBitShift]
    omega
  have hslots : SlotsLeft raw sys call sys.shredder := by
    intro p hp hlow
    rw [htakes p hp hlow, sub_zero]
    exact inv.slots p hp hlow
  -- the caller's own copy is returned
  have hcopy : sys.shredder.endProcessSequenceNumber call
        = some (sys.shredder, ⟨0, [raw.stagedBuffer call.sequenceNumber]⟩) →
      (∀ i, sys.Holds i call → (sys.shredder.stagedBuffers i).buffer = none) →
      ∃ sys', sys.endCall call = some sys' ∧ ShredderInvariant raw sys' := by
    intro hrun hgone
    refine ⟨_, ?_, inv.finish hcall rfl (refl sys.shredder) rfl rfl hring hslots
      (fun i => ⟨inv.nonneg i, .inl rfl⟩) (fun i hholds _ => hgone i hholds) hbuffers⟩
    simp only [endCall, hrun, bind_eq_bind, bind_some]
  have hrun : sys.shredder.endProcessSequenceNumber call
      = sys.shredder.checkSpanningTupleWithTupleDelimiter call.spanningTuple call.sequenceNumber
          call.numberOfBitmapsModuloSnapshot (raw.stagedBuffer call.sequenceNumber) := by
    simp [endProcessSequenceNumber, hyes, hspec.staged]
  generalize hposition : call.sequenceNumber
    &&& ((call.numberOfBitmapsModuloSnapshot + 1) * sizeOfBitmapInBits - 1) = position at hrun
  have hindex : slotOf (call.numberOfBitmapsModuloSnapshot + 1) call.sequenceNumber = position :=
    ((inv.fits call (mem_calls_of_inFlight hcall)).size.and_slots_mul _).symm.trans hposition
  rcases inv.origin position with hnone | ⟨c, hc, hslot, -⟩
  · refine hcopy ?_ fun i hholds => by rwa [hholds.2.1, hindex]
    rw [hrun]
    simp [checkSpanningTupleWithTupleDelimiter, hmin, hposition, sequenceShredderStillOwnsBuffer, hnone]
  · rw [(inv.specs c hc).staged] at hslot
    rcases raw.ownsBuffer c.sequenceNumber with ⟨buffer, hbuffer, hnumber⟩
    by_cases hpx : c.sequenceNumber = call.sequenceNumber
    · -- the slot still holds the buffer and is emptied
      rw [hpx] at hslot
      refine ⟨_, ?_, inv.finish hcall rfl (refl (sys.shredder.emptySlot position)) rfl rfl
        ⟨hring.toRingBits.of_sameBitmaps ⟨rfl, rfl, rfl, rfl, rfl⟩, hring.tailOpen⟩ ?_ ?_
        (fun i hholds _ => by simp [emptySlot, hholds.2.1, hindex]) hbuffers⟩
      · rw [endCall, hrun]
        simp [checkSpanningTupleWithTupleDelimiter, hmin, hposition,
          sequenceShredderStillOwnsBuffer, hslot, hown, emptySlot]
      · intro q hq hlow
        by_cases heq : slotOf sys.shredder.numberOfBitmaps q = position
        · refine ⟨(hslots q hq hlow).1, fun hleft => ?_, fun _ => by simp [emptySlot, heq]⟩
          have hstaged := (hslots q hq hlow).2.1 hleft
          rw [heq, hslot] at hstaged
          -- only one position has this buffer, and it is behind the tail
          have hzero : q ≠ 0 := by
            rintro rfl
            rw [hstaged] at hown
            simp [ShredderInput.staged] at hown
          rw [raw.staged_of_pos (Nat.pos_of_ne_zero hzero)] at hstaged
          rcases raw.ownsBuffer q with ⟨other, hother, hotherNumber⟩
          rw [hstaged, hother, some_inj] at hown
          have hqx : q = call.sequenceNumber := by rw [← hotherNumber, hown, hownNumber]
          omega
        · simpa [UsesLeft, emptySlot, heq] using hslots q hq hlow
      · intro i
        refine ⟨inv.nonneg i, ?_⟩
        by_cases hi : i = position
        · exact .inr (by simp [emptySlot, hi])
        · exact .inl (by simp [emptySlot, hi])
    · have hne : ¬ buffer.sequenceNumber = own.sequenceNumber := by
        rw [hnumber, hownNumber]
        exact hpx
      refine hcopy ?_ fun i hholds => ?_
      · rw [hrun]
        simp [checkSpanningTupleWithTupleDelimiter, hmin, hposition,
          sequenceShredderStillOwnsBuffer, hslot, hbuffer, hown, hne]
      · have hsame := hholds.1
        rw [hholds.2.1, hindex, hslot, hspec.staged] at hsame
        rw [hsame, hown, some_inj] at hbuffer
        exact absurd (congrArg TupleBuffer.sequenceNumber hbuffer.symm) hne

lemma endCall {raw : RawBuffers} (inv : ShredderInvariant raw sys) (hcall : call ∈ sys.inFlight) :
    ∃ sys', sys.endCall call = some sys' ∧ ShredderInvariant raw sys' := by
  cases hdel : call.hasTupleDelimiter with
  | true =>
    rcases Nat.lt_or_ge (call.sequenceNumber / 64) sys.shredder.tail with hbehind | hin
    · exact inv.endCall_behindTail hcall hdel hbehind
    · exact inv.endCall_withTupleDelimiter hcall hdel hin
  | false =>
    cases hvalid : call.spanningTuple.isStartValid && call.spanningTuple.isEndValid with
    | true =>
      rw [Bool.and_eq_true] at hvalid
      exact inv.endCall_withoutTupleDelimiter hcall hdel hvalid.1 hvalid.2
    | false =>
      exact inv.endCall_nothing hcall
        (by simp [returnsBuffers, hdel, hvalid])

end ShredderInvariant

/-! ## Runs -/

lemma RingRepresents.create {mark used : Nat → Prop} (sizeOfTupleDelimiter : Nat) (hzero : mark 0)
    (hused : ∀ d, ¬ used d) : RingRepresents mark [0] used (create sizeOfTupleDelimiter initialNumBitmaps) := by
  have hopen : ∀ p, ¬ Done mark [0] used p := by
    rintro p ⟨hmem, huse⟩
    rw [mem_singleton] at hmem
    subst hmem
    exact hused 0 (huse hzero)
  refine ⟨⟨⟨6, by omega, rfl⟩, rfl, ?_, ?_, ?_, ?_⟩, 0, rfl, hopen 0⟩
  · rintro p ⟨_, hp⟩
    simp only [SequenceShredder.create, initialNumBitmaps, Nat.zero_add] at hp
    simp only [ringBit, SequenceShredder.create, initialNumBitmaps, Nat.mod_eq_of_lt hp, mem_singleton]
    by_cases hp0 : p / 64 = 0
    · have hmod : p % 64 = p := by omega
      rw [if_pos hp0, hmod, getLsbD_one]
      constructor
      · intro h
        have hpz : p = 0 := by simpa using h
        exact ⟨hpz, hpz ▸ hzero⟩
      · rintro ⟨rfl, _⟩
        rfl
    · have hne : p ≠ 0 := by
        rintro rfl
        simp at hp0
      simp [hp0, hne]
  · intro p _
    simp [ringBit, SequenceShredder.create, hopen p]
  · intro p hp
    simp [SequenceShredder.create] at hp
  · intro p hp
    rw [mem_singleton] at hp
    subst hp
    simp [SequenceShredder.create, initialNumBitmaps]

namespace ShredderInvariant

variable {raw : ShredderInput} {sys : ShredderSystem}

lemma initial (raw : ShredderInput) : ShredderInvariant raw (initial raw) := by
  refine ⟨?_, le_rfl, fun _ => rfl, by simp [ShredderSystem.initial], nodup_nil, .refl [], ?_, ?_, ?_, ?_, ?_, ?_⟩
  · refine .create raw.sizeOfTupleDelimiter raw.mark_zero ?_
    rintro d ⟨e, hmem⟩
    simp [ShredderSystem.reported, ShredderSystem.returnedCalls, ShredderSystem.initial] at hmem
  · simp [ShredderSystem.calls, ShredderSystem.returnedCalls, ShredderSystem.initial]
  · simp [ShredderSystem.calls, ShredderSystem.returnedCalls, ShredderSystem.initial]
  · intro p hp _
    have hp0 : p = 0 := by simpa [ShredderSystem.seen, ShredderSystem.initial] using hp
    subst hp0
    simp [UsesLeft, ShredderSystem.initial, create, slotOf, ShredderSystem.remainingUses,
      returnedCalls, initialUses, ShredderInput.staged]
  · intro i
    simp only [ShredderSystem.initial, create]
    split <;> omega
  · exact fun i => .inl rfl
  · simp [ShredderSystem.initial]

/-- Every enabled event has a next state: no shift is undefined, no loop endless, no `INVARIANT` fails.
The next state keeps the invariant. -/
lemma step {raw : RawBuffers} (inv : ShredderInvariant raw sys) {event : ShredderEvent} (henabled : sys.Enabled event) :
    ∃ sys', sys.step raw event = some sys' ∧ ShredderInvariant raw sys' := by
  cases event with
  | isInRange sn => exact ⟨_, rfl, inv.askInRange sn⟩
  | beginCall sn =>
    rcases henabled with ⟨hpos, hrange, hnew⟩
    rcases inv.beginCall hpos hrange hnew with ⟨sys', hrun, hinv⟩
    exact ⟨sys', by simp [ShredderSystem.step, hpos, hrange, hnew, hrun], hinv⟩
  | endCall sn =>
    rcases henabled with ⟨call, hcall, hsn⟩
    have hsome : (sys.inFlight.find? fun call => decide (call.sequenceNumber = sn)).isSome := by
      rw [find?_isSome]
      exact ⟨call, hcall, by simpa using hsn⟩
    rcases isSome_iff_exists.1 hsome with ⟨found, hfound⟩
    rcases inv.endCall (mem_of_find?_eq_some hfound) with ⟨sys', hrun, hinv⟩
    exact ⟨sys', by simp [ShredderSystem.step, hfound, hrun], hinv⟩

lemma enabled_of_step {sys' : ShredderSystem} {event : ShredderEvent}
    (h : sys.step raw event = some sys') : sys.Enabled event := by
  cases event with
  | isInRange sn => trivial
  | beginCall sn =>
    simp only [ShredderSystem.step] at h
    split at h
    case isTrue henabled => exact henabled
    case isFalse => cases h
  | endCall sn =>
    cases hfind : sys.inFlight.find? (fun call => decide (call.sequenceNumber = sn)) with
    | none => simp [ShredderSystem.step, hfind] at h
    | some call =>
      have hsn := find?_some hfind
      exact ⟨call, mem_of_find?_eq_some hfind, by simpa using hsn⟩

lemma of_run {raw : RawBuffers} {events : List ShredderEvent} (h : run raw events = some sys) :
    ShredderInvariant raw sys := by
  refine runFrom_invariant (ShredderInvariant raw) ?_ (.initial raw) h
  intro s event s' hinv hstep
  rcases hinv.step (enabled_of_step hstep) with ⟨s'', hrun, hinv'⟩
  have heq : s'' = s' := some_inj.1 (hrun.symm.trans hstep)
  exact heq ▸ hinv'

end ShredderInvariant

end MobilityNebula.InputFormatters
