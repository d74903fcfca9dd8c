import MobilityNebula.InputFormatters.ShredderProgress

/-!
# StagedBufferLife — when a staged buffer leaves the ring

A buffer leaves the ring with its last use.  Once the tail has passed it, only its own call may still have to return it.
That call has a copy, so the slot may be overwritten before the call ends.
-/

namespace MobilityNebula.InputFormatters

open Library ProcessSequenceNumberCall ShredderSystem ShredderInvariant List

structure ShredderSystem.UsesCounted (raw : ShredderInput) (sys : ShredderSystem) : Prop where
  nonneg : ∀ i, 0 ≤ sys.shredder.stagedBufferUses i
  /-- The last use moves a buffer out of the ring, no other one does. -/
  ahead : ∀ p ∈ sys.entered, sys.shredder.tail ≤ p / 64 →
    raw.UsesLeft sys.shredder sys.shredder.numberOfBitmaps p (sys.remainingUses raw p)
  kept : ∀ call ∈ sys.inFlight, ∀ p, sys.shredder.tail ≤ p / 64 → 0 < call.takes p →
    sys.shredder.stagedBuffers (slotOf sys.shredder.numberOfBitmaps p) = raw.staged p
  /-- Behind the tail the call of the buffer itself is the only one left to return it, from a copy. -/
  behind : ∀ call ∈ sys.inFlight, ∀ p, p / 64 < sys.shredder.tail → 0 < call.takes p →
    call.sequenceNumber = p ∧ call.stagedBufferOfSequenceNumber = raw.stagedBuffer p
  /-- The return of that call is the last use. -/
  held : ∀ i, (sys.shredder.stagedBuffers i).buffer = none ∨ ∃ call ∈ sys.calls, sys.Holds i call
  overwritten : ∀ sn, sys.Enabled (.beginCall sn) →
    (sys.shredder.stagedBuffers (slotOf sys.shredder.numberOfBitmaps sn)).buffer = none ∨
      ∃ call ∈ sys.inFlight, call.sequenceNumber / 64 < sys.shredder.tail ∧
        sys.Holds (slotOf sys.shredder.numberOfBitmaps sn) call

/-- In every interleaving, no use count is negative, a buffer leaves the ring with its last use, and a slot that is
overwritten is empty or holds the buffer of a call in flight that the tail has passed. -/
theorem staged_buffer_uses_counted (raw : RawBuffers) (events : List ShredderEvent) (sys : ShredderSystem)
    (h : run raw events = some sys) : sys.UsesCounted raw := by
  have inv := of_run h
  refine ⟨inv.nonneg, fun p hp => inv.slots p (mem_seen_iff.2 (.inl hp)), ?_, ?_, inv.origin, ?_⟩
  · intro call hcall p hlow htakes
    have hspec := inv.specs call (mem_calls_of_inFlight hcall)
    have hseen : p ∈ sys.seen := by
      by_contra hnot
      exact absurd (hspec.takes_eq_zero hnot) (Int.ne_of_gt htakes)
    exact (inv.slots p hseen hlow).2.1 (lt_of_lt_of_le htakes (inv.takes_le_remainingUses hcall p))
  · intro call hcall p hbehind htakes
    have hspec := inv.specs call (mem_calls_of_inFlight hcall)
    have hspans : call.reportedSpans.countP (covers p) = 0 := by
      rw [countP_eq_zero]
      rintro ⟨d, e⟩ hmem hcov
      have hlow := (inv.start_of_reports hcall hmem).1
      have hle := (covers_iff.1 hcov).1
      omega
    rw [takes, hspans] at htakes
    split at htakes
    case isTrue hown => exact ⟨hown.2, hown.2 ▸ hspec.staged⟩
    case isFalse => simp at htakes
  · intro sn henabled
    rcases inv.inRing_of_enabled henabled with ⟨hunseen, hin⟩
    rcases inv.origin (slotOf sys.shredder.numberOfBitmaps sn) with hnone | ⟨call, hcall, hholds⟩
    · exact .inl hnone
    have hspec := inv.specs call hcall
    have hbehind : call.sequenceNumber / 64 < sys.shredder.tail := by
      by_contra hahead
      have hlow := Nat.le_of_not_lt hahead
      have hindex := (inv.fits call hcall).index _ hlow (Nat.div_le_div_right hspec.le_endIndex)
      have hslot := hholds.2.1.trans (slotOf_congr hindex)
      have heq := slotOf_inj hin ⟨hlow, inv.ring.ahead _ hspec.isSeen⟩ hslot
      exact hunseen (heq ▸ hspec.isSeen)
    exact .inr ⟨call, (hholds.2.2 hbehind).1, hbehind, hholds⟩

/-- In every interleaving, the tail is the first bitmap with a position that is not done: its buffer has not arrived,
or no spanning tuple that starts at its delimiter was reported. -/
theorem tail_at_first_open_bitmap (raw : RawBuffers) (events : List ShredderEvent) (sys : ShredderSystem)
    (h : run raw events = some sys) : IsLeast (Set.range fun p : {p // ¬ Done raw.Mark sys.seen sys.Used p} => p.1 / 64)
      sys.shredder.tail := by
  have inv := of_run h
  rcases inv.ring.tailOpen with ⟨p, hp, hopen⟩
  refine ⟨⟨⟨p, hopen⟩, hp⟩, ?_⟩
  rintro - ⟨⟨q, hq⟩, rfl⟩
  by_contra hlt
  exact hq (inv.ring.behind q (Nat.lt_of_not_le hlt))

def allDelimiters : RawBuffers where
  sizeOfTupleDelimiter := 1
  hasTupleDelimiter _ := true
  stagedBuffer sn := ⟨some ⟨sn, [10]⟩, 1, 0, 0⟩
  ownsBuffer sn := ⟨⟨sn, [10]⟩, rfl, rfl⟩

/-- Buffer 2 begins, then the other buffers up to 64 are processed. -/
def overtaken : List ShredderEvent :=
  [.isInRange 2, .beginCall 2]
    ++ (1 :: range' 3 62).flatMap (fun sn => [.isInRange sn, .beginCall sn, .endCall sn]) ++ [.isInRange 4098]

theorem staged_buffer_uses_counted_overtaken :
    ∃ sys, run allDelimiters overtaken = some sys ∧ sys.UsesCounted allDelimiters := by
  have hsome : (run allDelimiters overtaken).isSome = true := by decide +kernel
  rcases Option.isSome_iff_exists.1 hsome with ⟨sys, hrun⟩
  exact ⟨sys, hrun, staged_buffer_uses_counted allDelimiters overtaken sys hrun⟩

/-- The buffers up to 64 are processed, and the first bitmap is finished. -/
def firstBitmap : List ShredderEvent :=
  (range' 1 64).flatMap fun sn => [.isInRange sn, .beginCall sn, .endCall sn]

theorem tail_at_first_open_bitmap_second : ∃ sys, run allDelimiters firstBitmap = some sys ∧ sys.shredder.tail = 1 ∧
    IsLeast (Set.range fun p : {p // ¬ Done allDelimiters.Mark sys.seen sys.Used p} => p.1 / 64) sys.shredder.tail := by
  have hsome : (run allDelimiters firstBitmap).map (fun sys => sys.shredder.tail) = some 1 := by decide +kernel
  rcases Option.map_eq_some_iff.1 hsome with ⟨sys, hrun, htail⟩
  exact ⟨sys, hrun, htail, tail_at_first_open_bitmap allDelimiters firstBitmap sys hrun⟩

/-- Slot 2 is overwritten while it holds buffer 2 with one use left. -/
theorem overwritten_before_moved_out :
    ((run allDelimiters overtaken).bind fun sys => (sys.step allDelimiters (.beginCall 4098)).map fun sys' =>
      (sys.inFlight.map sequenceNumber, sys.shredder.stagedBufferUses 2,
        (sys.shredder.stagedBuffers 2).buffer.map TupleBuffer.sequenceNumber,
        (sys'.shredder.stagedBuffers 2).buffer.map TupleBuffer.sequenceNumber)) = some ([2], 1, some 2, some 4098) := by
  decide +kernel

end MobilityNebula.InputFormatters
