import MobilityNebula.InputFormatters.SpanSearch
import MobilityNebula.InputFormatters.StagedBufferUses

/-!
# ShredderInvariant — what holds in every reachable state of the shredder

The invariant ties the state of the shredder to the history of arrivals:

* the bitmaps represent the arrivals and the starts that were used (`RingRepresents`);
* every call, in flight or returned, reports the spans it completed (`CallSpec`), except for the one
  kind of span its search does not look for (`ShredderInput.Missed`);
* a call in flight may hold an old ring size, but only as long as that places its positions where the
  current size does (`FitsRing`);
* the slots hold the buffers that have uses left.

`ShredderInvariant.step` shows that every enabled event has a next state and keeps the invariant, so
nothing in the modelled code is undefined, endless or aborted in any run.
-/

namespace MobilityNebula.InputFormatters

open Library ProcessSequenceNumberCall List

/-! ## Calls -/

/-- The search of call `x` passes over the span `d, …, e` although `x` completes it: the span starts at
position 0, `x` has no delimiter and the end is in another bitmap. -/
def ShredderInput.Missed (raw : ShredderInput) (x d e : Nat) : Prop :=
  d = 0 ∧ raw.hasTupleDelimiter x = false ∧ x / 64 ≠ e / 64

/-- What is known about a call from its first locked section on. -/
structure CallSpec (raw : ShredderInput) (seen : List Nat) (call : ProcessSequenceNumberCall) : Prop
    extends call.Ordered where
  delimiter : call.hasTupleDelimiter = raw.hasTupleDelimiter call.sequenceNumber
  staged : call.stagedBufferOfSequenceNumber = raw.stagedBuffer call.sequenceNumber
  pos : 0 < call.sequenceNumber
  isSeen : call.sequenceNumber ∈ seen
  end_seen : call.spanningTuple.isEndValid = true → call.spanningTuple.spanEnd ∈ seen
  reports : ∀ d e, (d, e) ∈ call.reportedSpans ↔
    CompletedBy raw.Mark seen call.sequenceNumber d e ∧ ¬ raw.Missed call.sequenceNumber d e

namespace CallSpec

variable {raw : ShredderInput} {seen : List Nat} {call : ProcessSequenceNumberCall}

section

variable (h : CallSpec raw seen call)
include h

/-- Later arrivals do not change what a call reports. -/
lemma cons {y : Nat} (hy : y ∉ seen) : CallSpec raw (y :: seen) call := by
  refine ⟨h.toOrdered, h.delimiter, h.staged, h.pos, mem_cons_of_mem y h.isSeen,
    fun hv => mem_cons_of_mem y (h.end_seen hv), ?_⟩
  intro d e
  rw [completedBy_cons_iff hy h.isSeen]
  exact h.reports d e

lemma endIndex_mem : call.endIndex ∈ seen := by
  unfold endIndex
  split
  case isTrue hv => exact h.end_seen hv
  case isFalse => exact h.isSeen

lemma nodup_reportedSpans : call.reportedSpans.Nodup := by
  have hstart := h.start_lt
  unfold reportedSpans
  cases call.hasTupleDelimiter with
  | false =>
    simp only [Bool.false_eq_true, if_false]
    split
    · simp
    · simp
  | true =>
    cases hsv : call.spanningTuple.isStartValid with
    | false =>
      cases call.spanningTuple.isEndValid with
      | false => simp
      | true => simp
    | true =>
      have hne : call.spanningTuple.spanStart ≠ call.sequenceNumber := Nat.ne_of_lt (hstart hsv)
      cases call.spanningTuple.isEndValid with
      | false => simp
      | true => simp [hne]

end

lemma of_search {x modulo : Nat} {found : SpanningTuple} (hx : x ∉ seen) (hpos : 0 < x)
    (h : SearchSpec raw.Mark seen x (raw.hasTupleDelimiter x) found) :
    CallSpec raw (x :: seen) ⟨x, raw.hasTupleDelimiter x, raw.stagedBuffer x, found, modulo⟩ := by
  refine ⟨⟨fun hv => (h.startOf hv).lt, fun hv => (h.endOf hv).lt⟩, rfl, rfl, hpos,
    mem_cons_self, fun hv => mem_cons_of_mem x (h.endOf hv).isSeen, ?_⟩
  intro d e
  simp only [reportedSpans]
  cases hdel : raw.hasTupleDelimiter x with
  | true =>
    -- a buffer with a delimiter looks on both sides for itself
    have hmark : raw.Mark x := (raw.mark_iff_of_pos hpos).2 hdel
    have hstart : (found.isStartValid = true ∧ d = found.spanStart) ↔ StartOf raw.Mark seen x d := by
      constructor
      · rintro ⟨hv, rfl⟩
        exact h.startOf hv
      · intro hd
        have hv := h.start hdel d hd
        exact ⟨hv, hd.unique (h.startOf hv)⟩
    have hend : (found.isEndValid = true ∧ e = found.spanEnd) ↔ EndOf raw.Mark seen x e := by
      constructor
      · rintro ⟨hv, rfl⟩
        exact h.endOf hv
      · intro he
        have hv := h.stop hdel e he
        exact ⟨hv, he.unique (h.endOf hv)⟩
    have hseen : ¬ raw.Missed x d e := fun hm => by simp [hm.2.1] at hdel
    rw [completedBy_self_iff_of_mark hx hmark, ← hstart, ← hend]
    simp only [if_true, mem_append, hseen, not_false_eq_true, and_true]
    cases found.isStartValid with
    | false =>
      cases found.isEndValid with
      | false => simp
      | true => simp
    | true =>
      cases found.isEndValid with
      | false => simp [and_comm]
      | true => simp [and_comm]
  | false =>
    have hmark : ¬ raw.Mark x := by
      rw [raw.mark_iff_of_pos hpos, hdel]
      simp
    rw [completedBy_self_iff_of_not_mark hx hmark]
    have hboth := h.both hdel
    simp only [Bool.false_eq_true, if_false, ShredderInput.Missed, hdel, true_and]
    constructor
    · intro hmem
      split at hmem
      case isTrue hv =>
        rw [mem_singleton, Prod.mk.injEq] at hmem
        rcases hmem with ⟨rfl, rfl⟩
        rw [Bool.and_eq_true] at hv
        have hd := h.startOf hv.1
        have he := h.endOf hv.2
        refine ⟨⟨hd, he⟩, ?_⟩
        rintro ⟨hzero, hne⟩
        rcases (hboth _ _ hd he).1 hv with hnz | heq
        · exact hnz hzero
        · exact hne heq
      case isFalse => simp at hmem
    · rintro ⟨⟨hd, he⟩, hfound⟩
      have hv := (hboth d e hd he).2 (by
        by_cases hzero : d = 0
        · refine .inr ?_
          by_contra hne
          exact hfound ⟨hzero, hne⟩
        · exact .inl hzero)
      have hds := hd.unique (h.startOf hv.1)
      have hee := he.unique (h.endOf hv.2)
      simp [hv.1, hv.2, hds, hee]

end CallSpec

/-- The ring size a call remembers places the positions it will touch where the ring has them. -/
structure FitsRing (s : SequenceShredder) (call : ProcessSequenceNumberCall) : Prop where
  size : IsRingSize (call.numberOfBitmapsModuloSnapshot + 1)
  index : ∀ b, s.tail ≤ b → b ≤ call.endIndex / 64 →
    b % (call.numberOfBitmapsModuloSnapshot + 1) = b % s.numberOfBitmaps

/-! ## The invariant -/

namespace ShredderSystem

def calls (sys : ShredderSystem) : List ProcessSequenceNumberCall := sys.inFlight ++ sys.returnedCalls

def remainingUses (raw : ShredderInput) (sys : ShredderSystem) (p : Nat) : Int :=
  raw.initialUses p - (sys.returnedCalls.map fun call => call.takes p).sum

/-- Slot `i` holds the buffer of `call`, behind the tail only if its call still has to return it. -/
def Holds (sys : ShredderSystem) (i : Nat) (call : ProcessSequenceNumberCall) : Prop :=
  sys.shredder.stagedBuffers i = call.stagedBufferOfSequenceNumber ∧
    i = slotOf (call.numberOfBitmapsModuloSnapshot + 1) call.sequenceNumber ∧
    (call.sequenceNumber / 64 < sys.shredder.tail → call ∈ sys.inFlight ∧ call.hasTupleDelimiter = true)

end ShredderSystem

/-- Position `p` has `uses` uses left.  Its buffer is in the ring until none is left. -/
def ShredderInput.UsesLeft (raw : ShredderInput) (s : SequenceShredder) (n p : Nat) (uses : Int) : Prop :=
  s.stagedBufferUses (slotOf n p) = uses ∧ (0 < uses → s.stagedBuffers (slotOf n p) = raw.staged p) ∧
    (uses = 0 → (s.stagedBuffers (slotOf n p)).buffer = none)

structure ShredderInvariant (raw : ShredderInput) (sys : ShredderSystem) : Prop where
  ring : RingRepresents raw.Mark sys.seen sys.Used sys.shredder
  size_ge : initialNumBitmaps ≤ sys.shredder.numberOfBitmaps
  size_eq : sys.shredder.tail = 0 → sys.shredder.numberOfBitmaps = initialNumBitmaps
  inRange : ∀ sn ∈ sys.inRange, sn / 64 < sys.shredder.tail + sys.shredder.numberOfBitmaps
  nodup : sys.entered.Nodup
  numbers : (sys.calls.map sequenceNumber).Perm sys.entered
  specs : ∀ call ∈ sys.calls, CallSpec raw sys.seen call
  fits : ∀ call ∈ sys.calls, FitsRing sys.shredder call
  slots : ∀ p ∈ sys.seen, sys.shredder.tail ≤ p / 64 →
    raw.UsesLeft sys.shredder sys.shredder.numberOfBitmaps p (sys.remainingUses raw p)
  nonneg : ∀ i, 0 ≤ sys.shredder.stagedBufferUses i
  origin : ∀ i, (sys.shredder.stagedBuffers i).buffer = none ∨ ∃ call ∈ sys.calls, sys.Holds i call
  buffers : ∀ result ∈ sys.returned, result.2 = raw.buffersOf result.1

namespace ShredderInvariant

variable {raw : ShredderInput} {sys : ShredderSystem} {call : ProcessSequenceNumberCall}

lemma mem_calls_of_inFlight (h : call ∈ sys.inFlight) : call ∈ sys.calls := mem_append_left _ h

lemma mem_calls_of_returned (h : call ∈ sys.returnedCalls) : call ∈ sys.calls := mem_append_right _ h

section

variable (inv : ShredderInvariant raw sys)
include inv

lemma nodup_numbers : (sys.calls.map sequenceNumber).Nodup := inv.numbers.nodup_iff.2 inv.nodup

lemma nodup_calls : sys.calls.Nodup := .of_map _ inv.nodup_numbers

lemma call_unique {call' : ProcessSequenceNumberCall} (hcall : call ∈ sys.calls) (hcall' : call' ∈ sys.calls)
    (h : call.sequenceNumber = call'.sequenceNumber) : call = call' :=
  inj_on_of_nodup_map inv.nodup_numbers hcall hcall' h

lemma pos_of_mem_entered {sn : Nat} (h : sn ∈ sys.entered) : 0 < sn := by
  rcases mem_map.1 (inv.numbers.mem_iff.2 h) with ⟨call, hcall, rfl⟩
  exact (inv.specs call hcall).pos

end

lemma mem_seen_iff {p : Nat} : p ∈ sys.seen ↔ p ∈ sys.entered ∨ p = 0 := by
  simp [ShredderSystem.seen]

variable (inv : ShredderInvariant raw sys)
include inv

lemma completedBy_of_reports (hcall : call ∈ sys.calls) {d e : Nat} (h : (d, e) ∈ call.reportedSpans) :
    CompletedBy raw.Mark sys.seen call.sequenceNumber d e :=
  (((inv.specs call hcall).reports d e).1 h).1

lemma call_unique_of_start {call' : ProcessSequenceNumberCall}
    {d e e' : Nat} (hcall : call ∈ sys.calls) (hcall' : call' ∈ sys.calls)
    (h : (d, e) ∈ call.reportedSpans) (h' : (d, e') ∈ call'.reportedSpans) : call = call' := by
  have hdone := inv.completedBy_of_reports hcall h
  have hdone' := inv.completedBy_of_reports hcall' h'
  exact inv.call_unique hcall hcall' (hdone.unique hdone')

lemma complete_of_used {d : Nat} (h : sys.Used d) : ∃ e, Complete raw.Mark sys.seen d e := by
  rcases h with ⟨e, hmem⟩
  rcases mem_flatMap.1 hmem with ⟨call, hcall, hreport⟩
  exact ⟨e, (inv.completedBy_of_reports (mem_calls_of_returned hcall) hreport).complete⟩

lemma not_used_of_inFlight (hcall : call ∈ sys.inFlight) {d e : Nat}
    (h : (d, e) ∈ call.reportedSpans) : ¬ sys.Used d := by
  rintro ⟨e', hmem⟩
  rcases mem_flatMap.1 hmem with ⟨call', hcall', hreport⟩
  have hsame := inv.call_unique_of_start (mem_calls_of_inFlight hcall) (mem_calls_of_returned hcall') h hreport
  subst hsame
  exact (nodup_append.1 inv.nodup_calls).2.2 _ hcall _ hcall' rfl

lemma nodup_reportedSpans : (sys.calls.flatMap reportedSpans).Nodup := by
  rw [nodup_flatMap]
  refine ⟨fun call hcall => (inv.specs call hcall).nodup_reportedSpans, ?_⟩
  refine .imp_of_mem ?_ inv.nodup_calls
  intro call call' hcall hcall' hne
  rintro ⟨d, e⟩ h h'
  exact hne (inv.call_unique_of_start hcall hcall' h h')

lemma takes_le_remainingUses (hcall : call ∈ sys.inFlight) (p : Nat) : call.takes p ≤ sys.remainingUses raw p := by
  have hsub : List.Sublist (call :: sys.returnedCalls) sys.calls :=
    .append (singleton_sublist.2 hcall) (.refl _)
  have hle := @ProcessSequenceNumberCall.sum_takes_le raw (call :: sys.returnedCalls)
    (fun c hc => (inv.specs c (hsub.subset hc)).delimiter)
    (fun c hc => (inv.specs c (hsub.subset hc)).pos)
    (inv.nodup_numbers.sublist (hsub.map _))
    (inv.nodup_reportedSpans.sublist (hsub.flatMap _))
    (by
      rintro ⟨d, e⟩ hmem
      rcases mem_flatMap.1 hmem with ⟨c, hc, hreport⟩
      exact (inv.completedBy_of_reports (hsub.subset hc) hreport).complete.span) p
  rw [map_cons, sum_cons] at hle
  rw [ShredderSystem.remainingUses]
  omega

end ShredderInvariant

end MobilityNebula.InputFormatters
