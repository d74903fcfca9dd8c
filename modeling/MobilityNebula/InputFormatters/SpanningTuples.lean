import MobilityNebula.InputFormatters.ShredderProgress

/-!
# SpanningTuples — which spanning tuples the shredder hands out

Three questions about whole runs of the shredder:

* **What is handed out?**  Only spans between consecutive delimiters, each once, with the buffers staged
  for its positions (`reported_spans_sound`).
* **Is every span handed out?**  All of them, except the one that starts at position 0 when the search
  of its last arrival passes over it (`spans_covered_iff`).
* **Can a source that delivers buffers in order always go on?**  Only while the next buffer fits the ring
  above the oldest position that is still needed (`isInRange_next_iff`).
-/

namespace MobilityNebula.InputFormatters

open Library ShredderInvariant ProcessSequenceNumberCall SequenceShredder ShredderInput ShredderSystem List

/-! ## The stretch of positions of a call -/

namespace CallSpec

variable {raw : ShredderInput} {seen : List Nat} {call : ProcessSequenceNumberCall} {d e : Nat}

lemma returnsBuffers_of_reports (h : (d, e) ∈ call.reportedSpans) : call.returnsBuffers = true := by
  by_contra hnot
  rw [Bool.not_eq_true] at hnot
  rw [returnsBuffers, Bool.or_eq_false_iff] at hnot
  simp [reportedSpans, hnot.1, hnot.2] at h

lemma stretch_of_reports (hspec : CallSpec raw seen call) (h : (d, e) ∈ call.reportedSpans) :
    call.startIndex ≤ d ∧ e ≤ call.endIndex := by
  have hle := hspec.startIndex_le
  have hle' := hspec.le_endIndex
  cases hdel : call.hasTupleDelimiter with
  | true =>
    rcases (mem_reportedSpans_of_delimiter hdel).1 h with ⟨hv, rfl, rfl⟩ | ⟨hv, rfl, rfl⟩
    · exact ⟨by simp [startIndex, hv], hle'⟩
    · exact ⟨hle, by simp [endIndex, hv]⟩
  | false =>
    have hret := returnsBuffers_of_reports h
    rw [returnsBuffers, hdel, Bool.false_or, Bool.and_eq_true] at hret
    simp only [reportedSpans, hdel, Bool.false_eq_true, if_false, hret.1,
      hret.2, Bool.and_self, if_true, mem_singleton, Prod.mk.injEq] at h
    rcases h with ⟨rfl, rfl⟩
    simp [startIndex, endIndex, hret.1, hret.2]

/-- Conversely, two consecutive marks in the stretch of a call are a span it reports. -/
lemma reports_of_stretch (hspec : CallSpec raw seen call) (hret : call.returnsBuffers = true)
    (hspan : Consecutive raw.Mark d e) (hd : call.startIndex ≤ d) (he : e ≤ call.endIndex) :
    (d, e) ∈ call.reportedSpans := by
  have hlt := hspan.lt
  cases hdel : call.hasTupleDelimiter with
  | true =>
    rcases Nat.lt_or_ge d call.sequenceNumber with hbelow | habove
    · -- the leading span
      have hv : call.spanningTuple.isStartValid = true := by
        by_contra hv
        simp only [startIndex, hv, if_false] at hd
        omega
      have hmem := (mem_reportedSpans_of_delimiter hdel).2 (.inl ⟨hv, rfl, rfl⟩)
      have hfound := ((hspec.reports _ _).1 hmem).1.complete.span
      simp only [startIndex, hv, if_true] at hd
      rcases hspan.unique_of_overlap hfound hbelow (by omega) with ⟨rfl, rfl⟩
      exact hmem
    · -- the trailing span
      have hv : call.spanningTuple.isEndValid = true := by
        by_contra hv
        simp only [endIndex, hv, if_false] at he
        omega
      have hmem := (mem_reportedSpans_of_delimiter hdel).2 (.inr ⟨hv, rfl, rfl⟩)
      have hfound := ((hspec.reports _ _).1 hmem).1.complete.span
      simp only [endIndex, hv, if_true] at he
      rcases hspan.unique_of_overlap hfound (by omega) (by omega) with ⟨rfl, rfl⟩
      exact hmem
  | false =>
    rw [returnsBuffers, hdel, Bool.false_or, Bool.and_eq_true] at hret
    have hmem : (call.spanningTuple.spanStart, call.spanningTuple.spanEnd) ∈ call.reportedSpans := by
      simp [reportedSpans, hdel, hret.1, hret.2]
    have hfound := ((hspec.reports _ _).1 hmem).1.complete.span
    simp only [startIndex, endIndex, hret.1, hret.2, if_true] at hd he
    rcases hspan.unique_of_overlap hfound (by omega) (by omega) with ⟨rfl, rfl⟩
    exact hmem

end CallSpec

/-! ## Returned buffers -/

variable (raw : RawBuffers)

lemma RawBuffers.staged_injective : Function.Injective raw.staged := by
  intro p q h
  by_cases hp : p = 0
  · by_contra hne
    have hq : 0 < q := by omega
    rcases raw.ownsBuffer q with ⟨b, hb, _⟩
    rw [raw.staged_of_pos hq] at h
    rw [← h] at hb
    simp [ShredderInput.staged, hp] at hb
  · have hp' : 0 < p := Nat.pos_of_ne_zero hp
    rcases raw.ownsBuffer p with ⟨b, hb, hnumber⟩
    by_cases hq : q = 0
    · rw [raw.staged_of_pos hp'] at h
      rw [h] at hb
      simp [ShredderInput.staged, hq] at hb
    · rcases raw.ownsBuffer q with ⟨b', hb', hnumber'⟩
      rw [raw.staged_of_pos hp', raw.staged_of_pos (Nat.pos_of_ne_zero hq)] at h
      rw [h, hb', Option.some_inj] at hb
      rw [← hnumber, ← hb, hnumber']

/-- A stretch is made of the positions before, inside and after a part of it. -/
lemma indicesOfSpan_eq_append {a d e b : Nat} (had : a ≤ d) (hde : d ≤ e) (heb : e ≤ b) : indicesOfSpan a b
      = range' a (d - a) ++ indicesOfSpan d e ++ range' (e + 1) (b - e) := by
  have hfirst := range'_append_1 (s := a) (m := d - a) (n := e + 1 - d)
  have hsecond := range'_append_1 (s := a) (m := d - a + (e + 1 - d)) (n := b - e)
  rw [show a + (d - a) = d by omega] at hfirst
  rw [show a + (d - a + (e + 1 - d)) = e + 1 by omega,
    show d - a + (e + 1 - d) + (b - e) = b + 1 - a by omega] at hsecond
  rw [indicesOfSpan, indicesOfSpan, hfirst, hsecond]

namespace ShredderSystem

/-- Some call that returned was handed the buffers of all positions `d, …, e`. -/
def Covered (raw : RawBuffers) (sys : ShredderSystem) (d e : Nat) : Prop :=
  ∃ result ∈ sys.returned,
    (indicesOfSpan d e).map raw.staged <:+: result.2.stagedBuffers

end ShredderSystem

namespace ShredderInvariant

variable {raw : RawBuffers} {sys : ShredderSystem} {d e : Nat}

lemma mem_returnedCalls {call : ProcessSequenceNumberCall} :
    call ∈ sys.returnedCalls ↔ ∃ buffers, (call, buffers) ∈ sys.returned := by
  simp [returnedCalls]

lemma covered_iff_reported (inv : ShredderInvariant raw sys) (hspan : Consecutive raw.Mark d e) :
    sys.Covered raw d e ↔ (d, e) ∈ sys.reported := by
  have hlt := hspan.lt
  constructor
  · rintro ⟨⟨call, buffers⟩, hmem, hinfix⟩
    have hcall : call ∈ sys.returnedCalls := mem_returnedCalls.2 ⟨buffers, hmem⟩
    have hspec := inv.specs call (mem_calls_of_returned hcall)
    have hbuffers : buffers = raw.buffersOf call := inv.buffers _ hmem
    have hsub := hinfix.subset
    -- both ends of the span are in the stretch of the call
    have hin : ∀ p ∈ indicesOfSpan d e, call.returnsBuffers = true ∧ call.startIndex ≤ p ∧ p ≤ call.endIndex := by
      intro p hp
      have hp' := hsub (mem_map_of_mem hp)
      rw [hbuffers, buffersOf] at hp'
      split at hp'
      case isTrue hret =>
        rcases mem_map.1 hp' with ⟨q, hq, hqp⟩
        rw [raw.staged_injective hqp] at hq
        exact ⟨hret, mem_indicesOfSpan.1 hq⟩
      case isFalse => simp at hp'
    have hd := hin d (mem_indicesOfSpan.2 ⟨le_rfl, le_of_lt hlt⟩)
    have he := hin e (mem_indicesOfSpan.2 ⟨le_of_lt hlt, le_rfl⟩)
    exact mem_flatMap.2 ⟨call, hcall, hspec.reports_of_stretch hd.1 hspan hd.2.1 he.2.2⟩
  · intro hmem
    rcases mem_flatMap.1 hmem with ⟨call, hcall, hreport⟩
    rcases mem_returnedCalls.1 hcall with ⟨buffers, hresult⟩
    have hspec := inv.specs call (mem_calls_of_returned hcall)
    have hstretch := hspec.stretch_of_reports hreport
    refine ⟨(call, buffers), hresult, ?_⟩
    rw [inv.buffers _ hresult, buffersOf, if_pos (CallSpec.returnsBuffers_of_reports hreport)]
    rw [indicesOfSpan_eq_append hstretch.1 (le_of_lt hlt) hstretch.2, map_append, map_append]
    exact ⟨_, _, rfl⟩

end ShredderInvariant

/-! ## When all calls have returned -/

structure ShredderSystem.AllReturned (sys : ShredderSystem) (m : Nat) : Prop where
  entered : ∀ sn, sn ∈ sys.entered ↔ 1 ≤ sn ∧ sn ≤ m
  inFlight : sys.inFlight = []

namespace ShredderInput

variable (raw : ShredderInput)

def firstDelimiter? (m : Nat) : Option Nat := (range' 1 m).find? raw.hasTupleDelimiter

/-- The search of the buffer that completes the first span passes over it: of the buffers up to the first
delimiter, the last one to enter is in another bitmap than the delimiter. -/
def firstSpanMissed (entered : List Nat) (m : Nat) : Bool :=
  match raw.firstDelimiter? m with
  | none => false
  | some e =>
    match lastArrival entered 1 e with
    | none => false
    | some x => decide (x / 64 ≠ e / 64)

/-- The oldest position that can still be the start of a span. -/
def oldestOpen (entered : List Nat) (m : Nat) : Nat :=
  if raw.firstSpanMissed entered m then 0 else Nat.findGreatest raw.Mark m

lemma firstDelimiter?_eq_some_iff {m e : Nat} : raw.firstDelimiter? m = some e ↔ Consecutive raw.Mark 0 e ∧ e ≤ m := by
  rw [firstDelimiter?, find?_range'_eq_some]
  constructor
  · rintro ⟨hmark, hmem, hfirst⟩
    have hrange := mem_range'_1.1 hmem
    refine ⟨⟨by omega, raw.mark_zero, .inr hmark, ?_⟩, by omega⟩
    rintro p hp hpe (hzero | hp')
    · omega
    · have hno := hfirst p (by omega) hpe
      rw [hp'] at hno
      cases hno
  · rintro ⟨hspan, hle⟩
    have hlt := hspan.lt
    refine ⟨(raw.mark_iff_of_pos hlt).1 hspan.right, mem_range'_1.2 (by omega), ?_⟩
    intro p hp hpe
    have hno := hspan.between p (by omega) hpe
    rw [raw.mark_iff_of_pos (by omega)] at hno
    simpa using hno

end ShredderInput

namespace ShredderInvariant

variable {raw : ShredderInput} {sys : ShredderSystem} {m d e : Nat}

lemma complete_of_allReturned (hall : sys.AllReturned m) (hspan : Consecutive raw.Mark d e)
    (he : e ≤ m) : Complete raw.Mark sys.seen d e := by
  refine ⟨hspan, fun p _ hpe => ?_⟩
  rw [mem_seen_iff, hall.entered]
  omega

variable (inv : ShredderInvariant raw sys)
include inv

/-- Once all calls have returned, a span was reported exactly if its last arrival did not miss it. -/
lemma reported_iff_not_missed (hall : sys.AllReturned m) {x : Nat}
    (hdone : CompletedBy raw.Mark sys.seen x d e) (hx : x ∈ sys.entered) :
    (d, e) ∈ sys.reported ↔ ¬ raw.Missed x d e := by
  have hcalls : sys.calls = sys.returnedCalls := by
    simp [calls, hall.inFlight]
  constructor
  · intro hmem
    rcases mem_flatMap.1 hmem with ⟨call, hcall, hreport⟩
    rcases ((inv.specs call (mem_calls_of_returned hcall)).reports d e).1 hreport with ⟨hby, hnot⟩
    rwa [hdone.unique hby]
  · intro hnot
    rcases mem_map.1 (inv.numbers.mem_iff.2 hx) with ⟨call, hcall, rfl⟩
    have hreport := ((inv.specs call hcall).reports d e).2 ⟨hdone, hnot⟩
    exact mem_flatMap.2 ⟨call, hcalls ▸ hcall, hreport⟩

lemma lastArrival_entered : lastArrival sys.entered (max d 1) e = lastArrival sys.entered d e := by
  refine find?_congr fun p hp => ?_
  have hpos := inv.pos_of_mem_entered hp
  have hiff : max d 1 ≤ p ↔ d ≤ p := by omega
  simp [hiff]

lemma lastArrival_seen (hall : sys.AllReturned m) (hspan : Consecutive raw.Mark d e) (he : e ≤ m) :
    ∃ x, x ∈ sys.entered ∧ CompletedBy raw.Mark sys.seen x d e ∧ lastArrival sys.entered (max d 1) e = some x := by
  have hlt := hspan.lt
  have hcomplete := complete_of_allReturned hall hspan he
  have hsome : (lastArrival sys.entered d e).isSome := by
    refine find?_isSome.2 ⟨e, (hall.entered e).2 ⟨by omega, he⟩, ?_⟩
    simp [le_of_lt hlt]
  rcases Option.isSome_iff_exists.1 hsome with ⟨x, hx⟩
  refine ⟨x, lastArrival_mem hx, ⟨hcomplete, ?_⟩, inv.lastArrival_entered.trans hx⟩
  have happend : lastArrival sys.seen d e = (lastArrival sys.entered d e).or (lastArrival [0] d e) := find?_append
  rw [happend, hx]
  rfl

lemma reported_iff (hall : sys.AllReturned m) (hspan : Consecutive raw.Mark d e) (he : e ≤ m) :
    (d, e) ∈ sys.reported ↔ (d = 0 → raw.firstSpanMissed sys.entered m = false) := by
  rcases inv.lastArrival_seen hall hspan he with ⟨x, hx, hdone, hlast⟩
  rw [inv.reported_iff_not_missed hall hdone hx]
  by_cases hd : d = 0
  · subst hd
    have hfirst := raw.firstDelimiter?_eq_some_iff.2 ⟨hspan, he⟩
    have hpos := inv.pos_of_mem_entered hx
    have hbounds := lastArrival_bounds hlast
    simp only [Nat.zero_le, sup_of_le_right] at hlast
    have hinner : x / 64 ≠ e / 64 → raw.hasTupleDelimiter x = false := by
      intro hne
      have hxe : x ≠ e := fun heq => hne (by rw [heq])
      have hno := hspan.between x hpos (lt_of_le_of_ne hbounds.2 hxe)
      rw [raw.mark_iff_of_pos hpos] at hno
      simpa using hno
    simp only [firstSpanMissed, hfirst, hlast, ShredderInput.Missed, true_and, forall_const, decide_eq_false_iff_not]
    constructor
    · intro hnot hne
      exact hnot ⟨hinner hne, hne⟩
    · rintro hsame ⟨_, hne⟩
      exact hsame hne
  · have hnot : ¬ raw.Missed x d e := fun hmissed => hd hmissed.1
    simp [hd, hnot]

end ShredderInvariant

/-! ## Runs of one call after the other -/

def callsInOrder (order : List Nat) : List ShredderEvent :=
  order.flatMap fun sn => [.isInRange sn, .beginCall sn, .endCall sn]

section InOrder

variable {raw : RawBuffers}

lemma ShredderInvariant.isInRange_of_lt {sys : ShredderSystem} (inv : ShredderInvariant raw sys) {sn : Nat}
    (h : sn / 64 < initialNumBitmaps) : (sys.shredder.isInRange sn).2 = true := by
  have hsize := inv.size_ge
  exact isInRange_iff.2 (by omega)

/-- As long as the first buffer has not arrived, the tail does not move. -/
lemma ShredderInvariant.isInRange_iff_of_not_entered {sys : ShredderSystem} (inv : ShredderInvariant raw sys)
    (h : 1 ∉ sys.entered) (sn : Nat) : (sys.shredder.isInRange sn).2 = true ↔ sn / 64 < initialNumBitmaps := by
  have htail : sys.shredder.tail = 0 := by
    by_contra hmoved
    have hseen := (inv.ring.behind 1 (by omega)).1
    simp [mem_seen_iff, h] at hseen
  rw [isInRange_iff, htail, inv.size_eq htail, Nat.zero_add]

/-- A whole call from a state without calls in flight. -/
lemma exists_run_call {sys : ShredderSystem} (inv : ShredderInvariant raw sys)
    (hidle : sys.inFlight = []) {sn : Nat} (hpos : 0 < sn) (hnew : sn ∉ sys.entered)
    (hrange : sn / 64 < initialNumBitmaps) :
    ∃ sys₁ sys₂, (sys.askInRange sn).beginCall raw sn = some sys₁ ∧ sys₁.step raw (.endCall sn) = some sys₂ ∧
      runFrom (step raw) sys [.isInRange sn, .beginCall sn, .endCall sn] = some sys₂ ∧
      ShredderInvariant raw sys₂ ∧ sys₂.inFlight = [] ∧ sys₂.entered = sn :: sys.entered := by
  have hin := inv.isInRange_of_lt hrange
  have hgranted : sn ∈ (sys.askInRange sn).inRange := by
    simp [ShredderSystem.askInRange, hin]
  rcases (inv.askInRange sn).beginCall hpos hgranted hnew with ⟨sys₁, hbegin, inv₁⟩
  rcases beginCall_eq_some hbegin with ⟨shredder, call, hsn, heq⟩
  have hflight : sys₁.inFlight = [call] := by
    rw [heq]
    exact congrArg (call :: ·) hidle
  have hentered : sys₁.entered = sn :: sys.entered := by rw [heq]; rfl
  rcases inv₁.endCall (hflight ▸ mem_singleton_self call) with ⟨sys₂, hend, inv₂⟩
  rcases endCall_eq_some hend with ⟨shredder', buffers, heq'⟩
  have hstep₁ : (sys.askInRange sn).step raw (.beginCall sn) = some sys₁ := by
    have henabled : 0 < sn ∧ sn ∈ (sys.askInRange sn).inRange ∧ sn ∉ (sys.askInRange sn).entered :=
      ⟨hpos, hgranted, hnew⟩
    simp only [ShredderSystem.step, if_pos henabled, hbegin]
  have hstep₂ : sys₁.step raw (.endCall sn) = some sys₂ := by
    simp [ShredderSystem.step, hflight, hsn, hend]
  refine ⟨sys₁, sys₂, hbegin, hstep₂, ?_, inv₂, ?_, ?_⟩
  · rw [runFrom_cons_of_step rfl, runFrom_cons_of_step hstep₁, runFrom_cons_of_step hstep₂, runFrom_nil]
  · rw [heq', hflight]
    simp
  · rw [heq', ← hentered]

lemma exists_run_callsInOrder (raw : RawBuffers) {N : Nat} {order : List Nat} (hperm : order.Perm (range' 1 N))
    (hN : N < 4096) :
    ∃ sys, run raw (callsInOrder order) = some sys ∧ sys.AllReturned N ∧ sys.entered = order.reverse := by
  -- the order is processed from any state that has not seen it
  have hgeneral : ∀ (order : List Nat) (sys : ShredderSystem), ShredderInvariant raw sys →
      sys.inFlight = [] → order.Nodup → (∀ sn ∈ order, 0 < sn ∧ sn / 64 < initialNumBitmaps) →
      (∀ sn ∈ order, sn ∉ sys.entered) →
      ∃ sys', runFrom (step raw) sys (callsInOrder order) = some sys' ∧
        sys'.inFlight = [] ∧ sys'.entered = order.reverse ++ sys.entered := by
    intro order
    induction order with
    | nil =>
      intro sys _ hidle _ _ _
      exact ⟨sys, rfl, hidle, rfl⟩
    | cons sn rest ih =>
      intro sys inv hidle hnodup hgood hnew
      rcases nodup_cons.1 hnodup with ⟨hfirst, hrest⟩
      have hsn := hgood sn mem_cons_self
      rcases exists_run_call inv hidle hsn.1 (hnew sn mem_cons_self) hsn.2 with
        ⟨_, sys₁, _, _, hrun₁, inv₁, hidle₁, hentered₁⟩
      rcases ih sys₁ inv₁ hidle₁ hrest (fun q hq => hgood q (mem_cons_of_mem sn hq)) (by
          intro q hq
          rw [hentered₁, mem_cons, not_or]
          exact ⟨fun heq => hfirst (heq ▸ hq), hnew q (mem_cons_of_mem sn hq)⟩) with
        ⟨sys₂, hrun₂, hidle₂, hentered₂⟩
      refine ⟨sys₂, ?_, hidle₂, by rw [hentered₂, hentered₁]; simp⟩
      rw [callsInOrder, flatMap_cons, runFrom_append hrun₁]
      exact hrun₂
  have hmem : ∀ sn, sn ∈ order ↔ 1 ≤ sn ∧ sn ≤ N := by
    intro sn
    rw [hperm.mem_iff, mem_range'_1]
    omega
  rcases hgeneral order (initial raw) (ShredderInvariant.initial raw) rfl (hperm.nodup_iff.2 nodup_range')
      (fun sn hsn => by
        have hbounds := (hmem sn).1 hsn
        simp only [initialNumBitmaps]
        omega) (fun sn _ => not_mem_nil) with ⟨sys, hrun, hidle, hentered⟩
  have hreverse : sys.entered = order.reverse := hentered.trans (append_nil _)
  refine ⟨sys, hrun, ⟨fun sn => ?_, hidle⟩, hreverse⟩
  rw [hreverse, mem_reverse, hmem]

end InOrder

/-- Buffers of one byte each: a newline where there is a delimiter, the letter `a` elsewhere. -/
def sampleBuffers (hasTupleDelimiter : Nat → Bool) : RawBuffers where
  sizeOfTupleDelimiter := 1
  hasTupleDelimiter := hasTupleDelimiter
  stagedBuffer := fun sn =>
    { buffer := some ⟨sn, [if hasTupleDelimiter sn then 10 else 97]⟩
      sizeOfBufferInBytes := 1
      offsetOfFirstTupleDelimiter := 0
      offsetOfLastTupleDelimiter := 0 }
  ownsBuffer := fun _ => ⟨_, rfl, rfl⟩

/-! ## Every span is handed out, with one exception -/

/-- Every span of the buffers `1, …, N` is covered by what some call returned, if and only if the span
that starts at position 0 was not missed. -/
theorem spans_covered_iff (raw : RawBuffers) (N : Nat) (events : List ShredderEvent)
    (sys : ShredderSystem) (hrun : run raw events = some sys) (hall : sys.AllReturned N) :
    (∀ d e, Consecutive raw.Mark d e → e ≤ N → sys.Covered raw d e) ↔
      raw.firstSpanMissed (arrivals events) N = false := by
  have inv := of_run hrun
  rw [← entered_of_run hrun]
  constructor
  · intro hcovered
    cases hfirst : raw.firstDelimiter? N with
    | none => simp [firstSpanMissed, hfirst]
    | some e =>
      rcases raw.firstDelimiter?_eq_some_iff.1 hfirst with ⟨hspan, he⟩
      have hreported := (inv.covered_iff_reported hspan).1 (hcovered 0 e hspan he)
      exact (inv.reported_iff hall hspan he).1 hreported rfl
  · intro hfound d e hspan he
    exact (inv.covered_iff_reported hspan).2 ((inv.reported_iff hall hspan he).2 fun _ => hfound)

/-- The stretch `2, …, 64, 1`: buffer 1 completes the first span from the lowest bitmap, the only
delimiter is in the next one. -/
def lastBufferFirst : List Nat := range' 2 63 ++ [1]

lemma exists_run_lastBufferFirst :
    ∃ sys, run raw (callsInOrder lastBufferFirst) = some sys ∧ sys.AllReturned 64 ∧
      sys.entered = lastBufferFirst.reverse :=
  exists_run_callsInOrder raw perm_append_comm (by decide)

/-- With delimiters in the buffers 1 and 64 and this order, every span is covered. -/
theorem spans_covered_iff_applies : ∃ sys, run (sampleBuffers fun sn => sn = 1 || sn = 64)
          (callsInOrder lastBufferFirst) = some sys ∧ sys.AllReturned 64 ∧
      ∀ d e, Consecutive (sampleBuffers fun sn => sn = 1 || sn = 64).Mark d e → e ≤ 64 →
        sys.Covered (sampleBuffers fun sn => sn = 1 || sn = 64) d e := by
  rcases exists_run_lastBufferFirst (sampleBuffers fun sn => sn = 1 || sn = 64) with ⟨sys, hrun, hall, hentered⟩
  refine ⟨sys, hrun, hall, (spans_covered_iff _ 64 _ sys hrun hall).2 ?_⟩
  decide

/-- With the only delimiter in buffer 64 and this order, the first span is lost. -/
theorem first_span_lost : ∃ sys, run (sampleBuffers fun sn => sn = 64) (callsInOrder lastBufferFirst)
          = some sys ∧ sys.AllReturned 64 ∧
      Consecutive (sampleBuffers fun sn => sn = 64).Mark 0 64 ∧
      ¬ sys.Covered (sampleBuffers fun sn => sn = 64) 0 64 := by
  rcases exists_run_lastBufferFirst (sampleBuffers fun sn => sn = 64) with ⟨sys, hrun, hall, hentered⟩
  have inv := of_run hrun
  have hfirst : (sampleBuffers fun sn => sn = 64).firstDelimiter? 64 = some 64 := by decide
  have hspan := ((sampleBuffers fun sn => sn = 64).firstDelimiter?_eq_some_iff.1 hfirst).1
  refine ⟨sys, hrun, hall, hspan, fun hcovered => ?_⟩
  have hfound := (inv.reported_iff hall hspan le_rfl).1 ((inv.covered_iff_reported hspan).1 hcovered) rfl
  rw [hentered] at hfound
  cases hfound

/-! ## What is handed out is sound -/

variable (result : ProcessSequenceNumberCall × SpanningTupleBuffers)

/-- The spanning tuples in what a call returned, each with its buffers: up to the caller's own buffer for
the leading tuple, from it on for the trailing one. -/
def reportedTuples : List ((Nat × Nat) × List StagedBuffer) :=
  let call := result.1
  let buffers := result.2.stagedBuffers
  let index := result.2.indexOfProcessedSequenceNumber
  if call.hasTupleDelimiter then
    (if call.spanningTuple.isStartValid then
      [((call.spanningTuple.spanStart, call.sequenceNumber), buffers.take (index + 1))]
    else [])
    ++ (if call.spanningTuple.isEndValid then
      [((call.sequenceNumber, call.spanningTuple.spanEnd), buffers.drop index)]
    else [])
  else if call.spanningTuple.isStartValid && call.spanningTuple.isEndValid then
    [((call.spanningTuple.spanStart, call.spanningTuple.spanEnd), buffers)]
  else
    []

lemma map_fst_reportedTuples : (reportedTuples result).map Prod.fst = result.1.reportedSpans := by
  simp only [reportedTuples, reportedSpans]
  cases result.1.hasTupleDelimiter with
  | true =>
    cases result.1.spanningTuple.isStartValid with
    | true | false => cases result.1.spanningTuple.isEndValid <;> simp
  | false =>
    cases (result.1.spanningTuple.isStartValid && result.1.spanningTuple.isEndValid) <;> simp

lemma take_indicesOfSpan {a x b : Nat} (hax : a ≤ x) (hxb : x ≤ b) :
    (indicesOfSpan a b).take (x - a + 1) = indicesOfSpan a x := by
  rw [indicesOfSpan_eq_append (le_refl a) hax hxb, Nat.sub_self, range'_zero, nil_append]
  refine take_left' ?_
  rw [indicesOfSpan, length_range']
  omega

lemma drop_indicesOfSpan {a x b : Nat} (hax : a ≤ x) (hxb : x ≤ b) :
    (indicesOfSpan a b).drop (x - a) = indicesOfSpan x b := by
  rw [indicesOfSpan_eq_append hax hxb (le_refl b), Nat.sub_self, range'_zero, append_nil]
  refine drop_left' ?_
  rw [length_range']

lemma CallSpec.buffers_of_reportedTuples {raw : ShredderInput} {seen : List Nat}
    {call : ProcessSequenceNumberCall} (hspec : CallSpec raw seen call) {d e : Nat}
    {buffers : List StagedBuffer} (h : ((d, e), buffers) ∈ reportedTuples (call, raw.buffersOf call)) :
    buffers = (indicesOfSpan d e).map raw.staged := by
  have hle := hspec.startIndex_le
  have hle' := hspec.le_endIndex
  simp only [reportedTuples] at h
  cases hdel : call.hasTupleDelimiter with
  | true =>
    have hret : call.returnsBuffers = true := by
      simp [returnsBuffers, hdel]
    simp only [hdel, if_true, mem_append, buffersOf, hret] at h
    rcases h with hlead | htrail
    · cases hv : call.spanningTuple.isStartValid with
      | false => simp [hv] at hlead
      | true =>
        have hstart : call.startIndex = call.spanningTuple.spanStart := by
          simp [startIndex, hv]
        simp only [hv, if_true, mem_singleton, Prod.mk.injEq] at hlead
        rcases hlead with ⟨⟨rfl, rfl⟩, rfl⟩
        rw [← map_take, take_indicesOfSpan hle hle', hstart]
    · cases hv : call.spanningTuple.isEndValid with
      | false => simp [hv] at htrail
      | true =>
        have hend : call.endIndex = call.spanningTuple.spanEnd := by
          simp [endIndex, hv]
        simp only [hv, if_true, mem_singleton, Prod.mk.injEq] at htrail
        rcases htrail with ⟨⟨rfl, rfl⟩, rfl⟩
        rw [← map_drop, drop_indicesOfSpan hle hle', hend]
  | false =>
    simp only [hdel, Bool.false_eq_true, if_false] at h
    cases hv : call.spanningTuple.isStartValid && call.spanningTuple.isEndValid with
    | false => simp [hv] at h
    | true =>
      have hret : call.returnsBuffers = true := by
        simp [returnsBuffers, hv]
      simp only [hv, if_true, mem_singleton, Prod.mk.injEq, buffersOf, hret] at h
      rw [Bool.and_eq_true] at hv
      rcases h with ⟨⟨rfl, rfl⟩, rfl⟩
      simp [startIndex, endIndex, hv.1, hv.2]

/-- In every reachable state: each spanning tuple that a call returned lies between two consecutive
delimiters, all its buffers were processed, it comes with exactly the buffers staged for its positions,
and no start position was returned twice. -/
theorem reported_spans_sound (raw : RawBuffers) (events : List ShredderEvent) (sys : ShredderSystem)
    (hrun : run raw events = some sys) :
    (∀ result ∈ sys.returned, ∀ d e buffers, ((d, e), buffers) ∈ reportedTuples result →
      Consecutive raw.Mark d e ∧ (∀ p, d ≤ p → p ≤ e → p ∈ sys.seen) ∧ buffers = (indicesOfSpan d e).map raw.staged) ∧
      ((sys.returned.flatMap reportedTuples).map fun tuple => tuple.1.1).Nodup := by
  have inv := of_run hrun
  have hspans : ∀ span ∈ sys.reported, Consecutive raw.Mark span.1 span.2 := by
    rintro ⟨d, e⟩ hmem
    rcases mem_flatMap.1 hmem with ⟨call, hcall, hreport⟩
    exact (inv.completedBy_of_reports (mem_calls_of_returned hcall) hreport).complete.span
  refine ⟨?_, ?_⟩
  · rintro ⟨call, buffers'⟩ hresult d e buffers hmem
    have hcall := mem_calls_of_returned (ShredderInvariant.mem_returnedCalls.2 ⟨buffers', hresult⟩)
    have hreport : (d, e) ∈ call.reportedSpans := by
      rw [← map_fst_reportedTuples (call, buffers')]
      exact mem_map_of_mem hmem
    have hdone := inv.completedBy_of_reports hcall hreport
    have hbuffers : buffers' = raw.buffersOf call := inv.buffers _ hresult
    rw [hbuffers] at hmem
    exact ⟨hdone.complete.span, hdone.complete.arrived, (inv.specs call hcall).buffers_of_reportedTuples hmem⟩
  · have hstarts : ((sys.returned.flatMap reportedTuples).map fun tuple => tuple.1.1)
        = sys.reported.map Prod.fst := by
      have hmap : (sys.returned.flatMap reportedTuples).map Prod.fst = sys.reported := by
        rw [map_flatMap, reported, returnedCalls, flatMap_map]
        exact flatMap_congr fun result _ => map_fst_reportedTuples result
      rw [← hmap, map_map]
      rfl
    rw [hstarts]
    have hnodup : sys.reported.Nodup := inv.nodup_reportedSpans.sublist ((sublist_append_right _ _).flatMap _)
    refine hnodup.map_on ?_
    rintro ⟨d, e⟩ hmem ⟨d', e'⟩ hmem' heq
    have hd : d = d' := heq
    subst hd
    exact Prod.ext rfl ((hspans _ hmem).right_unique (hspans _ hmem'))

/-- A run of the sample buffers with delimiters in 1 and 64. -/
theorem reported_spans_sound_applies : ∃ sys, run (sampleBuffers fun sn => sn = 1 || sn = 64)
          (callsInOrder lastBufferFirst) = some sys ∧
      ((sys.returned.flatMap reportedTuples).map fun tuple => tuple.1.1).Nodup := by
  rcases exists_run_lastBufferFirst (sampleBuffers fun sn => sn = 1 || sn = 64) with ⟨sys, hrun, _, _⟩
  exact ⟨sys, hrun, (reported_spans_sound _ _ sys hrun).2⟩

/-! ## The next buffer of an in-order source -/

namespace ShredderInvariant

variable {raw : ShredderInput} {sys : ShredderSystem} {m : Nat}

variable (inv : ShredderInvariant raw sys) (hall : sys.AllReturned m)
include inv hall

lemma done_of_lt_oldestOpen {p : Nat} (hp : p < raw.oldestOpen sys.entered m) : Done raw.Mark sys.seen sys.Used p := by
  unfold oldestOpen at hp
  split at hp
  case isTrue => omega
  case isFalse hfound =>
    have hle : Nat.findGreatest raw.Mark m ≤ m := Nat.findGreatest_le m
    refine ⟨by rw [mem_seen_iff, hall.entered]; omega, fun hmark => ?_⟩
    -- the next mark after `p`
    have hex : ∃ e, p < e ∧ raw.Mark e := ⟨_, hp, Nat.findGreatest_spec (Nat.zero_le m) raw.mark_zero⟩
    have hspan : Consecutive raw.Mark p (Nat.find hex) := by
      refine ⟨(Nat.find_spec hex).1, hmark, (Nat.find_spec hex).2, ?_⟩
      intro q hpq hqe hq
      exact Nat.find_min hex hqe ⟨hpq, hq⟩
    have hnext : Nat.find hex ≤ Nat.findGreatest raw.Mark m :=
      Nat.find_min' hex ⟨hp, Nat.findGreatest_spec (Nat.zero_le m) raw.mark_zero⟩
    exact ⟨_, (inv.reported_iff hall hspan (hnext.trans hle)).2 fun _ => by simpa using hfound⟩

lemma not_done_oldestOpen : ¬ Done raw.Mark sys.seen sys.Used (raw.oldestOpen sys.entered m) := by
  rintro ⟨_, huse⟩
  unfold oldestOpen at huse
  have hreport : ∀ {d}, sys.Used d → ∃ e, Consecutive raw.Mark d e ∧ e ≤ m ∧ (d, e) ∈ sys.reported := by
    rintro d ⟨e, hmem⟩
    rcases mem_flatMap.1 hmem with ⟨call, hcall, hrep⟩
    have hcomplete := (inv.completedBy_of_reports (mem_calls_of_returned hcall) hrep).complete
    have hlt := hcomplete.span.lt
    have hseen := hcomplete.arrived e (le_of_lt hlt) le_rfl
    rw [mem_seen_iff, hall.entered] at hseen
    exact ⟨e, hcomplete.span, by omega, hmem⟩
  split at huse
  case isTrue hmissed =>
    rcases hreport (huse raw.mark_zero) with ⟨e, hspan, he, hmem⟩
    have hfound := (inv.reported_iff hall hspan he).1 hmem rfl
    rw [hmissed] at hfound
    cases hfound
  case isFalse =>
    rcases hreport (huse (Nat.findGreatest_spec (Nat.zero_le m) raw.mark_zero)) with ⟨e, hspan, he, _⟩
    exact Nat.findGreatest_is_greatest hspan.lt he hspan.right

lemma tail_eq : sys.shredder.tail = raw.oldestOpen sys.entered m / 64 := by
  rcases inv.ring.tailOpen with ⟨p, hp, hopen⟩
  have hge : raw.oldestOpen sys.entered m ≤ p := by
    by_contra hlt
    exact hopen (inv.done_of_lt_oldestOpen hall (by omega))
  have hle : sys.shredder.tail ≤ raw.oldestOpen sys.entered m / 64 := by
    by_contra hlt
    exact inv.not_done_oldestOpen hall (inv.ring.behind _ (by omega))
  omega

end ShredderInvariant

/-- Once the buffers `1, …, m` are processed, the next one is in range exactly if its bitmap is less than
the size of the ring above the bitmap of the oldest position that is still open: the last delimiter, or
position 0 if the first span was missed. -/
theorem isInRange_next_iff (raw : RawBuffers) (m : Nat) (events : List ShredderEvent)
    (sys : ShredderSystem) (hrun : run raw events = some sys) (hall : sys.AllReturned m) :
    (sys.shredder.isInRange (m + 1)).2 = true ↔ (m + 1) / 64 < raw.oldestOpen (arrivals events) m / 64
        + sys.shredder.numberOfBitmaps := by
  have inv := of_run hrun
  rw [← entered_of_run hrun, ← inv.tail_eq hall]
  exact isInRange_iff

/-- After 64 buffers the next one is in range. -/
theorem isInRange_next_iff_applies : ∃ sys, run (sampleBuffers fun sn => sn = 1 || sn = 64)
          (callsInOrder lastBufferFirst) = some sys ∧ sys.AllReturned 64 ∧ (sys.shredder.isInRange 65).2 = true := by
  rcases exists_run_lastBufferFirst (sampleBuffers fun sn => sn = 1 || sn = 64) with ⟨sys, hrun, hall, _⟩
  have hsize := (of_run hrun).size_ge
  refine ⟨sys, hrun, hall, (isInRange_next_iff _ 64 _ sys hrun hall).2 ?_⟩
  simp only [initialNumBitmaps] at hsize
  omega

/-- Without any delimiter the tail never moves, so the ring never grows: buffer 4096 is not accepted
although all buffers before it have been processed. -/
theorem in_order_source_stuck : ∃ sys, run (sampleBuffers fun _ => false) (callsInOrder (range' 1 4095))
          = some sys ∧ sys.AllReturned 4095 ∧ (sys.shredder.isInRange 4096).2 = false := by
  rcases exists_run_callsInOrder (sampleBuffers fun _ => false) (.refl _) (show 4095 < 4096 by decide) with
    ⟨sys, hrun, hall, _⟩
  have inv := of_run hrun
  have hfirst : (sampleBuffers fun _ => false).firstDelimiter? 4095 = none := by
    simp [firstDelimiter?, sampleBuffers]
  have hlast : Nat.findGreatest (sampleBuffers fun _ => false).Mark 4095 = 0 := by
    rw [Nat.findGreatest_eq_zero_iff]
    intro p hp _
    simp [mark_iff_of_pos _ hp, sampleBuffers]
  have htail : sys.shredder.tail = 0 := by
    rw [inv.tail_eq hall]
    simp [oldestOpen, firstSpanMissed, hfirst, hlast]
  refine ⟨sys, hrun, hall, ?_⟩
  simp [isInRange, shiftRight_bitmapSizeBitShift, htail, inv.size_eq htail, initialNumBitmaps]

/-! ## The searches are defined -/

/-- The search of the call for `sn`, on the snapshot its first locked section takes. -/
def ShredderSystem.searchOf (sys : ShredderSystem) (raw : RawBuffers) (sn : Nat) : Option SpanningTuple :=
  let (_, snapshot, lower, higher) :=
    sys.shredder.stageSequenceNumber (raw.hasTupleDelimiter sn) (raw.stagedBuffer sn) sn
  findSpanningTuple (raw.hasTupleDelimiter sn) sn snapshot (wrappingModeOf lower higher)

/-- In every reachable state each search of a call that may begin there returns.  The embedded searches have
no result as soon as a shift amount or a bit index is not in 0, …, 63 (`shiftLeft?`, `shiftRight?`, `sub?`)
or a loop over the bitmaps has made as many iterations as there are bitmaps (`skipBitmaps`). -/
theorem searches_defined_of_run {raw : RawBuffers} {events : List ShredderEvent} {sys : ShredderSystem} {sn : Nat}
    (hrun : run raw events = some sys) (henabled : sys.Enabled (.beginCall sn)) :
    ∃ found, sys.searchOf raw sn = some found := by
  rcases henabled with ⟨hpos, hrange, hnew⟩
  rcases (of_run hrun).beginCall hpos hrange hnew with ⟨sys', hbegin, -⟩
  simp only [ShredderSystem.beginCall, beginProcessSequenceNumber, Option.bind_eq_bind,
    Option.bind_eq_some_iff] at hbegin
  rcases hbegin with ⟨-, ⟨found, hfind, -⟩, -⟩
  exact ⟨found, hfind⟩

/-- Buffer 1 is inside its call and buffer 3 has been processed when buffer 2 comes. -/
def betweenTwoCalls : List ShredderEvent :=
  [.isInRange 1, .beginCall 1, .isInRange 3, .beginCall 3, .endCall 3, .isInRange 2]

theorem searches_defined_of_run_between :
    ∃ sys, run (sampleBuffers fun _ => true) betweenTwoCalls = some sys ∧ sys.Enabled (.beginCall 2) ∧
      ∃ found, sys.searchOf (sampleBuffers fun _ => true) 2 = some found := by
  have hsome : (run (sampleBuffers fun _ => true) betweenTwoCalls).map (fun sys => (sys.inRange, sys.entered))
      = some ([2, 3, 1], [3, 1]) := by decide
  rcases Option.map_eq_some_iff.1 hsome with ⟨sys, hrun, hsys⟩
  rcases Prod.mk.inj hsys with ⟨hrange, hentered⟩
  have henabled : sys.Enabled (.beginCall 2) := ⟨Nat.two_pos, hrange ▸ by decide, hentered ▸ by decide⟩
  exact ⟨sys, hrun, henabled, searches_defined_of_run hrun henabled⟩

end MobilityNebula.InputFormatters
