import MobilityNebula.Sequencing.SequenceOperator

/-!
# CanonicalLoop — threads that run the documented loop over one sequencer

Every thread asks `isNext` for its value, and as long as it gets a value it processes it and asks
`advanceAndGetNext` for the next one.  The calls take a lock, so a run is an interleaving of calls.  A value
carries its own sequence data, as in the unit test of the sequencer.

The loop does what the sequence operator does with one origin, except that every thread keeps its value in a
variable of its own: `Follows` relates the two, `follows_step` is the simulation.
-/

namespace MobilityNebula.Sequencing

open Library SequenceSystem Function Option Sequencer

universe u

/-- The sequence numbers 1, …, N, each with all its chunks. -/
def gapless (numberOfSequences : Nat) (numberOfChunks : Nat → Nat) (hpos : ∀ s, 0 < numberOfChunks s) :
    OriginInput where
  origins := [0]
  numberOfBuffers _ := numberOfSequences
  numberOfChunks _ := numberOfChunks
  numberOfChunks_pos _ := hpos

lemma gapless_singleOrigin (n : Nat) (k : Nat → Nat) (hpos : ∀ s, 0 < k s) : (gapless n k hpos).SingleOrigin :=
  fun _ ho _ ho' _ _ => (List.mem_singleton.1 ho).trans (List.mem_singleton.1 ho').symm

/-! ## The threads -/

structure LoopState (θ : Type u) where
  sequencer : Sequencer BufferId
  arrived : List BufferId
  /-- What a thread got from the sequencer, and whether it has processed it. -/
  dataToProcess : θ → Option (BufferId × Bool)
  /-- The values that were processed, the latest first. -/
  processed : List BufferId

inductive LoopEvent (θ : Type u) where
  | isNext (t : θ) (b : BufferId)
  | processData (t : θ)
  | advanceAndGetNext (t : θ)

namespace LoopState

variable {θ : Type u} [DecidableEq θ] {input : OriginInput} {s s' : LoopState θ}

def initial : LoopState θ := ⟨create, [], fun _ => none, []⟩

def Enabled (input : OriginInput) (s : LoopState θ) : LoopEvent θ → Prop
  | .isNext t b => s.dataToProcess t = none ∧ input.IsBuffer b ∧ b ∉ s.arrived
  | .processData t => ∃ b, s.dataToProcess t = some (b, false)
  | .advanceAndGetNext t => ∃ b, s.dataToProcess t = some (b, true)

def store (s : LoopState θ) (t : θ) (sequencer : Sequencer BufferId) (next : Option BufferId) : LoopState θ :=
  { s with
    sequencer := sequencer
    dataToProcess := update s.dataToProcess t (next.map fun b => (b, false)) }

/-- The state after an event, or nothing if the precondition of `advanceAndGetNext` fails. -/
def step (input : OriginInput) (s : LoopState θ) : LoopEvent θ → Option (LoopState θ)
  | .isNext t b =>
    let (sequencer, next) := s.sequencer.isNext (input.data b) b
    some ({ s with arrived := b :: s.arrived }.store t sequencer next)
  | .processData t =>
    (s.dataToProcess t).map fun data =>
      { s with
        dataToProcess := update s.dataToProcess t (some (data.1, true))
        processed := data.1 :: s.processed }
  | .advanceAndGetNext t =>
    (s.dataToProcess t).bind fun data =>
      (s.sequencer.advanceAndGetNext (input.data data.1)).map fun (sequencer, next) => s.store t sequencer next

def IsReachable (input : OriginInput) (s : LoopState θ) : Prop := Reachable initial (Enabled input) (step input) s

/-- Every value was given to a thread, and all loops have ended. -/
def Final (input : OriginInput) (s : LoopState θ) : Prop :=
  (∀ b, input.IsBuffer b → b ∈ s.arrived) ∧ ∀ t, s.dataToProcess t = none

/-! ## The simulation -/

/-- One thread holds a value, the others are outside of their loops. -/
def holder (t : θ) (data : BufferId × Bool) : θ → Option (BufferId × Bool) :=
  update (fun _ => none) t (some data)

lemma holder_eq_some {t t' : θ} {data data' : BufferId × Bool} (h : holder t data t' = some data') :
    t' = t ∧ data = data' := by
  by_cases ht : t' = t
  · subst ht
    rw [holder, update_self] at h
    exact ⟨rfl, some.inj h⟩
  · rw [holder, update_of_ne ht] at h
    cases h

/-- The sequence operator in the same situation. -/
structure Follows (s : LoopState θ) (system : SequenceSystem) : Prop where
  sequencer : system.sequencer = s.sequencer
  arrived : system.arrived = s.arrived
  processed : system.scanned = s.processed
  threads : (system.opening = 0 ∧ system.scanning = 0 ∧ s.dataToProcess = fun _ => none) ∨
    ∃ t b done, system.currentBuffer = some b ∧ system.opening = (if done then 0 else 1) ∧
      system.scanning = (if done then 1 else 0) ∧ s.dataToProcess = holder t (b, done)

variable {system : SequenceSystem}

lemma Follows.holds (h : Follows s system) {t : θ} {b : BufferId} {done : Bool}
    (ht : s.dataToProcess t = some (b, done)) :
    system.currentBuffer = some b ∧ system.opening = (if done then 0 else 1) ∧
      system.scanning = (if done then 1 else 0) ∧ s.dataToProcess = holder t (b, done) := by
  rcases h.threads with ⟨-, -, hnone⟩ | ⟨t', b', done', hcurrent, hopening, hscanning, hholder⟩
  · rw [hnone] at ht
    cases ht
  · rw [hholder] at ht
    rcases holder_eq_some ht with ⟨rfl, heq⟩
    cases heq
    exact ⟨hcurrent, hopening, hscanning, hholder⟩

/-- Every event of the threads is an event of the sequence operator, and neither aborts. -/
lemma follows_step (h : Follows s system) (hsingle : input.SingleOrigin)
    (hreachable : SequenceSystem.IsReachable input system) {event : LoopEvent θ} (henabled : s.Enabled input event) :
    ∃ s' event' system', s.step input event = some s' ∧ system.Enabled input event' ∧
      system.step input event' = some system' ∧ Follows s' system' := by
  have inv := SequenceSystem.DeliveryInvariant.of_isReachable hsingle hreachable
  cases event with
  | isNext t b =>
    rcases henabled with ⟨hnone, hb, hnew⟩
    have henabled' : system.Enabled input (.getNextBuffer b) := ⟨hb, h.arrived ▸ hnew⟩
    rcases exists_effect_getNextBuffer input system b with ⟨system', hstep, heffect⟩
    have inv' := inv.step hsingle henabled' heffect
    refine ⟨{ s with arrived := b :: s.arrived }.store t (s.sequencer.isNext (input.data b) b).1
      (s.sequencer.isNext (input.data b) b).2, .getNextBuffer b, system', rfl, henabled', hstep, ?_⟩
    cases heffect with
    | next hnext =>
      -- the sequencer hands out the next value only while no thread is inside its loop
      have hfree : system.opening = 0 ∧ system.scanning = 0 := by
        have hle : system.opening + 1 + system.scanning ≤ 1 := inv'.single
        omega
      have hdata : s.dataToProcess = fun _ => none := by
        rcases h.threads with ⟨-, -, hdata⟩ | ⟨_, _, done, -, hopening, hscanning, -⟩
        · exact hdata
        · cases done <;> simp [hfree] at hopening hscanning
      rw [isNext_of_eq (show (input.data b).position = s.sequencer.next from h.sequencer ▸ hnext)]
      refine ⟨h.sequencer, congrArg _ h.arrived, h.processed, .inr ⟨t, b, false, rfl, ?_, hfree.2, ?_⟩⟩
      · exact congrArg (· + 1) hfree.1
      · simp only [store, hdata]
        rfl
    | queued hnext =>
      rw [isNext_of_ne (show (input.data b).position ≠ s.sequencer.next from h.sequencer ▸ hnext)]
      have hsame : update s.dataToProcess t none = s.dataToProcess := update_eq_self_iff.2 hnone.symm
      refine ⟨?_, congrArg _ h.arrived, h.processed, ?_⟩
      · simp only [store, h.sequencer]
      · simp only [store, map_none, hsame]
        exact h.threads
  | processData t =>
    rcases henabled with ⟨b, ht⟩
    rcases h.holds ht with ⟨hcurrent, hopening, hscanning, hholder⟩
    have hstep : system.step input .scan = some { system with
        opening := system.opening - 1
        scanning := system.scanning + 1
        scanned := b :: system.scanned } := by
      simp only [SequenceSystem.step, hcurrent, bind_eq_bind, bind_some]
    have hprocess : s.step input (.processData t) = some { s with
        dataToProcess := update s.dataToProcess t (some (b, true))
        processed := b :: s.processed } := by
      rw [step, ht, map_some]
    refine ⟨_, .scan, _, hprocess, show 0 < system.opening by simp [hopening], hstep,
      ⟨h.sequencer, h.arrived, congrArg (b :: ·) h.processed, .inr ⟨t, b, true, hcurrent, ?_, ?_, ?_⟩⟩⟩
    · simp [hopening]
    · simp [hscanning]
    · simp only [hholder, holder, update_idem]
  | advanceAndGetNext t =>
    rcases henabled with ⟨b, ht⟩
    rcases h.holds ht with ⟨hcurrent, hopening, hscanning, hholder⟩
    have hbusy : 0 < system.scanning := by simp [hscanning]
    rcases inv.current (Nat.add_pos_right _ hbusy) with ⟨b', -, hcurrent', hposition⟩
    cases hcurrent.symm.trans hcurrent'
    have hnext : (input.data b).position = s.sequencer.next := h.sequencer ▸ hposition
    have hadvance := advanceAndGetNext_of_eq hnext
    rcases hpop : (s.sequencer.moveTo (input.data b).successor).popNext with ⟨sequencer, next⟩
    rw [hpop] at hadvance
    have hstep : system.step input .markBufferAsDone
        = some (.receive { system with scanning := system.scanning - 1 } sequencer next) := by
      simp only [SequenceSystem.step, hcurrent, h.sequencer, hadvance, bind_eq_bind, bind_some]
    have hloop : s.step input (.advanceAndGetNext t) = some (s.store t sequencer next) := by
      rw [step, ht, bind_some, hadvance, map_some]
    refine ⟨_, .markBufferAsDone, _, hloop, hbusy, hstep, ?_⟩
    cases next with
    | none =>
      refine ⟨rfl, h.arrived, h.processed, .inl ⟨hopening, ?_, ?_⟩⟩
      · simp [receive, hscanning]
      · simp [store, hholder, holder]
    | some next =>
      refine ⟨rfl, h.arrived, h.processed, .inr ⟨t, next, false, rfl, ?_, ?_, ?_⟩⟩
      · simp [receive, hopening]
      · simp [receive, hscanning]
      · simp only [store, hholder, holder, map_some, update_idem]

lemma exists_follows (hsingle : input.SingleOrigin) (h : IsReachable input s) :
    ∃ system, Follows s system ∧ SequenceSystem.IsReachable input system := by
  refine Reachable.invariant (fun s => ∃ system, Follows s system ∧ SequenceSystem.IsReachable input system) ?_ ?_ h
  · exact ⟨.initial, ⟨rfl, rfl, rfl, .inl ⟨rfl, rfl, rfl⟩⟩, .initial⟩
  · rintro s event s' ⟨system, hfollows, hreachable⟩ henabled hstep
    rcases follows_step hfollows hsingle hreachable henabled with
      ⟨s'', event', system', hstep', henabled', hsystem, hfollows'⟩
    cases hstep.symm.trans hstep'
    exact ⟨system', hfollows', .step hreachable henabled' hsystem⟩

/-! ## The end of the loops -/

open Classical in
/-- How many calls are still to come, at most. -/
noncomputable def remaining (input : OriginInput) (s : LoopState θ) : Nat :=
  4 * (input.buffers.length - s.arrived.length) + 3 * s.sequencer.queue.length +
    if ∃ t b, s.dataToProcess t = some (b, false) then 2
    else if ∃ t b, s.dataToProcess t = some (b, true) then 1 else 0

lemma Follows.remaining_eq (h : Follows s system) : s.remaining input = system.remaining input := by
  rw [remaining, SequenceSystem.remaining, h.sequencer, h.arrived]
  rcases h.threads with ⟨hopening, hscanning, hnone⟩ | ⟨t, b, done, -, hopening, hscanning, hholder⟩
  · simp [hopening, hscanning, hnone]
  · have hself : holder t (b, done) t = some (b, done) := update_self ..
    cases done with
    | false =>
      rw [hopening, hscanning, hholder, if_pos ⟨t, b, hself⟩]
      rfl
    | true =>
      have hother : ¬ ∃ t' b', holder t (b, true) t' = some (b', false) := by
        rintro ⟨t', b', h'⟩
        cases (holder_eq_some h').2
      rw [hopening, hscanning, hholder, if_neg hother, if_pos ⟨t, b, hself⟩]
      rfl

/-- Threads that run the canonical loop over the values of a gapless set: no precondition fails, at most one
thread is inside its loop, the values are processed in order, and once all loops have ended every value was
processed and the queue is empty.  Every run can be continued until then. -/
theorem canonical_loop_in_order [Nonempty θ] (n : Nat) (k : Nat → Nat) (hpos : ∀ s, 0 < k s)
    (h : IsReachable (gapless n k hpos) s) :
    (∀ event, s.Enabled (gapless n k hpos) event → ∃ s', s.step (gapless n k hpos) event = some s') ∧
      (∀ t t', s.dataToProcess t ≠ none → s.dataToProcess t' ≠ none → t = t') ∧
      (s.processed.Pairwise fun later earlier =>
        Precedes (position earlier) (position later)) ∧
      (s.Final (gapless n k hpos) → (∀ b, b ∈ s.processed ↔ (gapless n k hpos).IsBuffer b) ∧ s.sequencer.queue = []) ∧
      ∃ s', Reachable s (Enabled (gapless n k hpos)) (step (gapless n k hpos)) s' ∧ s'.Final (gapless n k hpos) := by
  have hsingle := gapless_singleOrigin n k hpos
  rcases exists_follows hsingle h with ⟨system, hfollows, hreachable⟩
  have inv := SequenceSystem.DeliveryInvariant.of_isReachable hsingle hreachable
  refine ⟨?_, ?_, ?_, ?_, ?_⟩
  · intro event henabled
    rcases follows_step hfollows hsingle hreachable henabled with ⟨s', -, -, hstep, -⟩
    exact ⟨s', hstep⟩
  · intro t t' ht ht'
    rcases ne_none_iff_exists'.1 ht with ⟨data, hdata⟩
    rcases ne_none_iff_exists'.1 ht' with ⟨data', hdata'⟩
    rw [(hfollows.holds hdata).2.2.2] at hdata'
    exact (holder_eq_some hdata').1.symm
  · rw [← hfollows.processed]
    exact inv.scanned_sorted
  · rintro ⟨harrived, hnone⟩
    have hidle : system.opening = 0 ∧ system.scanning = 0 := by
      rcases hfollows.threads with hidle | ⟨t, b, done, -, -, -, hholder⟩
      · exact ⟨hidle.1, hidle.2.1⟩
      · have hself := hnone t
        rw [hholder, holder, update_self] at hself
        cases hself
    have hdelivered := inv.delivered ⟨fun b hb => hfollows.arrived ▸ harrived b hb, hidle.1, hidle.2⟩
    exact ⟨fun b => hfollows.processed ▸ hdelivered.mem_iff b, hfollows.sequencer ▸ hdelivered.queue⟩
  · rcases Reachable.exists_final (remaining (gapless n k hpos)) s (fun t ht event henabled => by
        rcases exists_follows hsingle (h.trans ht) with ⟨system, hfollows, hreachable⟩
        rcases follows_step hfollows hsingle hreachable henabled with
          ⟨t', event', system', hstep, henabled', hsystem, hfollows'⟩
        refine ⟨t', hstep, ?_⟩
        rw [hfollows.remaining_eq, hfollows'.remaining_eq]
        exact remaining_lt (.of_isReachable hreachable) henabled'
          (effect_of_step hsystem)) with ⟨s', hs', hstuck⟩
    have hidle : ∀ t, s'.dataToProcess t = none := by
      intro t
      rcases hdata : s'.dataToProcess t with _ | ⟨b, _ | _⟩
      · rfl
      · exact absurd ⟨b, hdata⟩ (hstuck (.processData t))
      · exact absurd ⟨b, hdata⟩ (hstuck (.advanceAndGetNext t))
    refine ⟨s', hs', fun b hb => ?_, hidle⟩
    by_contra hnew
    exact hstuck (.isNext (Classical.arbitrary θ) b) ⟨hidle _, hb, hnew⟩

/-- Two threads; the second value comes first, and the thread with the first value processes both. -/
theorem canonical_loop_in_order_two_threads :
    ∃ s : LoopState Bool, IsReachable (gapless 2 (fun _ => 1) fun _ => Nat.one_pos) s ∧
      s.processed = [⟨0, 2, 1⟩, ⟨0, 1, 1⟩] ∧
      s.processed.Pairwise (fun later earlier => Precedes (position earlier) (position later)) := by
  have hbuffer : ∀ n, 1 ≤ n → n ≤ 2 → (gapless 2 (fun _ => 1) fun _ => Nat.one_pos).IsBuffer ⟨0, n, 1⟩ :=
    fun n hpos hle => ⟨List.mem_singleton_self 0, hpos, hle, le_refl 1, le_refl 1⟩
  have hstart : IsReachable (gapless 2 (fun _ => 1) fun _ => Nat.one_pos) (initial : LoopState Bool) := .initial
  have hstored := Reachable.extend (LoopEvent.isNext true ⟨0, 2, 1⟩) hstart
    ⟨rfl, hbuffer 2 (by decide) (by decide), List.not_mem_nil⟩ rfl
  have hfirst := (hstored.extend (LoopEvent.isNext false ⟨0, 1, 1⟩)
    ⟨rfl, hbuffer 1 (by decide) (by decide), by decide⟩ rfl).extend (LoopEvent.processData false) ⟨_, rfl⟩ rfl
  have hsecond := (hfirst.extend (LoopEvent.advanceAndGetNext false) ⟨_, rfl⟩ rfl).extend
    (LoopEvent.processData false) ⟨_, rfl⟩ rfl
  exact ⟨_, hsecond, rfl, (canonical_loop_in_order 2 (fun _ => 1) (fun _ => Nat.one_pos) hsecond).2.2.1⟩

end LoopState

end MobilityNebula.Sequencing
