import MobilityNebula.QueryEngine.GracefulStop
import MobilityNebula.QueryEngine.PendingTasks

/-!
# EndOfStream — what a pipeline has done when it is stopped

A query that only ends because its sources do keeps the invariant of `GracefulStop`: when the `StopPipelineTask`
of a pipeline exists, all that feeds the pipeline is gone, and all work that was accepted for it is done.

A soft stop keeps it only as long as the destructor of a source finds no work for the pipelines that the source
feeds.  `soft_stop_drops_work` is the run in which it does find some.
-/

namespace MobilityNebula.QueryEngine

open Library RunningQueryPlan SourceStatus
open scoped List

variable {β : Type}

namespace Ledger

variable {L L' : Ledger β}

/-! ## A pipeline without references -/

namespace Graceful

lemma pendingWork_eq_zero_of_not_referenced (hL : L.Graceful) {p : PipelineId} (hp : ¬ L.Referenced p) :
    L.pendingWork p = 0 := by
  by_contra hwork
  exact hp (hL.guarded p (Nat.pos_of_ne_zero hwork)).referenced

lemma accepted_eq_executed (hL : L.Graceful) {p : PipelineId} (hp : ¬ L.Referenced p) :
    L.accepted.filter (fun task => task.pipeline = p) = L.executed.filter (fun task => task.pipeline = p) := by
  have hnone : L.works.filter (fun task => task.pipeline = p) = 0 := by
    rw [← Multiset.card_eq_zero, ← Multiset.countP_eq_card_filter]
    exact hL.pendingWork_eq_zero_of_not_referenced hp
  rw [hL.balance, Multiset.filter_add, hnone, Multiset.add_zero]

end Graceful

/-! ## Queries that are not stopped from outside -/

/-- No source has been closed by the query, and no pipeline has been given up. -/
structure Orderly (L : Ledger β) : Prop where
  sources : ∀ s ∈ L.plan.origins, (L.plan.source s).status ≠ .closing ∧ (L.plan.source s).status ≠ .closed
  nodes : ∀ p ∈ L.plan.pipelines, (L.plan.node p).status ≠ .discarded

lemma Orderly.of_keeps (hL : L.Orderly) (hevolves : L.plan.Evolves L'.plan) (hkeeps : KeepsStatus L.plan L'.plan) :
    L'.Orderly where
  sources s hs := by
    rw [hevolves.origins] at hs
    rw [hkeeps.source]
    exact hL.sources s hs
  nodes p hp := by
    rw [hevolves.pipelines] at hp
    rw [hkeeps.status]
    exact hL.nodes p hp

lemma Orderly.of_setSource (hL : L.Orderly) {s : OriginId} {status : SourceStatus}
    (hplan : L'.plan = L.plan.setSource s status) (hclosing : status ≠ .closing) (hclosed : status ≠ .closed) :
    L'.Orderly where
  sources t ht := by
    rw [hplan] at ht ⊢
    rw [status_setSource]
    split
    case isTrue => exact ⟨hclosing, hclosed⟩
    case isFalse => exact hL.sources t ht
  nodes p hp := by
    rw [hplan] at hp ⊢
    exact hL.nodes p hp

lemma Orderly.of_status (hL : L.Orderly) {p : PipelineId} {status : NodeStatus} (hstatus : status ≠ .discarded)
    (hevolves : L.plan.Evolves L'.plan) (hsources : L'.plan.source = L.plan.source)
    (hnodes : ∀ q, (L'.plan.node q).status = if q = p then status else (L.plan.node q).status) : L'.Orderly where
  sources s hs := by
    rw [hevolves.origins] at hs
    rw [hsources]
    exact hL.sources s hs
  nodes q hq := by
    rw [hevolves.pipelines] at hq
    rw [hnodes q]
    split
    case isTrue => exact hstatus
    case isFalse => exact hL.nodes q hq

lemma Step.orderly (h : Step L .ordinary L') (hG : L.Graceful) (hL : L.Orderly) : L'.Orderly := by
  have hevolves := h.evolves
  cases h with
  | accept _ => exact hL.of_keeps hevolves (keeps_addPending _ _ _)
  | finishWork _ => exact hL.of_keeps hevolves (L.keeps_reduced _ _)
  | finishStart _ => exact hL.of_keeps hevolves (L.keeps_started _ _)
  | finishStop _ =>
    exact hL.of_status (by decide) hevolves rfl (fun q => status_destroy _ q .stopped)
  | release _ _ _ _ =>
    exact hL.of_status (by decide) hevolves rfl (fun q => status_setStatus _ q .stopping)
  | discard hmem hshared hreferenced htermination =>
    -- a pipeline is not given up: it is referenced until it has been started
    exfalso
    rcases hG.phase with hphase | hphase
    · exact hreferenced (.inl (hphase.holds hG.fed hmem))
    · rw [hphase.termination _ hmem hshared] at htermination
      cases htermination
  | startSources _ _ _ =>
    refine ⟨fun s hs => ?_, hL.nodes⟩
    have hold := hL.sources s hs
    show (if _ then running else _) ≠ _ ∧ (if _ then running else _) ≠ _
    split
    case isTrue => decide
    case isFalse => exact hold
  | endOfStream _ _ | exit _ _ | unregister _ _ _ => exact hL.of_setSource rfl (by decide) (by decide)
  | _ => exact hL.of_keeps hevolves ⟨rfl, rfl, fun _ => rfl⟩

lemma Orderly.unfed (hL : L.Orderly) {p : PipelineId} (hp : ¬ L.Referenced p) :
    (∀ s ∈ L.plan.origins, p ∈ (L.plan.source s).successors → (L.plan.source s).status = .unregistered)
      ∧ (∀ m ∈ L.plan.pipelines, p ∈ (L.plan.node m).successors → (L.plan.node m).status = .stopped) := by
  refine ⟨fun s hs hmem => ?_, fun m hm hmem => ?_⟩
  · by_contra hstatus
    exact hp (.inl (.inl ⟨s, hs, ⟨hstatus, (hL.sources s hs).2⟩, hmem⟩))
  · have hdead : ¬ (L.plan.node m).status.IsAlive := fun halive => hp (.inl (.inr ⟨m, hm, halive, hmem⟩))
    have hkept := hL.nodes m hm
    cases hstatus : (L.plan.node m).status with
    | shared => exact absurd (.inl hstatus) hdead
    | stopping => exact absurd (.inr hstatus) hdead
    | stopped => rfl
    | discarded => exact absurd hstatus hkept

end Ledger

namespace Engine

variable {query : ExecutableQueryPlan} {taskQueueSize : Nat} {e e' : Engine β}

/-! ## Runs -/

lemma starting_start : (start query taskQueueSize : Engine β).ledger.Starting where
  state := rfl
  works := by
    rw [works_ledger, workTasks_start]
    rfl
  waiting _ _ := rfl
  shared _ _ := rfl
  setup p hp := by
    right
    left
    show Task.startPipeline p ∈ (start query taskQueueSize : Engine β).tasks
    rw [tasks_start]
    exact List.mem_map_of_mem hp

lemma graceful_start : (start query taskQueueSize : Engine β).ledger.Graceful where
  owned := owned_start
  accounting := accounting_start
  fed := query.fed
  phase := .inl starting_start
  guarded p hp := by
    rw [Ledger.pendingWork_eq_zero_of_works starting_start.works] at hp
    cases hp
  balance := by
    rw [starting_start.works]
    rfl

lemma orderly_start : (start query taskQueueSize : Engine β).ledger.Orderly where
  sources _ _ := ⟨noConfusion, noConfusion⟩
  nodes _ _ := NodeStatus.noConfusion

variable {event : Event β}

lemma graceful_step (henabled : e.Enabled event) (h : e.step event = some e')
    (hadmissible : e.ledger.Admissible (e.label event)) (hG : e.ledger.Graceful) : e'.ledger.Graceful := by
  rcases step_refines henabled h with hsame | hstep
  · rw [hsame]
    exact hG
  · exact hstep.graceful hadmissible hG

lemma orderly_step (henabled : e.Enabled event) (h : e.step event = some e')
    (hlabel : e.label event = .ordinary) (hG : e.ledger.Graceful) (hL : e.ledger.Orderly) : e'.ledger.Orderly := by
  rcases step_refines henabled h with hsame | hstep
  · rw [hsame]
    exact hL
  · rw [hlabel] at hstep
    exact hstep.orderly hG hL

def IsBeingStopped (e : Engine β) (p : PipelineId) : Prop :=
  .stopPipeline p ∈ e.tasks ∨ .stopping p ∈ e.activities

instance [DecidableEq β] (e : Engine β) (p : PipelineId) : Decidable (e.IsBeingStopped p) :=
  inferInstanceAs (Decidable (_ ∨ _))

lemma IsBeingStopped.not_referenced {p : PipelineId} (h : e.IsBeingStopped p) (howned : e.ledger.Owned) :
    ¬ e.ledger.Referenced p := by
  apply howned.not_referenced_of_stopping
  rcases h with htask | hactivity
  · exact howned.stopping_of_task htask
  · exact howned.stopping_of_activity hactivity

lemma accepted_perm_executed (hG : e.ledger.Graceful) {p : PipelineId} (hp : ¬ e.ledger.Referenced p) :
    e.accepted.filter (fun task => task.pipeline = p) ~ e.executed.filter (fun task => task.pipeline = p) := by
  have hequal := hG.accepted_eq_executed hp
  apply Multiset.coe_eq_coe.1
  exact hequal

/-! ## The end of the streams -/

/-- When a pipeline is stopped at the end of the streams, its sources are unregistered, its predecessors are
stopped, no work task for it waits or is being executed, and all accepted ones have been executed. -/
theorem stopped_after_work (query : ExecutableQueryPlan) (taskQueueSize : Nat) (e : Engine β)
    (h : Reachable (start query taskQueueSize) (fun e event => e.Enabled event ∧ e.label event = .ordinary) step e)
    (p : PipelineId) (hstop : e.IsBeingStopped p) :
    (∀ s ∈ e.plan.origins, p ∈ (e.plan.source s).successors → (e.plan.source s).status = .unregistered)
      ∧ (∀ m ∈ e.plan.pipelines, p ∈ (e.plan.node m).successors → (e.plan.node m).status = .stopped)
      ∧ e.numberOfWorkTasks p = 0
      ∧ e.accepted.filter (fun task => task.pipeline = p) ~ e.executed.filter (fun task => task.pipeline = p) := by
  have hinvariant : e.ledger.Graceful ∧ e.ledger.Orderly := by
    refine h.invariant (fun e => e.ledger.Graceful ∧ e.ledger.Orderly) ⟨graceful_start, orderly_start⟩ ?_
    rintro s event s' ⟨hG, hL⟩ ⟨henabled, hlabel⟩ hstep
    have hadmissible : s.ledger.Admissible (s.label event) := by
      rw [hlabel]
      trivial
    exact ⟨graceful_step henabled hstep hadmissible hG, orderly_step henabled hstep hlabel hG hL⟩
  rcases hinvariant with ⟨hG, hL⟩
  have hp := hstop.not_referenced hG.owned
  rcases hL.unfed hp with ⟨hsources, hnodes⟩
  exact ⟨hsources, hnodes, hG.pendingWork_eq_zero_of_not_referenced hp, accepted_perm_executed hG hp⟩

def chain : ExecutableQueryPlan where
  pipelines := [0, 1]
  successors := fun p => if p = 0 then [1] else []
  origins := [0]
  sourceSuccessors := fun _ => [0]
  successors_mem := by simp
  sourceSuccessors_mem := by simp
  fed := by simp

/-- The source emits a buffer and ends; pipeline 0 passes the buffer on; the pipelines are stopped in turn. -/
def endStream : List (Event Unit) :=
  [.writeAdding 0, .writeAdding 0, .runNext, .complete 0, .runNext, .complete 0, .startSources,
    .emitFromSource 0 0 (), .endOfStream 0, .exitSource 0, .pollAdmission, .storeHand 0, .runNext,
    .emit 0 1 () .POSSIBLE, .complete 0, .runNext, .complete 0, .pollAdmission, .storeHand 0, .runNext,
    .writeAdding 0, .runNext, .release 0, .writeAdding 0, .runNext, .complete 0, .writeAdding 0, .runNext, .release 1]

theorem stopped_after_work_endStream : ∃ e : Engine Unit,
      Reachable (start chain 10) (fun e event => e.Enabled event ∧ e.label event = .ordinary) step e
        ∧ e.IsBeingStopped 1 ∧ e.accepted.length = 2
        ∧ (e.plan.node 0).status = .stopped
        ∧ e.accepted.filter (fun task => task.pipeline = 1) ~ e.executed.filter (fun task => task.pipeline = 1) := by
  have hrun : ∃ e, runGuarded (fun (e : Engine Unit) event => e.Enabled event ∧ e.label event = .ordinary) step
      (start chain 10) endStream = some e
      ∧ e.IsBeingStopped 1 ∧ e.accepted.length = 2 ∧ 0 ∈ e.plan.pipelines ∧ 1 ∈ (e.plan.node 0).successors :=
    ⟨_, rfl, by decide, rfl, by decide, by decide⟩
  rcases hrun with ⟨e, hrun, hstop, htwo, hmem, hsuccessor⟩
  have hreachable := Reachable.initial.of_runGuarded hrun
  rcases stopped_after_work chain 10 e hreachable 1 hstop with ⟨_, hpredecessors, _, hperm⟩
  exact ⟨e, hreachable, hstop, htwo, hpredecessors 0 hmem hsuccessor, hperm⟩

/-! ## Soft stops -/

/-- Nothing fails, and only a query that is running is stopped. -/
def InSoftStop (e : Engine β) (event : Event β) : Prop :=
  e.label event ≠ .failure ∧ e.label event ≠ .tooMuchWork ∧ (e.label event = .stopQuery → e.plan.state ≠ .starting)

instance (e : Engine β) (event : Event β) : Decidable (e.InSoftStop event) := inferInstanceAs (Decidable (_ ∧ _ ∧ _))

/-- When the destructor of a source has joined the thread, no work is left for the pipelines it has fed. -/
def ClosesIdle (e : Engine β) : Event β → Prop
  | .exitSource s =>
    (e.plan.source s).status = .closing → ∀ p ∈ (e.plan.source s).successors, (e.plan.node p).pendingTasks = 0
  | _ => True

instance (e : Engine β) : (event : Event β) → Decidable (e.ClosesIdle event)
  | .exitSource s =>
    inferInstanceAs (Decidable ((e.plan.source s).status = .closing →
      ∀ p ∈ (e.plan.source s).successors, (e.plan.node p).pendingTasks = 0))
  | .emitFromSource _ _ _ | .endOfStream _ | .sourceError _ | .requestStop | .startSources | .pollAdmission
  | .runNext | .storeHand _ | .runHand _ | .writeAdding _ | .nextAdding _ | .missAdding _ | .throwAdding _
  | .emit _ _ _ _ | .complete _ | .fail _ | .reportFailure _ | .release _ => isTrue trivial

/-- The label `closed` is that of a source thread that returns to the destructor. -/
lemma label_eq_closed {s : OriginId} (h : e.label event = .closed s) :
    event = .exitSource s ∧ (e.plan.source s).status = .closing := by
  have htask : ∀ task : Task β, task.label ≠ .closed s := by
    intro task
    cases task <;> simp [Task.label]
  cases event with
  | exitSource t =>
    simp only [label] at h
    split at h
    case isTrue hclosing =>
      have heq : t = s := by simpa using h
      rw [← heq]
      exact ⟨rfl, hclosing⟩
    case isFalse => cases h
  | runNext =>
    simp only [label] at h
    split at h
    case h_1 => cases h
    case h_2 task _ _ => exact absurd h (htask task)
  | runHand i =>
    simp only [label] at h
    split at h
    case h_1 task _ => exact absurd h (htask task)
    case h_2 => cases h
  | _ => cases h

lemma InSoftStop.admissible (h : e.InSoftStop event) (hidle : e.ClosesIdle event) :
    e.ledger.Admissible (e.label event) := by
  rcases h with ⟨hfailure, htoo, hstop⟩
  cases hlabel : e.label event with
  | ordinary => trivial
  | closed s =>
    rcases label_eq_closed hlabel with ⟨rfl, hclosing⟩
    exact hidle hclosing
  | stopQuery => exact hstop hlabel
  | failure => exact absurd hlabel hfailure
  | tooMuchWork => exact absurd hlabel htoo

/-- A soft stop in which every source is closed idle loses nothing: when a pipeline is stopped, all work that was
accepted for it has been executed. -/
theorem soft_stop_keeps_work (query : ExecutableQueryPlan) (taskQueueSize : Nat) (e : Engine β)
    (h : Reachable (start query taskQueueSize)
      (fun e event => e.Enabled event ∧ e.InSoftStop event ∧ e.ClosesIdle event) step e)
    (p : PipelineId) (hstop : e.IsBeingStopped p) :
    e.numberOfWorkTasks p = 0
      ∧ e.accepted.filter (fun task => task.pipeline = p) ~ e.executed.filter (fun task => task.pipeline = p) := by
  have hG : e.ledger.Graceful := by
    refine h.invariant (fun e => e.ledger.Graceful) graceful_start ?_
    rintro s event s' hG ⟨henabled, hsoft, hidle⟩ hstep
    exact graceful_step henabled hstep (hsoft.admissible hidle) hG
  have hp := hstop.not_referenced hG.owned
  exact ⟨hG.pendingWork_eq_zero_of_not_referenced hp, accepted_perm_executed hG hp⟩

def oneSource : ExecutableQueryPlan where
  pipelines := [0]
  successors := fun _ => []
  origins := [0]
  sourceSuccessors := fun _ => [0]
  successors_mem := twoSources.successors_mem
  sourceSuccessors_mem := by simp
  fed := by simp

/-- The source emits buffer 1, which is executed; then the query is stopped. -/
def stopIdle : List (Event Nat) :=
  [.writeAdding 0, .runNext, .complete 0, .startSources, .emitFromSource 0 0 1, .requestStop,
    .pollAdmission, .storeHand 0, .runNext, .complete 0, .pollAdmission, .storeHand 0, .runNext,
    .exitSource 0, .release 0]

theorem soft_stop_keeps_work_stopIdle : ∃ e : Engine Nat, Reachable (start oneSource 10)
        (fun e event => e.Enabled event ∧ e.InSoftStop event ∧ e.ClosesIdle event) step e
        ∧ e.IsBeingStopped 0 ∧ e.accepted = [⟨0, 1, false⟩]
        ∧ e.accepted.filter (fun task => task.pipeline = 0) ~ e.executed.filter (fun task => task.pipeline = 0) := by
  have hrun : ∃ e, runGuarded
      (fun (e : Engine Nat) event => e.Enabled event ∧ e.InSoftStop event ∧ e.ClosesIdle event) step
      (start oneSource 10) stopIdle = some e ∧ e.IsBeingStopped 0 ∧ e.accepted = [⟨0, 1, false⟩] :=
    ⟨_, rfl, by decide, rfl⟩
  rcases hrun with ⟨e, hrun, hstop, haccepted⟩
  have hreachable := Reachable.initial.of_runGuarded hrun
  exact ⟨e, hreachable, hstop, haccepted, (soft_stop_keeps_work oneSource 10 e hreachable 0 hstop).2⟩

/-- The source emits buffer 1; the stop is requested; the source emits buffer 2.  The stop is executed while
buffer 2 is still in the admission queue. -/
def stopBusy : List (Event Nat) :=
  [.writeAdding 0, .runNext, .complete 0, .startSources, .emitFromSource 0 0 1, .requestStop,
    .emitFromSource 0 0 2, .pollAdmission, .storeHand 0, .runNext, .complete 0, .pollAdmission, .storeHand 0,
    .runNext, .exitSource 0, .release 0, .writeAdding 0, .pollAdmission, .storeHand 0, .runNext, .complete 0,
    .runNext]

/-- The pipeline is stopped although the accepted buffer 2 has not been executed, and the work task for it has
expired. -/
theorem soft_stop_drops_work :
    ∃ e : Engine Nat, Reachable (start oneSource 10) (fun e event => e.Enabled event ∧ e.InSoftStop event) step e
      ∧ (e.plan.node 0).status = .stopped
      ∧ e.accepted = [⟨0, 1, false⟩, ⟨0, 2, false⟩] ∧ e.executed = [⟨0, 1, false⟩] ∧ e.workTasks = [] := by
  have hrun : ∃ e, runGuarded (fun (e : Engine Nat) event => e.Enabled event ∧ e.InSoftStop event) step
      (start oneSource 10) stopBusy = some e
      ∧ (e.plan.node 0).status = .stopped
      ∧ e.accepted = [⟨0, 1, false⟩, ⟨0, 2, false⟩] ∧ e.executed = [⟨0, 1, false⟩] ∧ e.workTasks = [] :=
    ⟨_, rfl, rfl, rfl, rfl, rfl⟩
  rcases hrun with ⟨e, hrun, hend⟩
  exact ⟨e, Reachable.initial.of_runGuarded hrun, hend⟩

end Engine

end MobilityNebula.QueryEngine
