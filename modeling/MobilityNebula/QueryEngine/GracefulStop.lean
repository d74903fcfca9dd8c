import MobilityNebula.QueryEngine.LedgerInvariants

/-!
# GracefulStop — pipelines stop after their work

The invariant behind a graceful stop: as long as there is work for a node, somebody *guards* it, namely a
source or a node that has it as a successor, or a pending stop.  A guard lets go of a node only by handing it
to a pending stop, and a pending stop lets go only when there is no work left.

The exception is the destructor of a source, which drops its references without a pending stop.  The invariant
is kept if no work is left for the pipelines that the source feeds (`Admissible`).
-/

namespace MobilityNebula.QueryEngine

open RunningQueryPlan Multiset

variable {β : Type}

namespace RunningQueryPlan

variable {plan plan' : RunningQueryPlan}

/-- The plan keeps its references to `p` if the sources and nodes that hold them stay alive. -/
lemma Evolves.holds_of_alive (h : Evolves plan plan') {p : PipelineId}
    (hsource : ∀ s ∈ plan.origins, p ∈ (plan.source s).successors → (plan.source s).status.IsAlive →
      (plan'.source s).status.IsAlive)
    (hnode : ∀ m ∈ plan.pipelines, p ∈ (plan.node m).successors → (plan.node m).status.IsAlive →
      (plan'.node m).status.IsAlive) (hp : plan.Holds p) : plan'.Holds p := by
  rcases hp with ⟨s, hs, halive, hmem⟩ | ⟨m, hm, halive, hmem⟩
  · refine .inl ⟨s, h.origins ▸ hs, hsource s hs hmem halive, ?_⟩
    rw [h.source_successors s]
    exact hmem
  · refine .inr ⟨m, h.pipelines ▸ hm, hnode m hm hmem halive, ?_⟩
    rw [h.node_successors m]
    exact hmem

lemma status_setSource (plan : RunningQueryPlan) (s t : OriginId) (status : SourceStatus) :
    ((plan.setSource s status).source t).status = if t = s then status else (plan.source t).status := by
  simp only [setSource, Function.update_apply]
  split <;> rfl

/-- Every pipeline was created for a source or for a pipeline that precedes it. -/
def Fed (plan : RunningQueryPlan) : Prop :=
  ∀ p ∈ plan.pipelines, (∃ s ∈ plan.origins, p ∈ (plan.source s).successors)
    ∨ (∃ m ∈ plan.pipelines, p ∈ (plan.node m).successors)

lemma Evolves.fed (h : Evolves plan plan') (hfed : plan.Fed) : plan'.Fed := by
  intro p hp
  rw [h.pipelines] at hp
  rcases hfed p hp with ⟨s, hs, hmem⟩ | ⟨m, hm, hmem⟩
  · exact .inl ⟨s, h.origins ▸ hs, by rw [h.source_successors]; exact hmem⟩
  · exact .inr ⟨m, h.pipelines ▸ hm, by rw [h.node_successors]; exact hmem⟩

end RunningQueryPlan

namespace Ledger

/-! ## The invariant -/

/-- The pipelines are being started; the sources wait for them. -/
structure Starting (L : Ledger β) : Prop where
  state : L.plan.state = .starting
  works : L.works = 0
  waiting : ∀ s ∈ L.plan.origins, (L.plan.source s).status = .waiting
  shared : ∀ p ∈ L.plan.pipelines, (L.plan.node p).status = .shared
  setup : ∀ p ∈ L.plan.pipelines, (L.plan.node p).requiresTermination = true
    ∨ .startPipeline p ∈ L.tasks ∨ .starting p ∈ L.activities

/-- All pipelines have been started, and the sources after them. -/
structure Started (L : Ledger β) : Prop where
  state : L.plan.state ≠ .starting
  not_waiting : ∀ s ∈ L.plan.origins, (L.plan.source s).status ≠ .waiting
  termination : ∀ p ∈ L.plan.pipelines, (L.plan.node p).status = .shared →
    (L.plan.node p).requiresTermination = true

/-- Somebody will see to it that the work for `p` is done before `p` is stopped. -/
def Guarded (L : Ledger β) (p : PipelineId) : Prop :=
  L.plan.Holds p ∨ ∃ attempts, .pendingPipelineStop p attempts ∈ L.tasks

structure Graceful (L : Ledger β) : Prop where
  owned : L.Owned
  accounting : L.Accounting
  fed : L.plan.Fed
  phase : L.Starting ∨ L.Started
  guarded : ∀ p, 0 < L.pendingWork p → L.Guarded p
  balance : L.accepted = L.executed + L.works

/-- The steps of a query that ends gracefully.  The destructor of a source may only run when no work is left
for the pipelines that the source feeds. -/
def Admissible (L : Ledger β) : Label → Prop
  | .ordinary => True
  | .closed s => ∀ p ∈ (L.plan.source s).successors, (L.plan.node p).pendingTasks = 0
  | .stopQuery => L.plan.state ≠ .starting
  | .failure => False
  | .tooMuchWork => False

namespace Guarded

variable {L : Ledger β} {p : PipelineId}

lemma referenced (h : L.Guarded p) : L.Referenced p := by
  rcases h with hplan | ⟨attempts, hmem⟩
  · exact .inl hplan
  · exact referenced_of_task hmem (List.mem_singleton.2 rfl)

end Guarded

namespace Graceful

variable {L : Ledger β}

lemma referenced_of_work (hL : L.Graceful) {task : WorkTask β} (h : task ∈ L.works) : L.Referenced task.pipeline :=
  (hL.guarded _ (countP_pos.2 ⟨task, h, rfl⟩)).referenced

lemma guarded_of_mayEmit (hL : L.Graceful) {task : WorkTask β} (h : L.MayEmit task) : L.Guarded task.pipeline := by
  rcases h with ⟨s, hs, hstatus, hmem, _⟩ | ⟨v, hv, htarget, _⟩ | ⟨m, hm, hmem⟩
  · refine .inl (.inl ⟨s, hs, ?_, hmem⟩)
    rcases hstatus with hstatus | hstatus <;> rw [hstatus] <;> decide
  · rcases htarget with heq | hsuccessor
    · -- a repeated buffer: the running task itself is work for the node
      have hwork : v ∈ L.works := mem_add.2 (.inr ((mem_filterMap _ _).2 ⟨_, hv, rfl⟩))
      rw [heq]
      exact hL.guarded _ (countP_pos.2 ⟨v, hwork, rfl⟩)
    · exact .inl (hL.owned.holds_of_executing hv hsuccessor)
  · exact .inl (hL.owned.holds_of_stopping hm hmem)

lemma pendingWork_eq_zero (hL : L.Graceful) {p : PipelineId} (hp : L.Referenced p)
    (h : (L.plan.node p).pendingTasks = 0) : L.pendingWork p = 0 := by
  have hcount := hL.accounting p hp
  omega

end Graceful

/-! ## Starting -/

namespace Starting

variable {L : Ledger β}
variable (hL : L.Starting)
include hL

lemma holds (hfed : L.plan.Fed) {p : PipelineId} (hp : p ∈ L.plan.pipelines) : L.plan.Holds p := by
  rcases hfed p hp with ⟨s, hs, hmem⟩ | ⟨m, hm, hmem⟩
  · exact .inl ⟨s, hs, by rw [hL.waiting s hs]; decide, hmem⟩
  · exact .inr ⟨m, hm, by rw [hL.shared m hm]; decide, hmem⟩

lemma not_executing (task : WorkTask β) : .executing task ∉ L.activities := by
  intro hmem
  have hwork : task ∈ L.works := mem_add.2 (.inr ((mem_filterMap _ _).2 ⟨_, hmem, rfl⟩))
  rw [hL.works] at hwork
  cases hwork

lemma not_stopping (howned : L.Owned) (p : PipelineId) : .stopping p ∉ L.activities := by
  intro hmem
  have hstatus := howned.stopping_of_activity hmem
  rw [hL.shared p (howned.stopping_mem p hstatus)] at hstatus
  cases hstatus

lemma not_mayEmit (howned : L.Owned) (task : WorkTask β) : ¬ L.MayEmit task := by
  rintro (⟨s, hs, hstatus, _⟩ | ⟨v, hv, _⟩ | ⟨m, hm, _⟩)
  · rw [hL.waiting s hs] at hstatus
    rcases hstatus with hstatus | hstatus <;> cases hstatus
  · exact hL.not_executing v hv
  · exact hL.not_stopping howned m hm

end Starting

variable {L : Ledger β}
variable {L' : Ledger β}

/-- Steps that leave the plan alone and do not touch the start of pipelines. -/
lemma Starting.of_samePlan (hL : L.Starting) (hplan : L'.plan = L.plan) (hworks : L'.works = L.works)
    (hsetup : ∀ p, .startPipeline p ∈ L.tasks ∨ .starting p ∈ L.activities →
      p ∈ L.plan.pipelines → .startPipeline p ∈ L'.tasks ∨ .starting p ∈ L'.activities) : L'.Starting where
  state := by rw [hplan]; exact hL.state
  works := by rw [hworks]; exact hL.works
  waiting := by rw [hplan]; exact hL.waiting
  shared := by rw [hplan]; exact hL.shared
  setup := by
    rw [hplan]
    intro p hp
    rcases hL.setup p hp with h | h
    · exact .inl h
    · exact .inr (hsetup p h hp)

lemma mem_of_ne_of_eq_cons {α : Type} {a x : α} {S T : Multiset α} (h : S = a ::ₘ T) (hx : x ∈ S)
    (hne : x ≠ a) : x ∈ T := by
  rw [h] at hx
  rcases mem_cons.1 hx with heq | hmem
  · exact absurd heq hne
  · exact hmem

lemma Starting.not_work (hL : L.Starting) (task : WorkTask β) : .work task ∉ L.tasks := by
  intro hmem
  have hwork : task ∈ L.works := mem_add.2 (.inl ((mem_filterMap _ _).2 ⟨_, hmem, rfl⟩))
  rw [hL.works] at hwork
  cases hwork

lemma Starting.not_stopTask (hL : L.Starting) (howned : L.Owned) (p : PipelineId) : .stopPipeline p ∉ L.tasks := by
  intro hmem
  have hstatus := howned.stopping_of_task hmem
  rw [hL.shared p (howned.stopping_mem p hstatus)] at hstatus
  cases hstatus

variable {T : Multiset (Task β)}

lemma Starting.of_dropTask (hL : L.Starting) {task : Task β}
    (htasks : L.tasks = task ::ₘ T) (hwork : task.work? = none) (hne : ∀ p, task ≠ .startPipeline p) :
    ({ L with tasks := T } : Ledger β).Starting := by
  refine hL.of_samePlan rfl (works_cons_task L htasks hwork).symm (fun p h _ => ?_)
  rcases h with h | h
  · exact .inl (mem_of_ne_of_eq_cons htasks h (Ne.symm (hne p)))
  · exact .inr h

lemma requiresTermination_started (L : Ledger β) (p : PipelineId) (A : Multiset (Activity β)) {q : PipelineId}
    (hflag : (L.plan.node q).requiresTermination = true) : ((L.started p A).node q).requiresTermination = true := by
  unfold started
  split
  case isTrue =>
    rw [setRequiresTermination, node_modifyNode]
    split
    case isTrue => rfl
    case isFalse => exact hflag
  case isFalse => exact hflag

variable {label : Label}

/-- Starting goes on until all pipelines are started, and then the sources are started. -/
lemma Step.starting (h : Step L label L') (hadmissible : L.Admissible label)
    (hG : L.Graceful) (hL : L.Starting) : L'.Starting ∨ L'.Started := by
  cases h with
  | @accept task hemit => exact absurd hemit (hL.not_mayEmit hG.owned task)
  | @beginWork task T htasks _ | @expireWork task T htasks _ =>
    exact absurd (mem_self_of_eq_cons htasks) (hL.not_work task)
  | @finishWork task A hactivities => exact absurd (mem_self_of_eq_cons hactivities) (hL.not_executing task)
  | @beginStart p T htasks _ =>
    left
    refine hL.of_samePlan rfl ?_ (fun q hq _ => ?_)
    · rw [works_cons_task L htasks rfl]
      exact works_cons_activity { L with tasks := T, activities := .starting p ::ₘ L.activities } rfl rfl
    · by_cases heq : q = p
      · exact .inr (heq ▸ mem_cons_self _ _)
      · rcases hq with hq | hq
        · exact .inl (mem_of_ne_of_eq_cons htasks hq (fun h => heq (Task.startPipeline.inj h)))
        · exact .inr (mem_cons_of_mem hq)
  | @expireStart p T htasks hreferenced =>
    left
    refine hL.of_samePlan rfl (works_cons_task L htasks rfl).symm (fun q hq hmem => ?_)
    rcases hq with hq | hq
    · refine .inl (mem_of_ne_of_eq_cons htasks hq (fun h => ?_))
      exact hreferenced (Task.startPipeline.inj h ▸ .inl (hL.holds hG.fed hmem))
    · exact .inr hq
  | @finishStart p A hactivities =>
    left
    have hevolves := L.evolves_started p A
    have hkeeps := L.keeps_started p A
    refine ⟨hkeeps.state.trans hL.state, ?_, ?_, ?_, ?_⟩
    · exact (works_cons_activity L hactivities rfl).symm.trans hL.works
    · intro s hs
      rw [hevolves.origins] at hs
      rw [hkeeps.source]
      exact hL.waiting s hs
    · intro q hq
      rw [hevolves.pipelines] at hq
      rw [hkeeps.status]
      exact hL.shared q hq
    · intro q hq
      rw [hevolves.pipelines] at hq
      by_cases heq : q = p
      · -- its callback has just set the flag
        have hreferenced : ({ L with activities := A } : Ledger β).Referenced p := .inl (hL.holds hG.fed (heq ▸ hq))
        left
        unfold started
        rw [if_pos hreferenced, setRequiresTermination, node_modifyNode, if_pos heq]
      · rcases hL.setup q hq with hflag | htask | hactivity
        · exact .inl (L.requiresTermination_started p A hflag)
        · exact .inr (.inl htask)
        · exact .inr (.inr (mem_of_ne_of_eq_cons hactivities hactivity
            (fun h => heq (Activity.starting.inj h))))
  | dropPendingStop htasks _ | dropStopSource htasks => exact .inl (hL.of_dropTask htasks rfl (by simp))
  | @retryPendingStop p attempts T htasks =>
    left
    refine hL.of_samePlan rfl ?_ (fun q hq _ => ?_)
    · rw [works_cons_task L htasks rfl]
      exact works_cons_task { L with tasks := .pendingPipelineStop p (attempts + 1) ::ₘ T } rfl rfl
    · rcases hq with hq | hq
      · exact .inl (mem_cons_of_mem (mem_of_ne_of_eq_cons htasks hq (by simp)))
      · exact .inr hq
  | @beginStop p T htasks => exact absurd (mem_self_of_eq_cons htasks) (hL.not_stopTask hG.owned p)
  | @finishStop p A hactivities => exact absurd (mem_self_of_eq_cons hactivities) (hL.not_stopping hG.owned p)
  | release hmem _ hreferenced _ | discard hmem _ hreferenced _ =>
    exact absurd (.inl (hL.holds hG.fed hmem)) hreferenced
  | startSources _ htasks hactivities =>
    right
    refine ⟨by simp [RunningQueryPlan.startSources], ?_, ?_⟩
    · intro s hs
      show (if (L.plan.source s).status = .waiting then .running else (L.plan.source s).status) ≠ _
      rw [if_pos (hL.waiting s hs)]
      decide
    · intro p hp _
      rcases hL.setup p hp with hflag | htask | hactivity
      · exact hflag
      · exact absurd htask (htasks p)
      · exact absurd hactivity (hactivities p)
  | endOfStream hmem hsource | exit hmem hsource | close hmem hsource | unregister _ hmem hsource =>
    rw [hL.waiting _ hmem] at hsource; cases hsource
  | requestStop | stopQuery _ => exact absurd hL.state hadmissible
  | _ => cases hadmissible

/-! ## Running -/

lemma requiresTermination_reduced (L : Ledger β) (task : WorkTask β) (A : Multiset (Activity β)) (q : PipelineId) :
    ((L.reduced task A).node q).requiresTermination = (L.plan.node q).requiresTermination := by
  unfold reduced
  split
  case isTrue => exact requiresTermination_addPending _ _ _
  case isFalse => rfl

section

variable {L L' : Ledger β}

lemma Started.of_same (hL : L.Started) (hstate : L'.plan.state = L.plan.state) (hevolves : L.plan.Evolves L'.plan)
    (hsource : ∀ s, (L'.plan.source s).status = (L.plan.source s).status)
    (hnode : ∀ p, (L'.plan.node p).status = .shared → (L.plan.node p).status = .shared
      ∧ ((L.plan.node p).requiresTermination = true → (L'.plan.node p).requiresTermination = true)) :
    L'.Started where
  state := by rw [hstate]; exact hL.state
  not_waiting s hs := by
    rw [hevolves.origins] at hs
    rw [hsource]
    exact hL.not_waiting s hs
  termination p hp hshared := by
    rw [hevolves.pipelines] at hp
    rcases hnode p hshared with ⟨hold, hflag⟩
    exact hflag (hL.termination p hp hold)

lemma Started.of_keeps (hL : L.Started) (hevolves : L.plan.Evolves L'.plan) (hkeeps : KeepsStatus L.plan L'.plan)
    (hnode : ∀ p, (L.plan.node p).requiresTermination = true → (L'.plan.node p).requiresTermination = true) :
    L'.Started :=
  hL.of_same hkeeps.state hevolves (fun _ => by rw [hkeeps.source]) (fun p hp => ⟨hkeeps.status p ▸ hp, hnode p⟩)

variable {p : PipelineId}

lemma Started.of_setStatus {status : NodeStatus} (hL : L.Started)
    (hplan : L'.plan = L.plan.setStatus p status) (hevolves : L.plan.Evolves L'.plan) (hstatus : status ≠ .shared) :
    L'.Started := by
  refine hL.of_same (by rw [hplan]; rfl) hevolves (fun _ => by rw [hplan]; rfl) (fun q hq => ?_)
  rw [hplan, status_setStatus] at hq
  split at hq
  case isTrue => exact absurd hq hstatus
  case isFalse => exact ⟨hq, fun hflag => by rw [hplan, requiresTermination_setStatus]; exact hflag⟩

lemma Started.of_setSource {s : OriginId} {status : SourceStatus} (hL : L.Started)
    (hplan : L'.plan = L.plan.setSource s status) (hstatus : status ≠ .waiting) : L'.Started where
  state := by rw [hplan]; exact hL.state
  not_waiting t ht := by
    rw [hplan] at ht ⊢
    rw [status_setSource]
    split
    case isTrue => exact hstatus
    case isFalse => exact hL.not_waiting t ht
  termination p hp hshared := by
    rw [hplan] at hp hshared ⊢
    exact hL.termination p hp hshared

lemma Step.started {label : Label} (h : Step L label L') (hadmissible : L.Admissible label)
    (hL : L.Started) : L'.Started := by
  have hevolves := h.evolves
  cases h with
  | accept _ =>
    refine hL.of_keeps hevolves (keeps_addPending _ _ _) (fun q hflag => ?_)
    rw [requiresTermination_addPending]
    exact hflag
  | @finishWork task A _ =>
    refine hL.of_keeps hevolves (L.keeps_reduced task A) (fun q hflag => ?_)
    rw [requiresTermination_reduced]
    exact hflag
  | @finishStart p A _ =>
    exact hL.of_keeps hevolves (L.keeps_started p A) (fun _ => L.requiresTermination_started p A)
  | @finishStop p A _ =>
    refine hL.of_same rfl hevolves (fun _ => rfl) (fun q hq => ?_)
    rw [status_destroy] at hq
    by_cases heq : q = p
    · rw [if_pos heq] at hq
      cases hq
    · rw [if_neg heq] at hq
      refine ⟨hq, fun hflag => ?_⟩
      rw [destroy, node_modifyNode, if_neg heq]
      exact hflag
  | release _ _ _ _ | discard _ _ _ _ => exact hL.of_setStatus rfl hevolves (by decide)
  | startSources hstate _ _ => exact absurd hstate hL.state
  | endOfStream _ _ | exit _ _ | close _ _ | unregister _ _ _ => exact hL.of_setSource rfl (by decide)
  | stopQuery _ =>
    refine ⟨?_, ?_, ?_⟩
    · show L.plan.stop.state ≠ .starting
      unfold stop
      cases hstate : L.plan.state with
      | starting => exact absurd hstate hL.state
      | running => simp
      | stopping => simp [hstate]
      | failed => simp [hstate]
    · intro s hs
      rw [hevolves.origins] at hs
      have hold := hL.not_waiting s hs
      have hclosed : (L.plan.closeSources.source s).status ≠ .waiting := by
        simp only [closeSources]
        cases hstatus : (L.plan.source s).status <;> first | exact absurd hstatus hold | simp
      unfold stop
      cases hstate : L.plan.state with
      | starting => exact hclosed
      | running => exact hclosed
      | stopping => exact hold
      | failed => exact hold
    · intro p hp
      rw [hevolves.pipelines] at hp
      rw [node_stop]
      exact hL.termination p hp
  | _ =>
    first
    | exact ⟨hL.state, hL.not_waiting, hL.termination⟩
    | cases hadmissible

/-! ## Guards stay -/

/-- To show that a node stays guarded, look at who guards it. -/
lemma Guarded.mono (h : L.Guarded p) (hplan : L.plan.Holds p → L'.Guarded p)
    (htasks : ∀ attempts, .pendingPipelineStop p attempts ∈ L.tasks → L'.Guarded p) : L'.Guarded p := by
  rcases h with h | ⟨attempts, h⟩
  · exact hplan h
  · exact htasks attempts h

lemma Guarded.of_keeps (h : L.Guarded p) (hevolves : L.plan.Evolves L'.plan)
    (hkeeps : KeepsStatus L.plan L'.plan) (htasks : L.tasks ≤ L'.tasks) : L'.Guarded p := by
  refine h.mono (fun hp => .inl (hevolves.holds_of_alive ?_ ?_ hp)) (fun n hn => .inr ⟨n, mem_of_le htasks hn⟩)
  · intro s _ _ ha
    rw [hkeeps.source]
    exact ha
  · intro m _ _ ha
    rw [hkeeps.status]
    exact ha

lemma Guarded.of_rest {task : Task β} (h : L.Guarded p)
    (htasks : L.tasks = task ::ₘ T) (hplan : L.plan.Holds p → L'.Guarded p) (htasks' : L'.tasks = T)
    (hne : ∀ attempts, Task.pendingPipelineStop p attempts ≠ task) : L'.Guarded p := by
  refine h.mono hplan (fun attempts hmem => .inr ⟨attempts, ?_⟩)
  rw [htasks']
  exact mem_of_ne_of_eq_cons htasks hmem (hne attempts)

lemma Guarded.of_setSource {s : OriginId} {status : SourceStatus} (h : L.Guarded p)
    (hplan : L'.plan = L.plan.setSource s status) (hevolves : L.plan.Evolves L'.plan)
    (htasks : ∀ task ∈ L.tasks, task ∈ L'.tasks)
    (halive : p ∈ (L.plan.source s).successors → status.IsAlive) : L'.Guarded p := by
  refine h.mono (fun hp => .inl (hevolves.holds_of_alive ?_ (fun _ _ _ ha => hplan ▸ ha) hp))
    (fun n hn => .inr ⟨n, htasks _ hn⟩)
  intro t _ hmem ha
  rw [hplan, status_setSource]
  split
  case isTrue heq => exact halive (heq ▸ hmem)
  case isFalse => exact ha

end

lemma Started.alive_stop (hL : L.Started) {s : OriginId} (hs : s ∈ L.plan.origins)
    (halive : (L.plan.source s).status.IsAlive) : (L.plan.stop.source s).status.IsAlive := by
  have hclosed : (L.plan.closeSources.source s).status.IsAlive := by
    have hwaiting := hL.not_waiting s hs
    simp only [closeSources]
    cases hstatus : (L.plan.source s).status with
    | waiting => exact absurd hstatus hwaiting
    | running => decide
    | endOfStream => decide
    | exited => decide
    | closing => decide
    | unregistered | closed => rw [hstatus] at halive; exact absurd halive (by decide)
  unfold stop
  cases L.plan.state with
  | starting => exact hclosed
  | running => exact hclosed
  | stopping => exact halive
  | failed => exact halive

/-- A node for which there is work keeps a guard. -/
lemma Step.guarded (h : Step L label L') (hadmissible : L.Admissible label)
    (hG : L.Graceful) (hL : L.Started) {p : PipelineId} (hwork : 0 < L.pendingWork p) (hguard : L.Guarded p) :
    L'.Guarded p := by
  have hevolves := h.evolves
  cases h with
  | accept _ => exact hguard.of_keeps hevolves (keeps_addPending _ _ _) (le_cons_self _ _)
  | beginWork htasks _ | expireWork htasks _ | beginStart htasks _ | expireStart htasks _ | beginStop htasks
  | dropStopSource htasks => exact hguard.of_rest htasks .inl rfl (by simp)
  | finishWork _ => exact hguard.of_keeps hevolves (L.keeps_reduced _ _) (le_refl _)
  | finishStart _ => exact hguard.of_keeps hevolves (L.keeps_started _ _) (le_refl _)
  | @dropPendingStop q n T htasks hdone =>
    refine hguard.of_rest htasks .inl rfl (fun n' heq => ?_)
    -- a pending stop lets go of a node only when its work is done
    have hq : q = p := (Task.pendingPipelineStop.inj heq).1.symm
    rw [hq] at hdone
    have hreferenced : L.Referenced p := hguard.referenced
    rcases hdone with hflag | hzero
    · rw [hL.termination p (hG.owned.referenced_mem p hreferenced) (hG.owned.referenced_shared p hreferenced)] at hflag
      cases hflag
    · exact absurd (hG.pendingWork_eq_zero hreferenced hzero) (Nat.ne_of_gt hwork)
  | @retryPendingStop q n T htasks =>
    refine hguard.mono .inl (fun n' hn' => ?_)
    by_cases heq : (Task.pendingPipelineStop p n' : Task β) = Task.pendingPipelineStop q n
    · rw [(Task.pendingPipelineStop.inj heq).1]
      exact .inr ⟨n + 1, mem_cons_self _ _⟩
    · exact .inr ⟨n', mem_cons_of_mem (mem_of_ne_of_eq_cons htasks hn' heq)⟩
  | @finishStop q A _ =>
    refine hguard.mono (fun hp => ?_) (fun n hn => .inr ⟨n, mem_add.2 (.inr hn)⟩)
    by_cases hsuccessor : p ∈ (L.plan.node q).successors
    · -- the stopped node hands its successors to pending stops
      refine .inr ⟨0, mem_add.2 (.inl ?_)⟩
      exact mem_coe.2 (List.mem_map.2 ⟨p, hsuccessor, rfl⟩)
    · refine .inl (hevolves.holds_of_alive (fun _ _ _ ha => ha) (fun m _ hmem ha => ?_) hp)
      have hne : m ≠ q := fun heq => hsuccessor (heq ▸ hmem)
      rw [status_destroy, if_neg hne]
      exact ha
  | @release q _ _ _ _ =>
    refine hguard.mono (fun hp => .inl (hevolves.holds_of_alive (fun _ _ _ ha => ha) ?_ hp))
      (fun n hn => .inr ⟨n, mem_cons_of_mem hn⟩)
    intro m _ _ ha
    rw [status_setStatus]
    split
    case isTrue => exact .inr rfl
    case isFalse => exact ha
  | discard hmem hshared _ hflag =>
    rw [hL.termination _ hmem hshared] at hflag
    cases hflag
  | startSources hstate _ _ => exact absurd hstate hL.state
  | endOfStream _ _ => exact hguard.of_setSource rfl hevolves (fun _ => mem_cons_of_mem) (fun _ => by decide)
  | exit _ _ => exact hguard.of_setSource rfl hevolves (fun _ => id) (fun _ => by decide)
  | close _ _ =>
    refine hguard.of_setSource rfl hevolves (fun _ => id) (fun hmem => ?_)
    exact absurd (hG.pendingWork_eq_zero hguard.referenced (hadmissible p hmem)) (Nat.ne_of_gt hwork)
  | @unregister s T htasks _ _ =>
    refine hguard.mono (fun hp => ?_) (fun n hn => .inr ⟨n, mem_add.2 (.inr ?_)⟩)
    · by_cases hsuccessor : p ∈ (L.plan.source s).successors
      · refine .inr ⟨0, mem_add.2 (.inl ?_)⟩
        exact mem_coe.2 (List.mem_map.2 ⟨p, hsuccessor, rfl⟩)
      · refine .inl (hevolves.holds_of_alive (fun t _ hmem ha => ?_) (fun _ _ _ ha => ha) hp)
        have hne : t ≠ s := fun heq => hsuccessor (heq ▸ hmem)
        rw [status_setSource, if_neg hne]
        exact ha
    · exact mem_of_ne_of_eq_cons htasks hn (by simp)
  | requestStop => exact hguard.mono .inl (fun n hn => .inr ⟨n, mem_cons_of_mem hn⟩)
  | stopQuery htasks =>
    refine hguard.of_rest htasks (fun hp => .inl (hevolves.holds_of_alive ?_ ?_ hp)) rfl (by simp)
    · intro s hs _ ha
      exact hL.alive_stop hs ha
    · intro m _ _ ha
      rw [node_stop]
      exact ha
  | _ => cases hadmissible

/-! ## The invariant is kept -/

lemma pendingWork_eq_zero_of_works (h : L.works = 0) (p : PipelineId) : L.pendingWork p = 0 := by
  rw [pendingWork, h]
  rfl

lemma Admissible.ne_tooMuchWork (h : L.Admissible label) : label ≠ .tooMuchWork := by
  intro heq
  rw [heq] at h
  exact h

lemma Step.graceful (h : Step L label L') (hadmissible : L.Admissible label) (hG : L.Graceful) : L'.Graceful := by
  have hlabel := hadmissible.ne_tooMuchWork
  refine ⟨h.owned hG.owned, h.accounting hlabel hG.owned hG.accounting, h.evolves.fed hG.fed, ?_, ?_, ?_⟩
  · rcases hG.phase with hphase | hphase
    · exact h.starting hadmissible hG hphase
    · exact .inr (h.started hadmissible hphase)
  · intro p hp
    rcases hG.phase with hphase | hphase
    · -- before the sources start there is no work, and no step brings any
      exfalso
      have hnone : L'.works = 0 := by
        cases h.works hlabel with
        | none hworks _ _ _ => rw [hworks, hphase.works]
        | accept task hemit _ _ _ _ _ => exact absurd hemit (hphase.not_mayEmit hG.owned task)
        | expire task _ hworks _ _ _ | finish task _ hworks _ _ _ =>
          rw [hphase.works] at hworks
          exact absurd hworks (zero_ne_cons)
      rw [pendingWork_eq_zero_of_works hnone] at hp
      cases hp
    · by_cases hold : 0 < L.pendingWork p
      · exact h.guarded hadmissible hG hphase hold (hG.guarded p hold)
      · -- the work is new
        cases h.works hlabel with
        | none hworks _ _ _ =>
          rw [pendingWork, hworks] at hp
          exact absurd hp hold
        | accept task hemit hworks hplan htasks _ _ =>
          rw [pendingWork_cons hworks] at hp
          have heq : p = task.pipeline := by
            by_contra hne
            rw [if_neg hne] at hp
            exact hold hp
          have hguard : L.Guarded p := heq ▸ hG.guarded_of_mayEmit hemit
          refine hguard.of_keeps h.evolves (hplan ▸ keeps_addPending _ _ _) ?_
          rw [htasks]
          exact le_cons_self _ _
        | expire task _ hworks _ _ _ | finish task _ hworks _ _ _ =>
          rw [pendingWork_cons hworks] at hold
          exact absurd (Nat.lt_of_lt_of_le hp (Nat.le_add_right _ _)) hold
  · cases h.works hlabel with
    | none hworks _ haccepted hexecuted => rw [haccepted, hexecuted, hworks, hG.balance]
    | accept task _ hworks _ _ haccepted hexecuted =>
      rw [haccepted, hexecuted, hworks, hG.balance, add_cons]
    | expire task hreferenced hworks _ _ _ =>
      exact absurd (hG.referenced_of_work (mem_self_of_eq_cons hworks)) hreferenced
    | finish task _ hworks _ haccepted hexecuted =>
      rw [haccepted, hexecuted, hG.balance, hworks, add_cons, cons_add]

end Ledger

end MobilityNebula.QueryEngine
