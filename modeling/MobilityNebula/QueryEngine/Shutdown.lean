import MobilityNebula.QueryEngine.EndOfStream
import MobilityNebula.QueryEngine.Termination

/-!
# Shutdown — whether the terminating loop of the workers ends

The destructor of the engine clears the catalog, which destroys the plans, and then stops and joins the workers
one after the other.  A worker that is asked to stop reads tasks from the internal queue until it is empty, with
a visitor that skips work tasks and starts of pipelines, without the callbacks that would lower `pendingTasks`.
Those that have not been asked yet go on as before, and a task that finds the queue full is executed in place by
a regular visitor.

`shutdown_drains` says that the workers execute finitely many tasks, if no work task of a pipeline that may
still get a pending stop is skipped.  `stopping_query_never_drains` is a run in which one is.
-/

namespace MobilityNebula.QueryEngine

open Library Option Ledger

variable {β : Type}

/-! ## The workers are asked to stop -/

def RunningQueryPlan.joinSources (plan : RunningQueryPlan) : RunningQueryPlan :=
  { plan with
    source := fun s =>
      { plan.source s with
        status := if (plan.source s).status.IsAlive then .closed else (plan.source s).status } }

/-- The pipeline that the visitor of the task stops. -/
def Task.stopped : Task β → List PipelineId
  | .stopPipeline p => [p]
  | _ => []

namespace Engine

variable (e : Engine β)

def clear : Engine β :=
  e.withPlan (e.plan.dispose fun p => decide (e.Referenced p)).joinSources

/-- The visitor of a terminating worker. -/
def visitTerminating (alive : PipelineId → Bool) : Task β → Option (Engine β)
  | .work _ => some e
  | .startPipeline _ => some e
  | task => e.visit alive task

/-- The task that is taken and visited in an event. -/
def visited : Event β → Option (Task β)
  | .runNext => e.internalTaskQueue.head?
  | .runHand i =>
    match e.frames[i]? with
    | some (.hand task) => some task
    | _ => none
  | _ => none

/-- The visitor puts a pending stop back, and there is a work task to wait for. -/
def waits : Task β → Bool
  | .pendingPipelineStop p _ => (e.plan.node p).requiresTermination && decide (0 < e.numberOfWorkTasks p)
  | _ => false

end Engine

structure Shutdown (β : Type) where
  engine : Engine β
  regularWorkers : Nat
  terminating : Bool
  /-- The pipelines that a terminating worker stops; the buffers that they emit are dropped. -/
  muted : List PipelineId
  /-- How many tasks have been executed, regularly, in place or by a terminating worker. -/
  executions : Nat
  /-- How often a pending stop was put back while there was work for its pipeline. -/
  waits : Nat

inductive ShutdownEvent (β : Type) where
  /-- The destructor of the next `jthread`: the worker leaves its regular loop. -/
  | askToStop
  /-- What a worker does that is not special to its terminating loop. -/
  | regular (event : Event β)
  | read
  /-- The terminating worker finds the queue empty and is joined. -/
  | leave

namespace Shutdown

variable (s : Shutdown β)

def start (e : Engine β) (workers : Nat) : Shutdown β := ⟨e.clear, workers, false, [], 0, 0⟩

/-- Nobody calls the engine any more, only regular workers read in their regular loop, and a terminating worker
drops what a pipeline emits while it is stopped. -/
def permits : Event β → Bool
  | .requestStop => false
  | .runNext | .pollAdmission => decide (0 < s.regularWorkers)
  | .emit i _ _ _ => decide (¬ s.engine.IsRunning (fun activity => s.muted.any activity.isStopOf) i)
  | _ => true

def Enabled : ShutdownEvent β → Prop
  | .askToStop => 0 < s.regularWorkers ∧ s.terminating = false
  | .regular event => s.engine.Enabled event ∧ s.permits event = true
  | .read => s.terminating = true ∧ s.engine.internalTaskQueue ≠ []
  | .leave => s.terminating = true ∧ s.engine.internalTaskQueue = []

def record (task : Option (Task β)) (e : Engine β) : Shutdown β :=
  { s with
    engine := e
    executions := s.executions + task.toList.length
    waits := s.waits + task.toList.countP s.engine.waits }

def step : ShutdownEvent β → Option (Shutdown β)
  | .askToStop => some { s with regularWorkers := s.regularWorkers - 1, terminating := true }
  | .regular event => (s.engine.step event).map (s.record (s.engine.visited event))
  | .read =>
    match s.engine.internalTaskQueue with
    | [] => none
    | task :: rest =>
      (({ s.engine with internalTaskQueue := rest } : Engine β).visitTerminating
        (fun p => decide (s.engine.Referenced p)) task).map fun e =>
          { s.record (some task) e with muted := task.stopped ++ s.muted }
  | .leave => some { s with terminating := false }

/-- The work tasks that an event makes disappear: a terminating worker skips them, and `TooMuchWork` loses those
that `addTaskOrDoNextTask` has in its hands. -/
def lostWork : ShutdownEvent β → List (WorkTask β)
  | .read => (s.engine.internalTaskQueue.head?.bind Task.work?).toList
  | .regular (.throwAdding i) => s.engine.workOfFrame i
  | _ => []

/-- No work task disappears that a pending stop waits for, or may come to wait for. -/
def KeepsAwaited (event : ShutdownEvent β) : Prop :=
  ∀ work ∈ s.lostWork event, ¬ s.engine.ledger.Awaited work.pipeline

instance : (event : ShutdownEvent β) → Decidable (s.Enabled event)
  | .askToStop | .regular _ | .leave => inferInstanceAs (Decidable (_ ∧ _))
  | .read => inferInstanceAs (Decidable (_ ∧ ¬ _ = _))

instance (event : ShutdownEvent β) : Decidable (s.KeepsAwaited event) := inferInstanceAs (Decidable (∀ _ ∈ _, ¬ _))

/-- The workers execute finitely many tasks, apart from the buffers that regular visitors emit and from pending
stops that wait for such work, and nothing aborts.  They go on as long as the queue is not empty. -/
def Drains (initial : Shutdown β) (allowed : Shutdown β → ShutdownEvent β → Prop) : Prop :=
  ∃ bound, ∀ s, Reachable initial allowed step s →
    s.executions ≤ bound + s.engine.accepted.length + s.waits ∧ ∀ event, s.Enabled event → (s.step event).isSome

end Shutdown

/-! ## What a visit does -/

namespace Engine

variable {e e' : Engine β} {L : Ledger β} {task : Task β} {alive : PipelineId → Bool}

lemma remaining_addTasks (L : Ledger β) (task : Task β) :
    (L.addTasks [task]).remaining = taskWeight L.plan task + L.remaining := by
  unfold remaining addTasks
  rw [Multiset.map_add, Multiset.sum_add, Multiset.coe_singleton, Multiset.map_singleton, Multiset.sum_singleton]
  dsimp only
  omega

lemma remaining_push_running (e : Engine β) (activity : Activity β) :
    (e.push (.running activity)).ledger.remaining = activityWeight e.plan activity + e.ledger.remaining := by
  rw [ledger_push_running]
  unfold remaining
  rw [Multiset.map_cons, Multiset.sum_cons]
  show _ + (activityWeight e.plan activity + _) + _ = _
  dsimp only
  omega

lemma taskWeight_pos (plan : RunningQueryPlan) (task : Task β) : 0 < taskWeight plan task := by
  cases task <;> simp only [taskWeight] <;> omega

lemma accepted_visit (h : e.visit alive task = some e') : e'.accepted = e.accepted := by
  have hpoll : ∀ e : Engine β, e.pollAdmission.accepted = e.accepted := by
    intro e
    unfold pollAdmission
    split <;> rfl
  revert h
  fun_cases visit e alive task <;> rintro ⟨⟩
  case case7 =>
    show (if _ then e.pollAdmission else e).accepted = _
    split
    case isTrue => exact hpoll e
    case isFalse => rfl
  all_goals rfl

/-- A visit uses up its task, or puts it back because there is work for its pipeline. -/
lemma visit_remaining (hL : L = e.ledger.addTasks [task]) (hdown : L.ShuttingDown)
    (h : e.visit alive task = some e') :
    e'.ledger.remaining < L.remaining ∨ e'.ledger.remaining = L.remaining
      ∧ ∃ p attempts, task = .pendingPipelineStop p attempts ∧ (e.plan.node p).requiresTermination = true
        ∧ 0 < L.pendingWork p := by
  subst hL
  have hdead : ∀ s, ¬ (e.plan.source s).status.IsAlive := hdown.closed
  have hused : ∀ {activity : Activity β}, activityWeight e.plan activity < taskWeight e.plan task →
      (e.push (.running activity)).ledger.remaining < (e.ledger.addTasks [task]).remaining := by
    intro activity hless
    rw [remaining_push_running, remaining_addTasks]
    exact Nat.add_lt_add_right hless _
  have hdropped : e.ledger.remaining < (e.ledger.addTasks [task]).remaining := by
    rw [remaining_addTasks]
    exact Nat.lt_add_of_pos_left (taskWeight_pos _ _)
  have htasks : (e.ledger.addTasks [task]).tasks = task ::ₘ e.ledger.tasks := rfl
  revert h
  fun_cases visit e alive task <;> rintro ⟨⟩
  case case1 | case3 => exact .inl (hused Nat.one_pos)
  case case7 p attempts _ hflag hpos =>
    right
    have htrue := Bool.eq_true_of_not_eq_false hflag
    refine ⟨?_, p, attempts, rfl, htrue, ?_⟩
    · rw [ledger_push, ledger_pollAdmission_if]
      exact (remaining_addTasks _ _).trans (remaining_addTasks _ _).symm
    · have hequal := hdown.awaited p ⟨.inl htrue, .inl ⟨_, mem_self_of_eq_cons htasks, decide_eq_true rfl⟩⟩
      have hplan : (e.ledger.addTasks [.pendingPipelineStop p attempts]).plan = e.plan := rfl
      rw [hplan] at hequal
      omega
  case case9 p => exact .inl (hused (Nat.lt_add_of_pos_left Nat.one_pos))
  case case10 s _ hstatus | case11 s _ hstatus | case12 s _ hstatus | case15 s hstatus | case16 s hstatus
    | case17 s hstatus => exact absurd (by rw [hstatus]; decide) (hdead s)
  case case19 =>
    left
    have hevolves : e.plan.Evolves e.plan.stop := RunningQueryPlan.evolves_stop
    have hsame : (e.withPlan e.plan.stop).ledger.remaining = e.ledger.remaining := by
      have hnodes : nodeWeight e.plan.stop = nodeWeight e.plan := by
        funext p
        unfold nodeWeight
        rw [RunningQueryPlan.node_stop]
      show (Multiset.map (taskWeight e.plan.stop) _).sum + (Multiset.map (activityWeight e.plan.stop) _).sum
        + (e.plan.stop.pipelines.map (nodeWeight e.plan.stop)).sum = _
      rw [taskWeight_evolves hevolves, activityWeight_evolves hevolves, hnodes, hevolves.pipelines]
      rfl
    rw [hsame]
    exact hdropped
  all_goals exact .inl hdropped

variable {event : Event β}

lemma step_of_visited (h : e.visited event = some task) :
    ∃ e₀ : Engine β, e.ledger = e₀.ledger.addTasks [task] ∧ e₀.plan = e.plan ∧ e₀.accepted = e.accepted
      ∧ e.step event = e₀.visit (fun p => decide (e.Referenced p)) task := by
  cases event with
  | runNext =>
    cases hqueue : e.internalTaskQueue with
    | nil =>
      rw [visited, hqueue] at h
      cases h
    | cons first rest =>
      rw [visited, hqueue] at h
      cases h
      refine ⟨{ e with internalTaskQueue := rest }, e.ledger_internalTaskQueue hqueue, rfl, rfl, ?_⟩
      simp only [step, hqueue]
  | runHand i =>
    simp only [visited] at h
    split at h
    case h_1 first hframe =>
      cases h
      refine ⟨e.removeFrame i, ?_, rfl, rfl, by simp only [step, hframe]⟩
      rw [e.ledger_removeFrame hframe]
      simp [addFrame, addTasks, Frame.tasks, Frame.activities]
    case h_2 => cases h
  | _ => cases h

lemma label_ne_stopQuery (hvisited : e.visited event = none) (hevent : event ≠ .requestStop) :
    e.label event ≠ .stopQuery := by
  cases event with
  | runNext =>
    rw [visited, List.head?_eq_none_iff] at hvisited
    simp only [label, hvisited]
    exact Label.noConfusion
  | runHand i =>
    simp only [visited] at hvisited
    split at hvisited
    case h_1 => cases hvisited
    case h_2 =>
      simp only [label]
      exact Label.noConfusion
  | exitSource s =>
    simp only [label]
    split <;> exact Label.noConfusion
  | requestStop => exact absurd rfl hevent
  | _ => exact Label.noConfusion

/-- Apart from emitted buffers and from pending stops that wait, every executed task lowers the number of those
that remain. -/
lemma step_remaining (henabled : e.Enabled event) (hevent : event ≠ .requestStop) (hdown : e.ledger.ShuttingDown)
    (h : e.step event = some e') :
    (e.visited event).toList.length + e'.ledger.remaining + e.accepted.length
      ≤ e.ledger.remaining + e'.accepted.length + (e.visited event).toList.countP e.waits := by
  cases hvisited : e.visited event with
  | none =>
    have hle : e'.ledger.remaining + e.accepted.length ≤ e.ledger.remaining + e'.accepted.length := by
      rcases step_refines henabled h with hsame | hstep
      · have haccepted : e'.accepted.length = e.accepted.length := congrArg (fun L => L.accepted.card) hsame
        rw [hsame, haccepted]
      · exact hstep.remaining_le (label_ne_stopQuery hvisited hevent) hdown.owned hdown.closed
    show 0 + _ + _ ≤ _ + _ + 0
    omega
  | some task =>
    rcases step_of_visited hvisited with ⟨e₀, hledger, hplan, haccepted, hvisit⟩
    rw [hvisit] at h
    have hsame := accepted_visit h
    rw [haccepted] at hsame
    rw [hsame]
    show 1 + _ + _ ≤ _ + _ + List.countP _ [task]
    rcases visit_remaining hledger hdown h with hless | ⟨hequal, p, attempts, rfl, hflag, hwork⟩
    · omega
    · have hwaits : e.waits (.pendingPipelineStop p attempts) = true := by
        rw [waits, ← hplan, hflag]
        exact decide_eq_true hwork
      rw [List.countP_singleton, if_pos hwaits]
      omega

/-! ## Counters -/

/-- What `addTaskOrDoNextTask` drops was not awaited. -/
lemma shuttingDown_throwAdding {i : Nat} (henabled : e.Enabled (.throwAdding i))
    (hkeeps : ∀ work ∈ e.workOfFrame i, ¬ e.ledger.Awaited work.pipeline)
    (hdown : e.ledger.ShuttingDown) : (e.removeFrame i).ledger.ShuttingDown := by
  rcases henabled.exists with ⟨task, taken, level, hframe, _⟩
  have hledger : (e.removeFrame i).ledger = { e.ledger with tasks := (e.removeFrame i).ledger.tasks } := by
    rw [e.ledger_removeFrame hframe]
    simp [addFrame, Frame.activities]
  have hle : (e.removeFrame i).ledger.tasks ≤ e.ledger.tasks := by
    rw [e.ledger_removeFrame hframe]
    exact Multiset.le_add_left _ _
  have hdropped : e.workOfFrame i = (task :: taken).filterMap Task.work? := by
    unfold workOfFrame
    rw [hframe]
    rfl
  rw [hledger]
  refine hdown.drop hle fun p hp => ?_
  replace hp := hp.of_le hle
  rw [← hledger]
  have hzero : ((task :: taken).filterMap Task.work?).countP (fun work => work.pipeline = p) = 0 := by
    refine List.countP_eq_zero.2 fun work hwork heq => ?_
    exact hkeeps work (hdropped ▸ hwork) (of_decide_eq_true heq ▸ hp)
  rw [pendingWork_ledger, pendingWork_ledger, numberOfWorkTasks_removeFrame hframe, hzero, Nat.zero_add]

lemma shuttingDown_step (henabled : e.Enabled event)
    (hkeeps : ∀ i, event = .throwAdding i → ∀ work ∈ e.workOfFrame i, ¬ e.ledger.Awaited work.pipeline)
    (hdown : e.ledger.ShuttingDown) (h : e.step event = some e') : e'.ledger.ShuttingDown := by
  by_cases hlabel : e.label event = .tooMuchWork
  · rcases label_eq_tooMuchWork hlabel with ⟨i, rfl⟩
    rw [← some.inj h]
    exact shuttingDown_throwAdding henabled (hkeeps i rfl) hdown
  · rcases step_refines henabled h with hsame | hstep
    · rw [hsame]
      exact hdown
    · exact hstep.shuttingDown hlabel hdown

/-! ## Clearing the catalog -/

lemma evolves_joinSources (plan : RunningQueryPlan) : plan.Evolves plan.joinSources where
  pipelines := rfl
  origins := rfl
  node_successors _ := rfl
  source_successors _ := rfl
  node_alive _ h := h
  source_alive s h := by
    by_contra hdead
    have hstatus : (plan.joinSources.source s).status = (plan.source s).status := if_neg hdead
    rw [hstatus] at h
    exact hdead h

lemma not_alive_joinSources (plan : RunningQueryPlan) (s : OriginId) :
    ¬ (plan.joinSources.source s).status.IsAlive := by
  intro halive
  have hstatus : (plan.joinSources.source s).status = .closed :=
    if_pos ((evolves_joinSources plan).source_alive s halive)
  rw [hstatus] at halive
  exact absurd halive (by decide)

lemma referenced_of_clear {p : PipelineId} (h : e.clear.Referenced p) : e.Referenced p := by
  have hevolves : e.plan.Evolves e.clear.plan :=
    (RunningQueryPlan.evolves_dispose _).trans (evolves_joinSources _)
  exact h.imp_left hevolves.holds

lemma node_clear (e : Engine β) (p : PipelineId) : (e.clear.plan.node p).status = (e.plan.node p).status
      ∧ (e.clear.plan.node p).pendingTasks = (e.plan.node p).pendingTasks :=
  (RunningQueryPlan.node_dispose _ p).2

lemma pipelines_clear (e : Engine β) : e.clear.plan.pipelines = e.plan.pipelines :=
  (RunningQueryPlan.evolves_dispose _).pipelines

lemma shuttingDown_clear (howned : e.ledger.Owned) (haccounting : e.Accounting) : e.clear.ledger.ShuttingDown where
  owned := {
    referenced_mem := fun p hp => e.pipelines_clear ▸ howned.referenced_mem p (referenced_of_clear hp)
    referenced_shared := fun p hp => (e.node_clear p).1.trans (howned.referenced_shared p (referenced_of_clear hp))
    stopping_mem := fun p hp => e.pipelines_clear ▸ howned.stopping_mem p ((e.node_clear p).1.symm.trans hp)
    stopTasks_le := fun p => by
      show e.ledger.stopTasks p ≤ if (e.clear.plan.node p).status = .stopping then 1 else 0
      rw [(e.node_clear p).1]
      exact howned.stopTasks_le p }
  closed := not_alive_joinSources _
  counted p hp := by
    show (e.numberOfWorkTasks p : Int) ≤ (e.clear.plan.node p).pendingTasks
    rw [(e.node_clear p).2]
    exact haccounting.counted p (referenced_of_clear hp)
  awaited p hp := by
    show (e.clear.plan.node p).pendingTasks = e.numberOfWorkTasks p
    rw [(e.node_clear p).2]
    exact haccounting p (referenced_of_clear hp.referenced)

end Engine

/-! ## Runs -/

namespace Shutdown

variable {s s' : Shutdown β}

/-- A task is skipped: if it is work, then its pipeline is not awaited. -/
lemma skip_spec {L L₀ : Ledger β} {task : Task β} (hL : L = L₀.addTasks [task])
    (htask : ∀ work, task = .work work → ¬ L.Awaited work.pipeline) (hdown : L.ShuttingDown) :
    L₀.ShuttingDown ∧ L₀.remaining < L.remaining := by
  have htasks : L.tasks = task ::ₘ L₀.tasks := by rw [hL]; rfl
  have hle : L₀.tasks ≤ L.tasks := htasks ▸ Multiset.le_cons_self _ _
  have hL₀ : L₀ = { L with tasks := L₀.tasks } := by rw [hL]; rfl
  refine ⟨?_, ?_⟩
  · rw [hL₀]
    refine hdown.drop hle fun p hp => ?_
    cases hwork : task.work? with
    | none =>
      rw [pendingWork, pendingWork, works_cons_task L htasks hwork]
    | some work =>
      have hself : task = .work work := by
        cases task with
        | work w => exact congrArg Task.work (some.inj hwork)
        | _ => cases hwork
      have hne : p ≠ work.pipeline := fun heq => htask work hself (heq ▸ hp.of_le hle)
      rw [pendingWork_cons (works_work L (hself ▸ htasks)), if_neg hne, Nat.add_zero]
  · rw [hL, Engine.remaining_addTasks]
    exact Nat.lt_add_of_pos_left (Engine.taskWeight_pos _ _)

/-- The engine after the task was read: it is used up, or it waits. -/
structure UsesUp (e e' : Engine β) (task : Task β) : Prop where
  down : e'.ledger.ShuttingDown
  accepted : e'.accepted = e.accepted
  remaining : 1 + e'.ledger.remaining ≤ e.ledger.remaining + [task].countP e.waits

/-- Reading a task: some are skipped, and the others are visited as usual. -/
lemma read_spec {task : Task β} {rest : List (Task β)} {e' : Engine β}
    (hqueue : s.engine.internalTaskQueue = task :: rest) (hkeeps : s.KeepsAwaited .read)
    (hdown : s.engine.ledger.ShuttingDown)
    (h : ({ s.engine with internalTaskQueue := rest } : Engine β).visitTerminating
      (fun p => decide (s.engine.Referenced p)) task = some e') : UsesUp s.engine e' task := by
  have hledger := s.engine.ledger_internalTaskQueue hqueue
  have hnext : s.engine.visited .runNext = some task := by rw [Engine.visited, hqueue]; rfl
  have hskip : (∀ work, task = .work work → ¬ s.engine.ledger.Awaited work.pipeline) →
      some { s.engine with internalTaskQueue := rest } = some e' → UsesUp s.engine e' task := by
    intro htask heq
    rcases skip_spec hledger htask hdown with ⟨hdown', hless⟩
    rw [← some.inj heq]
    refine ⟨hdown', rfl, Nat.le_trans ?_ (Nat.le_add_right _ _)⟩
    rw [Nat.add_comm]
    exact hless
  have hvisit : s.engine.step .runNext = some e' → UsesUp s.engine e' task := by
    intro hstep
    have henabled : s.engine.Enabled .runNext := by
      rw [Engine.Enabled, hqueue]
      exact List.cons_ne_nil _ _
    have hremaining := Engine.step_remaining henabled (by simp) hdown hstep
    have haccepted : e'.accepted = s.engine.accepted := by
      simp only [Engine.step, hqueue] at hstep
      have hkept := Engine.accepted_visit hstep
      exact hkept
    rw [hnext, haccepted] at hremaining
    have hcount : 1 + e'.ledger.remaining + s.engine.accepted.length
        ≤ s.engine.ledger.remaining + s.engine.accepted.length + [task].countP s.engine.waits := hremaining
    exact ⟨Engine.shuttingDown_step henabled (by simp) hdown hstep, haccepted, by omega⟩
  cases task with
  | work work =>
    refine hskip (fun w heq => hkeeps w ?_) h
    rw [lostWork, hqueue, ← Task.work.inj heq]
    exact List.mem_singleton.2 rfl
  | startPipeline p => exact hskip (by simp) h
  | _ =>
    refine hvisit ?_
    simp only [Engine.step, hqueue]
    exact h

/-- The potential of a run: what has been executed and what remains, against what was emitted and waited for. -/
lemma step_spec {event : ShutdownEvent β} (henabled : s.Enabled event) (hkeeps : s.KeepsAwaited event)
    (hdown : s.engine.ledger.ShuttingDown) (h : s.step event = some s') :
    s'.engine.ledger.ShuttingDown
      ∧ s'.executions + s'.engine.ledger.remaining + s.engine.accepted.length + s.waits
        ≤ s.executions + s.engine.ledger.remaining + s'.engine.accepted.length + s'.waits := by
  cases event with
  | askToStop | leave =>
    rw [← some.inj h]
    exact ⟨hdown, Nat.le_refl _⟩
  | regular event =>
    rcases map_eq_some_iff.1 h with ⟨e', hstep, rfl⟩
    rcases henabled with ⟨henabled, hpermits⟩
    have hevent : event ≠ .requestStop := by
      rintro rfl
      cases hpermits
    have hremaining := Engine.step_remaining henabled hevent hdown hstep
    refine ⟨Engine.shuttingDown_step henabled (fun i heq => ?_) hdown hstep, ?_⟩
    · subst heq
      exact hkeeps
    · simp only [record]
      omega
  | read =>
    simp only [step] at h
    split at h
    case h_1 => cases h
    case h_2 task rest hqueue =>
      rcases map_eq_some_iff.1 h with ⟨e', hstep, rfl⟩
      rcases read_spec hqueue hkeeps hdown hstep with ⟨hdown', haccepted, hcount⟩
      refine ⟨hdown', ?_⟩
      simp only [record, toList_some, List.length_singleton, haccepted]
      omega

lemma step_isSome {event : ShutdownEvent β} (henabled : s.Enabled event) (hdown : s.engine.ledger.ShuttingDown) :
    (s.step event).isSome := by
  have hcounted : s.engine.Counted := hdown.counted
  cases event with
  | askToStop | leave => rfl
  | regular event =>
    rw [step, isSome_map]
    exact Engine.step_isSome henabled.1 hcounted
  | read =>
    cases hqueue : s.engine.internalTaskQueue with
    | nil => exact absurd hqueue henabled.2
    | cons task rest =>
      have hvisit := Engine.step_isSome (show s.engine.Enabled .runNext from henabled.2) hcounted
      simp only [Engine.step, hqueue] at hvisit
      simp only [step, hqueue, isSome_map]
      cases task with
      | work _ | startPipeline _ => rfl
      | _ => exact hvisit

/-- A query is stopped, perhaps with something else going on.  While pipeline 0 is stopped, it emits a buffer to
pipeline 1. -/
def stopWithWork (meanwhile : List (Event Unit)) : List (Event Unit) :=
  [.writeAdding 0, .writeAdding 0, .runNext, .complete 0, .runNext, .complete 0, .startSources, .requestStop]
    ++ meanwhile ++ [.pollAdmission, .storeHand 0, .runNext, .exitSource 0, .release 0, .writeAdding 0, .runNext,
      .emit 0 1 () .POSSIBLE, .complete 0, .writeAdding 0]

/-- The first worker terminates while the second one executes the buffer for pipeline 1.  It skips a buffer for
pipeline 0, which has been stopped. -/
def stopTwoWorkers : List (ShutdownEvent Unit) :=
  [.askToStop, .regular .runNext, .read, .regular .pollAdmission, .regular (.storeHand 2), .regular (.complete 0),
    .regular (.writeAdding 0), .read, .read, .regular (.release 1), .regular (.writeAdding 0), .read,
    .regular (.complete 0), .leave, .askToStop, .leave]

/-- The terminating worker is alone with a pending stop whose pipeline counts work that is gone. -/
structure Stuck (s : Shutdown β) (p : PipelineId) : Prop where
  terminating : s.terminating = true
  idle : s.engine.frames = [] ∧ s.engine.admissionQueue = []
  room : 0 < s.engine.taskQueueSize
  queue : ∃ attempts, s.engine.internalTaskQueue = [.pendingPipelineStop p attempts]
  counted : (s.engine.plan.node p).requiresTermination = true ∧ 0 < (s.engine.plan.node p).pendingTasks

lemma Stuck.next {p : PipelineId} (h : s.Stuck p) : ∃ s' : Shutdown β, Reachable s Enabled step s' ∧ s'.Stuck p
    ∧ s'.executions = s.executions + 1 ∧ s'.waits = s.waits ∧ s'.engine.accepted = s.engine.accepted := by
  rcases h with ⟨hterminating, ⟨hframes, hadmission⟩, hroom, ⟨attempts, hqueue⟩, hflag, hpos⟩
  rcases s with ⟨⟨plan, taskQueueSize, admissionQueue, internalTaskQueue, frames, accepted, executed⟩, regularWorkers,
    terminating, muted, executions, waits⟩
  dsimp only at hterminating hframes hadmission hroom hqueue hflag hpos
  subst hterminating hframes hadmission hqueue
  have hread : step (⟨⟨plan, taskQueueSize, [], [.pendingPipelineStop p attempts], [], accepted, executed⟩,
        regularWorkers, true, muted, executions, waits⟩ : Shutdown β) .read
      = some ⟨⟨plan, taskQueueSize, [], [], [.adding (.pendingPipelineStop p (attempts + 1)) [] 0], accepted, executed⟩,
        regularWorkers, true, muted, executions + 1, waits⟩ := by
    have hnonneg : ¬ (plan.node p).pendingTasks < 0 := by omega
    have hpoll : (if 2 ≤ attempts + 1 then
        (⟨plan, taskQueueSize, [], [], [], accepted, executed⟩ : Engine β).pollAdmission
        else ⟨plan, taskQueueSize, [], [], [], accepted, executed⟩)
          = ⟨plan, taskQueueSize, [], [], [], accepted, executed⟩ := by
      split <;> rfl
    have hnone : Engine.waits (⟨plan, taskQueueSize, [], [.pendingPipelineStop p attempts], [], accepted, executed⟩ :
        Engine β) (.pendingPipelineStop p attempts) = false := by
      rw [Engine.waits, Bool.and_eq_false_iff]
      exact .inr rfl
    simp only [step, Engine.visitTerminating, Engine.visit, if_neg hnonneg, hflag, if_pos hpos, hpoll, record,
      toList_some, List.countP_singleton, hnone]
    rfl
  have hinitial : Reachable (⟨⟨plan, taskQueueSize, [], [.pendingPipelineStop p attempts], [], accepted, executed⟩,
    regularWorkers, true, muted, executions, waits⟩ : Shutdown β) Enabled step _ := .initial
  have htaken := hinitial.extend ShutdownEvent.read ⟨rfl, List.cons_ne_nil _ _⟩ hread
  have hput := htaken.extend (ShutdownEvent.regular (.writeAdding 0)) ⟨⟨rfl, Nat.not_le_of_gt hroom⟩, rfl⟩ rfl
  exact ⟨_, hput, ⟨rfl, ⟨rfl, rfl⟩, hroom, ⟨attempts + 1, rfl⟩, hflag, hpos⟩, rfl, rfl, rfl⟩

lemma Stuck.not_drains {initial : Shutdown β} {p : PipelineId} (hs : Reachable initial Enabled step s)
    (h : s.Stuck p) : ¬ initial.Drains Enabled := by
  rintro ⟨bound, hbound⟩
  have hruns : ∀ n, ∃ t : Shutdown β, Reachable initial Enabled step t ∧ t.Stuck p
      ∧ t.executions = s.executions + n ∧ t.waits = s.waits ∧ t.engine.accepted = s.engine.accepted := by
    intro n
    induction n with
    | zero => exact ⟨s, hs, h, rfl, rfl, rfl⟩
    | succ n ih =>
      rcases ih with ⟨t, ht, hstuck, hexecutions, hwaits, haccepted⟩
      rcases hstuck.next with ⟨t', ht', hstuck', hnext, hsame, hsame'⟩
      exact ⟨t', ht.trans ht', hstuck', by omega, hsame.trans hwaits, hsame'.trans haccepted⟩
  rcases hruns (bound + s.engine.accepted.length + s.waits + 1) with ⟨t, ht, _, hexecutions, hwaits, haccepted⟩
  have hle := (hbound t ht).1
  rw [hexecutions, hwaits, haccepted] at hle
  omega

end Shutdown

end MobilityNebula.QueryEngine
