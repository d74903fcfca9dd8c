import MobilityNebula.Library.TransitionSystem
import MobilityNebula.QueryEngine.EngineRefinement
import MobilityNebula.QueryEngine.LedgerInvariants

/-!
# PendingTasks — the counter of a node is the number of its work tasks

A work task is in the admission queue, in the internal queue, or with a worker: on its way between the queues
or being executed.  As long as somebody refers to a node, its counter `pendingTasks` is the number of its work
tasks, over all interleavings of emissions, refusals, completions, failures and stops.

The one way to break this is `addTaskOrDoNextTask`: when it gives up, the tasks it has taken from the queue
disappear without their callbacks.  `pending_tasks_accounting` says that nothing else does.
-/

namespace MobilityNebula.QueryEngine

open Library Multiset

variable {β : Type}

namespace Engine

variable {query : ExecutableQueryPlan} {taskQueueSize : Nat} {e e' : Engine β}

/-! ## The number of work tasks -/

def workTasks (e : Engine β) : List (WorkTask β) :=
  e.tasks.filterMap Task.work? ++ e.activities.filterMap Activity.work?

def numberOfWorkTasks (e : Engine β) (p : PipelineId) : Nat :=
  e.workTasks.countP (fun task => task.pipeline = p)

def Accounting (e : Engine β) : Prop :=
  ∀ p, e.Referenced p → (e.plan.node p).pendingTasks = e.numberOfWorkTasks p

lemma works_ledger (e : Engine β) : e.ledger.works = e.workTasks := rfl

lemma pendingWork_ledger (e : Engine β) (p : PipelineId) : e.ledger.pendingWork p = e.numberOfWorkTasks p := rfl

lemma accounting_ledger : e.ledger.Accounting ↔ e.Accounting := .rfl

/-! ## The start -/

lemma tasks_start : (start query taskQueueSize : Engine β).tasks = query.pipelines.map .startPipeline := by
  simp only [tasks, start, List.nil_append]
  rw [List.flatMap_map]
  exact List.map_eq_flatMap.symm

lemma activities_start : (start query taskQueueSize : Engine β).activities = [] := by
  simp only [activities, start]
  rw [List.flatMap_map]
  exact List.flatMap_eq_nil_iff.2 (fun _ _ => rfl)

lemma workTasks_start : (start query taskQueueSize : Engine β).workTasks = [] := by
  rw [workTasks, tasks_start, activities_start, List.filterMap_map]
  simp [Function.comp_def, Task.work?]

lemma holds_of_referenced_start {p : PipelineId} (h : (start query taskQueueSize : Engine β).Referenced p) :
    (start query taskQueueSize : Engine β).plan.Holds p := by
  rcases h with h | ⟨task, htask, hp⟩ | ⟨activity, hactivity, _⟩
  · exact h
  · rw [tasks_start] at htask
    rcases List.mem_map.1 htask with ⟨q, _, rfl⟩
    cases hp
  · rw [activities_start] at hactivity
    cases hactivity

lemma owned_start : (start query taskQueueSize : Engine β).ledger.Owned where
  referenced_mem p hp := by
    rcases holds_of_referenced_start hp with ⟨s, hs, _, hmem⟩ | ⟨m, hm, _, hmem⟩
    · exact query.sourceSuccessors_mem s hs p hmem
    · exact query.successors_mem m hm p hmem
  referenced_shared _ _ := rfl
  stopping_mem p hp := absurd hp (by simp [ledger, start])
  stopTasks_le p := by
    have hzero : (start query taskQueueSize : Engine β).ledger.stopTasks p = 0 := by
      have htasks : ∀ task ∈ (start query taskQueueSize : Engine β).tasks, ¬ task.isStopOf p = true := by
        intro task htask
        rw [tasks_start] at htask
        rcases List.mem_map.1 htask with ⟨q, _, rfl⟩
        exact Bool.false_ne_true
      have hactivities : ∀ activity ∈ (start query taskQueueSize : Engine β).activities,
          ¬ activity.isStopOf p = true := by
        intro activity hactivity
        rw [activities_start] at hactivity
        cases hactivity
      show countP _ _ + countP _ _ = 0
      rw [countP_eq_zero.2 htasks, countP_eq_zero.2 hactivities]
    rw [hzero]
    exact Nat.zero_le _

lemma accounting_start : (start query taskQueueSize : Engine β).Accounting := by
  intro p _
  rw [numberOfWorkTasks, workTasks_start]
  rfl

/-! ## Steps -/

def workOfFrame (e : Engine β) (i : Nat) : List (WorkTask β) :=
  match e.frames[i]? with
  | some frame => frame.tasks.filterMap Task.work?
  | none => []

/-- The event does not make work tasks of nodes that are alive disappear. -/
def KeepsWork (e : Engine β) : Event β → Prop
  | .throwAdding i => ∀ work ∈ e.workOfFrame i, ¬ (e.removeFrame i).Referenced work.pipeline
  | _ => True

instance (e : Engine β) : (event : Event β) → Decidable (e.KeepsWork event)
  | .throwAdding i =>
    inferInstanceAs (Decidable (∀ work ∈ e.workOfFrame i, ¬ (e.removeFrame i).Referenced work.pipeline))
  | .emitFromSource _ _ _ | .endOfStream _ | .sourceError _ | .exitSource _ | .requestStop | .startSources
  | .pollAdmission | .runNext | .storeHand _ | .runHand _ | .writeAdding _ | .nextAdding _ | .missAdding _
  | .emit _ _ _ _ | .complete _ | .fail _ | .reportFailure _ | .release _ => isTrue trivial

variable {event : Event β}

lemma owned_step (henabled : e.Enabled event) (h : e.step event = some e')
    (howned : e.ledger.Owned) : e'.ledger.Owned := by
  rcases step_refines henabled h with hsame | hstep
  · rw [hsame]
    exact howned
  · exact hstep.owned howned

variable {task : Task β} {taken : List (Task β)}

/-- What `addTaskOrDoNextTask` drops is missing in the count, and nowhere else. -/
lemma numberOfWorkTasks_removeFrame {i : Nat} {level : Nat}
    (hframe : e.frames[i]? = some (.adding task taken level)) (p : PipelineId) :
    e.numberOfWorkTasks p = ((task :: taken).filterMap Task.work?).countP (fun work => work.pipeline = p)
      + (e.removeFrame i).numberOfWorkTasks p := by
  rw [← pendingWork_ledger, ← pendingWork_ledger, Ledger.pendingWork, Ledger.works, e.ledger_removeFrame hframe]
  show countP _ (filterMap Task.work? (_ + _) + filterMap Activity.work? (_ + _)) = _
  rw [Multiset.filterMap_add, Multiset.filterMap_add, Multiset.add_assoc, Multiset.countP_add]
  refine congrArg₂ (· + ·) rfl ?_
  exact congrArg _ (congrArg (_ + ·) (Multiset.zero_add _))

lemma accounting_throwAdding_iff {i : Nat} {level : Nat}
    (hframe : e.frames[i]? = some (.adding task taken level)) (h : e.Accounting) :
    (e.removeFrame i).Accounting ↔ e.KeepsWork (.throwAdding i) := by
  have hold : ∀ p, (e.removeFrame i).Referenced p → e.Referenced p := by
    intro p hp
    rcases hp with hp | ⟨t, ht, hp⟩ | ⟨a, ha, hp⟩
    · exact .inl hp
    · refine .inr (.inl ⟨t, ?_, hp⟩)
      have hmem : t ∈ e.ledger.tasks := by
        rw [e.ledger_removeFrame hframe]
        exact mem_add.2 (.inr ht)
      exact hmem
    · refine .inr (.inr ⟨a, ?_, hp⟩)
      have hmem : a ∈ e.ledger.activities := by
        rw [e.ledger_removeFrame hframe]
        exact mem_add.2 (.inr ha)
      exact hmem
  have hdropped : e.workOfFrame i = (task :: taken).filterMap Task.work? := by
    unfold workOfFrame
    rw [hframe]
    rfl
  constructor
  · intro hafter work hwork hp
    rw [hdropped] at hwork
    -- the counter still counts the dropped task
    have hpos : 0 < ((task :: taken).filterMap Task.work?).countP (fun w => w.pipeline = work.pipeline) :=
      List.countP_pos_iff.2 ⟨work, hwork, by simp⟩
    have hbefore := h work.pipeline (hold _ hp)
    have hnow := hafter work.pipeline hp
    rw [numberOfWorkTasks_removeFrame hframe] at hbefore
    have hsame : ((e.removeFrame i).plan.node work.pipeline).pendingTasks
        = (e.plan.node work.pipeline).pendingTasks := rfl
    omega
  · intro hkeeps p hp
    have hzero : ((task :: taken).filterMap Task.work?).countP (fun w => w.pipeline = p) = 0 := by
      refine List.countP_eq_zero.2 ?_
      intro work hwork heq
      refine hkeeps work (by rw [hdropped]; exact hwork) ?_
      rw [decide_eq_true_iff.1 heq]
      exact hp
    have hbefore := h p (hold p hp)
    rw [numberOfWorkTasks_removeFrame hframe, hzero, Nat.zero_add] at hbefore
    exact hbefore

lemma label_eq_tooMuchWork (h : e.label event = .tooMuchWork) : ∃ i, event = .throwAdding i := by
  have htask : ∀ task : Task β, task.label ≠ .tooMuchWork := by
    intro task
    cases task <;> simp [Task.label]
  cases event with
  | throwAdding i => exact ⟨i, rfl⟩
  | runNext =>
    simp only [label] at h
    split at h
    case h_1 => cases h
    case h_2 task _ _ => exact absurd h (htask task)
  | runHand i =>
    simp only [label] at h
    split at h
    case h_1 task _ => exact absurd h (htask task)
    case h_2 => cases h
  | exitSource s =>
    simp only [label] at h
    split at h <;> cases h
  | _ => cases h

lemma accounting_step_iff (henabled : e.Enabled event) (h : e.step event = some e')
    (howned : e.ledger.Owned) (haccounting : e.Accounting) : e'.Accounting ↔ e.KeepsWork event := by
  by_cases hlabel : e.label event = .tooMuchWork
  · rcases label_eq_tooMuchWork hlabel with ⟨i, rfl⟩
    rcases henabled.exists with ⟨task, taken, level, hframe, _⟩
    rw [← Option.some.inj h]
    exact accounting_throwAdding_iff hframe haccounting
  · have hkeeps : e.KeepsWork event := by
      cases event with
      | throwAdding i => exact absurd rfl hlabel
      | _ => trivial
    refine iff_of_true ?_ hkeeps
    rcases step_refines henabled h with hsame | hstep
    · rw [← accounting_ledger, hsame]
      exact haccounting
    · exact hstep.accounting hlabel howned haccounting

/-! ## No `INVARIANT` fails -/

/-- The counter of a node that is alive is not too low. -/
def Counted (e : Engine β) : Prop :=
  ∀ p, e.Referenced p → e.numberOfWorkTasks p ≤ (e.plan.node p).pendingTasks

lemma Accounting.counted (h : e.Accounting) : e.Counted := fun p hp => (h p hp).ge

lemma pendingTasks_nonneg (h : e.Counted) {p : PipelineId} (hp : e.Referenced p) :
    0 ≤ (e.plan.node p).pendingTasks :=
  (Int.natCast_nonneg _).trans (h p hp)

lemma visit_isSome {alive : PipelineId → Bool}
    (h : ∀ p ∈ task.references, 0 ≤ (e.plan.node p).pendingTasks) : (e.visit alive task).isSome := by
  cases task with
  | pendingPipelineStop p attempts =>
    have hnonneg : ¬ (e.plan.node p).pendingTasks < 0 := by
      have := h p (List.mem_singleton.2 rfl)
      omega
    simp only [visit, if_neg hnonneg]
    split
    case isTrue => rfl
    case isFalse => split <;> rfl
  | work task | startPipeline p | failSource s => simp only [visit]; split <;> rfl
  | stopPipeline p => rfl
  | stopSource s => simp only [visit]; split <;> [split <;> rfl; rfl]
  | stopQuery => rfl

lemma reduceReferenceCount_isSome {i : Nat} {task : WorkTask β} (h : e.Counted)
    (hframe : e.frames[i]? = some (.running (.executing task))) :
    ((e.removeFrame i).reduceReferenceCount task).isSome := by
  have hmem := mem_activities hframe
  have hcount : e.numberOfWorkTasks task.pipeline ≤ (e.plan.node task.pipeline).pendingTasks :=
    h _ (.inr (.inr ⟨_, hmem, List.mem_singleton.2 rfl⟩))
  have hpos : 0 < e.numberOfWorkTasks task.pipeline := by
    refine List.countP_pos_iff.2 ⟨task, List.mem_append.2 (.inr ?_), by simp⟩
    exact List.mem_filterMap.2 ⟨_, hmem, rfl⟩
  have hplan : (e.removeFrame i).plan = e.plan := rfl
  unfold reduceReferenceCount
  rw [hplan]
  split
  case isTrue =>
    rw [if_neg (by omega)]
    rfl
  case isFalse => rfl

lemma step_isSome (henabled : e.Enabled event) (h : e.Counted) : (e.step event).isSome := by
  cases event with
  | runNext =>
    cases hqueue : e.internalTaskQueue with
    | nil => exact absurd hqueue henabled
    | cons task rest =>
      simp only [step, hqueue]
      refine visit_isSome (fun p hp => ?_)
      have hmem : task ∈ e.tasks := by simp [tasks, hqueue]
      exact pendingTasks_nonneg h (.inr (.inl ⟨task, hmem, hp⟩))
  | storeHand i =>
    rcases henabled.1.exists with ⟨task, hframe⟩
    simp [step, hframe]
  | runHand i =>
    rcases henabled.1.exists with ⟨task, hframe⟩
    simp only [step, hframe]
    refine visit_isSome (fun p hp => ?_)
    have hmem : task ∈ e.ledger.tasks := by
      rw [e.ledger_removeFrame hframe]
      exact mem_add.2 (.inl (mem_coe.2 (List.mem_singleton.2 rfl)))
    exact pendingTasks_nonneg h (.inr (.inl ⟨task, hmem, hp⟩))
  | writeAdding i | missAdding i =>
    rcases henabled.1.exists with ⟨task, taken, level, hframe, _⟩
    simp [step, hframe]
  | nextAdding i =>
    rcases henabled.1.exists with ⟨task, taken, level, hframe, _⟩
    cases hqueue : e.internalTaskQueue with
    | nil => exact absurd hqueue henabled.2.2
    | cons next rest => simp [step, hframe, hqueue]
  | emit i q b policy =>
    rcases henabled.exists with ⟨activity, hframe, _⟩
    simp [step, hframe]
  | complete i =>
    rcases henabled.exists with ⟨activity, hframe, hactivity⟩
    simp only [step, hframe]
    cases activity with
    | executing task =>
      simp only [completeTask, Option.isSome_map]
      exact reduceReferenceCount_isSome h hframe
    | starting p => simp only [completeTask]; split <;> rfl
    | stopping p => rfl
    | failing p k => cases hactivity
  | fail i =>
    rcases henabled.exists with ⟨activity, hframe, hactivity⟩
    simp only [step, hframe]
    cases activity with
    | executing task =>
      simp only [failTask, Option.isSome_map]
      exact reduceReferenceCount_isSome h hframe
    | starting p => rfl
    | stopping p => rfl
    | failing p k => cases hactivity
  | reportFailure i =>
    rcases henabled.exists with ⟨activity, hframe, hactivity⟩
    cases activity with
    | failing p k => simp [step, hframe]
    | _ => cases hactivity
  | release p => simp only [step]; split <;> rfl
  | _ => rfl

/-! ## Runs -/

lemma accounting_of_reachable
    (h : Reachable (start query taskQueueSize) (fun e event => e.Enabled event ∧ e.KeepsWork event) step e) :
    e.ledger.Owned ∧ e.Accounting := by
  refine h.invariant (fun e => e.ledger.Owned ∧ e.Accounting) ⟨owned_start, accounting_start⟩ ?_
  rintro s event s' ⟨howned, haccounting⟩ ⟨henabled, hkeeps⟩ hstep
  exact ⟨owned_step henabled hstep howned, (accounting_step_iff henabled hstep howned haccounting).2 hkeeps⟩

/-- In every run in which no work task of a node that is alive is dropped, the counter of every such node is the
number of its work tasks, it is not negative, and no `INVARIANT` fails.  The first event that drops one breaks
the accounting. -/
theorem pending_tasks_accounting (query : ExecutableQueryPlan) (taskQueueSize : Nat) (e : Engine β)
    (h : Reachable (start query taskQueueSize) (fun e event => e.Enabled event ∧ e.KeepsWork event) step e) :
    (∀ p, e.Referenced p → (e.plan.node p).pendingTasks = e.numberOfWorkTasks p ∧ 0 ≤ (e.plan.node p).pendingTasks)
      ∧ (∀ event, e.Enabled event → (e.step event).isSome)
      ∧ (∀ event e', e.Enabled event → e.step event = some e' → (e'.Accounting ↔ e.KeepsWork event)) := by
  rcases accounting_of_reachable h with ⟨howned, haccounting⟩
  refine ⟨?_, ?_, ?_⟩
  · intro p hp
    exact ⟨haccounting p hp, pendingTasks_nonneg haccounting.counted hp⟩
  · intro event henabled
    exact step_isSome henabled haccounting.counted
  · intro event e' henabled hstep
    exact accounting_step_iff henabled hstep howned haccounting

def twoSources : ExecutableQueryPlan where
  pipelines := [0]
  successors := fun _ => []
  origins := [0, 1]
  sourceSuccessors := fun _ => [0]
  successors_mem := by simp
  sourceSuccessors_mem := by simp
  fed := by simp

/-- The pipeline is started, then the sources, and source 1 emits a buffer. -/
def startAndEmit : List (Event Unit) :=
  [.writeAdding 0, .runNext, .complete 0, .startSources, .emitFromSource 1 0 ()]

theorem pending_tasks_accounting_startAndEmit : ∃ e : Engine Unit,
      Reachable (start twoSources 1) (fun e event => e.Enabled event ∧ e.KeepsWork event) step e
        ∧ e.Referenced 0 ∧ e.numberOfWorkTasks 0 = 1
        ∧ ((e.plan.node 0).pendingTasks = e.numberOfWorkTasks 0 ∧ 0 ≤ (e.plan.node 0).pendingTasks) := by
  have hrun : ∃ e, runGuarded (fun (e : Engine Unit) event => e.Enabled event ∧ e.KeepsWork event) step
      (start twoSources 1) startAndEmit = some e ∧ e.Referenced 0 ∧ e.numberOfWorkTasks 0 = 1 :=
    ⟨_, rfl, by decide, by decide⟩
  rcases hrun with ⟨e, hrun, hreferenced, hone⟩
  have hreachable := Reachable.initial.of_runGuarded hrun
  exact ⟨e, hreachable, hreferenced, hone, (pending_tasks_accounting twoSources 1 e hreachable).1 0 hreferenced⟩

/-! ## Too much work -/

/-- A worker that tries to put the pending stop of pipeline 0 back into a queue of size 1, on stack level `k`. -/
def overrun (plan : RunningQueryPlan) (k : Nat) (accepted : List (WorkTask Unit)) : Engine Unit where
  plan := plan
  taskQueueSize := 1
  admissionQueue := []
  internalTaskQueue := [.work ⟨0, (), false⟩]
  frames := [.adding (.pendingPipelineStop 0 1) (List.replicate k (.work ⟨0, (), false⟩)) k]
  accepted := accepted
  executed := []

/-- Source 0 ends, so that there is a pending stop for pipeline 0, while a buffer of source 1 is waiting. -/
def startOverrun : List (Event Unit) :=
  [.writeAdding 0, .runNext, .complete 0, .startSources, .endOfStream 0, .exitSource 0,
    .emitFromSource 1 0 (), .pollAdmission, .storeHand 0, .runNext, .writeAdding 0, .runNext,
    .pollAdmission, .storeHand 1]

/-- The worker takes the work task from the queue; before it can write its own task, source 1 emits another
buffer, and another worker moves it into the queue. -/
lemma overrun_next {plan : RunningQueryPlan} {k : Nat} {accepted : List (WorkTask Unit)} (hk : k < maxStackLevel)
    (horigins : plan.origins = [0, 1]) (hsource : plan.source 1 = ⟨[0], .running⟩) :
    Reachable (overrun plan k accepted) Enabled step
      (overrun (plan.addPending 0 1) (k + 1) (accepted ++ [⟨0, (), false⟩])) := by
  have hmem : 1 ∈ plan.origins := by rw [horigins]; decide
  have hrunning : (plan.source 1).status = .running := by rw [hsource]
  have hsuccessor : 0 ∈ (plan.source 1).successors := by rw [hsource]; decide
  have hinitial : Reachable (overrun plan k accepted) Enabled step (overrun plan k accepted) := .initial
  have htaken := hinitial.extend (Event.nextAdding 0) ⟨decide_eq_true hk, Nat.le_refl 1, List.cons_ne_nil _ _⟩ rfl
  have hemitted := htaken.extend (Event.emitFromSource 1 0 ()) ⟨hmem, .inl hrunning, hsuccessor⟩ rfl
  have hpolled := hemitted.extend Event.pollAdmission (List.cons_ne_nil _ _) rfl
  have hstored := hpolled.extend (Event.storeHand 1) ⟨rfl, Nat.not_succ_le_zero 0⟩ rfl
  have hreplicate : .replicate k (Task.work (⟨0, (), false⟩ : WorkTask Unit)) ++ [.work ⟨0, (), false⟩]
      = .replicate (k + 1) (.work ⟨0, (), false⟩) := List.replicate_succ'.symm
  have hstate : overrun (plan.addPending 0 1) (k + 1) (accepted ++ [⟨0, (), false⟩])
      = { overrun (plan.addPending 0 1) k (accepted ++ [⟨0, (), false⟩]) with
          frames := [.adding (.pendingPipelineStop 0 1)
            (.replicate k (.work ⟨0, (), false⟩) ++ [.work ⟨0, (), false⟩]) (k + 1)] } := by
    rw [hreplicate]
    rfl
  rw [hstate]
  exact hstored

lemma overrun_reachable {k : Nat} (hk : k ≤ maxStackLevel) :
    ∃ plan accepted, Reachable (start twoSources 1) Enabled step (overrun plan k accepted)
      ∧ plan.origins = [0, 1] ∧ plan.source 1 = ⟨[0], .running⟩ ∧ (plan.node 0).pendingTasks = k + 1 := by
  induction k with
  | zero =>
    have hrun : ∃ plan accepted, runGuarded Enabled step (start twoSources 1) startOverrun
        = some (overrun plan 0 accepted)
        ∧ plan.origins = [0, 1] ∧ plan.source 1 = ⟨[0], .running⟩ ∧ (plan.node 0).pendingTasks = 1 :=
      ⟨_, _, rfl, rfl, rfl, rfl⟩
    rcases hrun with ⟨plan, accepted, hrun, hplan⟩
    exact ⟨plan, accepted, Reachable.initial.of_runGuarded hrun, hplan⟩
  | succ k ih =>
    rcases ih (Nat.le_of_lt hk) with ⟨plan, accepted, hreachable, horigins, hsource, hpending⟩
    refine ⟨plan.addPending 0 1, _, hreachable.trans (overrun_next hk horigins hsource), horigins, hsource, ?_⟩
    rw [RunningQueryPlan.pendingTasks_addPending, hpending, if_pos rfl]
    push_cast
    rfl

/-- After 5000 attempts `addTaskOrDoNextTask` gives up.  The 5000 work tasks it has taken are gone, but pipeline
0, which source 1 still feeds, counts them for ever. -/
theorem tooMuchWork_drops_counted_tasks :
    ∃ e : Engine Unit, Reachable (start twoSources 1) Enabled step e ∧ e.Referenced 0
      ∧ (e.plan.node 0).pendingTasks = 5001 ∧ e.numberOfWorkTasks 0 = 1 := by
  rcases overrun_reachable (Nat.le_refl maxStackLevel) with ⟨plan, accepted, hreachable, horigins, hsource, hpending⟩
  have henabled : (overrun plan maxStackLevel accepted).Enabled (.throwAdding 0) :=
    decide_eq_true (Nat.le_refl maxStackLevel)
  refine ⟨_, .step hreachable henabled rfl, .inl (.inl ⟨1, ?_, ?_, ?_⟩), hpending, rfl⟩
  · show 1 ∈ plan.origins
    rw [horigins]
    decide
  · show (plan.source 1).status.IsAlive
    rw [hsource]
    decide
  · show 0 ∈ (plan.source 1).successors
    rw [hsource]
    decide

end Engine

end MobilityNebula.QueryEngine
