import MobilityNebula.QueryEngine.ThreadPool
import Mathlib.Data.Multiset.Filter

/-!
# Ledger — which tasks exist and who refers to which node

For the questions of who stops when, it does not matter where a task waits and in which order tasks are
executed.  The ledger of an engine forgets the queues and the stacks of the workers: it keeps the bag of all
tasks, the bag of what the workers are executing, and the nodes and sources of the plan.

`Ledger.Step` lists all that can happen to a ledger.  What a step does to the references and to the work
tasks is said once (`Step.referenced`, `Step.works`); the invariants are derived from that.
-/

namespace MobilityNebula.QueryEngine

open RunningQueryPlan Multiset

variable {β : Type}

structure Ledger (β : Type) where
  plan : RunningQueryPlan
  tasks : Multiset (Task β)
  activities : Multiset (Activity β)
  accepted : Multiset (WorkTask β)
  executed : Multiset (WorkTask β)

namespace Ledger

/-! ## References and work -/

variable (L : Ledger β)

/-- Somebody holds a strong reference to node `p`; locking a weak pointer to it succeeds. -/
def Referenced (p : PipelineId) : Prop :=
  L.plan.Holds p ∨ (∃ task ∈ L.tasks, p ∈ task.references) ∨ (∃ activity ∈ L.activities, p ∈ activity.references)

def works : Multiset (WorkTask β) :=
  L.tasks.filterMap Task.work? + L.activities.filterMap Activity.work?

def pendingWork (p : PipelineId) : Nat := L.works.countP (fun task => task.pipeline = p)

/-- A source thread, a running work task or a pipeline that is being stopped may emit the task. -/
def MayEmit (task : WorkTask β) : Prop :=
  (∃ s ∈ L.plan.origins, ((L.plan.source s).status = .running ∨ (L.plan.source s).status = .closing)
      ∧ task.pipeline ∈ (L.plan.source s).successors ∧ task.keepsAlive = false)
    ∨ (∃ v : WorkTask β, .executing v ∈ L.activities
      ∧ (task.pipeline = v.pipeline ∨ task.pipeline ∈ (L.plan.node v.pipeline).successors)
      ∧ task.keepsAlive = false)
    ∨ (∃ m, .stopping m ∈ L.activities ∧ task.pipeline ∈ (L.plan.node m).successors)

open Classical in
/-- The reference count reducer of a work task that is over: the counter is lowered if the node is still
alive once the visitor has let go of it. -/
noncomputable def reduced (task : WorkTask β) (activities : Multiset (Activity β)) : RunningQueryPlan :=
  if task.keepsAlive = true ∨ ({ L with activities := activities } : Ledger β).Referenced task.pipeline then
    L.plan.addPending task.pipeline (-1)
  else
    L.plan

open Classical in
/-- The completion callback of a `StartPipelineTask`. -/
noncomputable def started (p : PipelineId) (activities : Multiset (Activity β)) : RunningQueryPlan :=
  if ({ L with activities := activities } : Ledger β).Referenced p then L.plan.setRequiresTermination p true
  else L.plan

/-- One pending stop for each successor. -/
def pendingStops (successors : List PipelineId) : Multiset (Task β) :=
  (successors.map fun q => Task.pendingPipelineStop q 0 : List (Task β))

/-! ## Steps -/

inductive Label where
  | ordinary
  /-- The destructor of a source has joined its thread. -/
  | closed (source : OriginId)
  /-- A stop of the query is requested or carried out. -/
  | stopQuery
  /-- A task or a source fails, or the query learns about it. -/
  | failure
  /-- `addTaskOrDoNextTask` gives up. -/
  | tooMuchWork
  deriving DecidableEq

inductive Step (L : Ledger β) : Label → Ledger β → Prop where
  | accept {task : WorkTask β} (hemit : L.MayEmit task) :
      Step L .ordinary { L with
        plan := L.plan.addPending task.pipeline 1
        tasks := .work task ::ₘ L.tasks
        accepted := task ::ₘ L.accepted }
  | beginWork {task : WorkTask β} {T : Multiset (Task β)} (htasks : L.tasks = .work task ::ₘ T)
      (hreferenced : L.Referenced task.pipeline) :
      Step L .ordinary { L with tasks := T, activities := .executing task ::ₘ L.activities }
  | expireWork {task : WorkTask β} {T : Multiset (Task β)} (htasks : L.tasks = .work task ::ₘ T)
      (hreferenced : ¬ L.Referenced task.pipeline) : Step L .ordinary { L with tasks := T }
  | finishWork {task : WorkTask β} {A : Multiset (Activity β)} (hactivities : L.activities = .executing task ::ₘ A) :
      Step L .ordinary { L with
        plan := L.reduced task A
        activities := A
        executed := task ::ₘ L.executed }
  | failWork {task : WorkTask β} {A : Multiset (Activity β)} (hactivities : L.activities = .executing task ::ₘ A) :
      Step L .failure { L with
        plan := L.reduced task A
        activities := .failing task.pipeline task.keepsAlive ::ₘ A
        executed := task ::ₘ L.executed }
  | beginStart {p : PipelineId} {T : Multiset (Task β)} (htasks : L.tasks = .startPipeline p ::ₘ T)
      (hreferenced : L.Referenced p) :
      Step L .ordinary { L with tasks := T, activities := .starting p ::ₘ L.activities }
  | expireStart {p : PipelineId} {T : Multiset (Task β)} (htasks : L.tasks = .startPipeline p ::ₘ T)
      (hreferenced : ¬ L.Referenced p) : Step L .ordinary { L with tasks := T }
  | finishStart {p : PipelineId} {A : Multiset (Activity β)} (hactivities : L.activities = .starting p ::ₘ A) :
      Step L .ordinary { L with plan := L.started p A, activities := A }
  | failStart {p : PipelineId} {A : Multiset (Activity β)} (hactivities : L.activities = .starting p ::ₘ A) :
      Step L .failure { L with activities := .failing p false ::ₘ A }
  | dropPendingStop {p : PipelineId} {attempts : Nat} {T : Multiset (Task β)}
      (htasks : L.tasks = .pendingPipelineStop p attempts ::ₘ T)
      (hdone : (L.plan.node p).requiresTermination = false ∨ (L.plan.node p).pendingTasks = 0) :
      Step L .ordinary { L with tasks := T }
  | retryPendingStop {p : PipelineId} {attempts : Nat} {T : Multiset (Task β)}
      (htasks : L.tasks = .pendingPipelineStop p attempts ::ₘ T) :
      Step L .ordinary { L with tasks := .pendingPipelineStop p (attempts + 1) ::ₘ T }
  | beginStop {p : PipelineId} {T : Multiset (Task β)} (htasks : L.tasks = .stopPipeline p ::ₘ T) :
      Step L .ordinary { L with tasks := T, activities := .stopping p ::ₘ L.activities }
  | finishStop {p : PipelineId} {A : Multiset (Activity β)} (hactivities : L.activities = .stopping p ::ₘ A) :
      Step L .ordinary { L with
        plan := L.plan.destroy p .stopped
        tasks := pendingStops (L.plan.node p).successors + L.tasks
        activities := A }
  | failStop {p : PipelineId} {A : Multiset (Activity β)} (hactivities : L.activities = .stopping p ::ₘ A)
      (alive : PipelineId → Bool) :
      Step L .failure { L with plan := (L.plan.destroy p .discarded).dispose alive, activities := A }
  | release {p : PipelineId} (hmem : p ∈ L.plan.pipelines) (hshared : (L.plan.node p).status = .shared)
      (hreferenced : ¬ L.Referenced p) (htermination : (L.plan.node p).requiresTermination = true) :
      Step L .ordinary { L with plan := L.plan.setStatus p .stopping, tasks := .stopPipeline p ::ₘ L.tasks }
  | discard {p : PipelineId} (hmem : p ∈ L.plan.pipelines) (hshared : (L.plan.node p).status = .shared)
      (hreferenced : ¬ L.Referenced p) (htermination : (L.plan.node p).requiresTermination = false) :
      Step L .ordinary { L with plan := L.plan.setStatus p .discarded }
  | startSources (hstate : L.plan.state = .starting) (htasks : ∀ p, .startPipeline p ∉ L.tasks)
      (hactivities : ∀ p, .starting p ∉ L.activities) :
      Step L .ordinary { L with plan := L.plan.startSources }
  | endOfStream {s : OriginId} (hmem : s ∈ L.plan.origins) (hsource : (L.plan.source s).status = .running) :
      Step L .ordinary { L with plan := L.plan.setSource s .endOfStream, tasks := .stopSource s ::ₘ L.tasks }
  | error {s : OriginId} (hmem : s ∈ L.plan.origins) (hsource : (L.plan.source s).status = .running) :
      Step L .failure { L with plan := L.plan.setSource s .endOfStream, tasks := .failSource s ::ₘ L.tasks }
  | exit {s : OriginId} (hmem : s ∈ L.plan.origins) (hsource : (L.plan.source s).status = .endOfStream) :
      Step L .ordinary { L with plan := L.plan.setSource s .exited }
  | close {s : OriginId} (hmem : s ∈ L.plan.origins) (hsource : (L.plan.source s).status = .closing) :
      Step L (.closed s) { L with plan := L.plan.setSource s .closed }
  | unregister {s : OriginId} {T : Multiset (Task β)} (htasks : L.tasks = .stopSource s ::ₘ T)
      (hmem : s ∈ L.plan.origins) (hsource : (L.plan.source s).status = .exited) :
      Step L .ordinary { L with
        plan := L.plan.setSource s .unregistered
        tasks := pendingStops (L.plan.source s).successors + T }
  | dropStopSource {s : OriginId} {T : Multiset (Task β)} (htasks : L.tasks = .stopSource s ::ₘ T) :
      Step L .ordinary { L with tasks := T }
  | requestStop : Step L .stopQuery { L with tasks := .stopQuery ::ₘ L.tasks }
  | stopQuery {T : Multiset (Task β)} (htasks : L.tasks = .stopQuery ::ₘ T) :
      Step L .stopQuery { L with plan := L.plan.stop, tasks := T }
  | failSource {s : OriginId} {T : Multiset (Task β)} (htasks : L.tasks = .failSource s ::ₘ T)
      (alive : PipelineId → Bool) : Step L .failure { L with plan := L.plan.dispose alive, tasks := T }
  | dropFailSource {s : OriginId} {T : Multiset (Task β)} (htasks : L.tasks = .failSource s ::ₘ T) :
      Step L .failure { L with tasks := T }
  | reportFailure {p : PipelineId} {k : Bool} {A : Multiset (Activity β)}
      (hactivities : L.activities = .failing p k ::ₘ A) (alive : PipelineId → Bool) :
      Step L .failure { L with plan := L.plan.dispose alive, activities := A }
  | dropFailure {p : PipelineId} {k : Bool} {A : Multiset (Activity β)}
      (hactivities : L.activities = .failing p k ::ₘ A) : Step L .failure { L with activities := A }
  | tooMuchWork {T : Multiset (Task β)} (htasks : T ≤ L.tasks) : Step L .tooMuchWork { L with tasks := T }

/-! ## References -/

lemma mem_of_eq_cons {α : Type} {a x : α} {S T : Multiset α} (h : S = a ::ₘ T) (hx : x ∈ T) : x ∈ S := by
  rw [h]
  exact mem_cons_of_mem hx

lemma mem_self_of_eq_cons {α : Type} {a : α} {S T : Multiset α} (h : S = a ::ₘ T) : a ∈ S := by
  rw [h]
  exact mem_cons_self a T

variable {L} {p : PipelineId}

lemma referenced_of_task {task : Task β} (htask : task ∈ L.tasks) (hp : p ∈ task.references) : L.Referenced p :=
  .inr (.inl ⟨task, htask, hp⟩)

lemma referenced_of_activity {activity : Activity β}
    (hactivity : activity ∈ L.activities) (hp : p ∈ activity.references) : L.Referenced p :=
  .inr (.inr ⟨activity, hactivity, hp⟩)

lemma Referenced.mono {L' : Ledger β} (h : L'.Referenced p) (hplan : L'.plan.Holds p → L.Referenced p)
    (htasks : ∀ task ∈ L'.tasks, p ∈ task.references → L.Referenced p)
    (hactivities : ∀ activity ∈ L'.activities, p ∈ activity.references → L.Referenced p) : L.Referenced p := by
  rcases h with h | ⟨task, htask, hp⟩ | ⟨activity, hactivity, hp⟩
  · exact hplan h
  · exact htasks task htask hp
  · exact hactivities activity hactivity hp

lemma evolves_reduced (L : Ledger β) (task : WorkTask β) (A : Multiset (Activity β)) :
    L.plan.Evolves (L.reduced task A) := by
  unfold reduced
  split
  case isTrue => exact evolves_addPending _ _
  case isFalse => exact .refl _

lemma evolves_started (L : Ledger β) (p : PipelineId) (A : Multiset (Activity β)) : L.plan.Evolves (L.started p A) := by
  unfold started
  split
  case isTrue => exact evolves_setRequiresTermination _ _
  case isFalse => exact .refl _

lemma Step.evolves {L' : Ledger β} {label : Label} (h : Step L label L') : L.plan.Evolves L'.plan := by
  cases h with
  | accept _ => exact evolves_addPending _ _
  | finishWork _ | failWork _ => exact L.evolves_reduced _ _
  | finishStart _ => exact L.evolves_started _ _
  | finishStop _ => exact evolves_destroy _ (by decide)
  | failStop _ alive =>
    exact (evolves_destroy _ (by decide)).trans (evolves_dispose alive)
  | release _ hshared _ _ | discard _ hshared _ _ => exact evolves_setStatus (fun _ => .inl hshared)
  | startSources _ _ _ => exact evolves_startSources
  | endOfStream _ hsource | error _ hsource | exit _ hsource | close _ hsource | unregister _ _ hsource =>
    exact evolves_setSource (fun _ => by rw [hsource]; decide)
  | stopQuery _ => exact evolves_stop
  | failSource _ alive | reportFailure _ alive => exact evolves_dispose alive
  | _ => exact .refl _

/-! ## Ownership -/

end Ledger

def Task.isStopOf (p : PipelineId) : Task β → Bool
  | .stopPipeline q => q = p
  | _ => false

def Activity.isStopOf (p : PipelineId) : Activity β → Bool
  | .stopping q => q = p
  | _ => false

@[simp] lemma Task.isStopOf_iff {p : PipelineId} {task : Task β} : task.isStopOf p = true ↔ task = .stopPipeline p := by
  cases task <;> simp [isStopOf]

@[simp] lemma Activity.isStopOf_iff {p : PipelineId} {activity : Activity β} :
    activity.isStopOf p = true ↔ activity = .stopping p := by
  cases activity <;> simp [isStopOf]

namespace Ledger

def stopTasks (L : Ledger β) (p : PipelineId) : Nat :=
  L.tasks.countP (fun task => task.isStopOf p = true)
    + L.activities.countP (fun activity => activity.isStopOf p = true)

lemma stopTasks_pos {L : Ledger β} {p : PipelineId} :
    0 < L.stopTasks p ↔ .stopPipeline p ∈ L.tasks ∨ .stopping p ∈ L.activities := by
  rw [stopTasks, Nat.add_pos_iff_pos_or_pos, countP_pos, countP_pos]
  simp

/-- A node with references is owned by them; one without is owned by at most one `StopPipelineTask`. -/
structure Owned (L : Ledger β) : Prop where
  referenced_mem : ∀ p, L.Referenced p → p ∈ L.plan.pipelines
  referenced_shared : ∀ p, L.Referenced p → (L.plan.node p).status = .shared
  stopping_mem : ∀ p, (L.plan.node p).status = .stopping → p ∈ L.plan.pipelines
  stopTasks_le : ∀ p, L.stopTasks p ≤ if (L.plan.node p).status = .stopping then 1 else 0

namespace Owned

variable {L : Ledger β}
variable {p : PipelineId}

lemma stopping_of_pos (hL : L.Owned) (h : 0 < L.stopTasks p) : (L.plan.node p).status = .stopping := by
  by_contra hstatus
  have hle := hL.stopTasks_le p
  rw [if_neg hstatus] at hle
  omega

lemma stopping_of_activity (hL : L.Owned) (h : .stopping p ∈ L.activities) : (L.plan.node p).status = .stopping :=
  hL.stopping_of_pos (stopTasks_pos.2 (.inr h))

lemma stopping_of_task (hL : L.Owned) (h : .stopPipeline p ∈ L.tasks) : (L.plan.node p).status = .stopping :=
  hL.stopping_of_pos (stopTasks_pos.2 (.inl h))

lemma not_referenced_of_stopping (hL : L.Owned) (h : (L.plan.node p).status = .stopping) : ¬ L.Referenced p := by
  intro hreferenced
  rw [hL.referenced_shared p hreferenced] at h
  cases h

variable {q : PipelineId}

lemma referenced_of_successor (hmem : p ∈ L.plan.pipelines)
    (halive : (L.plan.node p).status.IsAlive) (hq : q ∈ (L.plan.node p).successors) : L.plan.Holds q :=
  .inr ⟨p, hmem, halive, hq⟩

lemma holds_of_stopping (hL : L.Owned) (h : .stopping p ∈ L.activities)
    (hq : q ∈ (L.plan.node p).successors) : L.plan.Holds q :=
  have hstatus := hL.stopping_of_activity h
  referenced_of_successor (hL.stopping_mem p hstatus) (.inr hstatus) hq

lemma holds_of_executing (hL : L.Owned) {task : WorkTask β} (h : .executing task ∈ L.activities)
    (hq : q ∈ (L.plan.node task.pipeline).successors) : L.plan.Holds q := by
  have hreferenced : L.Referenced task.pipeline := referenced_of_activity h (by simp [Activity.references])
  exact referenced_of_successor (hL.referenced_mem _ hreferenced) (.inl (hL.referenced_shared _ hreferenced)) hq

end Owned

lemma mem_pendingStops {successors : List PipelineId} {task : Task β} (h : task ∈ pendingStops successors) :
    ∃ q ∈ successors, task = .pendingPipelineStop q 0 := by
  rcases List.mem_map.1 (mem_coe.1 h) with ⟨q, hq, htask⟩
  exact ⟨q, hq, htask.symm⟩

/-- No step makes a reference out of nothing: nodes that are referenced afterwards were so before. -/
lemma Step.referenced {L L' : Ledger β} {label : Label} (h : Step L label L') (hL : L.Owned) {p : PipelineId}
    (hp : L'.Referenced p) : L.Referenced p := by
  have hplan : L'.plan.Holds p → L.Referenced p := fun hholds => .inl (h.evolves.holds hholds)
  -- most new tasks hold no references
  have hbare : ∀ {new : Task β}, new.references = [] → ∀ task ∈ new ::ₘ L.tasks, p ∈ task.references →
      L.Referenced p := by
    intro new hnone task htask href
    rcases mem_cons.1 htask with rfl | hold
    · rw [hnone] at href
      cases href
    · exact referenced_of_task hold href
  have hbegun : ∀ {new : Activity β}, (p ∈ new.references → L.Referenced p) →
      ∀ activity ∈ new ::ₘ L.activities, p ∈ activity.references → L.Referenced p := by
    intro new hnew activity hactivity href
    rcases mem_cons.1 hactivity with rfl | hold
    · exact hnew href
    · exact referenced_of_activity hold href
  refine hp.mono hplan ?_ ?_
  · intro task htask href
    cases h with
    | @accept emitted hemit =>
      rcases mem_cons.1 htask with rfl | hold
      · -- only a task emitted while its predecessor is stopped holds a reference
        rcases hemit with ⟨_, _, _, _, hkeeps⟩ | ⟨_, _, _, hkeeps⟩ | ⟨m, hm, hsuccessor⟩
        · simp [Task.references, hkeeps] at href
        · simp [Task.references, hkeeps] at href
        · have hpipeline : p = emitted.pipeline := by
            simp only [Task.references] at href
            split at href
            case isTrue => exact List.mem_singleton.1 href
            case isFalse => cases href
          rw [hpipeline]
          exact .inl (hL.holds_of_stopping hm hsuccessor)
      · exact referenced_of_task hold href
    | retryPendingStop htasks =>
      rcases mem_cons.1 htask with rfl | hold
      · exact referenced_of_task (mem_self_of_eq_cons htasks) href
      · exact referenced_of_task (mem_of_eq_cons htasks hold) href
    | finishStop hactivities =>
      rcases mem_add.1 htask with hnew | hold
      · rcases mem_pendingStops hnew with ⟨q, hq, rfl⟩
        rw [List.mem_singleton.1 href]
        exact .inl (hL.holds_of_stopping (mem_self_of_eq_cons hactivities) hq)
      · exact referenced_of_task hold href
    | unregister htasks hmem hsource =>
      rcases mem_add.1 htask with hnew | hold
      · rcases mem_pendingStops hnew with ⟨q, hq, rfl⟩
        rw [List.mem_singleton.1 href]
        exact .inl (.inl ⟨_, hmem, by rw [hsource]; decide, hq⟩)
      · exact referenced_of_task (mem_of_eq_cons htasks hold) href
    | tooMuchWork htasks => exact referenced_of_task (mem_of_le htasks htask) href
    | _ =>
      -- the others leave the tasks alone, take one away or bring one without references
      first
      | exact referenced_of_task htask href
      | exact referenced_of_task (mem_of_eq_cons (by assumption) htask) href
      | exact hbare rfl task htask href
  · intro activity hactivity href
    cases h with
    | beginWork _ hreferenced | beginStart _ hreferenced =>
      refine hbegun (fun hnew => ?_) activity hactivity href
      rw [List.mem_singleton.1 hnew]
      exact hreferenced
    | failWork hactivities =>
      rcases mem_cons.1 hactivity with rfl | hold
      · refine referenced_of_activity (mem_self_of_eq_cons hactivities) ?_
        simp only [Activity.references] at href ⊢
        split at href
        case isTrue => exact href
        case isFalse => cases href
      · exact referenced_of_activity (mem_of_eq_cons hactivities hold) href
    | failStart hactivities =>
      rcases mem_cons.1 hactivity with rfl | hold
      · cases href
      · exact referenced_of_activity (mem_of_eq_cons hactivities hold) href
    | beginStop _ => exact hbegun (fun hnew => absurd hnew List.not_mem_nil) activity hactivity href
    | _ =>
      first
      | exact referenced_of_activity hactivity href
      | exact referenced_of_activity (mem_of_eq_cons (by assumption) hactivity) href

end Ledger

end MobilityNebula.QueryEngine
