import Mathlib.Data.List.Perm.Basic

/-!
# ThreadPool — nodes, tasks and queues of the query engine

A started query is a graph of pipeline nodes and sources.  Nodes are reference counted: the sources, the
predecessor nodes, some tasks and the workers that execute on a node hold strong references to it, and the
node is stopped when the last of them is gone.  A `WorkTask` holds only a weak reference.

Tasks wait in the admission queue (written by threads outside the pool) and in the internal queue (written by
workers).  What a worker is doing is a list of frames, since a worker that finds the internal queue full
executes tasks in place, within the task it is executing.
-/

namespace MobilityNebula.QueryEngine

open List

variable {β : Type}

/-! ## Nodes and sources -/

abbrev PipelineId := Nat
abbrev OriginId := Nat

inductive NodeStatus where
  /-- Owned by shared pointers. -/
  | shared
  /-- Rescued by the deleter into a `StopPipelineTask`, which owns it uniquely. -/
  | stopping
  /-- Destroyed after its `StopPipelineTask`. -/
  | stopped
  /-- Destroyed without having been stopped. -/
  | discarded
  deriving DecidableEq, Repr

/-- The node object exists, and with it the references to its successors. -/
def NodeStatus.IsAlive (status : NodeStatus) : Prop := status = .shared ∨ status = .stopping

instance (status : NodeStatus) : Decidable status.IsAlive := inferInstanceAs (Decidable (_ ∨ _))

structure RunningQueryPlanNode where
  successors : List PipelineId
  requiresTermination : Bool
  pendingTasks : Int
  status : NodeStatus
  deriving DecidableEq, Repr

inductive SourceStatus where
  /-- Kept by the pipeline setup callback until all pipelines are started. -/
  | waiting
  | running
  /-- The source thread has reported the end of its stream and is about to return. -/
  | endOfStream
  /-- The source thread has returned; the source is still registered. -/
  | exited
  /-- Removed after the end of its stream, by `attemptUnregister`. -/
  | unregistered
  /-- The `RunningSource` is being destroyed, which joins its thread. -/
  | closing
  | closed
  deriving DecidableEq, Repr

/-- The source, or the setup callback it waits in, exists, and with it the references to its successors. -/
def SourceStatus.IsAlive (status : SourceStatus) : Prop := status ≠ .unregistered ∧ status ≠ .closed

instance (status : SourceStatus) : Decidable status.IsAlive := inferInstanceAs (Decidable (_ ∧ _))

structure RunningSource where
  successors : List PipelineId
  status : SourceStatus
  deriving DecidableEq, Repr

/-- The state of the query in the `QueryCatalog`, after `QueryCatalog::start`. -/
inductive QueryState where
  | starting
  | running
  | stopping
  | failed
  deriving DecidableEq, Repr

structure RunningQueryPlan where
  pipelines : List PipelineId
  origins : List OriginId
  node : PipelineId → RunningQueryPlanNode
  source : OriginId → RunningSource
  state : QueryState

namespace RunningQueryPlan

variable (plan : RunningQueryPlan)

/-- The plan itself holds a reference to node `p`: one of its sources or of its nodes has `p` as a successor. -/
def Holds (p : PipelineId) : Prop :=
  (∃ s ∈ plan.origins, (plan.source s).status.IsAlive ∧ p ∈ (plan.source s).successors)
    ∨ (∃ m ∈ plan.pipelines, (plan.node m).status.IsAlive ∧ p ∈ (plan.node m).successors)

instance (p : PipelineId) : Decidable (plan.Holds p) := inferInstanceAs (Decidable (_ ∨ _))

def modifyNode (p : PipelineId) (f : RunningQueryPlanNode → RunningQueryPlanNode) : RunningQueryPlan :=
  { plan with node := Function.update plan.node p (f (plan.node p)) }

/-- `pendingTasks.fetch_add` and `fetch_sub`. -/
def addPending (p : PipelineId) (n : Int) : RunningQueryPlan :=
  plan.modifyNode p fun node => { node with pendingTasks := node.pendingTasks + n }

def setRequiresTermination (p : PipelineId) (b : Bool) : RunningQueryPlan :=
  plan.modifyNode p fun node => { node with requiresTermination := b }

def setStatus (p : PipelineId) (status : NodeStatus) : RunningQueryPlan :=
  plan.modifyNode p fun node => { node with status := status }

def setSource (s : OriginId) (status : SourceStatus) : RunningQueryPlan :=
  { plan with source := Function.update plan.source s { plan.source s with status := status } }

/-- The node is destroyed; a node that is destroyed no longer requires its termination. -/
def destroy (p : PipelineId) (status : NodeStatus) : RunningQueryPlan :=
  plan.modifyNode p fun node => { node with requiresTermination := false, status := status }

/-- The pipeline setup callback: all pipelines are started, so the sources are. -/
def startSources : RunningQueryPlan :=
  { plan with
    source := fun s =>
      { plan.source s with
        status := if (plan.source s).status = .waiting then .running else (plan.source s).status }
    state := .running }

/-- Clearing the sources and the setup callback.  The destructor of a source joins its thread. -/
def closeSources : RunningQueryPlan :=
  { plan with
    source := fun s =>
      { plan.source s with
        status :=
          match (plan.source s).status with
          | .waiting => .closed
          | .running | .endOfStream | .exited => .closing
          | status => status } }

/-- `RunningQueryPlan::stop`, called by `QueryCatalog::stopQuery` for a query that is starting or running. -/
def stop : RunningQueryPlan :=
  match plan.state with
  | .starting | .running => { plan.closeSources with state := .stopping }
  | _ => plan

variable (alive : PipelineId → Bool)

/-- What `onFailure` does to the plan: a starting or running one is disposed of, and its destructor tells the
nodes whose weak pointer it can still lock that they need not be terminated. -/
def dispose : RunningQueryPlan :=
  match plan.state with
  | .starting | .running =>
    { plan.closeSources with
      node := fun p => if alive p then { plan.node p with requiresTermination := false } else plan.node p
      state := .failed }
  | _ => { plan with state := .failed }

/-! ### What the operations keep -/

variable {plan}

section

variable (p q : PipelineId)
include p q

lemma node_modifyNode (f : RunningQueryPlanNode → RunningQueryPlanNode) :
    (plan.modifyNode p f).node q = if q = p then f (plan.node p) else plan.node q := by
  simp only [modifyNode, Function.update_apply]

lemma pendingTasks_addPending (n : Int) : ((plan.addPending p n).node q).pendingTasks
      = (plan.node q).pendingTasks + if q = p then n else 0 := by
  rw [addPending, node_modifyNode]
  by_cases h : q = p
  · rw [if_pos h, if_pos h, h]
  · rw [if_neg h, if_neg h, Int.add_zero]

lemma status_addPending (n : Int) : ((plan.addPending p n).node q).status = (plan.node q).status := by
  rw [addPending, node_modifyNode]
  split
  case isTrue h => rw [h]
  case isFalse => rfl

lemma requiresTermination_addPending (n : Int) :
    ((plan.addPending p n).node q).requiresTermination = (plan.node q).requiresTermination := by
  rw [addPending, node_modifyNode]
  split
  case isTrue h => rw [h]
  case isFalse => rfl

lemma status_setRequiresTermination (b : Bool) :
    ((plan.setRequiresTermination p b).node q).status = (plan.node q).status := by
  rw [setRequiresTermination, node_modifyNode]
  split
  case isTrue h => rw [h]
  case isFalse => rfl

lemma pendingTasks_setRequiresTermination (b : Bool) :
    ((plan.setRequiresTermination p b).node q).pendingTasks = (plan.node q).pendingTasks := by
  rw [setRequiresTermination, node_modifyNode]
  split
  case isTrue h => rw [h]
  case isFalse => rfl

variable (status : NodeStatus)
include status

lemma status_setStatus :
    ((plan.setStatus p status).node q).status = if q = p then status else (plan.node q).status := by
  rw [setStatus, node_modifyNode]
  split <;> rfl

lemma pendingTasks_setStatus : ((plan.setStatus p status).node q).pendingTasks = (plan.node q).pendingTasks := by
  rw [setStatus, node_modifyNode]
  split
  case isTrue h => rw [h]
  case isFalse => rfl

lemma requiresTermination_setStatus :
    ((plan.setStatus p status).node q).requiresTermination = (plan.node q).requiresTermination := by
  rw [setStatus, node_modifyNode]
  split
  case isTrue h => rw [h]
  case isFalse => rfl

lemma status_destroy : ((plan.destroy p status).node q).status = if q = p then status else (plan.node q).status := by
  rw [destroy, node_modifyNode]
  split <;> rfl

lemma pendingTasks_destroy : ((plan.destroy p status).node q).pendingTasks = (plan.node q).pendingTasks := by
  rw [destroy, node_modifyNode]
  split
  case isTrue h => rw [h]
  case isFalse => rfl

end

lemma node_stop : plan.stop.node = plan.node := by
  unfold stop
  cases plan.state <;> rfl

variable (p : PipelineId)

lemma addPending_addPending_neg (n : Int) : (plan.addPending p n).addPending p (-n) = plan := by
  have hnode : ((plan.addPending p n).addPending p (-n)).node = plan.node := by
    funext q
    rw [addPending, node_modifyNode, addPending, node_modifyNode, node_modifyNode]
    by_cases h : q = p
    · rw [if_pos h, if_pos rfl, h]
      rw [Int.add_neg_cancel_right]
    · rw [if_neg h, if_neg h]
  calc
    (plan.addPending p n).addPending p (-n)
        = { plan with node := ((plan.addPending p n).addPending p (-n)).node } := rfl
    _ = plan := by rw [hnode]

/-- `plan'` is a later state of `plan`: the graph is the same, and no node or source has come back to life. -/
structure Evolves (plan plan' : RunningQueryPlan) : Prop where
  pipelines : plan'.pipelines = plan.pipelines
  origins : plan'.origins = plan.origins
  node_successors : ∀ m, (plan'.node m).successors = (plan.node m).successors
  source_successors : ∀ s, (plan'.source s).successors = (plan.source s).successors
  node_alive : ∀ m, (plan'.node m).status.IsAlive → (plan.node m).status.IsAlive
  source_alive : ∀ s, (plan'.source s).status.IsAlive → (plan.source s).status.IsAlive

lemma Evolves.refl (plan : RunningQueryPlan) : Evolves plan plan :=
  ⟨rfl, rfl, fun _ => rfl, fun _ => rfl, fun _ h => h, fun _ h => h⟩

lemma Evolves.trans {plan₁ plan₂ plan₃ : RunningQueryPlan} (h : Evolves plan₁ plan₂) (h' : Evolves plan₂ plan₃) :
    Evolves plan₁ plan₃ where
  pipelines := h'.pipelines.trans h.pipelines
  origins := h'.origins.trans h.origins
  node_successors m := (h'.node_successors m).trans (h.node_successors m)
  source_successors s := (h'.source_successors s).trans (h.source_successors s)
  node_alive m hm := h.node_alive m (h'.node_alive m hm)
  source_alive s hs := h.source_alive s (h'.source_alive s hs)

lemma Evolves.holds {plan' : RunningQueryPlan} (h : Evolves plan plan') {p : PipelineId} (hp : plan'.Holds p) :
    plan.Holds p := by
  rcases hp with ⟨s, hs, halive, hmem⟩ | ⟨m, hm, halive, hmem⟩
  · refine .inl ⟨s, h.origins ▸ hs, h.source_alive s halive, ?_⟩
    rw [← h.source_successors s]
    exact hmem
  · refine .inr ⟨m, h.pipelines ▸ hm, h.node_alive m halive, ?_⟩
    rw [← h.node_successors m]
    exact hmem

lemma evolves_modifyNode {f : RunningQueryPlanNode → RunningQueryPlanNode}
    (hsuccessors : ∀ node, (f node).successors = node.successors)
    (halive : (f (plan.node p)).status.IsAlive → (plan.node p).status.IsAlive) :
    Evolves plan (plan.modifyNode p f) where
  pipelines := rfl
  origins := rfl
  node_successors m := by
    rw [node_modifyNode]
    split
    case isTrue h => rw [h, hsuccessors]
    case isFalse => rfl
  source_successors _ := rfl
  node_alive m hm := by
    rw [node_modifyNode] at hm
    split at hm
    case isTrue h => exact h ▸ halive hm
    case isFalse => exact hm
  source_alive _ h := h

lemma evolves_addPending (n : Int) : Evolves plan (plan.addPending p n) :=
  evolves_modifyNode p (fun _ => rfl) (fun h => h)

lemma evolves_setRequiresTermination (b : Bool) : Evolves plan (plan.setRequiresTermination p b) :=
  evolves_modifyNode p (fun _ => rfl) (fun h => h)

lemma evolves_setStatus {p : PipelineId} {status : NodeStatus}
    (h : status.IsAlive → (plan.node p).status.IsAlive) : Evolves plan (plan.setStatus p status) :=
  evolves_modifyNode p (fun _ => rfl) h

lemma evolves_destroy {status : NodeStatus} (h : ¬ status.IsAlive) : Evolves plan (plan.destroy p status) :=
  evolves_modifyNode p (fun _ => rfl) (fun halive => absurd halive h)

lemma evolves_setSource {s : OriginId} {status : SourceStatus}
    (h : status.IsAlive → (plan.source s).status.IsAlive) : Evolves plan (plan.setSource s status) where
  pipelines := rfl
  origins := rfl
  node_successors _ := rfl
  source_successors t := by
    simp only [setSource, Function.update_apply]
    split
    case isTrue ht => rw [ht]
    case isFalse => rfl
  node_alive _ h := h
  source_alive t ht := by
    simp only [setSource, Function.update_apply] at ht
    split at ht
    case isTrue heq => exact heq ▸ h ht
    case isFalse => exact ht

lemma evolves_startSources : Evolves plan plan.startSources where
  pipelines := rfl
  origins := rfl
  node_successors _ := rfl
  source_successors _ := rfl
  node_alive _ h := h
  source_alive s hs := by
    simp only [startSources] at hs
    split at hs
    case isTrue heq => rw [heq]; decide
    case isFalse => exact hs

lemma evolves_closeSources : Evolves plan plan.closeSources where
  pipelines := rfl
  origins := rfl
  node_successors _ := rfl
  source_successors _ := rfl
  node_alive _ h := h
  source_alive s hs := by
    simp only [closeSources] at hs
    cases hstatus : (plan.source s).status <;> rw [hstatus] at hs <;> revert hs <;> decide

lemma evolves_stop : Evolves plan plan.stop := by
  have hclose : Evolves plan { plan.closeSources with state := .stopping } := by
    have h : Evolves plan plan.closeSources := evolves_closeSources
    exact { h with }
  unfold stop
  cases plan.state with
  | starting => exact hclose
  | running => exact hclose
  | stopping => exact .refl plan
  | failed => exact .refl plan

lemma node_dispose (q : PipelineId) :
    ((plan.dispose alive).node q).successors = (plan.node q).successors
      ∧ ((plan.dispose alive).node q).status = (plan.node q).status
      ∧ ((plan.dispose alive).node q).pendingTasks = (plan.node q).pendingTasks := by
  unfold dispose
  cases plan.state with
  | starting | running => dsimp only; split <;> exact ⟨rfl, rfl, rfl⟩
  | stopping => exact ⟨rfl, rfl, rfl⟩
  | failed => exact ⟨rfl, rfl, rfl⟩

lemma evolves_dispose : Evolves plan (plan.dispose alive) := by
  have hclose : Evolves plan plan.closeSources := evolves_closeSources
  refine ⟨?_, ?_, fun m => (node_dispose alive m).1, ?_, ?_, ?_⟩
  · unfold dispose; cases plan.state <;> rfl
  · unfold dispose; cases plan.state <;> rfl
  · intro s; unfold dispose; cases plan.state <;> rfl
  · intro m h; rw [(node_dispose alive m).2.1] at h; exact h
  · intro s
    unfold dispose
    cases plan.state with
    | starting | running => exact hclose.source_alive s
    | stopping => exact fun h => h
    | failed => exact fun h => h

end RunningQueryPlan

/-! ## Tasks -/

structure WorkTask (β : Type) where
  pipeline : PipelineId
  buf : β
  /-- The completion callback keeps a strong reference to the node, as for the buffers that a pipeline emits
  while it is stopped. -/
  keepsAlive : Bool
  deriving DecidableEq, Repr

inductive Task (β : Type) where
  | work (task : WorkTask β)
  | stopQuery
  | failSource (source : OriginId)
  | stopSource (source : OriginId)
  | pendingPipelineStop (pipeline : PipelineId) (attempts : Nat)
  | stopPipeline (pipeline : PipelineId)
  | startPipeline (pipeline : PipelineId)
  deriving DecidableEq, Repr

/-- The nodes to which a task holds a strong reference. -/
def Task.references : Task β → List PipelineId
  | .work task => if task.keepsAlive then [task.pipeline] else []
  | .pendingPipelineStop pipeline _ => [pipeline]
  | _ => []

def Task.work? : Task β → Option (WorkTask β)
  | .work task => some task
  | _ => none

/-- What a worker is executing. -/
inductive Activity (β : Type) where
  /-- Inside `execute` of the stage. -/
  | executing (task : WorkTask β)
  /-- Inside `start` of the stage. -/
  | starting (pipeline : PipelineId)
  /-- Inside `stop` of the stage. -/
  | stopping (pipeline : PipelineId)
  /-- Between the reference count reducer and the report of a failed task to the query. -/
  | failing (pipeline : PipelineId) (keepsAlive : Bool)
  deriving DecidableEq, Repr

/-- The visitors of `WorkTask` and `StartPipelineTask` lock the weak pointer for as long as they run. -/
def Activity.references : Activity β → List PipelineId
  | .executing task => [task.pipeline]
  | .starting pipeline => [pipeline]
  | .stopping _ => []
  | .failing pipeline keepsAlive => if keepsAlive then [pipeline] else []

def Activity.work? : Activity β → Option (WorkTask β)
  | .executing task => some task
  | _ => none

/-! ## Workers -/

inductive Frame (β : Type) where
  /-- Inside `addTaskOrDoItInPlace`. -/
  | hand (task : Task β)
  /-- Inside `addTaskOrDoNextTask`, with the tasks it has read from the queue on its way. -/
  | adding (task : Task β) (taken : List (Task β)) (stackLevel : Nat)
  | running (activity : Activity β)
  deriving DecidableEq, Repr

namespace Frame

def tasks : Frame β → List (Task β)
  | .hand task => [task]
  | .adding task taken _ => task :: taken
  | .running _ => []

def activities : Frame β → List (Activity β)
  | .running activity => [activity]
  | _ => []

end Frame

structure Engine (β : Type) where
  plan : RunningQueryPlan
  taskQueueSize : Nat
  admissionQueue : List (Task β)
  internalTaskQueue : List (Task β)
  frames : List (Frame β)
  accepted : List (WorkTask β)
  executed : List (WorkTask β)

namespace Engine

variable (e : Engine β)

def tasks : List (Task β) :=
  e.admissionQueue ++ e.internalTaskQueue ++ e.frames.flatMap Frame.tasks

def activities : List (Activity β) := e.frames.flatMap Frame.activities

def IsFull : Prop := e.taskQueueSize ≤ e.internalTaskQueue.length

instance : Decidable e.IsFull := inferInstanceAs (Decidable (_ ≤ _))

variable (task : Task β)

def enqueue : Engine β :=
  { e with internalTaskQueue := e.internalTaskQueue ++ [task] }

def writeAdmission : Engine β :=
  { e with admissionQueue := e.admissionQueue ++ [task] }

variable (frame : Frame β)

def push : Engine β :=
  { e with frames := e.frames ++ [frame] }

def withPlan (plan : RunningQueryPlan) : Engine β := { e with plan := plan }

def accept (task : WorkTask β) : Engine β := { e with accepted := e.accepted ++ [task] }

lemma tasks_enqueue : (e.enqueue task).tasks.Perm (task :: e.tasks) := by
  unfold tasks enqueue
  rw [← append_assoc, append_assoc _ [task]]
  exact perm_middle

lemma tasks_writeAdmission : (e.writeAdmission task).tasks.Perm (task :: e.tasks) := by
  unfold tasks writeAdmission
  rw [append_assoc, append_assoc, append_assoc]
  exact perm_middle

lemma tasks_push : (e.push frame).tasks.Perm (frame.tasks ++ e.tasks) := by
  unfold tasks push
  rw [flatMap_append, flatMap_singleton, ← append_assoc]
  exact perm_append_comm

lemma activities_push : (e.push frame).activities.Perm (frame.activities ++ e.activities) := by
  unfold activities push
  rw [flatMap_append, flatMap_singleton]
  exact perm_append_comm

end Engine

end MobilityNebula.QueryEngine
