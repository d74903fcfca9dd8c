import MobilityNebula.QueryEngine.Emission
import MobilityNebula.QueryEngine.Ledger

/-!
# EngineSteps — what workers and source threads do

An event is one atomic action of a source thread or of a worker: a task is written to or read from a queue,
a visitor is entered or left, a buffer is emitted, the deleter of a node runs.  The frames of all workers lie
in one pool, so their events interleave freely.  A worker takes tasks from the admission queue whenever it
likes (the source does so when the internal queue is short, and for pending stops that have waited).

`step` has no result when an `INVARIANT` of the source fails.  `step_refines` says that every event is a step
of the ledger, or moves tasks around without changing it.
-/

namespace MobilityNebula.QueryEngine

variable {β : Type}

/-! ## Starting a query -/

/-- The pipelines of a query, as created by `createRunningNodes`: those that are reached from the sources. -/
structure ExecutableQueryPlan where
  pipelines : List PipelineId
  successors : PipelineId → List PipelineId
  origins : List OriginId
  sourceSuccessors : OriginId → List PipelineId
  successors_mem : ∀ p ∈ pipelines, ∀ q ∈ successors p, q ∈ pipelines
  sourceSuccessors_mem : ∀ s ∈ origins, ∀ q ∈ sourceSuccessors s, q ∈ pipelines
  fed : ∀ p ∈ pipelines, (∃ s ∈ origins, p ∈ sourceSuccessors s) ∨ (∃ m ∈ pipelines, p ∈ successors m)

namespace Engine

/-- After `QueryCatalog::start`: for each pipeline a `StartPipelineTask` is on its way into the queue. -/
def start (query : ExecutableQueryPlan) (taskQueueSize : Nat) : Engine β where
  plan := {
    pipelines := query.pipelines
    origins := query.origins
    node := fun p => { successors := query.successors p, requiresTermination := false,
                       pendingTasks := 0, status := .shared }
    source := fun s => { successors := query.sourceSuccessors s, status := .waiting }
    state := .starting }
  taskQueueSize := taskQueueSize
  admissionQueue := []
  internalTaskQueue := []
  frames := query.pipelines.map fun p => .adding (.startPipeline p) [] 0
  accepted := []
  executed := []

/-! ## References -/

variable (e : Engine β)

/-- Locking a weak pointer to node `p` succeeds. -/
def Referenced (p : PipelineId) : Prop :=
  e.plan.Holds p ∨ (∃ task ∈ e.tasks, p ∈ task.references) ∨ (∃ activity ∈ e.activities, p ∈ activity.references)

instance (p : PipelineId) : Decidable (e.Referenced p) := inferInstanceAs (Decidable (_ ∨ _))

/-! ## Visitors -/

def removeFrame (i : Nat) : Engine β := { e with frames := e.frames.eraseIdx i }

/-- `addTaskOrDoNextTask`, entered for several tasks. -/
def addAll (tasks : List (Task β)) : Engine β :=
  { e with frames := e.frames ++ tasks.map fun task => .adding task [] 0 }

def pollAdmission : Engine β :=
  match e.admissionQueue with
  | [] => e
  | task :: rest => { e with admissionQueue := rest }.push (.hand task)

/-- The visitor of a worker.  The task has been taken out of its place; `alive` says which nodes were
referenced before that, by the task itself or by others. -/
def visit (alive : PipelineId → Bool) : Task β → Option (Engine β)
  | .work task =>
    if alive task.pipeline then some (e.push (.running (.executing task)))
    else some e -- the task has expired
  | .startPipeline p =>
    if alive p then some (e.push (.running (.starting p))) else some e
  | .pendingPipelineStop p attempts =>
    if (e.plan.node p).pendingTasks < 0 then none -- INVARIANT
    else if (e.plan.node p).requiresTermination = false then some e
    else if 0 < (e.plan.node p).pendingTasks then
      some ((if 2 ≤ attempts + 1 then e.pollAdmission else e).push
        (.adding (.pendingPipelineStop p (attempts + 1)) [] 0))
    else some e
  | .stopPipeline p => some (e.push (.running (.stopping p)))
  | .stopSource s =>
    if s ∈ e.plan.origins then
      match (e.plan.source s).status with
      | .exited =>
        some ((e.withPlan (e.plan.setSource s .unregistered)).addAll
          ((e.plan.source s).successors.map fun q => .pendingPipelineStop q 0))
      | .running | .endOfStream => some (e.push (.adding (.stopSource s) [] 0))
      | _ => some e
    else some e
  | .failSource s =>
    match (e.plan.source s).status with
    | .running | .endOfStream | .exited => some (e.withPlan (e.plan.dispose alive))
    | _ => some e
  | .stopQuery => some (e.withPlan e.plan.stop)

/-- `injectReferenceCountReducer`, after the visitor has let go of the node. -/
def reduceReferenceCount (task : WorkTask β) : Option (Engine β) :=
  if task.keepsAlive = true ∨ e.Referenced task.pipeline then
    if (e.plan.node task.pipeline).pendingTasks - 1 < 0 then none -- INVARIANT
    else some (e.withPlan (e.plan.addPending task.pipeline (-1)))
  else some e

def recordExecuted (task : WorkTask β) : Engine β := { e with executed := e.executed ++ [task] }

/-- The visitor has returned true: `completeTask`. -/
def completeTask : Activity β → Option (Engine β)
  | .executing task => (e.reduceReferenceCount task).map fun e' => e'.recordExecuted task
  | .starting p =>
    if e.Referenced p then some (e.withPlan (e.plan.setRequiresTermination p true)) else some e
  | .stopping p =>
    some ((e.withPlan (e.plan.destroy p .stopped)).addAll
      ((e.plan.node p).successors.map fun q => .pendingPipelineStop q 0))
  | .failing _ _ => none

/-- The visitor has thrown: `failTask`. -/
def failTask : Activity β → Option (Engine β)
  | .executing task =>
    (e.reduceReferenceCount task).map fun e' =>
      (e'.recordExecuted task).push (.running (.failing task.pipeline task.keepsAlive))
  | .starting p => some (e.push (.running (.failing p false)))
  | .stopping p =>
    some (e.withPlan ((e.plan.destroy p .discarded).dispose fun q => decide (e.Referenced q)))
  | .failing _ _ => none

/-- `RunningQueryPlanNode::fail`, if the node can still be locked. -/
def reportFailure (p : PipelineId) (keepsAlive : Bool) : Engine β :=
  if keepsAlive = true ∨ e.Referenced p then e.withPlan (e.plan.dispose fun q => decide (e.Referenced q)) else e

/-! ## Events -/

def maxStackLevel : Nat := 5000

end Engine

inductive Event (β : Type) where
  | emitFromSource (source : OriginId) (pipeline : PipelineId) (buf : β)
  | endOfStream (source : OriginId)
  | sourceError (source : OriginId)
  | exitSource (source : OriginId)
  /-- `QueryEngine::stop`. -/
  | requestStop
  /-- The pipeline setup callback. -/
  | startSources
  | pollAdmission
  /-- A worker reads a task from the internal queue and visits it. -/
  | runNext
  /-- `addTaskOrDoItInPlace` writes its task to the internal queue. -/
  | storeHand (i : Nat)
  /-- `addTaskOrDoItInPlace` finds the queue full and visits its task. -/
  | runHand (i : Nat)
  /-- `addTaskOrDoNextTask` writes its task; the tasks it has taken are next. -/
  | writeAdding (i : Nat)
  /-- `addTaskOrDoNextTask` finds the queue full, takes a task and tries again. -/
  | nextAdding (i : Nat)
  /-- `addTaskOrDoNextTask` has found the queue full, but others have emptied it before it could take a task. -/
  | missAdding (i : Nat)
  /-- `addTaskOrDoNextTask` throws `TooMuchWork`: its task and those it has taken are gone. -/
  | throwAdding (i : Nat)
  /-- A stage emits a buffer to one pipeline. -/
  | emit (i : Nat) (pipeline : PipelineId) (buf : β) (policy : ContinuationPolicy)
  | complete (i : Nat)
  | fail (i : Nat)
  | reportFailure (i : Nat)
  /-- The last reference to a node is gone: its deleter runs. -/
  | release (pipeline : PipelineId)
  deriving DecidableEq, Repr

/-- The pipelines to which a stage may emit with a policy, and whether the task keeps its node alive. -/
def Activity.Emits (plan : RunningQueryPlan) (policy : ContinuationPolicy) (q : PipelineId) : Activity β → Prop
  | .executing task =>
    if policy = .REPEAT then q = task.pipeline else q ∈ (plan.node task.pipeline).successors
  | .stopping p => q ∈ (plan.node p).successors
  | _ => False

instance (plan : RunningQueryPlan) (policy : ContinuationPolicy) (q : PipelineId) :
    (activity : Activity β) → Decidable (activity.Emits plan policy q)
  | .executing task =>
    inferInstanceAs
      (Decidable (if policy = .REPEAT then q = task.pipeline else q ∈ (plan.node task.pipeline).successors))
  | .starting _ => inferInstanceAs (Decidable False)
  | .stopping p => inferInstanceAs (Decidable (q ∈ (plan.node p).successors))
  | .failing _ _ => inferInstanceAs (Decidable False)

def Activity.keepsAlive : Activity β → Bool
  | .stopping _ => true
  | _ => false

def Task.isStart : Task β → Bool
  | .startPipeline _ => true
  | _ => false

def Activity.isStart : Activity β → Bool
  | .starting _ => true
  | _ => false

def Activity.isFailing : Activity β → Bool
  | .failing _ _ => true
  | _ => false

namespace Engine

variable (e : Engine β)

/-- Frame `i` is inside `addTaskOrDoItInPlace`. -/
def IsHand (i : Nat) : Prop :=
  (e.frames[i]?.any fun frame =>
    match frame with
    | .hand _ => true
    | _ => false) = true

/-- Frame `i` is inside `addTaskOrDoNextTask`, at a stack level with property `P`. -/
def IsAdding (P : Nat → Bool) (i : Nat) : Prop :=
  (e.frames[i]?.any fun frame =>
    match frame with
    | .adding _ _ stackLevel => P stackLevel
    | _ => false) = true

/-- Frame `i` is a visitor that is doing something with property `P`. -/
def IsRunning (P : Activity β → Bool) (i : Nat) : Prop :=
  (e.frames[i]?.any fun frame =>
    match frame with
    | .running activity => P activity
    | _ => false) = true

instance (i : Nat) : Decidable (e.IsHand i) := inferInstanceAs (Decidable (_ = true))

instance (P : Nat → Bool) (i : Nat) : Decidable (e.IsAdding P i) := inferInstanceAs (Decidable (_ = true))

instance (P : Activity β → Bool) (i : Nat) : Decidable (e.IsRunning P i) := inferInstanceAs (Decidable (_ = true))

variable {e}

lemma IsHand.exists {i : Nat} (h : e.IsHand i) : ∃ task, e.frames[i]? = some (.hand task) := by
  rcases (Option.any_eq_true _ _).1 h with ⟨frame, hframe, hP⟩
  cases frame with
  | hand task => exact ⟨task, hframe⟩
  | adding _ _ _ | running _ => cases hP

lemma IsAdding.exists {P : Nat → Bool} {i : Nat} (h : e.IsAdding P i) :
    ∃ task taken level, e.frames[i]? = some (.adding task taken level) ∧ P level = true := by
  rcases (Option.any_eq_true _ _).1 h with ⟨frame, hframe, hP⟩
  cases frame with
  | hand _ | running _ => cases hP
  | adding task taken level => exact ⟨task, taken, level, hframe, hP⟩

lemma IsRunning.exists {P : Activity β → Bool} {i : Nat} (h : e.IsRunning P i) :
    ∃ activity, e.frames[i]? = some (.running activity) ∧ P activity = true := by
  rcases (Option.any_eq_true _ _).1 h with ⟨frame, hframe, hP⟩
  cases frame with
  | hand _ | adding _ _ _ => cases hP
  | running activity => exact ⟨activity, hframe, hP⟩

variable (e)

def Enabled : Event β → Prop
  | .emitFromSource s p _ =>
    s ∈ e.plan.origins ∧ ((e.plan.source s).status = .running ∨ (e.plan.source s).status = .closing)
      ∧ p ∈ (e.plan.source s).successors
  | .endOfStream s => s ∈ e.plan.origins ∧ (e.plan.source s).status = .running
  | .sourceError s => s ∈ e.plan.origins ∧ (e.plan.source s).status = .running
  | .exitSource s =>
    s ∈ e.plan.origins ∧ ((e.plan.source s).status = .endOfStream ∨ (e.plan.source s).status = .closing)
  | .requestStop => True
  | .startSources =>
    e.plan.state = .starting ∧ (∀ task ∈ e.tasks, task.isStart = false)
      ∧ (∀ activity ∈ e.activities, activity.isStart = false)
  | .pollAdmission => e.admissionQueue ≠ []
  | .runNext => e.internalTaskQueue ≠ []
  | .storeHand i => e.IsHand i ∧ ¬ e.IsFull
  | .runHand i => e.IsHand i ∧ e.IsFull
  | .writeAdding i => e.IsAdding (fun level => level < maxStackLevel) i ∧ ¬ e.IsFull
  | .nextAdding i => e.IsAdding (fun level => level < maxStackLevel) i ∧ e.IsFull ∧ e.internalTaskQueue ≠ []
  | .missAdding i => e.IsAdding (fun level => level < maxStackLevel) i ∧ e.internalTaskQueue = []
  | .throwAdding i => e.IsAdding (fun level => maxStackLevel ≤ level) i
  | .emit i q _ policy => e.IsRunning (fun activity => activity.Emits e.plan policy q) i
  | .complete i => e.IsRunning (fun activity => !activity.isFailing) i
  | .fail i => e.IsRunning (fun activity => !activity.isFailing) i
  | .reportFailure i => e.IsRunning Activity.isFailing i
  | .release p => p ∈ e.plan.pipelines ∧ (e.plan.node p).status = .shared ∧ ¬ e.Referenced p

instance : (event : Event β) → Decidable (e.Enabled event)
  | .requestStop => inferInstanceAs (Decidable True)
  | .pollAdmission => inferInstanceAs (Decidable (¬ e.admissionQueue = []))
  | .runNext => inferInstanceAs (Decidable (¬ e.internalTaskQueue = []))
  | .endOfStream _ | .sourceError _ | .exitSource _ | .storeHand _ | .runHand _ | .writeAdding _ =>
    inferInstanceAs (Decidable (_ ∧ _))
  | .emitFromSource _ _ _ | .startSources | .release _ => inferInstanceAs (Decidable (_ ∧ _ ∧ _))
  | .nextAdding i => inferInstanceAs (Decidable (e.IsAdding _ i ∧ e.IsFull ∧ ¬ e.internalTaskQueue = []))
  | .missAdding i => inferInstanceAs (Decidable (e.IsAdding _ i ∧ e.internalTaskQueue = []))
  | .throwAdding _ | .emit _ _ _ _ | .complete _ | .fail _ | .reportFailure _ => inferInstanceAs (Decidable (_ = true))

def step : Event β → Option (Engine β)
  | .emitFromSource _ p b =>
    some (((e.withPlan (e.plan.addPending p 1)).writeAdmission (.work ⟨p, b, false⟩)).accept ⟨p, b, false⟩)
  | .endOfStream s => some ((e.withPlan (e.plan.setSource s .endOfStream)).writeAdmission (.stopSource s))
  | .sourceError s => some ((e.withPlan (e.plan.setSource s .endOfStream)).writeAdmission (.failSource s))
  | .exitSource s =>
    some (e.withPlan (e.plan.setSource s
      (if (e.plan.source s).status = .closing then .closed else .exited)))
  | .requestStop => some (e.writeAdmission .stopQuery)
  | .startSources => some (e.withPlan e.plan.startSources)
  | .pollAdmission => some e.pollAdmission
  | .runNext =>
    match e.internalTaskQueue with
    | [] => none
    | task :: rest => { e with internalTaskQueue := rest }.visit (fun p => decide (e.Referenced p)) task
  | .storeHand i =>
    match e.frames[i]? with
    | some (.hand task) => some ((e.removeFrame i).enqueue task)
    | _ => none
  | .runHand i =>
    match e.frames[i]? with
    | some (.hand task) => (e.removeFrame i).visit (fun p => decide (e.Referenced p)) task
    | _ => none
  | .writeAdding i =>
    match e.frames[i]? with
    | some (.adding task taken _) =>
      some { (e.removeFrame i).enqueue task with
        frames := (e.removeFrame i).frames ++ taken.map .hand }
    | _ => none
  | .nextAdding i =>
    match e.frames[i]?, e.internalTaskQueue with
    | some (.adding task taken level), next :: rest =>
      some ({ e.removeFrame i with internalTaskQueue := rest }.push
        (.adding task (taken ++ [next]) (level + 1)))
    | _, _ => none
  | .missAdding i =>
    match e.frames[i]? with
    | some (.adding task taken level) => some ((e.removeFrame i).push (.adding task taken (level + 1)))
    | _ => none
  | .throwAdding i => some (e.removeFrame i)
  | .emit i q b policy =>
    match e.frames[i]? with
    | some (.running activity) =>
      some (e.emitWork ⟨q, b, activity.keepsAlive⟩ policy (decide e.IsFull)).1
    | _ => none
  | .complete i =>
    match e.frames[i]? with
    | some (.running activity) => (e.removeFrame i).completeTask activity
    | _ => none
  | .fail i =>
    match e.frames[i]? with
    | some (.running activity) => (e.removeFrame i).failTask activity
    | _ => none
  | .reportFailure i =>
    match e.frames[i]? with
    | some (.running (.failing p k)) => some ((e.removeFrame i).reportFailure p k)
    | _ => none
  | .release p =>
    if (e.plan.node p).requiresTermination then
      some ((e.withPlan (e.plan.setStatus p .stopping)).addAll [.stopPipeline p])
    else some (e.withPlan (e.plan.setStatus p .discarded))

end Engine

end MobilityNebula.QueryEngine
