import MobilityNebula.InputFormatters.SpanningTuples
import MobilityNebula.Library.Slots
import MobilityNebula.QueryEngine.Emission

/-!
# FormatterTasks — raw buffers on their way into the sequence shredder

The input formatter is the first pipeline behind a source.  Its work tasks share one sequence shredder; a task
whose raw buffer is not in range of the shredder yet emits the buffer again, with the policy `REPEAT`, and
returns without looking at the answer.

Every raw buffer is in exactly one place (`places_perm`): in a queued task, in a task that still has to deal
with it, inside the shredder, or in a task that is over and did not pass it on.  `raw_buffers_kept_iff` says
when there is no buffer of the last kind.
-/

namespace MobilityNebula.QueryEngine

open Library InputFormatters List ShredderSystem
open scoped List

/-! ## Tasks of the formatter pipeline -/

/-- How far `parseTupleBufferRaw` is in a work task. -/
inductive FormatterStage where
  | entered
  | inRange
  | outOfRange
  /-- Inside `processSequenceNumber`. -/
  | called
  | returned
  /-- Returned as well, but the buffer was not accepted by the queue. -/
  | refused
  deriving DecidableEq, Repr

/-- The task has neither handed its buffer to the shredder nor put it into another task. -/
def FormatterStage.carries : FormatterStage → Bool
  | .entered | .inRange | .outOfRange | .refused => true
  | .called | .returned => false

structure FormatterTask where
  sequenceNumber : Nat
  stage : FormatterStage
  deriving DecidableEq, Repr

def carried (tasks : List FormatterTask) : List Nat :=
  (tasks.filter fun task => task.stage.carries).map FormatterTask.sequenceNumber

def buffersOf (tasks : List (Task Nat)) : List Nat := (tasks.filterMap Task.work?).map WorkTask.buf

def formatterPipeline : PipelineId := 0

/-- The queues, the shredder and the work tasks of the formatter.  A raw buffer is given by its sequence
number. -/
structure FormatterRun where
  engine : Engine Nat
  system : ShredderSystem
  /-- The source has emitted the raw buffers `1, …, emitted`. -/
  emitted : Nat
  running : List FormatterTask
  completed : List FormatterTask
  /-- Tasks that have thrown; each of them fails the query. -/
  failed : List FormatterTask

inductive FormatterEvent where
  | emitFromSource
  /-- A worker moves a task from the admission queue to the internal queue. -/
  | storeAdmission
  /-- A worker executes a task of the admission queue in place. -/
  | takeAdmission
  | take
  | isInRange (i : Nat)
  /-- The buffer is emitted with `REPEAT`; `full` says that the queue stays full while the emission waits. -/
  | emitBuffer (i : Nat) (full : Bool)
  | beginCall (i : Nat)
  | endCall (i : Nat)
  | complete (i : Nat)
  | fail (i : Nat)
  deriving DecidableEq, Repr

namespace FormatterRun

def initial (raw : ShredderInput) (taskQueueSize : Nat) : FormatterRun where
  engine := {
    plan := {
      pipelines := [formatterPipeline]
      origins := []
      node := fun _ => { successors := [], requiresTermination := true, pendingTasks := 0, status := .shared }
      source := fun _ => { successors := [formatterPipeline], status := .running }
      state := .running }
    taskQueueSize := taskQueueSize
    admissionQueue := []
    internalTaskQueue := []
    frames := []
    accepted := []
    executed := [] }
  system := ShredderSystem.initial raw
  emitted := 0
  running := []
  completed := []
  failed := []

variable (s : FormatterRun)

def queued : List Nat := buffersOf s.engine.tasks

/-- A worker enters `parseTupleBufferRaw`. -/
def enter (engine : Engine Nat) (task : WorkTask Nat) : FormatterRun :=
  { s with engine := engine, running := ⟨task.buf, .entered⟩ :: s.running }

def setStage (i sn : Nat) (stage : FormatterStage) : FormatterRun :=
  { s with running := s.running.set i ⟨sn, stage⟩ }

/-- One action of the source or of a worker.  There is no next state if the action is not possible, or if the
shredder runs into undefined behaviour. -/
def step (raw : ShredderInput) (s : FormatterRun) : FormatterEvent → Option FormatterRun
  | .emitFromSource =>
    some { s with
      engine := s.engine.writeAdmission (.work ⟨formatterPipeline, s.emitted + 1, false⟩)
      emitted := s.emitted + 1 }
  | .storeAdmission =>
    match s.engine.admissionQueue with
    | task :: rest => some { s with engine := { s.engine with admissionQueue := rest }.enqueue task }
    | [] => none
  | .takeAdmission =>
    match s.engine.admissionQueue with
    | .work task :: rest => some (s.enter { s.engine with admissionQueue := rest } task)
    | _ => none
  | .take =>
    match s.engine.internalTaskQueue with
    | .work task :: rest => some (s.enter { s.engine with internalTaskQueue := rest } task)
    | _ => none
  | .isInRange i =>
    match s.running[i]? with
    | some ⟨sn, .entered⟩ =>
      let inRange := (s.system.shredder.isInRange sn).2
      some ({ s with system := s.system.askInRange sn }.setStage i sn
        (if inRange then .inRange else .outOfRange))
    | _ => none
  | .emitBuffer i full =>
    match s.running[i]? with
    | some ⟨sn, .outOfRange⟩ =>
      -- `parseTupleBufferRaw` returns whatever the answer is
      let (engine, accepted) := s.engine.emitFromWorkTask formatterPipeline sn .REPEAT fun _ => full
      some ({ s with engine := engine }.setStage i sn (if accepted then .returned else .refused))
    | _ => none
  | .beginCall i =>
    match s.running[i]? with
    | some ⟨sn, .inRange⟩ =>
      (s.system.beginCall raw sn).map fun system => { s with system := system }.setStage i sn .called
    | _ => none
  | .endCall i =>
    match s.running[i]? with
    | some ⟨sn, .called⟩ =>
      (s.system.step raw (.endCall sn)).map fun system => { s with system := system }.setStage i sn .returned
    | _ => none
  | .complete i =>
    match s.running[i]? with
    | some ⟨sn, .returned⟩ =>
      some { s with running := s.running.eraseIdx i, completed := ⟨sn, .returned⟩ :: s.completed }
    | some ⟨sn, .refused⟩ =>
      some { s with running := s.running.eraseIdx i, completed := ⟨sn, .refused⟩ :: s.completed }
    | _ => none
  | .fail i =>
    match s.running[i]? with
    | some task => some { s with running := s.running.eraseIdx i, failed := task :: s.failed }
    | none => none

/-- Everything an action can do. -/
inductive Acts (raw : ShredderInput) (s : FormatterRun) : FormatterEvent → FormatterRun → Prop where
  | emitFromSource : Acts raw s .emitFromSource { s with
    engine := s.engine.writeAdmission (.work ⟨formatterPipeline, s.emitted + 1, false⟩)
    emitted := s.emitted + 1 }
  | storeAdmission {task : Task Nat} {rest : List (Task Nat)} (hqueue : s.engine.admissionQueue = task :: rest) :
      Acts raw s .storeAdmission { s with engine := { s.engine with admissionQueue := rest }.enqueue task }
  | takeAdmission {task : WorkTask Nat} {rest : List (Task Nat)}
      (hqueue : s.engine.admissionQueue = .work task :: rest) :
      Acts raw s .takeAdmission (s.enter { s.engine with admissionQueue := rest } task)
  | take {task : WorkTask Nat} {rest : List (Task Nat)} (hqueue : s.engine.internalTaskQueue = .work task :: rest) :
      Acts raw s .take (s.enter { s.engine with internalTaskQueue := rest } task)
  | isInRange {i sn : Nat} (htask : s.running[i]? = some ⟨sn, .entered⟩) :
      Acts raw s (.isInRange i) ({ s with system := s.system.askInRange sn }.setStage i sn
        (if (s.system.shredder.isInRange sn).2 then .inRange else .outOfRange))
  | emitBuffer {i sn : Nat} (full : Bool) (htask : s.running[i]? = some ⟨sn, .outOfRange⟩) :
      Acts raw s (.emitBuffer i full)
        ({ s with engine := (s.engine.emitWork ⟨formatterPipeline, sn, false⟩ .REPEAT full).1 }.setStage i sn
          (if full then .refused else .returned))
  | beginCall {i sn : Nat} {system : ShredderSystem} (htask : s.running[i]? = some ⟨sn, .inRange⟩)
      (hsystem : s.system.beginCall raw sn = some system) :
      Acts raw s (.beginCall i) ({ s with system := system }.setStage i sn .called)
  | endCall {i sn : Nat} {system : ShredderSystem} (htask : s.running[i]? = some ⟨sn, .called⟩)
      (hsystem : s.system.step raw (.endCall sn) = some system) :
      Acts raw s (.endCall i) ({ s with system := system }.setStage i sn .returned)
  | complete {i : Nat} {task : FormatterTask} (htask : s.running[i]? = some task)
      (hstage : task.stage = .returned ∨ task.stage = .refused) :
      Acts raw s (.complete i) { s with running := s.running.eraseIdx i, completed := task :: s.completed }
  | fail {i : Nat} {task : FormatterTask} (htask : s.running[i]? = some task) :
      Acts raw s (.fail i) { s with running := s.running.eraseIdx i, failed := task :: s.failed }

lemma acts_of_step {raw : ShredderInput} {s s' : FormatterRun} {event : FormatterEvent}
    (h : s.step raw event = some s') : Acts raw s event s' := by
  revert h
  fun_cases step raw s event
  case case12 i sn htask =>
    intro h
    rcases Option.map_eq_some_iff.1 h with ⟨system, hsystem, rfl⟩
    exact .beginCall htask hsystem
  case case14 i sn htask =>
    intro h
    rcases Option.map_eq_some_iff.1 h with ⟨system, hsystem, rfl⟩
    exact .endCall htask hsystem
  all_goals rintro ⟨⟩
  case case1 => exact .emitFromSource
  case case2 hqueue => exact .storeAdmission hqueue
  case case4 hqueue => exact .takeAdmission hqueue
  case case6 hqueue => exact .take hqueue
  case case8 htask _ => exact .isInRange htask
  case case10 i full sn htask engine accepted hemit =>
    cases full <;> cases hemit <;> exact Acts.emitBuffer _ htask
  case case16 htask => exact .complete htask (.inl rfl)
  case case17 htask => exact .complete htask (.inr rfl)
  case case19 htask => exact .fail htask

/-! ## Where a raw buffer is -/

/-- All places a raw buffer can be in: a queued task, a task that carries it, the shredder. -/
def places : List Nat :=
  s.queued ++ (carried (s.running ++ s.completed ++ s.failed) ++ s.system.entered)

end FormatterRun

lemma carried_cons (task : FormatterTask) (tasks : List FormatterTask) :
    carried (task :: tasks) = carried [task] ++ carried tasks := by
  unfold carried
  rw [← map_append, ← filter_append, singleton_append]

lemma carried_singleton (task : FormatterTask) :
    carried [task] = if task.stage.carries = true then [task.sequenceNumber] else [] := by
  cases h : task.stage.carries <;> simp [carried, h]

lemma carried_append (tasks tasks' : List FormatterTask) :
    carried (tasks ++ tasks') = carried tasks ++ carried tasks' := by
  unfold carried
  rw [filter_append, map_append]

variable {tasks tasks' : List FormatterTask}

lemma carried_perm (h : tasks ~ tasks') : carried tasks ~ carried tasks' :=
  (h.filter _).map _

lemma buffersOf_perm {tasks tasks' : List (Task Nat)} (h : tasks ~ tasks') : buffersOf tasks ~ buffersOf tasks' :=
  (h.filterMap _).map _

lemma mem_carried {tasks : List FormatterTask} {sn : Nat} :
    sn ∈ carried tasks ↔ ∃ task ∈ tasks, task.stage.carries = true ∧ task.sequenceNumber = sn := by
  simp [carried, and_assoc]

namespace FormatterRun

variable {raw : ShredderInput} {s s' : FormatterRun}

section

variable {i : Nat} {task : FormatterTask} (h : s.running[i]? = some task)
include h

lemma carried_setStage (stage : FormatterStage) :
    ∃ others, carried (s.running ++ s.completed ++ s.failed) ~ carried [task] ++ others
      ∧ carried ((s.setStage i task.sequenceNumber stage).running ++ s.completed ++ s.failed)
        ~ carried [⟨task.sequenceNumber, stage⟩] ++ others := by
  refine ⟨carried (s.running.eraseIdx i ++ s.completed ++ s.failed), ?_, ?_⟩
  · rw [← carried_cons]
    exact carried_perm (((perm_cons_eraseIdx h).append_right _).append_right _)
  · rw [← carried_cons]
    exact carried_perm (((set_perm_cons_eraseIdx h _).append_right _).append_right _)

/-! ### What an action does to the places -/

variable {stage : FormatterStage}

lemma carried_setStage_of_carries (hstage : stage.carries = task.stage.carries) :
    carried ((s.setStage i task.sequenceNumber stage).running ++ s.completed ++ s.failed)
      ~ carried (s.running ++ s.completed ++ s.failed) := by
  rcases carried_setStage h stage with ⟨others, hbefore, hafter⟩
  have hsame : carried [⟨task.sequenceNumber, stage⟩] = carried [task] := by
    rw [carried_singleton, carried_singleton, hstage]
  rw [hsame] at hafter
  exact hafter.trans hbefore.symm

lemma carried_setStage_of_passes
    (htask : task.stage.carries = true) (hstage : stage.carries = false) :
    task.sequenceNumber :: carried ((s.setStage i task.sequenceNumber stage).running ++ s.completed ++ s.failed)
      ~ carried (s.running ++ s.completed ++ s.failed) := by
  rcases carried_setStage h stage with ⟨others, hbefore, hafter⟩
  rw [carried_singleton, if_pos htask] at hbefore
  rw [carried_singleton, hstage, if_neg Bool.false_ne_true] at hafter
  exact (hafter.cons _).trans hbefore.symm

end

lemma places_enter {engine : Engine Nat} {task : WorkTask Nat}
    (h : s.engine.tasks ~ .work task :: engine.tasks) : (s.enter engine task).places ~ s.places := by
  have hqueued : s.queued ~ task.buf :: (s.enter engine task).queued := buffersOf_perm h
  have hcarried : carried ((s.enter engine task).running ++ s.completed ++ s.failed)
      = task.buf :: carried (s.running ++ s.completed ++ s.failed) := by
    exact carried_cons ⟨task.buf, .entered⟩ (s.running ++ s.completed ++ s.failed)
  calc (s.enter engine task).places ~ (s.enter engine task).queued
          ++ (task.buf :: carried (s.running ++ s.completed ++ s.failed) ++ s.system.entered) :=
        .of_eq (by rw [← hcarried]; rfl)
    _ ~ task.buf :: (s.enter engine task).queued
          ++ (carried (s.running ++ s.completed ++ s.failed) ++ s.system.entered) := perm_middle
    _ ~ s.places := hqueued.symm.append_right _

variable {task : FormatterTask}

lemma tasks_end {i : Nat} (h : s.running[i]? = some task) :
    s.running.eraseIdx i ++ (task :: s.completed) ++ s.failed ~ s.running ++ s.completed ++ s.failed
      ∧ s.running.eraseIdx i ++ s.completed ++ (task :: s.failed) ~ s.running ++ s.completed ++ s.failed := by
  have hbefore : task :: (s.running.eraseIdx i ++ s.completed ++ s.failed) ~ s.running ++ s.completed ++ s.failed := by
    exact ((perm_cons_eraseIdx h).symm.append_right _).append_right _
  constructor
  · exact (perm_middle.append_right _).trans hbefore
  · exact perm_middle.trans hbefore

/-- What an action of the source adds to the places. -/
def arrives (s : FormatterRun) : FormatterEvent → List Nat
  | .emitFromSource => [s.emitted + 1]
  | _ => []

section

variable {event : FormatterEvent} (h : Acts raw s event s')
include h

/-- No action other than an emission of the source brings or removes a raw buffer. -/
lemma Acts.places : s'.places ~ s.arrives event ++ s.places := by
  cases h with
  | emitFromSource => exact (buffersOf_perm (s.engine.tasks_writeAdmission _)).append_right _
  | @storeAdmission task rest hqueue =>
    refine .append_right _ (buffersOf_perm ?_)
    have htasks : s.engine.tasks = task :: { s.engine with admissionQueue := rest }.tasks := by
      rw [Engine.tasks, hqueue]
      rfl
    rw [htasks]
    exact Engine.tasks_enqueue _ task
  | takeAdmission hqueue =>
    apply places_enter
    rw [Engine.tasks, hqueue]
    rfl
  | take hqueue =>
    apply places_enter
    rw [Engine.tasks, hqueue, append_assoc, cons_append]
    exact perm_middle.trans (.of_eq (by rw [← append_assoc]; rfl))
  | @isInRange i sn htask =>
    refine (List.Perm.append_right _ ?_).append_left _
    apply carried_setStage_of_carries htask
    cases (s.system.shredder.isInRange sn).2 <;> rfl
  | @emitBuffer i sn full htask =>
    cases full with
    | true =>
      -- the queues are as before, and the task still is the only one that knows the buffer
      have hqueued : (s.engine.emitWork ⟨formatterPipeline, sn, false⟩ .REPEAT true).1.tasks = s.engine.tasks :=
        Engine.tasks_emitWork_of_refused rfl
      refine (buffersOf_perm (.of_eq hqueued)).append (.append_right _ ?_)
      exact carried_setStage_of_carries htask rfl
    | false =>
      have hqueued : buffersOf (s.engine.emitWork ⟨formatterPipeline, sn, false⟩ .REPEAT false).1.tasks
          ~ sn :: s.queued := buffersOf_perm (Engine.tasks_emitWork_of_accepted rfl)
      have hcarried : sn :: carried ((s.setStage i sn .returned).running ++ s.completed ++ s.failed)
          ~ carried (s.running ++ s.completed ++ s.failed) := carried_setStage_of_passes htask rfl rfl
      refine (hqueued.append_right _).trans ?_
      exact perm_middle.symm.trans ((List.Perm.append_right _ hcarried).append_left _)
  | @beginCall i sn system htask hsystem =>
    rcases beginCall_eq_some hsystem with ⟨shredder, call, _, rfl⟩
    have hcarried : sn :: carried ((s.setStage i sn .called).running ++ s.completed ++ s.failed)
        ~ carried (s.running ++ s.completed ++ s.failed) := carried_setStage_of_passes htask rfl rfl
    refine .append_left _ ?_
    exact perm_middle.trans (.append_right _ hcarried)
  | @endCall i sn system htask hsystem =>
    have hentered : system.entered = s.system.entered := entered_of_step hsystem
    refine .append_left _ (.append ?_ (.of_eq hentered))
    exact carried_setStage_of_carries htask rfl
  | complete htask => exact (List.Perm.append_right _ (carried_perm (tasks_end htask).1)).append_left _
  | fail htask => exact (List.Perm.append_right _ (carried_perm (tasks_end htask).2)).append_left _

lemma Acts.emitted : s'.emitted = s.emitted + (s.arrives event).length := by
  cases h <;> rfl

lemma Acts.completed (hs : ∀ task ∈ s.completed, task.stage = .returned ∨ task.stage = .refused) :
    ∀ task ∈ s'.completed, task.stage = .returned ∨ task.stage = .refused := by
  cases h with
  | complete _ hstage => exact forall_mem_cons.2 ⟨hstage, hs⟩
  | _ => exact hs

lemma Acts.places_perm (hs : s.places ~ range' 1 s.emitted) : s'.places ~ range' 1 s'.emitted := by
  have harrives : s.arrives event ++ range' 1 s.emitted ~ range' 1 s'.emitted := by
    rw [h.emitted]
    cases event with
    | emitFromSource =>
      rw [arrives, length_singleton, range'_1_concat, Nat.add_comm s.emitted 1]
      exact perm_append_comm
    | _ => exact .refl _
  exact h.places.trans ((hs.append_left _).trans harrives)

end

/-! ## Whole runs -/

def run (raw : ShredderInput) (taskQueueSize : Nat) (events : List FormatterEvent) : Option FormatterRun :=
  runFrom (step raw) (initial raw taskQueueSize) events

variable {taskQueueSize : Nat} {events : List FormatterEvent}

/-- The raw buffers are `1, …, emitted`, and each of them is in exactly one place. -/
lemma places_perm (h : run raw taskQueueSize events = some s) : s.places ~ range' 1 s.emitted :=
  runFrom_invariant (fun t => t.places ~ range' 1 t.emitted)
    (fun _ _ _ ht hstep => (acts_of_step hstep).places_perm ht) .nil h

lemma stage_of_completed (h : run raw taskQueueSize events = some s) :
    ∀ task ∈ s.completed, task.stage = .returned ∨ task.stage = .refused :=
  runFrom_invariant (fun t => ∀ task ∈ t.completed, task.stage = .returned ∨ task.stage = .refused)
    (fun _ _ _ ht hstep => (acts_of_step hstep).completed ht) (fun _ htask => absurd htask (by simp [initial])) h

/-! ### The shredder sees one call for each raw buffer -/

variable {sn : Nat}

lemma carried_running (h : s.places ~ range' 1 s.emitted) (hsn : sn ∈ carried s.running) :
    0 < sn ∧ sn ∉ s.system.entered := by
  have hcarried : sn ∈ carried (s.running ++ s.completed ++ s.failed) := by
    rw [carried_append, carried_append]
    exact mem_append_left _ (mem_append_left _ hsn)
  have hnodup : s.places.Nodup := h.nodup_iff.2 nodup_range'
  have hmem : sn ∈ range' 1 s.emitted := h.mem_iff.1 (mem_append_right _ (mem_append_left _ hcarried))
  have hdisjoint := (nodup_append.1 (nodup_append.1 hnodup).2.1).2.2
  exact ⟨(mem_range'_1.1 hmem).1, fun hentered => hdisjoint sn hcarried sn hentered rfl⟩

/-- The answer that a task got from `isInRange` was yes. -/
def AsksFirst (s : FormatterRun) : Prop :=
  ∀ task ∈ s.running, task.stage = .inRange → task.sequenceNumber ∈ s.system.inRange

lemma AsksFirst.setStage (h : s.AsksFirst) {system : ShredderSystem} (hsystem : s.system.inRange ⊆ system.inRange)
    {i : Nat} {stage : FormatterStage} (hstage : stage = .inRange → sn ∈ system.inRange) :
    ({ s with system := system }.setStage i sn stage).AsksFirst := by
  intro task htask htaskStage
  rcases mem_or_eq_of_mem_set htask with hold | rfl
  · exact hsystem (h task hold htaskStage)
  · exact hstage htaskStage

lemma inRange_of_endCall {sys sys' : ShredderSystem}
    (h : sys.step raw (.endCall sn) = some sys') : sys'.inRange = sys.inRange := by
  rw [ShredderSystem.step] at h
  split at h
  case h_1 call _ =>
    rcases endCall_eq_some h with ⟨shredder, buffers, rfl⟩
    rfl
  case h_2 => cases h

variable {event : FormatterEvent}

lemma Acts.asksFirst (h : Acts raw s event s') (hs : s.AsksFirst) : s'.AsksFirst := by
  cases h with
  | emitFromSource => exact hs
  | storeAdmission => exact hs
  | takeAdmission | take => exact forall_mem_cons.2 ⟨nofun, hs⟩
  | @isInRange i sn htask =>
    have hinRange : (s.system.askInRange sn).inRange
        = if (s.system.shredder.isInRange sn).2 then sn :: s.system.inRange else s.system.inRange := rfl
    cases hanswer : (s.system.shredder.isInRange sn).2 with
    | true =>
      rw [hanswer, if_pos rfl] at hinRange
      exact hs.setStage (hinRange ▸ subset_cons_self sn _) fun _ => hinRange ▸ mem_cons_self
    | false =>
      rw [hanswer, if_neg Bool.false_ne_true] at hinRange
      exact hs.setStage (hinRange ▸ .refl _) nofun
  | emitBuffer full htask =>
    cases full with
    | true | false => exact hs.setStage (.refl _) nofun
  | beginCall htask hsystem =>
    rcases beginCall_eq_some hsystem with ⟨shredder, call, _, rfl⟩
    exact hs.setStage (.refl _) nofun
  | endCall htask hsystem =>
    have hinRange := inRange_of_endCall hsystem
    exact hs.setStage (hinRange ▸ .refl _) nofun
  | complete htask | fail htask => exact fun task hmem => hs task (mem_of_mem_eraseIdx hmem)

/-- What an action does to the shredder is an event of the shredder system: `processSequenceNumber` is called
for a positive sequence number that is in range and that has not been handed to it before. -/
lemma Acts.system (h : Acts raw s event s') (hplaces : s.places ~ range' 1 s.emitted) (hs : s.AsksFirst) :
    ∃ events, runFrom (ShredderSystem.step raw) s.system events = some s'.system := by
  cases h with
  | @isInRange i sn htask => exact ⟨[.isInRange sn], rfl⟩
  | @beginCall i sn system htask hsystem =>
    have htask' : ⟨sn, .inRange⟩ ∈ s.running := mem_of_getElem? htask
    have hcarried : sn ∈ carried s.running := mem_carried.2 ⟨_, htask', rfl, rfl⟩
    have hguard : 0 < sn ∧ sn ∈ s.system.inRange ∧ sn ∉ s.system.entered :=
      ⟨(carried_running hplaces hcarried).1, hs _ htask' rfl, (carried_running hplaces hcarried).2⟩
    have hstep : s.system.step raw (.beginCall sn) = some system := by
      rw [ShredderSystem.step, if_pos hguard]
      exact hsystem
    exact ⟨[.beginCall sn], runFrom_cons_of_step hstep []⟩
  | @endCall i sn system htask hsystem => exact ⟨[.endCall sn], runFrom_cons_of_step hsystem []⟩
  | _ => exact ⟨[], rfl⟩

/-- The tasks of the formatter use the shredder as its callers are assumed to: for the shredder, every run of the
source, the queues and the workers is a run of `ShredderSystem`. -/
theorem formatter_run_refines_shredder (h : run raw taskQueueSize events = some s) :
    ∃ shredderEvents, ShredderSystem.run raw shredderEvents = some s.system := by
  have hinvariant : s.places ~ range' 1 s.emitted ∧ s.AsksFirst
      ∧ ∃ shredderEvents, ShredderSystem.run raw shredderEvents = some s.system := by
    refine runFrom_invariant (fun t => t.places ~ range' 1 t.emitted ∧ t.AsksFirst
      ∧ ∃ shredderEvents, ShredderSystem.run raw shredderEvents = some t.system) ?_ ?_ h
    · rintro t event t' ⟨hplaces, hasks, past, hpast⟩ hstep
      have hacts := acts_of_step hstep
      rcases hacts.system hplaces hasks with ⟨next, hnext⟩
      exact ⟨hacts.places_perm hplaces, hacts.asksFirst hasks, past ++ next, by
        rw [ShredderSystem.run, runFrom_append hpast, hnext]⟩
    · exact ⟨.nil, fun _ htask => absurd htask (by simp [initial]), [], rfl⟩
  exact hinvariant.2.2

/-- Two workers; the second of two raw buffers is handed to the shredder first. -/
def processTwo : List FormatterEvent :=
  [.emitFromSource, .storeAdmission, .emitFromSource, .storeAdmission, .take, .take, .isInRange 0, .isInRange 1,
    .beginCall 0, .beginCall 1, .endCall 0, .complete 0, .endCall 0, .complete 0]

theorem formatter_run_refines_shredder_two : ∃ raw s shredderEvents, run raw 10 processTwo = some s
      ∧ s.system.entered = [1, 2] ∧ ShredderSystem.run raw shredderEvents = some s.system := by
  have hrun : ∃ s, run ⟨1, fun _ => true, fun _ => ⟨none, 1, 0, 0⟩⟩ 10 processTwo = some s
      ∧ s.system.entered = [1, 2] := ⟨_, rfl, rfl⟩
  rcases hrun with ⟨s, hrun, hentered⟩
  rcases formatter_run_refines_shredder hrun with ⟨shredderEvents, h⟩
  exact ⟨_, s, shredderEvents, hrun, hentered, h⟩

/-! ### Refused emissions -/

/-- A task has emitted its buffer again and was refused. -/
def Refused (s : FormatterRun) : Prop :=
  ∃ task ∈ s.running ++ s.completed ++ s.failed, task.stage = .refused

lemma refused_of_perm (h : tasks ~ tasks') :
    (∃ task ∈ tasks, task.stage = .refused) ↔ ∃ task ∈ tasks', task.stage = .refused := by
  simp only [h.mem_iff]

lemma refused_setStage {i : Nat} (h : s.running[i]? = some task)
    (htask : task.stage ≠ .refused) (stage : FormatterStage) :
    (s.setStage i task.sequenceNumber stage).Refused ↔ s.Refused ∨ stage = .refused := by
  have hs : s.Refused ↔ ∃ other ∈ task :: (s.running.eraseIdx i ++ s.completed ++ s.failed), other.stage = .refused :=
    refused_of_perm (((perm_cons_eraseIdx h).append_right _).append_right _)
  have hs' : (s.setStage i task.sequenceNumber stage).Refused
      ↔ ∃ other ∈ ⟨task.sequenceNumber, stage⟩ :: (s.running.eraseIdx i ++ s.completed ++ s.failed),
          other.stage = .refused :=
    refused_of_perm (((set_perm_cons_eraseIdx h _).append_right _).append_right _)
  rw [hs, hs', exists_mem_cons_iff, exists_mem_cons_iff]
  constructor
  · rintro (hstage | hothers)
    · exact .inr hstage
    · exact .inl (.inr hothers)
  · rintro ((hstage | hothers) | hstage)
    · exact absurd hstage htask
    · exact .inr hothers
    · exact .inl hstage

lemma Acts.refused (h : Acts raw s event s') : s'.Refused ↔ s.Refused ∨ ∃ i, event = .emitBuffer i true := by
  cases h with
  | emitFromSource => simp [Refused]
  | storeAdmission => simp [Refused]
  | takeAdmission => simp [Refused, enter]
  | take => simp [Refused, enter]
  | @isInRange i sn htask =>
    have hstage : (if (s.system.shredder.isInRange sn).2 then FormatterStage.inRange else .outOfRange) ≠ .refused := by
      cases (s.system.shredder.isInRange sn).2 <;> simp
    refine (refused_setStage htask (by simp) _).trans ?_
    simp [hstage]
  | @emitBuffer i sn full htask =>
    refine (refused_setStage htask (by simp) _).trans ?_
    cases full <;> simp
  | beginCall htask => exact (refused_setStage htask (by simp) .called).trans (by simp)
  | endCall htask => exact (refused_setStage htask (by simp) .returned).trans (by simp)
  | complete htask => exact (refused_of_perm (tasks_end htask).1).trans (by simp [Refused])
  | fail htask => exact (refused_of_perm (tasks_end htask).2).trans (by simp [Refused])

/-- A run with a refused emission is one in which some emission found the queue full. -/
lemma refused_iff (h : run raw taskQueueSize events = some s) : s.Refused ↔ ∃ i, .emitBuffer i true ∈ events := by
  have hgeneral : ∀ (events : List FormatterEvent) (t t' : FormatterRun),
      runFrom (step raw) t events = some t' → (t'.Refused ↔ t.Refused ∨ ∃ i, .emitBuffer i true ∈ events) := by
    intro events
    induction events with
    | nil =>
      intro t t' hrun
      have htt : t = t' := by simpa using hrun
      simp [htt]
    | cons event rest ih =>
      intro t t' hrun
      rcases runFrom_cons_eq_some.1 hrun with ⟨t₁, hstep, hrest⟩
      rw [ih t₁ t' hrest, (acts_of_step hstep).refused, or_assoc, ← exists_or]
      simp [eq_comm]
  rw [hgeneral events _ s h]
  simp [Refused, initial]

/-! ## When no raw buffer is lost -/

/-- A raw buffer is in the shredder, in a queued or running task, or the query has been failed. -/
def Kept (s : FormatterRun) (sn : Nat) : Prop :=
  sn ∈ s.system.entered ∨ sn ∈ s.queued ∨ (∃ task ∈ s.running, task.sequenceNumber = sn) ∨ s.failed ≠ []

lemma kept_of_not_mem_completed (hplaces : s.places ~ range' 1 s.emitted)
    (hsn : 1 ≤ sn ∧ sn ≤ s.emitted) (hcompleted : sn ∉ carried s.completed) : s.Kept sn := by
  have hmem : sn ∈ s.places := hplaces.mem_iff.2 (mem_range'_1.2 ⟨hsn.1, by omega⟩)
  rw [places, carried_append, carried_append, mem_append, mem_append, mem_append, mem_append] at hmem
  rcases hmem with hqueued | ((hrunning | hcompleted') | hfailed) | hentered
  · exact .inr (.inl hqueued)
  · rcases mem_carried.1 hrunning with ⟨task, htask, _, hsn⟩
    exact .inr (.inr (.inl ⟨task, htask, hsn⟩))
  · exact absurd hcompleted' hcompleted
  · rcases mem_carried.1 hfailed with ⟨task, htask, _, _⟩
    exact .inr (.inr (.inr (ne_nil_of_mem htask)))
  · exact .inl hentered

/-- A buffer whose last task completed without passing it on is not kept once the other tasks are over. -/
lemma not_kept_of_mem_completed (hplaces : s.places ~ range' 1 s.emitted)
    (hcompleted : sn ∈ carried s.completed) (hrunning : s.running = []) (hfailed : s.failed = []) :
    1 ≤ sn ∧ sn ≤ s.emitted ∧ ¬ s.Kept sn := by
  have hcarried : sn ∈ carried (s.running ++ s.completed ++ s.failed) := by
    rw [carried_append, carried_append]
    exact mem_append_left _ (mem_append_right _ hcompleted)
  have hmem : sn ∈ range' 1 s.emitted := hplaces.mem_iff.1 (mem_append_right _ (mem_append_left _ hcarried))
  have hnodup : s.places.Nodup := hplaces.nodup_iff.2 nodup_range'
  rcases nodup_append.1 hnodup with ⟨_, hright, hqueued⟩
  have hentered := (nodup_append.1 hright).2.2
  refine ⟨(mem_range'_1.1 hmem).1, by have := (mem_range'_1.1 hmem).2; omega, ?_⟩
  rintro (hin | hin | ⟨task, hin, _⟩ | hin)
  · exact hentered sn hcarried sn hin rfl
  · exact hqueued sn hin sn (mem_append_left _ hcarried) rfl
  · exact absurd (hrunning ▸ hin) (by simp)
  · exact hin hfailed

/-- No raw buffer is handed to `processSequenceNumber` twice.  If no `REPEAT` emission found the queue full, then
every raw buffer is kept; and once all tasks are over, this is the only way to keep all of them. -/
theorem raw_buffers_kept_iff (h : run raw taskQueueSize events = some s) : s.system.entered.Nodup
      ∧ ((∀ i, .emitBuffer i true ∉ events) → ∀ sn, 1 ≤ sn → sn ≤ s.emitted → s.Kept sn)
      ∧ (s.running = [] → s.failed = [] →
          ((∀ sn, 1 ≤ sn → sn ≤ s.emitted → s.Kept sn) ↔ ∀ i, .emitBuffer i true ∉ events)) := by
  have hplaces := places_perm h
  have hlost : ∀ sn ∈ carried s.completed, ∃ i, .emitBuffer i true ∈ events := by
    intro sn hsn
    rcases mem_carried.1 hsn with ⟨task, htask, hcarries, _⟩
    rcases stage_of_completed h task htask with hstage | hstage
    · rw [hstage] at hcarries
      cases hcarries
    · exact (refused_iff h).1 ⟨task, mem_append_left _ (mem_append_right _ htask), hstage⟩
  have hkept : (∀ i, .emitBuffer i true ∉ events) → ∀ sn, 1 ≤ sn → sn ≤ s.emitted → s.Kept sn := by
    intro hroom sn hpos hle
    refine kept_of_not_mem_completed hplaces ⟨hpos, hle⟩ fun hsn => ?_
    rcases hlost sn hsn with ⟨i, hi⟩
    exact hroom i hi
  refine ⟨?_, hkept, fun hrunning hfailed => ⟨fun hall i hi => ?_, hkept⟩⟩
  · have hnodup : s.places.Nodup := hplaces.nodup_iff.2 nodup_range'
    exact (nodup_append.1 (nodup_append.1 hnodup).2.1).2.1
  · rcases (refused_iff h).2 ⟨i, hi⟩ with ⟨task, htask, hstage⟩
    rw [hrunning, hfailed, nil_append, append_nil] at htask
    have hsn : task.sequenceNumber ∈ carried s.completed := mem_carried.2 ⟨task, htask, by rw [hstage]; rfl, rfl⟩
    rcases not_kept_of_mem_completed hplaces hsn hrunning hfailed with ⟨hpos, hle, hnot⟩
    exact hnot (hall _ hpos hle)

/-! ### A buffer that is out of range -/

/-- One worker has taken the first raw buffer and has not asked `isInRange` yet; a second worker processes the
next `n` raw buffers. -/
def processBehindFirst : Nat → List FormatterEvent
  | 0 => [.emitFromSource, .storeAdmission, .take]
  | n + 1 => processBehindFirst n
    ++ [.emitFromSource, .storeAdmission, .take, .isInRange 0, .beginCall 0, .endCall 0, .complete 0]

lemma exists_run_processBehindFirst (raw : RawBuffers) (taskQueueSize : Nat) {n : Nat} (hn : n < 4095) :
    ∃ system completed, run raw taskQueueSize (processBehindFirst n) = some { initial raw taskQueueSize with
          system, completed, emitted := n + 1, running := [⟨1, .entered⟩] }
      ∧ ShredderInvariant raw system ∧ system.inFlight = [] ∧ ∀ sn ∈ system.entered, 1 < sn ∧ sn ≤ n + 1 := by
  induction n with
  | zero => exact ⟨_, [], rfl, .initial raw, rfl, fun _ h => absurd h not_mem_nil⟩
  | succ n ih =>
    rcases ih (by omega) with ⟨sys, completed, hrun, inv, hidle, hentered⟩
    have hrange : (n + 2) / 64 < initialNumBitmaps := by simp only [initialNumBitmaps]; omega
    have hnew : n + 2 ∉ sys.entered := fun hmem => absurd (hentered _ hmem).2 (by omega)
    rcases exists_run_call inv hidle (Nat.succ_pos _) hnew hrange with
      ⟨sys₁, sys₂, hbegin, hend, _, inv₂, hidle₂, hentered₂⟩
    refine ⟨sys₂, ⟨n + 2, .returned⟩ :: completed, ?_, inv₂, hidle₂, ?_⟩
    · rw [processBehindFirst, run, runFrom_append hrun]
      simp [runFrom, step, enter, setStage, initial, Engine.writeAdmission, Engine.enqueue,
        inv.isInRange_of_lt hrange, hbegin, hend]
    · rw [hentered₂]
      exact forall_mem_cons.2 ⟨by omega, fun sn hsn => ⟨(hentered sn hsn).1, (hentered sn hsn).2.trans (by omega)⟩⟩

/-- The second worker emits raw buffer 4096 again. -/
def repeatLast (full : Bool) : List FormatterEvent :=
  processBehindFirst 4094
    ++ [.emitFromSource, .storeAdmission, .take, .isInRange 0, .emitBuffer 0 full, .complete 0]

lemma exists_run_repeatLast (raw : RawBuffers) (taskQueueSize : Nat) (full : Bool) :
    ∃ system completed, run raw taskQueueSize (repeatLast full) = some { initial raw taskQueueSize with
          engine := ((initial raw taskQueueSize).engine.emitWork ⟨formatterPipeline, 4096, false⟩ .REPEAT full).1
          system, completed, emitted := 4096, running := [⟨1, .entered⟩] }
      ∧ 4096 ∉ system.entered := by
  rcases exists_run_processBehindFirst raw taskQueueSize (show 4094 < 4095 by decide) with
    ⟨sys, completed, hrun, inv, _, hentered⟩
  have hrange : (sys.shredder.isInRange 4096).2 = false := by
    rw [Bool.eq_false_iff, ne_eq, inv.isInRange_iff_of_not_entered fun hmem => absurd (hentered 1 hmem).1 (by decide)]
    decide
  refine ⟨sys.askInRange 4096, ⟨4096, if full then .refused else .returned⟩ :: completed, ?_, ?_⟩
  · rw [repeatLast, run, runFrom_append hrun]
    cases full <;> simp [runFrom, step, enter, setStage, initial, Engine.writeAdmission, Engine.enqueue,
      Engine.emitFromWorkTask, Engine.emitWork, hrange]
  · exact fun hmem => absurd (hentered 4096 hmem).2 (by decide)

/-- The queue has room when the last of 4096 raw buffers is emitted again: it is in the queue. -/
theorem repeated_buffer_kept : ∃ s, run (sampleBuffers fun _ => true) 10 (repeatLast false) = some s
      ∧ s.system.entered.Nodup ∧ s.emitted = 4096 ∧ s.running = [⟨1, .entered⟩] ∧ s.Kept 4096 := by
  rcases exists_run_repeatLast (sampleBuffers fun _ => true) 10 false with ⟨system, completed, hrun, _⟩
  have hroom : ∀ n i, .emitBuffer i true ∉ processBehindFirst n := by
    intro n i
    induction n with
    | zero => simp [processBehindFirst]
    | succ n ih => simp [processBehindFirst, ih]
  rcases raw_buffers_kept_iff hrun with ⟨hnodup, hkept, _⟩
  refine ⟨_, hrun, hnodup, rfl, rfl, hkept (fun i hi => ?_) 4096 (by decide) (le_refl _)⟩
  rcases mem_append.1 hi with hbefore | hlast
  · exact hroom 4094 i hbefore
  · exact absurd hlast (by simp)

/-- The queue stays full when the last of 4096 raw buffers is emitted again: the buffer is gone. -/
theorem refused_buffer_lost : ∃ s, run (sampleBuffers fun _ => true) 10 (repeatLast true) = some s
      ∧ s.emitted = 4096 ∧ 4096 ∉ s.system.entered ∧ 4096 ∉ s.queued
      ∧ s.running = [⟨1, .entered⟩] ∧ s.failed = [] := by
  rcases exists_run_repeatLast (sampleBuffers fun _ => true) 10 true with ⟨system, completed, hrun, hlost⟩
  exact ⟨_, hrun, rfl, hlost, not_mem_nil, rfl, rfl⟩

end FormatterRun
end MobilityNebula.QueryEngine
