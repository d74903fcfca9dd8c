import MobilityNebula.QueryEngine.ThreadPool

/-!
# Emission — handing a buffer to the successors of a pipeline

A stage emits a buffer through a callback of its task.  For a `WorkTask` the callback enqueues one work task
per successor and stops at the first one that is refused; for a `StopPipelineTask` it enqueues one work task
per successor and does not look at the results.

Each attempt to enqueue may find the queue full.  Emission is *all or nothing* if the answer of the callback
tells whether all successors or none of them got the buffer; `emission_all_or_nothing_iff` says when it is.
-/

namespace MobilityNebula.QueryEngine

open scoped List

variable {β : Type}

inductive ContinuationPolicy where
  | POSSIBLE
  | REPEAT
  | NEVER
  deriving DecidableEq, Repr

namespace Engine

/-! ## Enqueueing one work task -/

variable (e : Engine β)

/-- `ThreadPool::emitWork` on a worker thread.  The event `full` says that the write to the internal queue
fails; for `REPEAT` and `NEVER` that is after a second of waiting. -/
def emitWork (task : WorkTask β) (policy : ContinuationPolicy) (full : Bool) : Engine β × Bool :=
  let e := e.withPlan (e.plan.addPending task.pipeline 1)
  match policy with
  | .POSSIBLE =>
    -- `addTaskOrDoItInPlace`: a task that does not fit into the queue is executed by the emitting worker
    if full then ((e.push (.hand (.work task))).accept task, true)
    else ((e.enqueue (.work task)).accept task, true)
  | .REPEAT | .NEVER =>
    if full then (e.withPlan (e.plan.addPending task.pipeline (-1)), false)
    else ((e.enqueue (.work task)).accept task, true)

section

variable {e : Engine β} {task : WorkTask β} {policy : ContinuationPolicy} {full : Bool}

/-- A work task is refused if the queue is full and the task may not be executed in place. -/
lemma emitWork_eq_false_iff : (e.emitWork task policy full).2 = false ↔ full = true ∧ policy ≠ .POSSIBLE := by
  cases policy <;> cases full <;> simp [emitWork]

lemma tasks_emitWork_of_refused
    (h : (e.emitWork task policy full).2 = false) : (e.emitWork task policy full).1.tasks = e.tasks := by
  rcases emitWork_eq_false_iff.1 h with ⟨rfl, hpolicy⟩
  cases policy with
  | POSSIBLE => exact absurd rfl hpolicy
  | REPEAT => rfl
  | NEVER => rfl

lemma tasks_emitWork_of_accepted (h : (e.emitWork task policy full).2 = true) :
    (e.emitWork task policy full).1.tasks.Perm (.work task :: e.tasks) := by
  cases policy with
  | POSSIBLE =>
    cases full with
    | true => exact tasks_push (e.withPlan (e.plan.addPending task.pipeline 1)) (.hand (.work task))
    | false => exact tasks_enqueue (e.withPlan (e.plan.addPending task.pipeline 1)) (.work task)
  | REPEAT | NEVER =>
    cases full with
    | true => cases h
    | false => exact tasks_enqueue (e.withPlan (e.plan.addPending task.pipeline 1)) (.work task)

end

/-! ## The callbacks -/

/-- `std::ranges::all_of` over the successors.  The events `full` are those of the attempts, in order. -/
def allOfEmitWork (policy : ContinuationPolicy) : List (WorkTask β) → (Nat → Bool) → Engine β → Engine β × Bool
  | [], _, e => (e, true)
  | task :: rest, full, e =>
    match e.emitWork task policy (full 0) with
    | (e', true) => allOfEmitWork policy rest (fun n => full (n + 1)) e'
    | (e', false) => (e', false)

/-- The loop over the successors while a pipeline is stopped. -/
def forEachEmitWork (policy : ContinuationPolicy) : List (WorkTask β) → (Nat → Bool) → Engine β → Engine β
  | [], _, e => e
  | task :: rest, full, e =>
    forEachEmitWork policy rest (fun n => full (n + 1)) (e.emitWork task policy (full 0)).1

/-- The work tasks a buffer is meant for: with `REPEAT` the pipeline itself, else its successors. -/
def workTaskTargets (p : PipelineId) (b : β) (policy : ContinuationPolicy) : List (WorkTask β) :=
  if policy = .REPEAT then [⟨p, b, false⟩] else (e.plan.node p).successors.map fun q => ⟨q, b, false⟩

/-- The emit callback of a `WorkTask`. -/
def emitFromWorkTask (p : PipelineId) (b : β) (policy : ContinuationPolicy)
    (full : Nat → Bool) : Engine β × Bool :=
  if policy = .REPEAT then e.emitWork ⟨p, b, false⟩ policy (full 0)
  else allOfEmitWork policy ((e.plan.node p).successors.map fun q => ⟨q, b, false⟩) full e

def stopPipelineTaskTargets (p : PipelineId) (b : β) : List (WorkTask β) :=
  (e.plan.node p).successors.map fun q => ⟨q, b, true⟩

/-- The emit callback of a `StopPipelineTask`. -/
def emitFromStopPipelineTask (terminating : Bool) (e : Engine β) (p : PipelineId) (b : β)
    (policy : ContinuationPolicy) (full : Nat → Bool) : Engine β × Bool :=
  if terminating then (e, true)
  else (forEachEmitWork policy (e.stopPipelineTaskTargets p b) full e, true)

/-! ## What the loops enqueue -/

/-- `all_of` enqueues an initial segment of its targets: all of them if it returns true, and those before the
first refused one if it returns false. -/
lemma allOfEmitWork_spec (policy : ContinuationPolicy) (targets : List (WorkTask β)) (full : Nat → Bool)
    (e : Engine β) :
    ∃ k ≤ targets.length, (allOfEmitWork policy targets full e).1.tasks.Perm ((targets.take k).map .work ++ e.tasks)
        ∧ ((allOfEmitWork policy targets full e).2 = true → k = targets.length)
        ∧ ((allOfEmitWork policy targets full e).2 = false →
            k < targets.length ∧ policy ≠ .POSSIBLE ∧ full k = true) := by
  induction targets generalizing full e with
  | nil => exact ⟨0, Nat.le_refl _, by simp [allOfEmitWork], by simp, by simp [allOfEmitWork]⟩
  | cons task rest ih =>
    cases hresult : (e.emitWork task policy (full 0)).2 with
    | false =>
      have hall : allOfEmitWork policy (task :: rest) full e = ((e.emitWork task policy (full 0)).1, false) := by
        rw [allOfEmitWork]
        split
        case h_1 e' heq => rw [heq] at hresult; cases hresult
        case h_2 e' heq => rw [heq]
      rcases emitWork_eq_false_iff.1 hresult with ⟨hfull, hpolicy⟩
      refine ⟨0, Nat.zero_le _, ?_, ?_, ?_⟩
      · rw [hall, tasks_emitWork_of_refused hresult]
        simp
      · rw [hall]
        simp
      · intro _
        exact ⟨Nat.succ_pos _, hpolicy, hfull⟩
    | true =>
      have hall : allOfEmitWork policy (task :: rest) full e
          = allOfEmitWork policy rest (fun n => full (n + 1)) (e.emitWork task policy (full 0)).1 := by
        rw [allOfEmitWork]
        split
        case h_1 e' heq => rw [heq]
        case h_2 e' heq => rw [heq] at hresult; cases hresult
      rcases ih (fun n => full (n + 1)) (e.emitWork task policy (full 0)).1 with ⟨k, hk, htasks, htrue, hfalse⟩
      rw [hall]
      refine ⟨k + 1, Nat.succ_le_succ hk, ?_, ?_, ?_⟩
      · calc
          _ ~ (rest.take k).map Task.work ++ (e.emitWork task policy (full 0)).1.tasks := htasks
          _ ~ (rest.take k).map Task.work ++ (Task.work task :: e.tasks) :=
                (tasks_emitWork_of_accepted hresult).append_left _
          _ ~ ((task :: rest).take (k + 1)).map Task.work ++ e.tasks := List.perm_middle
      · intro h
        rw [htrue h]
        rfl
      · intro h
        rcases hfalse h with ⟨hlt, hpolicy, hfull⟩
        exact ⟨Nat.succ_lt_succ hlt, hpolicy, hfull⟩

lemma tasks_forEachEmitWork_possible (targets : List (WorkTask β)) (full : Nat → Bool) (e : Engine β) :
    (forEachEmitWork .POSSIBLE targets full e).tasks.Perm (targets.map .work ++ e.tasks) := by
  induction targets generalizing full e with
  | nil => simp [forEachEmitWork]
  | cons task rest ih =>
    have haccepted : (e.emitWork task .POSSIBLE (full 0)).2 = true := by
      cases h : (e.emitWork task .POSSIBLE (full 0)).2 with
      | true => rfl
      | false => exact absurd rfl (emitWork_eq_false_iff.1 h).2
    calc
      (forEachEmitWork .POSSIBLE (task :: rest) full e).tasks
          ~ rest.map Task.work ++ (e.emitWork task .POSSIBLE (full 0)).1.tasks := ih _ _
      _ ~ rest.map Task.work ++ (Task.work task :: e.tasks) := (tasks_emitWork_of_accepted haccepted).append_left _
      _ ~ (task :: rest).map Task.work ++ e.tasks := List.perm_middle

lemma tasks_forEachEmitWork_full {policy : ContinuationPolicy} (hpolicy : policy ≠ .POSSIBLE)
    (targets : List (WorkTask β)) (e : Engine β) :
    (forEachEmitWork policy targets (fun _ => true) e).tasks = e.tasks := by
  induction targets generalizing e with
  | nil => rfl
  | cons task rest ih =>
    have hrefused : (e.emitWork task policy true).2 = false := emitWork_eq_false_iff.2 ⟨rfl, hpolicy⟩
    calc
      (forEachEmitWork policy (task :: rest) (fun _ => true) e).tasks = (e.emitWork task policy true).1.tasks := ih _
      _ = e.tasks := tasks_emitWork_of_refused hrefused

/-! ## All or nothing -/

/-- The answer false means that none of the targets got the buffer, the answer true that all of them did. -/
def AllOrNothing (targets : List (WorkTask β)) (result : Engine β × Bool) : Prop :=
  (result.2 = false → result.1.tasks.Perm e.tasks)
    ∧ (result.2 = true → result.1.tasks.Perm (targets.map .work ++ e.tasks))

/-- Bags of tasks that differ by some work tasks are different. -/
lemma eq_nil_of_perm_append {works : List (WorkTask β)} {tasks : List (Task β)}
    (h : tasks.Perm (works.map .work ++ tasks)) : works = [] := by
  have hlength : tasks.length = (works.map Task.work ++ tasks).length := h.length_eq
  rw [List.length_append, List.length_map] at hlength
  exact List.eq_nil_of_length_eq_zero (by omega)

lemma allOrNothing_emitWork (task : WorkTask β) (policy : ContinuationPolicy) (full : Bool) :
    AllOrNothing e [task] (e.emitWork task policy full) := by
  constructor
  · intro h
    rw [tasks_emitWork_of_refused h]
  · intro h
    exact tasks_emitWork_of_accepted h

/-- Two or more successors can be told apart: the queue may be full for the second one only. -/
lemma allOrNothing_allOfEmitWork_iff {policy : ContinuationPolicy} {targets : List (WorkTask β)} {e : Engine β} :
    (∀ full, AllOrNothing e targets (allOfEmitWork policy targets full e))
      ↔ policy = .POSSIBLE ∨ targets.length ≤ 1 := by
  constructor
  · intro h
    by_contra hnot
    rw [not_or, Nat.not_le] at hnot
    rcases hnot with ⟨hpolicy, htwo⟩
    rcases h (fun n => n == 1) with ⟨hfalse, htrue⟩
    rcases allOfEmitWork_spec policy targets (fun n => n == 1) e with ⟨k, hk, htasks, hktrue, hkfalse⟩
    cases targets with
    | nil => cases htwo
    | cons first rest =>
      cases rest with
      | nil => exact absurd htwo (by simp)
      | cons second rest =>
        -- the first attempt succeeds, the second one does not
        have hresult : (allOfEmitWork policy (first :: second :: rest) (fun n => n == 1) e).2 = false := by
          cases policy with
          | POSSIBLE => exact absurd rfl hpolicy
          | REPEAT => rfl
          | NEVER => rfl
        have hone : k = 1 := by simpa using (hkfalse hresult).2.2
        rw [hone] at htasks
        have hnone : [first] = [] := eq_nil_of_perm_append ((hfalse hresult).symm.trans htasks)
        exact List.cons_ne_nil _ _ hnone
  · intro h full
    rcases allOfEmitWork_spec policy targets full e with ⟨k, hk, htasks, htrue, hfalse⟩
    constructor
    · intro hresult
      rcases hfalse hresult with ⟨hlt, hpolicy, _⟩
      have hzero : k = 0 := by
        rcases h with h | h
        · exact absurd h hpolicy
        · omega
      simpa [hzero] using htasks
    · intro hresult
      rw [htrue hresult, List.take_length] at htasks
      exact htasks

/-- The emit callback of a running work task is all or nothing exactly if no buffer for several successors is
emitted with `NEVER`.  While a pipeline is stopped it is all or nothing exactly if there is no successor, or
the policy is `POSSIBLE` and the engine is not terminating. -/
theorem emission_all_or_nothing_iff (e : Engine β) (p : PipelineId) (b : β) (policy : ContinuationPolicy)
    (terminating : Bool) :
    ((∀ full, AllOrNothing e (e.workTaskTargets p b policy) (e.emitFromWorkTask p b policy full))
        ↔ policy ≠ .NEVER ∨ (e.plan.node p).successors.length ≤ 1)
      ∧ ((∀ full, AllOrNothing e (e.stopPipelineTaskTargets p b)
            (emitFromStopPipelineTask terminating e p b policy full))
          ↔ (terminating = false ∧ policy = .POSSIBLE) ∨ (e.plan.node p).successors = []) := by
  constructor
  · by_cases hrepeat : policy = .REPEAT
    · have hall : ∀ full, AllOrNothing e (e.workTaskTargets p b policy) (e.emitFromWorkTask p b policy full) := by
        intro full
        rw [workTaskTargets, emitFromWorkTask, if_pos hrepeat, if_pos hrepeat]
        exact allOrNothing_emitWork e ⟨p, b, false⟩ policy (full 0)
      exact iff_of_true hall (.inl (by rw [hrepeat]; simp))
    · simp only [workTaskTargets, emitFromWorkTask, if_neg hrepeat]
      rw [allOrNothing_allOfEmitWork_iff, List.length_map]
      cases policy with
      | POSSIBLE => simp
      | REPEAT => exact absurd rfl hrepeat
      | NEVER => simp
  · constructor
    · intro h
      by_contra hnot
      rw [not_or] at hnot
      rcases hnot with ⟨hpolicy, hsome⟩
      -- the callback returns true although nothing was enqueued
      have hnothing : (emitFromStopPipelineTask terminating e p b policy (fun _ => true)).1.tasks = e.tasks := by
        cases terminating with
        | true => rfl
        | false => exact tasks_forEachEmitWork_full (fun hp => hpolicy ⟨rfl, hp⟩) _ e
      have htrue : (emitFromStopPipelineTask terminating e p b policy (fun _ => true)).2 = true := by
        cases terminating <;> rfl
      have hperm := (h (fun _ => true)).2 htrue
      rw [hnothing] at hperm
      have hnil : e.stopPipelineTaskTargets p b = [] := eq_nil_of_perm_append hperm
      exact hsome (List.map_eq_nil_iff.1 hnil)
    · intro h full
      constructor
      · intro hresult
        cases terminating <;> cases hresult
      · intro _
        rcases h with ⟨rfl, rfl⟩ | hnone
        · exact tasks_forEachEmitWork_possible _ full e
        · have hnil : e.stopPipelineTaskTargets p b = [] := by rw [stopPipelineTaskTargets, hnone]; rfl
          rw [hnil]
          cases terminating with
          | true => simp [emitFromStopPipelineTask]
          | false => simp [emitFromStopPipelineTask, hnil, forEachEmitWork]

def twoSuccessors : Engine Nat where
  plan := {
    pipelines := [0, 1, 2]
    origins := []
    node := fun p => { successors := if p = 0 then [1, 2] else [], requiresTermination := true,
                       pendingTasks := 0, status := .shared }
    source := fun _ => { successors := [], status := .closed }
    state := .running }
  taskQueueSize := 1
  admissionQueue := []
  internalTaskQueue := []
  frames := []
  accepted := []
  executed := []

/-- The queue has room for one task: pipeline 1 gets buffer 7, pipeline 2 does not, and the callback returns
false.  A buffer emitted while pipeline 0 is stopped finds the queue full both times, nobody gets it, and the
callback returns true. -/
theorem second_successor_refused : (twoSuccessors.emitFromWorkTask 0 7 .NEVER (fun n => n == 1)).2 = false
      ∧ (twoSuccessors.emitFromWorkTask 0 7 .NEVER (fun n => n == 1)).1.tasks = [.work ⟨1, 7, false⟩]
      ∧ (emitFromStopPipelineTask false twoSuccessors 0 7 .NEVER (fun _ => true)).2 = true
      ∧ (emitFromStopPipelineTask false twoSuccessors 0 7 .NEVER (fun _ => true)).1.tasks = [] := by
  refine ⟨rfl, rfl, rfl, rfl⟩

end Engine

end MobilityNebula.QueryEngine
