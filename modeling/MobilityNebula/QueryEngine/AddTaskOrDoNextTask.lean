import MobilityNebula.QueryEngine.EngineSteps

/-!
# AddTaskOrDoNextTask — one call, with other threads at work on the queue

The engine runs this function in steps that interleave with everything else.  Here one call is followed
from its beginning to its end.  What the other threads do shows in one place only: they decide what the
queue holds whenever the call turns to it.  The levels of the call are the steps `writeAdding`, `nextAdding`,
`missAdding` and `throwAdding` of the engine.
-/

namespace MobilityNebula.QueryEngine

open List
open Engine (maxStackLevel)

/-- The internal task queue as one call meets it: `content n` is what it holds at the call's `n`-th queue
operation. -/
structure ObservedQueue (τ : Type) where
  capacity : Nat
  content : Nat → List τ
  bounded : ∀ n, (content n).length ≤ capacity

inductive Settlement where
  | queued
  | executed
  deriving DecidableEq, Repr

/-- What a call has done: the tasks it read from the queue, and the tasks it wrote to the queue or executed. -/
structure CallLog (τ : Type) where
  operations : Nat
  taken : List τ
  settled : List (τ × Settlement)
  tooMuchWork : Bool
  deriving DecidableEq, Repr

namespace ObservedQueue

variable {τ : Type} (queue : ObservedQueue τ)

def isFull (operation : Nat) : Bool := queue.capacity ≤ (queue.content operation).length

/-- A write fails only if the queue is full.  `doTaskInPlace` turns every exception of the task into its
failure, so the task counts as executed. -/
def addTaskOrDoItInPlace (task : τ) (log : CallLog τ) : CallLog τ :=
  { log with
    operations := log.operations + 1
    settled := log.settled ++ [(task, if queue.isFull log.operations then .executed else .queued)] }

/-- `levelsLeft` is `MAX_STACK_LEVEL - stackLevel`.  The exception passes through all callers. -/
def addTaskOrDoNextTask (task : τ) : (levelsLeft : Nat) → CallLog τ → CallLog τ
  | 0, log => { log with tooMuchWork := true }
  | levelsLeft + 1, log =>
    if queue.isFull log.operations then
      let nextTask := (queue.content (log.operations + 1)).head?
      let log := addTaskOrDoNextTask task levelsLeft
        { log with operations := log.operations + 2, taken := log.taken ++ nextTask.toList }
      match log.tooMuchWork, nextTask with
      | false, some nextTask => queue.addTaskOrDoItInPlace nextTask log
      | _, _ => log
    else
      { log with operations := log.operations + 1, settled := log.settled ++ [(task, .queued)] }

/-- Level `k` of the call writes in the queue operation `2 * k`.  If one of these finds room, the task and
then the tasks taken on the way down are settled, the last one first. -/
lemma addTaskOrDoNextTask_spec (task : τ) (levelsLeft : Nat) (log : CallLog τ) (hlog : log.tooMuchWork = false) :
    let result := queue.addTaskOrDoNextTask task levelsLeft log
    ∃ added, result.taken = log.taken ++ added ∧
      (result.tooMuchWork = false ∧ (∃ k, k < levelsLeft ∧ queue.isFull (log.operations + 2 * k) = false) ∧
          result.settled.map Prod.fst = log.settled.map Prod.fst ++ task :: added.reverse ∨
        result.tooMuchWork = true ∧ (∀ k, k < levelsLeft → queue.isFull (log.operations + 2 * k) = true) ∧
          result.settled = log.settled) := by
  induction levelsLeft generalizing log with
  | zero => exact ⟨[], (append_nil _).symm, .inr ⟨rfl, nofun, rfl⟩⟩
  | succ levelsLeft ih =>
    cases hfull : queue.isFull log.operations with
    | false =>
      refine ⟨[], by simp [addTaskOrDoNextTask, hfull], .inl ⟨by simp [addTaskOrDoNextTask, hfull, hlog], ?_, ?_⟩⟩
      · exact ⟨0, by omega, hfull⟩
      · simp [addTaskOrDoNextTask, hfull]
    | true =>
      simp only [addTaskOrDoNextTask, hfull, if_true]
      generalize (queue.content (log.operations + 1)).head? = nextTask
      have hdeeper := ih ⟨log.operations + 2, log.taken ++ nextTask.toList, log.settled, log.tooMuchWork⟩ hlog
      generalize queue.addTaskOrDoNextTask task levelsLeft _ = result at hdeeper ⊢
      rcases hdeeper with
        ⟨added, htaken, ⟨hwork, ⟨k, hk, hroom⟩, hsettled⟩ | ⟨hwork, hno, hsettled⟩⟩
      · have hroom' : ∃ k, k < levelsLeft + 1 ∧ queue.isFull (log.operations + 2 * k) = false :=
          ⟨k + 1, by omega, by rwa [show log.operations + 2 * (k + 1) = log.operations + 2 + 2 * k by omega]⟩
        refine ⟨nextTask.toList ++ added, ?_⟩
        cases nextTask with
        | none => simpa [hwork, htaken, hsettled] using hroom'
        | some nextTask => simpa [hwork, htaken, hsettled, addTaskOrDoItInPlace] using hroom'
      · refine ⟨nextTask.toList ++ added, by simp [hwork, htaken],
          .inr ⟨by simp [hwork], ?_, by simp [hwork, hsettled]⟩⟩
        intro k hk
        cases k with
        | zero => exact hfull
        | succ k =>
          rw [show log.operations + 2 * (k + 1) = log.operations + 2 + 2 * k by omega]
          exact hno k (by omega)

/-- The call settles its task and every task it has taken, each of them once, if and only if one of its
writes finds room before the recursion limit. -/
theorem settles_all_iff (task : τ) :
    let log := queue.addTaskOrDoNextTask task maxStackLevel ⟨0, [], [], false⟩
    log.settled.map Prod.fst ~ task :: log.taken ↔ ∃ k, k < maxStackLevel ∧ queue.isFull (2 * k) = false := by
  intro log
  rcases queue.addTaskOrDoNextTask_spec task maxStackLevel ⟨0, [], [], false⟩ rfl with
    ⟨added, htaken, ⟨-, hroom, hsettled⟩ | ⟨-, hno, hsettled⟩⟩
  · simp only [Nat.zero_add] at hroom
    simp only [log, htaken, hsettled, hroom, iff_true]
    exact (reverse_perm added).cons task
  · simp only [Nat.zero_add] at hno
    simp only [log, hsettled, map_nil, nil_perm, reduceCtorEq, false_iff]
    rintro ⟨k, hk, hroom⟩
    rw [hno k hk] at hroom
    cases hroom

/-- A queue that the other threads fill up again after every read. -/
def alwaysFull : ObservedQueue Nat := ⟨1, fun _ => [0], fun _ => Nat.le_refl 1⟩

/-- The call gives up with nothing settled, neither its own task nor one of those it has read. -/
theorem tasks_lost :
    (alwaysFull.addTaskOrDoNextTask 1 maxStackLevel ⟨0, [], [], false⟩).settled = [] ∧
      (alwaysFull.addTaskOrDoNextTask 1 maxStackLevel ⟨0, [], [], false⟩).tooMuchWork = true := by
  rcases alwaysFull.addTaskOrDoNextTask_spec 1 maxStackLevel ⟨0, [], [], false⟩ rfl with
    ⟨-, -, ⟨-, ⟨k, -, hroom⟩, -⟩ | ⟨hwork, -, hsettled⟩⟩
  · cases hroom
  · exact ⟨hsettled, hwork⟩

/-! ## The levels of the call as steps of the engine -/

section

variable {β : Type} {queue : ObservedQueue (Task β)} {e : Engine β} {i level : Nat} {task : Task β}
  {log : CallLog (Task β)}

/-- At this operation the call meets the queue of the engine. -/
def Shows (queue : ObservedQueue (Task β)) (operation : Nat) (e : Engine β) : Prop :=
  queue.capacity = e.taskQueueSize ∧ queue.content operation = e.internalTaskQueue

lemma Shows.isFull_iff {operation : Nat} (h : queue.Shows operation e) : queue.isFull operation = true ↔ e.IsFull := by
  rw [isFull, decide_eq_true_iff, h.1, h.2]
  exact .rfl

variable (hframe : e.frames[i]? = some (.adding task log.taken level))
include hframe

lemma isAdding_of_frame {P : Nat → Bool} (hP : P level = true) : e.IsAdding P i := by
  rw [Engine.IsAdding, hframe]
  exact hP

lemma writeAdding_of_room (hlevel : level < maxStackLevel) (hshows : queue.Shows log.operations e)
    (hroom : queue.isFull log.operations = false) :
    e.Enabled (.writeAdding i) ∧ e.step (.writeAdding i) = some { (e.removeFrame i).enqueue task with
      frames := (e.removeFrame i).frames ++ log.taken.map .hand } := by
  refine ⟨⟨isAdding_of_frame hframe (decide_eq_true hlevel), fun hfull => ?_⟩, ?_⟩
  · rw [hshows.isFull_iff.2 hfull] at hroom
    cases hroom
  · simp only [Engine.step, hframe]

/-- A level that finds no room goes on with `missAdding`, or with `nextAdding` if the queue is still full when
it reads; the frame of the engine then has the tasks the call has taken. -/
lemma nextAdding_or_missAdding (hlevel : level < maxStackLevel) (hread : queue.Shows (log.operations + 1) e)
    (hfull : (queue.content (log.operations + 1)).head? ≠ none → queue.isFull (log.operations + 1) = true) :
    ∃ event e', (event = .nextAdding i ∨ event = .missAdding i) ∧ e.Enabled event ∧ e.step event = some e' ∧
      e'.frames = (e.removeFrame i).frames
        ++ [.adding task (log.taken ++ (queue.content (log.operations + 1)).head?.toList) (level + 1)] := by
  have hadding := isAdding_of_frame (P := fun level => level < maxStackLevel) hframe (decide_eq_true hlevel)
  rw [hread.isFull_iff, hread.2] at hfull
  rw [hread.2]
  cases hqueue : e.internalTaskQueue with
  | nil =>
    have hstep : e.step (.missAdding i) = some ((e.removeFrame i).push (.adding task log.taken (level + 1))) := by
      simp only [Engine.step, hframe]
    exact ⟨_, _, .inr rfl, ⟨hadding, hqueue⟩, hstep, by simp [Engine.push]⟩
  | cons next rest =>
    rw [hqueue] at hfull
    have hstep : e.step (.nextAdding i) = some ({ e.removeFrame i with internalTaskQueue := rest }.push
        (.adding task (log.taken ++ [next]) (level + 1))) := by
      simp only [Engine.step, hframe, hqueue]
    exact ⟨_, _, .inl rfl, ⟨hadding, hfull (by simp), by simp [hqueue]⟩, hstep, rfl⟩

lemma throwAdding_of_tooMuchWork (hlevel : maxStackLevel ≤ level) :
    (queue.addTaskOrDoNextTask task (maxStackLevel - level) log).tooMuchWork = true ∧
      e.Enabled (.throwAdding i) ∧ e.step (.throwAdding i) = some (e.removeFrame i) := by
  rw [Nat.sub_eq_zero_of_le hlevel]
  exact ⟨rfl, isAdding_of_frame hframe (decide_eq_true hlevel), rfl⟩

end

end ObservedQueue

end MobilityNebula.QueryEngine
