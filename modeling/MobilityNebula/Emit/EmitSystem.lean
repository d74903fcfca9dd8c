import MobilityNebula.Library.TransitionSystem
import MobilityNebula.Emit.EmitOperatorHandler

/-!
# EmitSystem — tasks that emit through one handler

Each input chunk is processed by a task.  It emits some full buffers and one closing buffer; for each of them
it first draws a chunk number, and for the closing buffer it then reports the input chunk as processed.  The
task that is told that its chunk was the last one removes the state of the sequence number and flags its
closing buffer.

A schedule is the order in which tasks execute their locked sections.  What happens to one sequence number does
not depend on the others (`view_step`), so the invariant is about the view of one sequence number.
-/

namespace MobilityNebula.Emit

open Library Sequencing Function EmitOperatorHandler SortedMap

universe u

/-! ## The system -/

/-- The chunks of the sequence numbers, and for each chunk how many full buffers its task emits. -/
structure EmitInput (κ : Type u) where
  numberOfChunks : κ → Nat
  numberOfChunks_pos : ∀ key, 0 < numberOfChunks key
  fullBuffers : κ → Nat → Nat

inductive TaskState where
  /-- So many full buffers have been emitted. -/
  | filling (full : Nat)
  /-- The closing buffer has got its chunk number. -/
  | closing (chunkNumber : Nat)
  /-- `processChunkNumber` has returned true. -/
  | completed (chunkNumber : Nat)
  /-- The first part of `removeSequenceState` is over. -/
  | removing (chunkNumber : Nat)
  | done
  deriving DecidableEq, Repr

namespace TaskState

/-- The chunk number of a closing buffer that was not emitted yet. -/
def held : TaskState → List Nat
  | .filling _ => []
  | .closing n => [n]
  | .completed n => [n]
  | .removing n => [n]
  | .done => []

def IsProcessed : TaskState → Prop
  | .filling _ => False
  | .closing _ => False
  | .completed _ => True
  | .removing _ => True
  | .done => True

end TaskState

structure EmitSystem (κ : Type u) [LinearOrder κ] where
  handler : EmitOperatorHandler κ
  tasks : κ × Nat → TaskState
  emitted : List (κ × OutputChunk)
  /-- The tasks that drew a chunk number, the latest first. -/
  drawn : List (κ × Nat)
  /-- The tasks that called `processChunkNumber`, the latest first. -/
  processed : List (κ × Nat)

namespace EmitSystem

variable {κ : Type u} [LinearOrder κ]

def initial : EmitSystem κ := ⟨EmitOperatorHandler.create, fun _ => .filling 0, [], [], []⟩

variable (input : EmitInput κ) (sys : EmitSystem κ)

/-- The next locked section of a task: `emitRecordBuffer` for a full buffer or for the closing one. -/
def step (task : κ × Nat) : Option (EmitSystem κ) :=
  if task.2 = 0 ∨ input.numberOfChunks task.1 < task.2 then
    none
  else
    match sys.tasks task with
    | .filling full =>
      let (handler, chunkNumber) := sys.handler.getNextChunkNumber task.1
      if full < input.fullBuffers task.1 task.2 then
        some { sys with
          handler := handler
          tasks := update sys.tasks task (.filling (full + 1))
          emitted := (task.1, ⟨chunkNumber, false⟩) :: sys.emitted
          drawn := task :: sys.drawn }
      else
        some { sys with
          handler := handler
          tasks := update sys.tasks task (.closing chunkNumber)
          drawn := task :: sys.drawn }
    | .closing chunkNumber =>
      let (handler, isLastChunk) :=
        sys.handler.processChunkNumber task.1 task.2 (task.2 == input.numberOfChunks task.1)
      if isLastChunk then
        some { sys with
          handler := handler
          tasks := update sys.tasks task (.completed chunkNumber)
          processed := task :: sys.processed }
      else
        some { sys with
          handler := handler
          tasks := update sys.tasks task .done
          emitted := (task.1, ⟨chunkNumber, false⟩) :: sys.emitted
          processed := task :: sys.processed }
    | .completed chunkNumber =>
      some { sys with
        handler := sys.handler.eraseOutputChunkNumber task.1
        tasks := update sys.tasks task (.removing chunkNumber) }
    | .removing chunkNumber =>
      some { sys with
        handler := sys.handler.eraseChunkStateInput task.1
        tasks := update sys.tasks task .done
        emitted := (task.1, ⟨chunkNumber, true⟩) :: sys.emitted }
    | .done => none

def run (schedule : List (κ × Nat)) : Option (EmitSystem κ) :=
  runFrom (step input) initial schedule

def emittedOf (key : κ) : List OutputChunk :=
  (sys.emitted.filter fun e => e.1 = key).map Prod.snd

def AllDone (key : κ) : Prop :=
  ∀ c, 1 ≤ c → c ≤ input.numberOfChunks key → sys.tasks (key, c) = .done

end EmitSystem

/-! ## One sequence number -/

/-- What the system holds for one sequence number. -/
structure SequenceView where
  nextChunk : Option Nat
  chunkState : Option SequenceState
  tasks : Nat → TaskState
  emitted : List OutputChunk
  drawn : List Nat
  processed : List Nat

namespace SequenceView

def initial : SequenceView := ⟨none, none, fun _ => .filling 0, [], [], []⟩

/-- The next locked section of the task of chunk `c`, of `k` chunks. -/
def step (k : Nat) (fullBuffers : Nat → Nat) (view : SequenceView) (c : Nat) : SequenceView :=
  match view.tasks c with
  | .filling full =>
    if full < fullBuffers c then
      { view with
        nextChunk := some (view.nextChunk.getD 0 + 1)
        tasks := update view.tasks c (.filling (full + 1))
        emitted := ⟨view.nextChunk.getD 0 + 1, false⟩ :: view.emitted
        drawn := c :: view.drawn }
    else
      { view with
        nextChunk := some (view.nextChunk.getD 0 + 1)
        tasks := update view.tasks c (.closing (view.nextChunk.getD 0 + 1))
        drawn := c :: view.drawn }
  | .closing n =>
    let state := (view.chunkState.getD .initial).process c (c == k)
    if state.seenChunks == state.lastChunkNumber then
      { view with
        chunkState := some state
        tasks := update view.tasks c (.completed n)
        processed := c :: view.processed }
    else
      { view with
        chunkState := some state
        tasks := update view.tasks c .done
        emitted := ⟨n, false⟩ :: view.emitted
        processed := c :: view.processed }
  | .completed n => { view with nextChunk := none, tasks := update view.tasks c (.removing n) }
  | .removing n =>
    { view with
      chunkState := none
      tasks := update view.tasks c .done
      emitted := ⟨n, true⟩ :: view.emitted }
  | .done => view

end SequenceView

namespace EmitSystem

variable {κ : Type u} [LinearOrder κ]

def view (sys : EmitSystem κ) (key : κ) : SequenceView where
  nextChunk := sys.handler.seqNumberOriginIdToOutputChunkNumber.find? key
  chunkState := sys.handler.seqNumberOriginIdToChunkStateInput.find? key
  tasks c := sys.tasks (key, c)
  emitted := sys.emittedOf key
  drawn := chunksOf sys.drawn key
  processed := chunksOf sys.processed key

lemma update_tasks_self (tasks : κ × Nat → TaskState) (key : κ) (c : Nat) (t : TaskState) :
    (fun c' => update tasks (key, c) t (key, c')) = update (fun c' => tasks (key, c')) c t := by
  funext c'
  by_cases heq : c' = c
  · rw [heq, update_self, update_self]
  · rw [update_of_ne heq, update_of_ne fun h => heq (Prod.mk.inj h).2]

/-- A step of a task is a step of the view of its sequence number, and no other view changes. -/
lemma view_step {input : EmitInput κ} {sys sys' : EmitSystem κ} {key : κ} {c : Nat}
    (hstep : sys.step input (key, c) = some sys') :
    1 ≤ c ∧ c ≤ input.numberOfChunks key ∧ sys.tasks (key, c) ≠ .done ∧
      sys'.view key = (sys.view key).step (input.numberOfChunks key) (input.fullBuffers key) c ∧
      ∀ key', key' ≠ key → sys'.view key' = sys.view key' := by
  unfold step at hstep
  split_ifs at hstep with hchunk
  rw [not_or] at hchunk
  have hpos : 1 ≤ c := Nat.pos_of_ne_zero hchunk.1
  have hle : c ≤ input.numberOfChunks key := Nat.le_of_not_lt hchunk.2
  cases htask : sys.tasks (key, c) with
  | filling full =>
    simp only [htask, getNextChunkNumber] at hstep
    split_ifs at hstep with hfull
    all_goals
      cases hstep
      refine ⟨hpos, hle, by simp, ?_, fun key' hne => ?_⟩
      · simp [view, SequenceView.step, htask, hfull, emittedOf, find?_upsert, chunksOf_cons_self,
          update_tasks_self]
      · simp [view, emittedOf, find?_upsert, chunksOf_cons_of_ne hne, hne, Ne.symm hne]
  | closing n =>
    simp only [htask] at hstep
    split_ifs at hstep with hlast
    all_goals
      cases hstep
      refine ⟨hpos, hle, by simp, ?_, fun key' hne => ?_⟩
      · rw [SequenceView.step]
        simp only [processChunkNumber] at hlast
        simp [view, htask, hlast, emittedOf, processChunkNumber, find?_upsert, chunksOf_cons_self, update_tasks_self]
      · simp [view, emittedOf, processChunkNumber, find?_upsert,
          chunksOf_cons_of_ne hne, hne, Ne.symm hne]
  | completed n =>
    simp only [htask, eraseOutputChunkNumber, Option.some_inj] at hstep
    subst hstep
    refine ⟨hpos, hle, by simp, ?_, fun key' hne => ?_⟩
    · rw [SequenceView.step]
      simp [view, htask, emittedOf, find?_erase, update_tasks_self]
    · simp [view, emittedOf, find?_erase, hne]
  | removing n =>
    simp only [htask, eraseChunkStateInput, Option.some_inj] at hstep
    subst hstep
    refine ⟨hpos, hle, by simp, ?_, fun key' hne => ?_⟩
    · rw [SequenceView.step]
      simp [view, htask, emittedOf, find?_erase, update_tasks_self]
    · simp [view, emittedOf, find?_erase, Ne.symm hne, hne]
  | done => simp [htask] at hstep

end EmitSystem

end MobilityNebula.Emit
