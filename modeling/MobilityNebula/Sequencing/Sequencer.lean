import MobilityNebula.Sequencing.ChunkCollector

/-!
# Sequencer — values in the order of their sequence data

The sequencer knows which sequence number and chunk number comes next.  Values that come too early wait in a
priority queue, whose top is handed out if it is the next value once the current one is done.  The queue is
ordered by sequence number, chunk number and flag; the origin of a value plays no role.
-/

namespace MobilityNebula.Sequencing

universe u

namespace SequenceData

/-- The default comparison: first the sequence number, then the chunk number, then the flag. -/
def Less (a b : SequenceData) : Prop :=
  a.sequenceNumber < b.sequenceNumber ∨ a.sequenceNumber = b.sequenceNumber ∧
    (a.chunkNumber < b.chunkNumber ∨ a.chunkNumber = b.chunkNumber ∧ a.lastChunk < b.lastChunk)

instance (a b : SequenceData) : Decidable (Less a b) := inferInstanceAs (Decidable (_ ∨ _))

end SequenceData

/-! ## The priority queue -/

section Queue

variable {τ : Type u}

/-- The queue as the list of its elements in the order in which they are popped.  Among elements with the same
sequence data the older one stays in front; the source leaves their order open. -/
def pushQueue (element : SequenceData × τ) : List (SequenceData × τ) → List (SequenceData × τ)
  | [] => [element]
  | top :: rest => if element.1.Less top.1 then element :: top :: rest else top :: pushQueue element rest

variable {queue : List (SequenceData × τ)}

lemma mem_pushQueue {element e : SequenceData × τ} : e ∈ pushQueue element queue ↔ e = element ∨ e ∈ queue := by
  induction queue with
  | nil => simp [pushQueue]
  | cons top rest ih =>
    rw [pushQueue]
    split_ifs
    · exact List.mem_cons
    · rw [List.mem_cons, ih, List.mem_cons]
      exact or_left_comm

lemma length_pushQueue (element : SequenceData × τ) (queue : List (SequenceData × τ)) :
    (pushQueue element queue).length = queue.length + 1 := by
  induction queue with
  | nil => rfl
  | cons top rest ih =>
    rw [pushQueue]
    split_ifs
    · rfl
    · rw [List.length_cons, ih, List.length_cons]

/-- Positions of values: pairs of a sequence number and a chunk number. -/
def Precedes (p q : Nat × Nat) : Prop := p.1 < q.1 ∨ p.1 = q.1 ∧ p.2 < q.2

def SequenceData.position (data : SequenceData) : Nat × Nat := (data.sequenceNumber, data.chunkNumber)

def SequenceData.successor (data : SequenceData) : Nat × Nat :=
  if data.lastChunk then (data.sequenceNumber + 1, 1) else (data.sequenceNumber, data.chunkNumber + 1)

lemma precedes_of_not_less {a b : SequenceData} (hless : ¬ a.Less b) (hne : a.position ≠ b.position) :
    Precedes b.position a.position := by
  have hne' : ¬ (a.sequenceNumber = b.sequenceNumber ∧ a.chunkNumber = b.chunkNumber) := fun h => hne (Prod.ext h.1 h.2)
  simp only [SequenceData.Less, not_or] at hless
  simp only [Precedes, SequenceData.position]
  omega

lemma precedes_of_less {a b : SequenceData} (hless : a.Less b) (hne : a.position ≠ b.position) :
    Precedes a.position b.position := by
  rcases hless with hlt | ⟨heq, hlt | ⟨heq', _⟩⟩
  · exact .inl hlt
  · exact .inr ⟨heq, hlt⟩
  · exact absurd (Prod.ext heq heq') hne

lemma Precedes.trans {p q r : Nat × Nat} (hpq : Precedes p q) (hqr : Precedes q r) : Precedes p r := by
  simp only [Precedes] at *
  omega

/-- A queue of values with distinct positions is in the order of positions. -/
lemma sorted_pushQueue {element : SequenceData × τ}
    (hsorted : queue.Pairwise fun a b => Precedes a.1.position b.1.position)
    (hne : ∀ e ∈ queue, element.1.position ≠ e.1.position) :
    (pushQueue element queue).Pairwise fun a b => Precedes a.1.position b.1.position := by
  induction queue with
  | nil => exact List.pairwise_singleton _ _
  | cons top rest ih =>
    have hcons := List.pairwise_cons.1 hsorted
    have hnetop := hne top List.mem_cons_self
    rw [pushQueue]
    split_ifs with hless
    · have hfirst := precedes_of_less hless hnetop
      refine List.pairwise_cons.2 ⟨fun e he => ?_, hsorted⟩
      rcases List.mem_cons.1 he with rfl | he
      · exact hfirst
      · exact hfirst.trans (hcons.1 e he)
    · refine List.pairwise_cons.2 ⟨fun e he => ?_, ih hcons.2 fun e he => hne e (List.mem_cons_of_mem _ he)⟩
      rcases mem_pushQueue.1 he with rfl | he
      · exact precedes_of_not_less hless hnetop
      · exact hcons.1 e he

end Queue

/-! ## The sequencer -/

structure Sequencer (τ : Type u) where
  nextSequence : Nat
  nextChunkNumber : Nat
  queue : List (SequenceData × τ)

namespace Sequencer

variable {τ : Type u}

def create : Sequencer τ := ⟨1, 1, []⟩

variable (sequencer : Sequencer τ)

/-- The value itself if it is the next one; otherwise it waits in the queue. -/
def isNext (sequence : SequenceData) (data : τ) : Sequencer τ × Option τ :=
  if sequence.sequenceNumber = sequencer.nextSequence ∧ sequence.chunkNumber = sequencer.nextChunkNumber then
    (sequencer, some data)
  else
    ({ sequencer with queue := pushQueue (sequence, data) sequencer.queue }, none)

/-- Takes the top of the queue if it is the next value. -/
def popNext : Sequencer τ × Option τ :=
  match sequencer.queue with
  | [] => (sequencer, none)
  | top :: rest =>
    if top.1.sequenceNumber = sequencer.nextSequence ∧ top.1.chunkNumber = sequencer.nextChunkNumber then
      ({ sequencer with queue := rest }, some top.2)
    else
      (sequencer, none)

/-- Fails if the given sequence data is not the next one. -/
def advanceAndGetNext (data : SequenceData) : Option (Sequencer τ × Option τ) :=
  if sequencer.nextChunkNumber = data.chunkNumber ∧ data.sequenceNumber = sequencer.nextSequence then
    if data.lastChunk then
      some (popNext { sequencer with nextSequence := data.sequenceNumber + 1, nextChunkNumber := 1 })
    else
      some (popNext { sequencer with nextChunkNumber := data.chunkNumber + 1 })
  else
    none

/-! ## What the methods do -/

def next : Nat × Nat := (sequencer.nextSequence, sequencer.nextChunkNumber)

def moveTo (p : Nat × Nat) : Sequencer τ :=
  { sequencer with nextSequence := p.1, nextChunkNumber := p.2 }

variable {sequencer}
variable {data : SequenceData}

lemma position_eq_next_iff : data.position = sequencer.next ↔
      data.sequenceNumber = sequencer.nextSequence ∧ data.chunkNumber = sequencer.nextChunkNumber :=
  Prod.mk.injEq _ _ _ _ ▸ .rfl

variable {sequence : SequenceData}

lemma isNext_of_eq (h : sequence.position = sequencer.next)
    (data : τ) : sequencer.isNext sequence data = (sequencer, some data) :=
  if_pos (position_eq_next_iff.1 h)

lemma isNext_of_ne (h : sequence.position ≠ sequencer.next) (data : τ) :
    sequencer.isNext sequence data = ({ sequencer with queue := pushQueue (sequence, data) sequencer.queue }, none) :=
  if_neg fun heq => h (position_eq_next_iff.2 heq)

lemma popNext_cases (sequencer : Sequencer τ) : (sequencer.popNext = (sequencer, none) ∧
      ∀ top rest, sequencer.queue = top :: rest → top.1.position ≠ sequencer.next) ∨
    ∃ top rest, sequencer.queue = top :: rest ∧ top.1.position = sequencer.next ∧
      sequencer.popNext = ({ sequencer with queue := rest }, some top.2) := by
  cases hqueue : sequencer.queue with
  | nil =>
    refine .inl ⟨?_, by simp⟩
    simp only [popNext, hqueue]
  | cons top rest =>
    by_cases heq : top.1.position = sequencer.next
    · refine .inr ⟨top, rest, rfl, heq, ?_⟩
      simp only [popNext, hqueue, if_pos (position_eq_next_iff.1 heq)]
    · refine .inl ⟨?_, ?_⟩
      · simp only [popNext, hqueue, if_neg fun h => heq (position_eq_next_iff.2 h)]
      · intro top' rest' hcons
        rw [← (List.cons.inj hcons).1]
        exact heq

lemma advanceAndGetNext_of_eq (h : data.position = sequencer.next) :
    sequencer.advanceAndGetNext data = some (sequencer.moveTo data.successor).popNext := by
  rcases position_eq_next_iff.1 h with ⟨hsequence, hchunk⟩
  rw [advanceAndGetNext, if_pos ⟨hchunk.symm, hsequence⟩]
  cases hlast : data.lastChunk with
  | true => simp [moveTo, SequenceData.successor, hlast]
  | false => simp [moveTo, SequenceData.successor, hlast, hsequence]

lemma advanceAndGetNext_of_ne (h : data.position ≠ sequencer.next) : sequencer.advanceAndGetNext data = none :=
  if_neg fun heq => h (position_eq_next_iff.2 ⟨heq.2, heq.1.symm⟩)

end Sequencer

end MobilityNebula.Sequencing
