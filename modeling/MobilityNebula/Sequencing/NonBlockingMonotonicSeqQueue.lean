import MobilityNebula.Library.InitialSegments
import MobilityNebula.Library.TransitionSystem
import MobilityNebula.Sequencing.ChunkCollector

/-!
# NonBlockingMonotonicSeqQueue — the value of the longest complete prefix

The queue stores the values of complete sequence numbers in a linked list of blocks, each at the position its
sequence number says, and moves its current sequence number forward as long as the next one is stored.  The
list is modelled from the head on: older blocks are not reachable any more.

For every order in which the chunks arrive the current sequence number is the end of the longest complete
prefix of the sequence numbers, and no check of the source fails (`currentValue_longest_prefix`).
-/

namespace MobilityNebula.Sequencing

open Library Function ChunkedInput List

/-! ## The queue -/

structure Container where
  seq : Nat
  value : Nat
  deriving DecidableEq, Repr

structure Block where
  blockIndex : Nat
  log : Nat → Container

def Block.create (blockIndex : Nat) : Block := ⟨blockIndex, fun _ => ⟨0, 0⟩⟩

structure NonBlockingMonotonicSeqQueue where
  head : Block
  /-- The blocks behind the head, following `next`. -/
  rest : List Block
  currentSeq : Nat
  chunks : ChunkCollector

namespace NonBlockingMonotonicSeqQueue

def create : NonBlockingMonotonicSeqQueue := ⟨Block.create 0, [], 0, ChunkCollector.create⟩

/-- The block with the given index and the blocks behind it; the list must be long enough. -/
def getTargetBlock (targetBlockIndex : Nat) : Block → List Block → Option (Block × List Block)
  | currentBlock, [] => if currentBlock.blockIndex < targetBlockIndex then none else some (currentBlock, [])
  | currentBlock, nextBlock :: rest =>
    if currentBlock.blockIndex < targetBlockIndex then getTargetBlock targetBlockIndex nextBlock rest
    else some (currentBlock, nextBlock :: rest)

/-- Writes the value to its slot, after the checks that the block is the right one. -/
def writeSlot (blockSize seq value : Nat) (block : Block) : Option Block :=
  if block.blockIndex * blockSize ≤ seq ∧ seq < block.blockIndex * blockSize + blockSize then
    some { block with log := update block.log (seq % blockSize) ⟨seq, value⟩ }
  else
    none

/-- The next block and the blocks behind it; a new one is appended at the end of the list. -/
def nextOrAppend (currentBlock : Block) : List Block → Block × List Block
  | [] => (Block.create (currentBlock.blockIndex + 1), [])
  | nextBlock :: rest => (nextBlock, rest)

/-- Walks to the block of a sequence number and appends blocks where the list ends.  Every pass moves on by
one block, so `seq / blockSize - head.blockIndex` passes are enough. -/
def emplaceFrom (blockSize seq value : Nat) : Nat → Block → List Block → Option (Block × List Block)
  | 0, currentBlock, rest =>
    if currentBlock.blockIndex < seq / blockSize then none
    else (writeSlot blockSize seq value currentBlock).map fun block => (block, rest)
  | fuel + 1, currentBlock, rest =>
    if currentBlock.blockIndex < seq / blockSize then
      let (nextBlock, blocksBehind) := nextOrAppend currentBlock rest
      (emplaceFrom blockSize seq value fuel nextBlock blocksBehind).map
        fun found => (currentBlock, found.1 :: found.2)
    else
      (writeSlot blockSize seq value currentBlock).map fun block => (block, rest)

variable (blockSize : Nat) (queue : NonBlockingMonotonicSeqQueue)

def emplaceValueInBlock (seq value : Nat) : Option NonBlockingMonotonicSeqQueue :=
  (emplaceFrom blockSize seq value (seq / blockSize - queue.head.blockIndex) queue.head queue.rest).map
    fun found => { queue with head := found.1, rest := found.2 }

/-- The loop that moves the current sequence number; `none` if the passes do not suffice. -/
def shiftLoop (blockSize : Nat) : Nat → NonBlockingMonotonicSeqQueue → Option NonBlockingMonotonicSeqQueue
  | 0, _ => none
  | fuel + 1, queue => do
    let (currentBlock, blocksBehind) ← getTargetBlock (queue.currentSeq / blockSize) queue.head queue.rest
    let nextSeqNumber := queue.currentSeq + 1
    if nextSeqNumber % blockSize = 0 then
      -- the next sequence number is the first of the next block
      match blocksBehind with
      | [] => some queue
      | nextBlock :: rest =>
        if (nextBlock.log 0).seq = nextSeqNumber then
          if queue.head.blockIndex = currentBlock.blockIndex then
            shiftLoop blockSize fuel { queue with currentSeq := nextSeqNumber, head := nextBlock, rest := rest }
          else
            shiftLoop blockSize fuel { queue with currentSeq := nextSeqNumber }
        else
          some queue
    else if (currentBlock.log (nextSeqNumber % blockSize)).seq = nextSeqNumber then
      shiftLoop blockSize fuel { queue with currentSeq := nextSeqNumber }
    else
      some queue

/-- The current sequence number stays within the blocks of the list, so this many passes are enough. -/
def shiftCurrentValue : Option NonBlockingMonotonicSeqQueue :=
  shiftLoop blockSize ((queue.head.blockIndex + queue.rest.length + 1) * blockSize - queue.currentSeq) queue

def emplace (sequenceData : SequenceData)
    (newValue : Nat) : Option NonBlockingMonotonicSeqQueue := do
  let (chunks, complete) ← queue.chunks.collect blockSize sequenceData newValue
  let queue := { queue with chunks := chunks }
  match complete with
  | none => some queue
  | some (sequenceNumber, value) =>
    if queue.currentSeq < sequenceNumber then do
      let queue ← queue.emplaceValueInBlock blockSize sequenceNumber value
      queue.shiftCurrentValue blockSize
    else
      none

def getCurrentValue : Option Nat := do
  let (currentBlock, _) ← getTargetBlock (queue.currentSeq / blockSize) queue.head queue.rest
  some (currentBlock.log (queue.currentSeq % blockSize)).value

end NonBlockingMonotonicSeqQueue

/-! ## The list of blocks -/

def containerOf (completed : Nat → Option Nat) (seq : Nat) : Container :=
  match completed seq with
  | some value => ⟨seq, value⟩
  | none => ⟨0, 0⟩

/-- The blocks have consecutive indices and hold the completed sequence numbers. -/
def IsChain (blockSize : Nat) (completed : Nat → Option Nat) : Nat → List Block → Prop
  | _, [] => True
  | index, block :: rest =>
    block.blockIndex = index ∧ (∀ i < blockSize, block.log i = containerOf completed (index * blockSize + i)) ∧
      IsChain blockSize completed (index + 1) rest

section Blocks

variable {blockSize : Nat} {completed : Nat → Option Nat}
variable {seq : Nat}

lemma containerOf_seq_iff (hpos : 0 < seq) : (containerOf completed seq).seq = seq ↔ (completed seq).isSome = true := by
  unfold containerOf
  cases completed seq with
  | none => simpa using Nat.ne_of_lt hpos
  | some value => simp

lemma containerOf_update_of_ne {seq' value : Nat} (hne : seq' ≠ seq) :
    containerOf (update completed seq (some value)) seq' = containerOf completed seq' := by
  rw [containerOf, containerOf, update_of_ne hne]

lemma containerOf_update_self (seq value : Nat) :
    containerOf (update completed seq (some value)) seq = ⟨seq, value⟩ := by
  rw [containerOf, update_self]

variable {index : Nat}

lemma containerOf_update_of_other_block (hpos : 0 < blockSize) {value : Nat}
    (hindex : index ≠ seq / blockSize) {i : Nat} (hi : i < blockSize) :
    containerOf (update completed seq (some value)) (index * blockSize + i)
      = containerOf completed (index * blockSize + i) := by
  refine containerOf_update_of_ne fun heq => hindex ?_
  rw [← heq, Nat.mul_comm, Nat.mul_add_div hpos, Nat.div_eq_of_lt hi, Nat.add_zero]

lemma IsChain.update_of_lt {value : Nat} {blocks : List Block} (hpos : 0 < blockSize)
    (h : IsChain blockSize completed index blocks) (hlt : seq / blockSize < index) :
    IsChain blockSize (update completed seq (some value)) index blocks := by
  induction blocks generalizing index with
  | nil => trivial
  | cons block rest ih =>
    rcases h with ⟨hindex, hlog, hrest⟩
    refine ⟨hindex, fun i hi => ?_, ih hrest (Nat.lt_succ_of_lt hlt)⟩
    rw [containerOf_update_of_other_block hpos (Nat.ne_of_gt hlt) hi]
    exact hlog i hi

lemma IsChain.singleton_create (hnothing : ∀ i < blockSize, completed (index * blockSize + i) = none) :
    IsChain blockSize completed index [Block.create index] := by
  refine ⟨rfl, fun i hi => ?_, trivial⟩
  rw [containerOf, hnothing i hi]
  rfl

lemma writeSlot_spec (hpos : 0 < blockSize) (value : Nat) {block : Block} {rest : List Block}
    (h : IsChain blockSize completed index (block :: rest)) (hindex : index = seq / blockSize) :
    ∃ block', NonBlockingMonotonicSeqQueue.writeSlot blockSize seq value block = some block' ∧
      IsChain blockSize (update completed seq (some value)) index (block' :: rest) := by
  rcases h with ⟨hblock, hlog, hrest⟩
  have hdiv : blockSize * (seq / blockSize) + seq % blockSize = seq := Nat.div_add_mod _ _
  have hmod := Nat.mod_lt seq hpos
  have hbounds : block.blockIndex * blockSize ≤ seq ∧ seq < block.blockIndex * blockSize + blockSize := by
    rw [hblock, hindex, Nat.mul_comm]
    omega
  refine ⟨_, if_pos hbounds, hblock, fun i hi => ?_, hrest.update_of_lt hpos (by omega)⟩
  by_cases hi' : i = seq % blockSize
  · have hseq : index * blockSize + i = seq := by rw [hi', hindex, Nat.mul_comm, hdiv]
    rw [hseq, containerOf_update_self, hi']
    exact update_self _ _ _
  · have hne : index * blockSize + i ≠ seq := by
      intro heq
      rw [hindex, Nat.mul_comm] at heq
      omega
    rw [containerOf_update_of_ne hne, ← hlog i hi]
    exact update_of_ne hi' _ _

/-- Storing a value: blocks are appended where the list is too short, and no check fails. -/
lemma emplaceFrom_spec (hpos : 0 < blockSize) (value : Nat) {fuel : Nat} {block : Block} {rest : List Block}
    (h : IsChain blockSize completed index (block :: rest)) (hindex : index ≤ seq / blockSize)
    (hfuel : seq / blockSize - index ≤ fuel)
    (hstored : ∀ s, (completed s).isSome = true → s / blockSize < index + rest.length + 1) :
    ∃ block' rest', NonBlockingMonotonicSeqQueue.emplaceFrom blockSize seq value fuel block rest
        = some (block', rest') ∧
      IsChain blockSize (update completed seq (some value)) index (block' :: rest') ∧
      rest.length ≤ rest'.length ∧ seq / blockSize < index + rest'.length + 1 := by
  induction fuel generalizing index block rest with
  | zero =>
    have htarget : index = seq / blockSize := by omega
    rcases writeSlot_spec hpos value h htarget with ⟨block', hwrite, hchain⟩
    refine ⟨block', rest, ?_, hchain, Nat.le_refl _, by omega⟩
    rw [NonBlockingMonotonicSeqQueue.emplaceFrom, if_neg (by rw [h.1]; omega), hwrite]
    rfl
  | succ fuel ih =>
    by_cases htarget : index = seq / blockSize
    · rcases writeSlot_spec hpos value h htarget with ⟨block', hwrite, hchain⟩
      refine ⟨block', rest, ?_, hchain, Nat.le_refl _, by omega⟩
      rw [NonBlockingMonotonicSeqQueue.emplaceFrom, if_neg (by rw [h.1]; omega), hwrite]
      rfl
    · -- the walk goes on; this block is not touched
      have hlt : block.blockIndex < seq / blockSize := by
        rw [h.1]
        omega
      have hhead : ∀ i < blockSize, block.log i
          = containerOf (update completed seq (some value)) (index * blockSize + i) := by
        intro i hi
        rw [containerOf_update_of_other_block hpos htarget hi]
        exact h.2.1 i hi
      have hnext : IsChain blockSize completed (index + 1) ((NonBlockingMonotonicSeqQueue.nextOrAppend block rest).1
              :: (NonBlockingMonotonicSeqQueue.nextOrAppend block rest).2) ∧
          rest.length ≤ (NonBlockingMonotonicSeqQueue.nextOrAppend block rest).2.length + 1 ∧
          (∀ s, (completed s).isSome = true →
            s / blockSize < index + 1 + (NonBlockingMonotonicSeqQueue.nextOrAppend block rest).2.length + 1) := by
        cases rest with
        | nil =>
          have hnothing : ∀ i < blockSize, completed ((index + 1) * blockSize + i) = none := by
            intro i hi
            cases hstore : completed ((index + 1) * blockSize + i) with
            | none => rfl
            | some v =>
              have hbound := hstored ((index + 1) * blockSize + i) (by rw [hstore]; rfl)
              rw [Nat.mul_comm, Nat.mul_add_div hpos, Nat.div_eq_of_lt hi] at hbound
              exact absurd hbound (by simp)
          refine ⟨?_, Nat.zero_le _, fun s hs => ?_⟩
          · rw [NonBlockingMonotonicSeqQueue.nextOrAppend, h.1]
            exact .singleton_create hnothing
          · exact Nat.lt_succ_of_lt (hstored s hs)
        | cons nextBlock rest =>
          refine ⟨h.2.2, Nat.le_refl _, fun s hs => ?_⟩
          have hbound := hstored s hs
          rw [length_cons] at hbound
          simp only [NonBlockingMonotonicSeqQueue.nextOrAppend]
          omega
      rcases ih hnext.1 (by omega) (by omega) hnext.2.2 with ⟨block', rest', hemplace, hchain, hle, hlength⟩
      refine ⟨block, block' :: rest', ?_, ⟨h.1, hhead, hchain⟩, ?_, ?_⟩
      · rw [NonBlockingMonotonicSeqQueue.emplaceFrom, if_pos hlt]
        simp only [hemplace, Option.map_some]
      · rw [length_cons]
        omega
      · rw [length_cons]
        omega

end Blocks

/-! ## The queue and the completed sequence numbers -/

/-- The queue holds the completed sequence numbers; all up to the current one are completed, and the head is
the block of the current one. -/
structure QueueRepresents (blockSize : Nat) (completed : Nat → Option Nat)
    (queue : NonBlockingMonotonicSeqQueue) : Prop where
  zero : completed 0 = none
  chain : IsChain blockSize completed (queue.currentSeq / blockSize) (queue.head :: queue.rest)
  stored : ∀ s, (completed s).isSome = true → s / blockSize < queue.currentSeq / blockSize + queue.rest.length + 1
  upToCurrent : ∀ s, 1 ≤ s → s ≤ queue.currentSeq → (completed s).isSome = true

namespace QueueRepresents

variable {blockSize : Nat} {completed : Nat → Option Nat} {queue : NonBlockingMonotonicSeqQueue}
  (h : QueueRepresents blockSize completed queue)
include h

lemma getTargetBlock :
    NonBlockingMonotonicSeqQueue.getTargetBlock (queue.currentSeq / blockSize) queue.head queue.rest
      = some (queue.head, queue.rest) := by
  have hnot : ¬ queue.head.blockIndex < queue.currentSeq / blockSize := by
    rw [h.chain.1]
    exact Nat.lt_irrefl _
  cases hrest : queue.rest with
  | nil | cons nextBlock rest => rw [NonBlockingMonotonicSeqQueue.getTargetBlock, if_neg hnot]

lemma getCurrentValue (hpos : 0 < blockSize) :
    queue.getCurrentValue blockSize = some ((completed queue.currentSeq).getD 0) := by
  have hslot := h.chain.2.1 (queue.currentSeq % blockSize) (Nat.mod_lt _ hpos)
  rw [Nat.div_add_mod'] at hslot
  rw [NonBlockingMonotonicSeqQueue.getCurrentValue, h.getTargetBlock]
  simp only [Option.bind_eq_bind, Option.bind_some, hslot, containerOf]
  cases completed queue.currentSeq with
  | none => rfl
  | some value => rfl

lemma emplaceValueInBlock (hpos : 0 < blockSize) {seq : Nat} (hseq : queue.currentSeq < seq) (value : Nat) :
    ∃ queue', queue.emplaceValueInBlock blockSize seq value = some queue' ∧
      queue'.currentSeq = queue.currentSeq ∧ queue'.chunks = queue.chunks ∧
      QueueRepresents blockSize (update completed seq (some value)) queue' := by
  have hindex : queue.currentSeq / blockSize ≤ seq / blockSize := Nat.div_le_div_right hseq.le
  rcases emplaceFrom_spec hpos value h.chain hindex (Nat.le_refl _) h.stored
    with ⟨block', rest', hemplace, hchain, hlength, hbound⟩
  refine ⟨⟨block', rest', queue.currentSeq, queue.chunks⟩, ?_, rfl, rfl, ?_⟩
  · rw [NonBlockingMonotonicSeqQueue.emplaceValueInBlock, h.chain.1, hemplace]
    rfl
  · refine ⟨?_, hchain, ?_, ?_⟩
    · rw [update_of_ne (by omega)]
      exact h.zero
    · intro s hs
      by_cases hseq' : s = seq
      · rw [hseq']
        exact hbound
      · rw [update_of_ne hseq'] at hs
        have := h.stored s hs
        simp only
        omega
    · intro s hs hle
      rw [update_of_ne (by simp only at hle; omega)]
      exact h.upToCurrent s hs hle

section

variable (hnext : (completed (queue.currentSeq + 1)).isSome = true)
include hnext

lemma upToNext : ∀ s, 1 ≤ s → s ≤ queue.currentSeq + 1 → (completed s).isSome = true := by
  intro s hs hle
  rcases Nat.lt_or_ge queue.currentSeq s with hlt | hge
  · rw [show s = queue.currentSeq + 1 by omega]
    exact hnext
  · exact h.upToCurrent s hs hge

lemma advanceInBlock (hmod : (queue.currentSeq + 1) % blockSize ≠ 0) :
    QueueRepresents blockSize completed { queue with currentSeq := queue.currentSeq + 1 } := by
  have hdiv : (queue.currentSeq + 1) / blockSize = queue.currentSeq / blockSize := by
    rw [Nat.succ_div, if_neg (fun hdvd => hmod (Nat.mod_eq_zero_of_dvd hdvd)), Nat.add_zero]
  refine ⟨h.zero, ?_, ?_, h.upToNext hnext⟩
  · simp only [hdiv]
    exact h.chain
  · intro s hs
    simp only [hdiv]
    exact h.stored s hs

lemma advanceToNextBlock (hmod : (queue.currentSeq + 1) % blockSize = 0) :
    ∃ nextBlock rest, queue.rest = nextBlock :: rest ∧ QueueRepresents blockSize completed
        { queue with currentSeq := queue.currentSeq + 1, head := nextBlock, rest := rest } := by
  have hdiv : (queue.currentSeq + 1) / blockSize = queue.currentSeq / blockSize + 1 := by
    rw [Nat.succ_div, if_pos (Nat.dvd_of_mod_eq_zero hmod)]
  have hbound := h.stored _ hnext
  cases hrest : queue.rest with
  | nil =>
    rw [hrest, length_nil, hdiv] at hbound
    exact absurd hbound (by omega)
  | cons nextBlock rest =>
    refine ⟨nextBlock, rest, rfl, h.zero, ?_, ?_, h.upToNext hnext⟩
    · have hchain := h.chain
      rw [hrest] at hchain
      simp only [hdiv]
      exact hchain.2.2
    · intro s hs
      have hold := h.stored s hs
      rw [hrest, length_cons] at hold
      simp only [hdiv]
      omega

end

variable (hpos : 0 < blockSize)
include hpos

lemma currentSeq_lt : queue.currentSeq < (queue.head.blockIndex + queue.rest.length + 1) * blockSize := by
  refine (Nat.div_lt_iff_lt_mul hpos).1 ?_
  rw [h.chain.1]
  omega

lemma nextInBlock_iff (hmod : (queue.currentSeq + 1) % blockSize ≠ 0) :
    (queue.head.log ((queue.currentSeq + 1) % blockSize)).seq = queue.currentSeq + 1 ↔
      (completed (queue.currentSeq + 1)).isSome = true := by
  have hdiv : (queue.currentSeq + 1) / blockSize = queue.currentSeq / blockSize := by
    rw [Nat.succ_div, if_neg (fun hdvd => hmod (Nat.mod_eq_zero_of_dvd hdvd)), Nat.add_zero]
  have hslot := h.chain.2.1 ((queue.currentSeq + 1) % blockSize) (Nat.mod_lt _ hpos)
  rw [← hdiv, Nat.div_add_mod'] at hslot
  rw [hslot]
  exact containerOf_seq_iff (Nat.succ_pos _)

lemma nextInNextBlock_iff (hmod : (queue.currentSeq + 1) % blockSize = 0) {nextBlock : Block} {rest : List Block}
    (hrest : queue.rest = nextBlock :: rest) :
    (nextBlock.log 0).seq = queue.currentSeq + 1 ↔ (completed (queue.currentSeq + 1)).isSome = true := by
  have hdiv : (queue.currentSeq + 1) / blockSize = queue.currentSeq / blockSize + 1 := by
    rw [Nat.succ_div, if_pos (Nat.dvd_of_mod_eq_zero hmod)]
  have hchain := h.chain
  rw [hrest] at hchain
  have hslot := hchain.2.2.2.1 0 hpos
  have hseq : (queue.currentSeq / blockSize + 1) * blockSize + 0 = queue.currentSeq + 1 := by
    rw [← hdiv, Nat.add_zero]
    exact Nat.div_mul_cancel (Nat.dvd_of_mod_eq_zero hmod)
  rw [hseq] at hslot
  rw [hslot]
  exact containerOf_seq_iff (Nat.succ_pos _)

/-- The loop moves the current sequence number to the end of the longest completed prefix. -/
lemma shiftLoop {fuel : Nat}
    (hfuel : (queue.head.blockIndex + queue.rest.length + 1) * blockSize - queue.currentSeq ≤ fuel) :
    ∃ queue', NonBlockingMonotonicSeqQueue.shiftLoop blockSize fuel queue = some queue' ∧
      queue'.chunks = queue.chunks ∧ QueueRepresents blockSize completed queue' ∧
      (completed (queue'.currentSeq + 1)).isSome = false := by
  have hroom := h.currentSeq_lt hpos
  induction fuel generalizing queue with
  | zero => exact absurd hfuel (by omega)
  | succ fuel ih =>
    rw [NonBlockingMonotonicSeqQueue.shiftLoop, h.getTargetBlock]
    simp only [Option.bind_eq_bind, Option.bind_some]
    by_cases hnext : (completed (queue.currentSeq + 1)).isSome = true
    · by_cases hmod : (queue.currentSeq + 1) % blockSize = 0
      · rcases h.advanceToNextBlock hnext hmod with ⟨nextBlock, rest, hrest, h'⟩
        have hindex : nextBlock.blockIndex + rest.length + 1 = queue.head.blockIndex + queue.rest.length + 1 := by
          have hchain := h.chain
          rw [hrest] at hchain
          rw [hchain.2.2.1, hchain.1, hrest, length_cons]
          omega
        rw [if_pos hmod, hrest]
        simp only [(h.nextInNextBlock_iff hpos hmod hrest).2 hnext, if_true]
        have hrun := ih h' (by simp only [hindex]; omega) (h'.currentSeq_lt hpos)
        exact hrun
      · rw [if_neg hmod, if_pos ((h.nextInBlock_iff hpos hmod).2 hnext)]
        have h' := h.advanceInBlock hnext hmod
        have hrun := ih h' (by simp only; omega) (h'.currentSeq_lt hpos)
        exact hrun
    · -- the next sequence number is missing, the loop ends
      have hstop : (completed (queue.currentSeq + 1)).isSome = false := by simpa using hnext
      refine ⟨queue, ?_, rfl, h, hstop⟩
      by_cases hmod : (queue.currentSeq + 1) % blockSize = 0
      · rw [if_pos hmod]
        cases hrest : queue.rest with
        | nil => rfl
        | cons nextBlock rest => exact if_neg fun heq => hnext ((h.nextInNextBlock_iff hpos hmod hrest).1 heq)
      · rw [if_neg hmod, if_neg fun heq => hnext ((h.nextInBlock_iff hpos hmod).1 heq)]

end QueueRepresents

/-! ## Arrivals in any order -/

namespace ChunkedInput

variable {input : ChunkedInput} {arrived : List (Nat × Nat)}

def completed (input : ChunkedInput) (arrived : List (Nat × Nat)) (s : Nat) : Option Nat :=
  if input.Complete arrived s then some (input.watermarkOf s) else none

lemma completed_isSome_iff {s : Nat} : (input.completed arrived s).isSome = true ↔ input.Complete arrived s := by
  unfold completed
  split_ifs with hcomplete
  · simp [hcomplete]
  · simp [hcomplete]

lemma completed_cons_of_complete {s c : Nat} (hcomplete : input.Complete ((s, c) :: arrived) s) :
    input.completed ((s, c) :: arrived) = update (input.completed arrived) s (some (input.watermarkOf s)) := by
  funext s'
  by_cases hs : s' = s
  · subst hs
    rw [update_self, completed, if_pos hcomplete]
  · rw [update_of_ne hs, completed, completed, if_congr (complete_cons_of_ne hs c) rfl rfl]

lemma completed_cons_of_incomplete {s c : Nat} (hincomplete : ¬ input.Complete ((s, c) :: arrived) s) :
    input.completed ((s, c) :: arrived) = input.completed arrived := by
  funext s'
  by_cases hs : s' = s
  · subst hs
    rw [completed, completed, if_neg hincomplete, if_neg fun h => hincomplete (h.cons _)]
  · rw [completed, completed, if_congr (complete_cons_of_ne hs c) rfl rfl]

end ChunkedInput

/-- The queue after the given chunks have arrived, the latest first. -/
structure QueueInvariant (blockSize : Nat) (input : ChunkedInput) (arrived : List (Nat × Nat))
    (queue : NonBlockingMonotonicSeqQueue) : Prop where
  arrival : IsArrival input.numberOfChunks arrived
  positive : ∀ a ∈ arrived, 0 < a.1
  collector : CollectorInvariant blockSize input arrived queue.chunks
  represents : QueueRepresents blockSize (input.completed arrived) queue
  longest : IsLongestPrefix (input.Complete arrived) queue.currentSeq

namespace QueueInvariant

variable {blockSize : Nat} {input : ChunkedInput} {arrived : List (Nat × Nat)}
  {queue : NonBlockingMonotonicSeqQueue}

lemma create (blockSize : Nat) (input : ChunkedInput) :
    QueueInvariant blockSize input [] NonBlockingMonotonicSeqQueue.create := by
  have hnothing : ∀ s, ¬ input.Complete [] s := fun s => not_complete_of_chunksOf_eq_nil rfl
  have hcompleted : ∀ s, input.completed [] s = none := fun s => if_neg (hnothing s)
  refine
    { arrival := .nil _, positive := by simp, collector := CollectorInvariant.create _ _,
      represents := ⟨hcompleted 0, ?_, ?_, ?_⟩, longest := ⟨?_, hnothing _⟩ }
  · simp only [NonBlockingMonotonicSeqQueue.create, Nat.zero_div]
    exact .singleton_create fun i _ => hcompleted _
  · intro s hs
    rw [hcompleted] at hs
    cases hs
  · intro s hs hle
    exact absurd (lt_of_lt_of_le hs hle) (by simp [NonBlockingMonotonicSeqQueue.create])
  · intro s hs hle
    exact absurd (lt_of_lt_of_le hs hle) (by simp [NonBlockingMonotonicSeqQueue.create])

lemma getCurrentValue (hpos : 0 < blockSize) (inv : QueueInvariant blockSize input arrived queue) :
    queue.getCurrentValue blockSize
      = some (if queue.currentSeq = 0 then 0 else input.watermarkOf queue.currentSeq) := by
  rw [inv.represents.getCurrentValue hpos]
  by_cases hzero : queue.currentSeq = 0
  · rw [if_pos hzero, hzero, inv.represents.zero]
    rfl
  · have hcomplete := inv.longest.all queue.currentSeq (by omega) (Nat.le_refl _)
    rw [if_neg hzero, completed, if_pos hcomplete]
    rfl

/-- A chunk that has not arrived before: no check fails. -/
lemma emplace (hpos : 0 < blockSize) (inv : QueueInvariant blockSize input arrived queue) {s c : Nat}
    (hs : 0 < s) (hnew : (s, c) ∉ arrived) (hc : 1 ≤ c) (hle : c ≤ input.numberOfChunks s) :
    ∃ queue', queue.emplace blockSize (input.data s c) (input.watermark s c) = some queue' ∧
      QueueInvariant blockSize input ((s, c) :: arrived) queue' := by
  have harrival : IsArrival input.numberOfChunks ((s, c) :: arrived) :=
    ⟨nodup_cons.2 ⟨hnew, inv.arrival.nodup⟩, forall_mem_cons.2 ⟨⟨hc, hle⟩, inv.arrival.bounds⟩⟩
  have hpositive : ∀ a ∈ (s, c) :: arrived, 0 < a.1 := forall_mem_cons.2 ⟨hs, inv.positive⟩
  have hincomplete := not_complete_of_new hnew hc hle
  rcases ChunkCollector.collect_spec hpos inv.collector inv.arrival hs hnew hc hle with ⟨chunks, hcollect, hcollector⟩
  by_cases hcomplete : input.Complete ((s, c) :: arrived) s
  · -- the sequence number is complete: it is stored and the current one may move
    rw [if_pos hcomplete] at hcollect
    have hcurrent : queue.currentSeq < s := by
      by_contra hge
      exact hincomplete (inv.longest.all s hs (Nat.le_of_not_lt hge))
    have hrepresents : QueueRepresents blockSize (input.completed arrived) { queue with chunks := chunks } :=
      ⟨inv.represents.zero, inv.represents.chain, inv.represents.stored, inv.represents.upToCurrent⟩
    rcases hrepresents.emplaceValueInBlock hpos hcurrent (input.watermarkOf s)
      with ⟨queue₁, hemplace, hcurrent₁, hchunks₁, h₁⟩
    rw [← completed_cons_of_complete hcomplete] at h₁
    rcases h₁.shiftLoop hpos (Nat.le_refl _) with ⟨queue₂, hshift, hchunks₂, h₂, hstop⟩
    refine ⟨queue₂, ?_, harrival, hpositive, ?_, h₂, ⟨?_, ?_⟩⟩
    · rw [NonBlockingMonotonicSeqQueue.emplace, hcollect]
      simp only [Option.bind_eq_bind, Option.bind_some, if_pos hcurrent, hemplace]
      exact hshift
    · rw [hchunks₂, hchunks₁]
      exact hcollector
    · intro s' hs' hle'
      exact ChunkedInput.completed_isSome_iff.1 (h₂.upToCurrent s' hs' hle')
    · intro hnext
      rw [ChunkedInput.completed_isSome_iff.2 hnext] at hstop
      cases hstop
  · rw [if_neg hcomplete] at hcollect
    have hcompleted := completed_cons_of_incomplete hcomplete
    refine ⟨{ queue with chunks := chunks }, ?_, harrival, hpositive, hcollector, ?_, ⟨?_, ?_⟩⟩
    · rw [NonBlockingMonotonicSeqQueue.emplace, hcollect]
      rfl
    · rw [hcompleted]
      exact ⟨inv.represents.zero, inv.represents.chain, inv.represents.stored, inv.represents.upToCurrent⟩
    · intro s' hs' hle'
      exact (inv.longest.all s' hs' hle').cons _
    · intro hnext
      rw [← completed_isSome_iff, hcompleted, completed_isSome_iff] at hnext
      exact inv.longest.stops hnext

end QueueInvariant

namespace NonBlockingMonotonicSeqQueue

def emplaceChunk (blockSize : Nat) (input : ChunkedInput) (queue : NonBlockingMonotonicSeqQueue)
    (a : Nat × Nat) : Option NonBlockingMonotonicSeqQueue :=
  queue.emplace blockSize (input.data a.1 a.2) (input.watermark a.1 a.2)

def run (blockSize : Nat) (input : ChunkedInput) (arrivals : List (Nat × Nat)) : Option NonBlockingMonotonicSeqQueue :=
  runFrom (emplaceChunk blockSize input) create arrivals

end NonBlockingMonotonicSeqQueue

lemma QueueInvariant.runFrom {blockSize : Nat} (hpos : 0 < blockSize) {input : ChunkedInput}
    {arrived arrivals : List (Nat × Nat)} {queue : NonBlockingMonotonicSeqQueue}
    (inv : QueueInvariant blockSize input arrived queue) (hnodup : (arrivals.reverse ++ arrived).Nodup)
    (hbounds : ∀ a ∈ arrivals, 0 < a.1 ∧ 1 ≤ a.2 ∧ a.2 ≤ input.numberOfChunks a.1) :
    ∃ queue', Library.runFrom (NonBlockingMonotonicSeqQueue.emplaceChunk blockSize input) queue arrivals = some queue' ∧
      QueueInvariant blockSize input (arrivals.reverse ++ arrived) queue' := by
  induction arrivals generalizing arrived queue with
  | nil => exact ⟨queue, rfl, inv⟩
  | cons a rest ih =>
    rcases a with ⟨s, c⟩
    rcases hbounds (s, c) mem_cons_self with ⟨hs, hc, hle⟩
    rw [reverse_cons, append_assoc, singleton_append] at hnodup ⊢
    have hnew : (s, c) ∉ arrived := (nodup_cons.1 (nodup_append.1 hnodup).2.1).1
    rcases inv.emplace hpos hs hnew hc hle with ⟨queue₁, hemplace, inv₁⟩
    have hstep : NonBlockingMonotonicSeqQueue.emplaceChunk blockSize input queue (s, c) = some queue₁ := hemplace
    rw [runFrom_cons_of_step hstep]
    exact ih inv₁ hnodup fun b hb => hbounds b (mem_cons_of_mem _ hb)

/-- For every block size and every order in which chunks arrive, no check fails and the queue returns the
largest watermark of the last sequence number of the longest complete prefix, or 0 if that is empty. -/
theorem currentValue_longest_prefix (blockSize : Nat) (hblockSize : 1 ≤ blockSize) (input : ChunkedInput)
    (arrivals : List (Nat × Nat)) (harrivals : IsArrival input.numberOfChunks arrivals)
    (hpositive : ∀ a ∈ arrivals, 1 ≤ a.1) :
    ∃ queue p, NonBlockingMonotonicSeqQueue.run blockSize input arrivals = some queue ∧
      IsLongestPrefix (input.Complete arrivals) p ∧
      queue.getCurrentValue blockSize = some (if p = 0 then 0 else input.watermarkOf p) := by
  have hbounds : ∀ a ∈ arrivals, 0 < a.1 ∧ 1 ≤ a.2 ∧ a.2 ≤ input.numberOfChunks a.1 :=
    fun a ha => ⟨hpositive a ha, harrivals.bounds a ha⟩
  rcases (QueueInvariant.create blockSize input).runFrom hblockSize
    (by rw [append_nil]; exact nodup_reverse.2 harrivals.nodup) hbounds with ⟨queue, hrun, inv⟩
  have hcomplete : ∀ s, input.Complete (arrivals.reverse ++ []) s ↔ input.Complete arrivals s := by
    intro s
    simp only [ChunkedInput.Complete, AllChunks, mem_chunksOf, append_nil, mem_reverse]
  refine ⟨queue, queue.currentSeq, hrun, ⟨?_, ?_⟩, inv.getCurrentValue hblockSize⟩
  · intro s hs hle
    exact (hcomplete s).1 (inv.longest.all s hs hle)
  · intro hnext
    exact inv.longest.stops ((hcomplete _).2 hnext)

/-- Two chunks for each sequence number, blocks of two slots, and sequence number 3 still missing. -/
def twoChunks : ChunkedInput where
  numberOfChunks _ := 2
  numberOfChunks_pos _ := Nat.two_pos
  watermark s c := 10 * s + c

theorem currentValue_longest_prefix_applies :
    IsArrival twoChunks.numberOfChunks [(2, 1), (1, 2), (4, 2), (1, 1), (4, 1), (2, 2)] ∧
    ∃ queue p, NonBlockingMonotonicSeqQueue.run 2 twoChunks [(2, 1), (1, 2), (4, 2), (1, 1), (4, 1), (2, 2)]
        = some queue ∧
      IsLongestPrefix (twoChunks.Complete [(2, 1), (1, 2), (4, 2), (1, 1), (4, 1), (2, 2)]) p ∧
      queue.getCurrentValue 2 = some (if p = 0 then 0 else twoChunks.watermarkOf p) := by
  have harrivals : IsArrival twoChunks.numberOfChunks [(2, 1), (1, 2), (4, 2), (1, 1), (4, 1), (2, 2)] :=
    ⟨by decide, by decide⟩
  exact ⟨harrivals, currentValue_longest_prefix 2 (by decide) twoChunks _ harrivals (by decide)⟩

end MobilityNebula.Sequencing
