import MobilityNebula.Library.SortedMap
import MobilityNebula.Sequencing.ChunkCollector

/-!
# EmitOperatorHandler — chunk numbers of the buffers a pipeline emits

For each pair of origin and sequence number the handler counts the buffers emitted so far and the input chunks
seen so far, each in a map behind a lock of its own.  Every definition is one locked section;
`removeSequenceState` is two of them.

The second half is about one sequence number: the counts of `processChunkNumber` agree exactly when all of its
chunks have been seen.
-/

namespace MobilityNebula.Emit

open Library Sequencing

universe u

/-! ## The handler -/

structure SequenceState where
  lastChunkNumber : Nat
  seenChunks : Nat
  deriving DecidableEq, Repr

namespace SequenceState

def initial : SequenceState := ⟨0, 0⟩

def process (state : SequenceState) (chunkNumber : Nat) (isLastChunk : Bool) : SequenceState :=
  ⟨if isLastChunk then chunkNumber else state.lastChunkNumber, state.seenChunks + 1⟩

end SequenceState

/-- The keys are pairs of an origin and a sequence number; only their order matters. -/
structure EmitOperatorHandler (κ : Type u) [LinearOrder κ] where
  seqNumberOriginIdToChunkStateInput : SortedMap κ SequenceState
  seqNumberOriginIdToOutputChunkNumber : SortedMap κ Nat

namespace EmitOperatorHandler

variable {κ : Type u} [LinearOrder κ]

def create : EmitOperatorHandler κ := ⟨SortedMap.empty, SortedMap.empty⟩

section

variable (handler : EmitOperatorHandler κ)
include handler

def getNextChunkNumber (key : κ) : EmitOperatorHandler κ × Nat :=
  ({ handler with
      seqNumberOriginIdToOutputChunkNumber :=
        handler.seqNumberOriginIdToOutputChunkNumber.upsert key fun count => count.getD 0 + 1 },
    (handler.seqNumberOriginIdToOutputChunkNumber.find? key).getD 0 + 1)

def processChunkNumber (key : κ) (chunkNumber : Nat) (isLastChunk : Bool) :
    EmitOperatorHandler κ × Bool :=
  let state := ((handler.seqNumberOriginIdToChunkStateInput.find? key).getD .initial).process chunkNumber isLastChunk
  ({ handler with
      seqNumberOriginIdToChunkStateInput :=
        handler.seqNumberOriginIdToChunkStateInput.upsert key fun _ => state },
    state.seenChunks == state.lastChunkNumber)

/-- The first part of `removeSequenceState`. -/
def eraseOutputChunkNumber (key : κ) : EmitOperatorHandler κ :=
  { handler with
    seqNumberOriginIdToOutputChunkNumber := handler.seqNumberOriginIdToOutputChunkNumber.erase key }

/-- The second part of `removeSequenceState`. -/
def eraseChunkStateInput (key : κ) : EmitOperatorHandler κ :=
  { handler with
    seqNumberOriginIdToChunkStateInput := handler.seqNumberOriginIdToChunkStateInput.erase key }

end

end EmitOperatorHandler

structure OutputChunk where
  chunkNumber : Nat
  lastChunk : Bool
  deriving DecidableEq, Repr

/-! ## Counting chunks -/

namespace SequenceState

/-- The state after the given chunks of 1, …, k. -/
def after (k : Nat) (chunks : List Nat) : SequenceState := ⟨if k ∈ chunks then k else 0, chunks.length⟩

lemma process_after (k : Nat) (chunks : List Nat) (c : Nat) :
    (after k chunks).process c (c == k) = after k (c :: chunks) := by
  rw [process, after, after, SequenceState.mk.injEq]
  refine ⟨?_, rfl⟩
  by_cases hlast : c = k
  · simp [hlast]
  · have hmem : k ∈ c :: chunks ↔ k ∈ chunks := by simp [Ne.symm hlast]
    rw [if_congr hmem rfl rfl, if_neg (by simpa using hlast)]

lemma seen_eq_last_iff {k c : Nat} {chunks : List Nat} (h : IsChunkSet k (c :: chunks)) :
    ((after k (c :: chunks)).seenChunks == (after k (c :: chunks)).lastChunkNumber) = true ↔
      AllChunks k (c :: chunks) := by
  rw [beq_iff_eq, ← h.length_eq_iff]
  by_cases hk : k ∈ c :: chunks
  · simp only [after, if_pos hk]
  · -- without the last chunk the counter is 0, and not all chunks are there
    have hbounds := h.bounds c List.mem_cons_self
    have hnot : (c :: chunks).length ≠ k := fun hlength =>
      hk (h.length_eq_iff.1 hlength k (hbounds.1.trans hbounds.2) (le_refl k))
    simp only [after, if_neg hk]
    exact iff_of_false (by simp) hnot

end SequenceState

end MobilityNebula.Emit
