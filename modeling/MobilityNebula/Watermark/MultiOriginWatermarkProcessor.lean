import MobilityNebula.Sequencing.NonBlockingMonotonicSeqQueue

/-!
# MultiOriginWatermarkProcessor — the minimum over all origins

One queue for each origin, and the smallest of their values as the global watermark.  `updateWatermark_spec`
says what a call returns in terms of the chunks that have arrived so far, for every order of arrival.
-/

namespace MobilityNebula.Watermark

open Library Sequencing List

/-! ## The processor -/

/-- The block size the processor's queues are instantiated with. -/
def defaultBlockSize : Nat := 8192

def uint64Max : Nat := 2 ^ 64 - 1

/-- The origins with their queues. -/
structure MultiOriginWatermarkProcessor where
  watermarkProcessors : List (Nat × NonBlockingMonotonicSeqQueue)

namespace MultiOriginWatermarkProcessor

def create (origins : List Nat) : MultiOriginWatermarkProcessor :=
  ⟨origins.map fun origin => (origin, NonBlockingMonotonicSeqQueue.create)⟩

variable (processor : MultiOriginWatermarkProcessor)

def origins : List Nat :=
  processor.watermarkProcessors.map Prod.fst

/-- The loop over the origins: the value goes to the queue of every origin with the given id. -/
def emplaceAll (timestamp : Nat) (sequenceData : SequenceData) (origin : Nat) :
    List (Nat × NonBlockingMonotonicSeqQueue) → Option (List (Nat × NonBlockingMonotonicSeqQueue))
  | [] => some []
  | (id, queue) :: rest => do
    let queue ← if id = origin then queue.emplace defaultBlockSize sequenceData timestamp else some queue
    let rest ← emplaceAll timestamp sequenceData origin rest
    some ((id, queue) :: rest)

/-- The loop over the queues, with the smallest value so far. -/
def minimalWatermark : List (Nat × NonBlockingMonotonicSeqQueue) → Nat → Option Nat
  | [], minimal => some minimal
  | (_, queue) :: rest, minimal => do
    let value ← queue.getCurrentValue defaultBlockSize
    minimalWatermark rest (min minimal value)

def getCurrentWatermark : Option Nat :=
  minimalWatermark processor.watermarkProcessors uint64Max

def updateWatermark (timestamp : Nat) (sequenceData : SequenceData)
    (origin : Nat) : Option (MultiOriginWatermarkProcessor × Nat) := do
  let queues ← emplaceAll timestamp sequenceData origin processor.watermarkProcessors
  if origin ∈ processor.origins then do
    let watermark ← getCurrentWatermark ⟨queues⟩
    some (⟨queues⟩, watermark)
  else
    none

end MultiOriginWatermarkProcessor

/-! ## What the processor knows -/

/-- The watermark of an origin whose longest complete prefix ends at `p`. -/
def prefixWatermark (input : ChunkedInput) (p : Nat) : Nat := if p = 0 then 0 else input.watermarkOf p

/-- The processor after the given chunks of each origin have arrived. -/
structure ProcessorInvariant (inputs : Nat → ChunkedInput) (arrived : Nat → List (Nat × Nat))
    (processor : MultiOriginWatermarkProcessor) : Prop where
  queues : ∀ o queue, (o, queue) ∈ processor.watermarkProcessors →
    QueueInvariant defaultBlockSize (inputs o) (arrived o) queue

/-- The smallest watermark of the origins, each at the end of its longest complete prefix. -/
structure IsGlobalWatermark (origins : List Nat) (inputs : Nat → ChunkedInput) (arrived : Nat → List (Nat × Nat))
    (watermark : Nat) : Prop where
  le : ∀ o ∈ origins, ∀ p, IsLongestPrefix ((inputs o).Complete (arrived o)) p →
    watermark ≤ prefixWatermark (inputs o) p
  le_max : watermark ≤ uint64Max
  eq : watermark = uint64Max ∨ ∃ o ∈ origins, ∃ p, IsLongestPrefix ((inputs o).Complete (arrived o)) p ∧
    watermark = prefixWatermark (inputs o) p

namespace ProcessorInvariant

variable {inputs : Nat → ChunkedInput} {arrived : Nat → List (Nat × Nat)}
  {processor : MultiOriginWatermarkProcessor}

lemma create (inputs : Nat → ChunkedInput) (origins : List Nat) :
    ProcessorInvariant inputs (fun _ => []) (MultiOriginWatermarkProcessor.create origins) := by
  refine ⟨fun o queue hmem => ?_⟩
  rcases mem_map.1 hmem with ⟨o', _, heq⟩
  rw [Prod.mk.injEq] at heq
  rw [← heq.2]
  exact .create _ _

/-- The queue of an origin knows its longest complete prefix. -/
lemma exists_isLongestPrefix (inv : ProcessorInvariant inputs arrived processor) {o : Nat}
    (ho : o ∈ processor.origins) : ∃ p, IsLongestPrefix ((inputs o).Complete (arrived o)) p := by
  rcases mem_map.1 ho with ⟨⟨o', queue⟩, hmem, rfl⟩
  exact ⟨queue.currentSeq, (inv.queues o' queue hmem).longest⟩

variable {queues : List (Nat × NonBlockingMonotonicSeqQueue)}

lemma minimalWatermark_spec
    (hqueues : ∀ o queue, (o, queue) ∈ queues → QueueInvariant defaultBlockSize (inputs o) (arrived o) queue)
    (minimal : Nat) :
    ∃ watermark, MultiOriginWatermarkProcessor.minimalWatermark queues minimal = some watermark ∧ watermark ≤ minimal ∧
      (∀ o ∈ queues.map Prod.fst, ∀ p, IsLongestPrefix ((inputs o).Complete (arrived o)) p →
        watermark ≤ prefixWatermark (inputs o) p) ∧
      (watermark = minimal ∨ ∃ o ∈ queues.map Prod.fst, ∃ p,
        IsLongestPrefix ((inputs o).Complete (arrived o)) p ∧ watermark = prefixWatermark (inputs o) p) := by
  induction queues generalizing minimal with
  | nil => exact ⟨minimal, rfl, Nat.le_refl _, by simp, .inl rfl⟩
  | cons e rest ih =>
    rcases e with ⟨o, queue⟩
    have inv := hqueues o queue mem_cons_self
    have hvalue := inv.getCurrentValue (show 0 < defaultBlockSize by decide)
    rcases ih (fun o' queue' hmem => hqueues o' queue' (mem_cons_of_mem _ hmem))
      (min minimal (prefixWatermark (inputs o) queue.currentSeq)) with ⟨watermark, hrun, hle, hall, hattained⟩
    refine ⟨watermark, ?_, hle.trans (min_le_left _ _), ?_, ?_⟩
    · rw [MultiOriginWatermarkProcessor.minimalWatermark, hvalue]
      exact hrun
    · intro o' ho' p hp
      rcases mem_cons.1 ho' with rfl | ho'
      · rw [hp.unique inv.longest]
        exact hle.trans (min_le_right _ _)
      · exact hall o' ho' p hp
    · rcases hattained with heq | ⟨o', ho', hp⟩
      · rcases min_choice minimal (prefixWatermark (inputs o) queue.currentSeq) with hmin | hmin
        · exact .inl (heq.trans hmin)
        · exact .inr ⟨o, mem_cons_self, queue.currentSeq, inv.longest, heq.trans hmin⟩
      · exact .inr ⟨o', mem_cons_of_mem _ ho', hp⟩

lemma getCurrentWatermark (inv : ProcessorInvariant inputs arrived processor) :
    ∃ watermark, processor.getCurrentWatermark = some watermark ∧
      IsGlobalWatermark processor.origins inputs arrived watermark := by
  rcases minimalWatermark_spec inv.queues uint64Max with ⟨watermark, hrun, hle, hall, hattained⟩
  exact ⟨watermark, hrun, hall, hle, hattained⟩

def arrive (arrived : Nat → List (Nat × Nat)) (origin s c : Nat) : Nat → List (Nat × Nat) :=
  Function.update arrived origin ((s, c) :: arrived origin)

/-- The loop over the origins stores the chunk in the queues of its origin. -/
lemma emplaceAll_spec
    (hqueues : ∀ o queue, (o, queue) ∈ queues → QueueInvariant defaultBlockSize (inputs o) (arrived o) queue)
    {origin s c : Nat} (hs : 0 < s) (hnew : (s, c) ∉ arrived origin) (hc : 1 ≤ c)
    (hle : c ≤ (inputs origin).numberOfChunks s) :
    ∃ queues', MultiOriginWatermarkProcessor.emplaceAll ((inputs origin).watermark s c)
        ((inputs origin).data s c) origin queues = some queues' ∧
      queues'.map Prod.fst = queues.map Prod.fst ∧
      ∀ o queue, (o, queue) ∈ queues' →
        QueueInvariant defaultBlockSize (inputs o) (arrive arrived origin s c o) queue := by
  induction queues with
  | nil => exact ⟨[], rfl, rfl, by simp⟩
  | cons e rest ih =>
    rcases e with ⟨o, queue⟩
    have inv := hqueues o queue mem_cons_self
    rcases ih fun o' queue' hmem => hqueues o' queue' (mem_cons_of_mem _ hmem) with ⟨rest', hrest, hkeys, hinv⟩
    by_cases ho : o = origin
    · subst ho
      rcases inv.emplace (by decide) hs hnew hc hle with ⟨queue', hemplace, inv'⟩
      refine ⟨(o, queue') :: rest', ?_, ?_, ?_⟩
      · rw [MultiOriginWatermarkProcessor.emplaceAll, if_pos rfl, hemplace, hrest]
        rfl
      · rw [map_cons, map_cons, hkeys]
      · intro o' queue'' hmem
        rcases mem_cons.1 hmem with heq | hmem
        · rw [Prod.mk.injEq] at heq
          rw [heq.1, heq.2, arrive, Function.update_self]
          exact inv'
        · exact hinv o' queue'' hmem
    · refine ⟨(o, queue) :: rest', ?_, ?_, ?_⟩
      · rw [MultiOriginWatermarkProcessor.emplaceAll, if_neg ho, hrest]
        rfl
      · rw [map_cons, map_cons, hkeys]
      · intro o' queue'' hmem
        rcases mem_cons.1 hmem with heq | hmem
        · rw [Prod.mk.injEq] at heq
          rw [heq.1, heq.2, arrive, Function.update_of_ne ho]
          exact inv
        · exact hinv o' queue'' hmem

/-- Updating the watermark with a chunk that has not arrived before: no check fails, and the call returns
the global watermark of all chunks so far. -/
lemma updateWatermark_spec (inv : ProcessorInvariant inputs arrived processor) {origin s c : Nat}
    (horigin : origin ∈ processor.origins) (hs : 0 < s) (hnew : (s, c) ∉ arrived origin) (hc : 1 ≤ c)
    (hle : c ≤ (inputs origin).numberOfChunks s) :
    ∃ processor' watermark, processor.updateWatermark ((inputs origin).watermark s c) ((inputs origin).data s c) origin
        = some (processor', watermark) ∧
      processor'.origins = processor.origins ∧
      ProcessorInvariant inputs (arrive arrived origin s c) processor' ∧
      IsGlobalWatermark processor.origins inputs (arrive arrived origin s c) watermark := by
  rcases emplaceAll_spec inv.queues hs hnew hc hle with ⟨queues', hemplace, hkeys, hinv⟩
  have inv' : ProcessorInvariant inputs (arrive arrived origin s c) ⟨queues'⟩ := ⟨hinv⟩
  rcases inv'.getCurrentWatermark with ⟨watermark, hcurrent, hglobal⟩
  have horigins : (⟨queues'⟩ : MultiOriginWatermarkProcessor).origins = processor.origins := hkeys
  rw [horigins] at hglobal
  refine ⟨⟨queues'⟩, watermark, ?_, horigins, inv', hglobal⟩
  rw [MultiOriginWatermarkProcessor.updateWatermark, hemplace]
  simp only [Option.bind_eq_bind, Option.bind_some, if_pos horigin, hcurrent]

end ProcessorInvariant

end MobilityNebula.Watermark
