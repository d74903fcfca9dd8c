import MobilityNebula.SliceStore.StoreRuns
import MobilityNebula.Watermark.MultiOriginWatermarkProcessor

/-!
# WindowBasedOperatorHandler — build and probe around one slice store

A window operator has two sides.  The build side inserts the tuples of a buffer into the slice store and then
calls `checkAndTriggerWindows`: it updates the watermark of all input origins and emits the windows that end
before it, each as one or more trigger buffers.  The probe side processes the trigger buffers and then calls
`garbageCollectSlicesAndWindows`: it updates the watermark of the output origin and collects what ends before
it.

Both calls are several locked sections.  A worker that has left one of them holds the watermark it got, and
the sections of different workers interleave in any way.
-/

namespace MobilityNebula.Windows

open Library SliceStore Sequencing Watermark MultiOriginWatermarkProcessor

/-! ## The input -/

/-- The buffers of all origins, with the timestamps of their tuples and their watermarks.  Origins deliver in
order, and no buffer has a watermark above the largest timestamp of its sequence number. -/
structure InOrderInput where
  origins : List Nat
  numberOfChunks : Nat → Nat → Nat
  numberOfChunks_pos : ∀ o s, 0 < numberOfChunks o s
  timestamps : BufferId → List Nat
  watermark : BufferId → Nat
  watermark_le : ∀ o s c, 1 ≤ c → c ≤ numberOfChunks o s → watermark ⟨o, s, c⟩ = 0 ∨
    ∃ c', 1 ≤ c' ∧ c' ≤ numberOfChunks o s ∧ ∃ t ∈ timestamps ⟨o, s, c'⟩, watermark ⟨o, s, c⟩ ≤ t
  inOrder : ∀ o s s', s < s' → ∀ c c', ∀ t ∈ timestamps ⟨o, s, c⟩, ∀ t' ∈ timestamps ⟨o, s', c'⟩, t ≤ t'

namespace InOrderInput

variable (input : InOrderInput)

structure IsBuffer (b : BufferId) : Prop where
  origin : b.originId ∈ input.origins
  sequenceNumber : 1 ≤ b.sequenceNumber
  chunkNumber : 1 ≤ b.chunkNumber
  chunkNumber_le : b.chunkNumber ≤ input.numberOfChunks b.originId b.sequenceNumber

/-- What the watermark processor sees of an origin. -/
def chunked (o : Nat) : ChunkedInput where
  numberOfChunks := input.numberOfChunks o
  numberOfChunks_pos := input.numberOfChunks_pos o
  watermark s c := input.watermark ⟨o, s, c⟩

end InOrderInput

/-- How an operator makes trigger buffers from the slices of an emitted window: the slice ends that each of
them contains.  The trigger buffers of a window have the chunk numbers 1, 2, 3, …. -/
structure Triggering where
  sliceEnds : WindowSlices → List (List Nat)
  ne_nil : ∀ r, r.slices ≠ [] → sliceEnds r ≠ []
  mem : ∀ r, ∀ ends ∈ sliceEnds r, ∀ sliceEnd ∈ ends, ∃ s ∈ r.slices, s.sliceEnd = sliceEnd

/-- One trigger buffer for each window, with the hash maps of all its slices: an aggregation. -/
def Triggering.single : Triggering where
  sliceEnds r := [r.slices.map Slice.sliceEnd]
  ne_nil r _ := List.cons_ne_nil _ _
  mem r ends hends sliceEnd hmem := by
    rw [List.mem_singleton.1 hends] at hmem
    exact List.mem_map.1 hmem

/-! ## The handler -/

structure WindowBasedOperatorHandler where
  watermarkProcessorBuild : MultiOriginWatermarkProcessor
  watermarkProcessorProbe : MultiOriginWatermarkProcessor
  sliceAndWindowStore : DefaultTimeBasedSliceStore
  outputOriginId : Nat

namespace WindowBasedOperatorHandler

def start (inputOrigins : List Nat) (outputOriginId : Nat) (assigner : SliceAssigner) : WindowBasedOperatorHandler where
  watermarkProcessorBuild := create inputOrigins
  watermarkProcessorProbe := create [outputOriginId]
  sliceAndWindowStore := DefaultTimeBasedSliceStore.create assigner inputOrigins.length
  outputOriginId := outputOriginId

def updateBuild (handler : WindowBasedOperatorHandler) (watermarkTs : Nat) (seqNumber : SequenceData)
    (originId : Nat) : Option (WindowBasedOperatorHandler × Nat) := do
  let (processor, watermark) ← handler.watermarkProcessorBuild.updateWatermark watermarkTs seqNumber originId
  some ({ handler with watermarkProcessorBuild := processor }, watermark)

def updateProbe (handler : WindowBasedOperatorHandler) (watermarkTs : Nat) (seqNumber : SequenceData)
    (originId : Nat) : Option (WindowBasedOperatorHandler × Nat) := do
  let (processor, watermark) ← handler.watermarkProcessorProbe.updateWatermark watermarkTs seqNumber originId
  some ({ handler with watermarkProcessorProbe := processor }, watermark)

end WindowBasedOperatorHandler

/-! ## The workers -/

/-- A window query: the window definition, the input, and how windows are triggered. -/
structure WindowQuery where
  assigner : SliceAssigner
  input : InOrderInput
  outputOriginId : Nat
  triggering : Triggering

inductive HandlerEvent where
  /-- A worker inserts the next tuple of its buffer. -/
  | insert (b : BufferId)
  /-- A worker has inserted all tuples of its buffer and updates the watermark. -/
  | updateBuild (b : BufferId)
  | trigger (globalWatermark : Nat) (locked : Bool)
  /-- A worker has processed a trigger buffer of an emitted window and updates the watermark. -/
  | updateProbe (r : WindowSlices) (chunkNumber : Nat)
  | garbageCollectWindows (newGlobalWaterMark : Nat) (locked : Bool)
  | garbageCollectSlices (newGlobalWaterMark : Nat) (locked : Bool)

/-- The handler, what happened so far and the watermarks that workers hold. -/
structure HandlerSystem where
  handler : WindowBasedOperatorHandler
  history : StoreHistory
  inserted : List BufferId
  /-- For each origin the buffers that have updated the watermark. -/
  arrived : Nat → List (Nat × Nat)
  triggers : List Nat
  probed : List (Nat × Nat)
  windowCollections : List Nat
  sliceCollections : List Nat

namespace HandlerSystem

variable (query : WindowQuery)

def initial : HandlerSystem where
  handler := WindowBasedOperatorHandler.start query.input.origins query.outputOriginId query.assigner
  history := StoreHistory.initial
  inserted := []
  arrived := fun _ => []
  triggers := []
  probed := []
  windowCollections := []
  sliceCollections := []

variable (state : HandlerSystem)

def store : DefaultTimeBasedSliceStore := state.handler.sliceAndWindowStore

def Open (b : BufferId) : Prop :=
  query.input.IsBuffer b ∧ (b.sequenceNumber, b.chunkNumber) ∉ state.arrived b.originId

structure Unprobed (query : WindowQuery) (state : HandlerSystem) (r : WindowSlices) (chunkNumber : Nat) : Prop where
  emitted : r ∈ state.history.emitted
  one_le : 1 ≤ chunkNumber
  le_length : chunkNumber ≤ (query.triggering.sliceEnds r).length
  not_probed : (r.sequenceNumber, chunkNumber) ∉ state.probed

/-- Which events can happen: each worker goes through its sections in their order. -/
def Enabled : HandlerEvent → Prop
  | .insert b => Open query state b ∧ state.inserted.count b < (query.input.timestamps b).length
  | .updateBuild b => Open query state b ∧ state.inserted.count b = (query.input.timestamps b).length
  | .trigger globalWatermark _ => globalWatermark ∈ state.triggers
  | .updateProbe r chunkNumber => Unprobed query state r chunkNumber
  | .garbageCollectWindows newGlobalWaterMark _ => newGlobalWaterMark ∈ state.windowCollections
  | .garbageCollectSlices newGlobalWaterMark _ => newGlobalWaterMark ∈ state.sliceCollections

/-- The state after an event, or nothing if a check of the source fails. -/
def step : HandlerEvent → Option HandlerSystem
  | .insert b => do
    let timestamp ← (query.input.timestamps b)[state.inserted.count b]?
    let (store, slice) ← state.store.getSlicesOrCreate timestamp
    some { state with
      handler := { state.handler with sliceAndWindowStore := store }
      history := state.history.insert slice
      inserted := b :: state.inserted }
  | .updateBuild b => do
    let (handler, watermark) ← state.handler.updateBuild (query.input.watermark b)
      ⟨b.sequenceNumber, b.chunkNumber,
        b.chunkNumber == query.input.numberOfChunks b.originId b.sequenceNumber⟩ b.originId
    some { state with
      handler := handler
      arrived := ProcessorInvariant.arrive state.arrived b.originId b.sequenceNumber b.chunkNumber
      triggers := watermark :: state.triggers }
  | .trigger globalWatermark locked =>
    let (store, windows) := state.store.getTriggerableWindowSlices globalWatermark locked
    some { state with
      handler := { state.handler with sliceAndWindowStore := store }
      history := state.history.emit windows
      triggers := state.triggers.erase globalWatermark }
  | .updateProbe r chunkNumber => do
    let (handler, watermark) ← state.handler.updateProbe r.windowInfo.windowStart
      ⟨r.sequenceNumber, chunkNumber, chunkNumber == (query.triggering.sliceEnds r).length⟩ query.outputOriginId
    some { state with
      handler := handler
      probed := (r.sequenceNumber, chunkNumber) :: state.probed
      windowCollections := watermark :: state.windowCollections }
  | .garbageCollectWindows newGlobalWaterMark locked =>
    some { state with
      handler := { state.handler with
        sliceAndWindowStore := state.store.garbageCollectWindows newGlobalWaterMark locked }
      history := { state.history with
        windowsCollected := if locked then max state.history.windowsCollected newGlobalWaterMark
          else state.history.windowsCollected }
      windowCollections := state.windowCollections.erase newGlobalWaterMark
      sliceCollections := newGlobalWaterMark :: state.sliceCollections }
  | .garbageCollectSlices newGlobalWaterMark locked =>
    some { state with
      handler := { state.handler with
        sliceAndWindowStore := state.store.garbageCollectSlices newGlobalWaterMark locked }
      history := { state.history with
        slicesCollected := if locked then max state.history.slicesCollected newGlobalWaterMark
          else state.history.slicesCollected }
      sliceCollections := state.sliceCollections.erase newGlobalWaterMark }

/-- The states of all interleavings of the workers. -/
def IsReachable : Prop :=
  Reachable (initial query) (Enabled query) (step query) state

lemma IsReachable.initial : (HandlerSystem.initial query).IsReachable query := Reachable.initial

lemma IsReachable.step {query : WindowQuery} {state state' : HandlerSystem} (h : state.IsReachable query)
    (event : HandlerEvent) (henabled : state.Enabled query event)
    (hstep : state.step query event = some state') : state'.IsReachable query :=
  Reachable.step h henabled hstep

end HandlerSystem

end MobilityNebula.Windows
