import MobilityNebula.Join.NestedLoopJoin
import MobilityNebula.Sequencing.ChunkCollector
import MobilityNebula.Windows.SliceContents

/-!
# StreamJoinOperatorHandler — building, triggering and probing a join

Embedding of `StreamJoinOperatorHandler.cpp`, `NLJOperatorHandler.cpp` and the part of the probe operator that
opens a trigger buffer.  For each window that the store hands out, the handler emits a trigger buffer for every
combination of a left and a right slice; emitting combines the paged vectors of both slices.  A trigger buffer
has the ends of its slices, and the probe operator looks the slices up in the store.

In every interleaving of inserting, triggering, probing and collecting, no lookup fails, and the records for a
trigger buffer are those of all pairs of rows of its two slices (`JoinInvariant.of_isReachable`).
-/

namespace MobilityNebula.Join

open Library SliceStore Windows Nautilus Sequencing List NLJSlice

/-! ## Trigger buffers -/

/-- What is written into a trigger buffer. -/
structure EmittedNLJWindowTrigger where
  leftSliceEnd : Nat
  rightSliceEnd : Nat
  windowInfo : WindowInfo
  deriving DecidableEq, Repr

/-- A trigger buffer with its metadata. -/
structure TriggerBuffer where
  trigger : EmittedNLJWindowTrigger
  sequenceData : SequenceData
  watermark : Nat
  numberOfTuples : Nat
  deriving DecidableEq, Repr

structure SliceCombination where
  sliceLeft : Slice
  sliceRight : Slice
  windowInfo : WindowInfo
  sequenceData : SequenceData
  deriving DecidableEq, Repr

namespace SliceCombination

def buffer (combination : SliceCombination) (numberOfTuples : Nat) : TriggerBuffer where
  trigger := ⟨combination.sliceLeft.sliceEnd, combination.sliceRight.sliceEnd, combination.windowInfo⟩
  sequenceData := combination.sequenceData
  watermark := combination.windowInfo.windowStart
  numberOfTuples := numberOfTuples

end SliceCombination

variable (r : WindowSlices)

/-- The loop of `triggerSlices` over the slices of one window: all combinations, numbered from one on. -/
def triggerSlices : List SliceCombination :=
  ((r.slices.flatMap fun sliceLeft => r.slices.map (Prod.mk sliceLeft)).zipIdx 1).map fun e =>
    { sliceLeft := e.1.1
      sliceRight := e.1.2
      windowInfo := r.windowInfo
      sequenceData := ⟨r.sequenceNumber, e.2, e.2 == r.slices.length * r.slices.length⟩ }

variable {combination : SliceCombination}

lemma windowInfo_of_mem_triggerSlices {r : WindowSlices}
    (h : combination ∈ triggerSlices r) : combination.windowInfo = r.windowInfo := by
  rcases mem_map.1 h with ⟨e, _, rfl⟩
  rfl

lemma slices_triggerSlices :
    (triggerSlices r).map (fun combination => (combination.sliceLeft, combination.sliceRight))
      = r.slices.flatMap fun sliceLeft => r.slices.map (Prod.mk sliceLeft) := by
  rw [triggerSlices, map_map]
  exact (map_congr_left fun _ _ => rfl).trans (zipIdx_map_fst 1 _)

lemma slices_of_mem_triggerSlices {r : WindowSlices}
    (h : combination ∈ triggerSlices r) : combination.sliceLeft ∈ r.slices ∧ combination.sliceRight ∈ r.slices := by
  have hmem : (combination.sliceLeft, combination.sliceRight) ∈
      r.slices.flatMap fun sliceLeft => r.slices.map (Prod.mk sliceLeft) := by
    rw [← slices_triggerSlices]
    exact mem_map_of_mem (f := fun combination : SliceCombination =>
      (combination.sliceLeft, combination.sliceRight)) h
  rcases mem_flatMap.1 hmem with ⟨sliceLeft, hleft, hpair⟩
  rcases mem_map.1 hpair with ⟨sliceRight, hright, heq⟩
  rcases Prod.mk.inj heq with ⟨rfl, rfl⟩
  exact ⟨hleft, hright⟩

/-- The chunks of a window are numbered from one on, and only the last one is marked. -/
lemma sequenceData_triggerSlices : (triggerSlices r).map SliceCombination.sequenceData
      = (range' 1 (r.slices.length * r.slices.length)).map fun chunkNumber =>
          ⟨r.sequenceNumber, chunkNumber, chunkNumber == r.slices.length * r.slices.length⟩ := by
  have hnumbers : ((r.slices.flatMap fun sliceLeft => r.slices.map (Prod.mk sliceLeft)).zipIdx 1).map Prod.snd
      = range' 1 (r.slices.length * r.slices.length) := by
    rw [zipIdx_map_snd]
    congr 1
    simp [length_flatMap]
  rw [triggerSlices, map_map, ← hnumbers, map_map]
  rfl

lemma nodup_triggerSlices : (triggerSlices r).Nodup := by
  refine .of_map SliceCombination.sequenceData ?_
  rw [sequenceData_triggerSlices]
  refine .map (fun a b h => ?_) nodup_range'
  exact congrArg SequenceData.chunkNumber h

/-! ## The system -/

section System

variable {V : Type}

/-- How a join creates slices and adds tuples to them. -/
def JoinQuery.operations (query : JoinQuery V) : SliceOperations (JoinTuple query) (NLJSlice V) where
  timestamp tuple := query.getTs tuple.side tuple.record
  createNewSlice := create V query.numberOfWorkerThreads
  insert := execute

def combineAt (contents : Slice → NLJSlice V) (slice : Slice) : Slice → NLJSlice V :=
  Function.update contents slice (contents slice).combinePagedVectors

def emitSliceIdsToProbe (contents : Slice → NLJSlice V) (combination : SliceCombination) :
    (Slice → NLJSlice V) × TriggerBuffer :=
  let contents := combineAt (combineAt contents combination.sliceLeft) combination.sliceRight
  let totalNumberOfTuples := (contents combination.sliceLeft).getNumberOfTuples .left
    + (contents combination.sliceRight).getNumberOfTuples .right
  (contents, combination.buffer totalNumberOfTuples)

def JoinQuery.probe (query : JoinQuery V) (slices : SliceContents (JoinTuple query) (NLJSlice V))
    (buffer : TriggerBuffer) : Option (List (Record V)) := do
  let sliceLeft ← slices.store.getSliceBySliceEnd buffer.trigger.leftSliceEnd
  let sliceRight ← slices.store.getSliceBySliceEnd buffer.trigger.rightSliceEnd
  let leftPagedVector ← (slices.contents sliceLeft).getPagedVectorRef 0 .left
  let rightPagedVector ← (slices.contents sliceRight).getPagedVectorRef 0 .right
  query.joinVectors leftPagedVector rightPagedVector buffer.trigger.windowInfo

inductive JoinEvent (query : JoinQuery V) where
  | slices (event : SliceEvent (JoinTuple query))
  /-- A worker that got the window from the store emits its next trigger buffer. -/
  | emitSliceIdsToProbe (r : WindowSlices)
  | probe (combination : SliceCombination) (buffer : TriggerBuffer)

structure JoinSystem (query : JoinQuery V) where
  slices : SliceContents (JoinTuple query) (NLJSlice V)
  /-- The trigger buffers emitted so far, each with the slices that it is about. -/
  triggered : List (SliceCombination × TriggerBuffer)
  /-- The combinations probed so far, each with the records produced for it. -/
  output : List (SliceCombination × List (Record V))

namespace JoinSystem

variable {query : JoinQuery V}

def initial (query : JoinQuery V) : JoinSystem query where
  slices := SliceContents.initial query.operations query.assigner query.numberOfInputOrigins
  triggered := []
  output := []

variable (state : JoinSystem query)

def triggeredFor (w : WindowInfo) : List (SliceCombination × TriggerBuffer) :=
  state.triggered.filter fun t => t.1.windowInfo = w

def Probed (w : WindowInfo) : Prop :=
  ∃ r ∈ state.slices.history.emitted, r.windowInfo = w ∧
    ∀ combination ∈ triggerSlices r, combination ∈ state.output.map Prod.fst

/-- The buffers of a window are emitted one after the other, and each is probed once. -/
def Enabled : JoinEvent query → Prop
  | .slices event => state.slices.Enabled query.operations query.assigner state.Probed event
  | .emitSliceIdsToProbe r => r ∈ state.slices.history.emitted ∧
      (state.triggeredFor r.windowInfo).length < (triggerSlices r).length
  | .probe combination buffer => (combination, buffer) ∈ state.triggered ∧ combination ∉ state.output.map Prod.fst

def step : JoinEvent query → Option (JoinSystem query)
  | .slices event => do
    let slices ← state.slices.step query.operations event
    some { state with slices := slices }
  | .emitSliceIdsToProbe r => do
    let combination ← (triggerSlices r)[(state.triggeredFor r.windowInfo).length]?
    let (contents, buffer) := Join.emitSliceIdsToProbe state.slices.contents combination
    some { state with
      slices := { state.slices with contents := contents }
      triggered := state.triggered ++ [(combination, buffer)] }
  | .probe combination buffer => do
    let joined ← query.probe state.slices buffer
    some { state with output := state.output ++ [(combination, joined)] }

def IsReachable : Prop := Reachable (initial query) Enabled step state

lemma IsReachable.initial (query : JoinQuery V) : (JoinSystem.initial query).IsReachable := Reachable.initial

lemma IsReachable.step {state state' : JoinSystem query} (h : state.IsReachable) (event : JoinEvent query)
    (henabled : state.Enabled event) (hstep : state.step event = some state') : state'.IsReachable :=
  Reachable.step h henabled hstep

end JoinSystem

end System

/-! ## Combining -/

section Combining

variable {V : Type} {query : JoinQuery V} {contents : Slice → NLJSlice V} {tuplesOf : Slice → List (JoinTuple query)}

lemma holds_combineAt (h : ∀ s, NLJSlice.Holds query (contents s) (tuplesOf s)) (slice : Slice) :
    ∀ s, NLJSlice.Holds query (combineAt contents slice s) (tuplesOf s) := by
  intro s
  by_cases heq : s = slice
  · rw [heq, combineAt, Function.update_self]
    exact (h slice).combinePagedVectors.1
  · rw [combineAt, Function.update_of_ne heq]
    exact h s

lemma combined_combineAt (h : ∀ s, NLJSlice.Holds query (contents s) (tuplesOf s)) {s slice : Slice}
    (hcombined : s = slice ∨ (contents s).Combined) : (combineAt contents slice s).Combined := by
  by_cases heq : s = slice
  · rw [heq, combineAt, Function.update_self]
    exact (h slice).combinePagedVectors.2
  · rw [combineAt, Function.update_of_ne heq]
    exact hcombined.resolve_left heq

end Combining

/-! ## The invariant -/

def tuplesOf {V : Type} {query : JoinQuery V} (inserted : List (JoinTuple query)) (slice : Slice) :
    List (JoinTuple query) :=
  group (query.operations.sliceOf query.assigner) slice inserted

/-- What the probe operator has to produce for a combination of slices. -/
def recordsFor {V : Type} {query : JoinQuery V} (inserted : List (JoinTuple query)) (combination : SliceCombination) :
    List (Record V) :=
  pairs (query.joinPair combination.windowInfo)
    (rowsOf .left (tuplesOf inserted combination.sliceLeft))
    (rowsOf .right (tuplesOf inserted combination.sliceRight))

structure JoinInvariant {V : Type} {query : JoinQuery V} (state : JoinSystem query) : Prop where
  content : ContentInvariant query.operations query.assigner (NLJSlice.Holds query) state.Probed state.slices
  /-- A trigger buffer is about combined slices of an emitted window. -/
  triggered : ∀ t ∈ state.triggered, (∃ r ∈ state.slices.history.emitted, t.1 ∈ triggerSlices r) ∧
    (∃ numberOfTuples, t.2 = t.1.buffer numberOfTuples) ∧
    (state.slices.contents t.1.sliceLeft).Combined ∧ (state.slices.contents t.1.sliceRight).Combined
  /-- The trigger buffers of a window are emitted in their order. -/
  inOrder : ∀ r ∈ state.slices.history.emitted, (state.triggeredFor r.windowInfo).map Prod.fst
    = (triggerSlices r).take (state.triggeredFor r.windowInfo).length
  output_mem : ∀ o ∈ state.output, o.1 ∈ state.triggered.map Prod.fst
  output_nodup : (state.output.map Prod.fst).Nodup
  output : ∀ o ∈ state.output, o.2.Perm (recordsFor state.slices.inserted o.1)

namespace JoinInvariant

variable {V : Type} {query : JoinQuery V} {state : JoinSystem query}

lemma isContentOf (query : JoinQuery V) : IsContentOf query.operations (NLJSlice.Holds query) where
  createNewSlice := holds_create query
  insert h tuple := h.execute tuple

lemma initial (query : JoinQuery V) : JoinInvariant (JoinSystem.initial query) where
  content := .initial (isContentOf query) query.assigner query.numberOfInputOrigins _
  triggered := by simp [JoinSystem.initial]
  inOrder := by simp [JoinSystem.initial, SliceContents.initial, StoreHistory.initial]
  output_mem := by simp [JoinSystem.initial]
  output_nodup := by simp [JoinSystem.initial]
  output := by simp [JoinSystem.initial]

section

variable (inv : JoinInvariant state)
include inv

lemma eq_of_windowInfo {r r' : WindowSlices} (hr : r ∈ state.slices.history.emitted)
    (hr' : r' ∈ state.slices.history.emitted) (h : r.windowInfo = r'.windowInfo) : r = r' :=
  inj_on_of_nodup_map inv.content.store.emitted_nodup hr hr' h

lemma slices {event : SliceEvent (JoinTuple query)}
    (henabled : state.slices.Enabled query.operations query.assigner state.Probed event) :
    ∃ state', state.step (.slices event) = some state' ∧ JoinInvariant state' := by
  rcases inv.content.step (isContentOf query) henabled with ⟨slices', hstep, hcontent, hfrozen⟩
  rcases hfrozen.emitted with ⟨windows, hemitted⟩
  have hmem : ∀ r ∈ state.slices.history.emitted, r ∈ slices'.history.emitted := fun r hr =>
    hemitted.symm ▸ mem_append_left _ hr
  have hstep' : state.step (.slices event) = some { state with slices := slices' } := by
    rw [JoinSystem.step, hstep]
    rfl
  refine ⟨_, hstep', ?_, ?_, ?_, inv.output_mem, inv.output_nodup, ?_⟩
  · refine hcontent.mono fun w hprobed => ?_
    rcases hprobed with ⟨r, hr, hwindow, hall⟩
    exact ⟨r, hmem r hr, hwindow, hall⟩
  · intro t ht
    rcases inv.triggered t ht with ⟨⟨r, hr, hcombination⟩, hbuffer, hleft, hright⟩
    rcases slices_of_mem_triggerSlices hcombination with ⟨hsliceLeft, hsliceRight⟩
    refine ⟨⟨r, hmem r hr, hcombination⟩, hbuffer, ?_, ?_⟩
    · simp only [hfrozen.contents r hr _ hsliceLeft]
      exact hleft
    · simp only [hfrozen.contents r hr _ hsliceRight]
      exact hright
  · intro r hr
    simp only [hemitted] at hr
    rcases mem_append.1 hr with hr | hr
    · exact inv.inOrder r hr
    · -- nothing was triggered for a window that is new
      have hnone : JoinSystem.triggeredFor { state with slices := slices' } r.windowInfo = [] := by
        refine filter_eq_nil_iff.2 fun t ht hwindow => ?_
        rcases inv.triggered t ht with ⟨⟨r', hr', hcombination⟩, _⟩
        have hnodup := hcontent.store.emitted_nodup
        rw [StoreHistory.emittedWindows, hemitted, map_append] at hnodup
        refine (nodup_append.1 hnodup).2.2 _ (mem_map_of_mem hr') _ (mem_map_of_mem hr) ?_
        exact (windowInfo_of_mem_triggerSlices hcombination).symm.trans (of_decide_eq_true hwindow)
      rw [hnone]
      rfl
  · intro o ho
    rcases mem_map.1 (inv.output_mem o ho) with ⟨t, ht, hcombination⟩
    rcases inv.triggered t ht with ⟨⟨r, hr, htrigger⟩, _⟩
    rw [hcombination] at htrigger
    rcases slices_of_mem_triggerSlices htrigger with ⟨hsliceLeft, hsliceRight⟩
    have hleft := hfrozen.group r hr _ hsliceLeft
    have hright := hfrozen.group r hr _ hsliceRight
    have hrecords : recordsFor slices'.inserted o.1 = recordsFor state.slices.inserted o.1 := by
      rw [recordsFor, tuplesOf, tuplesOf, hleft, hright]
      rfl
    rw [hrecords]
    exact inv.output o ho

lemma emitSliceIdsToProbe {r : WindowSlices} (hr : r ∈ state.slices.history.emitted)
    (hlt : (state.triggeredFor r.windowInfo).length < (triggerSlices r).length) :
    ∃ state', state.step (.emitSliceIdsToProbe r) = some state' ∧ JoinInvariant state' := by
  generalize hnumber : (state.triggeredFor r.windowInfo).length = number at hlt
  have hget : (triggerSlices r)[number]? = some (triggerSlices r)[number] := getElem?_eq_getElem hlt
  generalize (triggerSlices r)[number] = combination at hget
  have hcombination : combination ∈ triggerSlices r := mem_of_getElem? hget
  have hleft := holds_combineAt inv.content.contents combination.sliceLeft
  have hright := holds_combineAt hleft combination.sliceRight
  generalize hemit : Join.emitSliceIdsToProbe state.slices.contents combination = emitted
  have hcontents : emitted.1
      = combineAt (combineAt state.slices.contents combination.sliceLeft) combination.sliceRight := by
    rw [← hemit]
    rfl
  have hstep : state.step (.emitSliceIdsToProbe r) = some { state with
      slices := { state.slices with contents := emitted.1 }
      triggered := state.triggered ++ [(combination, emitted.2)] } := by
    rw [JoinSystem.step, hnumber, hget]
    simp only [Option.bind_eq_bind, Option.bind_some, hemit]
  refine ⟨_, hstep, ?_, ?_, ?_, ?_, inv.output_nodup, inv.output⟩
  · refine ⟨inv.content.assigner_eq, inv.content.store, inv.content.created_iff, ?_, inv.content.collected⟩
    intro s
    simp only [hcontents]
    exact hright s
  · intro t ht
    simp only [hcontents]
    rcases mem_append.1 ht with ht | ht
    · rcases inv.triggered t ht with ⟨hwindow, hbuffer, hsliceLeft, hsliceRight⟩
      exact ⟨hwindow, hbuffer,
        combined_combineAt hleft (.inr (combined_combineAt inv.content.contents (.inr hsliceLeft))),
        combined_combineAt hleft (.inr (combined_combineAt inv.content.contents (.inr hsliceRight)))⟩
    · rw [mem_singleton.1 ht]
      refine ⟨⟨r, hr, hcombination⟩, ⟨_, by rw [← hemit]; rfl⟩, ?_, combined_combineAt hleft (.inl rfl)⟩
      exact combined_combineAt hleft (.inr (combined_combineAt inv.content.contents (.inl rfl)))
  · intro r' hr'
    have hold := inv.inOrder r' hr'
    have hfor : JoinSystem.triggeredFor { state with
        slices := { state.slices with contents := emitted.1 }
        triggered := state.triggered ++ [(combination, emitted.2)] } r'.windowInfo
        = state.triggeredFor r'.windowInfo
          ++ if combination.windowInfo = r'.windowInfo then [(combination, emitted.2)] else [] := by
      simp [JoinSystem.triggeredFor, filter_append, filter_singleton, Bool.cond_decide]
    rw [hfor]
    by_cases heq : r' = r
    · subst heq
      rw [if_pos (windowInfo_of_mem_triggerSlices hcombination), map_append, hold, length_append, hnumber,
        length_singleton, take_add_one, hget]
      rfl
    · have hne : combination.windowInfo ≠ r'.windowInfo := fun h =>
        heq (inv.eq_of_windowInfo hr' hr (h.symm.trans (windowInfo_of_mem_triggerSlices hcombination)))
      rw [if_neg hne, append_nil]
      exact hold
  · intro o ho
    rw [map_append]
    exact mem_append_left _ (inv.output_mem o ho)

lemma probe {buffer : TriggerBuffer}
    (ht : (combination, buffer) ∈ state.triggered) (hnot : combination ∉ state.output.map Prod.fst) :
    ∃ state', state.step (.probe combination buffer) = some state' ∧ JoinInvariant state' := by
  rcases inv.triggered _ ht with ⟨⟨r, hr, hcombination⟩, ⟨numberOfTuples, hbuffer⟩, hleft, hright⟩
  simp only at hcombination hbuffer hleft hright
  have hslices := inv.content.store.emitted_slices r hr
  have hw := inv.content.assigner_eq ▸ inv.content.store.emitted_isWindow _ (mem_map_of_mem hr)
  -- the window is not finished, so its slices are in the store
  have hnotProbed : ¬ state.Probed r.windowInfo := by
    rintro ⟨r', hr', hwindow', hall⟩
    rw [inv.eq_of_windowInfo hr' hr hwindow'] at hall
    exact hnot (hall combination hcombination)
  have hfind : ∀ s ∈ r.slices, state.slices.store.getSliceBySliceEnd s.sliceEnd = some s := by
    intro s hs
    rcases (hslices.mem_iff s).1 hs with ⟨hcreated, hcovers⟩
    exact inv.content.getSliceBySliceEnd hcreated hw hcovers hnotProbed
  rcases slices_of_mem_triggerSlices hcombination with ⟨hsliceLeft, hsliceRight⟩
  rcases (inv.content.contents combination.sliceLeft).getPagedVectorRef hleft .left with
    ⟨leftVector, hleftRef, hleftWf, hleftRows⟩
  rcases (inv.content.contents combination.sliceRight).getPagedVectorRef hright .right with
    ⟨rightVector, hrightRef, hrightWf, hrightRows⟩
  have hleftFields : ∀ row ∈ leftVector.toList, row.HasFields (query.fields .left) := fun row hrow =>
    hasFields_of_mem_rowsOf (hleftRows.mem_iff.1 hrow)
  have hrightFields : ∀ row ∈ rightVector.toList, row.HasFields (query.fields .right) := fun row hrow =>
    hasFields_of_mem_rowsOf (hrightRows.mem_iff.1 hrow)
  rcases JoinQuery.joinVectors_spec combination.windowInfo hleftWf hrightWf hleftFields hrightFields with
    ⟨joined, hjoin, hperm⟩
  have hprobe : query.probe state.slices buffer = some joined := by
    simp only [JoinQuery.probe, hbuffer, SliceCombination.buffer, hfind _ hsliceLeft, hfind _ hsliceRight, hleftRef,
      hrightRef, Option.bind_eq_bind, Option.bind_some]
    exact hjoin
  have hstep : state.step (.probe combination buffer)
      = some { state with output := state.output ++ [(combination, joined)] } := by
    rw [JoinSystem.step, hprobe]
    rfl
  refine ⟨_, hstep, ?_, inv.triggered, inv.inOrder, ?_, ?_, ?_⟩
  · refine inv.content.mono fun w hprobed => ?_
    rcases hprobed with ⟨r', hr', hwindow', hall⟩
    refine ⟨r', hr', hwindow', fun combination' hmem => ?_⟩
    rw [map_append]
    exact mem_append_left _ (hall combination' hmem)
  · intro o ho
    rcases mem_append.1 ho with ho | ho
    · exact inv.output_mem o ho
    · rw [mem_singleton.1 ho]
      exact mem_map_of_mem (f := Prod.fst) ht
  · rw [map_append, map_singleton]
    refine nodup_append.2 ⟨inv.output_nodup, nodup_singleton _, ?_⟩
    intro c hmem c' hmem' heq
    have hc : c = combination := heq.trans (mem_singleton.1 hmem')
    exact hnot (hc ▸ hmem)
  · intro o ho
    rcases mem_append.1 ho with ho | ho
    · exact inv.output o ho
    · rw [mem_singleton.1 ho]
      exact hperm.trans (pairs_perm _ hleftRows hrightRows)

lemma step {event : JoinEvent query} (henabled : state.Enabled event) :
    ∃ state', state.step event = some state' ∧ JoinInvariant state' := by
  cases event with
  | slices event => exact inv.slices henabled
  | emitSliceIdsToProbe r => exact inv.emitSliceIdsToProbe henabled.1 henabled.2
  | probe combination buffer => exact inv.probe henabled.1 henabled.2

end

lemma of_isReachable (h : state.IsReachable) : JoinInvariant state := by
  refine Reachable.invariant JoinInvariant (initial query) ?_ h
  intro s event s' inv henabled hstep
  rcases inv.step henabled with ⟨s'', hstep', inv'⟩
  have heq : s'' = s' := Option.some_inj.1 (hstep'.symm.trans hstep)
  exact heq ▸ inv'

end JoinInvariant

end MobilityNebula.Join
