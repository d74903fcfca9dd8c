import MobilityNebula.Aggregation.HashMapSlice
import MobilityNebula.Windows.SliceContents

/-!
# AggregationOperator — building, triggering and probing an aggregation

Embedding of the build operator, the operator handler and the probe operator of a windowed aggregation.  A
trigger buffer carries pointers to the hash maps of all slices of a window; the probe operator merges them into
a new hash map and hands on one record for each of its entries.  A pointer is the slice and the position of
the map in it, and it dangles once the slice is not in the store any more.

In every interleaving of inserting, triggering, probing and collecting, the records for a window are those of
one pass over the tuples of the window, slice by slice and worker by worker
(`AggregationInvariant.of_isReachable`).
-/

namespace MobilityNebula.Aggregation

open Library SliceStore Windows Nautilus HashMapSlice List

/-! ## The operators -/

structure AggregationQuery (V ν : Type) where
  assigner : SliceAssigner
  numberOfInputOrigins : Nat
  getTs : Record V → Nat
  options : HashMapOptions V
  states : StateOperations (Record V) ν
  numberOfWorkerThreads : Nat
  numberOfWorkerThreads_pos : 0 < numberOfWorkerThreads
  sequentialProcessing : Bool

/-- The trigger buffer of a window, with the metadata of the buffer. -/
structure EmittedAggregationWindow (V ν : Type) where
  windowInfo : WindowInfo
  sequenceNumber : Nat
  chunkNumber : Nat
  lastChunk : Bool
  watermark : Nat
  numberOfTuples : Nat
  hashMaps : List (Slice × Nat)
  finalHashMap : Option (ChainedHashMap (List V) ν)

/-- A record that the probe operator produces, with the states before they are lowered. -/
structure AggregationResult (V ν : Type) where
  windowInfo : WindowInfo
  keys : List V
  states : ν

namespace AggregationQuery

variable {V ν : Type} [DecidableEq V] (query : AggregationQuery V ν)

def numberOfHashMaps : Nat := if query.sequentialProcessing then 1 else query.numberOfWorkerThreads

def operations : SliceOperations (WorkerRecord V) (HashMapSlice V ν) where
  timestamp tuple := query.getTs tuple.2
  createNewSlice := HashMapSlice.create V ν query.numberOfHashMaps
  insert := HashMapSlice.add query.options query.states

def triggeredMaps (slice : HashMapSlice V ν) : List Nat :=
  (range slice.hashMaps.length).filter fun hashMapIdx =>
    match slice.getHashMapPtr hashMapIdx with
    | some hashMap => 0 < hashMap.numberOfTuples
    | none => false

/-- The pass of `triggerSlices` for one window. -/
def triggerSlices (contents : Slice → HashMapSlice V ν) (r : WindowSlices) : EmittedAggregationWindow V ν :=
  let allHashMaps := r.slices.flatMap fun slice => (triggeredMaps (contents slice)).map (Prod.mk slice)
  let hashMaps := allHashMaps.filterMap fun pointer => (contents pointer.1).getHashMapPtr pointer.2
  { windowInfo := r.windowInfo
    sequenceNumber := r.sequenceNumber
    chunkNumber := 1
    lastChunk := true
    watermark := r.windowInfo.windowStart
    numberOfTuples := (hashMaps.map ChainedHashMap.numberOfTuples).sum
    hashMaps := allHashMaps
    finalHashMap := hashMaps.head?.map ChainedHashMap.createNewMapWithSameConfiguration }

variable (slices : SliceContents (WorkerRecord V) (HashMapSlice V ν))

def hashMapAt (pointer : Slice × Nat) : Option (ChainedHashMap (List V) ν) := do
  let slice ← slices.store.getSliceBySliceEnd pointer.1.sliceEnd
  (slices.contents slice).getHashMapPtr pointer.2

def probe (window : EmittedAggregationWindow V ν) : Option (List (AggregationResult V ν)) := do
  let hashMaps ← window.hashMaps.mapM (hashMapAt slices)
  let finalHashMap ← window.finalHashMap
  let finalHashMap := hashMaps.foldl (mergeInto query.states) finalHashMap
  some (finalHashMap.iterate.map fun entry => ⟨window.windowInfo, entry.keys, entry.value⟩)

end AggregationQuery

/-! ## All interleavings -/

inductive AggregationEvent (V ν : Type) where
  | slices (event : SliceEvent (WorkerRecord V))
  /-- A worker that got the window from the store emits its trigger buffer. -/
  | triggerSlices (r : WindowSlices)
  | probe (window : EmittedAggregationWindow V ν)

structure AggregationSystem (V ν : Type) where
  slices : SliceContents (WorkerRecord V) (HashMapSlice V ν)
  triggered : List (EmittedAggregationWindow V ν)
  /-- The windows probed so far, each with the records produced for it. -/
  output : List (WindowInfo × List (AggregationResult V ν))

namespace AggregationSystem

variable {V ν : Type} [DecidableEq V] (query : AggregationQuery V ν)

def initial : AggregationSystem V ν where
  slices := SliceContents.initial query.operations query.assigner query.numberOfInputOrigins
  triggered := []
  output := []

variable (state : AggregationSystem V ν)

def Probed (w : WindowInfo) : Prop := w ∈ state.output.map Prod.fst

/-- Each window is triggered and probed once. -/
def Enabled : AggregationEvent V ν → Prop
  | .slices event => state.slices.Enabled query.operations query.assigner state.Probed event
  | .triggerSlices r => r ∈ state.slices.history.emitted ∧
      r.windowInfo ∉ state.triggered.map EmittedAggregationWindow.windowInfo
  | .probe window => window ∈ state.triggered ∧ ¬ state.Probed window.windowInfo

def step : AggregationEvent V ν → Option (AggregationSystem V ν)
  | .slices event => do
    let slices ← state.slices.step query.operations event
    some { state with slices := slices }
  | .triggerSlices r =>
    some { state with triggered := state.triggered ++ [AggregationQuery.triggerSlices state.slices.contents r] }
  | .probe window => do
    let results ← query.probe state.slices window
    some { state with output := state.output ++ [(window.windowInfo, results)] }

def IsReachable : Prop :=
  Reachable (initial query) (Enabled query) (step query) state

lemma IsReachable.initial : (AggregationSystem.initial query).IsReachable query :=
  Reachable.initial

lemma IsReachable.step {query : AggregationQuery V ν} {state state' : AggregationSystem V ν}
    (h : state.IsReachable query) (event : AggregationEvent V ν) (henabled : state.Enabled query event)
    (hstep : state.step query event = some state') : state'.IsReachable query :=
  Reachable.step h henabled hstep

end AggregationSystem

/-! ## The hash maps of a window -/

section Window

variable {V ν : Type} [DecidableEq V] {query : AggregationQuery V ν}
  {represents : ν → List (Record V) → Prop}

namespace AggregationQuery

omit [DecidableEq V] in
lemma numberOfHashMaps_pos (query : AggregationQuery V ν) : 0 < query.numberOfHashMaps := by
  unfold numberOfHashMaps
  split_ifs
  · exact Nat.one_pos
  · exact query.numberOfWorkerThreads_pos

/-- The records of a slice in the order in which the probe operator meets them. -/
def arrangeSlice (query : AggregationQuery V ν) (tuples : List (WorkerRecord V)) : List (Record V) :=
  (range query.numberOfHashMaps).flatMap fun pos =>
    recordsAt query.numberOfHashMaps pos tuples

/-- The records of a window in the order in which the probe operator meets them. -/
def arrange (query : AggregationQuery V ν) (r : WindowSlices) (inserted : List (WorkerRecord V)) : List (Record V) :=
  r.slices.flatMap fun slice => query.arrangeSlice (group (query.operations.sliceOf query.assigner) slice inserted)

omit [DecidableEq V] in
lemma arrangeSlice_perm (query : AggregationQuery V ν) (tuples : List (WorkerRecord V)) :
    (query.arrangeSlice tuples).Perm (tuples.map Prod.snd) := by
  have hperm := perm_flatMap_group (fun tuple : WorkerRecord V => tuple.1 % query.numberOfHashMaps)
    (l := tuples) (nodup_range (n := query.numberOfHashMaps))
    fun tuple _ => mem_range.2 (Nat.mod_lt _ query.numberOfHashMaps_pos)
  have hmap := (hperm.map Prod.snd).symm
  rwa [map_flatMap] at hmap

section

variable {slice : HashMapSlice V ν} {tuples : List (WorkerRecord V)}
  (h : HashMapSlice.Holds query.options represents query.numberOfHashMaps slice tuples)
include h

lemma nil_of_not_triggered {pos : Nat} (hpos : pos < query.numberOfHashMaps) (hnot : pos ∉ triggeredMaps slice) :
    recordsAt query.numberOfHashMaps pos tuples = [] := by
  have hlt : pos < slice.hashMaps.length := h.length_eq.symm ▸ hpos
  have hget : slice.hashMaps[pos]? = some slice.hashMaps[pos] := getElem?_eq_getElem hlt
  have hholds := h.maps pos _ hget
  have hptr : slice.getHashMapPtr pos = slice.hashMaps[pos] := by
    rw [getHashMapPtr, Nat.mod_eq_of_lt hlt, hget]
    rfl
  cases hmap : slice.hashMaps[pos] with
  | none =>
    rw [hmap] at hholds
    exact hholds
  | some hashMap =>
    rw [hmap] at hholds hptr
    refine hholds.nil_of_numberOfTuples ?_
    by_contra hne
    refine hnot (mem_filter.2 ⟨mem_range.2 hlt, ?_⟩)
    rw [hptr]
    exact decide_eq_true (Nat.pos_of_ne_zero hne)

lemma holds_of_triggered {pos : Nat} (hmem : pos ∈ triggeredMaps slice) :
    ∃ hashMap, slice.getHashMapPtr pos = some hashMap ∧
      MapHolds query.options represents hashMap (recordsAt query.numberOfHashMaps pos tuples) := by
  rcases mem_filter.1 hmem with ⟨hrange, htuples⟩
  have hlt := mem_range.1 hrange
  have hget : slice.hashMaps[pos]? = some slice.hashMaps[pos] := getElem?_eq_getElem hlt
  have hptr : slice.getHashMapPtr pos = slice.hashMaps[pos] := by
    rw [getHashMapPtr, Nat.mod_eq_of_lt hlt, hget]
    rfl
  have hholds := h.maps pos _ hget
  cases hmap : slice.hashMaps[pos] with
  | none =>
    rw [hptr, hmap] at htuples
    cases htuples
  | some hashMap =>
    rw [hmap] at hholds hptr
    exact ⟨hashMap, hptr, hholds⟩

lemma flatMap_triggeredMaps : ((triggeredMaps slice).flatMap fun pos => recordsAt query.numberOfHashMaps pos tuples)
      = query.arrangeSlice tuples := by
  rw [arrangeSlice, ← h.length_eq, triggeredMaps]
  refine flatMap_filter_of_nil fun pos hmem hfalse => ?_
  rw [h.length_eq]
  refine nil_of_not_triggered h (h.length_eq ▸ mem_range.1 hmem) fun htriggered => ?_
  exact absurd (mem_filter.1 htriggered).2 (by simp [hfalse])

end

lemma flatMap_pointers {contents : Slice → HashMapSlice V ν} {inserted : List (WorkerRecord V)}
    (h : ∀ slice, HashMapSlice.Holds query.options represents query.numberOfHashMaps (contents slice)
      (group (query.operations.sliceOf query.assigner) slice inserted)) (r : WindowSlices) :
    ((triggerSlices contents r).hashMaps.flatMap fun pointer =>
      recordsAt query.numberOfHashMaps pointer.2 (group (query.operations.sliceOf query.assigner) pointer.1 inserted))
      = query.arrange r inserted := by
  rw [triggerSlices, arrange, flatMap_assoc]
  refine flatMap_congr fun slice _ => ?_
  rw [flatMap_map]
  exact flatMap_triggeredMaps (h slice)

omit [DecidableEq V] in
lemma mem_pointers {contents : Slice → HashMapSlice V ν} {r : WindowSlices} {pointer : Slice × Nat} :
    pointer ∈ (triggerSlices contents r).hashMaps ↔
      pointer.1 ∈ r.slices ∧ pointer.2 ∈ triggeredMaps (contents pointer.1) := by
  rcases pointer with ⟨slice, pos⟩
  simp only [triggerSlices, mem_flatMap, mem_map, Prod.mk.injEq]
  constructor
  · rintro ⟨slice', hslice, pos', hpos, rfl, rfl⟩
    exact ⟨hslice, hpos⟩
  · rintro ⟨hslice, hpos⟩
    exact ⟨slice, hslice, pos, hpos, rfl, rfl⟩

lemma foldl_mergeInto (hstates : IsStateOf query.states represents)
    {hashMapOf : Slice × Nat → Option (ChainedHashMap (List V) ν)} {recordsOf : Slice × Nat → List (Record V)}
    {pointers : List (Slice × Nat)}
    (h : ∀ pointer ∈ pointers, ∃ hashMap, hashMapOf pointer = some hashMap ∧
      MapHolds query.options represents hashMap (recordsOf pointer))
    {finalHashMap : ChainedHashMap (List V) ν} {records : List (Record V)}
    (hfinal : MapHolds query.options represents finalHashMap records) :
    ∃ hashMaps, pointers.mapM hashMapOf = some hashMaps ∧
      MapHolds query.options represents (hashMaps.foldl (mergeInto query.states) finalHashMap)
        (records ++ pointers.flatMap recordsOf) := by
  induction pointers generalizing finalHashMap records with
  | nil => exact ⟨[], rfl, by simpa using hfinal⟩
  | cons pointer pointers ih =>
    have hcons := forall_mem_cons.1 h
    rcases hcons.1 with ⟨hashMap, hget, hholds⟩
    rcases ih hcons.2 (hfinal.mergeInto hstates hholds) with ⟨hashMaps, hmapM, hmerged⟩
    refine ⟨hashMap :: hashMaps, ?_, ?_⟩
    · rw [mapM_cons, hget, hmapM]
      rfl
    · rw [flatMap_cons, ← append_assoc]
      exact hmerged

end AggregationQuery

/-- The records that are right for a window: one for each key, whose states stand for the records with that
key. -/
structure ResultsFor (query : AggregationQuery V ν) (represents : ν → List (Record V) → Prop) (r : WindowSlices)
    (inserted : List (WorkerRecord V)) (results : List (AggregationResult V ν)) : Prop where
  windowInfo : ∀ result ∈ results, result.windowInfo = r.windowInfo
  nodup : (results.map AggregationResult.keys).Nodup
  mem_iff : ∀ keys, keys ∈ results.map AggregationResult.keys ↔
    ∃ record ∈ query.arrange r inserted, query.options.keysOf record = keys
  represents : ∀ result ∈ results, represents result.states
    ((group query.options.keysOf result.keys (query.arrange r inserted)).map query.options.writeKeys)

lemma ResultsFor.of_mapHolds {finalHashMap : ChainedHashMap (List V) ν} {r : WindowSlices}
    {inserted : List (WorkerRecord V)} (h : MapHolds query.options represents finalHashMap (query.arrange r inserted)) :
    ResultsFor query represents r inserted
      (finalHashMap.iterate.map fun entry => ⟨r.windowInfo, entry.keys, entry.value⟩) := by
  have hkeys : (finalHashMap.iterate.map fun entry =>
      (⟨r.windowInfo, entry.keys, entry.value⟩ : AggregationResult V ν)).map AggregationResult.keys
      = finalHashMap.iterate.map ChainedHashMapEntry.keys := map_map
  refine ⟨?_, ?_, ?_, ?_⟩
  · intro result hmem
    rcases mem_map.1 hmem with ⟨entry, _, rfl⟩
    rfl
  · rw [hkeys, h.isHashMap.iterate_eq]
    exact h.isHashMap.nodup
  · intro keys
    have hnone := h.none_iff keys
    rw [ChainedHashMap.lookup_eq_none_iff, ← h.isHashMap.iterate_eq, group_eq_nil_iff] at hnone
    rw [hkeys, mem_map]
    have hnot := not_congr hnone
    push Not at hnot
    exact hnot
  · intro result hmem
    rcases mem_map.1 hmem with ⟨entry, hentry, rfl⟩
    exact h.represents entry.keys entry.value (h.isHashMap.lookup_eq_some_iff.2 ⟨entry, hentry, rfl, rfl⟩)

end Window

/-! ## The invariant -/

structure AggregationInvariant {V ν : Type} [DecidableEq V] (query : AggregationQuery V ν)
    (represents : ν → List (Record V) → Prop) (state : AggregationSystem V ν) : Prop where
  content : ContentInvariant query.operations query.assigner
    (HashMapSlice.Holds query.options represents query.numberOfHashMaps) state.Probed state.slices
  triggered : ∀ window ∈ state.triggered, ∃ r ∈ state.slices.history.emitted,
    window = AggregationQuery.triggerSlices state.slices.contents r
  output : ∀ o ∈ state.output, ∃ r ∈ state.slices.history.emitted, o.1 = r.windowInfo ∧
    ResultsFor query represents r state.slices.inserted o.2
  output_nodup : (state.output.map Prod.fst).Nodup

namespace AggregationInvariant

variable {V ν : Type} [DecidableEq V] {query : AggregationQuery V ν} {represents : ν → List (Record V) → Prop}
  {state : AggregationSystem V ν}

section

variable (hstates : IsStateOf query.states represents)
include hstates

lemma isContentOf :
    IsContentOf query.operations (HashMapSlice.Holds query.options represents query.numberOfHashMaps) where
  createNewSlice := holds_create query.options represents query.numberOfHashMaps
  insert h tuple := h.add hstates query.numberOfHashMaps_pos tuple

lemma initial : AggregationInvariant query represents (AggregationSystem.initial query) where
  content := .initial (isContentOf hstates) query.assigner query.numberOfInputOrigins _
  triggered := by simp [AggregationSystem.initial]
  output := by simp [AggregationSystem.initial]
  output_nodup := by simp [AggregationSystem.initial]

end

variable (inv : AggregationInvariant query represents state)
include inv

variable {r : WindowSlices}

lemma triggerSlices (hr : r ∈ state.slices.history.emitted) :
    ∃ state', state.step query (.triggerSlices r) = some state' ∧ AggregationInvariant query represents state' := by
  refine ⟨_, rfl, inv.content, ?_, inv.output, inv.output_nodup⟩
  intro window hwindow
  rcases mem_append.1 hwindow with hwindow | hwindow
  · exact inv.triggered window hwindow
  · exact ⟨r, hr, mem_singleton.1 hwindow⟩

lemma exists_finalHashMap (hr : r ∈ state.slices.history.emitted) : ∃ finalHashMap,
      (AggregationQuery.triggerSlices state.slices.contents r).finalHashMap = some finalHashMap ∧
      MapHolds query.options represents finalHashMap [] := by
  have hslices := inv.content.store.emitted_slices r hr
  rcases exists_mem_of_ne_nil _ hslices.ne_nil with ⟨slice, hslice⟩
  rcases (inv.content.created_iff slice).1 ((hslices.mem_iff slice).1 hslice).1 with ⟨tuple, htuple, htupleSlice⟩
  have hgroup : tuple ∈ group (query.operations.sliceOf query.assigner) slice state.slices.inserted :=
    mem_group.2 ⟨htuple, htupleSlice⟩
  have hholds := inv.content.contents slice
  -- the hash map of the worker that inserted the tuple is triggered
  have htriggered : tuple.1 % query.numberOfHashMaps
      ∈ AggregationQuery.triggeredMaps (state.slices.contents slice) := by
    by_contra hnot
    have hnil := AggregationQuery.nil_of_not_triggered hholds (Nat.mod_lt _ query.numberOfHashMaps_pos) hnot
    have hmem : tuple.2 ∈ recordsAt query.numberOfHashMaps (tuple.1 % query.numberOfHashMaps)
        (group (query.operations.sliceOf query.assigner) slice state.slices.inserted) :=
      mem_map_of_mem (mem_group.2 ⟨hgroup, rfl⟩)
    rw [hnil] at hmem
    exact not_mem_nil hmem
  rcases AggregationQuery.holds_of_triggered hholds htriggered with ⟨hashMap, hptr, _⟩
  have hmem : hashMap ∈ (AggregationQuery.triggerSlices state.slices.contents r).hashMaps.filterMap
      fun pointer => (state.slices.contents pointer.1).getHashMapPtr pointer.2 :=
    mem_filterMap.2 ⟨(slice, _), AggregationQuery.mem_pointers.2 ⟨hslice, htriggered⟩, hptr⟩
  rcases exists_cons_of_ne_nil (ne_nil_of_mem hmem) with ⟨first, rest, hcons⟩
  refine ⟨first.createNewMapWithSameConfiguration, ?_, .create _⟩
  have hhead := congrArg head? hcons
  simp only [AggregationQuery.triggerSlices] at hhead ⊢
  rw [hhead]
  rfl

/-- The probe operator meets the records of a window in some order. -/
lemma arrange_perm (hr : r ∈ state.slices.history.emitted) :
    (query.arrange r state.slices.inserted).Perm
      ((query.operations.tuplesIn r.windowInfo state.slices.inserted).map Prod.snd) := by
  have hslices := (inv.content.perm_of_emitted hr).map Prod.snd
  rw [map_flatMap] at hslices
  refine .trans ?_ hslices.symm
  exact .flatMap_left _ fun slice _ => query.arrangeSlice_perm _

variable (hstates : IsStateOf query.states represents)
include hstates

lemma slices {event : SliceEvent (WorkerRecord V)}
    (henabled : state.slices.Enabled query.operations query.assigner state.Probed event) :
    ∃ state', state.step query (.slices event) = some state' ∧ AggregationInvariant query represents state' := by
  rcases inv.content.step (isContentOf hstates) henabled with ⟨slices', hstep, hcontent, hfrozen⟩
  rcases hfrozen.emitted with ⟨windows, hemitted⟩
  have hmem : ∀ r ∈ state.slices.history.emitted, r ∈ slices'.history.emitted := fun r hr =>
    hemitted.symm ▸ mem_append_left _ hr
  refine ⟨{ state with slices := slices' }, ?_, hcontent, ?_, ?_, inv.output_nodup⟩
  · rw [AggregationSystem.step, hstep]
    rfl
  · intro window hwindow
    rcases inv.triggered window hwindow with ⟨r, hr, rfl⟩
    refine ⟨r, hmem r hr, ?_⟩
    -- the trigger buffer depends only on the slices of the window
    have hpointers : (r.slices.flatMap fun slice =>
        (AggregationQuery.triggeredMaps (state.slices.contents slice)).map (Prod.mk slice))
        = r.slices.flatMap fun slice =>
          (AggregationQuery.triggeredMaps (slices'.contents slice)).map (Prod.mk slice) :=
      flatMap_congr fun slice hslice => by rw [hfrozen.contents r hr slice hslice]
    have hmaps : ((r.slices.flatMap fun slice =>
        (AggregationQuery.triggeredMaps (slices'.contents slice)).map (Prod.mk slice)).filterMap
          fun pointer => (state.slices.contents pointer.1).getHashMapPtr pointer.2)
        = (r.slices.flatMap fun slice =>
        (AggregationQuery.triggeredMaps (slices'.contents slice)).map (Prod.mk slice)).filterMap
          fun pointer => (slices'.contents pointer.1).getHashMapPtr pointer.2 := by
      refine filterMap_congr fun pointer hpointer => ?_
      rcases mem_flatMap.1 hpointer with ⟨slice, hslice, hpos⟩
      rcases mem_map.1 hpos with ⟨pos, _, rfl⟩
      rw [hfrozen.contents r hr slice hslice]
    simp only [AggregationQuery.triggerSlices, hpointers, hmaps]
  · intro o ho
    rcases inv.output o ho with ⟨r, hr, hwindow, hresults⟩
    have harrange : query.arrange r slices'.inserted = query.arrange r state.slices.inserted :=
      flatMap_congr fun slice hslice => by rw [hfrozen.group r hr slice hslice]
    refine ⟨r, hmem r hr, hwindow, hresults.windowInfo, hresults.nodup, ?_, ?_⟩
    · rw [harrange]
      exact hresults.mem_iff
    · rw [harrange]
      exact hresults.represents

lemma probe {window : EmittedAggregationWindow V ν} (hwindow : window ∈ state.triggered)
    (hnot : ¬ state.Probed window.windowInfo) :
    ∃ state', state.step query (.probe window) = some state' ∧ AggregationInvariant query represents state' := by
  rcases inv.triggered window hwindow with ⟨r, hr, rfl⟩
  have hslices := inv.content.store.emitted_slices r hr
  have hw := inv.content.assigner_eq ▸ inv.content.store.emitted_isWindow _ (mem_map_of_mem hr)
  -- the slices of a window that was not probed are still in the store, so no pointer dangles
  have hpointers : ∀ pointer ∈ (AggregationQuery.triggerSlices state.slices.contents r).hashMaps,
      ∃ hashMap, AggregationQuery.hashMapAt state.slices pointer = some hashMap ∧
        MapHolds query.options represents hashMap (recordsAt query.numberOfHashMaps pointer.2
          (group (query.operations.sliceOf query.assigner) pointer.1 state.slices.inserted)) := by
    intro pointer hpointer
    rcases AggregationQuery.mem_pointers.1 hpointer with ⟨hslice, hpos⟩
    rcases (hslices.mem_iff pointer.1).1 hslice with ⟨hcreated, hcovers⟩
    have hfind := inv.content.getSliceBySliceEnd hcreated hw hcovers hnot
    rcases AggregationQuery.holds_of_triggered (inv.content.contents pointer.1) hpos with ⟨hashMap, hptr, hholds⟩
    refine ⟨hashMap, ?_, hholds⟩
    rw [AggregationQuery.hashMapAt, hfind]
    exact hptr
  rcases inv.exists_finalHashMap hr with ⟨finalHashMap, hfinal, hempty⟩
  rcases AggregationQuery.foldl_mergeInto hstates hpointers hempty with ⟨hashMaps, hmapM, hmerged⟩
  rw [nil_append, AggregationQuery.flatMap_pointers inv.content.contents] at hmerged
  refine ⟨{ state with output := state.output ++ [(r.windowInfo,
    (hashMaps.foldl (mergeInto query.states) finalHashMap).iterate.map fun entry =>
      ⟨r.windowInfo, entry.keys, entry.value⟩)] }, ?_, ?_, inv.triggered, ?_, ?_⟩
  · simp only [AggregationSystem.step, AggregationQuery.probe, hmapM, hfinal, Option.bind_eq_bind, Option.bind_some]
    rfl
  · refine inv.content.mono fun w hprobed => ?_
    rw [AggregationSystem.Probed, map_append]
    exact mem_append_left _ hprobed
  · intro o ho
    rcases mem_append.1 ho with ho | ho
    · exact inv.output o ho
    · rw [mem_singleton.1 ho]
      exact ⟨r, hr, rfl, .of_mapHolds hmerged⟩
  · rw [map_append, map_singleton]
    refine nodup_append.2 ⟨inv.output_nodup, nodup_singleton _, ?_⟩
    intro w hmem w' hmem' heq
    have hwindow' : w = r.windowInfo := heq.trans (mem_singleton.1 hmem')
    exact hnot (show r.windowInfo ∈ _ from hwindow' ▸ hmem)

lemma step {event : AggregationEvent V ν} (henabled : state.Enabled query event) :
    ∃ state', state.step query event = some state' ∧ AggregationInvariant query represents state' := by
  cases event with
  | slices event => exact inv.slices hstates henabled
  | triggerSlices r => exact inv.triggerSlices henabled.1
  | probe window => exact inv.probe hstates henabled.1 henabled.2

omit inv in
lemma of_isReachable (h : state.IsReachable query) : AggregationInvariant query represents state := by
  refine Reachable.invariant (AggregationInvariant query represents) (initial hstates) ?_ h
  intro s event s' inv henabled hstep
  rcases inv.step hstates henabled with ⟨s'', hstep', inv'⟩
  have heq : s'' = s' := Option.some_inj.1 (hstep'.symm.trans hstep)
  exact heq ▸ inv'

end AggregationInvariant

end MobilityNebula.Aggregation
