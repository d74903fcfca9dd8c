import MobilityNebula.Aggregation.SequencedAggregation
import MobilityNebula.Nautilus.PagedVector

/-!
# ArrayAggregation — ARRAY_AGG behind a sequence operator

Embedding of `ArrayAggregationPhysicalFunction.cpp`.  The state is a paged vector: each tuple of an entry
appends its value, and merging two states appends the pages of the second one.

A slice gets its tuples in the order of the stream, but the slices of a window are merged in the order of
their creation.  A tuple that goes back to an older slice is therefore moved in front of the tuples of the
slices created after it.  `array_keeps_stream_order_iff` says for which streams this never happens; the
streams that are sorted by time are among them (`slicesInOrder_of_sorted`).
-/

namespace MobilityNebula.Aggregation

open Library SliceStore Windows Nautilus List AggregationInvariant SequencedAggregation

/-! ## The function -/

structure ArrayAggregationPhysicalFunction (ρ β : Type) where
  inputFunction : ρ → β
  /-- The number of values on a page of the state. -/
  capacity : Nat

namespace ArrayAggregationPhysicalFunction

variable {ρ β ν : Type} (function : ArrayAggregationPhysicalFunction ρ β)

def reset : PagedVector β := PagedVector.create

def lift (state : PagedVector β) (record : ρ) : PagedVector β :=
  state.writeRecord function.capacity (function.inputFunction record)

def combine (state state' : PagedVector β) : PagedVector β := state.copyFrom state'

/-- The values of the array; a state without values does not occur. -/
def lower (state : PagedVector β) : Option (List β) :=
  if 0 < state.getTotalNumberOfEntries then state.iterate else none

/-- The state of the function next to those of the other functions of the query. -/
def states (others : StateOperations ρ ν) : StateOperations ρ (PagedVector β × ν) where
  reset := (reset, others.reset)
  lift state record := (function.lift state.1 record, others.lift state.2 record)
  combine state state' := (combine state.1 state'.1, others.combine state.2 state'.2)
  resetAndCombine state := (combine reset state.1, others.resetAndCombine state.2)

structure HoldsArray (state : PagedVector β × ν) (records : List ρ) : Prop where
  wellFormed : state.1.WellFormed
  toList_eq : state.1.toList = records.map function.inputFunction

lemma isStateOf_states (others : StateOperations ρ ν) : IsStateOf (function.states others) function.HoldsArray where
  reset := ⟨.create, PagedVector.toList_create⟩
  lift h record := by
    rcases h.wellFormed.writeRecord function.capacity (function.inputFunction record) with ⟨hwf, htoList⟩
    refine ⟨hwf, htoList.trans ?_⟩
    rw [h.toList_eq, map_append, map_singleton]
  combine h h' := by
    rcases h.wellFormed.copyFrom h'.wellFormed with ⟨hwf, htoList⟩
    refine ⟨hwf, htoList.trans ?_⟩
    rw [h.toList_eq, h'.toList_eq, map_append]
  resetAndCombine h := by
    rcases PagedVector.WellFormed.create.copyFrom h.wellFormed with ⟨hwf, htoList⟩
    refine ⟨hwf, htoList.trans ?_⟩
    exact h.toList_eq

lemma HoldsArray.lower_eq {function : ArrayAggregationPhysicalFunction ρ β} {state : PagedVector β × ν}
    {records : List ρ} (h : function.HoldsArray state records) (hne : records ≠ []) :
    lower state.1 = some (records.map function.inputFunction) := by
  have hpos : 0 < state.1.getTotalNumberOfEntries := by
    rw [h.wellFormed.getTotalNumberOfEntries_eq, h.toList_eq, length_map]
    exact length_pos_iff.2 hne
  rw [lower, if_pos hpos, h.wellFormed.iterate_eq, h.toList_eq]

end ArrayAggregationPhysicalFunction

/-! ## The query -/

section Query

variable {V ν β : Type}

/-- The query with an ARRAY_AGG next to its other functions.  Because of it, the aggregation works behind a
sequence operator with one hash map for each slice. -/
def AggregationQuery.withArray (query : AggregationQuery V ν)
    (function : ArrayAggregationPhysicalFunction (Record V) β) : AggregationQuery V (PagedVector β × ν) where
  assigner := query.assigner
  numberOfInputOrigins := 1
  getTs := query.getTs
  options := query.options
  states := function.states query.states
  numberOfWorkerThreads := query.numberOfWorkerThreads
  numberOfWorkerThreads_pos := query.numberOfWorkerThreads_pos
  sequentialProcessing := true

namespace AggregationQuery

def sliceOf (query : AggregationQuery V ν) (record : Record V) : Slice := query.assigner.sliceOf (query.getTs record)

variable [DecidableEq V]

def InArray (query : AggregationQuery V ν) (w : WindowInfo) (keys : List V) (record : Record V) : Prop :=
  w.Contains (query.getTs record) ∧ query.options.keysOf record = keys

instance (query : AggregationQuery V ν) (w : WindowInfo) (keys : List V) : DecidablePred (query.InArray w keys) :=
  fun _ => inferInstanceAs (Decidable (_ ∧ _))

/-- In every run, every array has the values of the tuples of its key and window in the order of the
stream. -/
def KeepsStreamOrder (query : AggregationQuery V ν) (stream : SourceStream V) : Prop :=
  ∀ (β : Type) (function : ArrayAggregationPhysicalFunction (Record V) β)
    (state : SequencedAggregation V (PagedVector β × ν)), state.IsReachable stream (query.withArray function) →
    ∀ o ∈ state.aggregation.output, ∀ result ∈ o.2,
      ArrayAggregationPhysicalFunction.lower result.states.1
        = some (((stream.tuples.take state.insertedTuples.length).filter (query.InArray o.1 result.keys)).map
            fun record => function.inputFunction (query.options.writeKeys record))

/-- If a tuple precedes another one with the same key in the same window, then the first tuple of its slice does
not come after the first tuple of the other one's slice. -/
def SlicesInOrder (query : AggregationQuery V ν) (stream : SourceStream V) : Prop :=
  ∀ w, query.assigner.IsWindow w → ∀ keys,
    (stream.tuples.filter (query.InArray w keys)).Pairwise fun a b =>
      (stream.tuples.map query.sliceOf).idxOf (query.sliceOf a)
        ≤ (stream.tuples.map query.sliceOf).idxOf (query.sliceOf b)

end AggregationQuery

end Query

/-! ## What an array holds -/

section Arrays

variable {V ν β : Type} [DecidableEq V] {query : AggregationQuery V ν}
  {function : ArrayAggregationPhysicalFunction (Record V) β}

lemma creationInvariant_of_isReachable {represents : ν → List (Record V) → Prop}
    (hstates : IsStateOf query.states represents) {state : AggregationSystem V ν} (h : state.IsReachable query) :
    CreationInvariant query.operations query.assigner state.slices := by
  have hboth : AggregationInvariant query represents state ∧
      CreationInvariant query.operations query.assigner state.slices := by
    refine Reachable.invariant (fun state => AggregationInvariant query represents state ∧
      CreationInvariant query.operations query.assigner state.slices)
      ⟨initial hstates, .initial _ _ _⟩ ?_ h
    rintro s event s' ⟨inv, creation⟩ henabled hstep
    rcases inv.step hstates henabled with ⟨s'', hstep', inv'⟩
    have heq : s'' = s' := Option.some_inj.1 (hstep'.symm.trans hstep)
    refine ⟨heq ▸ inv', ?_⟩
    cases event with
    | slices event =>
      simp only [AggregationSystem.step, Option.bind_eq_bind, Option.bind_eq_some_iff, Option.some_inj] at hstep
      rcases hstep with ⟨slices', hslices, rfl⟩
      exact creation.step inv.content henabled hslices
    | triggerSlices r =>
      rw [← Option.some_inj.1 hstep]
      exact creation
    | probe window =>
      simp only [AggregationSystem.step, Option.bind_eq_bind, Option.bind_eq_some_iff, Option.some_inj] at hstep
      rcases hstep with ⟨_, _, rfl⟩
      exact creation
  exact hboth.2

lemma arrange_withArray (r : WindowSlices) (inserted : List (WorkerRecord V)) :
    (query.withArray function).arrange r inserted
      = (r.slices.flatMap fun s => group (fun tuple : WorkerRecord V => query.sliceOf tuple.2) s inserted).map
          Prod.snd := by
  have hslice : ∀ tuples, (query.withArray function).arrangeSlice tuples = tuples.map Prod.snd := by
    intro tuples
    have hone : (query.withArray function).numberOfHashMaps = 1 := rfl
    simp [AggregationQuery.arrangeSlice, hone, HashMapSlice.recordsAt, group, Nat.mod_one]
  rw [AggregationQuery.arrange, map_flatMap]
  exact flatMap_congr fun s _ => hslice _

/-- An array has the values of its tuples slice by slice. -/
lemma array_eq {state : AggregationSystem V (PagedVector β × ν)} (h : state.IsReachable (query.withArray function))
    {o : WindowInfo × List (AggregationResult V (PagedVector β × ν))} (ho : o ∈ state.output)
    {result : AggregationResult V (PagedVector β × ν)} (hresult : result ∈ o.2) :
    ∃ r ∈ state.slices.history.emitted, o.1 = r.windowInfo ∧ ArrayAggregationPhysicalFunction.lower result.states.1
        = some (((r.slices.flatMap fun s => group (fun tuple : WorkerRecord V => query.sliceOf tuple.2) s
            state.slices.inserted).filter fun tuple => query.InArray o.1 result.keys tuple.2).map
              fun tuple => function.inputFunction (query.options.writeKeys tuple.2)) := by
  have hstates : IsStateOf (query.withArray function).states function.HoldsArray := function.isStateOf_states _
  have inv := of_isReachable hstates h
  rcases inv.output o ho with ⟨r, hr, hwindow, hresults⟩
  refine ⟨r, hr, hwindow, ?_⟩
  have hslices := inv.content.store.emitted_slices r hr
  have hw := inv.content.assigner_eq ▸ inv.content.store.emitted_isWindow _ (mem_map_of_mem hr)
  generalize htuples : (r.slices.flatMap fun s => group (fun tuple : WorkerRecord V => query.sliceOf tuple.2) s
    state.slices.inserted) = tuples
  -- every tuple of a slice of the window is in the window
  have hcontains : ∀ tuple ∈ tuples, o.1.Contains (query.getTs tuple.2) := by
    intro tuple htuple
    rw [← htuples] at htuple
    rcases mem_flatMap.1 htuple with ⟨s, hs, hgroup⟩
    have hcovers := ((hslices.mem_iff s).1 hs).2
    rw [← (mem_group.1 hgroup).2] at hcovers
    rw [hwindow]
    exact (hw.covers_iff _).1 hcovers
  have hgroup : group query.options.keysOf result.keys ((query.withArray function).arrange r state.slices.inserted)
      = (tuples.filter fun tuple => query.InArray o.1 result.keys tuple.2).map Prod.snd := by
    rw [arrange_withArray, htuples, group, filter_map]
    refine congrArg (map Prod.snd) (filter_congr fun tuple htuple => ?_)
    simp [AggregationQuery.InArray, hcontains tuple htuple]
  have hholds := hresults.represents result hresult
  have hne : (group query.options.keysOf result.keys
      ((query.withArray function).arrange r state.slices.inserted)).map query.options.writeKeys ≠ [] := by
    rcases (hresults.mem_iff result.keys).1 (mem_map_of_mem hresult) with ⟨record, hrecord, hkeys⟩
    exact ne_nil_of_mem (mem_map_of_mem (mem_group.2 ⟨hrecord, hkeys⟩))
  have hlower := ArrayAggregationPhysicalFunction.HoldsArray.lower_eq hholds hne
  rw [hlower, show (query.withArray function).options = query.options from rfl, hgroup, map_map, map_map]
  rfl

end Arrays

/-! ## The order of an array -/

section Order

variable {V ν : Type} [DecidableEq V] {query : AggregationQuery V ν} {stream : SourceStream V}

lemma keepsStreamOrder_of_slicesInOrder (h : query.SlicesInOrder stream) : query.KeepsStreamOrder stream := by
  intro β function state hreachable o ho result hresult
  have hstates : IsStateOf (query.withArray function).states function.HoldsArray := function.isStateOf_states _
  have haggregation := (SequencedAggregation.OrderInvariant.of_isReachable hreachable).aggregation
  have inv := of_isReachable hstates haggregation
  rcases inserted_isPrefix hreachable with ⟨rest, hrest⟩
  have htake : stream.tuples.take state.insertedTuples.length = state.insertedTuples := by
    rw [← hrest, take_left]
  rcases array_eq haggregation ho hresult with ⟨r, hr, hwindow, hlower⟩
  have hw := inv.content.assigner_eq ▸ inv.content.store.emitted_isWindow _ (mem_map_of_mem hr)
  generalize hinserted : state.aggregation.slices.inserted = inserted at hlower
  have htuples : state.insertedTuples = inserted.map Prod.snd := congrArg (map Prod.snd) hinserted
  have hfilter : (inserted.filter fun tuple => query.InArray o.1 result.keys tuple.2).map Prod.snd
      = state.insertedTuples.filter (query.InArray o.1 result.keys) := by
    rw [htuples, filter_map]
    rfl
  -- the tuples of the array are sorted by the first tuples of their slices
  have hsorted : (inserted.filter fun tuple => query.InArray o.1 result.keys tuple.2).Pairwise fun a b =>
      (inserted.map fun tuple => query.sliceOf tuple.2).idxOf (query.sliceOf a.2)
        ≤ (inserted.map fun tuple => query.sliceOf tuple.2).idxOf (query.sliceOf b.2) := by
    have hstream := h o.1 (hwindow ▸ hw) result.keys
    rw [← hrest, filter_append, ← hfilter, map_append, htuples, map_map] at hstream
    have hbegin := pairwise_map.1 (pairwise_append.1 hstream).1
    refine hbegin.imp_of_mem fun {a b} ha hb hle => ?_
    have hmem : ∀ x ∈ inserted.filter fun tuple => query.InArray o.1 result.keys tuple.2,
        query.sliceOf x.2 ∈ inserted.map (query.sliceOf ∘ Prod.snd) := fun x hx =>
      mem_map.2 ⟨x, (mem_filter.1 hx).1, rfl⟩
    rw [idxOf_append_of_mem (hmem a ha), idxOf_append_of_mem (hmem b hb)] at hle
    exact hle
  have hslices : ∀ tuple ∈ inserted, decide (query.InArray o.1 result.keys tuple.2) = true →
      query.sliceOf tuple.2 ∈ r.slices := by
    intro tuple htuple hin
    refine ((inv.content.store.emitted_slices r hr).mem_iff _).2 ⟨?_, ?_⟩
    · exact (inv.content.created_iff _).2 ⟨tuple, hinserted.symm ▸ htuple, rfl⟩
    · exact (hw.covers_iff _).2 (hwindow ▸ (of_decide_eq_true hin).1)
  have hpairwise := (creationInvariant_of_isReachable hstates haggregation).pairwise_slices hr
  rw [hinserted] at hpairwise
  have hgroups := (filter_flatMap_group_eq_iff hpairwise hslices).2 hsorted
  rw [hlower, htake, ← hfilter, map_map]
  exact congrArg some (congrArg (map _) hgroups)

/-- Timestamps tell whether an array is in order. -/
lemma slicesInOrder_of_keepsStreamOrder
    (hkeys : ∀ record, query.getTs (query.options.writeKeys record) = query.getTs record)
    (h : query.KeepsStreamOrder stream) : query.SlicesInOrder stream := by
  intro w hw keys
  by_cases hempty : stream.tuples.filter (query.InArray w keys) = []
  · rw [hempty]
    exact .nil
  · rcases exists_mem_of_ne_nil _ hempty with ⟨record, hmem⟩
    rcases mem_filter.1 hmem with ⟨hrecord, hin⟩
    have hin := of_decide_eq_true hin
    generalize hfunction : (⟨query.getTs, 1⟩ : ArrayAggregationPhysicalFunction (Record V) Nat) = function
    have hinput : ∀ record, function.inputFunction (query.options.writeKeys record) = query.getTs record := by
      intro record
      rw [← hfunction]
      exact hkeys record
    have hstates : IsStateOf (query.withArray function).states function.HoldsArray := function.isStateOf_states _
    -- a run in which the window is probed after the whole stream
    have hrun : ∃ state : SequencedAggregation V (PagedVector Nat × ν),
      state.IsReachable stream (query.withArray function) ∧
        state.insertedTuples = stream.tuples ∧ state.aggregation.Probed w :=
      exists_probed hstates rfl hw hrecord hin.1
    rcases hrun with ⟨state, hreachable, htuples, hprobed⟩
    have haggregation := (SequencedAggregation.OrderInvariant.of_isReachable hreachable).aggregation
    have inv := of_isReachable hstates haggregation
    rcases mem_map.1 hprobed with ⟨o, ho, rfl⟩
    rcases inv.output o ho with ⟨r, hr, hwindow, hresults⟩
    have hkey : keys ∈ o.2.map AggregationResult.keys := by
      refine (hresults.mem_iff keys).2 ⟨record, (inv.arrange_perm hr).mem_iff.2 ?_, hin.2⟩
      have hinserted : record ∈ state.insertedTuples := htuples.symm ▸ hrecord
      rcases mem_map.1 hinserted with ⟨tuple, htuple, rfl⟩
      exact mem_map_of_mem (mem_filter.2 ⟨htuple, decide_eq_true (hwindow ▸ hin.1)⟩)
    rcases mem_map.1 hkey with ⟨result, hresult, rfl⟩
    rcases array_eq haggregation ho hresult with ⟨r', hr', _, hlower⟩
    have hkept := h Nat function state hreachable o ho result hresult
    rw [hlower, Option.some_inj, htuples, take_length] at hkept
    simp only [hinput] at hkept
    -- the array is sorted by the first tuples of the slices
    have hpairwise := (creationInvariant_of_isReachable hstates haggregation).pairwise_slices hr'
    have hsorted := (pairwise_flatMap_group (fun tuple : WorkerRecord V => query.sliceOf tuple.2) hpairwise
      state.aggregation.slices.inserted).filter fun tuple => query.InArray o.1 result.keys tuple.2
    have hslices : state.aggregation.slices.inserted.map
        ((query.withArray function).operations.sliceOf (query.withArray function).assigner)
        = stream.tuples.map query.sliceOf := by
      rw [← htuples, insertedTuples, map_map]
      rfl
    rw [hslices] at hsorted
    have htimes : ((stream.tuples.filter (query.InArray o.1 result.keys)).map query.getTs).Pairwise fun t t' =>
        (stream.tuples.map query.sliceOf).idxOf (query.assigner.sliceOf t)
          ≤ (stream.tuples.map query.sliceOf).idxOf (query.assigner.sliceOf t') := by
      rw [← hkept]
      exact pairwise_map.2 hsorted
    exact .of_map query.getTs (fun _ _ hle => hle) htimes

/-- If writing the keys into a tuple does not change its timestamp, then the arrays are in the order of the stream
in every run exactly if the slices are. -/
theorem array_keeps_stream_order_iff (query : AggregationQuery V ν) (stream : SourceStream V)
    (hkeys : ∀ record, query.getTs (query.options.writeKeys record) = query.getTs record) :
    query.KeepsStreamOrder stream ↔ query.SlicesInOrder stream :=
  ⟨slicesInOrder_of_keepsStreamOrder hkeys, keepsStreamOrder_of_slicesInOrder⟩

/-! ## A run -/

/-- Windows of length 4 that start every 2 time units. -/
def arrayQuery : AggregationQuery Nat Unit where
  assigner := ⟨4, 2, Nat.two_pos⟩
  numberOfInputOrigins := 1
  getTs record := (record.read "ts").getD 0
  options :=
    { fieldKeys := ["k"]
      keyFunctions := [fun record => (record.read "k").getD 0]
      hashFunction := sum
      numberOfBuckets := 1
      numberOfBuckets_pos := Nat.one_pos
      length_keyFunctions := Eq.refl 1 }
  states := ⟨(), fun _ _ => (), fun _ _ => (), fun _ => ()⟩
  numberOfWorkerThreads := 2
  numberOfWorkerThreads_pos := Nat.two_pos
  sequentialProcessing := true

def arrayRecord (ts : Nat) : Record Nat := (Record.empty.write "k" 7).write "ts" ts

/-- One buffer with tuples of one key at the given times. -/
def arrayStream (times : List Nat) : SourceStream Nat where
  originId := 1
  numberOfBuffers := 1
  numberOfChunks _ := 1
  numberOfChunks_pos _ := Nat.one_pos
  tuplesOf _ := times.map arrayRecord

lemma getTs_writeKeys_arrayQuery (record : Record Nat) :
    arrayQuery.getTs (arrayQuery.options.writeKeys record) = arrayQuery.getTs record :=
  congrArg (Option.getD · 0) (Record.read_write_of_ne (show "ts" ≠ "k" by decide) record _)

/-- Tuples at the times 0, 1, 2 stay in order. -/
theorem array_keeps_stream_order_ascending : arrayQuery.KeepsStreamOrder (arrayStream [0, 1, 2]) := by
  have hsorted : (arrayStream [0, 1, 2]).tuples.Pairwise fun a b =>
      ((arrayStream [0, 1, 2]).tuples.map arrayQuery.sliceOf).idxOf (arrayQuery.sliceOf a)
        ≤ ((arrayStream [0, 1, 2]).tuples.map arrayQuery.sliceOf).idxOf (arrayQuery.sliceOf b) := by
    decide
  exact (array_keeps_stream_order_iff arrayQuery (arrayStream [0, 1, 2]) getTs_writeKeys_arrayQuery).2
    fun _ _ _ => hsorted.filter _

/-- The times of one key arrive in the order 0, 2, 1, and the array has them in the order 0, 1, 2. -/
theorem array_reorders_late_slice : ∃ state : SequencedAggregation Nat (PagedVector Nat × Unit),
    state.IsReachable (arrayStream [0, 2, 1]) (arrayQuery.withArray ⟨arrayQuery.getTs, 2⟩) ∧
      (state.aggregation.output.map fun o => (o.1, o.2.map fun result =>
        (result.keys, ArrayAggregationPhysicalFunction.lower result.states.1)))
        = [(⟨0, 4⟩, [([7], some [0, 1, 2])])] ∧
      ((arrayStream [0, 2, 1]).tuples.filter (arrayQuery.InArray ⟨0, 4⟩ [7])).map arrayQuery.getTs = [0, 2, 1] := by
  have h₀ : (initial (arrayQuery.withArray ⟨arrayQuery.getTs, 2⟩)).IsReachable
      (arrayStream [0, 2, 1]) (arrayQuery.withArray ⟨arrayQuery.getTs, 2⟩) := .initial
  -- the buffer is scanned and its tuples are inserted
  have h₁ := h₀.step (.sequence (.getNextBuffer ⟨1, 1, 1⟩))
    ⟨⟨⟨mem_singleton_self _, by decide, by decide, by decide, by decide⟩, not_mem_nil⟩, nofun⟩ rfl
  have h₂ := h₁.step (.sequence .scan) ⟨show 0 < 1 by decide, nofun⟩ rfl
  have h₃ := h₂.step (.aggregation (.slices (.insert (0, arrayRecord 0))))
    ⟨⟨by decide, Nat.zero_le _, Nat.zero_le _⟩, by rintro _ ⟨⟩; rfl⟩ rfl
  have h₄ := h₃.step (.aggregation (.slices (.insert (0, arrayRecord 2))))
    ⟨⟨by decide, Nat.zero_le _, Nat.zero_le _⟩, by rintro _ ⟨⟩; rfl⟩ rfl
  have h₅ := h₄.step (.aggregation (.slices (.insert (0, arrayRecord 1))))
    ⟨⟨by decide, Nat.zero_le _, Nat.zero_le _⟩, by rintro _ ⟨⟩; rfl⟩ rfl
  -- the origin terminates, and the window is triggered and probed
  have h₆ := h₅.step (.aggregation (.slices .terminate)) ⟨show 0 < 1 by decide, nofun⟩ rfl
  have h₇ := h₆.step (.aggregation (.triggerSlices ⟨⟨0, 4⟩, 1, [⟨0, 2⟩, ⟨2, 4⟩]⟩)) ⟨⟨by decide, by decide⟩, nofun⟩ rfl
  have h₈ := h₇.step (.aggregation (.probe _)) ⟨⟨mem_cons_self, not_mem_nil⟩, nofun⟩ rfl
  exact ⟨_, h₈, rfl, rfl⟩

end Order

end MobilityNebula.Aggregation
