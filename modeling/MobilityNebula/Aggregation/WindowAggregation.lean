import MobilityNebula.Aggregation.AggregationOperator
import MobilityNebula.Aggregation.AggregationPhysicalFunction

/-!
# WindowAggregation — COUNT, SUM, MIN, MAX and AVG over windows

The aggregation operators with integer functions compute, for every window and every key, the states that one
pass over the tuples of that key in the window would leave (`window_aggregation_law`): slices, workers, hash
maps and the order in which they are merged do not show.
-/

namespace MobilityNebula.Aggregation

open Library SliceStore Windows Nautilus List

variable {V : Type} (functions : List (AggregationPhysicalFunction (Record V)))

/-- The states of a list of functions, one behind the other.  A new page of the hash map is filled with
zeros. -/
def integerStates : StateOperations (Record V) MemArea where
  reset := resetStates functions fun _ => 0
  lift := liftStates functions
  combine := combineStates functions
  resetAndCombine := resetAndCombineStates functions fun _ => 0

lemma isStateOf_integerStates : IsStateOf (integerStates functions) (HoldsFolds functions) where
  reset := holdsFolds_resetStates _
  lift h record := h.liftStates record
  combine h h' := h.combineStates h'
  resetAndCombine h := .resetAndCombineStates _ h

def AggregationQuery.withFunctions (query : AggregationQuery V Unit)
    (functions : List (AggregationPhysicalFunction (Record V))) : AggregationQuery V MemArea where
  assigner := query.assigner
  numberOfInputOrigins := query.numberOfInputOrigins
  getTs := query.getTs
  options := query.options
  states := integerStates functions
  numberOfWorkerThreads := query.numberOfWorkerThreads
  numberOfWorkerThreads_pos := query.numberOfWorkerThreads_pos
  sequentialProcessing := query.sequentialProcessing

/-- The states after all records were added to one entry, one after the other. -/
def onePass (records : List (Record V)) : MemArea :=
  records.foldl (liftStates functions) (resetStates functions fun _ => 0)

lemma holdsFolds_onePass (records : List (Record V)) : HoldsFolds functions (onePass functions records) records := by
  have hfold : ∀ (rest done : List (Record V)) (mem : MemArea), HoldsFolds functions mem done →
      HoldsFolds functions (rest.foldl (liftStates functions) mem) (done ++ rest) := by
    intro rest
    induction rest with
    | nil =>
      intro done mem h
      rw [append_nil]
      exact h
    | cons record rest ih =>
      intro done mem h
      have hrest := ih (done ++ [record]) _ (h.liftStates record)
      rwa [append_assoc] at hrest
  exact hfold records [] _ (holdsFolds_resetStates _)

lemma HoldsFolds.perm {functions : List (AggregationPhysicalFunction (Record V))} {mem : MemArea}
    {records records' : List (Record V)} (h : HoldsFolds functions mem records) (hperm : records.Perm records') :
    HoldsFolds functions mem records' := by
  intro p hmem
  rw [h p hmem]
  exact p.1.aggregate_commutative.fold_perm hperm

variable [DecidableEq V]

/-- The tuples of a window that have the key, as the functions see them, in the order of insertion. -/
def recordsOf (query : AggregationQuery V Unit) (inserted : List (WorkerRecord V)) (w : WindowInfo) (keys : List V) :
    List (Record V) :=
  (inserted.filter fun tuple => w.Contains (query.getTs tuple.2) ∧ query.options.keysOf tuple.2 = keys).map
    fun tuple => query.options.writeKeys tuple.2

/-- Every window is probed once; its records have distinct keys, namely the keys of its tuples, and each
state is the one after a single pass over the tuples with that key. -/
structure AggregationLaw (query : AggregationQuery V Unit)
    (functions : List (AggregationPhysicalFunction (Record V))) (state : AggregationSystem V MemArea) : Prop where
  once : (state.output.map Prod.fst).Nodup
  isWindow : ∀ o ∈ state.output, query.assigner.IsWindow o.1
  windowInfo : ∀ o ∈ state.output, ∀ result ∈ o.2, result.windowInfo = o.1
  distinct : ∀ o ∈ state.output, (o.2.map AggregationResult.keys).Nodup
  keys : ∀ o ∈ state.output, ∀ keys, keys ∈ o.2.map AggregationResult.keys ↔
    ∃ tuple ∈ state.slices.inserted, o.1.Contains (query.getTs tuple.2) ∧ query.options.keysOf tuple.2 = keys
  states : ∀ o ∈ state.output, ∀ result ∈ o.2, ∀ p ∈ statePositions functions 0,
    p.1.stateAt result.states p.2
      = p.1.stateAt (onePass functions (recordsOf query state.slices.inserted o.1 result.keys)) p.2
  complete : AllEmitted query.assigner state.slices.history →
    (∀ w ∈ state.slices.history.emittedWindows, state.Probed w) →
      ∀ w, query.assigner.IsWindow w →
        ∀ tuple ∈ state.slices.inserted, w.Contains (query.getTs tuple.2) → state.Probed w

/-- In every interleaving of inserts, triggers, terminations, probes and garbage collection without late
tuples, the records of the probe operator follow the aggregation law, and no enabled event aborts. -/
theorem window_aggregation_law (query : AggregationQuery V Unit)
    (functions : List (AggregationPhysicalFunction (Record V))) (state : AggregationSystem V MemArea)
    (hreachable : state.IsReachable (query.withFunctions functions)) :
    AggregationLaw query functions state ∧ ∀ event, state.Enabled (query.withFunctions functions) event →
        ∃ state', state.step (query.withFunctions functions) event = some state' := by
  have hstates : IsStateOf (query.withFunctions functions).states (HoldsFolds functions) :=
    isStateOf_integerStates functions
  have inv := AggregationInvariant.of_isReachable hstates hreachable
  have hemitted : ∀ r ∈ state.slices.history.emitted, r.windowInfo ∈ state.slices.history.emittedWindows :=
    fun r hr => mem_map_of_mem hr
  refine ⟨⟨inv.output_nodup, ?_, ?_, ?_, ?_, ?_, ?_⟩, ?_⟩
  · intro o ho
    rcases inv.output o ho with ⟨r, hr, hwindow, _⟩
    rw [hwindow]
    exact inv.content.assigner_eq ▸ inv.content.store.emitted_isWindow _ (hemitted r hr)
  · intro o ho result hresult
    rcases inv.output o ho with ⟨r, _, hwindow, hresults⟩
    exact (hresults.windowInfo result hresult).trans hwindow.symm
  · intro o ho
    rcases inv.output o ho with ⟨r, _, _, hresults⟩
    exact hresults.nodup
  · intro o ho keys
    rcases inv.output o ho with ⟨r, hr, hwindow, hresults⟩
    rw [hresults.mem_iff, hwindow]
    simp only [(inv.arrange_perm hr).mem_iff, SliceOperations.tuplesIn, mem_map, mem_filter, decide_eq_true_eq]
    constructor
    · rintro ⟨record, ⟨tuple, ⟨htuple, hcontains⟩, rfl⟩, hkeys⟩
      exact ⟨tuple, htuple, hcontains, hkeys⟩
    · rintro ⟨tuple, htuple, hcontains, hkeys⟩
      exact ⟨tuple.2, ⟨tuple, ⟨htuple, hcontains⟩, rfl⟩, hkeys⟩
  · intro o ho result hresult p hp
    rcases inv.output o ho with ⟨r, hr, hwindow, hresults⟩
    -- the probe operator saw the same tuples, in another order
    have hperm : ((group query.options.keysOf result.keys
        ((query.withFunctions functions).arrange r state.slices.inserted)).map query.options.writeKeys).Perm
        (recordsOf query state.slices.inserted o.1 result.keys) := by
      refine ((group_perm _ _ (inv.arrange_perm hr)).map _).trans (.of_eq ?_)
      rw [recordsOf, hwindow, group, filter_map, map_map, SliceOperations.tuplesIn, filter_filter]
      refine congrArg₂ map rfl (filter_congr fun tuple _ => ?_)
      rw [Bool.and_comm]
      exact (Bool.decide_and _ _).symm
    have hholds := (hresults.represents result hresult).perm hperm
    rw [hholds p hp, holdsFolds_onePass functions _ p hp]
  · intro hall hprobed w hw tuple htuple hcontains
    exact hprobed w (inv.content.mem_emittedWindows hall hw htuple hcontains)
  · intro event henabled
    rcases inv.step hstates henabled with ⟨state', hstep, _⟩
    exact ⟨state', hstep⟩

/-! ## A run -/

/-- Windows of length 10 that start every 5 time units, counted and averaged by the field k. -/
def sampleQuery : AggregationQuery Nat Unit where
  assigner := ⟨10, 5, by decide⟩
  numberOfInputOrigins := 1
  getTs record := (record.read "ts").getD 0
  options :=
    { fieldKeys := ["k"]
      keyFunctions := [fun record => (record.read "k").getD 0]
      hashFunction := sum
      numberOfBuckets := 1
      numberOfBuckets_pos := by decide
      length_keyFunctions := rfl }
  states := ⟨(), fun _ _ => (), fun _ _ => (), fun _ => ()⟩
  numberOfWorkerThreads := 2
  numberOfWorkerThreads_pos := by decide
  sequentialProcessing := false

def sampleFunctions : List (AggregationPhysicalFunction (Record Nat)) :=
  [⟨.count, ⟨false, 8⟩, fun _ => 0⟩, ⟨.avg, ⟨true, 4⟩, fun record => BitVec.ofNat _ ((record.read "ts").getD 0)⟩]

def sampleRecord (k ts : Nat) : Record Nat := (Record.empty.write "k" k).write "ts" ts

/-- Two workers insert tuples of two slices; then the origin terminates and a window is probed. -/
lemma sample_reaches : ∃ state : AggregationSystem Nat MemArea,
    state.IsReachable (sampleQuery.withFunctions sampleFunctions) ∧ state.output.map Prod.fst = [⟨0, 10⟩] ∧
      state.slices.inserted = [(0, sampleRecord 7 3), (1, sampleRecord 7 8)] := by
  have h₀ := AggregationSystem.IsReachable.initial (sampleQuery.withFunctions sampleFunctions)
  have h₁ := h₀.step (.slices (.insert (0, sampleRecord 7 3))) ⟨by decide, Nat.zero_le _, Nat.zero_le _⟩ rfl
  have h₂ := h₁.step (.slices (.insert (1, sampleRecord 7 8))) ⟨by decide, Nat.zero_le _, Nat.zero_le _⟩ rfl
  have h₃ := h₂.step (.slices .terminate) (show 0 < 1 by decide) rfl
  have h₄ := h₃.step (.triggerSlices ⟨⟨0, 10⟩, 1, [⟨0, 5⟩, ⟨5, 10⟩]⟩) ⟨by decide, by decide⟩ rfl
  have h₅ := h₄.step (.probe _) ⟨mem_cons_self, not_mem_nil⟩ rfl
  exact ⟨_, h₅, rfl, rfl⟩

/-- The law at a state in which a window was probed. -/
theorem window_aggregation_law_applies : ∃ state : AggregationSystem Nat MemArea,
    state.IsReachable (sampleQuery.withFunctions sampleFunctions) ∧ state.output.map Prod.fst = [⟨0, 10⟩] ∧
      AggregationLaw sampleQuery sampleFunctions state := by
  rcases sample_reaches with ⟨state, hreachable, houtput, _⟩
  exact ⟨state, hreachable, houtput, (window_aggregation_law sampleQuery sampleFunctions state hreachable).1⟩

end MobilityNebula.Aggregation
