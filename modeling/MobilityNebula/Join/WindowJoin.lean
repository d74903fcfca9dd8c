import MobilityNebula.Join.StreamJoinOperatorHandler

/-!
# WindowJoin — the result of a nested loop join

After all trigger buffers of a window were probed, the records produced for it are, up to order, those of all
pairs of a left and a right tuple of the window that satisfy the predicate (`window_join_law`): slices,
workers, and the choice of the outer loop do not show.
-/

namespace MobilityNebula.Join

open Library SliceStore Windows Nautilus List NLJSlice

variable {V : Type} {query : JoinQuery V}

lemma JoinQuery.joinPair_rowOf (w : WindowInfo) (left right : Record V) :
    query.joinPair w (query.rowOf .left left) (query.rowOf .right right) = query.joinPair w left right := by
  have hrow : ∀ side (record : Record V), ∀ field ∈ query.fields side,
      (query.rowOf side record).read field = record.read field := by
    intro side record field hmem
    rw [JoinQuery.rowOf, Record.read_overlay, if_pos hmem]
  have hkey : ∀ side (record : Record V), ∀ field ∈ query.keyFields side,
      (query.rowOf side record).read field = record.read field :=
    fun side record field hmem => hrow side record field (query.keyFields_subset side field hmem)
  rw [JoinQuery.joinPair, query.joinedRecord_congr w (hkey _ left) (hkey _ right),
    query.joinedRecord_congr w (hrow _ left) (hrow _ right), JoinQuery.joinPair]

def recordsIn (inserted : List (JoinTuple query)) (side : JoinBuildSideType) (w : WindowInfo) : List (Record V) :=
  (inserted.filter fun tuple => tuple.side = side ∧ w.Contains (query.getTs tuple.side tuple.record)).map
    JoinTuple.record

def JoinSystem.outputOf (state : JoinSystem query) (w : WindowInfo) : List (Record V) :=
  (state.output.filter fun o => o.1.windowInfo = w).flatMap Prod.snd

/-- The join of two streams, window by window. -/
structure JoinLaw (state : JoinSystem query) : Prop where
  /-- Once all trigger buffers of a window were probed, its records are those of the pairs. -/
  output : ∀ w, state.Probed w → (state.outputOf w).Perm
    (pairs (query.joinPair w) (recordsIn state.slices.inserted .left w) (recordsIn state.slices.inserted .right w))
  /-- Records are only produced for windows. -/
  isWindow : ∀ o ∈ state.output, query.assigner.IsWindow o.1.windowInfo
  /-- The trigger buffers of a window have the chunk numbers from one on, and only the last one is marked. -/
  chunks : ∀ r ∈ state.slices.history.emitted,
    (state.triggeredFor r.windowInfo).map (fun t => t.2.sequenceData)
      = ((range' 1 (r.slices.length * r.slices.length)).map fun chunkNumber =>
          ⟨r.sequenceNumber, chunkNumber, chunkNumber == r.slices.length * r.slices.length⟩).take
            (state.triggeredFor r.windowInfo).length
  /-- Once all trigger buffers of all windows were probed, every window has the records of its pairs. -/
  complete : AllEmitted query.assigner state.slices.history →
    (∀ w ∈ state.slices.history.emittedWindows, state.Probed w) →
      ∀ w, query.assigner.IsWindow w → (state.outputOf w).Perm
        (pairs (query.joinPair w) (recordsIn state.slices.inserted .left w) (recordsIn state.slices.inserted .right w))

namespace JoinInvariant

variable {state : JoinSystem query} (inv : JoinInvariant state)
include inv

lemma exists_emitted {o : SliceCombination × List (Record V)} (ho : o ∈ state.output) :
    ∃ r ∈ state.slices.history.emitted, o.1 ∈ triggerSlices r := by
  rcases mem_map.1 (inv.output_mem o ho) with ⟨t, ht, heq⟩
  rcases (inv.triggered t ht).1 with ⟨r, hr, hcombination⟩
  exact ⟨r, hr, heq ▸ hcombination⟩

section

variable {r : WindowSlices} (hr : r ∈ state.slices.history.emitted)
include hr

lemma combinations_perm (hall : ∀ combination ∈ triggerSlices r, combination ∈ state.output.map Prod.fst) :
    ((state.output.filter fun o => o.1.windowInfo = r.windowInfo).map Prod.fst).Perm (triggerSlices r) := by
  have hnodup : ((state.output.filter fun o => o.1.windowInfo = r.windowInfo).map Prod.fst).Nodup :=
    inv.output_nodup.sublist (filter_sublist.map _)
  refine (perm_ext_iff_of_nodup hnodup (nodup_triggerSlices r)).2 fun combination => ⟨fun hmem => ?_, fun hmem => ?_⟩
  · rcases mem_map.1 hmem with ⟨o, ho, rfl⟩
    rcases mem_filter.1 ho with ⟨ho, hwindow⟩
    rcases inv.exists_emitted ho with ⟨r', hr', hcombination⟩
    have hwindow' := (windowInfo_of_mem_triggerSlices hcombination).symm.trans (of_decide_eq_true hwindow)
    exact inv.eq_of_windowInfo hr' hr hwindow' ▸ hcombination
  · rcases mem_map.1 (hall combination hmem) with ⟨o, ho, rfl⟩
    refine mem_map_of_mem (mem_filter.2 ⟨ho, decide_eq_true ?_⟩)
    exact windowInfo_of_mem_triggerSlices hmem

lemma rows_perm (side : JoinBuildSideType) :
    (r.slices.flatMap fun s => rowsOf side (tuplesOf state.slices.inserted s)).Perm
      ((recordsIn state.slices.inserted side r.windowInfo).map (query.rowOf side)) := by
  have hslices : (r.slices.flatMap fun s => rowsOf side (tuplesOf state.slices.inserted s))
      = rowsOf side (r.slices.flatMap (tuplesOf state.slices.inserted)) := by
    simp only [rowsOf, filter_flatMap, map_flatMap]
  have htuples := (inv.content.perm_of_emitted hr).symm
  rw [hslices]
  refine ((htuples.filter _).map _).trans (.of_eq ?_)
  rw [recordsIn, map_map, SliceOperations.tuplesIn, filter_filter]
  have hfilter : ∀ tuple ∈ state.slices.inserted,
      (decide (tuple.side = side) && decide (r.windowInfo.Contains (query.operations.timestamp tuple)))
        = decide (tuple.side = side ∧ r.windowInfo.Contains (query.getTs tuple.side tuple.record)) :=
    fun tuple _ => (Bool.decide_and _ _).symm
  rw [filter_congr hfilter]
  refine map_congr_left fun tuple hmem => ?_
  have hside := (of_decide_eq_true (mem_filter.1 hmem).2).1
  rw [Function.comp_apply, ← hside]

lemma recordsFor_perm : ((triggerSlices r).flatMap (recordsFor state.slices.inserted)).Perm
      (pairs (query.joinPair r.windowInfo) (recordsIn state.slices.inserted .left r.windowInfo)
        (recordsIn state.slices.inserted .right r.windowInfo)) := by
  generalize hleft : (fun s => rowsOf .left (tuplesOf state.slices.inserted s)) = leftRows
  generalize hright : (fun s => rowsOf .right (tuplesOf state.slices.inserted s)) = rightRows
  have hpairs : (triggerSlices r).flatMap (recordsFor state.slices.inserted)
      = pairs (fun s s' => pairs (query.joinPair r.windowInfo) (leftRows s) (rightRows s')) r.slices r.slices := by
    calc (triggerSlices r).flatMap (recordsFor state.slices.inserted)
        = (triggerSlices r).flatMap fun combination => pairs (query.joinPair r.windowInfo)
            (leftRows combination.sliceLeft) (rightRows combination.sliceRight) := by
          refine flatMap_congr fun combination hmem => ?_
          rw [recordsFor, windowInfo_of_mem_triggerSlices hmem, ← hleft, ← hright]
      _ = ((triggerSlices r).map fun combination => (combination.sliceLeft, combination.sliceRight)).flatMap fun p =>
            pairs (query.joinPair r.windowInfo) (leftRows p.1) (rightRows p.2) := by
          rw [flatMap_map]
      _ = pairs (fun s s' => pairs (query.joinPair r.windowInfo) (leftRows s) (rightRows s')) r.slices r.slices := by
          rw [slices_triggerSlices, flatMap_assoc]
          refine flatMap_congr fun s _ => ?_
          rw [flatMap_map]
  rw [hpairs]
  refine (pairs_flatMap _ leftRows rightRows r.slices r.slices).trans ?_
  rw [← hleft, ← hright]
  refine (pairs_perm _ (inv.rows_perm hr .left) (inv.rows_perm hr .right)).trans (.of_eq ?_)
  rw [pairs_map]
  simp only [JoinQuery.joinPair_rowOf]

end

lemma outputOf_perm {w : WindowInfo} (hprobed : state.Probed w) :
    (state.outputOf w).Perm (pairs (query.joinPair w) (recordsIn state.slices.inserted .left w)
      (recordsIn state.slices.inserted .right w)) := by
  rcases hprobed with ⟨r, hr, rfl, hall⟩
  have houtput : (state.outputOf r.windowInfo).Perm
      ((state.output.filter fun o => o.1.windowInfo = r.windowInfo).flatMap fun o =>
        recordsFor state.slices.inserted o.1) :=
    .flatMap_left _ fun o ho => inv.output o (mem_filter.1 ho).1
  refine houtput.trans ?_
  rw [← flatMap_map Prod.fst (recordsFor state.slices.inserted)]
  exact (List.Perm.flatMap_right _ (inv.combinations_perm hr hall)).trans (inv.recordsFor_perm hr)

end JoinInvariant

/-- In every interleaving of inserts, triggers, terminations, probes and garbage collection without late tuples,
the records of the probe operator follow the join law, and no enabled event aborts. -/
theorem window_join_law (query : JoinQuery V) (state : JoinSystem query) (hreachable : state.IsReachable) :
    JoinLaw state ∧ ∀ event, state.Enabled event → ∃ state', state.step event = some state' := by
  have inv := JoinInvariant.of_isReachable hreachable
  refine ⟨⟨fun w => inv.outputOf_perm, ?_, ?_, ?_⟩, ?_⟩
  · intro o ho
    rcases inv.exists_emitted ho with ⟨r, hr, hcombination⟩
    rw [windowInfo_of_mem_triggerSlices hcombination]
    exact inv.content.assigner_eq ▸ inv.content.store.emitted_isWindow _ (mem_map_of_mem hr)
  · intro r hr
    rw [← sequenceData_triggerSlices, ← map_take, ← inv.inOrder r hr, map_map]
    refine map_congr_left fun t ht => ?_
    rcases (inv.triggered t (mem_filter.1 ht).1).2.1 with ⟨numberOfTuples, hbuffer⟩
    rw [hbuffer]
    rfl
  · intro hall hprobed w hw
    by_cases hemitted : w ∈ state.slices.history.emittedWindows
    · exact inv.outputOf_perm (hprobed w hemitted)
    · -- a window that was not emitted has no tuples
      have hnone : ∀ side, recordsIn state.slices.inserted side w = [] := by
        intro side
        refine map_eq_nil_iff.2 (filter_eq_nil_iff.2 fun tuple htuple hin => hemitted ?_)
        exact inv.content.mem_emittedWindows hall hw htuple (of_decide_eq_true hin).2
      have hempty : state.outputOf w = [] := by
        refine flatMap_eq_nil_iff.2 fun o ho => absurd ?_ hemitted
        rcases mem_filter.1 ho with ⟨ho, hwindow⟩
        rcases inv.exists_emitted ho with ⟨r, hr, hcombination⟩
        rw [← of_decide_eq_true hwindow, windowInfo_of_mem_triggerSlices hcombination]
        exact mem_map_of_mem hr
      rw [hempty, hnone .left, hnone .right]
      exact .refl _
  · intro event henabled
    rcases inv.step henabled with ⟨state', hstep, _⟩
    exact ⟨state', hstep⟩

/-! ## A run -/

/-- Windows of length 10 that start every 5 time units; the streams are joined on the fields k and j. -/
def sampleQuery : JoinQuery Nat where
  assigner := ⟨10, 5, Nat.succ_pos 4⟩
  numberOfInputOrigins := 1
  getTs
    | .left, record => (record.read "t").getD 0
    | .right, record => (record.read "u").getD 0
  fields
    | .left => ["k", "t"]
    | .right => ["j", "u"]
  keyFields
    | .left => ["k"]
    | .right => ["j"]
  keyFields_subset
    | .left => by decide
    | .right => by decide
  disjoint := by decide
  windowStartFieldName := "start"
  windowEndFieldName := "end"
  convertToValue := id
  joinFunction record := record.read "k" == record.read "j"
  capacity _ := 2
  numberOfWorkerThreads := 2
  numberOfWorkerThreads_pos := Nat.two_pos

def sampleLeft (k t : Nat) (workerThreadId : Nat) : JoinTuple sampleQuery where
  workerThreadId := workerThreadId
  side := .left
  record := (Record.empty.write "k" k).write "t" t
  hasFields := forall_mem_cons.2 ⟨rfl, forall_mem_cons.2 ⟨rfl, forall_mem_nil _⟩⟩

def sampleRight (j u : Nat) (workerThreadId : Nat) : JoinTuple sampleQuery where
  workerThreadId := workerThreadId
  side := .right
  record := (Record.empty.write "j" j).write "u" u
  hasFields := forall_mem_cons.2 ⟨rfl, forall_mem_cons.2 ⟨rfl, forall_mem_nil _⟩⟩

/-- Two workers insert tuples of two slices; the origin terminates, and a window is triggered and probed. -/
lemma sample_join_reaches : ∃ state : JoinSystem sampleQuery, state.IsReachable ∧ state.Probed ⟨0, 10⟩ ∧
    ((state.outputOf ⟨0, 10⟩).map fun record => ["start", "end", "k", "t", "j", "u"].map record.read)
      = [[some 0, some 10, some 7, some 3, some 7, some 8]] := by
  let r : WindowSlices := ⟨⟨0, 10⟩, 1, [⟨0, 5⟩, ⟨5, 10⟩]⟩
  have h₀ := JoinSystem.IsReachable.initial sampleQuery
  have h₁ := h₀.step (.slices (.insert (sampleLeft 7 3 0))) ⟨by decide, Nat.zero_le _, Nat.zero_le _⟩ rfl
  have h₂ := h₁.step (.slices (.insert (sampleRight 7 8 1))) ⟨by decide, Nat.zero_le _, Nat.zero_le _⟩ rfl
  have h₃ := h₂.step (.slices .terminate) (show 0 < 1 by decide) rfl
  have h₄ := h₃.step (.emitSliceIdsToProbe r) ⟨by decide, by decide⟩ rfl
  have h₅ := h₄.step (.emitSliceIdsToProbe r) ⟨by decide, by decide⟩ rfl
  have h₆ := h₅.step (.emitSliceIdsToProbe r) ⟨by decide, by decide⟩ rfl
  have h₇ := h₆.step (.emitSliceIdsToProbe r) ⟨by decide, by decide⟩ rfl
  have h₈ := h₇.step (.probe ⟨⟨0, 5⟩, ⟨0, 5⟩, ⟨0, 10⟩, ⟨1, 1, false⟩⟩ ⟨⟨5, 5, ⟨0, 10⟩⟩, ⟨1, 1, false⟩, 0, 1⟩)
    ⟨by decide, by decide⟩ rfl
  have h₉ := h₈.step (.probe ⟨⟨0, 5⟩, ⟨5, 10⟩, ⟨0, 10⟩, ⟨1, 2, false⟩⟩ ⟨⟨5, 10, ⟨0, 10⟩⟩, ⟨1, 2, false⟩, 0, 2⟩)
    ⟨by decide, by decide⟩ rfl
  have h₁₀ := h₉.step (.probe ⟨⟨5, 10⟩, ⟨0, 5⟩, ⟨0, 10⟩, ⟨1, 3, false⟩⟩ ⟨⟨10, 5, ⟨0, 10⟩⟩, ⟨1, 3, false⟩, 0, 0⟩)
    ⟨by decide, by decide⟩ rfl
  have h₁₁ := h₁₀.step (.probe ⟨⟨5, 10⟩, ⟨5, 10⟩, ⟨0, 10⟩, ⟨1, 4, true⟩⟩ ⟨⟨10, 10, ⟨0, 10⟩⟩, ⟨1, 4, true⟩, 0, 1⟩)
    ⟨by decide, by decide⟩ rfl
  exact ⟨_, h₁₁, ⟨r, by decide, rfl, by decide⟩, rfl⟩

/-- The law at a state in which a window was probed. -/
theorem window_join_law_applies : ∃ state : JoinSystem sampleQuery, state.IsReachable ∧ state.Probed ⟨0, 10⟩ ∧
    JoinLaw state := by
  rcases sample_join_reaches with ⟨state, hreachable, hprobed, _⟩
  exact ⟨state, hreachable, hprobed, (window_join_law sampleQuery state hreachable).1⟩

end MobilityNebula.Join
