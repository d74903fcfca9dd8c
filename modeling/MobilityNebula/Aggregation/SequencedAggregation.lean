import MobilityNebula.Library.InitialSegments
import MobilityNebula.Aggregation.AggregationOperator
import MobilityNebula.Sequencing.SequenceOperator
import MobilityNebula.Windows.CreationOrder

/-!
# SequencedAggregation — an aggregation behind a sequence operator

An aggregation whose result depends on the order of its tuples gets its buffers from a sequence operator.  The
sequence operator passes a buffer to the scan, which hands its tuples, one after the other, to the aggregation
before the buffer is marked as done.

With one origin the tuples are inserted in the order of the stream: by sequence number, chunk and position in
the buffer (`SequencedAggregation.inserted_isPrefix`).  Every stream can be processed up to its end, and each
window with a tuple is then probed (`SequencedAggregation.exists_probed`).
-/

namespace MobilityNebula.Aggregation

open Library SliceStore Windows Nautilus Sequencing List Option SequenceSystem AggregationInvariant

/-! ## The stream -/

structure SourceStream (V : Type) where
  originId : Nat
  numberOfBuffers : Nat
  numberOfChunks : Nat → Nat
  numberOfChunks_pos : ∀ s, 0 < numberOfChunks s
  tuplesOf : BufferId → List (Record V)

namespace SourceStream

variable {V : Type} (stream : SourceStream V)

def input : OriginInput where
  origins := [stream.originId]
  numberOfBuffers _ := stream.numberOfBuffers
  numberOfChunks _ := stream.numberOfChunks
  numberOfChunks_pos _ := stream.numberOfChunks_pos

/-- The tuples in the order of sequence number, chunk and position in the buffer. -/
def tuples : List (Record V) := stream.input.buffers.flatMap stream.tuplesOf

lemma singleOrigin : stream.input.SingleOrigin := by
  intro o ho o' ho' _ _
  exact (mem_singleton.1 ho).trans (mem_singleton.1 ho').symm

lemma buffers_sorted : stream.input.buffers.Pairwise fun a b =>
    Precedes (position a) (position b) := by
  have hbuffers : stream.input.buffers = (range' 1 stream.numberOfBuffers).flatMap fun s =>
      (range' 1 (stream.numberOfChunks s)).map fun c => ⟨stream.originId, s, c⟩ :=
    flatMap_singleton _ _
  rw [hbuffers]
  have hrange : ∀ n, (range' 1 n).Pairwise (· < ·) := fun n => pairwise_lt_range'
  refine pairwise_flatMap.2 ⟨fun s _ => ?_, (hrange _).imp fun {s s'} hlt a ha b hb => ?_⟩
  · refine pairwise_map.2 ((hrange _).imp fun {c c'} hlt => ?_)
    exact .inr ⟨rfl, hlt⟩
  · rcases mem_map.1 ha with ⟨c, _, rfl⟩
    rcases mem_map.1 hb with ⟨c', _, rfl⟩
    exact .inl hlt

lemma scanned_isPrefix {sequence : SequenceSystem} (h : SequenceSystem.IsReachable stream.input sequence) :
    sequence.scanned.reverse <+: stream.input.buffers := by
  have inv := SequenceSystem.DeliveryInvariant.of_isReachable stream.singleOrigin h
  refine isPrefix_of_closed (fun x y hxy hyx => precedes_irrefl _ (hxy.trans hyx)) stream.buffers_sorted
    (pairwise_reverse.2 inv.scanned_sorted) (fun b hb => ?_) fun b hb b' hb' hprecedes => ?_
  · have hscanned := (inv.scanned_iff b).1 (mem_reverse.1 hb)
    exact stream.input.mem_buffers.2 (inv.arrived.buffers b hscanned.1)
  · -- what comes before a scanned buffer precedes the next position
    rcases (inv.scanned_iff b).1 (mem_reverse.1 hb) with ⟨_, hposition⟩
    have hnext : Precedes (position b') sequence.sequencer.next := by
      rcases hposition with hbefore | ⟨_, heq⟩
      · exact hprecedes.trans hbefore
      · exact heq ▸ hprecedes
    rw [mem_reverse, inv.scanned_iff]
    exact ⟨inv.before b' (stream.input.mem_buffers.1 hb') hnext, .inl hnext⟩

lemma exists_scanned : ∃ sequence, SequenceSystem.IsReachable stream.input sequence ∧
    sequence.scanned.reverse = stream.input.buffers := by
  have hnoAbort : ∀ state, SequenceSystem.IsReachable stream.input state → ∀ event,
      state.Enabled stream.input event → ∃ state', state.step stream.input event = some state' :=
    fun state hreachable event henabled =>
      (SequenceSystem.DeliveryInvariant.of_isReachable stream.singleOrigin hreachable).noAbort henabled
  rcases exists_final hnoAbort Reachable.initial with ⟨sequence, hreachable, hfinal⟩
  refine ⟨sequence, hreachable, ?_⟩
  have hdelivered := (SequenceSystem.DeliveryInvariant.of_isReachable stream.singleOrigin hreachable).delivered hfinal
  have inv := SequenceSystem.DeliveryInvariant.of_isReachable stream.singleOrigin hreachable
  -- both lists are sorted and have the same elements
  have hconverse : stream.input.buffers <+: sequence.scanned.reverse := by
    refine isPrefix_of_closed (fun x y hxy hyx => precedes_irrefl _ (hxy.trans hyx))
      (pairwise_reverse.2 inv.scanned_sorted) stream.buffers_sorted (fun b hb => ?_) fun _ _ b hb _ => ?_
    · exact mem_reverse.2 ((hdelivered.mem_iff b).2 (stream.input.mem_buffers.1 hb))
    · exact stream.input.mem_buffers.2 ((hdelivered.mem_iff b).1 (mem_reverse.1 hb))
  exact (stream.scanned_isPrefix hreachable).sublist.antisymm hconverse.sublist

end SourceStream

/-! ## The system -/

structure SequencedAggregation (V ν : Type) where
  sequence : SequenceSystem
  aggregation : AggregationSystem V ν

inductive SequencedEvent (V ν : Type) where
  | sequence (event : SequenceEvent)
  | aggregation (event : AggregationEvent V ν)

namespace SequencedAggregation

variable {V ν : Type} [DecidableEq V] (stream : SourceStream V) (query : AggregationQuery V ν)
  (state : SequencedAggregation V ν)

def initial : SequencedAggregation V ν := ⟨SequenceSystem.initial, AggregationSystem.initial query⟩

def scannedTuples : List (Record V) :=
  state.sequence.scanned.reverse.flatMap stream.tuplesOf

def insertedTuples : List (Record V) :=
  state.aggregation.slices.inserted.map Prod.snd

/-- The scan inserts the tuples one after the other, and the buffer is marked as done when there are no
more. -/
def Enabled : SequencedEvent V ν → Prop
  | .sequence event => state.sequence.Enabled stream.input event ∧
      (event = .markBufferAsDone → state.insertedTuples.length = (state.scannedTuples stream).length)
  | .aggregation event => state.aggregation.Enabled query event ∧
      ∀ tuple, event = .slices (.insert tuple) →
        (state.scannedTuples stream)[state.insertedTuples.length]? = some tuple.2

def step : SequencedEvent V ν → Option (SequencedAggregation V ν)
  | .sequence event => do
    let sequence ← state.sequence.step stream.input event
    some { state with sequence := sequence }
  | .aggregation event => do
    let aggregation ← state.aggregation.step query event
    some { state with aggregation := aggregation }

def IsReachable : Prop :=
  Reachable (initial query) (Enabled stream query) (step stream query) state

variable {stream query} in
lemma IsReachable.step {state state' : SequencedAggregation V ν} (h : state.IsReachable stream query)
    (event : SequencedEvent V ν) (henabled : state.Enabled stream query event)
    (hstep : state.step stream query event = some state') : state'.IsReachable stream query :=
  Reachable.step h henabled hstep

/-! ## The order of the tuples -/

structure OrderInvariant : Prop where
  sequence : SequenceSystem.IsReachable stream.input state.sequence
  aggregation : state.aggregation.IsReachable query
  inserted : state.insertedTuples <+: state.scannedTuples stream

variable {stream query state}

omit [DecidableEq V] in
lemma scanned_of_step {sequence sequence' : SequenceSystem} {event : SequenceEvent}
    (hstep : sequence.step stream.input event = some sequence') :
    sequence'.scanned = sequence.scanned ∨
      ∃ buffer, event = .scan ∧ sequence'.scanned = buffer :: sequence.scanned := by
  cases effect_of_step hstep with
  | next hnext => exact .inl rfl
  | queued hnext => exact .inl rfl
  | scan hcurrent => exact .inr ⟨_, rfl, rfl⟩
  | idle hcurrent hnext hqueue => exact .inl rfl
  | resume hcurrent hnext hqueue htop => exact .inl rfl

lemma inserted_of_step {aggregation aggregation' : AggregationSystem V ν} {event : AggregationEvent V ν}
    (hstep : aggregation.step query event = some aggregation') :
    aggregation'.slices.inserted = aggregation.slices.inserted ∨ ∃ tuple, event = .slices (.insert tuple) ∧
        aggregation'.slices.inserted = aggregation.slices.inserted ++ [tuple] := by
  cases event with
  | slices event =>
    simp only [AggregationSystem.step, bind_eq_bind, bind_eq_some_iff, some_inj] at hstep
    rcases hstep with ⟨slices, hslices, rfl⟩
    cases event with
    | insert tuple =>
      simp only [SliceContents.step, bind_eq_bind, bind_eq_some_iff, some_inj] at hslices
      rcases hslices with ⟨_, _, _, _, rfl⟩
      exact .inr ⟨tuple, rfl, rfl⟩
    | trigger globalWatermark locked | garbageCollectWindows newGlobalWaterMark locked
    | garbageCollectSlices newGlobalWaterMark locked =>
      rw [← some_inj.1 hslices]
      exact .inl rfl
    | terminate =>
      simp only [SliceContents.step, bind_eq_bind, bind_eq_some_iff, some_inj] at hslices
      rcases hslices with ⟨_, _, rfl⟩
      exact .inl rfl
  | triggerSlices r =>
    rw [← some_inj.1 hstep]
    exact .inl rfl
  | probe window =>
    simp only [AggregationSystem.step, bind_eq_bind, bind_eq_some_iff, some_inj] at hstep
    rcases hstep with ⟨_, _, rfl⟩
    exact .inl rfl

lemma OrderInvariant.step (inv : OrderInvariant stream query state) {event : SequencedEvent V ν}
    {state' : SequencedAggregation V ν} (henabled : state.Enabled stream query event)
    (hstep : state.step stream query event = some state') : OrderInvariant stream query state' := by
  cases event with
  | sequence event =>
    simp only [SequencedAggregation.step, bind_eq_bind, bind_eq_some_iff, some_inj] at hstep
    rcases hstep with ⟨sequence', hsequence, rfl⟩
    refine ⟨.step inv.sequence henabled.1 hsequence, inv.aggregation, inv.inserted.trans ?_⟩
    rcases scanned_of_step hsequence with hscanned | ⟨buffer, _, hscanned⟩
    · simp only [scannedTuples, hscanned]
      exact prefix_rfl
    · simp only [scannedTuples, hscanned, reverse_cons, flatMap_append]
      exact prefix_append _ _
  | aggregation event =>
    simp only [SequencedAggregation.step, bind_eq_bind, bind_eq_some_iff, some_inj] at hstep
    rcases hstep with ⟨aggregation', haggregation, rfl⟩
    refine ⟨inv.sequence, Reachable.step inv.aggregation henabled.1 haggregation, ?_⟩
    rcases inserted_of_step haggregation with hinserted | ⟨tuple, hevent, hinserted⟩
    · have hsame : insertedTuples ⟨state.sequence, aggregation'⟩ = state.insertedTuples :=
        congrArg (map Prod.snd) hinserted
      rw [hsame]
      exact inv.inserted
    · -- the tuple is the next one that was scanned
      have hnext := henabled.2 tuple hevent
      have hmore : insertedTuples ⟨state.sequence, aggregation'⟩ = state.insertedTuples ++ [tuple.2] := by
        rw [insertedTuples, hinserted, map_append]
        rfl
      rcases inv.inserted with ⟨rest, hrest⟩
      rw [← hrest, getElem?_append_right (Nat.le_refl _), Nat.sub_self] at hnext
      cases rest with
      | nil => cases hnext
      | cons next rest =>
        have heq : next = tuple.2 := some_inj.1 hnext
        refine ⟨rest, ?_⟩
        rw [hmore, append_assoc, singleton_append, ← heq]
        exact hrest

lemma OrderInvariant.of_isReachable (h : state.IsReachable stream query) : OrderInvariant stream query state := by
  have hinitial : OrderInvariant stream query (initial query) := ⟨.initial, Reachable.initial, nil_prefix⟩
  refine Reachable.invariant (OrderInvariant stream query) hinitial ?_ h
  exact fun s event s' inv henabled hstep => inv.step henabled hstep

lemma inserted_isPrefix (h : state.IsReachable stream query) : state.insertedTuples <+: stream.tuples := by
  have inv := OrderInvariant.of_isReachable h
  refine inv.inserted.trans ?_
  rcases stream.scanned_isPrefix inv.sequence with ⟨rest, hrest⟩
  refine ⟨rest.flatMap stream.tuplesOf, ?_⟩
  rw [SourceStream.tuples, ← hrest, flatMap_append]
  rfl

/-! ## Processing the whole stream -/

/-- Nothing was triggered or collected, and no origin has terminated. -/
structure Filling (query : AggregationQuery V ν) (aggregation : AggregationSystem V ν) : Prop where
  emitted : aggregation.slices.history.emitted = []
  windowsCollected : aggregation.slices.history.windowsCollected = 0
  slicesCollected : aggregation.slices.history.slicesCollected = 0
  active : aggregation.slices.store.numberOfActiveOrigins = query.numberOfInputOrigins % 2 ^ 8
  triggered : aggregation.triggered = []
  output : aggregation.output = []

section Completion

variable {represents : ν → List (Record V) → Prop} {aggregation : AggregationSystem V ν}

omit [DecidableEq V] in
lemma Filling.onTime (h : Filling query aggregation) (timestamp : Nat) :
    SliceContents.OnTime aggregation.slices.history timestamp where
  not_late := by
    rintro ⟨w, hw, _⟩
    rw [StoreHistory.emittedWindows, h.emitted] at hw
    exact not_mem_nil hw
  windowsCollected := h.windowsCollected.symm ▸ Nat.zero_le _
  slicesCollected := h.slicesCollected.symm ▸ Nat.zero_le _

lemma Filling.insert (inv : AggregationInvariant query represents aggregation)
    (hstates : IsStateOf query.states represents) (h : Filling query aggregation) (tuple : WorkerRecord V) :
    ∃ aggregation', aggregation.step query (.slices (.insert tuple)) = some aggregation' ∧
      Filling query aggregation' ∧ aggregation'.slices.inserted = aggregation.slices.inserted ++ [tuple] := by
  have honTime := h.onTime (query.operations.timestamp tuple)
  have henabled : aggregation.Enabled query (.slices (.insert tuple)) := honTime
  rcases inv.step hstates henabled with ⟨aggregation', hstep, _⟩
  have hspec := inv.content.store.getSlicesOrCreate_spec (query.operations.timestamp tuple) honTime.windowsCollected
    honTime.slicesCollected
  rw [if_neg fun hlate => honTime.not_late hlate.2] at hspec
  rcases hspec with ⟨store', hcall, _, hactive, _⟩
  refine ⟨aggregation', hstep, ?_⟩
  simp only [AggregationSystem.step, SliceContents.step, hcall, bind_eq_bind, bind_some,
    bind_eq_some_iff, some_inj] at hstep
  rcases hstep with ⟨slices, ⟨content, _, rfl⟩, rfl⟩
  have hhistory := OrderedRun.insert_fields aggregation.slices.history
    (aggregation.slices.store.sliceAssigner.sliceOf (query.operations.timestamp tuple))
  refine ⟨⟨?_, hhistory.1.trans h.windowsCollected, hhistory.2.1.trans h.slicesCollected, hactive.trans h.active,
    h.triggered, h.output⟩, rfl⟩
  simp only [StoreHistory.insert]
  split_ifs
  · exact h.emitted
  · exact h.emitted

lemma exists_inserted (hstates : IsStateOf query.states represents) (rest : List (Record V))
    (hreachable : state.IsReachable stream query) (hfilling : Filling query state.aggregation)
    (hrest : state.insertedTuples ++ rest = state.scannedTuples stream) :
    ∃ state' : SequencedAggregation V ν, state'.IsReachable stream query ∧ Filling query state'.aggregation ∧
      state'.sequence = state.sequence ∧ state'.insertedTuples = state'.scannedTuples stream := by
  induction rest generalizing state with
  | nil => exact ⟨state, hreachable, hfilling, rfl, by rw [← hrest, append_nil]⟩
  | cons record rest ih =>
    have inv := of_isReachable hstates (OrderInvariant.of_isReachable hreachable).aggregation
    rcases hfilling.insert inv hstates (0, record) with ⟨aggregation', hstep, hfilling', hinserted⟩
    have henabled : state.Enabled stream query (.aggregation (.slices (.insert (0, record)))) := by
      refine ⟨hfilling.onTime _, fun tuple htuple => ?_⟩
      injection htuple with htuple
      injection htuple with htuple
      rw [← htuple, ← hrest, getElem?_append_right (Nat.le_refl _), Nat.sub_self]
      rfl
    have hstep' : state.step stream query (.aggregation (.slices (.insert (0, record))))
        = some { state with aggregation := aggregation' } := by
      rw [SequencedAggregation.step, hstep]
      rfl
    have hmore : insertedTuples { state with aggregation := aggregation' } = state.insertedTuples ++ [record] := by
      rw [insertedTuples, hinserted, map_append]
      rfl
    rcases ih (Reachable.step hreachable henabled hstep') hfilling' (by
      rw [hmore, append_assoc, singleton_append]
      exact hrest) with ⟨state', hreachable', hfilling'', hsequence, heq⟩
    exact ⟨state', hreachable', hfilling'', hsequence, heq⟩

/-- Whatever was scanned can be inserted before anything is triggered. -/
lemma exists_filled (hstates : IsStateOf query.states represents) {sequence : SequenceSystem}
    (h : SequenceSystem.IsReachable stream.input sequence) :
    ∃ state : SequencedAggregation V ν, state.IsReachable stream query ∧ Filling query state.aggregation ∧
      state.sequence = sequence ∧
      state.insertedTuples = state.scannedTuples stream := by
  induction h with
  | initial =>
    exact ⟨initial query, .initial, ⟨rfl, rfl, rfl, rfl, rfl, rfl⟩, rfl, rfl⟩
  | step hsequence henabled hstep ih =>
    rename_i sequence sequence' event
    rcases ih with ⟨state, hreachable, hfilling, rfl, heq⟩
    have henabled' : state.Enabled stream query (.sequence event) := ⟨henabled, fun _ => congrArg length heq⟩
    have hstep' : state.step stream query (.sequence event) = some { state with sequence := sequence' } := by
      rw [SequencedAggregation.step, hstep]
      rfl
    have hreachable' := Reachable.step hreachable henabled' hstep'
    rcases (OrderInvariant.of_isReachable hreachable').inserted with ⟨rest, hrest⟩
    exact exists_inserted hstates rest hreachable' hfilling hrest

lemma IsReachable.stepAggregation (h : state.IsReachable stream query) (event : AggregationEvent V ν)
    (hinsert : ∀ tuple, event ≠ .slices (.insert tuple)) (henabled : state.aggregation.Enabled query event)
    {aggregation' : AggregationSystem V ν} (hstep : state.aggregation.step query event = some aggregation') :
    ({ state with aggregation := aggregation' } : SequencedAggregation V ν).IsReachable stream query := by
  have henabled' : state.Enabled stream query (.aggregation event) :=
    ⟨henabled, fun tuple heq => absurd heq (hinsert tuple)⟩
  refine Reachable.step h henabled' ?_
  rw [SequencedAggregation.step, hstep]
  rfl

/-- When the only origin terminates, every window with a tuple is emitted. -/
lemma Filling.terminate (inv : AggregationInvariant query represents aggregation) (h : Filling query aggregation)
    (horigins : query.numberOfInputOrigins = 1) :
    aggregation.Enabled query (.slices .terminate) ∧
      ∃ aggregation', aggregation.step query (.slices .terminate) = some aggregation' ∧
        AllEmitted query.assigner aggregation'.slices.history ∧
        aggregation'.slices.inserted = aggregation.slices.inserted ∧
        aggregation'.triggered = [] ∧ aggregation'.output = [] := by
  have hactive : aggregation.slices.store.numberOfActiveOrigins = 1 := by
    rw [h.active, horigins]
    rfl
  have hpos : 0 < aggregation.slices.store.numberOfActiveOrigins := hactive.symm ▸ Nat.one_pos
  rcases inv.content.store.terminate hpos with ⟨store', windows, hcall, hterminated⟩
  have hstep : aggregation.step query (.slices .terminate) = some { aggregation with
      slices := { aggregation.slices with
        store := store'
        history := aggregation.slices.history.emit windows } } := by
    simp only [AggregationSystem.step, SliceContents.step, hcall, bind_eq_bind, bind_some]
  refine ⟨hpos, _, hstep, ?_, rfl, h.triggered, h.output⟩
  exact inv.content.assigner_eq ▸ hterminated.allEmitted inv.content.store hactive

/-- The whole stream can be processed, and then every window with a tuple can be probed. -/
lemma exists_probed (hstates : IsStateOf query.states represents) (horigins : query.numberOfInputOrigins = 1)
    {w : WindowInfo} (hw : query.assigner.IsWindow w) {record : Record V} (hrecord : record ∈ stream.tuples)
    (hcontains : w.Contains (query.getTs record)) :
    ∃ state : SequencedAggregation V ν, state.IsReachable stream query ∧ state.insertedTuples = stream.tuples ∧
      state.aggregation.Probed w := by
  rcases stream.exists_scanned with ⟨sequence, hsequence, hscanned⟩
  rcases exists_filled hstates hsequence with ⟨state, hreachable, hfilling, rfl, heq⟩
  have htuples : state.insertedTuples = stream.tuples := by
    rw [heq, scannedTuples, hscanned]
    rfl
  have inv := of_isReachable hstates (OrderInvariant.of_isReachable hreachable).aggregation
  -- the origin terminates
  rcases hfilling.terminate inv horigins with ⟨henabled₁, agg₁, hstep₁, hall, hinserted₁, htriggered₁, houtput₁⟩
  have hreachable₁ := hreachable.stepAggregation (.slices .terminate) (by simp) henabled₁ hstep₁
  have inv₁ := of_isReachable hstates (OrderInvariant.of_isReachable hreachable₁).aggregation
  have hmem : record ∈ state.insertedTuples := htuples.symm ▸ hrecord
  rw [insertedTuples, ← hinserted₁] at hmem
  rcases mem_map.1 hmem with ⟨tuple, htuple, rfl⟩
  rcases mem_map.1 (inv₁.content.mem_emittedWindows hall hw htuple hcontains) with ⟨r, hr, rfl⟩
  -- the window is triggered
  have henabled₂ : agg₁.Enabled query (.triggerSlices r) := ⟨hr, by rw [htriggered₁]; exact not_mem_nil⟩
  have hreachable₂ := hreachable₁.stepAggregation (.triggerSlices r) (by simp) henabled₂ rfl
  have inv₂ := of_isReachable hstates (OrderInvariant.of_isReachable hreachable₂).aggregation
  -- and probed
  generalize hwindow : AggregationQuery.triggerSlices agg₁.slices.contents r = window
  have henabled₃ : AggregationSystem.Enabled query { agg₁ with triggered := agg₁.triggered ++ [window] }
      (.probe window) := by
    refine ⟨mem_append_right _ (mem_singleton_self _), ?_⟩
    rw [AggregationSystem.Probed, houtput₁]
    exact not_mem_nil
  rw [hwindow] at hreachable₂ inv₂
  rcases inv₂.step hstates henabled₃ with ⟨agg₃, hstep₃, _⟩
  have hreachable₃ := hreachable₂.stepAggregation (.probe window) (by simp) henabled₃ hstep₃
  refine ⟨_, hreachable₃, ?_, ?_⟩
  · rcases inserted_of_step hstep₃ with hsame | ⟨tuple', hevent, _⟩
    · rw [insertedTuples, hsame, ← htuples]
      exact congrArg (map Prod.snd) hinserted₁
    · cases hevent
  · simp only [AggregationSystem.step, bind_eq_bind, bind_eq_some_iff, some_inj] at hstep₃
    rcases hstep₃ with ⟨results, _, rfl⟩
    rw [AggregationSystem.Probed, map_append]
    refine mem_append_right _ (mem_singleton.2 ?_)
    rw [← hwindow]
    rfl

end Completion

end SequencedAggregation

end MobilityNebula.Aggregation
