import MobilityNebula.Windows.WindowBasedOperatorHandler

/-!
# HandlerInvariant — no tuple is late, and nothing is collected too early

The two watermarks of a window operator bound what can still happen.  A watermark of the build side is not
above any tuple that is still to be inserted, so no window that such a tuple belongs to was emitted.  A
watermark of the probe side is the start of a window up to which all windows have been probed, so no slice of
a later window is collected.  Both facts hold in every reachable state (`HandlerInvariant.of_isReachable`),
whatever the order in which workers process buffers and trigger buffers.
-/

namespace MobilityNebula.Windows

open Library SliceStore Sequencing Watermark List ProcessorInvariant HandlerSystem Option Function WindowSlices

/-! ## The build watermark -/

/-- No tuple of an open buffer has a smaller timestamp. -/
def BelowOpen (query : WindowQuery) (arrived : Nat → List (Nat × Nat)) (watermark : Nat) : Prop :=
  ∀ b, query.input.IsBuffer b → (b.sequenceNumber, b.chunkNumber) ∉ arrived b.originId →
    ∀ t ∈ query.input.timestamps b, watermark ≤ t

namespace BelowOpen

variable {query : WindowQuery} {arrived : Nat → List (Nat × Nat)} {watermark : Nat}

lemma zero (query : WindowQuery) (arrived : Nat → List (Nat × Nat)) : BelowOpen query arrived 0 :=
  fun _ _ _ t _ => Nat.zero_le t

lemma arrive (h : BelowOpen query arrived watermark) (o s c : Nat) :
    BelowOpen query (arrive arrived o s c) watermark := by
  intro b hb hopen
  refine h b hb fun hmem => hopen ?_
  rw [ProcessorInvariant.arrive]
  by_cases ho : b.originId = o
  · rw [ho, update_self]
    exact mem_cons_of_mem _ (ho ▸ hmem)
  · rw [update_of_ne ho]
    exact hmem

lemma watermarkOf_le (input : InOrderInput) {o s s' c' : Nat} (hlt : s < s') {t : Nat}
    (ht : t ∈ input.timestamps ⟨o, s', c'⟩) : (input.chunked o).watermarkOf s ≤ t := by
  refine largest_le fun c hc => ?_
  rcases mem_range'_1.1 hc with ⟨hpos, hlt'⟩
  have hle : c ≤ input.numberOfChunks o s := Nat.lt_succ_iff.1 (by rwa [Nat.add_comm 1] at hlt')
  rcases input.watermark_le o s c hpos hle with hzero | ⟨c₁, _, _, t₁, ht₁, hwatermark⟩
  · show input.watermark ⟨o, s, c⟩ ≤ t
    rw [hzero]
    exact Nat.zero_le t
  · calc input.watermark ⟨o, s, c⟩ ≤ t₁ := hwatermark
      _ ≤ t := input.inOrder o s s' hlt c₁ c' t₁ ht₁ t ht

/-- The global watermark is not above any tuple of a buffer that has not arrived: its sequence number is
behind the longest complete prefix of its origin. -/
lemma of_isGlobalWatermark
    (hlongest : ∀ o ∈ query.input.origins, ∃ p, IsLongestPrefix ((query.input.chunked o).Complete (arrived o)) p)
    (hglobal : IsGlobalWatermark query.input.origins query.input.chunked arrived watermark) :
    BelowOpen query arrived watermark := by
  rintro ⟨o, s, c⟩ hb hopen t ht
  rcases hlongest o hb.origin with ⟨p, hp⟩
  have hle := hglobal.le o hb.origin p hp
  have hincomplete : ¬ (query.input.chunked o).Complete (arrived o) s :=
    ChunkedInput.not_complete_of_new hopen hb.chunkNumber hb.chunkNumber_le
  have hlt : p < s := by
    by_contra hge
    exact hincomplete (hp.all s hb.sequenceNumber (Nat.le_of_not_lt hge))
  rw [prefixWatermark] at hle
  split_ifs at hle
  · exact hle.trans (Nat.zero_le t)
  · exact hle.trans (watermarkOf_le query.input hlt ht)

end BelowOpen

/-! ## The probe watermark -/

/-- All trigger buffers of the window have been probed. -/
def FullyProbed (query : WindowQuery) (probed : List (Nat × Nat)) (r : WindowSlices) : Prop :=
  ∀ c, 1 ≤ c → c ≤ (query.triggering.sliceEnds r).length → (r.sequenceNumber, c) ∈ probed

/-- The watermark is not above the start of some emitted window up to which all windows have been probed. -/
def Collectible (query : WindowQuery) (emitted : List WindowSlices) (probed : List (Nat × Nat))
    (watermark : Nat) : Prop :=
  watermark = 0 ∨ ∃ r ∈ emitted, watermark ≤ r.windowInfo.windowStart ∧
    ∀ r' ∈ emitted, r'.windowInfo.windowEnd ≤ r.windowInfo.windowEnd → FullyProbed query probed r'

namespace Collectible

variable {query : WindowQuery} {emitted : List WindowSlices} {probed : List (Nat × Nat)} {watermark : Nat}
  (h : Collectible query emitted probed watermark)
include h

lemma probe (a : Nat × Nat) : Collectible query emitted (a :: probed) watermark := by
  rcases h with hzero | ⟨r, hr, hle, hprobed⟩
  · exact .inl hzero
  · exact .inr ⟨r, hr, hle, fun r' hr' hend c hpos hc =>
      mem_cons_of_mem _ (hprobed r' hr' hend c hpos hc)⟩

lemma emit {windows : List WindowSlices}
    (hsorted : (emitted ++ windows).Pairwise fun a b => a.windowInfo.windowEnd < b.windowInfo.windowEnd) :
    Collectible query (emitted ++ windows) probed watermark := by
  rcases h with hzero | ⟨r, hr, hle, hprobed⟩
  · exact .inl hzero
  · refine .inr ⟨r, mem_append_left _ hr, hle, ?_⟩
    intro r' hr' hend
    rcases mem_append.1 hr' with hr' | hr'
    · exact hprobed r' hr' hend
    · exact absurd ((pairwise_append.1 hsorted).2.2 r hr r' hr') (not_lt.2 hend)

lemma max {watermark' : Nat} (h' : Collectible query emitted probed watermark') (locked : Bool) :
    Collectible query emitted probed (if locked then Max.max watermark watermark' else watermark) := by
  cases locked with
  | false => exact h
  | true =>
    rcases max_choice watermark watermark' with hmax | hmax
    · rw [hmax]
      exact h
    · rw [hmax]
      exact h'

variable {assigner : SliceAssigner}

/-- Every window that ends behind the probed ones starts behind the watermark. -/
lemma le_windowStart
    (hwindows : ∀ r ∈ emitted, assigner.IsWindow r.windowInfo) {w : WindowInfo} (hw : assigner.IsWindow w)
    (hlater : ∀ r ∈ emitted, (∀ r' ∈ emitted, r'.windowInfo.windowEnd ≤ r.windowInfo.windowEnd →
      FullyProbed query probed r') → r.windowInfo.windowEnd < w.windowEnd) :
    watermark ≤ w.windowStart := by
  rcases h with hzero | ⟨r, hr, hle, hprobed⟩
  · rw [hzero]
    exact Nat.zero_le _
  · have hlt := hlater r hr hprobed
    rw [(hwindows r hr).2, hw.2] at hlt
    omega

omit h in
lemma le_bound {history : StoreHistory} {bound : Nat}
    (h : Collectible query history.emitted probed watermark) (order : EmissionOrder assigner history bound)
    (hwindows : ∀ w ∈ history.emittedWindows, assigner.IsWindow w) : watermark ≤ bound := by
  rcases h with hzero | ⟨r, hr, hle, _⟩
  · rw [hzero]
    exact Nat.zero_le _
  · have hmem : r.windowInfo ∈ history.emittedWindows := mem_map_of_mem hr
    have hlt := order.emitted_lt _ hmem
    rw [(hwindows _ hmem).2] at hlt
    omega

end Collectible

/-! ## Numbers and ends of the emitted windows -/

variable {emitted : List WindowSlices} {r : WindowSlices}

lemma getElem?_of_emitted (hnumbers : emitted.map sequenceNumber = range' 1 emitted.length)
    (hr : r ∈ emitted) : 1 ≤ r.sequenceNumber ∧ emitted[r.sequenceNumber - 1]? = some r := by
  rcases mem_iff_getElem?.1 hr with ⟨i, hi⟩
  have hmap : (emitted.map sequenceNumber)[i]? = some r.sequenceNumber := by
    rw [getElem?_map, hi]
    rfl
  rcases List.getElem?_eq_some_iff.1 hi with ⟨hlt, _⟩
  rw [hnumbers, getElem?_range' hlt, some_inj] at hmap
  refine ⟨by omega, ?_⟩
  rw [← hmap]
  simpa using hi

lemma sequenceNumber_le_of_windowEnd_le (hnumbers : emitted.map sequenceNumber = range' 1 emitted.length)
    (hsorted : emitted.Pairwise fun a b => a.windowInfo.windowEnd < b.windowInfo.windowEnd)
    {r r' : WindowSlices} (hr : r ∈ emitted) (hr' : r' ∈ emitted)
    (hend : r'.windowInfo.windowEnd ≤ r.windowInfo.windowEnd) : r'.sequenceNumber ≤ r.sequenceNumber := by
  by_contra hlt
  rcases getElem?_of_emitted hnumbers hr with ⟨hpos, hget⟩
  rcases List.getElem?_eq_some_iff.1 hget with ⟨hi, heq⟩
  rcases List.getElem?_eq_some_iff.1 (getElem?_of_emitted hnumbers hr').2 with ⟨hi', heq'⟩
  have hends := pairwise_iff_getElem.1 hsorted _ _ hi hi' (by omega)
  rw [heq, heq'] at hends
  exact absurd hends (not_lt.2 hend)

/-! ## The trigger buffers as input of the probe watermark -/

variable (query : WindowQuery)

/-- The input has the trigger buffers of the emitted windows. -/
def Agrees (emitted : List WindowSlices) (input : ChunkedInput) : Prop :=
  ∀ r ∈ emitted, input.numberOfChunks r.sequenceNumber = (query.triggering.sliceEnds r).length ∧
    ∀ c, input.watermark r.sequenceNumber c = r.windowInfo.windowStart

lemma exists_agrees (hnumbers : emitted.map sequenceNumber = range' 1 emitted.length)
    (hslices : ∀ r ∈ emitted, r.slices ≠ []) : ∃ input, Agrees query emitted input := by
  refine ⟨⟨fun n => .max 1 ((emitted[n - 1]?.map fun r => (query.triggering.sliceEnds r).length).getD 1),
    fun n => lt_of_lt_of_le Nat.one_pos (le_max_left _ _),
    fun n _ => (emitted[n - 1]?.map fun r => r.windowInfo.windowStart).getD 0⟩, ?_⟩
  intro r hr
  have hget := (getElem?_of_emitted hnumbers hr).2
  have hpos : 1 ≤ (query.triggering.sliceEnds r).length := length_pos_iff.2 (query.triggering.ne_nil r (hslices r hr))
  refine ⟨?_, fun c => ?_⟩
  · simp only [hget, map_some, getD_some]
    exact max_eq_right hpos
  · simp only [hget, map_some, getD_some]

/-- What has arrived at the processor of the probe side. -/
def probedOf (probed : List (Nat × Nat)) : Nat → List (Nat × Nat) :=
  update (fun _ => []) query.outputOriginId probed

lemma probedOf_nil : probedOf query [] = fun _ => [] :=
  update_eq_self query.outputOriginId (fun _ => ([] : List (Nat × Nat)))

lemma arrive_probedOf (probed : List (Nat × Nat)) (n c : Nat) :
    arrive (probedOf query probed) query.outputOriginId n c = probedOf query ((n, c) :: probed) := by
  rw [arrive, probedOf, probedOf, update_self, update_idem]

/-! ## The invariant -/

structure HandlerInvariant (query : WindowQuery) (state : HandlerSystem) : Prop where
  assigner_eq : state.store.sliceAssigner = query.assigner
  store : StoreInvariant state.store state.history
  buildOrigins : state.handler.watermarkProcessorBuild.origins = query.input.origins
  build : ProcessorInvariant query.input.chunked state.arrived state.handler.watermarkProcessorBuild
  order : ∃ bound, EmissionOrder query.assigner state.history bound ∧ BelowOpen query state.arrived bound
  triggers : ∀ watermark ∈ state.triggers, BelowOpen query state.arrived watermark
  probeOrigins : state.handler.watermarkProcessorProbe.origins = [query.outputOriginId]
  probe : ∀ input, Agrees query state.history.emitted input →
    ProcessorInvariant (fun _ => input) (probedOf query state.probed) state.handler.watermarkProcessorProbe
  probed_emitted : ∀ a ∈ state.probed, ∃ r ∈ state.history.emitted, r.sequenceNumber = a.1
  windowCollections : ∀ watermark ∈ state.windowCollections,
    Collectible query state.history.emitted state.probed watermark
  sliceCollections : ∀ watermark ∈ state.sliceCollections,
    Collectible query state.history.emitted state.probed watermark
  windowsCollected : Collectible query state.history.emitted state.probed state.history.windowsCollected
  slicesCollected : Collectible query state.history.emitted state.probed state.history.slicesCollected

namespace HandlerInvariant

variable {query : WindowQuery} {state : HandlerSystem}

lemma initial (query : WindowQuery) : HandlerInvariant query (initial query) where
  assigner_eq := rfl
  store := .create query.assigner query.input.origins.length
  buildOrigins := by
    simp [HandlerSystem.initial, WindowBasedOperatorHandler.start, MultiOriginWatermarkProcessor.create,
      MultiOriginWatermarkProcessor.origins, comp_def]
  build := create _ _
  order := ⟨0, .initial query.assigner, .zero query _⟩
  triggers := by simp [HandlerSystem.initial]
  probeOrigins := rfl
  probe := by
    intro input _
    have hcreate := create (fun _ => input) [query.outputOriginId]
    rw [← probedOf_nil query] at hcreate
    exact hcreate
  probed_emitted := by simp [HandlerSystem.initial]
  windowCollections := by simp [HandlerSystem.initial]
  sliceCollections := by simp [HandlerSystem.initial]
  windowsCollected := .inl rfl
  slicesCollected := .inl rfl

section

variable (inv : HandlerInvariant query state)
include inv

lemma emitted_isWindow : ∀ w ∈ state.history.emittedWindows, query.assigner.IsWindow w :=
  fun w hw => inv.assigner_eq ▸ inv.store.emitted_isWindow w hw

lemma emitted_sorted : state.history.emitted.Pairwise fun a b => a.windowInfo.windowEnd < b.windowInfo.windowEnd := by
  rcases inv.order with ⟨bound, order, _⟩
  have hsorted := order.sorted
  rwa [StoreHistory.emittedWindows, pairwise_map] at hsorted

variable {b : BufferId}

lemma not_late (hopen : state.Open query b) {t : Nat} (ht : t ∈ query.input.timestamps b) : ¬ state.history.Late t := by
  rcases inv.order with ⟨bound, order, hbelow⟩
  exact order.not_late (hbelow b hopen.1 hopen.2 t ht)

/-- A tuple of an open buffer is not before anything that was collected. -/
lemma collected_le (hopen : state.Open query b) {t : Nat} (ht : t ∈ query.input.timestamps b) :
    state.history.windowsCollected ≤ t ∧ state.history.slicesCollected ≤ t := by
  rcases inv.order with ⟨bound, order, hbelow⟩
  have hbound := hbelow b hopen.1 hopen.2 t ht
  exact ⟨(inv.windowsCollected.le_bound order inv.emitted_isWindow).trans hbound,
    (inv.slicesCollected.le_bound order inv.emitted_isWindow).trans hbound⟩

/-! ## The build side -/

lemma insert (hopen : state.Open query b) (hcount : state.inserted.count b < (query.input.timestamps b).length) :
    ∃ state', state.step query (.insert b) = some state' ∧ HandlerInvariant query state' := by
  generalize hget : (query.input.timestamps b)[state.inserted.count b] = t
  have ht : t ∈ query.input.timestamps b := hget ▸ getElem_mem hcount
  rcases inv.order with ⟨bound, order, hbelow⟩
  have hbound := hbelow b hopen.1 hopen.2 t ht
  rcases inv.collected_le hopen ht with ⟨hwindows, hslices⟩
  have hspec := inv.store.getSlicesOrCreate_spec t hwindows hslices
  rw [if_neg fun hlate => inv.not_late hopen ht hlate.2, inv.assigner_eq] at hspec
  rcases hspec with ⟨store', hcall, hassigner, _, hstore⟩
  rcases OrderedRun.insert_fields state.history (query.assigner.sliceOf t) with ⟨hwindows', hslices', hemitted⟩
  refine ⟨{ state with
    handler := { state.handler with sliceAndWindowStore := store' }
    history := state.history.insert (query.assigner.sliceOf t)
    inserted := b :: state.inserted }, ?_, ?_⟩
  · simp only [step, getElem?_eq_getElem hcount, hget, bind_eq_bind, bind_some,
      hcall]
  · exact
      { inv with
        assigner_eq := hassigner
        store := hstore
        order := ⟨bound, order.insert hbound, hbelow⟩
        probe := by simpa only [hemitted] using inv.probe
        probed_emitted := by simpa only [hemitted] using inv.probed_emitted
        windowCollections := by simpa only [hemitted] using inv.windowCollections
        sliceCollections := by simpa only [hemitted] using inv.sliceCollections
        windowsCollected := by simpa only [hemitted, hwindows'] using inv.windowsCollected
        slicesCollected := by simpa only [hemitted, hslices'] using inv.slicesCollected }

lemma updateBuild (hopen : state.Open query b) :
    ∃ state', state.step query (.updateBuild b) = some state' ∧ HandlerInvariant query state' := by
  rcases b with ⟨o, s, c⟩
  rcases hopen with ⟨hb, hnew⟩
  have horigin : o ∈ state.handler.watermarkProcessorBuild.origins := by
    rw [inv.buildOrigins]
    exact hb.origin
  rcases inv.build.updateWatermark_spec horigin hb.sequenceNumber hnew hb.chunkNumber hb.chunkNumber_le with
    ⟨processor', watermark, hupdate, horigins, hbuild, hglobal⟩
  rw [inv.buildOrigins] at hglobal horigins
  have hbelow : BelowOpen query (arrive state.arrived o s c) watermark := by
    refine .of_isGlobalWatermark (fun o' ho' => ?_) hglobal
    exact hbuild.exists_isLongestPrefix (horigins ▸ ho')
  rcases inv.order with ⟨bound, order, hbound⟩
  refine ⟨{ state with
    handler := { state.handler with watermarkProcessorBuild := processor' }
    arrived := arrive state.arrived o s c
    triggers := watermark :: state.triggers }, ?_, ?_⟩
  · have hcall : state.handler.watermarkProcessorBuild.updateWatermark (query.input.watermark ⟨o, s, c⟩)
        ⟨s, c, c == query.input.numberOfChunks o s⟩ o = some (processor', watermark) := hupdate
    simp only [step, WindowBasedOperatorHandler.updateBuild, hcall, bind_eq_bind, bind_some]
  · exact
      { inv with
        buildOrigins := horigins
        build := hbuild
        order := ⟨bound, order, hbound.arrive o s c⟩
        triggers := forall_mem_cons.2 ⟨hbelow, fun w hw => (inv.triggers w hw).arrive o s c⟩ }

lemma trigger {globalWatermark : Nat} (hmem : globalWatermark ∈ state.triggers) (locked : Bool) :
    ∃ state', state.step query (.trigger globalWatermark locked) = some state' ∧ HandlerInvariant query state' := by
  rcases inv.order with ⟨bound, order, hbelow⟩
  rcases inv.store.trigger globalWatermark locked with ⟨hstore, hassigner, _⟩
  have horder := order
  rw [← inv.assigner_eq] at horder
  have horder' := horder.trigger inv.store globalWatermark locked
  rw [inv.assigner_eq] at horder'
  generalize hwindows : (state.store.getTriggerableWindowSlices globalWatermark locked).2 = windows
  rw [hwindows] at hstore horder'
  have hsorted : (state.history.emitted ++ windows).Pairwise
      fun a b => a.windowInfo.windowEnd < b.windowInfo.windowEnd := by
    have h := horder'.sorted
    rwa [StoreHistory.emittedWindows, pairwise_map] at h
  refine ⟨_, rfl, ?_⟩
  exact
    { inv with
      assigner_eq := hassigner.trans inv.assigner_eq
      store := by rw [← hwindows] at hstore; exact hstore
      order := by
        refine ⟨_, by rw [← hwindows] at horder'; exact horder', ?_⟩
        intro b hb hopen t ht
        have hold := hbelow b hb hopen t ht
        have hnew := inv.triggers globalWatermark hmem b hb hopen t ht
        split_ifs
        · exact max_le hold hnew
        · exact hold
      triggers := fun w hw => inv.triggers w (mem_of_mem_erase hw)
      probe := fun input hagrees => inv.probe input fun r hr => hagrees r (mem_append_left _ hr)
      probed_emitted := by
        intro a ha
        rcases inv.probed_emitted a ha with ⟨r, hr, hnumber⟩
        exact ⟨r, mem_append_left _ hr, hnumber⟩
      windowCollections := by
        intro w hw
        have h := (inv.windowCollections w hw).emit hsorted
        rw [← hwindows] at h
        exact h
      sliceCollections := by
        intro w hw
        have h := (inv.sliceCollections w hw).emit hsorted
        rw [← hwindows] at h
        exact h
      windowsCollected := by
        have h := inv.windowsCollected.emit hsorted
        rw [← hwindows] at h
        exact h
      slicesCollected := by
        have h := inv.slicesCollected.emit hsorted
        rw [← hwindows] at h
        exact h }

end

/-! ## The probe side -/

/-- The watermark after a trigger buffer was probed: the longest prefix of probed windows ends with some
window, and the windows that do not end later have smaller sequence numbers. -/
lemma collectible_of_isGlobalWatermark {emitted : List WindowSlices} {probed : List (Nat × Nat)} {watermark : Nat}
    {input : ChunkedInput} (hagrees : Agrees query emitted input)
    (hnumbers : emitted.map sequenceNumber = range' 1 emitted.length)
    (hsorted : emitted.Pairwise fun a b => a.windowInfo.windowEnd < b.windowInfo.windowEnd)
    (hprobed : ∀ a ∈ probed, ∃ r ∈ emitted, r.sequenceNumber = a.1)
    {p : Nat} (hp : IsLongestPrefix (input.Complete probed) p)
    (hle : watermark ≤ prefixWatermark input p) : Collectible query emitted probed watermark := by
  rcases Nat.eq_zero_or_pos p with hzero | hpos
  · rw [prefixWatermark, if_pos hzero] at hle
    exact .inl (Nat.le_zero.1 hle)
  · have hfirst := mem_chunksOf.1 (hp.all p hpos (le_refl p) 1 (le_refl 1) (input.numberOfChunks_pos p))
    rcases hprobed _ hfirst with ⟨r, hr, hnumber⟩
    refine .inr ⟨r, hr, ?_, ?_⟩
    · rw [prefixWatermark, if_neg (Nat.ne_of_gt hpos)] at hle
      refine hle.trans (largest_le fun c _ => ?_)
      rw [← (show r.sequenceNumber = p from hnumber), (hagrees r hr).2 c]
    · intro r' hr' hend c hone hc
      have hle' : r'.sequenceNumber ≤ p :=
        (sequenceNumber_le_of_windowEnd_le hnumbers hsorted hr hr' hend).trans (le_of_eq hnumber)
      rw [← (hagrees r' hr').1] at hc
      exact mem_chunksOf.1 (hp.all _ (getElem?_of_emitted hnumbers hr').1 hle' c hone hc)

section

variable (inv : HandlerInvariant query state)
include inv

lemma updateProbe {c : Nat} (h : state.Unprobed query r c) :
    ∃ state', state.step query (.updateProbe r c) = some state' ∧ HandlerInvariant query state' := by
  -- one call of the processor, whatever the rest of the input will be
  have hcall : ∀ input, Agrees query state.history.emitted input → ∃ processor' watermark,
      state.handler.watermarkProcessorProbe.updateWatermark r.windowInfo.windowStart
        ⟨r.sequenceNumber, c, c == (query.triggering.sliceEnds r).length⟩ query.outputOriginId
        = some (processor', watermark) ∧
      processor'.origins = [query.outputOriginId] ∧
      ProcessorInvariant (fun _ => input) (probedOf query ((r.sequenceNumber, c) :: state.probed)) processor' ∧
      IsGlobalWatermark [query.outputOriginId] (fun _ => input)
        (probedOf query ((r.sequenceNumber, c) :: state.probed)) watermark := by
    intro input hagrees
    rcases hagrees r h.emitted with ⟨hchunks, hwatermark⟩
    have hnew : (r.sequenceNumber, c) ∉ probedOf query state.probed query.outputOriginId := by
      rw [probedOf, update_self]
      exact h.not_probed
    have horigin : query.outputOriginId ∈ state.handler.watermarkProcessorProbe.origins := by
      rw [inv.probeOrigins]
      exact mem_singleton_self _
    rcases (inv.probe input hagrees).updateWatermark_spec horigin
      (getElem?_of_emitted inv.store.numbers h.emitted).1 hnew h.one_le (hchunks ▸ h.le_length) with
      ⟨processor', watermark, hupdate, horigins, hinv, hglobal⟩
    rw [arrive_probedOf] at hinv hglobal
    rw [inv.probeOrigins] at horigins hglobal
    rw [ChunkedInput.data, hchunks, hwatermark] at hupdate
    exact ⟨processor', watermark, hupdate, horigins, hinv, hglobal⟩
  rcases exists_agrees query inv.store.numbers fun r' hr' => (inv.store.emitted_slices r' hr').ne_nil with
    ⟨input, hagrees⟩
  rcases hcall input hagrees with ⟨processor', watermark, hupdate, horigins, hinv, hglobal⟩
  have hprobed : ∀ a ∈ (r.sequenceNumber, c) :: state.probed, ∃ r' ∈ state.history.emitted, r'.sequenceNumber = a.1 :=
    forall_mem_cons.2 ⟨⟨r, h.emitted, rfl⟩, inv.probed_emitted⟩
  have hcollectible : Collectible query state.history.emitted ((r.sequenceNumber, c) :: state.probed) watermark := by
    have horigin : query.outputOriginId ∈ processor'.origins := by
      rw [horigins]
      exact mem_singleton_self _
    rcases hinv.exists_isLongestPrefix horigin with ⟨p, hp⟩
    have hle := hglobal.le query.outputOriginId (mem_singleton_self _) p hp
    rw [probedOf, update_self] at hp
    exact collectible_of_isGlobalWatermark hagrees inv.store.numbers inv.emitted_sorted hprobed hp hle
  refine ⟨{ state with
    handler := { state.handler with watermarkProcessorProbe := processor' }
    probed := (r.sequenceNumber, c) :: state.probed
    windowCollections := watermark :: state.windowCollections }, ?_, ?_⟩
  · simp only [step, WindowBasedOperatorHandler.updateProbe, hupdate, bind_eq_bind,
      bind_some]
  · exact
      { inv with
        probeOrigins := horigins
        probe := by
          intro input' hagrees'
          rcases hcall input' hagrees' with ⟨processor'', watermark', hupdate', _, hinv', _⟩
          have heq : processor'' = processor' := congrArg Prod.fst (some_inj.1 (hupdate'.symm.trans hupdate))
          exact heq ▸ hinv'
        probed_emitted := hprobed
        windowCollections := forall_mem_cons.2 ⟨hcollectible, fun w hw => (inv.windowCollections w hw).probe _⟩
        sliceCollections := fun w hw => (inv.sliceCollections w hw).probe _
        windowsCollected := inv.windowsCollected.probe _
        slicesCollected := inv.slicesCollected.probe _ }

variable {newGlobalWaterMark : Nat}

lemma garbageCollectWindows
    (hmem : newGlobalWaterMark ∈ state.windowCollections) (locked : Bool) :
    ∃ state', state.step query (.garbageCollectWindows newGlobalWaterMark locked) = some state' ∧
      HandlerInvariant query state' := by
  rcases inv.order with ⟨bound, order, hbelow⟩
  refine ⟨_, rfl, ?_⟩
  exact
    { inv with
      assigner_eq := (congrArg DefaultTimeBasedSliceStore.sliceAssigner
        (state.store.garbageCollectWindows_eq newGlobalWaterMark locked)).trans inv.assigner_eq
      store := inv.store.garbageCollectWindows newGlobalWaterMark locked
      order := ⟨bound, ⟨order.sorted, order.emitted_lt, order.pending_ge⟩, hbelow⟩
      windowCollections := fun w hw => inv.windowCollections w (mem_of_mem_erase hw)
      sliceCollections := forall_mem_cons.2 ⟨inv.windowCollections _ hmem, inv.sliceCollections⟩
      windowsCollected := inv.windowsCollected.max (inv.windowCollections _ hmem) locked }

lemma garbageCollectSlices
    (hmem : newGlobalWaterMark ∈ state.sliceCollections) (locked : Bool) :
    ∃ state', state.step query (.garbageCollectSlices newGlobalWaterMark locked) = some state' ∧
      HandlerInvariant query state' := by
  rcases inv.order with ⟨bound, order, hbelow⟩
  refine ⟨_, rfl, ?_⟩
  exact
    { inv with
      assigner_eq := (congrArg DefaultTimeBasedSliceStore.sliceAssigner
        (state.store.garbageCollectSlices_eq newGlobalWaterMark locked)).trans inv.assigner_eq
      store := inv.store.garbageCollectSlices newGlobalWaterMark locked
      order := ⟨bound, ⟨order.sorted, order.emitted_lt, order.pending_ge⟩, hbelow⟩
      sliceCollections := fun w hw => inv.sliceCollections w (mem_of_mem_erase hw)
      slicesCollected := inv.slicesCollected.max (inv.sliceCollections _ hmem) locked }

/-! ## All interleavings -/

lemma step {event : HandlerEvent} (henabled : state.Enabled query event) :
    ∃ state', state.step query event = some state' ∧ HandlerInvariant query state' := by
  cases event with
  | insert b => exact inv.insert henabled.1 henabled.2
  | updateBuild b => exact inv.updateBuild henabled.1
  | trigger globalWatermark locked => exact inv.trigger henabled locked
  | updateProbe r chunkNumber => exact inv.updateProbe henabled
  | garbageCollectWindows newGlobalWaterMark locked => exact inv.garbageCollectWindows henabled locked
  | garbageCollectSlices newGlobalWaterMark locked => exact inv.garbageCollectSlices henabled locked

end

lemma of_isReachable (h : state.IsReachable query) : HandlerInvariant query state := by
  refine Reachable.invariant (HandlerInvariant query) (initial query) ?_ h
  intro s event s' inv henabled hstep
  rcases inv.step henabled with ⟨s'', hstep', inv'⟩
  have heq : s'' = s' := some_inj.1 (hstep'.symm.trans hstep)
  exact heq ▸ inv'

variable (inv : HandlerInvariant query state)
include inv

variable {s : Slice} {w : WindowInfo}

lemma getSliceBySliceEnd_of_later (hw : query.assigner.IsWindow w)
    (hlater : ∀ r ∈ state.history.emitted, (∀ r' ∈ state.history.emitted,
      r'.windowInfo.windowEnd ≤ r.windowInfo.windowEnd → FullyProbed query state.probed r') →
        r.windowInfo.windowEnd < w.windowEnd) (hs : s ∈ state.history.created) (hcovers : w.Covers s) :
    state.store.getSliceBySliceEnd s.sliceEnd = some s := by
  have hstart := inv.slicesCollected.le_windowStart (fun r hr => inv.emitted_isWindow _ (mem_map_of_mem hr)) hw hlater
  rcases inv.store.created_eq s hs with ⟨t, rfl⟩
  refine inv.store.slice_kept _ hs ?_
  have hle := SliceAssigner.sliceStart_le state.store.sliceAssigner t
  have hlt := SliceAssigner.lt_sliceEnd state.store.sliceAssigner t
  calc state.history.slicesCollected ≤ w.windowStart := hstart
    _ ≤ state.store.sliceAssigner.getSliceStartTs t := hcovers.1
    _ ≤ state.store.sliceAssigner.getSliceEndTs t := (hle.trans_lt hlt).le
    _ ≤ state.store.sliceAssigner.getSliceEndTs t + state.store.sliceAssigner.windowSize := Nat.le_add_right _ _

lemma unprobed_later {c : Nat} (h : state.Unprobed query r c) (hs : s ∈ r.slices) :
    state.store.getSliceBySliceEnd s.sliceEnd = some s := by
  rcases ((inv.store.emitted_slices r h.emitted).mem_iff s).1 hs with ⟨hcreated, hcovers⟩
  refine inv.getSliceBySliceEnd_of_later (inv.emitted_isWindow _ (mem_map_of_mem h.emitted)) ?_ hcreated hcovers
  intro r₁ _ hprobed
  by_contra hge
  exact h.not_probed (hprobed r h.emitted (Nat.le_of_not_lt hge) c h.one_le h.le_length)

lemma pending_later (hw : query.assigner.IsWindow w)
    (hnot : w ∉ state.history.emittedWindows) (hs : s ∈ state.history.created)
    (hcovers : w.Covers s) : state.store.getSliceBySliceEnd s.sliceEnd = some s := by
  rcases inv.order with ⟨bound, order, _⟩
  refine inv.getSliceBySliceEnd_of_later hw ?_ hs hcovers
  intro r hr _
  calc r.windowInfo.windowEnd < bound := order.emitted_lt _ (mem_map_of_mem hr)
    _ ≤ w.windowEnd := order.pending_ge hw s hs hcovers hnot

/-- A window that was not emitted keeps its entry, with all created slices inside it. -/
lemma pending_entry (hw : query.assigner.IsWindow w)
    (hnot : w ∉ state.history.emittedWindows) (hs : s ∈ state.history.created) (hcovers : w.Covers s) :
    ∃ entry, state.store.windows.find? w.windowEnd = some entry ∧ entry.windowInfo = w ∧ s ∈ entry.windowSlices := by
  have hw' : state.store.sliceAssigner.IsWindow w := inv.assigner_eq ▸ hw
  rcases inv.store.window_kept hw' s hs hcovers with ⟨entry, hentry⟩ | ⟨_, hmem⟩
  · have hspec := inv.store.entry hentry
    have hinfo : entry.windowInfo = w := hspec.isWindow.ext hw' hspec.key
    exact ⟨entry, hentry, hinfo, (hspec.slices.mem_iff s).2 ⟨hs, hinfo.symm ▸ hcovers⟩⟩
  · exact absurd hmem hnot

end HandlerInvariant

/-! ## Two results -/

/-- One origin that delivers a tuple every two time units, and windows of size 3 that start as often. -/
def steadyQuery : WindowQuery where
  assigner := ⟨3, 2, Nat.two_pos⟩
  input :=
    { origins := [1]
      numberOfChunks := fun _ _ => 1
      numberOfChunks_pos := fun _ _ => Nat.one_pos
      timestamps := fun b => [2 * b.sequenceNumber]
      watermark := fun b => 2 * b.sequenceNumber
      watermark_le := fun _ _ c hpos hle => .inr ⟨c, hpos, hle, _, mem_singleton_self _, le_refl _⟩
      inOrder := by
        intro o s s' hlt c c' t ht t' ht'
        rw [mem_singleton.1 ht, mem_singleton.1 ht']
        exact Nat.mul_le_mul_left 2 hlt.le }
  outputOriginId := 2
  triggering := Triggering.single

lemma steadyQuery_isBuffer {s : Nat} (hs : 1 ≤ s) : steadyQuery.input.IsBuffer ⟨1, s, 1⟩ :=
  ⟨mem_singleton_self _, hs, le_refl _, le_refl _⟩

/-- Two workers insert their tuples, the one with the later buffer is faster, and the other one triggers the
first window. -/
lemma steadyQuery_reaches : ∃ state, HandlerSystem.IsReachable steadyQuery state ∧
    state.history.emitted = [⟨⟨0, 3⟩, 1, [⟨2, 3⟩]⟩] ∧ state.arrived 1 = [(1, 1), (2, 1)] ∧ state.probed = [] := by
  have h₁ := (HandlerSystem.IsReachable.initial steadyQuery).step (.insert ⟨1, 1, 1⟩)
    ⟨⟨steadyQuery_isBuffer (by decide), by decide⟩, by decide⟩ rfl
  have h₂ := h₁.step (.insert ⟨1, 2, 1⟩) ⟨⟨steadyQuery_isBuffer (by decide), by decide⟩, by decide⟩ rfl
  have h₃ := h₂.step (.updateBuild ⟨1, 2, 1⟩) ⟨⟨steadyQuery_isBuffer (by decide), by decide⟩, by decide⟩ rfl
  have h₄ := h₃.step (.updateBuild ⟨1, 1, 1⟩) ⟨⟨steadyQuery_isBuffer (by decide), by decide⟩, by decide⟩ rfl
  have h₅ := h₄.step (.trigger 4 true) (mem_cons.2 (.inl rfl)) rfl
  exact ⟨_, h₅, rfl, rfl, rfl⟩

/-- In every interleaving, no window that a tuple of a buffer still to be processed belongs to was emitted,
and no check of the source fails: in particular every insert succeeds. -/
theorem in_order_tuples_never_late (query : WindowQuery) (state : HandlerSystem)
    (hreachable : state.IsReachable query) :
    (∀ b, state.Open query b → ∀ t ∈ query.input.timestamps b, ¬ state.history.Late t) ∧
      ∀ event, state.Enabled query event → ∃ state', state.step query event = some state' := by
  have inv := HandlerInvariant.of_isReachable hreachable
  refine ⟨fun b hopen t ht => inv.not_late hopen ht, fun event henabled => ?_⟩
  rcases inv.step henabled with ⟨state', hstep, _⟩
  exact ⟨state', hstep⟩

/-- The third buffer is still open: its tuple is not late. -/
theorem in_order_tuples_never_late_applies :
    ∃ state, HandlerSystem.IsReachable steadyQuery state ∧ state.history.emitted = [⟨⟨0, 3⟩, 1, [⟨2, 3⟩]⟩] ∧
      state.Open steadyQuery ⟨1, 3, 1⟩ ∧ ¬ state.history.Late 6 := by
  rcases steadyQuery_reaches with ⟨state, hreachable, hemitted, harrived, _⟩
  have hopen : state.Open steadyQuery ⟨1, 3, 1⟩ := by
    refine ⟨steadyQuery_isBuffer (by decide), ?_⟩
    rw [harrived]
    decide
  exact ⟨state, hreachable, hemitted, hopen,
    (in_order_tuples_never_late steadyQuery state hreachable).1 _ hopen 6 (mem_singleton_self _)⟩

/-- In every interleaving, every slice end in a trigger buffer that was not probed yet is found, and a window
that was not emitted has lost none of the slices created for it. -/
theorem collected_slices_not_needed (query : WindowQuery) (state : HandlerSystem)
    (hreachable : state.IsReachable query) :
    (∀ r c, state.Unprobed query r c → ∀ ends, (query.triggering.sliceEnds r)[c - 1]? = some ends →
      ∀ sliceEnd ∈ ends, ∃ s ∈ r.slices, s.sliceEnd = sliceEnd ∧ state.store.getSliceBySliceEnd sliceEnd = some s) ∧
    ∀ w, query.assigner.IsWindow w → w ∉ state.history.emittedWindows → ∀ s ∈ state.history.created, w.Covers s →
        state.store.getSliceBySliceEnd s.sliceEnd = some s ∧
        ∃ entry, state.store.windows.find? w.windowEnd = some entry ∧ entry.windowInfo = w ∧
          s ∈ entry.windowSlices := by
  have inv := HandlerInvariant.of_isReachable hreachable
  refine ⟨?_, fun w hw hnot s hs hcovers => ?_⟩
  · intro r c hunprobed ends hends sliceEnd hmem
    rcases query.triggering.mem r ends (mem_of_getElem? hends) sliceEnd hmem with ⟨s, hs, rfl⟩
    exact ⟨s, hs, rfl, inv.unprobed_later hunprobed hs⟩
  · exact ⟨inv.pending_later hw hnot hs hcovers, inv.pending_entry hw hnot hs hcovers⟩

/-- The trigger buffer of the first window is still to be probed. -/
theorem collected_slices_not_needed_applies :
    ∃ state r, HandlerSystem.IsReachable steadyQuery state ∧ state.Unprobed steadyQuery r 1 ∧
      ∃ s ∈ r.slices, s.sliceEnd = 3 ∧ state.store.getSliceBySliceEnd 3 = some s := by
  rcases steadyQuery_reaches with ⟨state, hreachable, hemitted, _, hprobed⟩
  have hunprobed : state.Unprobed steadyQuery ⟨⟨0, 3⟩, 1, [⟨2, 3⟩]⟩ 1 := by
    refine ⟨?_, le_refl 1, le_refl 1, ?_⟩
    · rw [hemitted]
      exact mem_singleton_self _
    · rw [hprobed]
      exact not_mem_nil
  exact ⟨state, _, hreachable, hunprobed,
    (collected_slices_not_needed steadyQuery state hreachable).1 _ 1 hunprobed [3] rfl 3 (mem_singleton_self _)⟩

end MobilityNebula.Windows
