import MobilityNebula.Library.TransitionSystem
import MobilityNebula.SliceStore.StoreInvariant

/-!
# StoreRuns — interleavings of inserts, triggers and terminations

A run of the store is a list of events, each one locked section of some thread.  Two results about all runs:

* if no watermark is passed before a tuple with a smaller timestamp is inserted, then no call aborts and the
  windows are emitted once, in the order of their ends, with all their slices
  (`emitted_windows_in_order`);
* terminating all origins flushes every window exactly once, provided the number of origins fits the
  constructor's `uint8_t` (`termination_flush_iff`).
-/

namespace MobilityNebula.SliceStore

open Library DefaultTimeBasedSliceStore StoreHistory List

/-! ## Runs -/

inductive StoreEvent where
  | insert (timestamp : Nat)
  | trigger (globalWatermark : Nat) (locked : Bool)
  | terminate
  deriving DecidableEq, Repr

structure StoreRun where
  store : DefaultTimeBasedSliceStore
  history : StoreHistory

namespace StoreRun

def initial (assigner : SliceAssigner) (numberOfInputOrigins : Nat) : StoreRun :=
  ⟨create assigner numberOfInputOrigins, StoreHistory.initial⟩

/-- The state after an event, or nothing if an `INVARIANT` fails. -/
def step (r : StoreRun) : StoreEvent → Option StoreRun
  | .insert timestamp => do
    let (store, slice) ← r.store.getSlicesOrCreate timestamp
    some ⟨store, r.history.insert slice⟩
  | .trigger globalWatermark locked =>
    let (store, windows) := r.store.getTriggerableWindowSlices globalWatermark locked
    some ⟨store, r.history.emit windows⟩
  | .terminate => do
    let (store, windows) ← r.store.getAllNonTriggeredSlices
    some ⟨store, r.history.emit windows⟩

def run (assigner : SliceAssigner) (numberOfInputOrigins : Nat) (events : List StoreEvent) : Option StoreRun :=
  runFrom step (initial assigner numberOfInputOrigins) events

end StoreRun

/-! ## Triggering with a watermark -/

lemma StoreHistory.emit_nil (history : StoreHistory) : history.emit [] = history := by
  rw [StoreHistory.emit, append_nil]

variable {store : DefaultTimeBasedSliceStore} {history : StoreHistory}

lemma getTriggerableWindowSlices_false (store : DefaultTimeBasedSliceStore) (globalWatermark : Nat) :
    store.getTriggerableWindowSlices globalWatermark false = (store, []) := rfl

lemma StoreInvariant.trigger (inv : StoreInvariant store history) (globalWatermark : Nat) (locked : Bool) :
    StoreInvariant (store.getTriggerableWindowSlices globalWatermark locked).1
        (history.emit (store.getTriggerableWindowSlices globalWatermark locked).2) ∧
      (store.getTriggerableWindowSlices globalWatermark locked).1.sliceAssigner = store.sliceAssigner ∧
      (store.getTriggerableWindowSlices globalWatermark locked).1.numberOfActiveOrigins
        = store.numberOfActiveOrigins := by
  cases locked with
  | false =>
    rw [getTriggerableWindowSlices_false, emit_nil]
    exact ⟨inv, rfl, rfl⟩
  | true =>
    rw [getTriggerableWindowSlices_eq store globalWatermark (inv.pending_ne_nil _)]
    exact ⟨inv.emitPending _, rfl, rfl⟩

/-- A trigger emits windows in order; it moves the bound up to its watermark. -/
lemma EmissionOrder.trigger {bound : Nat}
    (inv : StoreInvariant store history) (order : EmissionOrder store.sliceAssigner history bound)
    (globalWatermark : Nat) (locked : Bool) :
    EmissionOrder store.sliceAssigner (history.emit (store.getTriggerableWindowSlices globalWatermark locked).2)
      (if locked then max bound globalWatermark else bound) := by
  cases locked with
  | false =>
    rw [getTriggerableWindowSlices_false, emit_nil]
    exact order
  | true =>
    rw [getTriggerableWindowSlices_eq store globalWatermark (inv.pending_ne_nil _)]
    refine order.emitPending inv (globalWatermark ≤ ·) (le_max_left _ _) ?_ ?_
    · intro entry hentry
      rcases mem_pending.1 hentry with ⟨windowEnd, hfind, hstop, _⟩
      rw [(inv.entry hfind).key]
      exact lt_of_lt_of_le (Nat.lt_of_not_le hstop) (le_max_right _ _)
    · intro windowEnd hstop hbound
      exact max_le hbound hstop

/-! ## Terminating an origin -/

def AllEmitted (assigner : SliceAssigner) (history : StoreHistory) : Prop :=
  ∀ w, assigner.IsWindow w → ∀ s ∈ history.created, w.Covers s → w ∈ history.emittedWindows

/-- What the termination of an origin does: before the last one nothing is emitted, with the last one every
window is. -/
structure Terminated (store : DefaultTimeBasedSliceStore) (history : StoreHistory)
    (store' : DefaultTimeBasedSliceStore) (windows : List WindowSlices) : Prop where
  inv : StoreInvariant store' (history.emit windows)
  assigner_eq : store'.sliceAssigner = store.sliceAssigner
  active : store'.numberOfActiveOrigins + 1 = store.numberOfActiveOrigins
  before_last : 1 < store.numberOfActiveOrigins → windows = []
  last : store.numberOfActiveOrigins = 1 →
    windows = numbered store.sequenceNumber (store.pending fun _ => False)

lemma StoreInvariant.terminate (inv : StoreInvariant store history) (hactive : 0 < store.numberOfActiveOrigins) :
    ∃ store' windows, store.getAllNonTriggeredSlices = some (store', windows) ∧
      Terminated store history store' windows := by
  rcases Nat.lt_or_ge 1 store.numberOfActiveOrigins with hmore | hone
  · refine ⟨_, _, getAllNonTriggeredSlices_before_last hmore, ?_⟩
    refine ⟨?_, rfl, Nat.sub_add_cancel hactive, fun _ => rfl, fun h => absurd h (ne_of_gt hmore)⟩
    rw [emit_nil]
    exact inv.wait _
  · have hlast : store.numberOfActiveOrigins = 1 := le_antisymm hone hactive
    refine ⟨_, _, getAllNonTriggeredSlices_last hlast (inv.pending_ne_nil _), ?_⟩
    have hinv := inv.emitPending fun _ => False
    refine ⟨?_, rfl, hlast.symm, fun h => absurd h (not_lt.2 hone), fun _ => rfl⟩
    exact { hinv with }

lemma Terminated.allEmitted {store' : DefaultTimeBasedSliceStore}
    {windows : List WindowSlices} (inv : StoreInvariant store history)
    (h : Terminated store history store' windows) (hlast : store.numberOfActiveOrigins = 1) :
    AllEmitted store.sliceAssigner (history.emit windows) := by
  intro w hw s hs hcovers
  rw [h.last hlast, StoreInvariant.emittedWindows_emit, mem_append]
  rcases inv.window_kept hw s hs hcovers with ⟨e, he⟩ | ⟨_, hmem⟩
  · have hentry := inv.entry he
    have hinfo : e.windowInfo = w := hentry.isWindow.ext hw hentry.key
    by_cases hstate : e.windowState = .emittedToProbe
    · exact .inl (hinfo ▸ hentry.emitted_iff.1 hstate)
    · have hpending : e ∈ store.pending fun _ => False :=
        mem_pending.2 ⟨w.windowEnd, he, not_false, hstate⟩
      exact .inr (mem_map.2 ⟨e, hpending, hinfo⟩)
  · exact .inl hmem

/-! ## Emission in order -/

/-- No watermark is passed before a tuple with a smaller timestamp is inserted. -/
def WatermarksRespected (events : List StoreEvent) : Prop :=
  events.Pairwise fun a b => ∀ globalWatermark locked timestamp,
    a = .trigger globalWatermark locked → b = .insert timestamp → globalWatermark ≤ timestamp

/-- The state of a run whose watermarks are respected: no later timestamp is below the bound. -/
structure OrderedRun (assigner : SliceAssigner) (r : StoreRun) (bound : Nat) : Prop where
  assigner_eq : r.store.sliceAssigner = assigner
  inv : StoreInvariant r.store r.history
  windowsCollected : r.history.windowsCollected = 0
  slicesCollected : r.history.slicesCollected = 0
  order : EmissionOrder assigner r.history bound

namespace OrderedRun

variable {assigner : SliceAssigner} {r : StoreRun} {bound : Nat}

lemma initial (assigner : SliceAssigner) (numberOfInputOrigins : Nat) :
    OrderedRun assigner (StoreRun.initial assigner numberOfInputOrigins) 0 where
  assigner_eq := rfl
  inv := .create assigner numberOfInputOrigins
  windowsCollected := rfl
  slicesCollected := rfl
  order := .initial assigner

lemma insert_fields (history : StoreHistory) (slice : Slice) :
    (history.insert slice).windowsCollected = history.windowsCollected ∧
      (history.insert slice).slicesCollected = history.slicesCollected ∧
      (history.insert slice).emitted = history.emitted := by
  unfold StoreHistory.insert
  split_ifs
  · exact ⟨rfl, rfl, rfl⟩
  · exact ⟨rfl, rfl, rfl⟩

lemma insert (h : OrderedRun assigner r bound) {timestamp : Nat} (hbound : bound ≤ timestamp) :
    ∃ r', r.step (.insert timestamp) = some r' ∧ OrderedRun assigner r' bound := by
  have hspec := h.inv.getSlicesOrCreate_spec timestamp
    (by rw [h.windowsCollected]; exact Nat.zero_le _) (by rw [h.slicesCollected]; exact Nat.zero_le _)
  rw [if_neg fun hlate => h.order.not_late hbound hlate.2] at hspec
  rcases hspec with ⟨store', hcall, hassigner, _, hinv⟩
  rw [h.assigner_eq] at hcall hassigner hinv
  have hcollected := insert_fields r.history (assigner.sliceOf timestamp)
  refine ⟨⟨store', r.history.insert (assigner.sliceOf timestamp)⟩, ?_, ?_⟩
  · rw [StoreRun.step, hcall]
    rfl
  · exact ⟨hassigner, hinv, hcollected.1.trans h.windowsCollected, hcollected.2.1.trans h.slicesCollected,
      h.order.insert hbound⟩

lemma trigger (h : OrderedRun assigner r bound) (globalWatermark : Nat) (locked : Bool) :
    ∃ r', r.step (.trigger globalWatermark locked) = some r' ∧
      OrderedRun assigner r' (if locked then max bound globalWatermark else bound) := by
  rcases h.inv.trigger globalWatermark locked with ⟨hinv, hassigner, _⟩
  have horder := h.order
  rw [← h.assigner_eq] at horder
  have horder' := horder.trigger h.inv globalWatermark locked
  rw [h.assigner_eq] at hassigner horder'
  exact ⟨_, rfl, hassigner, hinv, h.windowsCollected, h.slicesCollected, horder'⟩

end OrderedRun

variable {events : List StoreEvent}

/-- Along a run whose watermarks are respected no call aborts and the order of emission is kept.  The
induction carries that the rest of the events inserts nothing below the bound. -/
lemma exists_orderedRun {assigner : SliceAssigner} {r : StoreRun} {bound : Nat}
    (h : OrderedRun assigner r bound) (hkinds : .terminate ∉ events) (hwatermarks : WatermarksRespected events)
    (hbound : ∀ timestamp, .insert timestamp ∈ events → bound ≤ timestamp) :
    ∃ r' bound', runFrom StoreRun.step r events = some r' ∧ OrderedRun assigner r' bound' := by
  induction events generalizing r bound with
  | nil => exact ⟨r, bound, rfl, h⟩
  | cons event rest ih =>
    have hcons := pairwise_cons.1 hwatermarks
    have hkinds' : .terminate ∉ rest := fun hmem => hkinds (mem_cons_of_mem _ hmem)
    cases event with
    | insert timestamp =>
      rcases h.insert (hbound timestamp mem_cons_self) with ⟨r', hstep, h'⟩
      rw [runFrom_cons_of_step hstep]
      exact ih h' hkinds' hcons.2 fun t ht => hbound t (mem_cons_of_mem _ ht)
    | trigger globalWatermark locked =>
      rcases h.trigger globalWatermark locked with ⟨r', hstep, h'⟩
      rw [runFrom_cons_of_step hstep]
      refine ih h' hkinds' hcons.2 fun t ht => ?_
      have hold := hbound t (mem_cons_of_mem _ ht)
      have hnew := hcons.1 _ ht globalWatermark locked t rfl rfl
      split_ifs
      · exact max_le hold hnew
      · exact hold
    | terminate => exact absurd mem_cons_self hkinds

/-- In every interleaving of inserts and triggers in which no watermark exceeds the timestamp of a tuple
inserted later, no call aborts, each window is emitted at most once, the sequence numbers are 1, 2, 3, … in
the order of emission, the window ends increase strictly, and a window is emitted with exactly the created
slices that lie inside it, each once. -/
theorem emitted_windows_in_order (assigner : SliceAssigner) (numberOfInputOrigins : Nat)
    (events : List StoreEvent) (hkinds : .terminate ∉ events) (hwatermarks : WatermarksRespected events) :
    ∃ r, StoreRun.run assigner numberOfInputOrigins events = some r ∧ r.history.emittedWindows.Nodup ∧
      r.history.emitted.map WindowSlices.sequenceNumber = range' 1 r.history.emitted.length ∧
      (r.history.emitted.Pairwise fun a b => a.windowInfo.windowEnd < b.windowInfo.windowEnd) ∧
      ∀ w ∈ r.history.emitted, w.slices.Nodup ∧ ∀ s, s ∈ w.slices ↔ s ∈ r.history.created ∧ w.windowInfo.Covers s := by
  rcases exists_orderedRun (OrderedRun.initial assigner numberOfInputOrigins) hkinds hwatermarks
    (fun t _ => Nat.zero_le t) with ⟨r, bound, hrun, h⟩
  have hsorted := h.order.sorted
  rw [emittedWindows, pairwise_map] at hsorted
  refine ⟨r, hrun, h.inv.emitted_nodup, h.inv.numbers, hsorted, ?_⟩
  intro w hw
  have hslices := h.inv.emitted_slices w hw
  exact ⟨hslices.nodup, hslices.mem_iff⟩

/-- Windows of size 4 that start every 2 time units; the first trigger does not get the lock. -/
theorem emitted_windows_in_order_applies :
    WatermarksRespected [.insert 1, .insert 3, .trigger 6 false, .trigger 6 true, .insert 7, .trigger 9 true] ∧
    ∃ r, StoreRun.run ⟨4, 2, by decide⟩ 1
        [.insert 1, .insert 3, .trigger 6 false, .trigger 6 true, .insert 7, .trigger 9 true] = some r ∧
      r.history.emittedWindows.Nodup ∧
      r.history.emitted.map WindowSlices.sequenceNumber = range' 1 r.history.emitted.length ∧
      (r.history.emitted.Pairwise fun a b => a.windowInfo.windowEnd < b.windowInfo.windowEnd) ∧
      ∀ w ∈ r.history.emitted, w.slices.Nodup ∧ ∀ s, s ∈ w.slices ↔ s ∈ r.history.created ∧ w.windowInfo.Covers s := by
  have hwatermarks : WatermarksRespected
      [.insert 1, .insert 3, .trigger 6 false, .trigger 6 true, .insert 7, .trigger 9 true] := by
    simp [WatermarksRespected]
  exact ⟨hwatermarks, emitted_windows_in_order ⟨4, 2, by decide⟩ 1 _ (by decide) hwatermarks⟩

/-! ## Termination -/

/-- The events of a run in which `n` origins terminate and nothing is inserted after the last termination. -/
structure IsTerminationRun (n : Nat) (events : List StoreEvent) : Prop where
  count : events.count .terminate = n
  noInsertAfter : ∀ before timestamp after, events = before ++ .insert timestamp :: after → .terminate ∈ after

/-- The state of a run without garbage collection; `n` is the number of origins the store knows. -/
structure CountedRun (assigner : SliceAssigner) (n : Nat) (events : List StoreEvent) (r : StoreRun) : Prop where
  assigner_eq : r.store.sliceAssigner = assigner
  inv : StoreInvariant r.store r.history
  windowsCollected : r.history.windowsCollected = 0
  slicesCollected : r.history.slicesCollected = 0
  active : r.store.numberOfActiveOrigins + events.count .terminate = n

namespace CountedRun

variable {assigner : SliceAssigner} {n : Nat} {events : List StoreEvent} {r r' : StoreRun}

section

variable (h : CountedRun assigner n events r)
include h

lemma insert {timestamp : Nat} (hstep : r.step (.insert timestamp) = some r') :
    CountedRun assigner n (events ++ [.insert timestamp]) r' := by
  have hspec := h.inv.getSlicesOrCreate_spec timestamp
    (by rw [h.windowsCollected]; exact Nat.zero_le _) (by rw [h.slicesCollected]; exact Nat.zero_le _)
  split_ifs at hspec with hlate
  · rw [StoreRun.step, hspec] at hstep
    cases hstep
  · rcases hspec with ⟨store', hcall, hassigner, hactive, hinv⟩
    rw [StoreRun.step, hcall] at hstep
    have hr' : r' = ⟨store', r.history.insert (r.store.sliceAssigner.sliceOf timestamp)⟩ :=
      (Option.some_inj.1 hstep).symm
    have hcollected := OrderedRun.insert_fields r.history (r.store.sliceAssigner.sliceOf timestamp)
    subst hr'
    refine ⟨hassigner.trans h.assigner_eq, hinv, hcollected.1.trans h.windowsCollected,
      hcollected.2.1.trans h.slicesCollected, ?_⟩
    have hcount := h.active
    rw [count_append, hactive]
    simpa using hcount

lemma trigger {globalWatermark : Nat} {locked : Bool} (hstep : r.step (.trigger globalWatermark locked) = some r') :
    CountedRun assigner n (events ++ [.trigger globalWatermark locked]) r' ∧
      (AllEmitted assigner r.history → AllEmitted assigner r'.history) := by
  rcases h.inv.trigger globalWatermark locked with ⟨hinv, hassigner, hactive⟩
  rw [StoreRun.step, Option.some_inj] at hstep
  subst hstep
  refine ⟨⟨hassigner.trans h.assigner_eq, hinv, h.windowsCollected, h.slicesCollected, ?_⟩, ?_⟩
  · have hcount := h.active
    rw [count_append, hactive]
    simpa using hcount
  · intro hall w hw s hs hcovers
    have hmem := hall w hw s hs hcovers
    rw [emittedWindows] at hmem ⊢
    rw [StoreHistory.emit, map_append]
    exact mem_append_left _ hmem

lemma terminate (hactive : events.count .terminate < n) :
    ∃ r', r.step .terminate = some r' ∧ CountedRun assigner n (events ++ [.terminate]) r' ∧
      (events.count .terminate + 1 < n → r'.history = r.history) ∧
      (events.count .terminate + 1 = n → AllEmitted assigner r'.history) := by
  have hcount := h.active
  rcases h.inv.terminate (by omega) with ⟨store', windows, hcall, hterminated⟩
  refine ⟨⟨store', r.history.emit windows⟩, ?_, ?_, ?_, ?_⟩
  · rw [StoreRun.step, hcall]
    rfl
  · refine ⟨hterminated.assigner_eq.trans h.assigner_eq, hterminated.inv, h.windowsCollected,
      h.slicesCollected, ?_⟩
    have hactive' := hterminated.active
    rw [count_append, count_singleton_self]
    simp only
    omega
  · intro hlt
    have hnothing := hterminated.before_last (by omega)
    rw [hnothing]
    exact r.history.emit_nil
  · intro hlast
    rw [← h.assigner_eq]
    exact hterminated.allEmitted h.inv (by omega)

lemma step {event : StoreEvent} (hstep : r.step event = some r') : CountedRun assigner n (events ++ [event]) r' := by
  cases event with
  | insert timestamp => exact h.insert hstep
  | trigger globalWatermark locked => exact (h.trigger hstep).1
  | terminate =>
    have hcount := h.active
    have hpos : r.store.numberOfActiveOrigins ≠ 0 := by
      intro hzero
      rw [StoreRun.step, getAllNonTriggeredSlices, if_pos hzero] at hstep
      cases hstep
    rcases h.terminate (by omega) with ⟨r'', hstep', h', _⟩
    rw [hstep', Option.some_inj] at hstep
    exact hstep ▸ h'

lemma runFrom {rest : List StoreEvent}
    (hrun : Library.runFrom StoreRun.step r rest = some r') : CountedRun assigner n (events ++ rest) r' := by
  induction rest generalizing events r with
  | nil =>
    have hr : r = r' := by simpa using hrun
    rw [append_nil]
    exact hr ▸ h
  | cons event rest ih =>
    rcases runFrom_cons_eq_some.1 hrun with ⟨r'', hstep, hrest⟩
    have h' := ih (h.step hstep) hrest
    rwa [append_assoc, singleton_append] at h'

end

lemma of_run {numberOfInputOrigins : Nat} (hrun : StoreRun.run assigner numberOfInputOrigins events = some r) :
    CountedRun assigner (numberOfInputOrigins % 2 ^ 8) events r := by
  have hinitial : CountedRun assigner (numberOfInputOrigins % 2 ^ 8) []
      (.initial assigner numberOfInputOrigins) :=
    ⟨rfl, .create assigner numberOfInputOrigins, rfl, rfl, rfl⟩
  exact hinitial.runFrom hrun

lemma allEmitted_of_triggers (h : CountedRun assigner n events r) (hall : AllEmitted assigner r.history)
    {rest : List StoreEvent} (hkinds : ∀ event ∈ rest, ∃ globalWatermark locked,
      event = .trigger globalWatermark locked)
    (hrun : Library.runFrom StoreRun.step r rest = some r') : AllEmitted assigner r'.history := by
  induction rest generalizing events r with
  | nil =>
    have hr : r = r' := by simpa using hrun
    exact hr ▸ hall
  | cons event rest ih =>
    rcases runFrom_cons_eq_some.1 hrun with ⟨r'', hstep, hrest⟩
    rcases hkinds event mem_cons_self with ⟨globalWatermark, locked, rfl⟩
    rcases h.trigger hstep with ⟨h', hall'⟩
    exact ih h' (hall' hall) (fun e he => hkinds e (mem_cons_of_mem _ he)) hrest

end CountedRun

/-- For `n` origins: no call of `getAllNonTriggeredSlices` aborts, none before the `n`-th emits a window, and
in the end every window of a created slice was emitted exactly once, with all its slices. -/
def TerminationFlushes (n : Nat) : Prop :=
  ∀ assigner events, IsTerminationRun n events →
    (∀ before after r, events = before ++ .terminate :: after → StoreRun.run assigner n before = some r →
      ∃ r', r.step .terminate = some r' ∧
        (before.count .terminate + 1 < n → r'.history.emitted = r.history.emitted)) ∧
    ∀ r, StoreRun.run assigner n events = some r → ∀ w, assigner.IsWindow w →
      (∃ s ∈ r.history.created, w.Covers s) →
        r.history.emittedWindows.count w = 1 ∧
        ∃ e ∈ r.history.emitted, e.windowInfo = w ∧ e.slices.Nodup ∧
          ∀ s, s ∈ e.slices ↔ s ∈ r.history.created ∧ w.Covers s

lemma exists_last_terminate (h : .terminate ∈ events) :
    ∃ before after, events = before ++ .terminate :: after ∧ .terminate ∉ after := by
  rcases eq_append_cons_of_mem (mem_reverse.2 h) with ⟨after, before, heq, hnot⟩
  refine ⟨before.reverse, after.reverse, ?_, fun hmem => hnot (mem_reverse.1 hmem)⟩
  rw [← reverse_reverse events, heq]
  simp

/-- After the last termination there are only triggers. -/
lemma IsTerminationRun.triggers_after {n : Nat} {before after : List StoreEvent}
    (h : IsTerminationRun n (before ++ after)) (hnot : .terminate ∉ after) :
    ∀ event ∈ after, ∃ globalWatermark locked, event = .trigger globalWatermark locked := by
  intro event hmem
  cases event with
  | trigger globalWatermark locked => exact ⟨globalWatermark, locked, rfl⟩
  | terminate => exact absurd hmem hnot
  | insert timestamp =>
    rcases append_of_mem hmem with ⟨as, bs, rfl⟩
    have hlater := h.noInsertAfter (before ++ as) timestamp bs (by rw [append_assoc])
    exact absurd (mem_append_right _ (mem_cons_of_mem _ hlater)) hnot

lemma allEmitted_of_terminationRun {assigner : SliceAssigner} {n : Nat} (hn : n ≤ 255)
    (hevents : IsTerminationRun n events) {r : StoreRun}
    (hrun : StoreRun.run assigner n events = some r) : AllEmitted assigner r.history := by
  by_cases hmem : .terminate ∈ events
  · rcases exists_last_terminate hmem with ⟨before, after, rfl, hnot⟩
    rcases runFrom_append_eq_some.1 hrun with ⟨r₁, hbefore, hrest⟩
    rcases runFrom_cons_eq_some.1 hrest with ⟨r₂, hstep, hafter⟩
    have h₁ := CountedRun.of_run hbefore
    have hcount := hevents.count
    rw [count_append, count_cons_self, count_eq_zero.2 hnot] at hcount
    rcases h₁.terminate (by omega) with ⟨r₂', hstep', h₂, _, hall⟩
    rw [hstep', Option.some_inj] at hstep
    subst hstep
    have hafter' : IsTerminationRun n ((before ++ [.terminate]) ++ after) := by
      rw [append_assoc]
      exact hevents
    exact h₂.allEmitted_of_triggers (hall (by omega)) (hafter'.triggers_after hnot) hafter
  · -- nobody terminates, so nothing was inserted
    have htriggers := @IsTerminationRun.triggers_after n [] events hevents hmem
    have hinitial : CountedRun assigner (n % 2 ^ 8) [] (.initial assigner n) := .of_run rfl
    refine hinitial.allEmitted_of_triggers ?_ htriggers hrun
    intro w _ s hs
    cases hs

lemma terminationFlushes_of_le {n : Nat} (hn : n ≤ 255) : TerminationFlushes n := by
  have hmod : n % 2 ^ 8 = n := Nat.mod_eq_of_lt (by omega)
  intro assigner events hevents
  refine ⟨?_, ?_⟩
  · rintro before after r rfl hrun
    have h := CountedRun.of_run hrun
    rw [hmod] at h
    have hcount := hevents.count
    rw [count_append, count_cons_self] at hcount
    rcases h.terminate (by omega) with ⟨r', hstep, _, hsame, _⟩
    exact ⟨r', hstep, fun hlt => by rw [hsame hlt]⟩
  · rintro r hrun w hw ⟨s, hs, hcovers⟩
    have h := CountedRun.of_run hrun
    have hmem := allEmitted_of_terminationRun hn hevents hrun w hw s hs hcovers
    rcases mem_map.1 hmem with ⟨e, he, rfl⟩
    have hslices := h.inv.emitted_slices e he
    exact ⟨count_eq_one_of_mem h.inv.emitted_nodup hmem, e, he, rfl, hslices.nodup, hslices.mem_iff⟩

lemma exists_run_terminates (assigner : SliceAssigner) (n : Nat) {m : Nat} (hm : m ≤ n % 2 ^ 8) :
    ∃ r, StoreRun.run assigner n (replicate m .terminate) = some r := by
  induction m with
  | zero => exact ⟨_, rfl⟩
  | succ m ih =>
    rcases ih (by omega) with ⟨r, hrun⟩
    rcases (CountedRun.of_run hrun).terminate (by rw [count_replicate_self]; omega) with ⟨r', hstep, _⟩
    refine ⟨r', ?_⟩
    rw [replicate_succ', StoreRun.run, runFrom_append hrun, runFrom_cons_of_step hstep, runFrom_nil]

lemma le_of_terminationFlushes {n : Nat} (h : TerminationFlushes n) : n ≤ 255 := by
  by_contra hn
  -- the origins terminate one after the other; one of them is the first the counter does not know
  have hevents : IsTerminationRun n (replicate n .terminate) := by
    refine ⟨count_replicate_self, ?_⟩
    intro before timestamp after heq
    have hmem : .insert timestamp ∈ replicate n StoreEvent.terminate := by
      rw [heq]
      exact mem_append_right _ mem_cons_self
    exact absurd (eq_of_mem_replicate hmem) (by simp)
  rcases exists_run_terminates ⟨1, 1, Nat.one_pos⟩ n (Nat.le_refl (n % 2 ^ 8)) with ⟨r, hrun⟩
  have hcounted := (CountedRun.of_run hrun).active
  rw [count_replicate_self] at hcounted
  have hsplit : replicate n StoreEvent.terminate
      = replicate (n % 2 ^ 8) .terminate ++ .terminate :: replicate (n - n % 2 ^ 8 - 1) .terminate := by
    rw [← replicate_succ, replicate_append_replicate]
    congr 1
    omega
  rcases (h ⟨1, 1, Nat.one_pos⟩ _ hevents).1 _ _ r hsplit hrun with ⟨r', hstep, _⟩
  rw [StoreRun.step, getAllNonTriggeredSlices, if_pos (by omega)] at hstep
  cases hstep

/-- The termination flush works exactly for the numbers of origins that the `uint8_t` parameter of the
constructor can hold. -/
theorem termination_flush_iff (n : Nat) : TerminationFlushes n ↔ n ≤ 255 :=
  ⟨le_of_terminationFlushes, terminationFlushes_of_le⟩

/-- With 256 origins the constructor stores 0, and the first termination aborts. -/
theorem flush_aborts_with_256_origins : IsTerminationRun 256 (.insert 5 :: replicate 256 .terminate) ∧
      ((StoreRun.run ⟨10, 10, by decide⟩ 256 [.insert 5]).map fun r => r.history.created) = some [⟨0, 10⟩] ∧
      StoreRun.run ⟨10, 10, by decide⟩ 256 [.insert 5, .terminate] = none := by
  refine ⟨⟨by decide +kernel, ?_⟩, by decide +kernel, ?_⟩
  · intro before timestamp after heq
    cases before with
    | nil =>
      have hafter := (cons.inj heq).2
      rw [← hafter]
      exact mem_replicate.2 ⟨by decide, rfl⟩
    | cons event before =>
      have hmem : .insert timestamp ∈ replicate 256 StoreEvent.terminate := by
        rw [(cons.inj heq).2]
        exact mem_append_right _ mem_cons_self
      exact absurd (eq_of_mem_replicate hmem) (by simp)
  · rfl

end MobilityNebula.SliceStore
