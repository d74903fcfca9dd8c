import MobilityNebula.Library.Grouping
import MobilityNebula.SliceStore.StoreRuns

/-!
# SliceContents — the tuples in the slices of a window operator

A window operator keeps the tuples of a slice in the slice object.  This module follows a slice store together
with the contents of its slices, whatever they are: `SliceOperations` says how a slice is created and how a
tuple is added to it.

No tuple is late: no window that contains it was emitted before it is inserted, and its timestamp is not below
a watermark with which something was collected.  Slices are only collected when their windows are finished.
Both are what the handler guarantees for origins that deliver in order.  Then the slices of an emitted window
hold exactly the tuples of the window (`ContentInvariant.perm_of_emitted`), and this does not change any more
(`Frozen`).
-/

namespace MobilityNebula.Windows

open Library SliceStore DefaultTimeBasedSliceStore List SliceAssigner

/-! ## Slices with contents -/

/-- How an operator creates a slice and adds a tuple to it. -/
structure SliceOperations (τ σ : Type) where
  timestamp : τ → Nat
  createNewSlice : σ
  insert : σ → τ → Option σ

structure IsContentOf {τ σ : Type} (operations : SliceOperations τ σ) (holds : σ → List τ → Prop) : Prop where
  createNewSlice : holds operations.createNewSlice []
  insert : ∀ {content l}, holds content l → ∀ tuple,
    ∃ content', operations.insert content tuple = some content' ∧ holds content' (l ++ [tuple])

inductive SliceEvent (τ : Type) where
  | insert (tuple : τ)
  | trigger (globalWatermark : Nat) (locked : Bool)
  | terminate
  | garbageCollectWindows (newGlobalWaterMark : Nat) (locked : Bool)
  | garbageCollectSlices (newGlobalWaterMark : Nat) (locked : Bool)

/-- A store, its history, the contents of its slices and all tuples inserted so far. -/
structure SliceContents (τ σ : Type) where
  store : DefaultTimeBasedSliceStore
  history : StoreHistory
  contents : Slice → σ
  inserted : List τ

namespace SliceContents

variable {τ σ : Type} (operations : SliceOperations τ σ) (assigner : SliceAssigner)

def initial (numberOfInputOrigins : Nat) : SliceContents τ σ where
  store := create assigner numberOfInputOrigins
  history := StoreHistory.initial
  contents := fun _ => operations.createNewSlice
  inserted := []

/-- The state after an event, or nothing if a check of the source fails. -/
def step (state : SliceContents τ σ) : SliceEvent τ → Option (SliceContents τ σ)
  | .insert tuple => do
    let (store, slice) ← state.store.getSlicesOrCreate (operations.timestamp tuple)
    let content :=
      match state.store.getSliceBySliceEnd slice.sliceEnd with
      | some _ => state.contents slice
      | none => operations.createNewSlice
    let content ← operations.insert content tuple
    some
      { store := store
        history := state.history.insert slice
        contents := Function.update state.contents slice content
        inserted := state.inserted ++ [tuple] }
  | .trigger globalWatermark locked =>
    let (store, windows) := state.store.getTriggerableWindowSlices globalWatermark locked
    some { state with store := store, history := state.history.emit windows }
  | .terminate => do
    let (store, windows) ← state.store.getAllNonTriggeredSlices
    some { state with store := store, history := state.history.emit windows }
  | .garbageCollectWindows newGlobalWaterMark locked =>
    some { state with
      store := state.store.garbageCollectWindows newGlobalWaterMark locked
      history := { state.history with
        windowsCollected := if locked then max state.history.windowsCollected newGlobalWaterMark
          else state.history.windowsCollected } }
  | .garbageCollectSlices newGlobalWaterMark locked =>
    some { state with
      store := state.store.garbageCollectSlices newGlobalWaterMark locked
      history := { state.history with
        slicesCollected := if locked then max state.history.slicesCollected newGlobalWaterMark
          else state.history.slicesCollected } }

/-- No window that contains the timestamp was emitted, and nothing that it belongs to was collected. -/
structure OnTime (history : StoreHistory) (timestamp : Nat) : Prop where
  not_late : ¬ history.Late timestamp
  windowsCollected : history.windowsCollected ≤ timestamp
  slicesCollected : history.slicesCollected ≤ timestamp

/-- All windows of the slices that end, with one window size added, before the watermark are finished. -/
def Finished (finished : WindowInfo → Prop) (history : StoreHistory) (watermark : Nat) : Prop :=
  ∀ s ∈ history.created, s.sliceEnd + assigner.windowSize < watermark →
    ∀ w, assigner.IsWindow w → w.Covers s → finished w

/-- Tuples are not late, and slices are collected when their windows are finished. -/
def Enabled (finished : WindowInfo → Prop) (state : SliceContents τ σ) : SliceEvent τ → Prop
  | .insert tuple => OnTime state.history (operations.timestamp tuple)
  | .trigger _ _ => True
  | .terminate => 0 < state.store.numberOfActiveOrigins
  | .garbageCollectWindows _ _ => True
  | .garbageCollectSlices newGlobalWaterMark locked =>
    locked = true → Finished assigner finished state.history newGlobalWaterMark

end SliceContents

/-! ## What the slices hold -/

section Invariant

variable {τ σ : Type} {operations : SliceOperations τ σ} {assigner : SliceAssigner}
  {holds : σ → List τ → Prop} {finished : WindowInfo → Prop} {state state' : SliceContents τ σ}

def SliceOperations.sliceOf (operations : SliceOperations τ σ) (assigner : SliceAssigner) (tuple : τ) : Slice :=
  assigner.sliceOf (operations.timestamp tuple)

/-- The tuples of a window, in the order in which they were inserted. -/
def SliceOperations.tuplesIn (operations : SliceOperations τ σ) (w : WindowInfo) (tuples : List τ) : List τ :=
  tuples.filter fun tuple => w.Contains (operations.timestamp tuple)

structure ContentInvariant (operations : SliceOperations τ σ) (assigner : SliceAssigner)
    (holds : σ → List τ → Prop) (finished : WindowInfo → Prop) (state : SliceContents τ σ) : Prop where
  assigner_eq : state.store.sliceAssigner = assigner
  store : StoreInvariant state.store state.history
  created_iff : ∀ s, s ∈ state.history.created ↔ ∃ tuple ∈ state.inserted, operations.sliceOf assigner tuple = s
  contents : ∀ s, holds (state.contents s) (group (operations.sliceOf assigner) s state.inserted)
  collected : SliceContents.Finished assigner finished state.history state.history.slicesCollected

/-- What belongs to emitted windows does not change. -/
structure Frozen (operations : SliceOperations τ σ) (assigner : SliceAssigner) (state state' : SliceContents τ σ) :
    Prop where
  emitted : ∃ windows, state'.history.emitted = state.history.emitted ++ windows
  contents : ∀ r ∈ state.history.emitted, ∀ s ∈ r.slices, state'.contents s = state.contents s
  group : ∀ r ∈ state.history.emitted, ∀ s ∈ r.slices,
    group (operations.sliceOf assigner) s state'.inserted = group (operations.sliceOf assigner) s state.inserted
  tuplesIn : ∀ r ∈ state.history.emitted,
    operations.tuplesIn r.windowInfo state'.inserted = operations.tuplesIn r.windowInfo state.inserted

namespace ContentInvariant

lemma initial (hcontent : IsContentOf operations holds) (assigner : SliceAssigner) (numberOfInputOrigins : Nat)
    (finished : WindowInfo → Prop) :
    ContentInvariant operations assigner holds finished
      (SliceContents.initial operations assigner numberOfInputOrigins) where
  assigner_eq := rfl
  store := .create assigner numberOfInputOrigins
  created_iff := by simp [SliceContents.initial, StoreHistory.initial]
  contents _ := hcontent.createNewSlice
  collected := by simp [SliceContents.Finished, SliceContents.initial, StoreHistory.initial]

variable (inv : ContentInvariant operations assigner holds finished state)
include inv

lemma mono {finished' : WindowInfo → Prop}
    (hmono : ∀ w, finished w → finished' w) : ContentInvariant operations assigner holds finished' state where
  assigner_eq := inv.assigner_eq
  store := inv.store
  created_iff := inv.created_iff
  contents := inv.contents
  collected s hs hlt w hw hcovers := hmono w (inv.collected s hs hlt w hw hcovers)

/-- A slice some window of which is not finished is in the store. -/
lemma getSliceBySliceEnd {s : Slice}
    (hs : s ∈ state.history.created) {w : WindowInfo} (hw : assigner.IsWindow w) (hcovers : w.Covers s)
    (hnot : ¬ finished w) : state.store.getSliceBySliceEnd s.sliceEnd = some s := by
  refine inv.store.slice_kept s hs ?_
  by_contra hlt
  rw [inv.assigner_eq] at hlt
  exact hnot (inv.collected s hs (Nat.lt_of_not_le hlt) w hw hcovers)

/-- A tuple that is not late belongs to no slice of an emitted window. -/
lemma sliceOf_not_mem {timestamp : Nat}
    (hnot : ¬ state.history.Late timestamp) {r : WindowSlices} (hr : r ∈ state.history.emitted) :
    assigner.sliceOf timestamp ∉ r.slices := by
  intro hmem
  have hemitted : r.windowInfo ∈ state.history.emittedWindows := mem_map_of_mem hr
  have hw := inv.assigner_eq ▸ inv.store.emitted_isWindow _ hemitted
  have hcovers := (((inv.store.emitted_slices r hr).mem_iff _).1 hmem).2
  exact hnot ⟨r.windowInfo, hemitted, (hw.covers_iff timestamp).1 hcovers⟩

lemma insert (hcontent : IsContentOf operations holds) {tuple : τ}
    (honTime : SliceContents.OnTime state.history (operations.timestamp tuple)) :
    ∃ state', state.step operations (.insert tuple) = some state' ∧
      ContentInvariant operations assigner holds finished state' ∧ Frozen operations assigner state state' := by
  generalize ht : operations.timestamp tuple = t at honTime
  have hspec := inv.store.getSlicesOrCreate_spec t honTime.windowsCollected honTime.slicesCollected
  rw [if_neg fun h => honTime.not_late h.2, inv.assigner_eq] at hspec
  rcases hspec with ⟨store', hcall, hassigner, _, hstore⟩
  generalize hslice : assigner.sliceOf t = slice at hcall hstore
  have hslice' : operations.sliceOf assigner tuple = slice := by rw [SliceOperations.sliceOf, ht, hslice]
  -- the object that the tuple is added to
  generalize hold : (match state.store.getSliceBySliceEnd slice.sliceEnd with
    | some _ => state.contents slice
    | none => operations.createNewSlice) = content
  have hholds : holds content (group (operations.sliceOf assigner) slice state.inserted) := by
    rw [← hold]
    cases hfind : state.store.getSliceBySliceEnd slice.sliceEnd with
    | some _ => exact inv.contents slice
    | none =>
      -- the slice would be in the store if it had been created
      have hnew : slice ∉ state.history.created := by
        intro hmem
        have hkept := inv.store.slice_kept slice hmem ?_
        · exact absurd (hfind.symm.trans hkept) (by simp)
        · have hlt := lt_sliceEnd assigner t
          rw [← hslice]
          simp only [sliceOf]
          have hle := honTime.slicesCollected
          omega
      have hnil : group (operations.sliceOf assigner) slice state.inserted = [] :=
        group_eq_nil_iff.2 fun x hx heq => hnew ((inv.created_iff slice).2 ⟨x, hx, heq⟩)
      rw [hnil]
      exact hcontent.createNewSlice
  rcases hcontent.insert hholds tuple with ⟨content', hinsert, hholds'⟩
  refine ⟨⟨store', state.history.insert slice, Function.update state.contents slice content',
    state.inserted ++ [tuple]⟩, ?_, ?_, ?_⟩
  · simp only [SliceContents.step, ht, hcall, Option.bind_eq_bind, Option.bind_some, hold, hinsert]
  · refine ⟨hassigner, hstore, ?_, ?_, ?_⟩
    · intro s
      have hcreated : s ∈ (state.history.insert slice).created ↔ s ∈ state.history.created ∨ s = slice := by
        unfold StoreHistory.insert
        split_ifs with hmem
        · exact ⟨.inl, fun h => h.elim id fun heq => heq ▸ hmem⟩
        · rw [mem_cons, or_comm]
      simp only [hcreated, inv.created_iff, mem_append, mem_singleton, or_and_right, exists_or,
        exists_eq_left, hslice', eq_comm (a := slice)]
    · intro s
      by_cases hs : s = slice
      · simp only
        rw [hs, Function.update_self, ← hslice', group_append_singleton_self, hslice']
        exact hholds'
      · simp only
        rw [Function.update_of_ne hs, group_append_singleton_of_ne fun h => hs (h.symm.trans hslice')]
        exact inv.contents s
    · have hcollected : (state.history.insert slice).slicesCollected = state.history.slicesCollected :=
        (OrderedRun.insert_fields state.history slice).2.1
      intro s hs hlt w hw hcovers
      rw [hcollected] at hlt
      unfold StoreHistory.insert at hs
      split_ifs at hs
      · exact inv.collected s hs hlt w hw hcovers
      · rcases mem_cons.1 hs with rfl | hs
        · -- the slice of a tuple that is not late ends behind everything collected
          have hle := honTime.slicesCollected
          have hend := lt_sliceEnd assigner t
          rw [← hslice] at hlt
          simp only [sliceOf] at hlt
          omega
        · exact inv.collected s hs hlt w hw hcovers
  · have hemitted : (state.history.insert slice).emitted = state.history.emitted := by
      unfold StoreHistory.insert
      split_ifs
      · rfl
      · rfl
    have hne : ∀ r ∈ state.history.emitted, ∀ s ∈ r.slices, s ≠ slice := fun r hr s hs heq =>
      inv.sliceOf_not_mem honTime.not_late hr (hslice.symm ▸ heq ▸ hs)
    refine ⟨⟨[], by rw [append_nil]; exact hemitted⟩, ?_, ?_, ?_⟩
    · intro r hr s hs
      exact Function.update_of_ne (hne r hr s hs) _ _
    · intro r hr s hs
      exact group_append_singleton_of_ne (fun h => hne r hr s hs (h.symm.trans hslice')) _
    · intro r hr
      have hnot : ¬ r.windowInfo.Contains (operations.timestamp tuple) := fun hcontains =>
        honTime.not_late ⟨r.windowInfo, mem_map_of_mem hr, ht ▸ hcontains⟩
      simp [SliceOperations.tuplesIn, filter_append, hnot]

lemma emit {store' : DefaultTimeBasedSliceStore} {windows : List WindowSlices}
    (hassigner : store'.sliceAssigner = state.store.sliceAssigner)
    (hstore : StoreInvariant store' (state.history.emit windows)) :
    ContentInvariant operations assigner holds finished
        { state with store := store', history := state.history.emit windows } ∧
      Frozen operations assigner state { state with store := store', history := state.history.emit windows } :=
  ⟨⟨hassigner.trans inv.assigner_eq, hstore, inv.created_iff, inv.contents, inv.collected⟩,
    ⟨⟨windows, rfl⟩, fun _ _ _ _ => rfl, fun _ _ _ _ => rfl, fun _ _ => rfl⟩⟩

/-- No enabled event aborts; the slices keep holding their tuples, and emitted windows do not change. -/
lemma step (hcontent : IsContentOf operations holds) {event : SliceEvent τ}
    (henabled : state.Enabled operations assigner finished event) :
    ∃ state', state.step operations event = some state' ∧
      ContentInvariant operations assigner holds finished state' ∧ Frozen operations assigner state state' := by
  cases event with
  | insert tuple => exact inv.insert hcontent henabled
  | trigger globalWatermark locked =>
    rcases inv.store.trigger globalWatermark locked with ⟨hstore, hassigner, _⟩
    exact ⟨_, rfl, inv.emit hassigner hstore⟩
  | terminate =>
    rcases inv.store.terminate henabled with ⟨store', windows, hcall, hterminated⟩
    refine ⟨_, ?_, inv.emit hterminated.assigner_eq hterminated.inv⟩
    simp only [SliceContents.step, hcall, Option.bind_eq_bind, Option.bind_some]
  | garbageCollectWindows newGlobalWaterMark locked =>
    refine ⟨_, rfl, ?_, ⟨⟨[], by rw [append_nil]⟩, fun _ _ _ _ => rfl, fun _ _ _ _ => rfl, fun _ _ => rfl⟩⟩
    have hassigner := congrArg sliceAssigner (state.store.garbageCollectWindows_eq newGlobalWaterMark locked)
    exact ⟨hassigner.trans inv.assigner_eq, inv.store.garbageCollectWindows newGlobalWaterMark locked,
      inv.created_iff, inv.contents, inv.collected⟩
  | garbageCollectSlices newGlobalWaterMark locked =>
    refine ⟨_, rfl, ?_, ⟨⟨[], by rw [append_nil]⟩, fun _ _ _ _ => rfl, fun _ _ _ _ => rfl, fun _ _ => rfl⟩⟩
    have hassigner := congrArg sliceAssigner (state.store.garbageCollectSlices_eq newGlobalWaterMark locked)
    refine ⟨hassigner.trans inv.assigner_eq, inv.store.garbageCollectSlices newGlobalWaterMark locked,
      inv.created_iff, inv.contents, ?_⟩
    intro s hs hlt w hw hcovers
    cases locked with
    | false => exact inv.collected s hs hlt w hw hcovers
    | true =>
      rcases lt_max_iff.1 hlt with hold | hnew
      · exact inv.collected s hs hold w hw hcovers
      · exact henabled rfl s hs hnew w hw hcovers

/-- The slices of an emitted window hold the tuples of the window. -/
lemma perm_of_emitted {r : WindowSlices} (hr : r ∈ state.history.emitted) :
    (operations.tuplesIn r.windowInfo state.inserted).Perm
      (r.slices.flatMap fun s => group (operations.sliceOf assigner) s state.inserted) := by
  have hslices := inv.store.emitted_slices r hr
  have hw := inv.assigner_eq ▸ inv.store.emitted_isWindow _ (mem_map_of_mem hr)
  refine .trans (.of_eq ?_) (filter_mem_perm (operations.sliceOf assigner) state.inserted hslices.nodup)
  refine filter_congr fun tuple htuple => ?_
  rw [decide_eq_decide, hslices.mem_iff, SliceOperations.sliceOf, hw.covers_iff]
  exact ⟨fun h => ⟨(inv.created_iff _).2 ⟨tuple, htuple, rfl⟩, h⟩, .right⟩

lemma mem_emittedWindows
    (hall : AllEmitted assigner state.history) {w : WindowInfo} (hw : assigner.IsWindow w) {tuple : τ}
    (htuple : tuple ∈ state.inserted) (hcontains : w.Contains (operations.timestamp tuple)) :
    w ∈ state.history.emittedWindows :=
  hall w hw _ ((inv.created_iff _).2 ⟨tuple, htuple, rfl⟩) ((hw.covers_iff _).2 hcontains)

end ContentInvariant

end Invariant

end MobilityNebula.Windows
