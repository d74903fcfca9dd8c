import MobilityNebula.Library.OrderOfAppearance
import MobilityNebula.Windows.SliceContents

/-!
# CreationOrder — the slices of a window in the order of their creation

A window lists its slices in the order in which they were created, and a slice is created by its first tuple.
So the slices of an emitted window are sorted by the positions of their first tuples
(`CreationInvariant.pairwise_slices`), whatever their timestamps are.
-/

namespace MobilityNebula.Windows

open Library SliceStore DefaultTimeBasedSliceStore Option StoreHistory

/-! ## The store -/

/-- Every window lists its slices in the order of their creation. -/
structure InCreationOrder (store : DefaultTimeBasedSliceStore) (history : StoreHistory) : Prop where
  entry : ∀ {windowEnd e}, store.windows.find? windowEnd = some e → e.windowSlices.Sublist history.created.reverse
  emitted : ∀ r ∈ history.emitted, r.slices.Sublist history.created.reverse

namespace InCreationOrder

variable {store store' : DefaultTimeBasedSliceStore} {history : StoreHistory}

lemma create (assigner : SliceAssigner) (numberOfInputOrigins : Nat) :
    InCreationOrder (create assigner numberOfInputOrigins) initial where
  entry := by simp [DefaultTimeBasedSliceStore.create, SortedMap.find?_empty]
  emitted := by simp [initial]

variable (order : InCreationOrder store history)
include order

lemma congr (hfind : ∀ {windowEnd e}, store'.windows.find? windowEnd = some e →
      ∃ e', store.windows.find? windowEnd = some e' ∧ e'.windowSlices = e.windowSlices) :
    InCreationOrder store' history where
  entry he := by
    rcases hfind he with ⟨e', he', hslices⟩
    exact hslices ▸ order.entry he'
  emitted := order.emitted

lemma getSlicesOrCreate (inv : StoreInvariant store history)
    {timestamp : Nat} {slice : Slice} (hcollected : history.slicesCollected ≤ timestamp)
    (hcall : store.getSlicesOrCreate timestamp = some (store', slice)) :
    InCreationOrder store' (history.insert slice) := by
  by_cases hcreated : store.sliceAssigner.sliceOf timestamp ∈ history.created
  · rw [inv.getSlicesOrCreate_existing hcreated hcollected, some_inj, Prod.mk.injEq] at hcall
    rw [← hcall.1, ← hcall.2, StoreHistory.insert, if_pos hcreated]
    exact order
  · have hfind := inv.find?_slices_of_not_created hcreated
    have hloop := foldlM_addSliceToWindow (store.sliceAssigner.sliceOf timestamp)
      (SliceAssigner.getAllWindowsForSlice_sorted store.sliceAssigner (store.sliceAssigner.sliceOf timestamp))
      store.windows
    simp only [DefaultTimeBasedSliceStore.getSlicesOrCreate, hfind, bind_eq_bind, bind_eq_some_iff,
      some_inj, Prod.mk.injEq] at hcall
    rcases hcall with ⟨windows, hfold, hstore', hslice⟩
    have hslice' : store.sliceAssigner.sliceOf timestamp = slice := hslice
    rw [hslice'] at hloop hcreated
    rw [hslice] at hfold
    split_ifs at hloop
    · exact absurd (hfold.symm.trans hloop) (by simp)
    · rcases hloop with ⟨windows', hfold', hadded, hsame⟩
      have hwindows : windows' = windows := some_inj.1 (hfold'.symm.trans hfold)
      rw [hwindows] at hadded hsame
      have hreverse : (slice :: history.created).reverse = history.created.reverse ++ [slice] := List.reverse_cons
      rw [StoreHistory.insert, if_neg hcreated]
      refine ⟨?_, fun r hr => ?_⟩
      · intro windowEnd e he
        rw [← hstore'] at he
        rw [hreverse]
        by_cases hkey : ∃ w ∈ store.sliceAssigner.getAllWindowsForSlice slice, w.windowEnd = windowEnd
        · rcases hkey with ⟨w, hw, rfl⟩
          rw [hadded w hw, some_inj] at he
          rw [← he]
          refine .append ?_ (.refl _)
          rw [entryOf]
          cases hentry : store.windows.find? w.windowEnd with
          | none => exact List.nil_sublist _
          | some e' => exact order.entry hentry
        · rw [hsame windowEnd fun w hw hend => hkey ⟨w, hw, hend⟩] at he
          exact (order.entry he).trans (List.sublist_append_left _ _)
      · rw [hreverse]
        exact (order.emitted r hr).trans (List.sublist_append_left _ _)

lemma emitPending (stop : Nat → Prop) [DecidablePred stop] : InCreationOrder (store.emitPending stop)
      (history.emit (numbered store.sequenceNumber (store.pending stop))) where
  entry {windowEnd e} he := by
    have hfind : (store.emitPending stop).windows.find? windowEnd = (store.windows.find? windowEnd).map fun e =>
        if stop windowEnd then e else e.withState .emittedToProbe := SortedMap.find?_mapValues _ _ windowEnd
    rw [hfind, map_eq_some_iff] at he
    rcases he with ⟨e', he', rfl⟩
    have hsublist := order.entry he'
    split_ifs
    · exact hsublist
    · exact hsublist
  emitted r hr := by
    rcases List.mem_append.1 hr with hr | hr
    · exact order.emitted r hr
    · rcases StoreInvariant.exists_of_mem_numbered hr with ⟨e, he, _, hslices⟩
      rcases mem_pending.1 he with ⟨windowEnd, hfind, _⟩
      exact hslices ▸ order.entry hfind

lemma trigger (inv : StoreInvariant store history) (globalWatermark : Nat) (locked : Bool) :
    InCreationOrder (store.getTriggerableWindowSlices globalWatermark locked).1
      (history.emit (store.getTriggerableWindowSlices globalWatermark locked).2) := by
  cases locked with
  | false =>
    rw [getTriggerableWindowSlices_false, emit_nil]
    exact order
  | true =>
    rw [getTriggerableWindowSlices_eq store globalWatermark (inv.pending_ne_nil _)]
    exact order.emitPending _

lemma terminate (inv : StoreInvariant store history)
    {windows : List WindowSlices} (hcall : store.getAllNonTriggeredSlices = some (store', windows)) :
    InCreationOrder store' (history.emit windows) := by
  rcases Nat.lt_trichotomy store.numberOfActiveOrigins 1 with hnone | hlast | hmore
  · rw [getAllNonTriggeredSlices, if_pos (Nat.lt_one_iff.1 hnone)] at hcall
    cases hcall
  · rw [getAllNonTriggeredSlices_last hlast (inv.pending_ne_nil _), some_inj,
      Prod.mk.injEq] at hcall
    rw [← hcall.1, ← hcall.2]
    exact (order.emitPending _).congr fun he => ⟨_, he, rfl⟩
  · rw [getAllNonTriggeredSlices_before_last hmore, some_inj, Prod.mk.injEq] at hcall
    rw [← hcall.1, ← hcall.2, emit_nil]
    refine order.congr fun {windowEnd e} he => ?_
    simp only [SortedMap.find?_mapValues, map_eq_some_iff] at he
    rcases he with ⟨e', he', rfl⟩
    refine ⟨e', he', ?_⟩
    split_ifs
    · rfl
    · rfl

end InCreationOrder

/-! ## Tuples and slices -/

section Contents

variable {τ σ : Type} {operations : SliceOperations τ σ} {assigner : SliceAssigner}
  {holds : σ → List τ → Prop} {finished : WindowInfo → Prop} {state state' : SliceContents τ σ}

/-- Slices are created in the order in which their first tuples are inserted. -/
structure CreationInvariant (operations : SliceOperations τ σ) (assigner : SliceAssigner)
    (state : SliceContents τ σ) : Prop where
  order : InCreationOrder state.store state.history
  created_eq : state.history.created.reverse = firstAppearances (state.inserted.map (operations.sliceOf assigner))

namespace CreationInvariant

lemma initial (operations : SliceOperations τ σ) (assigner : SliceAssigner) (numberOfInputOrigins : Nat) :
    CreationInvariant operations assigner (SliceContents.initial operations assigner numberOfInputOrigins) where
  order := .create assigner numberOfInputOrigins
  created_eq := rfl

variable (creation : CreationInvariant operations assigner state)
include creation

lemma insert (inv : ContentInvariant operations assigner holds finished state) {tuple : τ}
    (honTime : SliceContents.OnTime state.history (operations.timestamp tuple))
    (hstep : state.step operations (.insert tuple) = some state') : CreationInvariant operations assigner state' := by
  have hspec := inv.store.getSlicesOrCreate_spec (operations.timestamp tuple) honTime.windowsCollected
    honTime.slicesCollected
  rw [if_neg fun h => honTime.not_late h.2, inv.assigner_eq] at hspec
  rcases hspec with ⟨store', hcall, _⟩
  simp only [SliceContents.step, hcall, bind_eq_bind, bind_some, bind_eq_some_iff, some_inj] at hstep
  rcases hstep with ⟨content, _, rfl⟩
  refine ⟨creation.order.getSlicesOrCreate inv.store honTime.slicesCollected hcall, ?_⟩
  have hmem : operations.sliceOf assigner tuple ∈ state.inserted.map (operations.sliceOf assigner) ↔
      operations.sliceOf assigner tuple ∈ state.history.created := by
    rw [inv.created_iff, List.mem_map]
  have hslice : assigner.sliceOf (operations.timestamp tuple) = operations.sliceOf assigner tuple := rfl
  rw [hslice, List.map_append, List.map_singleton, firstAppearances_append_singleton, if_congr hmem rfl rfl,
    StoreHistory.insert, ← creation.created_eq]
  split_ifs
  · rfl
  · exact List.reverse_cons

lemma step (inv : ContentInvariant operations assigner holds finished state) {event : SliceEvent τ}
    (henabled : state.Enabled operations assigner finished event)
    (hstep : state.step operations event = some state') : CreationInvariant operations assigner state' := by
  cases event with
  | insert tuple => exact creation.insert inv henabled hstep
  | trigger globalWatermark locked =>
    rw [← some_inj.1 hstep]
    exact ⟨creation.order.trigger inv.store globalWatermark locked, creation.created_eq⟩
  | terminate =>
    simp only [SliceContents.step, bind_eq_bind, bind_eq_some_iff, some_inj] at hstep
    rcases hstep with ⟨⟨store', windows⟩, hcall, rfl⟩
    exact ⟨creation.order.terminate inv.store hcall, creation.created_eq⟩
  | garbageCollectWindows newGlobalWaterMark locked =>
    rw [← some_inj.1 hstep]
    have horder := creation.order.congr fun he =>
      ⟨_, ((state.store.find?_garbageCollectWindows newGlobalWaterMark locked _ _).1 he).1, rfl⟩
    exact ⟨⟨horder.entry, horder.emitted⟩, creation.created_eq⟩
  | garbageCollectSlices newGlobalWaterMark locked =>
    rw [← some_inj.1 hstep]
    have hwindows : (state.store.garbageCollectSlices newGlobalWaterMark locked).windows = state.store.windows := by
      rw [state.store.garbageCollectSlices_eq newGlobalWaterMark locked]
    have horder := creation.order.congr fun {windowEnd e} he => ⟨e, hwindows ▸ he, rfl⟩
    exact ⟨⟨horder.entry, horder.emitted⟩, creation.created_eq⟩

/-- The slices of an emitted window are sorted by the positions of their first tuples. -/
lemma pairwise_slices {r : WindowSlices} (hr : r ∈ state.history.emitted) : r.slices.Pairwise fun s s' =>
      (state.inserted.map (operations.sliceOf assigner)).idxOf s
        < (state.inserted.map (operations.sliceOf assigner)).idxOf s' := by
  have hsublist := creation.order.emitted r hr
  rw [creation.created_eq] at hsublist
  exact (pairwise_idxOf_firstAppearances _).sublist hsublist

end CreationInvariant

end Contents

end MobilityNebula.Windows
