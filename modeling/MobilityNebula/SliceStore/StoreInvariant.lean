import MobilityNebula.SliceStore.DefaultTimeBasedSliceStore

/-!
# StoreInvariant — what the store knows about its history

The history of a store is the list of slices it created, the list of windows it emitted and the largest
watermarks with which it collected windows and slices.  The invariant ties the two maps to that history:
every window of a created slice is in the map, with all created slices that lie inside it, unless it was
emitted and collected; and the emitted windows have the sequence numbers 1, 2, 3, ….

One lemma for each way in which the store changes: a new slice, emitting windows up to a bound, waiting for
termination, collecting windows and collecting slices.
-/

namespace MobilityNebula.SliceStore

open Library DefaultTimeBasedSliceStore List SliceAssigner SortedMap

/-! ## The history and the invariant -/

structure StoreHistory where
  created : List Slice
  emitted : List WindowSlices
  /-- Emitted windows that end before this may be gone. -/
  windowsCollected : Nat
  /-- Slices that end, with one window size added, before this may be gone. -/
  slicesCollected : Nat

namespace StoreHistory

def initial : StoreHistory := ⟨[], [], 0, 0⟩

def emittedWindows (history : StoreHistory) : List WindowInfo := history.emitted.map WindowSlices.windowInfo

end StoreHistory

/-- The slices are all created slices inside the window, each once. -/
structure IsSlicesOf (created : List Slice) (w : WindowInfo) (slices : List Slice) : Prop where
  nodup : slices.Nodup
  ne_nil : slices ≠ []
  mem_iff : ∀ s, s ∈ slices ↔ s ∈ created ∧ w.Covers s

structure IsWindowEntry (assigner : SliceAssigner) (history : StoreHistory) (windowEnd : Nat)
    (entry : SlicesAndState) : Prop where
  isWindow : assigner.IsWindow entry.windowInfo
  key : entry.windowInfo.windowEnd = windowEnd
  slices : IsSlicesOf history.created entry.windowInfo entry.windowSlices
  emitted_iff : entry.windowState = .emittedToProbe ↔ entry.windowInfo ∈ history.emittedWindows

structure StoreInvariant (store : DefaultTimeBasedSliceStore) (history : StoreHistory) : Prop where
  created_eq : ∀ s ∈ history.created, ∃ timestamp, s = store.sliceAssigner.sliceOf timestamp
  slice_created : ∀ {sliceEnd s}, store.slices.find? sliceEnd = some s →
    s ∈ history.created ∧ s.sliceEnd = sliceEnd
  slice_kept : ∀ s ∈ history.created,
    history.slicesCollected ≤ s.sliceEnd + store.sliceAssigner.windowSize →
      store.slices.find? s.sliceEnd = some s
  entry : ∀ {windowEnd e}, store.windows.find? windowEnd = some e →
    IsWindowEntry store.sliceAssigner history windowEnd e
  window_kept : ∀ {w}, store.sliceAssigner.IsWindow w → ∀ s ∈ history.created, w.Covers s →
    (∃ e, store.windows.find? w.windowEnd = some e) ∨
      (w.windowEnd < history.windowsCollected ∧ w ∈ history.emittedWindows)
  emitted_isWindow : ∀ w ∈ history.emittedWindows, store.sliceAssigner.IsWindow w
  emitted_slices : ∀ r ∈ history.emitted, IsSlicesOf history.created r.windowInfo r.slices
  emitted_nodup : history.emittedWindows.Nodup
  numbers : history.emitted.map WindowSlices.sequenceNumber = range' 1 history.emitted.length
  next_number : store.sequenceNumber = history.emitted.length + 1

variable (assigner : SliceAssigner)

lemma StoreInvariant.create (numberOfInputOrigins : Nat) :
    StoreInvariant (create assigner numberOfInputOrigins) StoreHistory.initial where
  created_eq := by simp [StoreHistory.initial]
  slice_created := by simp [DefaultTimeBasedSliceStore.create, find?_empty]
  slice_kept := by simp [StoreHistory.initial]
  entry := by simp [DefaultTimeBasedSliceStore.create, find?_empty]
  window_kept := by simp [StoreHistory.initial]
  emitted_isWindow := by simp [StoreHistory.initial, StoreHistory.emittedWindows]
  emitted_slices := by simp [StoreHistory.initial]
  emitted_nodup := by simp [StoreHistory.initial, StoreHistory.emittedWindows]
  numbers := by simp [StoreHistory.initial]
  next_number := by simp [StoreHistory.initial, DefaultTimeBasedSliceStore.create]

/-! ## Adding a slice to its windows -/

namespace DefaultTimeBasedSliceStore

/-- What `operator[]` finds for a window. -/
def entryOf (windows : SortedMap Nat SlicesAndState) (w : WindowInfo) : SlicesAndState :=
  (windows.find? w.windowEnd).getD ⟨w, [], .windowFilling⟩

lemma addSliceToWindow_eq (newSlice : Slice) (windows : SortedMap Nat SlicesAndState) (w : WindowInfo) :
    addSliceToWindow newSlice windows w = if (entryOf windows w).windowState = .emittedToProbe then none
        else some (windows.upsert w.windowEnd fun _ =>
          { entryOf windows w with
            windowState := .windowFilling
            windowSlices := (entryOf windows w).windowSlices ++ [newSlice] }) := rfl

/-- The loop over the windows of a new slice fails iff one of them was emitted; else it adds the slice to
each of them. -/
lemma foldlM_addSliceToWindow (newSlice : Slice) {ws : List WindowInfo}
    (hsorted : ws.Pairwise fun a b => a.windowEnd < b.windowEnd) (windows : SortedMap Nat SlicesAndState) :
    if ∃ w ∈ ws, (entryOf windows w).windowState = .emittedToProbe then
      ws.foldlM (addSliceToWindow newSlice) windows = none
    else
      ∃ windows', ws.foldlM (addSliceToWindow newSlice) windows = some windows' ∧
        (∀ w ∈ ws, windows'.find? w.windowEnd = some
          { entryOf windows w with
            windowState := .windowFilling
            windowSlices := (entryOf windows w).windowSlices ++ [newSlice] }) ∧
        ∀ k, (∀ w ∈ ws, w.windowEnd ≠ k) → windows'.find? k = windows.find? k := by
  induction ws generalizing windows with
  | nil => simp
  | cons w ws ih =>
    have hcons := pairwise_cons.1 hsorted
    by_cases hw : (entryOf windows w).windowState = .emittedToProbe
    · rw [if_pos ⟨w, mem_cons_self, hw⟩, foldlM_cons, addSliceToWindow_eq, if_pos hw]
      rfl
    · -- the other windows have other ends, so the first pass does not touch them
      generalize hentry : ({ entryOf windows w with
          windowState := .windowFilling
          windowSlices := (entryOf windows w).windowSlices ++ [newSlice] } : SlicesAndState) = entry
      have hfirst : addSliceToWindow newSlice windows w = some (windows.upsert w.windowEnd fun _ => entry) := by
        rw [addSliceToWindow_eq, if_neg hw, hentry]
      have hother : ∀ w' ∈ ws, entryOf (windows.upsert w.windowEnd fun _ => entry) w' = entryOf windows w' := by
        intro w' hw'
        rw [entryOf, entryOf, find?_upsert, if_neg (ne_of_gt (hcons.1 w' hw'))]
      have hrest := ih hcons.2 (windows.upsert w.windowEnd fun _ => entry)
      have hexists : (∃ w' ∈ w :: ws, (entryOf windows w').windowState = .emittedToProbe) ↔
          ∃ w' ∈ ws, (entryOf (windows.upsert w.windowEnd fun _ => entry) w').windowState = .emittedToProbe := by
        constructor
        · rintro ⟨w', hmem, hstate⟩
          rcases mem_cons.1 hmem with rfl | hmem
          · exact absurd hstate hw
          · exact ⟨w', hmem, by rw [hother w' hmem]; exact hstate⟩
        · rintro ⟨w', hmem, hstate⟩
          exact ⟨w', mem_cons_of_mem _ hmem, by rw [← hother w' hmem]; exact hstate⟩
      rw [foldlM_cons, hfirst, if_congr hexists rfl rfl]
      by_cases hlate : ∃ w' ∈ ws, (entryOf (windows.upsert w.windowEnd fun _ => entry) w').windowState = .emittedToProbe
      · rw [if_pos hlate] at hrest ⊢
        exact hrest
      · rw [if_neg hlate] at hrest ⊢
        rcases hrest with ⟨windows', hfold, hadded, hsame⟩
        refine ⟨windows', hfold, ?_, ?_⟩
        · intro w' hmem
          rcases mem_cons.1 hmem with rfl | hmem
          · rw [hsame w'.windowEnd fun w'' hw'' => ne_of_gt (hcons.1 w'' hw''), find?_upsert,
              if_pos rfl, hentry]
          · rw [hadded w' hmem, hother w' hmem]
        · intro k hk
          have hcons' := forall_mem_cons.1 hk
          rw [hsame k hcons'.2, find?_upsert, if_neg (Ne.symm hcons'.1)]

end DefaultTimeBasedSliceStore

/-! ## Inserting -/

variable {w : WindowInfo}

lemma IsSlicesOf.cons_of_not_covers {created slices : List Slice} {newSlice : Slice}
    (h : IsSlicesOf created w slices) (hnot : ¬ w.Covers newSlice) : IsSlicesOf (newSlice :: created) w slices where
  nodup := h.nodup
  ne_nil := h.ne_nil
  mem_iff s := by
    rw [h.mem_iff, mem_cons]
    constructor
    · rintro ⟨hs, hcovers⟩
      exact ⟨.inr hs, hcovers⟩
    · rintro ⟨rfl | hs, hcovers⟩
      · exact absurd hcovers hnot
      · exact ⟨hs, hcovers⟩

namespace StoreHistory

/-- Some window that contains the timestamp was emitted. -/
def Late (history : StoreHistory) (timestamp : Nat) : Prop :=
  ∃ w ∈ history.emittedWindows, w.Contains timestamp

instance (history : StoreHistory) (timestamp : Nat) : Decidable (history.Late timestamp) :=
  inferInstanceAs (Decidable (∃ w ∈ history.emittedWindows, w.Contains timestamp))

def insert (history : StoreHistory) (slice : Slice) : StoreHistory :=
  if slice ∈ history.created then history else { history with created := slice :: history.created }

def emit (history : StoreHistory) (windows : List WindowSlices) : StoreHistory :=
  { history with emitted := history.emitted ++ windows }

end StoreHistory

namespace StoreInvariant

variable {store : DefaultTimeBasedSliceStore} {history : StoreHistory}
variable {timestamp : Nat}

section

variable (inv : StoreInvariant store history)
include inv

lemma eq_of_sliceEnd {s : Slice} (hs : s ∈ history.created)
    (hend : s.sliceEnd = store.sliceAssigner.getSliceEndTs timestamp) :
    s = store.sliceAssigner.sliceOf timestamp := by
  rcases inv.created_eq s hs with ⟨t, rfl⟩
  exact sliceOf_eq_of_sliceEnd hend

lemma find?_of_emitted
    (hw : w ∈ history.emittedWindows) (hcollected : history.windowsCollected ≤ w.windowEnd) :
    ∃ e, store.windows.find? w.windowEnd = some e := by
  rcases mem_map.1 hw with ⟨r, hr, rfl⟩
  have hslices := inv.emitted_slices r hr
  rcases exists_mem_of_ne_nil _ hslices.ne_nil with ⟨s, hs⟩
  rcases (hslices.mem_iff s).1 hs with ⟨hcreated, hcovers⟩
  rcases inv.window_kept (inv.emitted_isWindow _ hw) s hcreated hcovers with hfind | ⟨hlt, _⟩
  · exact hfind
  · exact absurd hlt (by omega)

/-- What the loop over the windows of a new slice finds for each of them. -/
structure IsEntryOf (history : StoreHistory) (w : WindowInfo) (entry : SlicesAndState) : Prop where
  windowInfo : entry.windowInfo = w
  nodup : entry.windowSlices.Nodup
  mem_iff : ∀ s, s ∈ entry.windowSlices ↔ s ∈ history.created ∧ w.Covers s
  emitted_iff : entry.windowState = .emittedToProbe ↔ w ∈ history.emittedWindows

lemma entryOf_spec
    (hw : store.sliceAssigner.IsWindow w) (hcollected : history.windowsCollected ≤ w.windowEnd) :
    IsEntryOf history w (entryOf store.windows w) := by
  unfold entryOf
  cases hfind : store.windows.find? w.windowEnd with
  | some e =>
    have hentry := inv.entry hfind
    have hinfo : e.windowInfo = w := hentry.isWindow.ext hw hentry.key
    refine ⟨hinfo, hentry.slices.nodup, ?_, ?_⟩
    · intro s
      have := hentry.slices.mem_iff s
      rwa [hinfo] at this
    · have := hentry.emitted_iff
      rwa [hinfo] at this
  | none =>
    -- a window that is not in the map has no slices yet
    refine ⟨rfl, nodup_nil, ?_, ?_⟩
    · intro s
      refine ⟨nofun, ?_⟩
      rintro ⟨hs, hcovers⟩
      rcases inv.window_kept hw s hs hcovers with ⟨e, he⟩ | ⟨hlt, _⟩
      · rw [hfind] at he
        cases he
      · exact absurd hlt (by omega)
    · refine ⟨nofun, fun hemitted => ?_⟩
      rcases inv.find?_of_emitted hemitted hcollected with ⟨e, he⟩
      rw [hfind] at he
      cases he

lemma getSlicesOrCreate_existing
    (hcreated : store.sliceAssigner.sliceOf timestamp ∈ history.created)
    (hcollected : history.slicesCollected ≤ timestamp) :
    store.getSlicesOrCreate timestamp = some (store, store.sliceAssigner.sliceOf timestamp) := by
  have hlt := lt_sliceEnd store.sliceAssigner timestamp
  have hfind := inv.slice_kept _ hcreated (by simp only [sliceOf]; omega)
  simp only [sliceOf] at hfind
  simp only [getSlicesOrCreate, hfind, sliceOf]

end

lemma mem_windows_iff :
    w ∈ store.sliceAssigner.getAllWindowsForSlice (store.sliceAssigner.sliceOf timestamp) ↔
      store.sliceAssigner.IsWindow w ∧ w.Covers (store.sliceAssigner.sliceOf timestamp) := by
  rw [mem_getAllWindowsForSlice]
  exact and_congr_right fun hw => (hw.covers_iff timestamp).symm

lemma windowInfo_numbered (n : Nat) (entries : List SlicesAndState) : (numbered n entries).map WindowSlices.windowInfo
      = entries.map SlicesAndState.windowInfo := by
  rw [numbered, map_map]
  conv_rhs => rw [← zipIdx_map_fst n entries, map_map]
  rfl

lemma sequenceNumber_numbered (n : Nat) (entries : List SlicesAndState) :
    (numbered n entries).map WindowSlices.sequenceNumber = range' n entries.length := by
  rw [numbered, map_map, ← zipIdx_map_snd n entries]
  rfl

lemma exists_of_mem_numbered {n : Nat} {entries : List SlicesAndState} {r : WindowSlices}
    (hr : r ∈ numbered n entries) :
    ∃ e ∈ entries, r.windowInfo = e.windowInfo ∧ r.slices = e.windowSlices := by
  rcases mem_map.1 hr with ⟨⟨e, i⟩, he, rfl⟩
  exact ⟨e, fst_mem_of_mem_zipIdx he, rfl, rfl⟩

lemma emittedWindows_emit (history : StoreHistory) (n : Nat) (entries : List SlicesAndState) :
    (history.emit (numbered n entries)).emittedWindows
      = history.emittedWindows ++ entries.map SlicesAndState.windowInfo := by
  rw [StoreHistory.emittedWindows, StoreHistory.emit, map_append, windowInfo_numbered]
  rfl

variable (inv : StoreInvariant store history)
include inv

lemma addSlice {timestamp : Nat} (hnew : store.sliceAssigner.sliceOf timestamp ∉ history.created)
    (hwindows : history.windowsCollected ≤ timestamp) (hnotLate : ¬ history.Late timestamp)
    {windows : SortedMap Nat SlicesAndState}
    (hadded : ∀ w ∈ store.sliceAssigner.getAllWindowsForSlice (store.sliceAssigner.sliceOf timestamp),
      windows.find? w.windowEnd = some
        { entryOf store.windows w with
          windowState := .windowFilling
          windowSlices := (entryOf store.windows w).windowSlices ++ [store.sliceAssigner.sliceOf timestamp] })
    (hsame : ∀ k, (∀ w ∈ store.sliceAssigner.getAllWindowsForSlice (store.sliceAssigner.sliceOf timestamp),
      w.windowEnd ≠ k) → windows.find? k = store.windows.find? k) :
    StoreInvariant
      { store with
        slices := store.slices.upsert (store.sliceAssigner.getSliceEndTs timestamp)
          fun _ => store.sliceAssigner.sliceOf timestamp
        windows := windows }
      { history with created := store.sliceAssigner.sliceOf timestamp :: history.created } := by
  -- a window that contains the timestamp ends behind it, so it was neither collected nor emitted
  have hcovering : ∀ w, store.sliceAssigner.IsWindow w → w.Covers (store.sliceAssigner.sliceOf timestamp) →
      IsEntryOf history w (entryOf store.windows w) ∧ w ∉ history.emittedWindows := by
    intro w hw hcovers
    have hcontains := (hw.covers_iff timestamp).1 hcovers
    exact ⟨inv.entryOf_spec hw (hwindows.trans hcontains.2.le), fun hemitted => hnotLate ⟨w, hemitted, hcontains⟩⟩
  refine
    { inv with
      created_eq := ?_, slice_created := ?_, slice_kept := ?_, entry := ?_, window_kept := ?_, emitted_slices := ?_ }
  · intro s hs
    rcases mem_cons.1 hs with rfl | hs
    · exact ⟨timestamp, rfl⟩
    · exact inv.created_eq s hs
  · intro sliceEnd s hfind
    rw [find?_upsert] at hfind
    split_ifs at hfind with hkey
    · rw [Option.some_inj] at hfind
      rw [← hfind]
      exact ⟨mem_cons_self, hkey.symm⟩
    · rcases inv.slice_created hfind with ⟨hs, hend⟩
      exact ⟨mem_cons_of_mem _ hs, hend⟩
  · intro s hs hcollected
    rw [find?_upsert]
    rcases mem_cons.1 hs with rfl | hs
    · exact if_pos rfl
    · rw [if_neg fun hend => hnew (inv.eq_of_sliceEnd hs hend ▸ hs)]
      exact inv.slice_kept s hs hcollected
  · intro windowEnd e hfind
    by_cases hkey : ∃ w ∈ store.sliceAssigner.getAllWindowsForSlice (store.sliceAssigner.sliceOf timestamp),
        w.windowEnd = windowEnd
    · -- one of the windows of the new slice
      rcases hkey with ⟨w, hmem, rfl⟩
      rcases mem_windows_iff.1 hmem with ⟨hw, hcovers⟩
      rcases hcovering w hw hcovers with ⟨hentry, hnot⟩
      rw [hadded w hmem, Option.some_inj] at hfind
      subst hfind
      refine ⟨by simpa only [hentry.windowInfo] using hw, by simp only [hentry.windowInfo], ⟨?_, by simp, ?_⟩, ?_⟩
      · refine nodup_append.2 ⟨hentry.nodup, nodup_singleton _, ?_⟩
        intro s hs s' hs' heq
        rw [mem_singleton] at hs'
        exact hnew (hs' ▸ heq ▸ ((hentry.mem_iff s).1 hs).1)
      · intro s
        simp only [mem_append, mem_cons, not_mem_nil, or_false, hentry.mem_iff, hentry.windowInfo]
        constructor
        · rintro (⟨hs, hc⟩ | rfl)
          · exact ⟨.inr hs, hc⟩
          · exact ⟨.inl rfl, hcovers⟩
        · rintro ⟨rfl | hs, hc⟩
          · exact .inr rfl
          · exact .inl ⟨hs, hc⟩
      · rw [hentry.windowInfo]
        exact ⟨nofun, fun hemitted => absurd hemitted hnot⟩
    · -- any other window does not contain the new slice
      rw [hsame windowEnd fun w hmem hend => hkey ⟨w, hmem, hend⟩] at hfind
      have hentry := inv.entry hfind
      refine ⟨hentry.isWindow, hentry.key, hentry.slices.cons_of_not_covers fun hcovers => ?_, hentry.emitted_iff⟩
      exact hkey ⟨e.windowInfo, mem_windows_iff.2 ⟨hentry.isWindow, hcovers⟩, hentry.key⟩
  · intro w hw s hs hcovers
    by_cases hmem : w ∈ store.sliceAssigner.getAllWindowsForSlice (store.sliceAssigner.sliceOf timestamp)
    · exact .inl ⟨_, hadded w hmem⟩
    · have hother : ∀ w' ∈ store.sliceAssigner.getAllWindowsForSlice (store.sliceAssigner.sliceOf timestamp),
          w'.windowEnd ≠ w.windowEnd := by
        intro w' hmem' hend
        exact hmem (((mem_windows_iff.1 hmem').1.ext hw hend) ▸ hmem')
      rw [hsame w.windowEnd hother]
      rcases mem_cons.1 hs with rfl | hs
      · exact absurd (mem_windows_iff.2 ⟨hw, hcovers⟩) hmem
      · exact inv.window_kept hw s hs hcovers
  · intro r hr
    have hemitted : r.windowInfo ∈ history.emittedWindows := mem_map_of_mem hr
    refine (inv.emitted_slices r hr).cons_of_not_covers fun hcovers => ?_
    exact (hcovering r.windowInfo (inv.emitted_isWindow _ hemitted) hcovers).2 hemitted

lemma find?_slices_of_not_created {timestamp : Nat}
    (hcreated : store.sliceAssigner.sliceOf timestamp ∉ history.created) :
    store.slices.find? (store.sliceAssigner.getSliceEndTs timestamp) = none := by
  cases hfind : store.slices.find? (store.sliceAssigner.getSliceEndTs timestamp) with
  | none => rfl
  | some s =>
    rcases inv.slice_created hfind with ⟨hs, hend⟩
    exact absurd (inv.eq_of_sliceEnd hs hend ▸ hs) hcreated

/-- Inserting a timestamp fails iff its slice is new and some window of it was emitted. -/
lemma getSlicesOrCreate_spec (timestamp : Nat)
    (hwindows : history.windowsCollected ≤ timestamp) (hslices : history.slicesCollected ≤ timestamp) :
    if store.sliceAssigner.sliceOf timestamp ∉ history.created ∧ history.Late timestamp then
      store.getSlicesOrCreate timestamp = none
    else
      ∃ store', store.getSlicesOrCreate timestamp = some (store', store.sliceAssigner.sliceOf timestamp) ∧
        store'.sliceAssigner = store.sliceAssigner ∧
        store'.numberOfActiveOrigins = store.numberOfActiveOrigins ∧
        StoreInvariant store' (history.insert (store.sliceAssigner.sliceOf timestamp)) := by
  by_cases hcreated : store.sliceAssigner.sliceOf timestamp ∈ history.created
  · rw [if_neg fun h => h.1 hcreated]
    refine ⟨store, inv.getSlicesOrCreate_existing hcreated hslices, rfl, rfl, ?_⟩
    rw [StoreHistory.insert, if_pos hcreated]
    exact inv
  · have hfind := inv.find?_slices_of_not_created hcreated
    have hloop := foldlM_addSliceToWindow (store.sliceAssigner.sliceOf timestamp)
      (getAllWindowsForSlice_sorted store.sliceAssigner (store.sliceAssigner.sliceOf timestamp)) store.windows
    have hlate : (∃ w ∈ store.sliceAssigner.getAllWindowsForSlice (store.sliceAssigner.sliceOf timestamp),
        (entryOf store.windows w).windowState = .emittedToProbe) ↔ history.Late timestamp := by
      have hstate : ∀ w, store.sliceAssigner.IsWindow w → w.Contains timestamp →
          ((entryOf store.windows w).windowState = .emittedToProbe ↔ w ∈ history.emittedWindows) :=
        fun w hw hcontains => (inv.entryOf_spec hw (hwindows.trans hcontains.2.le)).emitted_iff
      constructor
      · rintro ⟨w, hmem, hemitted⟩
        rcases mem_getAllWindowsForSlice.1 hmem with ⟨hw, hcontains⟩
        exact ⟨w, (hstate w hw hcontains).1 hemitted, hcontains⟩
      · rintro ⟨w, hemitted, hcontains⟩
        have hw := inv.emitted_isWindow w hemitted
        exact ⟨w, mem_getAllWindowsForSlice.2 ⟨hw, hcontains⟩, (hstate w hw hcontains).2 hemitted⟩
    rw [if_congr hlate rfl rfl] at hloop
    by_cases hislate : history.Late timestamp
    · rw [if_pos hislate] at hloop
      rw [if_pos ⟨hcreated, hislate⟩]
      simp only [getSlicesOrCreate, hfind]
      rw [sliceOf] at hloop
      rw [hloop]
      rfl
    · rw [if_neg hislate] at hloop
      rw [if_neg fun h => hislate h.2]
      rcases hloop with ⟨windows, hfold, hadded, hsame⟩
      have hinv := inv.addSlice hcreated hwindows hislate hadded hsame
      rw [StoreHistory.insert, if_neg hcreated]
      refine ⟨{ store with
        slices := store.slices.upsert (store.sliceAssigner.getSliceEndTs timestamp)
          fun _ => store.sliceAssigner.sliceOf timestamp
        windows := windows }, ?_, rfl, rfl, hinv⟩
      simp only [getSlicesOrCreate, hfind]
      rw [sliceOf] at hfold
      rw [hfold]
      rfl

/-! ## Emitting -/

variable (stop : Nat → Prop)

lemma pending_ne_nil [DecidablePred stop] : ∀ entry ∈ store.pending stop, entry.windowSlices ≠ [] := by
  intro entry hentry
  rcases mem_pending.1 hentry with ⟨windowEnd, hfind, _⟩
  exact (inv.entry hfind).slices.ne_nil

lemma pending_sorted [DecidablePred stop] :
    (store.pending stop).Pairwise fun a b => a.windowInfo.windowEnd < b.windowInfo.windowEnd := by
  rw [pending, pairwise_map]
  refine .imp_of_mem ?_ (store.windows.sorted.filter _)
  rintro ⟨k, e⟩ ⟨k', e'⟩ hmem hmem' hlt
  have hkey := (inv.entry (mem_entries_iff.1 (mem_of_mem_filter hmem))).key
  have hkey' := (inv.entry (mem_entries_iff.1 (mem_of_mem_filter hmem'))).key
  simp only [hkey, hkey']
  exact hlt

lemma not_mem_emitted_of_pending {stop : Nat → Prop} [DecidablePred stop]
    {entry : SlicesAndState} (hentry : entry ∈ store.pending stop) : entry.windowInfo ∉ history.emittedWindows := by
  rcases mem_pending.1 hentry with ⟨windowEnd, hfind, _, hstate⟩
  exact fun hmem => hstate ((inv.entry hfind).emitted_iff.2 hmem)

lemma emitPending [DecidablePred stop] : StoreInvariant (store.emitPending stop)
      (history.emit (numbered store.sequenceNumber (store.pending stop))) := by
  have hwindows := emittedWindows_emit history store.sequenceNumber (store.pending stop)
  have hfind : ∀ k, (store.emitPending stop).windows.find? k
      = (store.windows.find? k).map fun e => if stop k then e else e.withState .emittedToProbe :=
    fun k => find?_mapValues _ _ k
  refine
    { inv with
      entry := ?_, window_kept := ?_, emitted_isWindow := ?_, emitted_slices := ?_, emitted_nodup := ?_, numbers := ?_,
      next_number := ?_ }
  · intro windowEnd e he
    rw [hfind, Option.map_eq_some_iff] at he
    rcases he with ⟨e', he', rfl⟩
    have hentry := inv.entry he'
    by_cases hstop : stop windowEnd
    · -- behind the bound nothing changes, and no window with this end is pending
      rw [if_pos hstop]
      refine ⟨hentry.isWindow, hentry.key, hentry.slices, ?_⟩
      rw [hentry.emitted_iff, hwindows, mem_append]
      refine ⟨.inl, ?_⟩
      rintro (hmem | hmem)
      · exact hmem
      · rcases mem_map.1 hmem with ⟨e'', he'', hinfo⟩
        rcases mem_pending.1 he'' with ⟨windowEnd', hfind', hstop', _⟩
        have hkey' := (inv.entry hfind').key
        rw [hinfo, hentry.key] at hkey'
        exact absurd (hkey' ▸ hstop) hstop'
    · rw [if_neg hstop]
      refine ⟨hentry.isWindow, hentry.key, hentry.slices, ?_⟩
      refine ⟨fun _ => ?_, fun _ => rfl⟩
      rw [hwindows, mem_append]
      by_cases hstate : e'.windowState = .emittedToProbe
      · exact .inl (hentry.emitted_iff.1 hstate)
      · have hpending : e' ∈ store.pending stop :=
          mem_pending.2 ⟨windowEnd, he', hstop, hstate⟩
        exact .inr (mem_map.2 ⟨e', hpending, rfl⟩)
  · intro w hw s hs hcovers
    rw [hfind, hwindows]
    rcases inv.window_kept hw s hs hcovers with ⟨e, he⟩ | ⟨hlt, hmem⟩
    · exact .inl ⟨_, by rw [he]; rfl⟩
    · exact .inr ⟨hlt, mem_append_left _ hmem⟩
  · intro w hw
    rw [hwindows, mem_append] at hw
    rcases hw with hw | hw
    · exact inv.emitted_isWindow w hw
    · rcases mem_map.1 hw with ⟨e, he, rfl⟩
      rcases mem_pending.1 he with ⟨windowEnd, hfind', _⟩
      exact (inv.entry hfind').isWindow
  · intro r hr
    rcases mem_append.1 hr with hr | hr
    · exact inv.emitted_slices r hr
    · rcases exists_of_mem_numbered hr with ⟨e, he, hinfo, hslices⟩
      rcases mem_pending.1 he with ⟨windowEnd, hfind', _⟩
      rw [hinfo, hslices]
      exact (inv.entry hfind').slices
  · rw [hwindows]
    refine nodup_append.2 ⟨inv.emitted_nodup, ?_, ?_⟩
    · refine pairwise_map.2 (.imp ?_ (inv.pending_sorted stop))
      intro a b hlt heq
      exact ne_of_lt hlt (congrArg WindowInfo.windowEnd heq)
    · intro w hw w' hw' heq
      rcases mem_map.1 hw' with ⟨e, he, rfl⟩
      exact inv.not_mem_emitted_of_pending he (heq ▸ hw)
  · rw [StoreHistory.emit, map_append, sequenceNumber_numbered, inv.numbers, inv.next_number,
      length_append, numbered, length_map, length_zipIdx,
      Nat.add_comm history.emitted.length 1]
    exact range'_append_1
  · simp only [DefaultTimeBasedSliceStore.emitPending, StoreHistory.emit, length_append,
      numbered, length_map, length_zipIdx, inv.next_number]
    omega

lemma wait (numberOfActiveOrigins : Nat) : StoreInvariant
      { store with
        windows := store.windows.mapValues fun _ entry =>
          if entry.windowState = .windowFilling then entry.withState .waitingOnTermination else entry
        numberOfActiveOrigins := numberOfActiveOrigins } history := by
  have hfind : ∀ k, (store.windows.mapValues fun _ entry =>
      if entry.windowState = .windowFilling then entry.withState .waitingOnTermination else entry).find? k
        = (store.windows.find? k).map fun entry =>
            if entry.windowState = .windowFilling then entry.withState .waitingOnTermination else entry :=
    fun k => find?_mapValues _ _ k
  refine { inv with entry := ?_, window_kept := ?_ }
  · intro windowEnd e he
    rw [hfind, Option.map_eq_some_iff] at he
    rcases he with ⟨e', he', rfl⟩
    have hentry := inv.entry he'
    by_cases hfilling : e'.windowState = .windowFilling
    · rw [if_pos hfilling]
      refine ⟨hentry.isWindow, hentry.key, hentry.slices, ?_⟩
      have hnot : e'.windowInfo ∉ history.emittedWindows := by
        rw [← hentry.emitted_iff, hfilling]
        exact WindowInfoState.noConfusion
      exact ⟨fun hstate => WindowInfoState.noConfusion hstate, fun hmem => absurd hmem hnot⟩
    · rw [if_neg hfilling]
      exact hentry
  · intro w hw s hs hcovers
    rw [hfind]
    rcases inv.window_kept hw s hs hcovers with ⟨e, he⟩ | hcollected
    · exact .inl ⟨_, by rw [he]; rfl⟩
    · exact .inr hcollected

/-! ## Collecting -/

variable (newGlobalWaterMark : Nat)

lemma garbageCollectWindows (locked : Bool) :
    StoreInvariant (store.garbageCollectWindows newGlobalWaterMark locked)
      { history with
        windowsCollected := if locked then max history.windowsCollected newGlobalWaterMark
          else history.windowsCollected } := by
  have hfind := store.find?_garbageCollectWindows newGlobalWaterMark locked
  rw [garbageCollectWindows_eq]
  refine { inv with entry := ?_, window_kept := ?_ }
  · intro windowEnd e he
    exact { inv.entry ((hfind windowEnd e).1 he).1 with }
  · intro w hw s hs hcovers
    rcases inv.window_kept hw s hs hcovers with ⟨e, he⟩ | ⟨hlt, hmem⟩
    · by_cases hgone : locked = true ∧ w.windowEnd < newGlobalWaterMark ∧ e.windowState = .emittedToProbe
      · -- the window is erased: it was emitted and ends before the watermark
        rcases hgone with ⟨rfl, hlt, hstate⟩
        have hentry := inv.entry he
        have hinfo : e.windowInfo = w := hentry.isWindow.ext hw hentry.key
        exact .inr ⟨lt_of_lt_of_le hlt (le_max_right _ _), hinfo ▸ hentry.emitted_iff.1 hstate⟩
      · refine .inl ⟨e, (hfind w.windowEnd e).2 ⟨he, ?_⟩⟩
        intro hlocked hlt hstate
        exact hgone ⟨hlocked, hlt, hstate⟩
    · refine .inr ⟨lt_of_lt_of_le hlt ?_, hmem⟩
      split_ifs
      · exact le_max_left _ _
      · exact le_refl _

lemma garbageCollectSlices (locked : Bool) :
    StoreInvariant (store.garbageCollectSlices newGlobalWaterMark locked)
      { history with
        slicesCollected := if locked then max history.slicesCollected newGlobalWaterMark
          else history.slicesCollected } := by
  have hfind := store.find?_garbageCollectSlices newGlobalWaterMark locked
  rw [garbageCollectSlices_eq]
  refine { inv with slice_created := ?_, slice_kept := ?_, entry := ?_ }
  · intro sliceEnd s hs
    exact inv.slice_created ((hfind sliceEnd s).1 hs).1
  · intro s hs hcollected
    refine (hfind s.sliceEnd s).2 ?_
    cases locked with
    | false => exact ⟨inv.slice_kept s hs hcollected, nofun⟩
    | true =>
      rcases max_le_iff.1 hcollected with ⟨hold, hnew⟩
      exact ⟨inv.slice_kept s hs hold, fun _ => hnew⟩
  · intro windowEnd e he
    exact { inv.entry he with }

end StoreInvariant

/-! ## The order of emission -/

/-- Windows are emitted in the order of their ends: the emitted ones end before `bound`, and the windows of
created slices that were not emitted do not. -/
structure EmissionOrder (assigner : SliceAssigner) (history : StoreHistory) (bound : Nat) : Prop where
  sorted : history.emittedWindows.Pairwise fun a b => a.windowEnd < b.windowEnd
  emitted_lt : ∀ w ∈ history.emittedWindows, w.windowEnd < bound
  pending_ge : ∀ {w}, assigner.IsWindow w → ∀ s ∈ history.created, w.Covers s → w ∉ history.emittedWindows →
    bound ≤ w.windowEnd

namespace EmissionOrder

variable {store : DefaultTimeBasedSliceStore} {history : StoreHistory} {bound : Nat}

lemma initial : EmissionOrder assigner StoreHistory.initial 0 where
  sorted := .nil
  emitted_lt := by simp [StoreHistory.initial, StoreHistory.emittedWindows]
  pending_ge := by simp

/-- A tuple at or behind the bound is not late. -/
lemma not_late {assigner : SliceAssigner} (order : EmissionOrder assigner history bound) {timestamp : Nat}
    (hbound : bound ≤ timestamp) : ¬ history.Late timestamp := by
  rintro ⟨w, hw, hcontains⟩
  have hlt := order.emitted_lt w hw
  have hend := hcontains.2
  omega

lemma insert {assigner : SliceAssigner} (order : EmissionOrder assigner history bound) {timestamp : Nat}
    (hbound : bound ≤ timestamp) : EmissionOrder assigner (history.insert (assigner.sliceOf timestamp)) bound := by
  unfold StoreHistory.insert
  split_ifs
  · exact order
  · refine ⟨order.sorted, order.emitted_lt, ?_⟩
    intro w hw s hs hcovers hnot
    rcases mem_cons.1 hs with rfl | hs
    · have hcontains := (hw.covers_iff timestamp).1 hcovers
      exact hbound.trans hcontains.2.le
    · exact order.pending_ge hw s hs hcovers hnot

/-- Emitting everything up to a bound that is not behind the old one. -/
lemma emitPending (inv : StoreInvariant store history) (order : EmissionOrder store.sliceAssigner history bound)
    (stop : Nat → Prop) [DecidablePred stop] {bound' : Nat} (hle : bound ≤ bound')
    (hpending : ∀ entry ∈ store.pending stop, entry.windowInfo.windowEnd < bound')
    (hstop : ∀ windowEnd, stop windowEnd → bound ≤ windowEnd → bound' ≤ windowEnd) :
    EmissionOrder store.sliceAssigner (history.emit (numbered store.sequenceNumber (store.pending stop))) bound' := by
  have hwindows := StoreInvariant.emittedWindows_emit history store.sequenceNumber (store.pending stop)
  refine ⟨?_, ?_, ?_⟩
  · rw [hwindows]
    refine pairwise_append.2 ⟨order.sorted, pairwise_map.2 (inv.pending_sorted stop), ?_⟩
    intro w hw w' hw'
    rcases mem_map.1 hw' with ⟨e, he, rfl⟩
    -- a pending window has a slice, so it does not end before the old bound
    rcases mem_pending.1 he with ⟨windowEnd, hfind, _⟩
    have hentry := inv.entry hfind
    rcases exists_mem_of_ne_nil _ hentry.slices.ne_nil with ⟨s, hs⟩
    rcases (hentry.slices.mem_iff s).1 hs with ⟨hcreated, hcovers⟩
    have hge := order.pending_ge hentry.isWindow s hcreated hcovers (inv.not_mem_emitted_of_pending he)
    exact lt_of_lt_of_le (order.emitted_lt w hw) hge
  · intro w hw
    rw [hwindows, mem_append] at hw
    rcases hw with hw | hw
    · exact lt_of_lt_of_le (order.emitted_lt w hw) hle
    · rcases mem_map.1 hw with ⟨e, he, rfl⟩
      exact hpending e he
  · intro w hw s hs hcovers hnot
    rw [hwindows, mem_append, not_or] at hnot
    have hge := order.pending_ge hw s hs hcovers hnot.1
    rcases inv.window_kept hw s hs hcovers with ⟨e, he⟩ | ⟨_, hmem⟩
    · have hentry := inv.entry he
      have hinfo : e.windowInfo = w := hentry.isWindow.ext hw hentry.key
      by_cases hbehind : stop w.windowEnd
      · exact hstop w.windowEnd hbehind hge
      · have hstate : e.windowState ≠ .emittedToProbe := fun hstate =>
          hnot.1 (hinfo ▸ hentry.emitted_iff.1 hstate)
        have hmem : e ∈ store.pending stop := mem_pending.2 ⟨w.windowEnd, he, hbehind, hstate⟩
        exact absurd (mem_map.2 ⟨e, hmem, hinfo⟩) hnot.2
    · exact absurd hmem hnot.1

end EmissionOrder

end MobilityNebula.SliceStore
