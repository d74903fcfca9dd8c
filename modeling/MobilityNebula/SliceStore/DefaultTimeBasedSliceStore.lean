import MobilityNebula.Library.SortedMap
import MobilityNebula.SliceStore.SliceAssigner

/-!
# DefaultTimeBasedSliceStore — the windows and slices of a window operator

The store keeps a map of slices, by slice end, and a map of windows, by window end.  Each window remembers
its slices and its state.  A method either holds the locks it needs for its whole effect, or its effect falls
into sections that each hold one lock; every definition here is such a section, so that an interleaving of
the definitions is an interleaving of the threads:

* `getSlicesOrCreate` looks the slice up under the read lock, and creates it under both locks after a second
  lookup.  A successful first lookup changes nothing, so both ways are one section that looks up and creates;
* `getTriggerableWindowSlices` and `getAllNonTriggeredSlices` hold the lock of the windows; the first gives
  up if it cannot get it (`locked = false`);
* `garbageCollectSlicesAndWindows` first collects windows, then slices, and skips a part whose lock it cannot
  get.

A failed `INVARIANT` ends the process; the definitions then return nothing.
-/

namespace MobilityNebula.SliceStore

open Library SortedMap

/-! ## The state -/

inductive WindowInfoState where
  | windowFilling
  | waitingOnTermination
  | emittedToProbe
  deriving DecidableEq, Repr

/-- A window with its slices and its state.  The windows are compared by their end, which is the key of the
map; the whole `WindowInfo` is kept here. -/
structure SlicesAndState where
  windowInfo : WindowInfo
  windowSlices : List Slice
  windowState : WindowInfoState
  deriving DecidableEq, Repr

/-- An entry of the map that the trigger methods return: a window, its sequence number and its slices. -/
structure WindowSlices where
  windowInfo : WindowInfo
  sequenceNumber : Nat
  slices : List Slice
  deriving DecidableEq, Repr

def SlicesAndState.withState (entry : SlicesAndState) (windowState : WindowInfoState) : SlicesAndState :=
  { entry with windowState := windowState }

structure DefaultTimeBasedSliceStore where
  windows : SortedMap Nat SlicesAndState
  slices : SortedMap Nat Slice
  sliceAssigner : SliceAssigner
  sequenceNumber : Nat
  numberOfActiveOrigins : Nat

namespace DefaultTimeBasedSliceStore

/-- The constructor.  The lowering rules pass the number of origins as a `size_t`, the parameter is a
`uint8_t`. -/
def create (sliceAssigner : SliceAssigner) (numberOfInputOrigins : Nat) : DefaultTimeBasedSliceStore where
  windows := empty
  slices := empty
  sliceAssigner := sliceAssigner
  sequenceNumber := 1
  numberOfActiveOrigins := numberOfInputOrigins % 2 ^ 8

/-! ## Inserting -/

/-- One pass of the loop over the windows of a new slice. -/
def addSliceToWindow (newSlice : Slice) (windows : SortedMap Nat SlicesAndState) (windowInfo : WindowInfo) :
    Option (SortedMap Nat SlicesAndState) :=
  -- operator[] creates a window that is filling and has no slices
  let entry := (windows.find? windowInfo.windowEnd).getD ⟨windowInfo, [], .windowFilling⟩
  if entry.windowState = .emittedToProbe then
    none
  else
    some (windows.upsert windowInfo.windowEnd fun _ =>
      { entry with
        windowState := .windowFilling
        windowSlices := entry.windowSlices ++ [newSlice] })

variable (store : DefaultTimeBasedSliceStore)

def getSlicesOrCreate (timestamp : Nat) : Option (DefaultTimeBasedSliceStore × Slice) :=
  let sliceStart := store.sliceAssigner.getSliceStartTs timestamp
  let sliceEnd := store.sliceAssigner.getSliceEndTs timestamp
  match store.slices.find? sliceEnd with
  | some existingSlice => some (store, existingSlice)
  | none => do
    let newSlice : Slice := ⟨sliceStart, sliceEnd⟩
    let windows ← (store.sliceAssigner.getAllWindowsForSlice newSlice).foldlM (addSliceToWindow newSlice)
      store.windows
    some ({ store with
      slices := store.slices.upsert sliceEnd fun _ => newSlice
      windows := windows }, newSlice)

/-! ## Triggering -/

/-- The window becomes emitted and takes the next sequence number.  The returned map gets an entry with the
first slice of the window. -/
def emitWindow (s : Nat × List WindowSlices) (entry : SlicesAndState) : Nat × List WindowSlices :=
  (s.1 + 1, if entry.windowSlices = [] then s.2 else s.2 ++ [⟨entry.windowInfo, s.1, entry.windowSlices⟩])

def getTriggerableWindowSlices (globalWatermark : Nat) (locked : Bool) :
    DefaultTimeBasedSliceStore × List WindowSlices :=
  if locked then
    let (windows, sequenceNumber, windowsToSlices) := store.windows.mapAccumUntil
      (fun s windowEnd entry =>
        if globalWatermark ≤ windowEnd then
          none
        else if entry.windowState = .emittedToProbe then
          some (entry, s)
        else
          some (entry.withState .emittedToProbe, emitWindow s entry))
      (store.sequenceNumber, [])
    ({ store with windows := windows, sequenceNumber := sequenceNumber }, windowsToSlices)
  else
    (store, [])

/-- One pass of the loop of `getAllNonTriggeredSlices`. -/
def flushWindow (numberOfActiveOrigins : Nat) (s : Nat × List WindowSlices) (entry : SlicesAndState) :
    SlicesAndState × Nat × List WindowSlices :=
  match entry.windowState with
  | .emittedToProbe => (entry, s)
  | .windowFilling =>
    if 0 < numberOfActiveOrigins then (entry.withState .waitingOnTermination, s)
    else (entry.withState .emittedToProbe, emitWindow s entry)
  | .waitingOnTermination =>
    if 0 < numberOfActiveOrigins then (entry, s)
    else (entry.withState .emittedToProbe, emitWindow s entry)

def getAllNonTriggeredSlices : Option (DefaultTimeBasedSliceStore × List WindowSlices) :=
  if store.numberOfActiveOrigins = 0 then
    none
  else
    let numberOfActiveOrigins := store.numberOfActiveOrigins - 1
    let (windows, sequenceNumber, windowsToSlices) := store.windows.mapAccumUntil
      (fun s _ entry => some (flushWindow numberOfActiveOrigins s entry)) (store.sequenceNumber, [])
    some ({ store with
      windows := windows
      sequenceNumber := sequenceNumber
      numberOfActiveOrigins := numberOfActiveOrigins }, windowsToSlices)

/-! ## Reading and collecting -/

def getSliceBySliceEnd (sliceEnd : Nat) : Option Slice :=
  store.slices.find? sliceEnd

/-- The first part of `garbageCollectSlicesAndWindows`. -/
def garbageCollectWindows (newGlobalWaterMark : Nat) (locked : Bool) : DefaultTimeBasedSliceStore :=
  if locked then
    { store with
      windows := store.windows.eraseUntil fun windowEnd entry =>
        if windowEnd < newGlobalWaterMark ∧ entry.windowState = .emittedToProbe then .erase
        else if newGlobalWaterMark < windowEnd then .stop
        else .keep }
  else
    store

/-- The second part of `garbageCollectSlicesAndWindows`. -/
def garbageCollectSlices (newGlobalWaterMark : Nat) (locked : Bool) : DefaultTimeBasedSliceStore :=
  if locked then
    { store with
      slices := store.slices.eraseUntil fun sliceEnd _ =>
        if sliceEnd + store.sliceAssigner.windowSize < newGlobalWaterMark then .erase else .stop }
  else
    store

/-! ## Emitting all pending windows

The two trigger methods are one operation with different bounds: all windows before the bound that were not
emitted get the next sequence numbers, in the order of their ends. -/

/-- The windows that were not emitted and are not behind the bound, in the order of their ends. -/
def pending (stop : Nat → Prop) [DecidablePred stop] : List SlicesAndState :=
  (store.windows.entries.filter fun e =>
    !decide (stop e.1) && e.2.windowState != .emittedToProbe).map Prod.snd

def numbered (n : Nat) (entries : List SlicesAndState) : List WindowSlices :=
  (entries.zipIdx n).map fun e => ⟨e.1.windowInfo, e.2, e.1.windowSlices⟩

def emitPending (stop : Nat → Prop) [DecidablePred stop] : DefaultTimeBasedSliceStore :=
  { store with
    windows := store.windows.mapValues fun windowEnd entry =>
      if stop windowEnd then entry else entry.withState .emittedToProbe
    sequenceNumber := store.sequenceNumber + (store.pending stop).length }

variable {entry : SlicesAndState}

lemma mem_pending {store : DefaultTimeBasedSliceStore} {stop : Nat → Prop} [DecidablePred stop] :
    entry ∈ store.pending stop ↔ ∃ windowEnd, store.windows.find? windowEnd = some entry ∧ ¬ stop windowEnd ∧
        entry.windowState ≠ .emittedToProbe := by
  simp only [pending, List.mem_map, List.mem_filter, Prod.exists, mem_entries_iff]
  constructor
  · rintro ⟨windowEnd, e, ⟨hfind, hstop⟩, rfl⟩
    exact ⟨windowEnd, hfind, by simpa using hstop⟩
  · rintro ⟨windowEnd, hfind, hstop⟩
    exact ⟨windowEnd, entry, ⟨hfind, by simpa using hstop⟩, rfl⟩

lemma foldl_emitWindow {entries : List SlicesAndState} (hne : ∀ e ∈ entries, e.windowSlices ≠ [])
    (s : Nat × List WindowSlices) :
    entries.foldl emitWindow s = (s.1 + entries.length, s.2 ++ numbered s.1 entries) := by
  induction entries generalizing s with
  | nil => simp [numbered]
  | cons e rest ih =>
    have hcons := List.forall_mem_cons.1 hne
    rw [List.foldl_cons, ih hcons.2]
    simp [emitWindow, numbered, hcons.1, Nat.add_assoc, Nat.add_comm 1]

lemma mapAccumUntil_emit (stop : Nat → Prop) [DecidablePred stop] (hstop : ∀ k k', k < k' → stop k → stop k')
    (hne : ∀ entry ∈ store.pending stop, entry.windowSlices ≠ []) :
    store.windows.mapAccumUntil (fun s windowEnd entry =>
          if stop windowEnd then none
          else some (entry.withState .emittedToProbe,
            if entry.windowState = .emittedToProbe then s else emitWindow s entry))
        (store.sequenceNumber, [])
      = ((store.emitPending stop).windows, (store.emitPending stop).sequenceNumber,
          numbered store.sequenceNumber (store.pending stop)) := by
  rw [mapAccumUntil_eq store.windows stop hstop]
  have hfold : ∀ (entries : List (Nat × SlicesAndState)) (s : Nat × List WindowSlices),
      entries.foldl (fun s e => if e.2.windowState = .emittedToProbe then s else emitWindow s e.2) s
        = ((entries.filter fun e => e.2.windowState != .emittedToProbe).map Prod.snd).foldl emitWindow s := by
    intro entries
    induction entries with
    | nil => exact fun s => rfl
    | cons e rest ih =>
      intro s
      by_cases he : e.2.windowState = .emittedToProbe
      · simp [he, ih]
      · simp [he, ih]
  rw [hfold, List.filter_filter]
  have hpending : ((store.windows.entries.filter fun e =>
      e.2.windowState != .emittedToProbe && !decide (stop e.1)).map Prod.snd) = store.pending stop := by
    simp only [pending, Bool.and_comm]
  rw [hpending, foldl_emitWindow hne]
  simp [emitPending]

lemma withState_self {windowState : WindowInfoState}
    (h : entry.windowState = windowState) : entry.withState windowState = entry := by
  rw [SlicesAndState.withState, ← h]

lemma getTriggerableWindowSlices_eq (globalWatermark : Nat)
    (hne : ∀ entry ∈ store.pending (globalWatermark ≤ ·), entry.windowSlices ≠ []) :
    store.getTriggerableWindowSlices globalWatermark true = (store.emitPending (globalWatermark ≤ ·),
          numbered store.sequenceNumber (store.pending (globalWatermark ≤ ·))) := by
  have hstep : (fun (s : Nat × List WindowSlices) windowEnd (entry : SlicesAndState) =>
      if globalWatermark ≤ windowEnd then none
      else if entry.windowState = .emittedToProbe then some (entry, s)
      else some (entry.withState .emittedToProbe, emitWindow s entry))
      = fun s windowEnd entry =>
          if globalWatermark ≤ windowEnd then none
          else some (entry.withState .emittedToProbe,
            if entry.windowState = .emittedToProbe then s else emitWindow s entry) := by
    funext s windowEnd entry
    by_cases hemitted : entry.windowState = .emittedToProbe
    · simp [hemitted, withState_self]
    · simp [hemitted]
  have hloop := store.mapAccumUntil_emit (globalWatermark ≤ ·) (fun k k' hk hstop => Nat.le_trans hstop hk.le) hne
  simp only [getTriggerableWindowSlices, if_true, hstep, hloop]
  rfl

/-- The origin that terminates last flushes all windows. -/
lemma getAllNonTriggeredSlices_last {store : DefaultTimeBasedSliceStore} (hactive : store.numberOfActiveOrigins = 1)
    (hne : ∀ entry ∈ store.pending (fun _ => False), entry.windowSlices ≠ []) :
    store.getAllNonTriggeredSlices = some ({ store.emitPending (fun _ => False) with numberOfActiveOrigins := 0 },
          numbered store.sequenceNumber (store.pending fun _ => False)) := by
  have hstep : ∀ s entry, flushWindow (1 - 1) s entry = (entry.withState .emittedToProbe,
          if entry.windowState = .emittedToProbe then s else emitWindow s entry) := by
    intro s entry
    cases hstate : entry.windowState with
    | windowFilling | waitingOnTermination => simp [flushWindow, hstate]
    | emittedToProbe => simp [flushWindow, hstate, withState_self]
  have hloop := store.mapAccumUntil_emit (fun _ => False) (fun _ _ _ hstop => hstop) hne
  simp only [if_false] at hloop
  simp only [getAllNonTriggeredSlices, hactive, Nat.one_ne_zero, if_false, hstep, hloop]
  rfl

/-- An origin that terminates before others emits nothing: the windows that were filling now wait. -/
lemma getAllNonTriggeredSlices_before_last {store : DefaultTimeBasedSliceStore}
    (hactive : 1 < store.numberOfActiveOrigins) :
    store.getAllNonTriggeredSlices = some ({ store with
          windows := store.windows.mapValues fun _ entry =>
            if entry.windowState = .windowFilling then entry.withState .waitingOnTermination else entry
          numberOfActiveOrigins := store.numberOfActiveOrigins - 1 }, []) := by
  have hactive' : 0 < store.numberOfActiveOrigins - 1 := by omega
  have hstep : ∀ s entry, flushWindow (store.numberOfActiveOrigins - 1) s entry
      = (if entry.windowState = .windowFilling then entry.withState .waitingOnTermination else entry, s) := by
    intro s entry
    cases hstate : entry.windowState with
    | windowFilling | waitingOnTermination => simp [flushWindow, hstate, hactive']
    | emittedToProbe => simp [flushWindow, hstate]
  have hloop := mapAccumUntil_eq store.windows (fun _ => False) (fun _ _ _ hstop => hstop)
    (fun _ entry => if entry.windowState = .windowFilling then entry.withState .waitingOnTermination else entry)
    (fun (s : Nat × List WindowSlices) _ _ => s) (store.sequenceNumber, [])
  have hfold : ∀ (entries : List (Nat × SlicesAndState)) (s : Nat × List WindowSlices),
      entries.foldl (fun s _ => s) s = s := by
    intro entries
    induction entries with
    | nil => exact fun s => rfl
    | cons e rest ih => exact fun s => ih s
  simp only [hfold, if_false] at hloop
  simp only [getAllNonTriggeredSlices, if_neg (show ¬ store.numberOfActiveOrigins = 0 by omega), hstep, hloop]

/-! ## Collecting without the break -/

variable (newGlobalWaterMark : Nat) (locked : Bool)
include store newGlobalWaterMark locked

lemma garbageCollectWindows_eq : store.garbageCollectWindows newGlobalWaterMark locked
      = { store with windows := (store.garbageCollectWindows newGlobalWaterMark locked).windows } := by
  cases locked with
  | false => rfl
  | true => rfl

lemma garbageCollectSlices_eq : store.garbageCollectSlices newGlobalWaterMark locked
      = { store with slices := (store.garbageCollectSlices newGlobalWaterMark locked).slices } := by
  cases locked with
  | false => rfl
  | true => rfl

lemma find?_garbageCollectWindows (windowEnd : Nat) (entry : SlicesAndState) :
    (store.garbageCollectWindows newGlobalWaterMark locked).windows.find? windowEnd = some entry ↔
      store.windows.find? windowEnd = some entry ∧
        (locked = true → windowEnd < newGlobalWaterMark → entry.windowState ≠ .emittedToProbe) := by
  cases locked with
  | false => simp [garbageCollectWindows]
  | true =>
    simp only [garbageCollectWindows, if_true]
    rw [eraseUntil_eq, find?_filter, Option.filter_eq_some_iff]
    · refine and_congr_right fun _ => ?_
      split_ifs with herase hstop
      · simp [herase.1, herase.2]
      · simpa using fun hlt hstate => herase ⟨hlt, hstate⟩
      · simpa using fun hlt hstate => herase ⟨hlt, hstate⟩
    · intro k a k' a' hk hstop herase
      split_ifs at hstop herase
      omega

lemma find?_garbageCollectSlices (sliceEnd : Nat) (slice : Slice) :
    (store.garbageCollectSlices newGlobalWaterMark locked).slices.find? sliceEnd = some slice ↔
      store.slices.find? sliceEnd = some slice ∧
        (locked = true → newGlobalWaterMark ≤ sliceEnd + store.sliceAssigner.windowSize) := by
  cases locked with
  | false => simp [garbageCollectSlices]
  | true =>
    simp only [garbageCollectSlices, if_true]
    rw [eraseUntil_eq, find?_filter, Option.filter_eq_some_iff]
    · refine and_congr_right fun _ => ?_
      split_ifs with herase
      · simpa using herase
      · simpa using herase
    · intro k a k' a' hk hstop herase
      split_ifs at hstop herase
      omega

end DefaultTimeBasedSliceStore

end MobilityNebula.SliceStore
