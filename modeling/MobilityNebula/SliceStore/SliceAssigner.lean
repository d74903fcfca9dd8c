import MobilityNebula.Library.Cells

/-!
# SliceAssigner — slices and windows of a timestamp

Windows of one size start at every multiple of the slide.  The starts and the ends of all windows cut time
into slices, and every window is a union of slices.  The source computes the slice of a timestamp and the
windows of a slice with remainders; here they are related to what they are for: the slice of a timestamp is
its cell between the boundaries (`isCell_slice`), and the windows of its slice are exactly the windows that
contain the timestamp (`mem_getAllWindowsForSlice`).

Timestamps are natural numbers, those of the source `uint64_t`.  While a timestamp, the size and the slide
together stay below `2 ^ 64`, no sum and no difference wraps around (`sums_lt`, `windowEnd_add_lt`).
-/

namespace MobilityNebula.SliceStore

open Library

/-! ## Slices and windows -/

structure Slice where
  sliceStart : Nat
  sliceEnd : Nat
  deriving DecidableEq, Repr

structure WindowInfo where
  windowStart : Nat
  windowEnd : Nat
  deriving DecidableEq, Repr

namespace WindowInfo

/-- The constructor: a start above the end is replaced by 0. -/
def create (windowStart windowEnd : Nat) : WindowInfo :=
  if windowEnd < windowStart then ⟨0, windowEnd⟩ else ⟨windowStart, windowEnd⟩

def Contains (w : WindowInfo) (timestamp : Nat) : Prop := w.windowStart ≤ timestamp ∧ timestamp < w.windowEnd

instance (w : WindowInfo) (timestamp : Nat) : Decidable (w.Contains timestamp) :=
  inferInstanceAs (Decidable (_ ∧ _))

def Covers (w : WindowInfo) (slice : Slice) : Prop :=
  w.windowStart ≤ slice.sliceStart ∧ slice.sliceEnd ≤ w.windowEnd

instance (w : WindowInfo) (slice : Slice) : Decidable (w.Covers slice) :=
  inferInstanceAs (Decidable (_ ∧ _))

end WindowInfo

/-! ## The assigner -/

structure SliceAssigner where
  windowSize : Nat
  windowSlide : Nat
  windowSlide_pos : 0 < windowSlide

namespace SliceAssigner

variable (assigner : SliceAssigner)

def getSliceStartTs (timestamp : Nat) : Nat :=
  let prevSlideStart := timestamp - timestamp % assigner.windowSlide
  let prevWindowStart :=
    if timestamp < assigner.windowSize then prevSlideStart
    else timestamp - (timestamp - assigner.windowSize) % assigner.windowSlide
  max prevSlideStart prevWindowStart

def getSliceEndTs (timestamp : Nat) : Nat :=
  let nextSlideEnd := timestamp + assigner.windowSlide - timestamp % assigner.windowSlide
  let nextWindowEnd :=
    if timestamp < assigner.windowSize then assigner.windowSize
    else timestamp + assigner.windowSlide - (timestamp - assigner.windowSize) % assigner.windowSlide
  min nextSlideEnd nextWindowEnd

/-- The loop over the window ends.  Each pass adds the slide, so `lastWindowEnd + 1 - curWindowEnd` passes
are enough. -/
def windowsFrom (lastWindowEnd : Nat) : Nat → Nat → List WindowInfo
  | 0, _ => []
  | fuel + 1, curWindowEnd =>
    if curWindowEnd ≤ lastWindowEnd then
      WindowInfo.create (curWindowEnd - assigner.windowSize) curWindowEnd
        :: windowsFrom lastWindowEnd fuel (curWindowEnd + assigner.windowSlide)
    else
      []

def getAllWindowsForSlice (slice : Slice) : List WindowInfo :=
  let firstWindowEnd := max slice.sliceEnd assigner.windowSize
  if (firstWindowEnd - assigner.windowSize) % assigner.windowSlide ≠ 0 then
    -- firstWindowEnd is no window end but the start of the first window behind the slice
    let lastWindowEnd := firstWindowEnd + assigner.windowSize - assigner.windowSlide
    let firstWindowEnd := slice.sliceStart + assigner.windowSlide
    assigner.windowsFrom lastWindowEnd (lastWindowEnd + 1 - firstWindowEnd) firstWindowEnd
  else
    let lastWindowEnd := slice.sliceStart + assigner.windowSize
    assigner.windowsFrom lastWindowEnd (lastWindowEnd + 1 - firstWindowEnd) firstWindowEnd

def sliceOf (timestamp : Nat) : Slice :=
  ⟨assigner.getSliceStartTs timestamp, assigner.getSliceEndTs timestamp⟩

/-! ## Slices are cells -/

/-- The windows of the query: they start at the multiples of the slide. -/
def IsWindow (w : WindowInfo) : Prop :=
  assigner.windowSlide ∣ w.windowStart ∧ w.windowEnd = w.windowStart + assigner.windowSize

def boundaries : Set Nat :=
  progression 0 assigner.windowSlide ∪ progression assigner.windowSize assigner.windowSlide

variable {assigner}
variable {w : WindowInfo}

lemma isWindow_iff :
    assigner.IsWindow w ↔ ∃ k, w = ⟨assigner.windowSlide * k, assigner.windowSlide * k + assigner.windowSize⟩ := by
  constructor
  · rintro ⟨⟨k, hk⟩, hend⟩
    exact ⟨k, by rw [WindowInfo.mk.injEq]; exact ⟨hk, by rw [← hk]; exact hend⟩⟩
  · rintro ⟨k, hk⟩
    rw [WindowInfo.mk.injEq] at hk
    exact ⟨⟨k, hk.1⟩, by rw [hk.2, hk.1]⟩

lemma IsWindow.windowStart_mem (hw : assigner.IsWindow w) : w.windowStart ∈ assigner.boundaries :=
  .inl ⟨Nat.zero_le _, by simpa using hw.1⟩

lemma IsWindow.windowEnd_mem (hw : assigner.IsWindow w) : w.windowEnd ∈ assigner.boundaries := by
  refine .inr ⟨?_, ?_⟩
  · rw [hw.2]
    exact Nat.le_add_left _ _
  · rw [hw.2, Nat.add_sub_cancel]
    exact hw.1

lemma IsWindow.ext {w' : WindowInfo} (hw : assigner.IsWindow w) (hw' : assigner.IsWindow w')
    (hend : w.windowEnd = w'.windowEnd) : w = w' := by
  rcases w' with ⟨start', stop'⟩
  have h := hw.2
  have h' := hw'.2
  simp only at h h' hend
  rw [WindowInfo.mk.injEq]
  exact ⟨by omega, hend⟩

variable (timestamp : Nat)

lemma isGreatest_getSliceStartTs :
    IsGreatest {b | b ∈ assigner.boundaries ∧ b ≤ timestamp} (assigner.getSliceStartTs timestamp) := by
  have hslide := isGreatest_progression (d := assigner.windowSlide) (Nat.zero_le timestamp)
  have hset : {b | b ∈ assigner.boundaries ∧ b ≤ timestamp}
      = {b | b ∈ progression 0 assigner.windowSlide ∧ b ≤ timestamp}
        ∪ {b | b ∈ progression assigner.windowSize assigner.windowSlide ∧ b ≤ timestamp} := by
    ext b
    exact or_and_right
  rw [hset]
  by_cases hts : timestamp < assigner.windowSize
  · -- no window has ended yet
    have hempty : {b | b ∈ progression assigner.windowSize assigner.windowSlide ∧ b ≤ timestamp} = ∅ := by
      refine Set.eq_empty_of_forall_notMem ?_
      rintro b ⟨hb, hle⟩
      exact absurd hb.1 (by omega)
    rw [hempty, Set.union_empty, getSliceStartTs, if_pos hts, max_self]
    exact hslide
  · rw [getSliceStartTs, if_neg hts]
    exact hslide.union (isGreatest_progression (by omega))

lemma isLeast_getSliceEndTs :
    IsLeast {b | b ∈ assigner.boundaries ∧ timestamp < b} (assigner.getSliceEndTs timestamp) := by
  have hslide := isLeast_progression assigner.windowSlide_pos (Nat.zero_le timestamp)
  have hset : {b | b ∈ assigner.boundaries ∧ timestamp < b}
      = {b | b ∈ progression 0 assigner.windowSlide ∧ timestamp < b}
        ∪ {b | b ∈ progression assigner.windowSize assigner.windowSlide ∧ timestamp < b} := by
    ext b
    exact or_and_right
  rw [hset]
  by_cases hts : timestamp < assigner.windowSize
  · rw [getSliceEndTs, if_pos hts]
    exact hslide.union (isLeast_progression_of_lt hts)
  · rw [getSliceEndTs, if_neg hts]
    exact hslide.union (isLeast_progression assigner.windowSlide_pos (by omega))

variable (assigner) in
lemma isCell_slice : IsCell assigner.boundaries timestamp (assigner.getSliceStartTs timestamp)
      (assigner.getSliceEndTs timestamp) :=
  ⟨isGreatest_getSliceStartTs timestamp, isLeast_getSliceEndTs timestamp⟩

variable (assigner) in
lemma sliceStart_le : assigner.getSliceStartTs timestamp ≤ timestamp :=
  (isCell_slice assigner timestamp).lo_le

variable (assigner) in
lemma lt_sliceEnd : timestamp < assigner.getSliceEndTs timestamp :=
  (isCell_slice assigner timestamp).lt_hi

lemma sliceOf_eq_of_sliceEnd {t t' : Nat}
    (h : assigner.getSliceEndTs t = assigner.getSliceEndTs t') : assigner.sliceOf t = assigner.sliceOf t' := by
  have hcell' := isCell_slice assigner t'
  rw [← h] at hcell'
  rw [sliceOf, sliceOf, Slice.mk.injEq]
  exact ⟨(isCell_slice assigner t).lo_eq_of_hi_eq hcell', h⟩

lemma sliceOf_eq_of_mem {t t' : Nat} (hstart : assigner.getSliceStartTs t ≤ t')
    (hend : t' < assigner.getSliceEndTs t) : assigner.sliceOf t' = assigner.sliceOf t := by
  have hunique := (isCell_slice assigner t').unique ((isCell_slice assigner t).of_mem hstart hend)
  rw [sliceOf, sliceOf, Slice.mk.injEq]
  exact hunique

variable (assigner) in
/-- Slices partition time: a timestamp lies in its slice, all timestamps of a slice have that slice, two
slices are equal or disjoint, and the end of a slice determines it. -/
theorem slices_partition_time (timestamp : Nat) :
    assigner.getSliceStartTs timestamp ≤ timestamp ∧ timestamp < assigner.getSliceEndTs timestamp ∧
      (∀ t, assigner.getSliceStartTs timestamp ≤ t → t < assigner.getSliceEndTs timestamp →
        assigner.getSliceStartTs t = assigner.getSliceStartTs timestamp ∧
          assigner.getSliceEndTs t = assigner.getSliceEndTs timestamp) ∧
      (∀ t, assigner.sliceOf t = assigner.sliceOf timestamp ∨
        Disjoint (Set.Ico (assigner.getSliceStartTs t) (assigner.getSliceEndTs t))
          (Set.Ico (assigner.getSliceStartTs timestamp) (assigner.getSliceEndTs timestamp))) ∧
      ∀ t, assigner.getSliceEndTs t = assigner.getSliceEndTs timestamp →
        assigner.sliceOf t = assigner.sliceOf timestamp := by
  refine ⟨sliceStart_le assigner timestamp, lt_sliceEnd assigner timestamp, ?_, ?_, fun t => sliceOf_eq_of_sliceEnd⟩
  · intro t hstart hend
    exact Slice.mk.inj (sliceOf_eq_of_mem hstart hend)
  · intro t
    by_cases hdisjoint : Disjoint (Set.Ico (assigner.getSliceStartTs t) (assigner.getSliceEndTs t))
        (Set.Ico (assigner.getSliceStartTs timestamp) (assigner.getSliceEndTs timestamp))
    · exact .inr hdisjoint
    · -- a common timestamp has both slices
      rcases Set.not_disjoint_iff.1 hdisjoint with ⟨u, hu, hu'⟩
      exact .inl ((sliceOf_eq_of_mem hu.1 hu.2).symm.trans (sliceOf_eq_of_mem hu'.1 hu'.2))

lemma IsWindow.covers_iff (hw : assigner.IsWindow w) (timestamp : Nat) :
    w.Covers (assigner.sliceOf timestamp) ↔ w.Contains timestamp := by
  have hcell := isCell_slice assigner timestamp
  constructor
  · rintro ⟨hstart, hend⟩
    exact ⟨hstart.trans hcell.lo_le, lt_of_lt_of_le hcell.lt_hi hend⟩
  · rintro ⟨hstart, hend⟩
    exact ⟨hcell.le_lo hw.windowStart_mem hstart, hcell.hi_le hw.windowEnd_mem hend⟩

/-! ## The windows of a slice -/

lemma create_sub (windowEnd size : Nat) :
    WindowInfo.create (windowEnd - size) windowEnd = ⟨windowEnd - size, windowEnd⟩ :=
  if_neg (Nat.not_lt.2 (Nat.sub_le _ _))

lemma mem_windowsFrom {lastWindowEnd fuel : Nat} (cur : Nat) (hfuel : lastWindowEnd + 1 - cur ≤ fuel) :
    w ∈ assigner.windowsFrom lastWindowEnd fuel cur ↔ ∃ k, cur + assigner.windowSlide * k ≤ lastWindowEnd ∧
        w = ⟨cur + assigner.windowSlide * k - assigner.windowSize, cur + assigner.windowSlide * k⟩ := by
  have hpos := assigner.windowSlide_pos
  induction fuel generalizing cur with
  | zero =>
    constructor
    · intro h
      cases h
    · rintro ⟨k, hk, _⟩
      exact absurd hk (by omega)
  | succ fuel ih =>
    by_cases hcur : cur ≤ lastWindowEnd
    · have hrest := ih (cur + assigner.windowSlide) (by omega)
      rw [windowsFrom, if_pos hcur, List.mem_cons, create_sub]
      refine .trans (or_congr .rfl hrest) ?_
      constructor
      · rintro (rfl | ⟨k, hk, rfl⟩)
        · exact ⟨0, by simpa using hcur, by simp⟩
        · have hmul : assigner.windowSlide * (k + 1) = assigner.windowSlide * k + assigner.windowSlide :=
            Nat.mul_succ _ _
          refine ⟨k + 1, by omega, ?_⟩
          rw [WindowInfo.mk.injEq]
          omega
      · rintro ⟨k, hk, rfl⟩
        cases k with
        | zero => exact .inl (by simp)
        | succ k =>
          have hmul : assigner.windowSlide * (k + 1) = assigner.windowSlide * k + assigner.windowSlide :=
            Nat.mul_succ _ _
          refine .inr ⟨k, by omega, ?_⟩
          rw [WindowInfo.mk.injEq]
          omega
    · rw [windowsFrom, if_neg hcur]
      constructor
      · intro h
        cases h
      · rintro ⟨k, hk, _⟩
        exact absurd hk (by omega)

lemma windowsFrom_sorted (lastWindowEnd fuel cur : Nat) :
    (assigner.windowsFrom lastWindowEnd fuel cur).Pairwise (fun a b => a.windowEnd < b.windowEnd) ∧
      ∀ w ∈ assigner.windowsFrom lastWindowEnd fuel cur, cur ≤ w.windowEnd := by
  have hpos := assigner.windowSlide_pos
  induction fuel generalizing cur with
  | zero => simp [windowsFrom]
  | succ fuel ih =>
    rcases ih (cur + assigner.windowSlide) with ⟨hsorted, hge⟩
    unfold windowsFrom
    split_ifs
    · rw [create_sub]
      refine ⟨List.pairwise_cons.2 ⟨fun w hw => ?_, hsorted⟩, fun w hw => ?_⟩
      · have := hge w hw
        simp only
        omega
      · rcases List.mem_cons.1 hw with rfl | hw
        · exact Nat.le_refl _
        · exact Nat.le_trans (Nat.le_add_right _ _) (hge w hw)
    · simp

variable (assigner) in
lemma getAllWindowsForSlice_sorted (slice : Slice) :
    (assigner.getAllWindowsForSlice slice).Pairwise fun a b => a.windowEnd < b.windowEnd := by
  simp only [getAllWindowsForSlice]
  split_ifs
  · exact (windowsFrom_sorted _ _ _).1
  · exact (windowsFrom_sorted _ _ _).1

/-- A slice that ends with no window, although a window could already have ended, starts where a window
ends. -/
lemma isCell_of_not_windowEnd {timestamp : Nat}
    (hend : (max (assigner.getSliceEndTs timestamp) assigner.windowSize - assigner.windowSize)
      % assigner.windowSlide ≠ 0) :
    ∃ m q, assigner.getSliceEndTs timestamp = assigner.windowSlide * m ∧
      assigner.windowSize < assigner.getSliceEndTs timestamp ∧
      assigner.getSliceStartTs timestamp = assigner.windowSize + assigner.windowSlide * q ∧
      assigner.getSliceEndTs timestamp < assigner.getSliceStartTs timestamp + assigner.windowSlide := by
  have hcell := isCell_slice assigner timestamp
  generalize assigner.getSliceStartTs timestamp = lo at hcell ⊢
  generalize assigner.getSliceEndTs timestamp = hi at hcell hend ⊢
  have hpos := assigner.windowSlide_pos
  have hsize : assigner.windowSize < hi := by
    rcases Nat.lt_or_ge assigner.windowSize hi with hlt | hge
    · exact hlt
    · rw [Nat.max_eq_right hge, Nat.sub_self, Nat.zero_mod] at hend
      exact absurd rfl hend
  rw [Nat.max_eq_left hsize.le] at hend
  have hnot : hi ∉ progression assigner.windowSize assigner.windowSlide := fun hmem =>
    hend (Nat.mod_eq_zero_of_dvd hmem.2)
  -- the last window end that is not behind the slice; it is a boundary, so it is not behind the start
  have hgreatest := isGreatest_progression (d := assigner.windowSlide) hsize.le
  have hmod := Nat.mod_lt (hi - assigner.windowSize) hpos
  generalize hg : hi - (hi - assigner.windowSize) % assigner.windowSlide = g at hgreatest
  have hglo : g ≤ lo := by
    refine hcell.le_lo (.inr hgreatest.1.1) ?_
    by_contra hlt
    have := hcell.hi_le (.inr hgreatest.1.1) (Nat.lt_of_not_le hlt)
    omega
  have hlohi : lo < hi := lt_of_le_of_lt hcell.lo_le hcell.lt_hi
  rcases hcell.least.1.1 with hmul | hwindow
  swap
  · exact absurd hwindow hnot
  rcases mem_progression_iff.1 hmul with ⟨m, hm⟩
  rw [Nat.zero_add] at hm
  have hlo : lo ∈ progression assigner.windowSize assigner.windowSlide := by
    rcases hcell.greatest.1.1 with hlomul | hlowindow
    · -- between two neighbouring multiples of the slide there is no third one
      rcases mem_progression_iff.1 hlomul with ⟨a, ha⟩
      rw [Nat.zero_add] at ha
      have ham : a < m := by
        refine Nat.lt_of_mul_lt_mul_left (a := assigner.windowSlide) ?_
        rw [← ha, ← hm]
        exact hlohi
      have hmul' := Nat.mul_le_mul_left assigner.windowSlide ham
      rw [Nat.mul_succ] at hmul'
      omega
    · exact hlowindow
  rcases mem_progression_iff.1 hlo with ⟨q, hq⟩
  exact ⟨m, q, hm, hsize, hq, by omega⟩

lemma mem_getAllWindowsForSlice {timestamp : Nat} : w ∈ assigner.getAllWindowsForSlice (assigner.sliceOf timestamp) ↔
      assigner.IsWindow w ∧ w.Contains timestamp := by
  have hcell := isCell_slice assigner timestamp
  have hpos := assigner.windowSlide_pos
  rw [isWindow_iff]
  by_cases hend : (max (assigner.sliceOf timestamp).sliceEnd assigner.windowSize - assigner.windowSize)
      % assigner.windowSlide ≠ 0
  · simp only [getAllWindowsForSlice, if_pos hend]
    rw [mem_windowsFrom _ (Nat.le_refl _)]
    rcases isCell_of_not_windowEnd hend with ⟨m, q, hm, hsize, hq, hlt⟩
    simp only [sliceOf, Nat.max_eq_left hsize.le]
    generalize assigner.getSliceStartTs timestamp = lo at *
    generalize assigner.getSliceEndTs timestamp = hi at *
    have hlo := hcell.lo_le
    have hhi := hcell.lt_hi
    constructor
    · rintro ⟨k, hk, rfl⟩
      have hmul := Nat.mul_add assigner.windowSlide q (k + 1)
      rw [Nat.mul_succ] at hmul
      refine ⟨⟨q + (k + 1), ?_⟩, ?_⟩
      · rw [WindowInfo.mk.injEq]
        omega
      · simp only [WindowInfo.Contains]
        omega
    · rintro ⟨⟨j, rfl⟩, hstart, hstop⟩
      simp only at hstart hstop
      -- `lo` is the end of window `q`, so the window is a later one
      have hqj : q < j := by
        refine Nat.lt_of_mul_lt_mul_left (a := assigner.windowSlide) ?_
        omega
      have hjm : j < m := by
        refine Nat.lt_of_mul_lt_mul_left (a := assigner.windowSlide) ?_
        omega
      have hmulj := Nat.mul_le_mul_left assigner.windowSlide hjm
      rw [Nat.mul_succ] at hmulj
      rcases Nat.exists_eq_add_of_lt hqj with ⟨k, rfl⟩
      have hmulk := Nat.mul_add assigner.windowSlide q (k + 1)
      rw [Nat.mul_succ, ← Nat.add_assoc] at hmulk
      refine ⟨k, by omega, ?_⟩
      rw [WindowInfo.mk.injEq]
      omega
  · simp only [getAllWindowsForSlice, if_neg hend]
    rw [mem_windowsFrom _ (Nat.le_refl _)]
    -- the slice ends with the window that starts at `slide * m`
    rcases Nat.dvd_of_mod_eq_zero (not_not.1 hend) with ⟨m, hm⟩
    simp only [sliceOf] at hm ⊢
    generalize assigner.getSliceStartTs timestamp = lo at *
    generalize assigner.getSliceEndTs timestamp = hi at *
    have hlo := hcell.lo_le
    have hhi := hcell.lt_hi
    constructor
    · rintro ⟨k, hk, rfl⟩
      have hmul := Nat.mul_add assigner.windowSlide m k
      refine ⟨⟨m + k, ?_⟩, ?_⟩
      · rw [WindowInfo.mk.injEq]
        omega
      · simp only [WindowInfo.Contains]
        omega
    · rintro ⟨⟨j, rfl⟩, hcontains⟩
      have hwindow : assigner.IsWindow
          ⟨assigner.windowSlide * j, assigner.windowSlide * j + assigner.windowSize⟩ := isWindow_iff.2 ⟨j, rfl⟩
      have hstart := hcell.le_lo hwindow.windowStart_mem hcontains.1
      have hstop := hcell.hi_le hwindow.windowEnd_mem hcontains.2
      simp only at hstart hstop
      have hmj : m ≤ j := by
        refine Nat.le_of_mul_le_mul_left (c := assigner.windowSlide) ?_ hpos
        omega
      rcases Nat.exists_eq_add_of_le hmj with ⟨k, rfl⟩
      have hmul := Nat.mul_add assigner.windowSlide m k
      refine ⟨k, by omega, ?_⟩
      rw [WindowInfo.mk.injEq]
      omega

/-- The unsigned subtraction of the slide does not go below zero: the slice ends at a multiple of it. -/
lemma windowSlide_le_of_not_windowEnd {timestamp : Nat}
    (hend : (max (assigner.getSliceEndTs timestamp) assigner.windowSize - assigner.windowSize)
      % assigner.windowSlide ≠ 0) : assigner.windowSlide ≤ assigner.getSliceEndTs timestamp := by
  rcases isCell_of_not_windowEnd hend with ⟨m, q, hm, hsize, -, -⟩
  exact Nat.le_of_dvd (Nat.zero_lt_of_lt hsize) ⟨m, hm⟩

/-! ## Sixty-four bits -/

section

variable {timestamp : Nat} (h : timestamp + assigner.windowSize + assigner.windowSlide < 2 ^ 64)
include h

/-- The sums and differences of `getSliceEndTs` and of `getAllWindowsForSlice` do not wrap around. -/
lemma sums_lt : timestamp + assigner.windowSlide < 2 ^ 64 ∧
      assigner.getSliceStartTs timestamp + assigner.windowSize < 2 ^ 64 ∧
      assigner.getSliceStartTs timestamp + assigner.windowSlide < 2 ^ 64 ∧
      ((max (assigner.getSliceEndTs timestamp) assigner.windowSize - assigner.windowSize) % assigner.windowSlide ≠ 0 →
        max (assigner.getSliceEndTs timestamp) assigner.windowSize + assigner.windowSize < 2 ^ 64 ∧
        assigner.windowSlide ≤ max (assigner.getSliceEndTs timestamp) assigner.windowSize + assigner.windowSize) := by
  have hstart := sliceStart_le assigner timestamp
  refine ⟨by omega, by omega, by omega, fun hnot => ?_⟩
  have hslide := windowSlide_le_of_not_windowEnd hnot
  rcases isCell_of_not_windowEnd hnot with ⟨_, _, _, hsize, _, hend⟩
  omega

/-- Neither does the loop over the window ends, and no window starts below zero. -/
lemma windowEnd_add_lt (hw : w ∈ assigner.getAllWindowsForSlice (assigner.sliceOf timestamp)) :
    w.windowEnd + assigner.windowSlide < 2 ^ 64 ∧ assigner.windowSize ≤ w.windowEnd := by
  rcases mem_getAllWindowsForSlice.1 hw with ⟨⟨_, hend⟩, hstart, _⟩
  omega

end

variable (assigner) in
/-- The windows of the slice of a timestamp are the windows that contain the timestamp, each once and in
ascending order. -/
theorem windows_of_slice (timestamp : Nat) : (∀ w, w ∈ assigner.getAllWindowsForSlice (assigner.sliceOf timestamp) ↔
      (∃ k, w = ⟨assigner.windowSlide * k, assigner.windowSlide * k + assigner.windowSize⟩) ∧ w.Contains timestamp) ∧
      (assigner.getAllWindowsForSlice (assigner.sliceOf timestamp)).Pairwise
        (fun a b => a.windowStart < b.windowStart) ∧
      (assigner.getAllWindowsForSlice (assigner.sliceOf timestamp)).Nodup ∧
      ((∀ w, assigner.IsWindow w → ¬ w.Contains timestamp) →
        assigner.getAllWindowsForSlice (assigner.sliceOf timestamp) = []) := by
  have hsorted := getAllWindowsForSlice_sorted assigner (assigner.sliceOf timestamp)
  refine ⟨fun w => ?_, ?_, ?_, fun hnone => List.eq_nil_iff_forall_not_mem.2 fun w hw => ?_⟩
  · rw [mem_getAllWindowsForSlice, isWindow_iff]
  · refine hsorted.imp_of_mem fun {a b} ha hb hlt => ?_
    -- both are windows of one size, so their starts are in the order of their ends
    have hA := (mem_getAllWindowsForSlice.1 ha).1.2
    have hB := (mem_getAllWindowsForSlice.1 hb).1.2
    omega
  · exact hsorted.imp fun hlt heq => absurd (congrArg WindowInfo.windowEnd heq) (Nat.ne_of_lt hlt)
  · rcases mem_getAllWindowsForSlice.1 hw with ⟨hwindow, hcontains⟩
    exact hnone w hwindow hcontains

end SliceAssigner

end MobilityNebula.SliceStore
