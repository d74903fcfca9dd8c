import MobilityNebula.Library.TransitionSystem
import MobilityNebula.Nautilus.PagedVector

/-!
# SharedPages — paged vectors that share tuple buffers

`copyFrom` does not copy records: it puts the tuple buffers of the other vector into this one, so a record that
is written later on a page of one of them appears in the other.  Here several vectors work on one memory of
buffers, each with its own list of buffers and cumulative sums; `view` is the vector a reader sees.

As long as every record goes to a page that no other place refers to (`writesAlone`), each vector is the list
of its records (`vectors_are_lists`).
-/

namespace MobilityNebula.Nautilus

open Library PagedVector Function List

universe u

/-- The records on each buffer, the number of buffers so far, and the pages of each vector: the cumulative sum
and the buffer. -/
structure SharedPages (ι α : Type u) where
  buffers : Nat → List α
  allocated : Nat
  pages : ι → List (Nat × Nat)

inductive PagesOperation (ι α : Type u) where
  | writeRecord (i : ι) (record : α)
  | copyFrom (i j : ι)
  | moveAllPages (i j : ι)

namespace SharedPages

variable {ι α : Type u}

def create : SharedPages ι α := ⟨fun _ => [], 0, fun _ => []⟩

variable (s : SharedPages ι α)

def view (i : ι) : PagedVector α := ⟨(s.pages i).map fun page => ⟨page.1, s.buffers page.2⟩⟩

def buffersOf (i : ι) : List Nat := (s.pages i).map Prod.snd

lemma records_view (i : ι) : (s.view i).pages.map Page.records = (s.buffersOf i).map s.buffers := by
  rw [view, buffersOf, map_map, map_map]
  rfl

lemma view_congr {s s' : SharedPages ι α} {k : ι} (hpages : s'.pages k = s.pages k)
    (hbuffers : ∀ id ∈ s.buffersOf k, s'.buffers id = s.buffers id) : s'.view k = s.view k := by
  rw [view, hpages, view, PagedVector.mk.injEq]
  refine map_congr_left fun page hmem => ?_
  rw [hbuffers _ (mem_map_of_mem hmem)]

variable (capacity : Nat)

/-- The buffer of the last page, if it is not full. -/
def lastWithSpace (s : SharedPages ι α) (i : ι) : Option Nat :=
  (s.buffersOf i).getLast?.filter fun id => (s.buffers id).length < capacity

variable [DecidableEq ι]

/-- A vector gets the sums of the given vector, on the given buffers. -/
def setPages (i : ι) (vector : PagedVector α) (ids : List Nat) : SharedPages ι α :=
  { s with pages := update s.pages i ((vector.pages.map Page.cumulativeSum).zip ids) }

def writeRecord (s : SharedPages ι α) (i : ι) (record : α) : SharedPages ι α :=
  match s.lastWithSpace capacity i with
  | some id => { s with buffers := update s.buffers id (s.buffers id ++ [record]) }
  | none =>
    let s' := s.setPages i (s.view i).addPage (s.buffersOf i ++ [s.allocated])
    { s' with buffers := update s.buffers s.allocated [record], allocated := s.allocated + 1 }

def copyFrom (i j : ι) : SharedPages ι α :=
  s.setPages i ((s.view i).copyFrom (s.view j)) (s.buffersOf i ++ s.buffersOf j)

def moveAllPages (i j : ι) : SharedPages ι α :=
  (s.copyFrom i j).setPages j PagedVector.create []

/-- The vectors next to the lists they stand for. -/
def step (s : SharedPages ι α × (ι → List α)) :
    PagesOperation ι α → Option (SharedPages ι α × (ι → List α))
  | .writeRecord i record => some (s.1.writeRecord capacity i record, update s.2 i (s.2 i ++ [record]))
  | .copyFrom i j => some (s.1.copyFrom i j, update s.2 i (s.2 i ++ s.2 j))
  | .moveAllPages i j =>
    some (s.1.moveAllPages i j, update (update s.2 i (s.2 i ++ s.2 j)) j [])

/-- A record is written on a new page, or on a page that is found once in its vector and in no other one. -/
def writesAlone (s : SharedPages ι α × (ι → List α)) : PagesOperation ι α → Prop
  | .writeRecord i _ => ∀ id, s.1.lastWithSpace capacity i = some id →
      id ∉ (s.1.buffersOf i).dropLast ∧ ∀ k, k ≠ i → id ∉ s.1.buffersOf k
  | .copyFrom i j | .moveAllPages i j => i ≠ j

instance [Fintype ι] (s : SharedPages ι α × (ι → List α)) :
    (operation : PagesOperation ι α) → Decidable (writesAlone capacity s operation)
  | .writeRecord i _ => inferInstanceAs (Decidable (∀ id ∈ s.1.lastWithSpace capacity i,
      id ∉ (s.1.buffersOf i).dropLast ∧ ∀ k, k ≠ i → id ∉ s.1.buffersOf k))
  | .copyFrom i j | .moveAllPages i j => inferInstanceAs (Decidable (¬i = j))

/-! ## What an operation does to the views -/

variable {s} {i j k : ι}

lemma writeOnLastPage_concat (record : α) (pages : List (Page α)) (page : Page α) :
    writeOnLastPage record (pages ++ [page]) = pages ++ [{ page with records := page.records ++ [record] }] := by
  induction pages with
  | nil => rfl
  | cons first rest ih =>
    cases rest with
    | nil => rfl
    | cons next rest => exact congrArg (first :: ·) ih

variable {ids : List Nat}

/-- Pages are put together from their sums and their records. -/
lemma map_zip_eq {buffers : Nat → List α} {pages : List (Page α)} (h : pages.map Page.records = ids.map buffers) :
    ((pages.map Page.cumulativeSum).zip ids).map (fun page => (⟨page.1, buffers page.2⟩ : Page α)) = pages := by
  induction pages generalizing ids with
  | nil => rfl
  | cons page rest ih =>
    cases ids with
    | nil => cases h
    | cons id ids =>
      rcases cons.inj h with ⟨hpage, hrest⟩
      rw [map_cons, zip_cons_cons, map_cons, ih hrest, ← hpage]

lemma view_setPages {vector : PagedVector α}
    (h : vector.pages.map Page.records = ids.map s.buffers) : (s.setPages i vector ids).view i = vector := by
  simp only [view, setPages, update_self]
  rw [map_zip_eq h]

lemma view_setPages_of_ne (vector : PagedVector α) (ids : List Nat) (hk : k ≠ i) :
    (s.setPages i vector ids).view k = s.view k :=
  view_congr (update_of_ne hk _ _) fun _ _ => rfl

lemma bound_setPages {n : Nat} (hbound : ∀ k, ∀ id ∈ s.buffersOf k, id < n) (vector : PagedVector α)
    (hids : ∀ id ∈ ids, id < n) (k : ι) : ∀ id ∈ (s.setPages i vector ids).buffersOf k, id < n := by
  intro id hmem
  by_cases hk : k = i
  · simp only [buffersOf, setPages, hk, update_self] at hmem
    rcases mem_map.1 hmem with ⟨page, hpage, rfl⟩
    exact hids _ (of_mem_zip hpage).2
  · simp only [buffersOf, setPages, update_of_ne hk] at hmem
    exact hbound k id hmem

lemma view_copyFrom (s : SharedPages ι α) (i j : ι) : (s.copyFrom i j).view i = (s.view i).copyFrom (s.view j) := by
  refine view_setPages ?_
  rw [PagedVector.copyFrom, updateCumulativeSumAllPages, records_updateAllFrom, map_append, records_view,
    records_view, map_append]

/-- A record that goes to a page of its own is written as in a vector that shares nothing. -/
lemma view_writeRecord (capacity : Nat) (record : α) (hbound : ∀ k, ∀ id ∈ s.buffersOf k, id < s.allocated)
    (halone : ∀ id, s.lastWithSpace capacity i = some id →
      id ∉ (s.buffersOf i).dropLast ∧ ∀ k, k ≠ i → id ∉ s.buffersOf k) :
    (s.writeRecord capacity i record).view i = (s.view i).writeRecord capacity record ∧
      ∀ k, k ≠ i → (s.writeRecord capacity i record).view k = s.view k := by
  have hlast : (s.view i).pages.getLast? = (s.pages i).getLast?.map fun page => ⟨page.1, s.buffers page.2⟩ :=
    getLast?_map
  have hids : (s.buffersOf i).getLast? = (s.pages i).getLast?.map Prod.snd := getLast?_map
  -- without space on the last page both add a page
  have hnew : s.lastWithSpace capacity i = none → (s.view i).appendPageIfFull capacity = (s.view i).addPage := by
    intro hnone
    rw [lastWithSpace, hids] at hnone
    rw [appendPageIfFull, hlast]
    cases hpage : (s.pages i).getLast? with
    | none => rfl
    | some page =>
      rw [hpage, Option.map_some, Option.filter_some] at hnone
      exact if_pos (by simpa using hnone)
  rw [writeRecord]
  cases hspace : s.lastWithSpace capacity i with
  | none =>
    have hfresh : ∀ k, ∀ id ∈ s.buffersOf k, update s.buffers s.allocated [record] id = s.buffers id :=
      fun k id hmem => update_of_ne (Nat.ne_of_lt (hbound k id hmem)) _ _
    constructor
    · have hrecords : (updateCumulativeSumLastItem (s.view i).pages ++ [(⟨0, [record]⟩ : Page α)]).map Page.records
          = (s.buffersOf i ++ [s.allocated]).map (update s.buffers s.allocated [record]) := by
        rw [map_append, updateCumulativeSumLastItem, records_updateLastFrom, records_view, map_append,
          map_congr_left (hfresh i), map_singleton, map_singleton, update_self]
      have hzip := map_zip_eq hrecords
      rw [map_append, map_singleton] at hzip
      rw [PagedVector.writeRecord, hnew hspace, addPage, writeOnLastPage_concat]
      simp only [view, setPages, update_self, map_append, map_singleton]
      exact congrArg PagedVector.mk hzip
    · intro k hk
      exact view_congr (update_of_ne hk _ _) (hfresh k)
  | some id =>
    rcases halone id hspace with ⟨hdrop, hothers⟩
    rcases Option.filter_eq_some_iff.1 hspace with ⟨hgetLast, hlt⟩
    rw [hids] at hgetLast
    rcases Option.map_eq_some_iff.1 hgetLast with ⟨last, hpage, rfl⟩
    rcases getLast?_eq_some_iff.1 hpage with ⟨front, hfront⟩
    constructor
    · have hstay : (s.view i).appendPageIfFull capacity = s.view i := by
        rw [appendPageIfFull, hlast, hpage]
        exact if_neg (by simpa using hlt)
      have hfirst : ∀ page ∈ front, page.2 ≠ last.2 := by
        intro page hmem heq
        rw [buffersOf, hfront, map_append, map_singleton, dropLast_concat, ← heq] at hdrop
        exact hdrop (mem_map_of_mem hmem)
      rw [PagedVector.writeRecord, hstay]
      simp only [view, hfront, map_append, map_singleton, writeOnLastPage_concat, update_self]
      congr 2
      refine map_congr_left fun page hmem => ?_
      rw [update_of_ne (hfirst page hmem)]
    · intro k hk
      exact view_congr rfl fun id hmem => update_of_ne (ne_of_mem_of_not_mem hmem (hothers k hk)) _ _

/-! ## Runs -/

structure IsLists (s : SharedPages ι α) (contents : ι → List α) : Prop where
  bound : ∀ k, ∀ id ∈ s.buffersOf k, id < s.allocated
  wellFormed : ∀ k, (s.view k).WellFormed
  toList_eq : ∀ k, (s.view k).toList = contents k

namespace IsLists

variable {contents : ι → List α} (h : IsLists s contents)
include h

lemma update {s' : SharedPages ι α} {l : List α} (hbound : ∀ k, ∀ id ∈ s'.buffersOf k, id < s'.allocated)
    (hview : (s'.view i).WellFormed ∧ (s'.view i).toList = l) (hothers : ∀ k, k ≠ i → s'.view k = s.view k) :
    IsLists s' (update contents i l) := by
  refine ⟨hbound, fun k => ?_, fun k => ?_⟩
  · by_cases hk : k = i
    · exact hk ▸ hview.1
    · exact hothers k hk ▸ h.wellFormed k
  · by_cases hk : k = i
    · simp only [hk, hview.2, update_self]
    · simp only [hothers k hk, update_of_ne hk, h.toList_eq k]

lemma writeRecord {capacity : Nat} {record : α} (halone : writesAlone capacity (s, contents) (.writeRecord i record)) :
    IsLists (s.writeRecord capacity i record) (Function.update contents i (contents i ++ [record])) := by
  rcases view_writeRecord capacity record h.bound halone with ⟨hview, hothers⟩
  refine h.update ?_ ?_ hothers
  · simp only [SharedPages.writeRecord]
    cases s.lastWithSpace capacity i with
    | some _ => exact h.bound
    | none =>
      refine bound_setPages (fun k id hmem => Nat.lt_succ_of_lt (h.bound k id hmem)) _ fun id hmem => ?_
      rcases mem_append.1 hmem with hold | hnew
      · exact Nat.lt_succ_of_lt (h.bound i id hold)
      · exact Nat.lt_succ_of_le (Nat.le_of_eq (mem_singleton.1 hnew))
  · rw [hview, ← h.toList_eq i]
    exact (h.wellFormed i).writeRecord capacity record

lemma copyFrom (i j : ι) : IsLists (s.copyFrom i j) (Function.update contents i (contents i ++ contents j)) := by
  refine h.update (bound_setPages h.bound _ fun id hmem => ?_) ?_ fun k => view_setPages_of_ne _ _
  · rcases mem_append.1 hmem with hi | hj
    · exact h.bound i id hi
    · exact h.bound j id hj
  · rw [view_copyFrom, ← h.toList_eq i, ← h.toList_eq j]
    exact (h.wellFormed i).copyFrom (h.wellFormed j)

lemma clear (j : ι) : IsLists (s.setPages j PagedVector.create []) (Function.update contents j []) := by
  refine h.update (bound_setPages h.bound _ (by simp)) ?_ fun k => view_setPages_of_ne _ _
  rw [view_setPages rfl]
  exact ⟨.create, toList_create⟩

end IsLists

/-- In every run in which each record is written on a page of its own, every vector is the list of its
records. -/
theorem vectors_are_lists (capacity : Nat) {t : SharedPages ι α × (ι → List α)}
    (h : Reachable (create, fun _ => []) (writesAlone capacity) (step capacity) t) (i : ι) :
    (t.1.view i).toList = t.2 i ∧ (t.1.view i).getTotalNumberOfEntries = (t.2 i).length ∧
      (∀ pos, (t.1.view i).readRecord pos = (t.2 i)[pos]?) ∧ (t.1.view i).iterate = some (t.2 i) := by
  have hlists : IsLists t.1 t.2 := by
    have hcreate : IsLists (create : SharedPages ι α) fun _ => [] :=
      ⟨by simp [buffersOf, create], fun _ => .create, fun _ => rfl⟩
    refine h.invariant (fun t => IsLists t.1 t.2) hcreate ?_
    rintro ⟨s, contents⟩ operation s' hinv henabled hstep
    cases operation with
    | writeRecord i record =>
      cases hstep
      exact hinv.writeRecord henabled
    | copyFrom i j =>
      cases hstep
      exact hinv.copyFrom i j
    | moveAllPages i j =>
      cases hstep
      exact (hinv.copyFrom i j).clear j
  have hwf := hlists.wellFormed i
  have htoList := hlists.toList_eq i
  refine ⟨htoList, ?_, fun pos => ?_, ?_⟩
  · rw [hwf.getTotalNumberOfEntries_eq, htoList]
  · rw [hwf.readRecord_eq, htoList]
  · rw [hwf.iterate_eq, htoList]

/-- The second vector copies the full page of the first one, gets two records on a page of its own, and is moved
behind the first one. -/
def copyAndMove : List (PagesOperation Bool Nat) :=
  [.writeRecord true 1, .writeRecord true 2, .copyFrom false true, .writeRecord false 3, .writeRecord false 4,
    .moveAllPages true false]

theorem vectors_are_lists_copyAndMove :
    ∃ t, runGuarded (writesAlone 2) (step 2) (create, fun _ => []) copyAndMove = some t ∧
      (t.1.view true).iterate = some [1, 2, 1, 2, 3, 4] ∧ (t.1.view false).iterate = some [] := by
  have hrun : ∃ t, runGuarded (writesAlone 2) (step 2) (create, fun _ => []) copyAndMove = some t ∧
      t.2 true = [1, 2, 1, 2, 3, 4] ∧ t.2 false = [] := ⟨_, rfl, rfl, rfl⟩
  rcases hrun with ⟨t, hrun, htrue, hfalse⟩
  have hlists := vectors_are_lists 2 (Reachable.initial.of_runGuarded hrun)
  exact ⟨t, hrun, htrue ▸ (hlists true).2.2.2, hfalse ▸ (hlists false).2.2.2⟩

/-- After `A.copyFrom(B)` a record written to `B` is found in `A` as well. -/
theorem record_appears_in_copy :
    (((((create : SharedPages Bool Nat).writeRecord 2 true 1).copyFrom false true).writeRecord 2 true 2).view
        false).toList = [1, 2] ∧
      (runFrom (step 2) (create, fun _ => [])
        [.writeRecord true 1, .copyFrom false true, .writeRecord true 2]).map (fun t => t.2 false) = some [1] := by
  decide

end SharedPages

end MobilityNebula.Nautilus
