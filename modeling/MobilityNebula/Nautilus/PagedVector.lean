import Mathlib

/-!
# PagedVector — records on pages

Embedding of `PagedVector.cpp` and `PagedVectorRef.cpp`.  Each page knows the number of records on it and on
the pages before it; the sum of the last page may be out of date, because writing a record does not update it.
A record is found by its position through these sums, or by an iterator that walks over a page and looks the
next page up.

The vector is the list of its records (`toList`): writing appends a record, taking over the pages of another
vector appends its records, and both ways of reading give the records of the list
(`WellFormed.readRecord_eq`, `WellFormed.iterate_eq`).
-/

namespace MobilityNebula.Nautilus

open List

universe u

/-! ## The vector -/

/-- A page and its cumulative sum. -/
structure Page (α : Type u) where
  cumulativeSum : Nat
  records : List α

structure PagedVector (α : Type u) where
  pages : List (Page α)

namespace PagedVector

variable {α β : Type u}

def create : PagedVector α := ⟨[]⟩

/-- Sets the sum of the last page, if the sum of the page before it is given. -/
def updateLastFrom : Nat → List (Page α) → List (Page α)
  | _, [] => []
  | penultimateSum, [page] => [{ page with cumulativeSum := page.records.length + penultimateSum }]
  | _, page :: next :: rest => page :: updateLastFrom page.cumulativeSum (next :: rest)

variable (pages : List (Page α))

def updateCumulativeSumLastItem : List (Page α) := updateLastFrom 0 pages

/-- Sets the sums of all pages, if the sum before the first one is given. -/
def updateAllFrom : Nat → List (Page α) → List (Page α)
  | _, [] => []
  | curCumulativeSum, page :: rest =>
    let cumulativeSum := page.records.length + curCumulativeSum
    { page with cumulativeSum := cumulativeSum } :: updateAllFrom cumulativeSum rest

def updateCumulativeSumAllPages : List (Page α) := updateAllFrom 0 pages

variable (vector : PagedVector α)

def addPage : PagedVector α := ⟨updateCumulativeSumLastItem vector.pages ++ [⟨0, []⟩]⟩

def appendPageIfFull (capacity : Nat) (vector : PagedVector α) : PagedVector α :=
  match vector.pages.getLast? with
  | none => vector.addPage
  | some lastPage => if capacity ≤ lastPage.records.length then vector.addPage else vector

def writeOnLastPage (record : α) : List (Page α) → List (Page α)
  | [] => []
  | [page] => [{ page with records := page.records ++ [record] }]
  | page :: next :: rest => page :: writeOnLastPage record (next :: rest)

def writeRecord (capacity : Nat) (vector : PagedVector α) (record : α) : PagedVector α :=
  ⟨writeOnLastPage record (vector.appendPageIfFull capacity).pages⟩

def copyFrom (vector other : PagedVector α) : PagedVector α :=
  ⟨updateCumulativeSumAllPages (vector.pages ++ other.pages)⟩

def moveAllPages (vector other : PagedVector α) : PagedVector α × PagedVector α := (vector.copyFrom other, create)

/-- The number of records, if the sum before the first page is given. -/
def totalFrom : Nat → List (Page α) → Nat
  | _, [] => 0
  | penultimateSum, [page] => penultimateSum + page.records.length
  | _, page :: next :: rest => totalFrom page.cumulativeSum (next :: rest)

def getTotalNumberOfEntries : Nat := totalFrom 0 vector.pages

/-- The last position on each page: from its sum, on the last page from the records on it. -/
def projectionsFrom : Nat → List (Page α) → List Nat
  | _, [] => []
  | penultimateSum, [page] => [penultimateSum + page.records.length - 1]
  | _, page :: next :: rest => (page.cumulativeSum - 1) :: projectionsFrom page.cumulativeSum (next :: rest)

/-- The page of a position: `std::ranges::lower_bound` over the last positions. -/
def findIdx (entryPos : Nat) : Option Nat :=
  if vector.getTotalNumberOfEntries ≤ entryPos then
    none
  else
    let index := (projectionsFrom 0 vector.pages).findIdx fun last => entryPos ≤ last
    if index < vector.pages.length then some index else none

def sumBefore : Nat → Nat
  | 0 => 0
  | index + 1 => (pages[index]?.map Page.cumulativeSum).getD 0

def getTupleBufferForEntry (entryPos : Nat) : Option (Page α) :=
  (vector.findIdx entryPos).bind fun index => vector.pages[index]?

def getBufferPosForEntry (entryPos : Nat) : Option Nat :=
  (vector.findIdx entryPos).map fun index => entryPos - sumBefore vector.pages index

def readRecord (pos : Nat) : Option α := do
  let page ← vector.getTupleBufferForEntry pos
  page.records[(vector.getBufferPosForEntry pos).getD 0]?

/-! ## Iterating -/

structure Iterator (α : Type u) where
  pos : Nat
  posOnPage : Nat
  curPage : Option (Page α)

def iteratorAt (pos : Nat) : Iterator α :=
  ⟨pos, (vector.getBufferPosForEntry pos).getD 0, vector.getTupleBufferForEntry pos⟩

def Iterator.read (it : Iterator α) : Option α := it.curPage.bind fun page => page.records[it.posOnPage]?

def Iterator.next (it : Iterator α) : Iterator α :=
  let pos := it.pos + 1
  let posOnPage := it.posOnPage + 1
  if ((it.curPage.map fun page => page.records.length).getD 0) ≤ posOnPage then
    if pos < vector.getTotalNumberOfEntries then vector.iteratorAt pos else ⟨pos, 0, it.curPage⟩
  else
    ⟨pos, posOnPage, it.curPage⟩

/-- A loop from an iterator to the end that counts the items; `remaining` is the distance of the positions. -/
def loopFrom (vector : PagedVector α) (body : Nat → α → Option (List β)) : Nat → Iterator α → Nat → Option (List β)
  | 0, _, _ => some []
  | remaining + 1, it, itemPos => do
    let record ← it.read
    let emitted ← body itemPos record
    let rest ← loopFrom vector body remaining (it.next vector) (itemPos + 1)
    some (emitted ++ rest)

/-- The loop from `begin` to `end`, with what its body emits. -/
def forEach (body : Nat → α → Option (List β)) : Option (List β) :=
  loopFrom vector body vector.getTotalNumberOfEntries (vector.iteratorAt 0) 0

def iterate : Option (List α) := vector.forEach fun _ record => some [record]

/-! ## The list of records -/

def toList : List α := vector.pages.flatMap Page.records

/-- Every page but the last has the number of records up to it as its sum. -/
def SumsFrom : Nat → List (Page α) → Prop
  | _, [] => True
  | _, [_] => True
  | sum, page :: next :: rest =>
    page.cumulativeSum = sum + page.records.length ∧ SumsFrom (sum + page.records.length) (next :: rest)

structure WellFormed (vector : PagedVector α) : Prop where
  sums : SumsFrom 0 vector.pages
  ne_nil : ∀ page ∈ vector.pages, page.records ≠ []

variable {vector}

lemma WellFormed.create : (create : PagedVector α).WellFormed := ⟨trivial, by simp [PagedVector.create]⟩

lemma toList_create : (create : PagedVector α).toList = [] := rfl

section Writing

variable {pages : List (Page α)}

lemma sumsFrom_writeOnLastPage {sum : Nat} (h : SumsFrom sum pages) (record : α) :
    SumsFrom sum (writeOnLastPage record pages) := by
  induction pages generalizing sum with
  | nil => trivial
  | cons page rest ih =>
    cases rest with
    | nil => trivial
    | cons next rest =>
      have hrest := ih h.2
      cases rest with
      | nil => exact ⟨h.1, hrest⟩
      | cons _ _ => exact ⟨h.1, hrest⟩

lemma flatMap_writeOnLastPage (hne : pages ≠ []) (record : α) :
    (writeOnLastPage record pages).flatMap Page.records = pages.flatMap Page.records ++ [record] := by
  induction pages with
  | nil => exact absurd rfl hne
  | cons page rest ih =>
    cases rest with
    | nil => simp [writeOnLastPage]
    | cons next rest =>
      calc (page :: writeOnLastPage record (next :: rest)).flatMap Page.records
          = page.records ++ ((next :: rest).flatMap Page.records ++ [record]) := by
            rw [flatMap_cons, ih (cons_ne_nil _ _)]
        _ = (page :: next :: rest).flatMap Page.records ++ [record] := (append_assoc _ _ _).symm

lemma ne_nil_writeOnLastPage (h : ∀ page ∈ pages.dropLast, page.records ≠ [])
    (record : α) : ∀ page ∈ writeOnLastPage record pages, page.records ≠ [] := by
  induction pages with
  | nil => simp [writeOnLastPage]
  | cons page rest ih =>
    cases rest with
    | nil => simp [writeOnLastPage]
    | cons next rest =>
      have hcons := forall_mem_cons.1 h
      exact forall_mem_cons.2 ⟨hcons.1, ih hcons.2⟩

/-- Once the sum of the last page is up to date, a page can be added. -/
lemma sumsFrom_updateLastFrom_append {sum : Nat} (h : SumsFrom sum pages) (page : Page α) :
    SumsFrom sum (updateLastFrom sum pages ++ [page]) := by
  induction pages generalizing sum with
  | nil => trivial
  | cons first rest ih =>
    cases rest with
    | nil => exact ⟨Nat.add_comm _ _, trivial⟩
    | cons next rest =>
      have hrest := ih h.2
      rw [← h.1] at hrest
      rw [updateLastFrom, cons_append]
      cases hupdate : updateLastFrom first.cumulativeSum (next :: rest) with
      | nil | cons _ _ =>
        rw [hupdate] at hrest
        exact ⟨h.1, h.1 ▸ hrest⟩

lemma records_updateLastFrom (sum : Nat) (pages : List (Page α)) :
    (updateLastFrom sum pages).map Page.records = pages.map Page.records := by
  induction pages generalizing sum with
  | nil => rfl
  | cons page rest ih =>
    cases rest with
    | nil => rfl
    | cons next rest => exact congrArg (page.records :: ·) (ih page.cumulativeSum)

lemma records_updateAllFrom (sum : Nat) (pages : List (Page α)) :
    (updateAllFrom sum pages).map Page.records = pages.map Page.records := by
  induction pages generalizing sum with
  | nil => rfl
  | cons page rest ih => rw [updateAllFrom, map_cons, ih, map_cons]

lemma sumsFrom_updateAllFrom (sum : Nat) (pages : List (Page α)) : SumsFrom sum (updateAllFrom sum pages) := by
  induction pages generalizing sum with
  | nil => trivial
  | cons page rest ih =>
    have hrest := ih (page.records.length + sum)
    cases rest with
    | nil => trivial
    | cons next rest => exact ⟨Nat.add_comm _ _, Nat.add_comm _ sum ▸ hrest⟩

variable {pages' : List (Page α)}

lemma flatMap_records_congr (h : pages.map Page.records = pages'.map Page.records) :
    pages.flatMap Page.records = pages'.flatMap Page.records := by
  rw [flatMap_def, h, flatMap_def]

lemma ne_nil_records_congr (h : pages.map Page.records = pages'.map Page.records)
    (hall : ∀ page ∈ pages', page.records ≠ []) : ∀ page ∈ pages, page.records ≠ [] := by
  intro page hmem
  have hrecords : page.records ∈ pages'.map Page.records := h ▸ mem_map_of_mem hmem
  rcases mem_map.1 hrecords with ⟨page', hmem', heq⟩
  exact heq ▸ hall page' hmem'

/-- What `appendPageIfFull` leaves: the same records, on pages of which at most the last one is empty. -/
lemma appendPageIfFull_spec (h : vector.WellFormed) (capacity : Nat) :
    SumsFrom 0 (vector.appendPageIfFull capacity).pages ∧ (vector.appendPageIfFull capacity).pages ≠ [] ∧
      (∀ page ∈ (vector.appendPageIfFull capacity).pages.dropLast, page.records ≠ []) ∧
      (vector.appendPageIfFull capacity).toList = vector.toList := by
  have hadd : SumsFrom 0 vector.addPage.pages ∧ vector.addPage.pages ≠ [] ∧
      (∀ page ∈ vector.addPage.pages.dropLast, page.records ≠ []) ∧ vector.addPage.toList = vector.toList := by
    have hrecords := records_updateLastFrom 0 vector.pages
    refine ⟨sumsFrom_updateLastFrom_append h.sums _, by simp [addPage], ?_, ?_⟩
    · rw [addPage, dropLast_concat]
      exact ne_nil_records_congr hrecords h.ne_nil
    · rw [toList, addPage, flatMap_append, updateCumulativeSumLastItem, flatMap_records_congr hrecords, toList]
      simp
  rw [appendPageIfFull]
  cases hlast : vector.pages.getLast? with
  | none => exact hadd
  | some lastPage =>
    simp only
    split_ifs
    · exact hadd
    · refine ⟨h.sums, ?_, fun page hmem => h.ne_nil page (dropLast_subset _ hmem), rfl⟩
      intro hnil
      rw [hnil] at hlast
      cases hlast

lemma WellFormed.writeRecord (h : vector.WellFormed) (capacity : Nat) (record : α) :
    (vector.writeRecord capacity record).WellFormed ∧
      (vector.writeRecord capacity record).toList = vector.toList ++ [record] := by
  rcases appendPageIfFull_spec h capacity with ⟨hsums, hne, hlast, htoList⟩
  refine ⟨⟨sumsFrom_writeOnLastPage hsums record, ne_nil_writeOnLastPage hlast record⟩, ?_⟩
  rw [toList, PagedVector.writeRecord, flatMap_writeOnLastPage hne, ← htoList]
  rfl

lemma WellFormed.copyFrom {vector other : PagedVector α} (h : vector.WellFormed) (h' : other.WellFormed) :
    (vector.copyFrom other).WellFormed ∧ (vector.copyFrom other).toList = vector.toList ++ other.toList := by
  have hrecords := records_updateAllFrom 0 (vector.pages ++ other.pages)
  refine ⟨⟨sumsFrom_updateAllFrom 0 _, ?_⟩, ?_⟩
  · refine ne_nil_records_congr hrecords fun page hmem => ?_
    rcases mem_append.1 hmem with hmem | hmem
    · exact h.ne_nil page hmem
    · exact h'.ne_nil page hmem
  · rw [toList, PagedVector.copyFrom, updateCumulativeSumAllPages, flatMap_records_congr hrecords, flatMap_append]
    rfl

end Writing

/-! ## Reading -/

section Reading

lemma totalFrom_eq {sum : Nat} {pages : List (Page α)} (hne : pages ≠ []) (h : SumsFrom sum pages) :
    totalFrom sum pages = sum + (pages.flatMap Page.records).length := by
  induction pages generalizing sum with
  | nil => exact absurd rfl hne
  | cons page rest ih =>
    cases rest with
    | nil => simp [totalFrom]
    | cons next rest =>
      calc totalFrom sum (page :: next :: rest)
          = totalFrom (sum + page.records.length) (next :: rest) := by rw [totalFrom, h.1]
        _ = sum + page.records.length + ((next :: rest).flatMap Page.records).length := ih (cons_ne_nil _ _) h.2
        _ = sum + ((page :: next :: rest).flatMap Page.records).length := by
            simp only [flatMap_cons, length_append, Nat.add_assoc]

lemma WellFormed.getTotalNumberOfEntries_eq (h : vector.WellFormed) :
    vector.getTotalNumberOfEntries = vector.toList.length := by
  by_cases hnil : vector.pages = []
  · simp [getTotalNumberOfEntries, toList, hnil, totalFrom]
  · rw [getTotalNumberOfEntries, totalFrom_eq hnil h.sums, Nat.zero_add, toList]

/-- The page `page` after the pages `before` has the position `pos`, counted from `sum`. -/
structure OnPage (sum pos : Nat) (before : List (Page α)) (page : Page α) : Prop where
  le : sum + (before.flatMap Page.records).length ≤ pos
  lt : pos < sum + (before.flatMap Page.records).length + page.records.length

lemma findIdx_projectionsFrom {sum pos : Nat} {pages : List (Page α)} (h : SumsFrom sum pages)
    (hne : ∀ page ∈ pages, page.records ≠ []) (hle : sum ≤ pos)
    (hlt : pos < sum + (pages.flatMap Page.records).length) :
    ∃ before page after, pages = before ++ page :: after ∧
      (projectionsFrom sum pages).findIdx (fun last => pos ≤ last) = before.length ∧ OnPage sum pos before page := by
  induction pages generalizing sum with
  | nil => simp only [flatMap_nil, length_nil] at hlt; omega
  | cons page rest ih =>
    have hpos : 0 < page.records.length := length_pos_iff.2 (hne page mem_cons_self)
    cases rest with
    | nil =>
      simp only [flatMap_cons, flatMap_nil, append_nil] at hlt
      have hfirst : pos ≤ sum + page.records.length - 1 := by omega
      refine ⟨[], page, [], rfl, ?_, by simpa using hle, by simpa using hlt⟩
      rw [projectionsFrom, findIdx_cons, decide_eq_true hfirst]
      rfl
    | cons next rest =>
      rw [projectionsFrom, findIdx_cons, h.1]
      by_cases hfirst : pos < sum + page.records.length
      · have hle' : pos ≤ sum + page.records.length - 1 := by omega
        refine ⟨[], page, next :: rest, rfl, ?_, by simpa using hle, by simpa using hfirst⟩
        rw [decide_eq_true hle']
        rfl
      -- The position is on a later page, and the search goes on with the sum of this one.
      · have hnot : ¬ pos ≤ sum + page.records.length - 1 := by omega
        rw [flatMap_cons, length_append, ← Nat.add_assoc] at hlt
        rcases ih h.2 (fun page' hmem => hne page' (mem_cons_of_mem _ hmem)) (Nat.not_lt.1 hfirst) hlt with
          ⟨before, page', after, hpages, hindex, hon⟩
        refine ⟨page :: before, page', after, by rw [hpages, cons_append], ?_, ?_, ?_⟩
        · rw [decide_eq_false hnot, hindex]
          rfl
        · rw [flatMap_cons, length_append, ← Nat.add_assoc]
          exact hon.le
        · rw [flatMap_cons, length_append, ← Nat.add_assoc]
          exact hon.lt

variable {before after : List (Page α)} {page : Page α}

lemma cumulativeSum_eq {sum : Nat} {last : Page α} (h : SumsFrom sum (before ++ last :: page :: after)) :
    last.cumulativeSum = sum + ((before ++ [last]).flatMap Page.records).length := by
  induction before generalizing sum with
  | nil => simpa using h.1
  | cons first rest ih =>
    have hrest : SumsFrom (sum + first.records.length) (rest ++ last :: page :: after) := by
      cases rest with
      | nil => exact h.2
      | cons _ _ => exact h.2
    rw [ih hrest, cons_append, flatMap_cons, length_append, Nat.add_assoc]

lemma sumBefore_eq (h : SumsFrom 0 (before ++ page :: after)) :
    sumBefore (before ++ page :: after) before.length = (before.flatMap Page.records).length := by
  rcases eq_nil_or_concat before with hnil | ⟨before', last, hbefore⟩
  · rw [hnil]
    rfl
  · rw [concat_eq_append] at hbefore
    subst hbefore
    rw [append_assoc, singleton_append] at h
    rw [length_append, length_singleton, sumBefore]
    simp [cumulativeSum_eq h]

/-- A position of the vector is found on its page, and on the page at its distance from the page's first one. -/
lemma WellFormed.find_spec (h : vector.WellFormed) {pos : Nat} (hlt : pos < vector.toList.length) :
    ∃ before page after, vector.pages = before ++ page :: after ∧ OnPage 0 pos before page ∧
      vector.getTupleBufferForEntry pos = some page ∧
      vector.getBufferPosForEntry pos = some (pos - (before.flatMap Page.records).length) := by
  have hlt' : pos < 0 + (vector.pages.flatMap Page.records).length := by
    rw [Nat.zero_add]
    exact hlt
  rcases findIdx_projectionsFrom h.sums h.ne_nil (Nat.zero_le pos) hlt' with ⟨before, page, after, hpages, hindex, hon⟩
  have hfind : vector.findIdx pos = some before.length := by
    have hlength : before.length < vector.pages.length := by simp [hpages]
    rw [findIdx, if_neg (by rw [h.getTotalNumberOfEntries_eq]; exact Nat.not_le.2 hlt)]
    simp only [hindex]
    rw [if_pos hlength]
  refine ⟨before, page, after, hpages, hon, ?_, ?_⟩
  · rw [getTupleBufferForEntry, hfind, hpages]
    simp
  · rw [getBufferPosForEntry, hfind, Option.map_some, hpages, sumBefore_eq (hpages ▸ h.sums)]

lemma getElem?_toList_of_page
    (hpages : vector.pages = before ++ page :: after) (posOnPage : Nat) (hlt : posOnPage < page.records.length) :
    vector.toList[(before.flatMap Page.records).length + posOnPage]? = page.records[posOnPage]? := by
  rw [toList, hpages, flatMap_append, flatMap_cons, getElem?_append_right (Nat.le_add_right _ _),
    Nat.add_sub_cancel_left, getElem?_append_left hlt]

lemma WellFormed.readRecord_eq (h : vector.WellFormed) (pos : Nat) : vector.readRecord pos = vector.toList[pos]? := by
  by_cases hlt : pos < vector.toList.length
  · rcases h.find_spec hlt with ⟨before, page, after, hpages, hon, hpage, hposOnPage⟩
    have hle := hon.le
    have hlt' := hon.lt
    rw [Nat.zero_add] at hle hlt'
    have hget := getElem?_toList_of_page hpages (pos - (before.flatMap Page.records).length) (by omega)
    rw [Nat.add_sub_of_le hle] at hget
    rw [readRecord, hpage, hposOnPage, hget]
    rfl
  · have hnone : vector.findIdx pos = none := by
      rw [findIdx, if_pos (by rw [h.getTotalNumberOfEntries_eq]; exact Nat.not_lt.1 hlt)]
    rw [readRecord, getTupleBufferForEntry, hnone, getElem?_eq_none (Nat.not_lt.1 hlt)]
    rfl

/-- The iterator is on a page, at a record of it. -/
structure Iterator.IsAt (vector : PagedVector α) (it : Iterator α) (before after : List (Page α)) (page : Page α) :
    Prop where
  pages : vector.pages = before ++ page :: after
  curPage : it.curPage = some page
  pos : it.pos = (before.flatMap Page.records).length + it.posOnPage
  lt : it.posOnPage < page.records.length

lemma WellFormed.iteratorAt_isAt (h : vector.WellFormed) {pos : Nat} (hlt : pos < vector.toList.length) :
    ∃ before page after, (vector.iteratorAt pos).IsAt vector before after page := by
  rcases h.find_spec hlt with ⟨before, page, after, hpages, hon, hpage, hposOnPage⟩
  have hle := hon.le
  have hlt' := hon.lt
  refine ⟨before, page, after, hpages, hpage, ?_, ?_⟩
  · simp only [iteratorAt, hposOnPage, Option.getD_some]
    omega
  · simp only [iteratorAt, hposOnPage, Option.getD_some]
    omega

lemma Iterator.IsAt.read_eq {it : Iterator α} (h : it.IsAt vector before after page) :
    it.read = vector.toList[it.pos]? := by
  rw [Iterator.read, h.curPage, h.pos, getElem?_toList_of_page h.pages it.posOnPage h.lt]
  rfl

lemma Iterator.pos_next (vector : PagedVector α) (it : Iterator α) : (it.next vector).pos = it.pos + 1 := by
  simp only [Iterator.next]
  split_ifs <;> rfl

lemma Iterator.IsAt.next (hvector : vector.WellFormed) {it : Iterator α} (h : it.IsAt vector before after page)
    (hlt : it.pos + 1 < vector.toList.length) :
    ∃ before page after, (it.next vector).IsAt vector before after page := by
  rw [Iterator.next, h.curPage, hvector.getTotalNumberOfEntries_eq]
  simp only [Option.map_some, Option.getD_some]
  by_cases hend : page.records.length ≤ it.posOnPage + 1
  · rw [if_pos hend, if_pos hlt]
    exact hvector.iteratorAt_isAt hlt
  · rw [if_neg hend]
    exact ⟨before, page, after, h.pages, rfl, by rw [h.pos, Nat.add_assoc], Nat.not_le.1 hend⟩

variable {body : Nat → α → Option (List β)}

lemma loopFrom_eq (h : vector.WellFormed)
    {f : α → List β} (hbody : ∀ pos record, vector.toList[pos]? = some record → body pos record = some (f record)) :
    ∀ (remaining : Nat) (it : Iterator α), it.pos + remaining = vector.toList.length →
      (0 < remaining → ∃ before page after, it.IsAt vector before after page) →
      loopFrom vector body remaining it it.pos = some ((vector.toList.drop it.pos).flatMap f) := by
  intro remaining
  induction remaining with
  | zero =>
    intro it hpos _
    rw [loopFrom, drop_of_length_le (by omega)]
    rfl
  | succ remaining ih =>
    intro it hpos hat
    rcases hat (Nat.succ_pos _) with ⟨before, page, after, hat⟩
    have hlt : it.pos < vector.toList.length := by omega
    have hrest : loopFrom vector body remaining (it.next vector) (it.pos + 1)
        = some ((vector.toList.drop (it.pos + 1)).flatMap f) := by
      rw [← Iterator.pos_next vector it]
      refine ih (it.next vector) (by rw [Iterator.pos_next]; omega) fun hremaining => ?_
      exact hat.next h (by omega)
    have hget : vector.toList[it.pos]? = some vector.toList[it.pos] := getElem?_eq_getElem hlt
    rw [loopFrom, hat.read_eq, hget, hrest, drop_eq_getElem_cons hlt]
    simp only [Option.bind_eq_bind, Option.bind_some, hbody _ _ hget, flatMap_cons]

lemma WellFormed.forEach_eq (h : vector.WellFormed)
    {f : α → List β} (hbody : ∀ pos record, vector.toList[pos]? = some record → body pos record = some (f record)) :
    vector.forEach body = some (vector.toList.flatMap f) := by
  rw [forEach, h.getTotalNumberOfEntries_eq]
  refine loopFrom_eq h hbody _ (vector.iteratorAt 0) (Nat.zero_add _) fun hpos => ?_
  exact h.iteratorAt_isAt hpos

lemma WellFormed.iterate_eq (h : vector.WellFormed) : vector.iterate = some vector.toList := by
  rw [iterate, h.forEach_eq fun _ _ _ => rfl, flatMap_singleton']

end Reading

end PagedVector

end MobilityNebula.Nautilus
