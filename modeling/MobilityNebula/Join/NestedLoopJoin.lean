import MobilityNebula.Library.Pairs
import MobilityNebula.Nautilus.PagedVector
import MobilityNebula.Nautilus.Record
import MobilityNebula.SliceStore.SliceAssigner

/-!
# NestedLoopJoin — the slices and the probe loop of a nested loop join

Embedding of `NLJSlice.cpp`, `NLJProbePhysicalOperator.cpp` and the record that
`StreamJoinProbePhysicalOperator.cpp` creates.  A slice has a paged vector for each worker and each side.  When
it is triggered, all vectors of a side are moved into the first one.  The probe operator takes the side with
fewer tuples as the outer loop, compares key fields that it reads with iterators, and reads the whole records
of a match by their positions.

The result: the loop emits one joined record for each pair of a left and a right row that satisfies the
predicate (`JoinQuery.joinVectors_spec`), and a slice holds the rows of its tuples whatever worker wrote them
(`NLJSlice.Holds`).
-/

namespace MobilityNebula.Join

open Library SliceStore Nautilus List Record PagedVector

inductive JoinBuildSideType where
  | right
  | left
  deriving DecidableEq, Repr

structure JoinQuery (V : Type) where
  assigner : SliceAssigner
  numberOfInputOrigins : Nat
  getTs : JoinBuildSideType → Record V → Nat
  fields : JoinBuildSideType → List RecordFieldIdentifier
  keyFields : JoinBuildSideType → List RecordFieldIdentifier
  keyFields_subset : ∀ side, ∀ field ∈ keyFields side, field ∈ fields side
  disjoint : ∀ field ∈ fields .left, field ∉ fields .right
  windowStartFieldName : RecordFieldIdentifier
  windowEndFieldName : RecordFieldIdentifier
  convertToValue : Nat → V
  joinFunction : Record V → Bool
  capacity : JoinBuildSideType → Nat
  numberOfWorkerThreads : Nat
  numberOfWorkerThreads_pos : 0 < numberOfWorkerThreads

/-- A tuple of one of the streams, with the worker that processes it. -/
structure JoinTuple {V : Type} (query : JoinQuery V) where
  workerThreadId : Nat
  side : JoinBuildSideType
  record : Record V
  hasFields : record.HasFields (query.fields side)

namespace JoinQuery

variable {V : Type} (query : JoinQuery V)

/-! ## Joined records -/

variable (w : WindowInfo)

def windowRecord : Record V :=
  (empty.write query.windowStartFieldName (query.convertToValue w.windowStart)).write
    query.windowEndFieldName (query.convertToValue w.windowEnd)

/-- The fields of the outer record are written twice. -/
def createJoinedRecord (outerRecord innerRecord : Record V) (w : WindowInfo)
    (projectionsOuter projectionsInner : List RecordFieldIdentifier) : Option (Record V) := do
  let joinedRecord := query.windowRecord w
  let joinedRecord ← outerRecord.copyFields projectionsOuter joinedRecord
  let joinedRecord ← innerRecord.copyFields projectionsInner joinedRecord
  outerRecord.copyFields projectionsOuter joinedRecord

/-- The record of a pair: the fields of both sides and of the window. -/
def joinedRecord (fields : JoinBuildSideType → List RecordFieldIdentifier) (left right : Record V) :
    Record V :=
  left.overlay (fields .left) (right.overlay (fields .right) (query.windowRecord w))

def joinPair (left right : Record V) : List (Record V) :=
  if query.joinFunction (query.joinedRecord w query.keyFields left right) then
    [query.joinedRecord w query.fields left right]
  else
    []

lemma createJoinedRecord_eq {outerRecord innerRecord : Record V} (w : WindowInfo)
    {projectionsOuter projectionsInner : List RecordFieldIdentifier} (houter : outerRecord.HasFields projectionsOuter)
    (hinner : innerRecord.HasFields projectionsInner) :
    query.createJoinedRecord outerRecord innerRecord w projectionsOuter projectionsInner
      = some (outerRecord.overlay projectionsOuter (innerRecord.overlay projectionsInner (query.windowRecord w))) := by
  rw [createJoinedRecord]
  simp only [copyFields_eq houter, copyFields_eq hinner, Option.bind_eq_bind, Option.bind_some, Option.some_inj]
  funext field
  -- the first writes of the outer fields are overwritten
  simp only [Record.overlay, Record.read]
  by_cases hmem : field ∈ projectionsOuter
  · simp only [if_pos hmem]
  · simp only [if_neg hmem]

lemma overlay_comm {record record' : Record V} {fields fields' : List RecordFieldIdentifier}
    (hdisjoint : ∀ field ∈ fields, field ∉ fields') (target : Record V) :
    record'.overlay fields' (record.overlay fields target)
      = record.overlay fields (record'.overlay fields' target) := by
  funext field
  simp only [Record.overlay, Record.read]
  by_cases hmem : field ∈ fields
  · simp only [if_pos hmem, if_neg (hdisjoint field hmem)]
  · simp only [if_neg hmem]

lemma joinedRecord_congr {fields : JoinBuildSideType → List RecordFieldIdentifier}
    {left left' right right' : Record V} (hleft : ∀ field ∈ fields .left, left'.read field = left.read field)
    (hright : ∀ field ∈ fields .right, right'.read field = right.read field) :
    query.joinedRecord w fields left' right' = query.joinedRecord w fields left right := by
  funext field
  simp only [joinedRecord, overlay]
  by_cases hmem : field ∈ fields .left
  · rw [if_pos hmem, if_pos hmem, hleft field hmem]
  · rw [if_neg hmem, if_neg hmem, read_overlay, read_overlay]
    by_cases hmem' : field ∈ fields .right
    · rw [if_pos hmem', if_pos hmem', hright field hmem']
    · rw [if_neg hmem', if_neg hmem']

/-! ## The probe loop -/

/-- The row that a build operator writes: the fields of its schema. -/
def rowOf (side : JoinBuildSideType) (record : Record V) : Record V := record.overlay (query.fields side) empty

def performNLJ (outerSide innerSide : JoinBuildSideType) (outerPagedVector innerPagedVector : PagedVector (Record V))
    (w : WindowInfo) : Option (List (Record V)) :=
  outerPagedVector.forEach fun outerItemPos outerRow =>
    innerPagedVector.forEach fun innerItemPos innerRow => do
      let outerKeys ← outerRow.copyFields (query.keyFields outerSide) empty
      let innerKeys ← innerRow.copyFields (query.keyFields innerSide) empty
      let joinedKeyFields ←
        query.createJoinedRecord outerKeys innerKeys w (query.keyFields outerSide) (query.keyFields innerSide)
      if query.joinFunction joinedKeyFields then
        let outerRow ← outerPagedVector.readRecord outerItemPos
        let outerRecord ← outerRow.copyFields (query.fields outerSide) empty
        let innerRow ← innerPagedVector.readRecord innerItemPos
        let innerRecord ← innerRow.copyFields (query.fields innerSide) empty
        let joinedRecord ←
          query.createJoinedRecord outerRecord innerRecord w (query.fields outerSide) (query.fields innerSide)
        some [joinedRecord]
      else
        some []

/-- The part of `open` that chooses the outer loop. -/
def joinVectors (left right : PagedVector (Record V)) (w : WindowInfo) : Option (List (Record V)) :=
  if left.getTotalNumberOfEntries < right.getTotalNumberOfEntries then
    query.performNLJ .left .right left right w
  else
    query.performNLJ .right .left right left w

variable {query}

/-- What one pass of the inner loop emits, if the joined records of the two sides are `joined`. -/
lemma performNLJ_eq {outerSide innerSide : JoinBuildSideType} {outer inner : PagedVector (Record V)} (w : WindowInfo)
    (houter : outer.WellFormed) (hinner : inner.WellFormed)
    (houterFields : ∀ row ∈ outer.toList, row.HasFields (query.fields outerSide))
    (hinnerFields : ∀ row ∈ inner.toList, row.HasFields (query.fields innerSide)) :
    query.performNLJ outerSide innerSide outer inner w = some (pairs (fun outerRow innerRow =>
          if query.joinFunction (outerRow.overlay (query.keyFields outerSide)
              (innerRow.overlay (query.keyFields innerSide) (query.windowRecord w))) then
            [outerRow.overlay (query.fields outerSide)
              (innerRow.overlay (query.fields innerSide) (query.windowRecord w))]
          else []) outer.toList inner.toList) := by
  have hkeys : ∀ {side} {row : Record V}, row.HasFields (query.fields side) → row.HasFields (query.keyFields side) :=
    fun h field hmem => h field (query.keyFields_subset _ field hmem)
  -- reading the fields of a row and writing them gives what writing the row gives
  have hagain : ∀ (row target : Record V) (fields : List RecordFieldIdentifier),
      (row.overlay fields empty).overlay fields target = row.overlay fields target := by
    intro row target fields
    funext field
    simp only [Record.overlay, Record.read]
    by_cases hmem : field ∈ fields
    · simp only [if_pos hmem]
    · simp only [if_neg hmem]
  refine houter.forEach_eq fun outerItemPos outerRow houterRow => ?_
  have hrow := houterFields outerRow (mem_of_getElem? houterRow)
  refine hinner.forEach_eq fun innerItemPos innerRow hinnerRow => ?_
  have hrow' := hinnerFields innerRow (mem_of_getElem? hinnerRow)
  simp only [copyFields_eq (hkeys hrow), copyFields_eq (hkeys hrow'), copyFields_eq hrow,
    copyFields_eq hrow', Option.bind_eq_bind, Option.bind_some, houter.readRecord_eq, hinner.readRecord_eq,
    houterRow, hinnerRow, query.createJoinedRecord_eq w ((hkeys hrow).overlay _) ((hkeys hrow').overlay _),
    query.createJoinedRecord_eq w (hrow.overlay _) (hrow'.overlay _), hagain]
  split_ifs
  · rfl
  · rfl

/-- The probe operator emits a record for each pair of rows that satisfies the predicate. -/
lemma joinVectors_spec {left right : PagedVector (Record V)} (w : WindowInfo) (hleft : left.WellFormed)
    (hright : right.WellFormed) (hleftFields : ∀ row ∈ left.toList, row.HasFields (query.fields .left))
    (hrightFields : ∀ row ∈ right.toList, row.HasFields (query.fields .right)) :
    ∃ joined, query.joinVectors left right w = some joined ∧
      joined.Perm (pairs (query.joinPair w) left.toList right.toList) := by
  rw [joinVectors]
  split_ifs
  · exact ⟨_, performNLJ_eq w hleft hright hleftFields hrightFields, .refl _⟩
  · refine ⟨_, performNLJ_eq w hright hleft hrightFields hleftFields, ?_⟩
    have hkeys : ∀ field ∈ query.keyFields .left, field ∉ query.keyFields .right := fun field hmem hmem' =>
      query.disjoint field (query.keyFields_subset _ field hmem) (query.keyFields_subset _ field hmem')
    simp only [overlay_comm query.disjoint, overlay_comm hkeys]
    exact pairs_swap (query.joinPair w) left.toList right.toList

end JoinQuery

/-! ## The slice -/

/-- The paged vectors of the two sides, one for each worker. -/
structure NLJSlice (V : Type) where
  pagedVectors : JoinBuildSideType → List (PagedVector (Record V))

namespace NLJSlice

variable {V : Type}

def create (V : Type) (numberOfWorkerThreads : Nat) : NLJSlice V :=
  ⟨fun _ => replicate numberOfWorkerThreads PagedVector.create⟩

def getNumberOfTuples (slice : NLJSlice V) (side : JoinBuildSideType) : Nat :=
  ((slice.pagedVectors side).map getTotalNumberOfEntries).sum

def getPagedVectorRef (slice : NLJSlice V) (workerThreadId : Nat) (side : JoinBuildSideType) :
    Option (PagedVector (Record V)) :=
  (slice.pagedVectors side)[workerThreadId % (slice.pagedVectors side).length]?

/-- All pages of one side are moved into the first vector, and the other vectors are erased. -/
def combineSide : List (PagedVector (Record V)) → List (PagedVector (Record V))
  | first :: second :: rest =>
    [(second :: rest).foldl (fun first vector => (first.moveAllPages vector).1) first]
  | vectors => vectors

def combinePagedVectors (slice : NLJSlice V) : NLJSlice V := ⟨fun side => combineSide (slice.pagedVectors side)⟩

/-- The build operator writes a record into the vector of its worker. -/
def execute {query : JoinQuery V} (slice : NLJSlice V) (tuple : JoinTuple query) : Option (NLJSlice V) := do
  let vector ← slice.getPagedVectorRef tuple.workerThreadId tuple.side
  let row ← tuple.record.copyFields (query.fields tuple.side) empty
  let vectors := slice.pagedVectors tuple.side
  some ⟨Function.update slice.pagedVectors tuple.side
    (vectors.set (tuple.workerThreadId % vectors.length) (vector.writeRecord (query.capacity tuple.side) row))⟩

def rowsOf {query : JoinQuery V} (side : JoinBuildSideType) (tuples : List (JoinTuple query)) : List (Record V) :=
  (tuples.filter fun tuple => tuple.side = side).map fun tuple => query.rowOf tuple.side tuple.record

/-- The slice has the rows of the tuples, in some order. -/
structure Holds (query : JoinQuery V) (slice : NLJSlice V) (tuples : List (JoinTuple query)) : Prop where
  ne_nil : ∀ side, slice.pagedVectors side ≠ []
  wellFormed : ∀ side, ∀ vector ∈ slice.pagedVectors side, vector.WellFormed
  perm : ∀ side, ((slice.pagedVectors side).flatMap toList).Perm (rowsOf side tuples)

variable {query : JoinQuery V} {slice : NLJSlice V} {tuples : List (JoinTuple query)}

lemma holds_create (query : JoinQuery V) : Holds query (create V query.numberOfWorkerThreads) [] where
  ne_nil _ := by
    have hpos := query.numberOfWorkerThreads_pos
    simp only [create, ne_eq, replicate_eq_nil_iff]
    omega
  wellFormed _ vector hmem := by
    rw [eq_of_mem_replicate hmem]
    exact .create
  perm _ := by
    have hnil : ((replicate query.numberOfWorkerThreads (.create : PagedVector (Record V))).flatMap
        toList) = [] := by
      refine flatMap_eq_nil_iff.2 fun vector hmem => ?_
      rw [eq_of_mem_replicate hmem]
      rfl
    exact .of_eq hnil

lemma rowsOf_append_self (tuples : List (JoinTuple query)) (tuple : JoinTuple query) :
    rowsOf tuple.side (tuples ++ [tuple]) = rowsOf tuple.side tuples ++ [query.rowOf tuple.side tuple.record] := by
  simp [rowsOf, filter_append]

variable {side : JoinBuildSideType}

lemma rowsOf_append_of_ne (tuples : List (JoinTuple query)) {tuple : JoinTuple query}
    (hne : tuple.side ≠ side) : rowsOf side (tuples ++ [tuple]) = rowsOf side tuples := by
  simp [rowsOf, filter_append, hne]

lemma hasFields_of_mem_rowsOf {row : Record V} (hmem : row ∈ rowsOf side tuples) :
    row.HasFields (query.fields side) := by
  rcases mem_map.1 hmem with ⟨tuple, htuple, rfl⟩
  have hside : tuple.side = side := of_decide_eq_true (mem_filter.1 htuple).2
  rw [← hside]
  exact tuple.hasFields.overlay _

variable {vectors : List (PagedVector (Record V))}

lemma flatMap_set_perm {pos : Nat} {vector vector' : PagedVector (Record V)}
    {row : Record V} (hget : vectors[pos]? = some vector) (hwrite : vector'.toList = vector.toList ++ [row]) :
    ((vectors.set pos vector').flatMap toList).Perm (vectors.flatMap toList ++ [row]) := by
  rcases List.getElem?_eq_some_iff.1 hget with ⟨hlt, rfl⟩
  have hold : vectors = vectors.take pos ++ vectors[pos] :: vectors.drop (pos + 1) := by
    rw [← drop_eq_getElem_cons hlt, take_append_drop]
  have hnew : vectors.set pos vector' = vectors.take pos ++ vector' :: vectors.drop (pos + 1) :=
    set_eq_take_append_cons_drop.trans (if_pos hlt)
  rw [hnew, flatMap_append, flatMap_cons, hwrite]
  conv_rhs => rw [hold, flatMap_append, flatMap_cons]
  simp only [append_assoc]
  refine .append_left _ (.append_left _ ?_)
  exact perm_append_comm

lemma Holds.execute (h : Holds query slice tuples) (tuple : JoinTuple query) :
    ∃ slice', slice.execute tuple = some slice' ∧ Holds query slice' (tuples ++ [tuple]) := by
  generalize hvectors : slice.pagedVectors tuple.side = vectors
  have hne : vectors ≠ [] := hvectors ▸ h.ne_nil tuple.side
  generalize hworker : tuple.workerThreadId % vectors.length = pos
  have hlt : pos < vectors.length := hworker ▸ Nat.mod_lt _ (length_pos_iff.2 hne)
  have hget : vectors[pos]? = some vectors[pos] := getElem?_eq_getElem hlt
  generalize vectors[pos] = vector at hget
  have hwf : vector.WellFormed := h.wellFormed tuple.side vector (hvectors.symm ▸ mem_of_getElem? hget)
  rcases hwf.writeRecord (query.capacity tuple.side) (query.rowOf tuple.side tuple.record) with ⟨hwf', htoList⟩
  have hcall : ∃ slice', slice.execute tuple = some slice' ∧ slice'.pagedVectors tuple.side
        = vectors.set pos (vector.writeRecord (query.capacity tuple.side) (query.rowOf tuple.side tuple.record)) ∧
      ∀ side, side ≠ tuple.side → slice'.pagedVectors side = slice.pagedVectors side := by
    refine ⟨⟨Function.update slice.pagedVectors tuple.side (vectors.set pos
      (vector.writeRecord (query.capacity tuple.side) (query.rowOf tuple.side tuple.record)))⟩, ?_,
      Function.update_self .., fun side hside => Function.update_of_ne hside ..⟩
    rw [NLJSlice.execute, getPagedVectorRef, hvectors, hworker, hget]
    simp only [Option.bind_eq_bind, Option.bind_some, copyFields_eq tuple.hasFields, hworker]
    rfl
  rcases hcall with ⟨slice', hcall, hself, hother⟩
  refine ⟨slice', hcall, fun side => ?_, fun side vector' hmem => ?_, fun side => ?_⟩
  · by_cases hside : side = tuple.side
    · rw [hside, hself]
      exact fun hnil => hne ((set_eq_nil_iff _ _).1 hnil)
    · rw [hother side hside]
      exact h.ne_nil side
  · by_cases hside : side = tuple.side
    · rw [hside, hself] at hmem
      rcases mem_or_eq_of_mem_set hmem with hmem | rfl
      · exact h.wellFormed tuple.side vector' (hvectors.symm ▸ hmem)
      · exact hwf'
    · rw [hother side hside] at hmem
      exact h.wellFormed side vector' hmem
  · by_cases hside : side = tuple.side
    · rw [hside, hself, rowsOf_append_self]
      refine (flatMap_set_perm hget htoList).trans (.append_right _ ?_)
      rw [← hvectors]
      exact h.perm tuple.side
    · rw [hother side hside, rowsOf_append_of_ne tuples (Ne.symm hside)]
      exact h.perm side

lemma combineSide_spec (hne : vectors ≠ []) (hwf : ∀ vector ∈ vectors, vector.WellFormed) :
    ∃ vector, combineSide vectors = [vector] ∧ vector.WellFormed ∧ vector.toList = vectors.flatMap toList := by
  have hfold : ∀ (rest : List (PagedVector (Record V))) (first : PagedVector (Record V)), first.WellFormed →
      (∀ vector ∈ rest, vector.WellFormed) →
      (rest.foldl (fun first vector => (first.moveAllPages vector).1) first).WellFormed ∧
        (rest.foldl (fun first vector => (first.moveAllPages vector).1) first).toList
          = first.toList ++ rest.flatMap toList := by
    intro rest
    induction rest with
    | nil => exact fun first hfirst _ => ⟨hfirst, by simp⟩
    | cons vector rest ih =>
      intro first hfirst hall
      have hcons := forall_mem_cons.1 hall
      rcases hfirst.copyFrom hcons.1 with ⟨hwf', htoList⟩
      rcases ih (first.copyFrom vector) hwf' hcons.2 with ⟨hwf'', htoList'⟩
      refine ⟨hwf'', ?_⟩
      rw [flatMap_cons, ← append_assoc, ← htoList]
      exact htoList'
  match vectors with
  | [] => exact absurd rfl hne
  | [vector] => exact ⟨vector, rfl, hwf vector mem_cons_self, by simp⟩
  | first :: second :: rest =>
    have hcons := forall_mem_cons.1 hwf
    rcases hfold (second :: rest) first hcons.1 hcons.2 with ⟨hwf', htoList⟩
    exact ⟨_, rfl, hwf', htoList⟩

def Combined (slice : NLJSlice V) : Prop := ∀ side, ∃ vector, slice.pagedVectors side = [vector]

lemma Holds.combinePagedVectors (h : Holds query slice tuples) :
    Holds query slice.combinePagedVectors tuples ∧ slice.combinePagedVectors.Combined := by
  have hspec := fun side => combineSide_spec (h.ne_nil side) (h.wellFormed side)
  refine ⟨⟨fun side => ?_, fun side vector hmem => ?_, fun side => ?_⟩, fun side => ?_⟩
  · rcases hspec side with ⟨vector, hcombine, _⟩
    simp only [NLJSlice.combinePagedVectors, hcombine]
    exact cons_ne_nil _ _
  · rcases hspec side with ⟨vector', hcombine, hwf, _⟩
    simp only [NLJSlice.combinePagedVectors, hcombine] at hmem
    exact mem_singleton.1 hmem ▸ hwf
  · rcases hspec side with ⟨vector, hcombine, _, htoList⟩
    simp only [NLJSlice.combinePagedVectors, hcombine, flatMap_singleton, htoList]
    exact h.perm side
  · rcases hspec side with ⟨vector, hcombine, _⟩
    exact ⟨vector, hcombine⟩

lemma Holds.getPagedVectorRef (h : Holds query slice tuples) (hcombined : slice.Combined) (side : JoinBuildSideType) :
    ∃ vector, slice.getPagedVectorRef 0 side = some vector ∧ vector.WellFormed ∧
      vector.toList.Perm (rowsOf side tuples) := by
  rcases hcombined side with ⟨vector, hvectors⟩
  have hperm := h.perm side
  have hwf := h.wellFormed side
  rw [hvectors] at hperm hwf
  rw [flatMap_singleton] at hperm
  refine ⟨vector, ?_, hwf vector mem_cons_self, hperm⟩
  rw [NLJSlice.getPagedVectorRef, hvectors]
  rfl

end NLJSlice

end MobilityNebula.Join
