import MobilityNebula.LogicalOperators.LogicalPlan

/-!
# OriginIdInferencePhase — numbering the origins and passing them up

The phase gives every operator that assigns an origin the next number and then passes the numbers from the children
to the parents.  `assignOriginIds_eq` says what the first half does to a plan with distinct operator ids, and
`propagateOriginIds_spec` what the second half does to one operator.
-/

namespace MobilityNebula.LegacyOptimizer

open LogicalOperators Library Library.RoseTree List

variable {F A : Type}

namespace OriginIdInferencePhase

def initialOriginId : Nat := 1

def inferAssigner (assigner : OperatorNode F A) (originId : Nat) : Option (OperatorNode F A) :=
  if assigner.operator.isSourceDescriptor then do
    let assigner ← assigner.withInputOriginIds [[originId]]
    assigner.withOutputOriginIds [originId]
  else
    assigner.withOutputOriginIds [originId]

/-- The loop over the operators that assign an origin. -/
def assignOriginIds : List (OperatorNode F A) → Nat → LogicalPlan F A → Option (LogicalPlan F A)
  | [], _, plan => some plan
  | assigner :: rest, originIdCounter, plan => do
    let inferredAssigner ← inferAssigner assigner (originIdCounter + 1)
    let plan ← plan.replaceOperator assigner.id inferredAssigner
    assignOriginIds rest (originIdCounter + 1) plan

/-- A source keeps the input that the loop gave it. -/
def recordInput (visitingOperator : OperatorNode F A) (childOriginIds : List (List Nat)) : Option (OperatorNode F A) :=
  if visitingOperator.operator.isSourceDescriptor then
    some visitingOperator
  else
    visitingOperator.withInputOriginIds childOriginIds

/-- An operator that assigns no origin of its own has the origins of its first child as output. -/
def recordOutput (copy : OperatorNode F A) (childOriginIds : List (List Nat)) : Option (OperatorNode F A) :=
  if copy.operator.hasOriginIdAssignerTrait then
    some copy
  else
    childOriginIds[0]?.bind copy.withOutputOriginIds

/-- One operator on the way up. -/
def propagateOriginIds (visitingOperator : OperatorNode F A) (newChildren : List (OperatorNode F A)) :
    Option (OperatorNode F A) := do
  let childOriginIds := newChildren.map (·.outputOriginIds)
  let copy ← recordInput visitingOperator childOriginIds
  recordOutput copy childOriginIds

def apply (queryPlan : LogicalPlan F A) : Option (LogicalPlan F A) := do
  let queryPlan ← assignOriginIds (queryPlan.getOriginIdAssigners.map label) initialOriginId queryPlan
  let newSinks ← relabelAll propagateOriginIds queryPlan.rootOperators
  some ⟨newSinks⟩

/-! ## Assigning -/

def withOrigin (node : OperatorNode F A) (originId : Nat) : OperatorNode F A :=
  { node with
    inputOriginIds := if node.operator.isSourceDescriptor then [[originId]] else node.inputOriginIds
    outputOriginIds := [originId] }

variable {node : OperatorNode F A}

lemma inferAssigner_eq (h : node.operator.hasOriginIdAssignerTrait = true)
    (originId : Nat) : inferAssigner node originId = some (withOrigin node originId) := by
  rcases node with ⟨id, operator, inputSchemas, outputSchema, inputOriginIds, outputOriginIds⟩
  cases operator with
  | sourceDescriptor _ => rfl
  | join _ _ _ => rfl
  | windowedAggregation _ _ _ _ => rfl
  | _ => cases h

/-- The number that the loop gives to the operator with the given id. -/
def originOf (assigners : List (OperatorNode F A)) (originIdCounter id : Nat) : Nat :=
  originIdCounter + 1 + (assigners.map OperatorNode.id).idxOf id

/-- A label after the loop over the given operators. -/
def assignOrigin (assigners : List (OperatorNode F A)) (originIdCounter : Nat) (node : OperatorNode F A) :
    OperatorNode F A :=
  if node.id ∈ assigners.map OperatorNode.id then withOrigin node (originOf assigners originIdCounter node.id) else node

variable {assigners : List (OperatorNode F A)}

lemma originOf_injOn {counter id id' : Nat} (hid : id ∈ assigners.map OperatorNode.id)
    (h : originOf assigners counter id = originOf assigners counter id') : id = id' := by
  have hidx : (assigners.map OperatorNode.id).idxOf id = (assigners.map OperatorNode.id).idxOf id' :=
    Nat.add_left_cancel h
  exact (idxOf_inj hid).1 hidx

lemma assignOrigin_cons {assigner : OperatorNode F A} {rest : List (OperatorNode F A)} {counter : Nat}
    (hassigner : assigner.id ∉ rest.map OperatorNode.id) (hnode : node.id = assigner.id → node = assigner) :
    assignOrigin rest (counter + 1) (replaceLabel assigner.id (withOrigin assigner (counter + 1)) node) =
      assignOrigin (assigner :: rest) counter node := by
  by_cases hid : node.id = assigner.id
  · have hmem : assigner.id ∈ (assigner :: rest).map OperatorNode.id := mem_cons_self
    have horigin : originOf (assigner :: rest) counter assigner.id = counter + 1 := by
      rw [originOf, map_cons, idxOf_cons_self]
    rw [hnode hid]
    calc
      assignOrigin rest (counter + 1) (replaceLabel assigner.id (withOrigin assigner (counter + 1)) assigner)
          = assignOrigin rest (counter + 1) (withOrigin assigner (counter + 1)) := by rw [replaceLabel, if_pos rfl]
      _ = withOrigin assigner (counter + 1) := if_neg hassigner
      _ = assignOrigin (assigner :: rest) counter assigner := by rw [assignOrigin, if_pos hmem, horigin]
  · rw [replaceLabel, if_neg hid, assignOrigin, assignOrigin]
    by_cases hmem : node.id ∈ rest.map OperatorNode.id
    · have hmem' : node.id ∈ (assigner :: rest).map OperatorNode.id := mem_cons_of_mem _ hmem
      have horigin : originOf (assigner :: rest) counter node.id = originOf rest (counter + 1) node.id := by
        rw [originOf, originOf, map_cons, idxOf_cons_ne _ (Ne.symm hid)]
        omega
      rw [if_pos hmem, if_pos hmem', horigin]
    · have hnotMem : node.id ∉ (assigner :: rest).map OperatorNode.id :=
        fun h => (mem_cons.1 h).elim hid hmem
      rw [if_neg hmem, if_neg hnotMem]

/-- The whole loop: every operator in the list gets its number, and nothing else changes. -/
lemma assignOriginIds_eq {counter : Nat} {root : LogicalOperator F A}
    (hids : (operatorIds root).Nodup) (hassigners : (assigners.map OperatorNode.id).Nodup)
    (hmem : ∀ assigner ∈ assigners, ∃ op ∈ root.subtrees, op.label = assigner)
    (htrait : ∀ assigner ∈ assigners, assigner.operator.hasOriginIdAssignerTrait = true) :
    assignOriginIds assigners counter ⟨[root]⟩ = some ⟨[mapLabels (assignOrigin assigners counter) root]⟩ := by
  induction assigners generalizing counter root with
  | nil =>
    have hid : mapLabels (assignOrigin [] counter) root = mapLabels id root :=
      mapLabels_congr fun _ _ => if_neg not_mem_nil
    rw [hid, mapLabels_id]
    rfl
  | cons assigner rest ih =>
    rw [map_cons, nodup_cons] at hassigners
    rcases hmem assigner mem_cons_self with ⟨op, hop, rfl⟩
    let replaced := replaceLabel op.label.id (withOrigin op.label (counter + 1))
    have hreplace : LogicalPlan.replaceOperator ⟨[root]⟩ op.label.id (withOrigin op.label (counter + 1)) =
        some ⟨[mapLabels replaced root]⟩ :=
      LogicalPlan.replaceOperator_eq hids (mem_operatorIds.2 ⟨op, hop, rfl⟩)
    have hids' : (operatorIds (mapLabels replaced root)).Nodup := by
      rwa [operatorIds_mapLabels fun op' _ => ?_]
      by_cases hid : op'.label.id = op.label.id
      · exact (congrArg OperatorNode.id (if_pos hid)).trans hid.symm
      · exact congrArg OperatorNode.id (if_neg hid)
    -- the other operators of the list are untouched by this round, so the next round finds them as they are
    have hmem' : ∀ assigner ∈ rest, ∃ op' ∈ (mapLabels replaced root).subtrees, op'.label = assigner := by
      intro assigner hassigner
      rcases hmem assigner (mem_cons_of_mem _ hassigner) with ⟨op', hop', rfl⟩
      refine ⟨mapLabels replaced op', ?_, ?_⟩
      · rw [subtrees_mapLabels]
        exact mem_map_of_mem hop'
      · rw [label_mapLabels]
        refine if_neg fun hid => hassigners.1 ?_
        exact mem_map.2 ⟨op'.label, hassigner, hid⟩
    rw [assignOriginIds, inferAssigner_eq (htrait _ mem_cons_self)]
    calc
      (LogicalPlan.replaceOperator ⟨[root]⟩ op.label.id (withOrigin op.label (counter + 1))).bind
          (assignOriginIds rest (counter + 1))
          = assignOriginIds rest (counter + 1) ⟨[mapLabels replaced root]⟩ := by rw [hreplace, Option.bind_some]
      _ = some ⟨[mapLabels (assignOrigin rest (counter + 1)) (mapLabels replaced root)]⟩ :=
          ih hids' hassigners.2 hmem' fun assigner hassigner => htrait assigner (mem_cons_of_mem _ hassigner)
      _ = some ⟨[mapLabels (assignOrigin (op.label :: rest) counter) root]⟩ := by
          rw [mapLabels_mapLabels, mapLabels_congr fun op' hop' => ?_]
          exact assignOrigin_cons hassigners.1 fun hid => congrArg label (eq_of_id_eq hids hop' hop hid)

/-! ## Propagating -/

/-- The operators that take the first list of origins without looking whether there are more. -/
def takesFirstInput : Operator F A → Bool
  | .selection _ | .sequence | .sink => true
  | _ => false

/-- What an operator records about its input: the origins of both children, or those of the only child, or those of
the first child. -/
structure InputRecorded (node : OperatorNode F A) (ids : List (List Nat)) (node' : OperatorNode F A) : Prop where
  operator_eq : node'.operator = node.operator
  id_eq : node'.id = node.id
  output_eq : node'.outputOriginIds = node.outputOriginIds
  of_binary : node.operator.isBinary = true → ids.length = 2 ∧ node'.inputOriginIds = ids
  of_unary : node.operator.isBinary = false → ∃ first rest, ids = first :: rest ∧ node'.inputOriginIds = [first]
  of_checked : node.operator.isBinary = false → takesFirstInput node.operator = false → ids.length = 1

variable {node' : OperatorNode F A}

lemma withInputOriginIds_spec {ids : List (List Nat)}
    (h : node.withInputOriginIds ids = some node') : InputRecorded node ids node' := by
  rcases node with ⟨id, operator, inputSchemas, outputSchema, inputOriginIds, outputOriginIds⟩
  have binary : (if ids.length = 2 then some (OperatorNode.mk id operator inputSchemas outputSchema ids outputOriginIds)
      else none) = some node' → operator.isBinary = true →
      InputRecorded ⟨id, operator, inputSchemas, outputSchema, inputOriginIds, outputOriginIds⟩ ids node' := by
    intro h hbinary
    by_cases hlength : ids.length = 2
    · rw [if_pos hlength] at h
      cases h
      exact ⟨rfl, rfl, rfl, fun _ => ⟨hlength, rfl⟩, fun h => absurd (hbinary.symm.trans h) nofun,
        fun h => absurd (hbinary.symm.trans h) nofun⟩
    · rw [if_neg hlength] at h
      cases h
  cases operator with
  | sourceName _ => cases h
  | union => exact binary h rfl
  | join _ _ _ => exact binary h rfl
  | sourceDescriptor _ =>
    match ids, h with
    | [[origin]], rfl => exact ⟨rfl, rfl, rfl, nofun, fun _ => ⟨_, _, rfl, rfl⟩, fun _ _ => rfl⟩
  | selection _ | sequence | sink =>
    match ids, h with
    | first :: rest, rfl => exact ⟨rfl, rfl, rfl, nofun, fun _ => ⟨_, _, rfl, rfl⟩, nofun⟩
  | map _ | projection _ | eventTimeWatermarkAssigner _ | ingestionTimeWatermarkAssigner
  | windowedAggregation _ _ _ _ =>
    match ids, h with
    | [first], rfl => exact ⟨rfl, rfl, rfl, nofun, fun _ => ⟨_, _, rfl, rfl⟩, fun _ _ => rfl⟩

/-- One operator on the way up: what it is does not change, a source keeps its origin, any other operator records
what its children emit, and the output is the operator's own origin or what its first child emits. -/
structure Propagated (node : OperatorNode F A) (children : List (OperatorNode F A)) (node' : OperatorNode F A) :
    Prop where
  operator_eq : node'.operator = node.operator
  id_eq : node'.id = node.id
  input_of_source : node.operator.isSourceDescriptor = true → node'.inputOriginIds = node.inputOriginIds
  input : node.operator.isSourceDescriptor = false → ∃ copy,
    InputRecorded node (children.map (·.outputOriginIds)) copy ∧ node'.inputOriginIds = copy.inputOriginIds
  output_of_assigner : node.operator.hasOriginIdAssignerTrait = true → node'.outputOriginIds = node.outputOriginIds
  output_of_forwarder : node.operator.hasOriginIdAssignerTrait = false →
    ∃ first rest, children = first :: rest ∧ node'.outputOriginIds = first.outputOriginIds

lemma withOutputOriginIds_eq {ids : List Nat}
    (h : node.withOutputOriginIds ids = some node') : node' = { node with outputOriginIds := ids } := by
  rcases node with ⟨id, operator, inputSchemas, outputSchema, inputOriginIds, outputOriginIds⟩
  cases operator with
  | sourceName _ => cases h
  | windowedAggregation _ _ _ _ =>
    by_cases hlength : ids.length = 1
    · exact (Option.some.inj ((if_pos hlength).symm.trans h)).symm
    · exact absurd ((if_neg hlength).symm.trans h) nofun
  | _ => exact (Option.some.inj h).symm

variable {children : List (OperatorNode F A)}

lemma recordOutput_spec {copy : OperatorNode F A}
    (h : recordOutput copy (children.map (·.outputOriginIds)) = some node') :
    ∃ ids, node' = { copy with outputOriginIds := ids } ∧
      (copy.operator.hasOriginIdAssignerTrait = true → ids = copy.outputOriginIds) ∧
      (copy.operator.hasOriginIdAssignerTrait = false →
        ∃ first rest, children = first :: rest ∧ ids = first.outputOriginIds) := by
  unfold recordOutput at h
  by_cases htrait : copy.operator.hasOriginIdAssignerTrait = true
  · rw [if_pos htrait] at h
    cases h
    exact ⟨_, rfl, fun _ => rfl, fun h => absurd (htrait.symm.trans h) nofun⟩
  · rw [if_neg htrait] at h
    rcases Option.bind_eq_some_iff.1 h with ⟨ids, hids, h⟩
    refine ⟨ids, withOutputOriginIds_eq h, fun h => absurd h htrait, fun _ => ?_⟩
    cases children with
    | nil => cases hids
    | cons first rest =>
      cases hids
      exact ⟨first, rest, rfl, rfl⟩

lemma propagateOriginIds_spec
    (h : propagateOriginIds node children = some node') : Propagated node children node' := by
  rcases Option.bind_eq_some_iff.1 h with ⟨copy, hcopy, h⟩
  unfold recordInput at hcopy
  by_cases hsource : node.operator.isSourceDescriptor = true
  · rw [if_pos hsource] at hcopy
    cases hcopy
    rcases recordOutput_spec h with ⟨ids, rfl, hassigner, hforwarder⟩
    exact ⟨rfl, rfl, fun _ => rfl, fun h => absurd (hsource.symm.trans h) nofun, hassigner, hforwarder⟩
  · rw [if_neg hsource] at hcopy
    have hrecorded := withInputOriginIds_spec hcopy
    rcases recordOutput_spec h with ⟨ids, rfl, hassigner, hforwarder⟩
    rw [hrecorded.operator_eq] at hassigner hforwarder
    exact ⟨hrecorded.operator_eq, hrecorded.id_eq, fun h => absurd h hsource, fun _ => ⟨copy, hrecorded, rfl⟩,
      fun htrait => (hassigner htrait).trans hrecorded.output_eq, hforwarder⟩

/-- An operator with the number of inputs that its class is meant for: two for a join, one for any other that is not
a source.  A union is not among them. -/
structure HasDeclaredInputs (node : OperatorNode F A) (inputs : Nat) : Prop where
  not_union : node.operator.isUnion = false
  join : node.operator.isJoin = true → inputs = 2
  unary : node.operator.isSourceDescriptor = false → node.operator.isJoin = false → inputs = 1

lemma propagateOriginIds_isSome
    (hname : ∀ name, node.operator ≠ .sourceName name) (h : HasDeclaredInputs node children.length) :
    ∃ node', propagateOriginIds node children = some node' := by
  rcases node with ⟨id, operator, inputSchemas, outputSchema, inputOriginIds, outputOriginIds⟩
  cases operator with
  | sourceName name => exact absurd rfl (hname name)
  | sourceDescriptor _ => exact ⟨_, rfl⟩
  | union => cases h.not_union
  | join _ _ _ =>
    rcases length_eq_two.1 (h.join rfl) with ⟨left, right, rfl⟩
    exact ⟨_, rfl⟩
  | _ =>
    rcases length_eq_one_iff.1 (h.unary rfl rfl) with ⟨child, rfl⟩
    exact ⟨_, rfl⟩

end OriginIdInferencePhase

end MobilityNebula.LegacyOptimizer
