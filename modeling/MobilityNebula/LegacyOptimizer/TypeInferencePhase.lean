import MobilityNebula.LogicalOperators.LogicalPlan

/-!
# TypeInferencePhase — schemas from the sources to the sink

The phase visits the children of an operator first and then applies the rule of the operator's class to their output
schemas.  `Writes` is the typing judgment that the phase decides: which schema the rows have that an operator writes,
given what its inputs write.  `writes_of_relabelled` says that the inferred output schema is that one, and
`withInferredSchema_spec` what an operator records about its inputs.
-/

namespace MobilityNebula.LegacyOptimizer

open LogicalOperators DataTypes Library Library.RoseTree OperatorNode Option List

variable {F A : Type} [LogicalFunctionConcept F] [WindowAggregationLogicalFunction A]

namespace TypeInferencePhase

/-- One operator on the way up; an operator without children stays as it is. -/
def propagateSchema (op : OperatorNode F A) (newChildren : List (OperatorNode F A)) : Option (OperatorNode F A) :=
  if newChildren.isEmpty then some op else op.withInferredSchema newChildren

def apply (queryPlan : LogicalPlan F A) : Option (LogicalPlan F A) := do
  let newRoots ← relabelAll propagateSchema queryPlan.rootOperators
  some ⟨newRoots⟩

/-! ## The typing judgment -/

def windowFields (qualifier : FieldName) : List Field :=
  [⟨(windowFieldNames qualifier).windowStartFieldName, .uint64⟩,
   ⟨(windowFieldNames qualifier).windowEndFieldName, .uint64⟩]

/-- The field is overwritten, or appended if the schema does not have it. -/
def AssignsField (input : Schema) (field : FieldAccessLogicalFunction) (output : Schema) : Prop :=
  if (input.getFieldByName field.fieldName).isSome then
    input.replaceTypeOfField field.fieldName field.dataType = some output
  else
    output = input.addField field.fieldName field.dataType

/-- The schema of the rows that an operator writes, by the schemas of the rows that it reads. -/
def Produces (node : OperatorNode F A) (inputs : List Schema) (output : Schema) : Prop :=
  match node.operator with
  | .sourceName _ | .sourceDescriptor _ => False
  | .selection _ | .sequence | .sink | .eventTimeWatermarkAssigner _ | .ingestionTimeWatermarkAssigner =>
    ∀ input ∈ inputs, output = input
  | .map mapFunction => ∃ input function, inputs = [input] ∧
      mapFunction.withInferredDataType input = some function ∧ AssignsField input function.fieldAccess output
  | .projection functions => ∃ input inferred, (∀ input' ∈ inputs, input = input') ∧
      functions.mapM (·.withInferredDataType input) = some inferred ∧
      output = ⟨node.outputSchema.memoryLayoutType, inferred.map (·.getField)⟩
  | .union => ∃ left right rest, inputs = left :: right :: rest ∧ output = ⟨.rowLayout, left.fields⟩
  | .join .. => ∃ left right rest sourceNameLeft sourceNameRight, inputs = left :: right :: rest ∧
      left.getSourceNameQualifier = some sourceNameLeft ∧ right.getSourceNameQualifier = some sourceNameRight ∧
      output = ⟨node.outputSchema.memoryLayoutType,
        windowFields (sourceNameLeft ++ sourceNameRight ++ [attributeNameSeparator]) ++ left.fields ++ right.fields⟩
  | .windowedAggregation groupingKey aggregationFunctions _ _ =>
    ∃ input keys functions qualifier, (∀ input' ∈ inputs, input = input') ∧
    groupingKey.mapM (·.withInferredDataType input) = some keys ∧
    aggregationFunctions.mapM (WindowAggregationLogicalFunction.inferStamp · input) = some functions ∧
    input.getQualifierNameForSystemGeneratedFieldsWithSeparator = some qualifier ∧
    output = ⟨node.outputSchema.memoryLayoutType, windowFields qualifier ++
      (keys.map fun key => ⟨key.fieldName, key.dataType⟩) ++
      functions.map fun function => ⟨(WindowAggregationLogicalFunction.asField function).fieldName,
        (WindowAggregationLogicalFunction.asField function).dataType⟩⟩

/-- The rows that an operator writes have the schema. -/
inductive Writes : LogicalOperator F A → Schema → Prop where
  | leaf (label : OperatorNode F A) : Writes (node label []) label.getOutputSchema
  | inner (label : OperatorNode F A) (children : List (LogicalOperator F A)) (inputs : List Schema) (output : Schema) :
      children ≠ [] → List.Forall₂ Writes children inputs → Produces label inputs output →
        Writes (node label children) output

/-- The rows that an operator reads from its first input have the schema; a leaf reads what it declares. -/
def Reads (op : LogicalOperator F A) (schema : Schema) : Prop :=
  match op.children with
  | [] => op.label.getInputSchemas[0]? = some schema
  | first :: _ => Writes first schema

lemma Produces.unique {node : OperatorNode F A} {inputs : List Schema} {output output' : Schema}
    (hinputs : inputs ≠ []) (h : Produces node inputs output) (h' : Produces node inputs output') :
    output = output' := by
  rcases exists_cons_of_ne_nil hinputs with ⟨input, rest, rfl⟩
  unfold Produces at h h'
  cases hoperator : node.operator with
  | sourceName _ | sourceDescriptor _ => simp only [hoperator] at h
  | selection _ | sequence | sink | eventTimeWatermarkAssigner _ | ingestionTimeWatermarkAssigner =>
    simp only [hoperator] at h h'
    exact (h input mem_cons_self).trans (h' input mem_cons_self).symm
  | map mapFunction =>
    simp only [hoperator] at h h'
    rcases h with ⟨_, function, heq, hfunction, hassigns⟩
    rcases h' with ⟨_, function', heq', hfunction', hassigns'⟩
    cases heq
    cases heq'
    cases hfunction.symm.trans hfunction'
    unfold AssignsField at hassigns hassigns'
    split at hassigns
    · rw [if_pos ‹_›] at hassigns'
      exact some.inj (hassigns.symm.trans hassigns')
    · rw [if_neg ‹_›] at hassigns'
      exact hassigns.trans hassigns'.symm
  | projection functions =>
    simp only [hoperator] at h h'
    rcases h with ⟨first, inferred, hfirst, hinferred, rfl⟩
    rcases h' with ⟨first', inferred', hfirst', hinferred', rfl⟩
    cases (hfirst input mem_cons_self).trans (hfirst' input mem_cons_self).symm
    cases hinferred.symm.trans hinferred'
    rfl
  | union =>
    simp only [hoperator] at h h'
    rcases h with ⟨left, right, others, heq, rfl⟩
    rcases h' with ⟨left', right', others', heq', rfl⟩
    cases heq.symm.trans heq'
    rfl
  | join _ _ _ =>
    simp only [hoperator] at h h'
    rcases h with ⟨left, right, others, nameLeft, nameRight, heq, hleft, hright, rfl⟩
    rcases h' with ⟨left', right', others', nameLeft', nameRight', heq', hleft', hright', rfl⟩
    cases heq.symm.trans heq'
    cases hleft.symm.trans hleft'
    cases hright.symm.trans hright'
    rfl
  | windowedAggregation groupingKey aggregationFunctions _ _ =>
    simp only [hoperator] at h h'
    rcases h with ⟨first, keys, functions, qualifier, hfirst, hkeys, hfunctions, hqualifier, rfl⟩
    rcases h' with ⟨first', keys', functions', qualifier', hfirst', hkeys', hfunctions', hqualifier', rfl⟩
    cases (hfirst input mem_cons_self).trans (hfirst' input mem_cons_self).symm
    cases hkeys.symm.trans hkeys'
    cases hfunctions.symm.trans hfunctions'
    cases hqualifier.symm.trans hqualifier'
    rfl

lemma Writes.unique {op : LogicalOperator F A} {schema schema' : Schema} (h : Writes op schema)
    (h' : Writes op schema') : schema = schema' := by
  induction op using RoseTree.induction generalizing schema schema' with
  | node label children ih =>
    have hlist : ∀ {inputs inputs'}, List.Forall₂ Writes children inputs → List.Forall₂ Writes children inputs' →
        inputs = inputs' := by
      clear h h'
      induction children with
      | nil =>
        rintro _ _ ⟨⟩ ⟨⟩
        rfl
      | cons child children ihlist =>
        rintro _ _ (_ | ⟨hhead, htail⟩) (_ | ⟨hhead', htail'⟩)
        rw [ih child mem_cons_self hhead hhead', ihlist (fun c hc => ih c (mem_cons_of_mem _ hc)) htail htail']
    cases h with
    | leaf _ =>
      cases h' with
      | leaf _ => rfl
      | inner _ _ _ _ hne _ _ => exact absurd rfl hne
    | inner _ _ inputs _ hne hinputs hproduces =>
      cases h' with
      | leaf _ => exact absurd rfl hne
      | inner _ _ inputs' _ _ hinputs' hproduces' =>
        cases hlist hinputs hinputs'
        have hinputsNe : inputs ≠ [] := by
          rintro rfl
          exact hne (length_eq_zero_iff.1 hinputs.length_eq)
        exact hproduces.unique hinputsNe hproduces'

/-! ## What an operator records -/

/-- The outcome of an operator's rule: its class stays, it writes what the judgment says, and it records the schema of
its input: the common one of all children, over which the keys of an aggregation are typed, those of the first two
children, or for a union the first input schemas of its children. -/
structure Inferred (node : OperatorNode F A) (children : List (OperatorNode F A)) (node' : OperatorNode F A) :
    Prop where
  isUnion_eq : node'.operator.isUnion = node.operator.isUnion
  isJoin_eq : node'.operator.isJoin = node.operator.isJoin
  not_source : node'.operator.isSourceDescriptor = false
  produces : Produces node (children.map getOutputSchema) node'.outputSchema
  input_of_unary : node.operator.isBinary = false →
    ∃ schema, node'.inputSchemas = [schema] ∧ (∀ child ∈ children, child.getOutputSchema = schema) ∧
      node.operator.getGroupingKeys.mapM (·.withInferredDataType schema) = some node'.operator.getGroupingKeys
  input_of_join : node.operator.isJoin = true → ∃ first second rest, children = first :: second :: rest ∧
    node'.inputSchemas = [first.getOutputSchema, second.getOutputSchema]
  input_of_union : node.operator.isUnion = true → ∃ left right, node'.inputSchemas = [left, right] ∧
    ∃ first second rest, children = first :: second :: rest ∧ (rest = [] →
      ∃ firstInput secondInput, first.getInputSchemas[0]? = some firstInput ∧
        second.getInputSchemas[0]? = some secondInput ∧ left.fields = firstInput.fields ∧
        right.fields = secondInput.fields)

variable {schema : Schema}

lemma firstSchemaOf_spec {schemas : List Schema}
    (h : firstSchemaOf schemas = some schema) : ∀ schema' ∈ schemas, schema = schema' := by
  cases schemas with
  | nil => exact nofun
  | cons first rest =>
    rw [firstSchemaOf] at h
    split at h
    · rename_i hall
      cases h
      rw [List.all_eq_true] at hall
      exact forall_mem_cons.2 ⟨rfl, fun schema' hschema' => (of_decide_eq_true (hall schema' hschema')).symm⟩
    · cases h

lemma eq_of_schemas_eq_singleton {schemas : List Schema} (h : schemas = [schema]) :
    ∀ schema' ∈ schemas, schema = schema' := by
  rw [h]
  exact fun schema' hmem => (mem_singleton.1 hmem).symm

lemma addFields_eq (schema : Schema) (fields : List Field) :
    addFields schema fields = ⟨schema.memoryLayoutType, schema.fields ++ fields⟩ := by
  induction fields generalizing schema with
  | nil => exact congrArg (Schema.mk _) (append_nil _).symm
  | cons field fields ih =>
    calc
      addFields schema (field :: fields) = addFields (schema.addField field.name field.dataType) fields := rfl
      _ = ⟨schema.memoryLayoutType, (schema.fields ++ [field]) ++ fields⟩ := ih _
      _ = ⟨schema.memoryLayoutType, schema.fields ++ field :: fields⟩ := by rw [append_assoc]; rfl

section Rules

variable {node node' : OperatorNode F A} {children : List (OperatorNode F A)}

/-- The operators with one recorded schema: it is the schema of every child. -/
lemma Inferred.unary (hbinary : node.operator.isBinary = false)
    (hbinary' : node'.operator.isBinary = false) (hsource : node'.operator.isSourceDescriptor = false)
    (hproduces : Produces node (children.map getOutputSchema) node'.outputSchema)
    (hinput : node'.inputSchemas = [schema])
    (hall : ∀ schema' ∈ children.map getOutputSchema, schema = schema')
    (hkeys : node.operator.getGroupingKeys.mapM (·.withInferredDataType schema) = some node'.operator.getGroupingKeys) :
    Inferred node children node' := by
  rcases Bool.or_eq_false_iff.1 hbinary with ⟨hunion, hjoin⟩
  rcases Bool.or_eq_false_iff.1 hbinary' with ⟨hunion', hjoin'⟩
  refine ⟨hunion'.trans hunion.symm, hjoin'.trans hjoin.symm, hsource, hproduces, fun _ => ⟨schema, hinput, ?_, hkeys⟩,
    fun h => absurd (hjoin.symm.trans h) nofun, fun h => absurd (hunion.symm.trans h) nofun⟩
  intro child hchild
  exact (hall _ (mem_map_of_mem hchild)).symm

lemma Inferred.of_selection {predicate : F} (hoperator : node.operator = .selection predicate)
    (h : inferSelection node (children.map getOutputSchema) predicate = some node') : Inferred node children node' := by
  rcases bind_eq_some_iff.1 h with ⟨schema, hschema, h⟩
  rcases bind_eq_some_iff.1 h with ⟨inferred, _, h⟩
  split at h
  · cases h
    have hinput := firstSchemaOf_spec hschema
    refine .unary (by rw [hoperator]; rfl) rfl rfl ?_ rfl hinput (by rw [hoperator]; rfl)
    rw [Produces, hoperator]
    exact hinput
  · cases h

lemma Inferred.of_map {mapFunction : FieldAssignmentLogicalFunction F} (hoperator : node.operator = .map mapFunction)
    (h : inferMap node (children.map getOutputSchema) mapFunction = some node') : Inferred node children node' := by
  unfold inferMap at h
  split at h
  · rename_i schema hschemas
    rcases bind_eq_some_iff.1 h with ⟨function, hfunction, h⟩
    have houtput : ∃ output, AssignsField schema function.fieldAccess output ∧
        node' = { node with operator := .map function, inputSchemas := [schema], outputSchema := output } := by
      unfold AssignsField
      dsimp only at h
      split at h
      · rcases bind_eq_some_iff.1 h with ⟨output, houtput, h⟩
        exact ⟨output, by rwa [if_pos ‹_›], (some.inj h).symm⟩
      · exact ⟨_, by rw [if_neg ‹_›], (some.inj h).symm⟩
    rcases houtput with ⟨output, hassigns, rfl⟩
    have hinput := eq_of_schemas_eq_singleton hschemas
    refine .unary (by rw [hoperator]; rfl) rfl rfl ?_ rfl hinput (by rw [hoperator]; rfl)
    rw [Produces, hoperator]
    exact ⟨schema, function, hschemas, hfunction, hassigns⟩
  · cases h

lemma Inferred.of_projection {functions : List (ProjectionFunction F)}
    (hoperator : node.operator = .projection functions)
    (h : inferProjection node (children.map getOutputSchema) functions = some node') :
    Inferred node children node' := by
  rcases bind_eq_some_iff.1 h with ⟨schema, hschema, h⟩
  rcases bind_eq_some_iff.1 h with ⟨inferred, hinferred, h⟩
  cases h
  have hinput := firstSchemaOf_spec hschema
  refine .unary (by rw [hoperator]; rfl) rfl rfl ?_ rfl hinput (by rw [hoperator]; rfl)
  rw [Produces, hoperator]
  exact ⟨schema, inferred, hinput, hinferred, addFields_eq _ _⟩

lemma Inferred.of_eventTimeWatermarkAssigner {onField : F}
    (hoperator : node.operator = .eventTimeWatermarkAssigner onField)
    (h : inferEventTimeWatermarkAssigner node (children.map getOutputSchema) onField
      = some node') : Inferred node children node' := by
  unfold inferEventTimeWatermarkAssigner at h
  split at h
  · rename_i schema hschemas
    rcases bind_eq_some_iff.1 h with ⟨inferred, _, h⟩
    cases h
    have hinput := eq_of_schemas_eq_singleton hschemas
    refine .unary (by rw [hoperator]; rfl) rfl rfl ?_ rfl hinput (by rw [hoperator]; rfl)
    rw [Produces, hoperator]
    exact hinput
  · cases h

lemma Inferred.of_ingestionTimeWatermarkAssigner (hoperator : node.operator = .ingestionTimeWatermarkAssigner)
    (h : inferIngestionTimeWatermarkAssigner node (children.map getOutputSchema)
      = some node') : Inferred node children node' := by
  unfold inferIngestionTimeWatermarkAssigner at h
  split at h
  · rename_i schema hschemas
    cases h
    have hinput := eq_of_schemas_eq_singleton hschemas
    have hclass : node.operator.isBinary = false ∧ node.operator.isSourceDescriptor = false ∧
        node.operator.getGroupingKeys = [] := by
      rw [hoperator]
      exact ⟨rfl, rfl, rfl⟩
    refine .unary hclass.1 hclass.1 hclass.2.1 ?_ rfl hinput ?_
    · rw [Produces, hoperator]
      exact hinput
    · rw [hclass.2.2]
      exact congrArg some hclass.2.2.symm
  · cases h

lemma Inferred.of_passThrough (hoperator : node.operator = .sequence ∨ node.operator = .sink)
    (h : inferPassThrough node (children.map getOutputSchema) = some node') : Inferred node children node' := by
  rcases bind_eq_some_iff.1 h with ⟨schema, hschema, h⟩
  cases h
  have hinput := firstSchemaOf_spec hschema
  have hclass : node.operator.isBinary = false ∧ node.operator.isSourceDescriptor = false ∧
      node.operator.getGroupingKeys = [] := by
    rcases hoperator with hoperator | hoperator <;> rw [hoperator] <;> exact ⟨rfl, rfl, rfl⟩
  refine .unary hclass.1 hclass.1 hclass.2.1 ?_ rfl hinput ?_
  · rcases hoperator with hoperator | hoperator <;> rw [Produces, hoperator] <;> exact hinput
  · rw [hclass.2.2]
    exact congrArg some hclass.2.2.symm

lemma Inferred.of_windowedAggregation {groupingKey : List FieldAccessLogicalFunction} {aggregationFunctions : List A}
    {windowType : TimeBasedWindowType} {windowMetaData : WindowMetaData}
    (hoperator : node.operator = .windowedAggregation groupingKey aggregationFunctions windowType windowMetaData)
    (h : inferWindowedAggregation node (children.map getOutputSchema) groupingKey
      aggregationFunctions windowType = some node') : Inferred node children node' := by
  rcases bind_eq_some_iff.1 h with ⟨schema, hschema, h⟩
  rcases bind_eq_some_iff.1 h with ⟨functions, hfunctions, h⟩
  rcases bind_eq_some_iff.1 h with ⟨_, _, h⟩
  rcases bind_eq_some_iff.1 h with ⟨qualifier, hqualifier, h⟩
  rcases bind_eq_some_iff.1 h with ⟨keys, hkeys, h⟩
  cases h
  have hinput := firstSchemaOf_spec hschema
  refine .unary (by rw [hoperator]; rfl) rfl rfl ?_ rfl hinput (by rw [hoperator]; exact hkeys)
  rw [Produces, hoperator]
  refine ⟨schema, keys, functions, qualifier, hinput, hkeys, hfunctions, hqualifier, ?_⟩
  rw [addFields_eq, addFields_eq]
  rfl

lemma Inferred.of_join {joinFunction : F} {windowType : TimeBasedWindowType} {windowMetaData : WindowMetaData}
    (hoperator : node.operator = .join joinFunction windowType windowMetaData)
    (h : inferJoin node (children.map getOutputSchema) joinFunction windowType
      = some node') : Inferred node children node' := by
  match children with
  | [] => cases h
  | [_] => cases h
  | first :: second :: rest =>
    rcases bind_eq_some_iff.1 h with ⟨nameLeft, hleft, h⟩
    rcases bind_eq_some_iff.1 h with ⟨nameRight, hright, h⟩
    rcases bind_eq_some_iff.1 h with ⟨_, _, h⟩
    rcases bind_eq_some_iff.1 h with ⟨_, _, h⟩
    cases h
    refine ⟨by rw [hoperator]; rfl, by rw [hoperator]; rfl, rfl, ?_, ?_, fun _ => ⟨first, second, rest, rfl, rfl⟩, ?_⟩
    · rw [Produces, hoperator]
      refine ⟨_, _, _, nameLeft, nameRight, rfl, hleft, hright, ?_⟩
      rw [addFields_eq, addFields_eq]
      rfl
    · rw [hoperator]
      exact nofun
    · rw [hoperator]
      exact nofun

lemma distinctSchemas_pair (first second : Schema) :
    distinctSchemas [first, second] = if first = second then [first] else [first, second] := by
  by_cases heq : first = second
  · simp [distinctSchemas, heq]
  · simp [distinctSchemas, heq, Ne.symm heq]

omit [LogicalFunctionConcept F] [WindowAggregationLogicalFunction A] in
lemma childSchemas_pair {first second : OperatorNode F A} {childSchemas : List Schema}
    (h : [first, second].mapM (·.getInputSchemas[0]?) = some childSchemas) :
    ∃ firstInput secondInput, first.getInputSchemas[0]? = some firstInput ∧
      second.getInputSchemas[0]? = some secondInput ∧ childSchemas = [firstInput, secondInput] := by
  simp only [mapM_cons, mapM_nil] at h
  rcases bind_eq_some_iff.1 h with ⟨firstInput, hfirst, h⟩
  rcases bind_eq_some_iff.1 h with ⟨inputs, hinputs, h⟩
  rcases bind_eq_some_iff.1 hinputs with ⟨secondInput, hsecond, hinputs⟩
  cases hinputs
  exact ⟨firstInput, secondInput, hfirst, hsecond, (some.inj h).symm⟩

lemma Inferred.of_union (hoperator : node.operator = .union)
    (h : ((children.mapM (·.getInputSchemas[0]?)).bind fun childSchemas =>
      inferUnion node (children.map getOutputSchema) childSchemas) = some node') :
    Inferred node children node' := by
  rcases bind_eq_some_iff.1 h with ⟨childSchemas, hchildSchemas, h⟩
  match children with
  | [] => cases h
  | [_] => cases h
  | first :: second :: rest =>
    simp only [inferUnion, map_cons] at h
    split at h
    · rename_i left right hleft hright
      split at h
      · cases h
      · split at h
        · cases h
        · cases h
          refine ⟨by rw [hoperator], by rw [hoperator], by rw [hoperator]; rfl, ?_, ?_, ?_, fun _ =>
            ⟨_, _, rfl, first, second, rest, rfl, ?_⟩⟩
          · rw [Produces, hoperator]
            exact ⟨_, _, _, rfl, rfl⟩
          · rw [hoperator]
            exact nofun
          · rw [hoperator]
            exact nofun
          · rintro rfl
            rcases childSchemas_pair hchildSchemas with ⟨firstInput, secondInput, hfirst, hsecond, rfl⟩
            refine ⟨firstInput, secondInput, hfirst, hsecond, ?_⟩
            rw [distinctSchemas_pair] at hleft hright
            by_cases heq : firstInput = secondInput
            · rw [if_pos heq] at hleft hright
              cases hleft
              cases hright
              subst heq
              exact ⟨rfl, rfl⟩
            · rw [if_neg heq] at hleft hright
              cases hleft
              cases hright
              exact ⟨rfl, rfl⟩
    · cases h

lemma withInferredSchema_spec (h : node.withInferredSchema children = some node') : Inferred node children node' := by
  unfold withInferredSchema at h
  cases hoperator : node.operator with
  | sourceName _ | sourceDescriptor _ =>
    rw [hoperator] at h
    cases h
  | selection predicate =>
    rw [hoperator] at h
    exact .of_selection hoperator h
  | map mapFunction =>
    rw [hoperator] at h
    exact .of_map hoperator h
  | projection functions =>
    rw [hoperator] at h
    exact .of_projection hoperator h
  | eventTimeWatermarkAssigner onField =>
    rw [hoperator] at h
    exact .of_eventTimeWatermarkAssigner hoperator h
  | ingestionTimeWatermarkAssigner =>
    rw [hoperator] at h
    exact .of_ingestionTimeWatermarkAssigner hoperator h
  | sequence =>
    rw [hoperator] at h
    exact .of_passThrough (.inl hoperator) h
  | sink =>
    rw [hoperator] at h
    exact .of_passThrough (.inr hoperator) h
  | union =>
    rw [hoperator] at h
    exact .of_union hoperator h
  | join joinFunction windowType windowMetaData =>
    rw [hoperator] at h
    exact .of_join hoperator h
  | windowedAggregation groupingKey aggregationFunctions windowType windowMetaData =>
    rw [hoperator] at h
    exact .of_windowedAggregation hoperator h

end Rules

/-- The inferred output schema is that of the rows which the operator writes. -/
lemma writes_of_relabelled {op inferred : LogicalOperator F A} (h : Relabelled propagateSchema op inferred) :
    Writes op inferred.label.getOutputSchema := by
  refine Relabelled.induction (motive := fun op inferred => Writes op inferred.label.getOutputSchema) ?_ h
  intro label children label' inferred _ ih hlabel'
  cases ih with
  | nil =>
    cases hlabel'
    exact .leaf label
  | @cons child child' children children' hchild htail =>
    have hspec := withInferredSchema_spec hlabel'
    rw [label_node, getOutputSchema_of_not_source hspec.not_source]
    refine .inner label _ _ _ nofun ?_ hspec.produces
    rw [List.map_map]
    exact .cons hchild (forall₂_map_right_iff.2 htail)

end TypeInferencePhase

end MobilityNebula.LegacyOptimizer
