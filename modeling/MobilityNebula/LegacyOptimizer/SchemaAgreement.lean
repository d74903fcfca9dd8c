import MobilityNebula.LegacyOptimizer.TypeInferencePhase

/-!
# SchemaAgreement — recorded schemas and written rows

For every edge of a typed plan, the schema that the parent records for that input and the schema with which the
lowered parent reads it, against the schema with which the child writes.  `schema_agreement_iff` says on which plans
they agree.
-/

namespace MobilityNebula.LegacyOptimizer

open LogicalOperators DataTypes Library Library.RoseTree TypeInferencePhase OperatorNode List

variable {F A : Type}

/-! ## Edges -/

/-- The schema that an operator records for the input at a position; the operators with one schema record it for all
their inputs. -/
def recordedInput (node : OperatorNode F A) (position : Nat) : Option Schema :=
  if node.operator.isBinary then node.getInputSchemas[position]? else node.getInputSchemas[0]?

/-- `newInputSchema` in `LowerToPhysicalWindowedAggregation`: a key of variable size is a pointer in the hash map, and
the build reads its input with the schema of the hash map. -/
def newInputSchema (groupingKeys : List FieldAccessLogicalFunction) (inputSchema : Schema) : Option Schema :=
  groupingKeys.foldlM (fun schema key =>
    if key.dataType = .varsized then schema.replaceTypeOfField key.fieldName .varsizedPointerRep else some schema)
    inputSchema

/-- The schema with which the lowered operator reads the input at a position.  The builds of a join have a schema
each; every other operator, the union included, is lowered with its first input schema, an aggregation with what it
makes of it. -/
def loweredInput (node : OperatorNode F A) (position : Nat) : Option Schema :=
  if node.operator.isJoin then
    node.getInputSchemas[position]?
  else
    node.getInputSchemas[0]?.bind (newInputSchema node.operator.getGroupingKeys)

/-- The parent records the child's output schema, and the lowered parent reads rows of the layout in which the child
writes them. -/
structure EdgeAgrees (parent : OperatorNode F A) (position : Nat) (child : OperatorNode F A) : Prop where
  recorded : ∃ schema, recordedInput parent position = some schema ∧ schema.fields = child.getOutputSchema.fields
  lowered : ∃ schema, loweredInput parent position = some schema ∧ schema.columns = child.getOutputSchema.columns

def EdgesAgree (parent : OperatorNode F A) (children : List (LogicalOperator F A)) : Prop :=
  ∀ position child, children[position]? = some child → EdgeAgrees parent position child.label

def SchemasAgree (root : LogicalOperator F A) : Prop := ∀ op ∈ root.subtrees, EdgesAgree op.label op.children

variable {label : OperatorNode F A}

lemma schemasAgree_node {children : List (LogicalOperator F A)} :
    SchemasAgree (node label children) ↔ EdgesAgree label children ∧ ∀ child ∈ children, SchemasAgree child := by
  constructor
  · intro h
    refine ⟨h _ (mem_subtrees_self _), fun child hchild op hop => h op ?_⟩
    exact mem_subtrees_node.2 (.inr ⟨child, hchild, hop⟩)
  · rintro ⟨hedges, hchildren⟩ op hop
    rcases mem_subtrees_node.1 hop with rfl | ⟨child, hchild, hop⟩
    · exact hedges
    · exact hchildren child hchild op hop

lemma length_le_two_of_edgesAgree {inferred : List (LogicalOperator F A)}
    {left right : Schema} (hrecorded : ∀ position, recordedInput label position = [left, right][position]?)
    (hedges : EdgesAgree label inferred) : inferred.length ≤ 2 := by
  by_contra hlength
  have hthird : inferred[2]? = some inferred[2] := getElem?_eq_getElem (Nat.lt_of_not_le hlength)
  rcases (hedges 2 _ hthird).recorded with ⟨schema, hschema, _⟩
  rw [hrecorded] at hschema
  cases hschema

/-! ## Keys of variable size -/

/-- The field that a name stands for is the first one with its full name. -/
lemma findIdx_of_getFieldByName {schema : Schema} {fieldName : FieldName} {field : Field}
    (h : schema.getFieldByName fieldName = some field) :
    ∃ index, (schema.fields.findIdx? fun other => other.name = field.name) = some index ∧
      schema.fields[index]? = some field := by
  have hfirst : ∃ p : Field → Bool, schema.fields.find? p = some field ∧
      ∀ other, other.name = field.name → p other = true := by
    unfold Schema.getFieldByName at h
    split at h
    case h_1 other hexact =>
      cases h
      refine ⟨_, hexact, fun other hother => ?_⟩
      have hfield := find?_some hexact
      rwa [← hother] at hfield
    case h_2 =>
      refine ⟨_, h, fun other hother => ?_⟩
      have hfield := find?_some h
      rwa [← hother] at hfield
  rcases hfirst with ⟨p, hfind, hp⟩
  rcases (find?_eq_some_iff_getElem.1 hfind).2 with ⟨index, hindex, hfield, hbefore⟩
  refine ⟨index, findIdx?_eq_some_iff_getElem.2 ⟨hindex, decide_eq_true (congrArg Field.name hfield), ?_⟩, ?_⟩
  · intro other hother hname
    have hnot := hbefore other hother
    rw [hp _ (of_decide_eq_true hname)] at hnot
    cases hnot
  · rw [getElem?_eq_getElem hindex, hfield]

lemma columns_replaceTypeOfField {schema replaced : Schema} {name : FieldName} {dataType : DataType}
    (h : schema.replaceTypeOfField name dataType = some replaced) :
    ∃ index, (schema.fields.findIdx? fun other => other.name = name) = some index ∧
      replaced.columns = schema.columns.modify index fun _ => dataType := by
  unfold Schema.replaceTypeOfField at h
  split at h
  case h_1 index hindex =>
    cases h
    refine ⟨index, hindex, ext_getElem? fun i => ?_⟩
    simp only [Schema.columns, getElem?_map, getElem?_modify]
    cases schema.fields[i]? with
    | none => rfl
    | some field =>
      by_cases heq : index = i
      · simp only [heq, if_true, Option.map_eq_map, Option.map_some]
      · simp only [heq, if_false, Option.map_eq_map, Option.map_some]
  case h_2 => cases h

lemma pointer_of_newInputSchema {keys : List FieldAccessLogicalFunction} {schema replaced : Schema} {index : Nat}
    (h : newInputSchema keys schema = some replaced) (hpointer : schema.columns[index]? = some .varsizedPointerRep) :
    replaced.columns[index]? = some .varsizedPointerRep := by
  induction keys generalizing schema with
  | nil =>
    cases h
    exact hpointer
  | cons key keys ih =>
    rcases Option.bind_eq_some_iff.1 h with ⟨next, hnext, hrest⟩
    refine ih hrest ?_
    dsimp only at hnext
    split at hnext
    case isTrue =>
      rcases columns_replaceTypeOfField hnext with ⟨other, _, hcolumns⟩
      rw [hcolumns, getElem?_modify, hpointer]
      by_cases heq : other = index
      · exact congrArg some (if_pos heq)
      · exact congrArg some (if_neg heq)
    case isFalse =>
      cases hnext
      exact hpointer

/-- The layout of the build's input is that of the rows exactly if no key names a field of variable size. -/
lemma newInputSchema_columns_iff {groupingKeys keys : List FieldAccessLogicalFunction} {schema : Schema}
    (h : groupingKeys.mapM (·.withInferredDataType schema) = some keys) :
    (∃ replaced, newInputSchema keys schema = some replaced ∧ replaced.columns = schema.columns) ↔
      ∀ key ∈ groupingKeys, ∀ field, schema.getFieldByName key.fieldName = some field → field.dataType ≠ .varsized := by
  induction groupingKeys generalizing keys with
  | nil =>
    cases h
    exact ⟨fun _ _ hkey => absurd hkey not_mem_nil, fun _ => ⟨schema, rfl, rfl⟩⟩
  | cons key groupingKeys ih =>
    rw [mapM_cons] at h
    rcases Option.bind_eq_some_iff.1 h with ⟨_, hkey, h⟩
    rcases Option.bind_eq_some_iff.1 h with ⟨keys, hkeys, h⟩
    rcases Option.bind_eq_some_iff.1 hkey with ⟨field, hfield, heq⟩
    cases heq
    cases h
    by_cases hvarsized : field.dataType = .varsized
    · refine ⟨?_, fun hall => absurd hvarsized (hall key mem_cons_self field hfield)⟩
      rintro ⟨replaced, hreplaced, hcolumns⟩
      rcases Option.bind_eq_some_iff.1 hreplaced with ⟨next, hnext, hrest⟩
      rcases findIdx_of_getFieldByName hfield with ⟨index, hindex, hat⟩
      rcases columns_replaceTypeOfField ((if_pos hvarsized).symm.trans hnext) with ⟨index', hindex', hnextColumns⟩
      cases hindex.symm.trans hindex'
      have hbefore : schema.columns[index]? = some .varsized := by
        rw [Schema.columns, getElem?_map, hat, ← hvarsized]
        rfl
      have hafter : next.columns[index]? = some .varsizedPointerRep := by
        rw [hnextColumns, getElem?_modify, hbefore]
        exact congrArg some (if_pos rfl)
      have hpointer := pointer_of_newInputSchema hrest hafter
      rw [hcolumns, hbefore] at hpointer
      cases hpointer
    · have hskip : newInputSchema (⟨field.name, field.dataType⟩ :: keys) schema = newInputSchema keys schema := by
        rw [newInputSchema, foldlM_cons, if_neg hvarsized]
        rfl
      rw [hskip, ih hkeys, forall_mem_cons]
      refine ⟨fun hall => ⟨fun other hother => ?_, hall⟩, fun hall => hall.2⟩
      cases hfield.symm.trans hother
      exact hvarsized

variable [LogicalFunctionConcept F] [WindowAggregationLogicalFunction A]

/-! ## Operators that keep their schema -/

/-- An operator with a left and a right input has no third one, the inputs of a union write the schema that they
read and rows of one layout, and no key of an aggregation is of variable size. -/
structure KeepsSchemas (op : LogicalOperator F A) : Prop where
  two_inputs : op.label.operator.isBinary = true → op.children.length ≤ 2
  same_schema : op.label.operator.isUnion = true → ∀ child ∈ op.children, ∀ written read,
    Writes child written → Reads child read → read.fields = written.fields
  same_layout : op.label.operator.isUnion = true → ∀ child ∈ op.children, ∀ child' ∈ op.children,
    ∀ written written', Writes child written → Writes child' written' → written.columns = written'.columns
  fixed_keys : ∀ key ∈ op.label.operator.getGroupingKeys, ∀ child ∈ op.children, ∀ written field,
    Writes child written → written.getFieldByName key.fieldName = some field → field.dataType ≠ .varsized

variable {op inferred : LogicalOperator F A}

/-- What an operator reads from its first input is what it records for it, if the edges below it agree. -/
lemma fields_eq_of_reads (h : Relabelled propagateSchema op inferred)
    (hagree : SchemasAgree inferred) {recorded read : Schema}
    (hrecorded : inferred.label.getInputSchemas[0]? = some recorded) (hread : Reads op read) :
    read.fields = recorded.fields := by
  cases h with
  | node label children label' inferred hchildren hlabel' =>
    cases hchildren with
    | nil =>
      cases hlabel'
      cases hread.symm.trans hrecorded
      rfl
    | @cons child child' _ rest hchild _ =>
      have hread' : Writes child read := hread
      have hedge := (schemasAgree_node.1 hagree).1 0 child' rfl
      rcases hedge.recorded with ⟨schema, hschema, hfields⟩
      have hfirst : recordedInput label' 0 = label'.getInputSchemas[0]? := by
        unfold recordedInput
        split <;> rfl
      rw [hfirst] at hschema
      cases hschema.symm.trans hrecorded
      rw [hfields, hread'.unique (writes_of_relabelled hchild)]

lemma exists_reads (h : Relabelled propagateSchema op inferred)
    {recorded : Schema} (hrecorded : inferred.label.getInputSchemas[0]? = some recorded) : ∃ read, Reads op read := by
  cases h with
  | node label children label' inferred hchildren hlabel' =>
    cases hchildren with
    | nil =>
      cases hlabel'
      exact ⟨recorded, hrecorded⟩
    | @cons child child' _ _ hchild _ => exact ⟨_, (writes_of_relabelled hchild : Writes child _)⟩

/-! ## One operator -/

section Step

variable {label label' : OperatorNode F A} {children inferred : List (LogicalOperator F A)}

lemma edgesAgree_of_unary {first : LogicalOperator F A}
    (h : Inferred label ((first :: inferred).map RoseTree.label) label') (hbinary : label.operator.isBinary = false) :
    EdgesAgree label' (first :: inferred) ↔ ∀ key ∈ label.operator.getGroupingKeys, ∀ field,
      first.label.getOutputSchema.getFieldByName key.fieldName = some field → field.dataType ≠ .varsized := by
  rcases h.input_of_unary hbinary with ⟨schema, hinput, hall, hkeys⟩
  rcases Bool.or_eq_false_iff.1 hbinary with ⟨hunion, hjoin⟩
  have hjoin' : label'.operator.isJoin = false := h.isJoin_eq.trans hjoin
  have hbinary' : label'.operator.isBinary = false := Bool.or_eq_false_iff.2 ⟨h.isUnion_eq.trans hunion, hjoin'⟩
  have hschema : ∀ child ∈ first :: inferred, child.label.getOutputSchema = schema :=
    fun child hchild => hall _ (mem_map_of_mem hchild)
  have hlowered : ∀ position, loweredInput label' position = newInputSchema label'.operator.getGroupingKeys schema := by
    intro position
    rw [loweredInput, hjoin', if_neg Bool.false_ne_true, getInputSchemas_of_not_source h.not_source, hinput]
    rfl
  rw [hschema first mem_cons_self, ← newInputSchema_columns_iff hkeys]
  constructor
  · intro hedges
    rcases (hedges 0 first rfl).lowered with ⟨replaced, hreplaced, hcolumns⟩
    rw [hlowered] at hreplaced
    rw [hschema first mem_cons_self] at hcolumns
    exact ⟨replaced, hreplaced, hcolumns⟩
  · rintro ⟨replaced, hreplaced, hcolumns⟩ position child hchild
    have hchild' := hschema child (mem_of_getElem? hchild)
    refine ⟨⟨schema, ?_, hchild' ▸ rfl⟩, ⟨replaced, (hlowered position).trans hreplaced, hchild' ▸ hcolumns⟩⟩
    rw [recordedInput, hbinary', if_neg Bool.false_ne_true, getInputSchemas_of_not_source h.not_source, hinput]
    rfl

omit [LogicalFunctionConcept F] [WindowAggregationLogicalFunction A] in
lemma getGroupingKeys_of_isBinary (h : label.operator.isBinary = true) : label.operator.getGroupingKeys = [] := by
  cases hoperator : label.operator with
  | windowedAggregation => rw [hoperator] at h; cases h
  | _ => rfl

lemma recordedInput_of_binary {labels : List (OperatorNode F A)} (h : Inferred label labels label')
    (hbinary : label'.operator.isBinary = true) {schemas : List Schema} (hinput : label'.inputSchemas = schemas)
    (position : Nat) : recordedInput label' position = schemas[position]? := by
  rw [recordedInput, if_pos hbinary, getInputSchemas_of_not_source h.not_source, hinput]

lemma edgesAgree_of_join (h : Inferred label (inferred.map RoseTree.label) label')
    (hjoin : label.operator.isJoin = true) : EdgesAgree label' inferred ↔ inferred.length ≤ 2 := by
  have hjoin' : label'.operator.isJoin = true := h.isJoin_eq.trans hjoin
  have hbinary' : label'.operator.isBinary = true := Bool.or_eq_true_iff.2 (.inr hjoin')
  rcases h.input_of_join hjoin with ⟨first, second, rest, hchildren, hinput⟩
  have hrecorded := recordedInput_of_binary h hbinary' hinput
  have hlowered : ∀ position, loweredInput label' position =
      [first.getOutputSchema, second.getOutputSchema][position]? := by
    intro position
    rw [loweredInput, if_pos hjoin', getInputSchemas_of_not_source h.not_source, hinput]
  constructor
  · exact length_le_two_of_edgesAgree hrecorded
  · intro hlength
    match inferred, hchildren with
    | [left, right], hchildren =>
      cases hchildren
      intro position child hchild
      match position, hchild with
      | 0, rfl => exact ⟨⟨_, hrecorded 0, rfl⟩, ⟨_, hlowered 0, rfl⟩⟩
      | 1, rfl => exact ⟨⟨_, hrecorded 1, rfl⟩, ⟨_, hlowered 1, rfl⟩⟩

/-- A union with two children records the first input schemas of its children, and is lowered with the left one. -/
lemma edgesAgree_of_union_pair {first second : LogicalOperator F A}
    (h : Inferred label [first.label, second.label] label') (hunion : label.operator.isUnion = true) :
    ∃ firstInput secondInput, first.label.getInputSchemas[0]? = some firstInput ∧
      second.label.getInputSchemas[0]? = some secondInput ∧
      (EdgesAgree label' [first, second] ↔ firstInput.fields = first.label.getOutputSchema.fields ∧
        secondInput.fields = second.label.getOutputSchema.fields ∧
        firstInput.columns = second.label.getOutputSchema.columns) := by
  have hunion' : label'.operator.isUnion = true := h.isUnion_eq.trans hunion
  have hbinary' : label'.operator.isBinary = true := Bool.or_eq_true_iff.2 (.inl hunion')
  have hjoin' : label'.operator.isJoin = false := by
    cases hoperator : label'.operator with
    | union => rfl
    | _ => rw [hoperator] at hunion'; cases hunion'
  rcases h.input_of_union hunion with ⟨left, right, hinput, _, _, rest, hchildren, hschemas⟩
  cases hchildren
  rcases hschemas rfl with ⟨firstInput, secondInput, hfirst, hsecond, hleft, hright⟩
  have hrecorded := recordedInput_of_binary h hbinary' hinput
  have hlowered : ∀ position, loweredInput label' position = some left := by
    intro position
    rw [loweredInput, hjoin', if_neg Bool.false_ne_true, getInputSchemas_of_not_source h.not_source, hinput,
      getGroupingKeys_of_isBinary hbinary']
    rfl
  have hcolumns : left.columns = firstInput.columns := congrArg (map Field.dataType) hleft
  refine ⟨firstInput, secondInput, hfirst, hsecond, ?_, ?_⟩
  · intro hedges
    rcases (hedges 0 first rfl).recorded with ⟨_, hzero, hfields⟩
    rcases (hedges 1 second rfl).recorded with ⟨_, hone, hfields'⟩
    rcases (hedges 1 second rfl).lowered with ⟨_, hread, hlayout⟩
    cases (hrecorded 0).symm.trans hzero
    cases (hrecorded 1).symm.trans hone
    cases (hlowered 1).symm.trans hread
    exact ⟨hleft.symm.trans hfields, hright.symm.trans hfields', hcolumns.symm.trans hlayout⟩
  · rintro ⟨hfields, hfields', hlayout⟩ position child hchild
    match position, hchild with
    | 0, rfl =>
      exact ⟨⟨left, hrecorded 0, hleft.trans hfields⟩,
        ⟨left, hlowered 0, hcolumns.trans (congrArg (map Field.dataType) hfields)⟩⟩
    | 1, rfl => exact ⟨⟨right, hrecorded 1, hright.trans hfields'⟩, ⟨left, hlowered 1, hcolumns.trans hlayout⟩⟩

lemma edgesAgree_pair_iff {op op' first second : LogicalOperator F A}
    (h : Inferred label [first.label, second.label] label') (hunion : label.operator.isUnion = true)
    (hop : Relabelled propagateSchema op first) (hop' : Relabelled propagateSchema op' second)
    (hagree : SchemasAgree first) (hagree' : SchemasAgree second) :
    EdgesAgree label' [first, second] ↔ KeepsSchemas (node label [op, op']) := by
  rcases edgesAgree_of_union_pair h hunion with ⟨firstInput, secondInput, hfirst, hsecond, hiff⟩
  have hwrites := writes_of_relabelled hop
  have hwrites' := writes_of_relabelled hop'
  have hmem' : op' ∈ [op, op'] := mem_cons_of_mem _ mem_cons_self
  rw [hiff]
  constructor
  · rintro ⟨hkeeps, hkeeps', hlayout⟩
    have hsame : first.label.getOutputSchema.columns = second.label.getOutputSchema.columns :=
      (congrArg (map Field.dataType) hkeeps).symm.trans hlayout
    refine ⟨fun _ => Nat.le_refl 2, fun _ child hchild written read hwritten hread => ?_,
      fun _ child hchild child' hchild' written written' hwritten hwritten' => ?_, fun key hkey => ?_⟩
    · rcases mem_pair.1 hchild with rfl | rfl
      · rw [fields_eq_of_reads hop hagree hfirst hread, hkeeps, hwritten.unique hwrites]
      · rw [fields_eq_of_reads hop' hagree' hsecond hread, hkeeps', hwritten.unique hwrites']
    · rcases mem_pair.1 hchild with rfl | rfl <;> rcases mem_pair.1 hchild' with rfl | rfl
      · rw [hwritten.unique hwritten']
      · rw [hwritten.unique hwrites, hwritten'.unique hwrites', hsame]
      · rw [hwritten.unique hwrites', hwritten'.unique hwrites, hsame]
      · rw [hwritten.unique hwritten']
    · rw [label_node, getGroupingKeys_of_isBinary (Bool.or_eq_true_iff.2 (.inl hunion))] at hkey
      cases hkey
  · intro hkeeps
    rcases exists_reads hop hfirst with ⟨read, hread⟩
    rcases exists_reads hop' hsecond with ⟨read', hread'⟩
    have hfields : firstInput.fields = first.label.getOutputSchema.fields :=
      (fields_eq_of_reads hop hagree hfirst hread).symm.trans
        (hkeeps.same_schema hunion op mem_cons_self _ _ hwrites hread)
    have hfields' : secondInput.fields = second.label.getOutputSchema.fields :=
      (fields_eq_of_reads hop' hagree' hsecond hread').symm.trans
        (hkeeps.same_schema hunion op' hmem' _ _ hwrites' hread')
    refine ⟨hfields, hfields', (congrArg (map Field.dataType) hfields).trans ?_⟩
    exact hkeeps.same_layout hunion op mem_cons_self op' hmem' _ _ hwrites hwrites'

/-- A union agrees with its children if there are two and they keep their schemas. -/
lemma edgesAgree_of_union (h : Inferred label (inferred.map RoseTree.label) label')
    (hunion : label.operator.isUnion = true) (hrelabelled : List.Forall₂ (Relabelled propagateSchema) children inferred)
    (hagree : ∀ op ∈ inferred, SchemasAgree op) : EdgesAgree label' inferred ↔ KeepsSchemas (node label children) := by
  have hbinary' : label'.operator.isBinary = true := Bool.or_eq_true_iff.2 (.inl (h.isUnion_eq.trans hunion))
  rcases h.input_of_union hunion with ⟨_, _, hinput, _, _, _, hlabels, _⟩
  match inferred, hlabels with
  | first :: second :: rest, _ =>
    rcases forall₂_cons_right_iff.1 hrelabelled with ⟨op, _, hop, htail, rfl⟩
    rcases forall₂_cons_right_iff.1 htail with ⟨op', others, hop', hrest, rfl⟩
    -- a third child breaks both sides
    cases hrest with
    | nil =>
      exact edgesAgree_pair_iff h hunion hop hop' (hagree first mem_cons_self)
        (hagree second (mem_cons_of_mem _ mem_cons_self))
    | cons _ _ =>
      have hlong : ∀ {n : Nat}, ¬n + 1 + 1 + 1 ≤ 2 := by omega
      constructor
      · intro hedges
        exact absurd (length_le_two_of_edgesAgree (recordedInput_of_binary h hbinary' hinput) hedges) hlong
      · intro hkeeps
        exact absurd (hkeeps.two_inputs (Bool.or_eq_true_iff.2 (.inl hunion))) hlong

/-- One operator, given that everything below it agrees. -/
lemma edgesAgree_iff (hlabel' : propagateSchema label (inferred.map RoseTree.label) = some label')
    (hrelabelled : List.Forall₂ (Relabelled propagateSchema) children inferred)
    (hagree : ∀ op ∈ inferred, SchemasAgree op) : EdgesAgree label' inferred ↔ KeepsSchemas (node label children) := by
  cases hrelabelled with
  | nil =>
    refine ⟨fun _ => ⟨fun _ => Nat.zero_le 2, fun _ _ hchild => ?_, fun _ _ hchild => ?_, fun _ _ _ hchild => ?_⟩,
      fun _ position child h => ?_⟩
    · cases hchild
    · cases hchild
    · cases hchild
    · cases h
  | @cons op first ops rest hop hops =>
    have hspec : Inferred label ((first :: rest).map RoseTree.label) label' := withInferredSchema_spec hlabel'
    have hlength : (op :: ops).length = (first :: rest).length := (List.Forall₂.cons hop hops).length_eq
    by_cases hunion : label.operator.isUnion = true
    · exact edgesAgree_of_union hspec hunion (.cons hop hops) hagree
    · by_cases hjoin : label.operator.isJoin = true
      · rw [edgesAgree_of_join hspec hjoin]
        refine ⟨fun hle => ⟨fun _ => Nat.le_trans (Nat.le_of_eq hlength) hle, fun h => absurd h hunion,
          fun h => absurd h hunion, fun key hkey => ?_⟩, fun h => ?_⟩
        · rw [label_node, getGroupingKeys_of_isBinary (Bool.or_eq_true_iff.2 (.inr hjoin))] at hkey
          cases hkey
        · exact Nat.le_trans (Nat.le_of_eq hlength.symm) (h.two_inputs (Bool.or_eq_true_iff.2 (.inr hjoin)))
      · have hbinary : label.operator.isBinary = false :=
          Bool.or_eq_false_iff.2 ⟨Bool.eq_false_iff.2 hunion, Bool.eq_false_iff.2 hjoin⟩
        -- all children write the schema of the first one
        rcases hspec.input_of_unary hbinary with ⟨schema, _, hall, _⟩
        have hwrites : ∀ child ∈ op :: ops, ∀ written, Writes child written →
            written = first.label.getOutputSchema := by
          intro child hchild written hwritten
          rcases getElem_of_mem hchild with ⟨i, hi, rfl⟩
          have hwrites := writes_of_relabelled ((forall₂_iff_get.1 (.cons hop hops)).2 i hi (hlength ▸ hi))
          rw [hwritten.unique hwrites, hall _ (mem_map_of_mem (get_mem _ _)), hall _ (mem_map_of_mem mem_cons_self)]
        rw [edgesAgree_of_unary hspec hbinary]
        constructor
        · intro hfixed
          refine ⟨fun h => absurd (hbinary.symm.trans h) Bool.false_ne_true, fun h => absurd h hunion,
            fun h => absurd h hunion, fun key hkey child hchild written field hwritten hfield => ?_⟩
          rw [hwrites child hchild written hwritten] at hfield
          exact hfixed key hkey field hfield
        · intro hkeeps key hkey field hfield
          exact hkeeps.fixed_keys key hkey op mem_cons_self _ field (writes_of_relabelled hop) hfield

end Step

/-! ## The whole plan -/

lemma schemasAgree_iff (h : Relabelled propagateSchema op inferred) :
    SchemasAgree inferred ↔ ∀ op' ∈ op.subtrees, KeepsSchemas op' := by
  refine Relabelled.induction (motive := fun op inferred =>
    SchemasAgree inferred ↔ ∀ op' ∈ op.subtrees, KeepsSchemas op') ?_ h
  intro label children label' inferred hrelabelled ih hlabel'
  have hbelow : (∀ op ∈ inferred, SchemasAgree op) ↔ ∀ child ∈ children, ∀ op' ∈ child.subtrees, KeepsSchemas op' := by
    clear hlabel' hrelabelled
    induction ih with
    | nil => exact ⟨fun _ => nofun, fun _ => nofun⟩
    | cons hhead _ ih => rw [forall_mem_cons, forall_mem_cons, hhead, ih]
  rw [schemasAgree_node]
  constructor
  · rintro ⟨hedges, hagree⟩ op' hop'
    rcases mem_subtrees_node.1 hop' with rfl | ⟨child, hchild, hop'⟩
    · exact (edgesAgree_iff hlabel' hrelabelled hagree).1 hedges
    · exact hbelow.1 hagree child hchild op' hop'
  · intro hkeeps
    have hagree := hbelow.2 fun child hchild op' hop' => hkeeps op' (mem_subtrees_node.2 (.inr ⟨child, hchild, hop'⟩))
    exact ⟨(edgesAgree_iff hlabel' hrelabelled hagree).2 (hkeeps _ (mem_subtrees_self _)), hagree⟩

def twoFields : Schema := ⟨.rowLayout, [⟨['s', '$', 'a'], .uint64⟩, ⟨['s', '$', 'b'], .uint64⟩]⟩

def sourceWithTwoFields (id : Nat) : LogicalOperator FieldAccessLogicalFunction SumAggregationLogicalFunction :=
  node (.create id (.sourceDescriptor twoFields)) []

def unionOfSources : LogicalOperator FieldAccessLogicalFunction SumAggregationLogicalFunction :=
  node (.create 1 .sink) [node (.create 2 .union) [sourceWithTwoFields 3, sourceWithTwoFields 4]]

def unionOfProjections : LogicalOperator FieldAccessLogicalFunction SumAggregationLogicalFunction :=
  node (.create 1 .sink) [node (.create 2 .union)
    [node (.create 3 (.projection [.fieldAccess ⟨['b'], .undefined⟩])) [sourceWithTwoFields 4],
     node (.create 5 (.projection [.fieldAccess ⟨['b'], .undefined⟩])) [sourceWithTwoFields 6]]]

end MobilityNebula.LegacyOptimizer
