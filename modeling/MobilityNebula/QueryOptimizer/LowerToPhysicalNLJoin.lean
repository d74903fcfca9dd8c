import MobilityNebula.LogicalOperators.LogicalOperator

/-!
# LowerToPhysicalNLJoin — the timestamp fields of the two sides of a join

The window of a join names one timestamp field.  On each side the rule takes the first field whose name contains that
name without its source.  The right side of the physical join is the first input of the logical one.
-/

namespace MobilityNebula.QueryOptimizer

open DataTypes LogicalOperators List

variable {F A : Type}

/-- The part of a field name behind the last separator. -/
def unqualifiedName (name : FieldName) : FieldName := name.rtakeWhile (· ≠ attributeNameSeparator)

inductive TimestampField where
  | ingestionTime
  | eventTime (fieldName : FieldName)
  deriving DecidableEq

/-- An empty name if there is no such field. -/
def findTimeStampFieldName (withoutSourceName : FieldName) (schema : Schema) : FieldName :=
  match schema.fields.find? fun field => withoutSourceName <:+: field.name with
  | some field => field.name
  | none => []

/-- The timestamp fields of the first and of the second input; `substr` throws on a name without a separator. -/
def getTimestampLeftAndRight (first second : Schema) (windowType : TimeBasedWindowType) :
    Option (TimestampField × TimestampField) :=
  match windowType.timeCharacteristic with
  | .ingestionTime => some (.ingestionTime, .ingestionTime)
  | .eventTime timeStampFieldName =>
    let withoutSourceName := timeStampFieldName.dropWhile (· ≠ attributeNameSeparator)
    let left := findTimeStampFieldName withoutSourceName first
    let right := findTimeStampFieldName withoutSourceName second
    if withoutSourceName = [] ∨ left = [] ∨ right = [] then none
    else some (.eventTime left, .eventTime right)

inductive JoinBuildSideType where
  | left
  | right
  deriving DecidableEq

/-- The build operator of a side, with the schema that its memory provider and its wrapper have. -/
structure NLJBuildPhysicalOperator where
  joinBuildSide : JoinBuildSideType
  timestampField : TimestampField
  inputSchema : Schema
  deriving DecidableEq

/-- The inputs of the probe operator, and the operators that the lowered children are attached to. -/
structure RewriteRuleResultSubgraph where
  children : List NLJBuildPhysicalOperator
  leafs : List NLJBuildPhysicalOperator
  deriving DecidableEq

def LowerToPhysicalNLJoin.apply (node : OperatorNode F A) : Option RewriteRuleResultSubgraph :=
  match node.operator, node.inputOriginIds, node.outputOriginIds, node.inputSchemas with
  | .join _ windowType _, [_, _], [_], [rightInputSchema, leftInputSchema] => do
    let (timeStampFieldRight, timeStampFieldLeft) ←
      getTimestampLeftAndRight rightInputSchema leftInputSchema windowType
    let leftBuild := ⟨.left, timeStampFieldLeft, leftInputSchema⟩
    let rightBuild := ⟨.right, timeStampFieldRight, rightInputSchema⟩
    some ⟨[leftBuild, rightBuild], [rightBuild, leftBuild]⟩
  | _, _, _, _ => none

/-! ## Schemas with one timestamp -/

/-- A schema with exactly one field of an unqualified name. -/
structure TimestampSchema (unqualified : FieldName) where
  memoryLayoutType : MemoryLayoutType
  before : List Field
  timestamp : Field
  after : List Field
  named : unqualifiedName timestamp.name = unqualified
  only : ∀ field ∈ before ++ after, unqualifiedName field.name ≠ unqualified

namespace TimestampSchema

variable {unqualified withoutSourceName : FieldName} (side : TimestampSchema unqualified)

def schema : Schema := ⟨side.memoryLayoutType, side.before ++ side.timestamp :: side.after⟩

/-- The timestamp has the text from the separator on in its name, and no field before it has. -/
structure Leads (withoutSourceName : FieldName) : Prop where
  occurs : withoutSourceName <:+: side.timestamp.name
  first : ∀ field ∈ side.before, ¬withoutSourceName <:+: field.name

lemma timestamp_not_mem : side.timestamp ∉ side.before ++ side.after :=
  fun hmem => side.only side.timestamp hmem side.named

lemma find?_eq_timestamp_iff :
    side.schema.fields.find? (fun field => withoutSourceName <:+: field.name) = some side.timestamp ↔
      side.Leads withoutSourceName := by
  rw [schema, find?_append]
  cases hbefore : side.before.find? (fun field => withoutSourceName <:+: field.name) with
  | some found =>
    have hmem := mem_of_find?_eq_some hbefore
    refine iff_of_false (fun heq => ?_) fun hleads => hleads.first found hmem ?_
    · rw [Option.some.inj heq] at hmem
      exact side.timestamp_not_mem (mem_append_left _ hmem)
    · have hoccurs := find?_some hbefore
      rwa [decide_eq_true_iff] at hoccurs
  | none =>
    rw [Option.none_or]
    by_cases hoccurs : withoutSourceName <:+: side.timestamp.name
    · rw [find?_cons_of_pos (p := fun field : Field => decide (withoutSourceName <:+: field.name))
        (decide_eq_true hoccurs)]
      refine iff_of_true rfl ⟨hoccurs, fun field hfield hfieldOccurs => ?_⟩
      exact find?_eq_none.1 hbefore field hfield (decide_eq_true hfieldOccurs)
    · rw [find?_cons_of_neg (p := fun field : Field => decide (withoutSourceName <:+: field.name))
        (fun h => hoccurs (of_decide_eq_true h))]
      refine iff_of_false (fun hafter => ?_) fun hleads => hoccurs hleads.occurs
      exact side.timestamp_not_mem (mem_append_right _ (mem_of_find?_eq_some hafter))

lemma eq_timestamp_of_name_eq {field : Field} (hmem : field ∈ side.schema.fields)
    (hname : field.name = side.timestamp.name) : field = side.timestamp := by
  have hunqualified : unqualifiedName field.name = unqualified := hname ▸ side.named
  rcases mem_append.1 hmem with hbefore | hrest
  · exact absurd hunqualified (side.only field (mem_append_left _ hbefore))
  · rcases mem_cons.1 hrest with heq | hafter
    · exact heq
    · exact absurd hunqualified (side.only field (mem_append_right _ hafter))

/-- The search gives the name of the timestamp exactly if the timestamp is the first field with the text. -/
lemma findTimeStampFieldName_eq_iff (hne : withoutSourceName ≠ []) :
    (findTimeStampFieldName withoutSourceName side.schema ≠ [] ∧
      findTimeStampFieldName withoutSourceName side.schema = side.timestamp.name) ↔ side.Leads withoutSourceName := by
  rw [← side.find?_eq_timestamp_iff, findTimeStampFieldName]
  cases hfind : side.schema.fields.find? fun field => withoutSourceName <:+: field.name with
  | none => exact iff_of_false (fun h => h.1 rfl) (Option.some_ne_none _).symm
  | some found =>
    constructor
    · rintro ⟨_, hname⟩
      rw [side.eq_timestamp_of_name_eq (mem_of_find?_eq_some hfind) hname]
    · intro heq
      rw [Option.some.inj heq] at hfind ⊢
      have hoccurs := find?_some hfind
      rw [decide_eq_true_iff] at hoccurs
      exact ⟨fun hnil => hne (infix_nil.1 (hnil ▸ hoccurs)), rfl⟩

end TimestampSchema

/-- For schemas that each have exactly one field with the unqualified name of the timestamp, the two build operators
read that field of their own side exactly if on each side it is the first field whose name contains the name of the
timestamp without its source. -/
theorem build_sides_read_timestamp_iff (node : OperatorNode F A) (joinFunction : F) (windowMetaData : WindowMetaData)
    (source unqualified : FieldName) (first second : TimestampSchema unqualified) (origins origins' : List Nat)
    (origin : Nat) :
    LowerToPhysicalNLJoin.apply { node with
        operator := (.join joinFunction ⟨.eventTime (source ++ attributeNameSeparator :: unqualified)⟩
          windowMetaData : Operator F A)
        inputSchemas := [first.schema, second.schema], inputOriginIds := [origins, origins']
        outputOriginIds := [origin] } =
      some ⟨[⟨.left, .eventTime second.timestamp.name, second.schema⟩,
          ⟨.right, .eventTime first.timestamp.name, first.schema⟩],
        [⟨.right, .eventTime first.timestamp.name, first.schema⟩,
          ⟨.left, .eventTime second.timestamp.name, second.schema⟩]⟩ ↔
      ∀ side ∈ [first, second],
        side.Leads ((source ++ attributeNameSeparator :: unqualified).dropWhile (· ≠ attributeNameSeparator)) := by
  have hne : (source ++ attributeNameSeparator :: unqualified).dropWhile (· ≠ attributeNameSeparator) ≠ [] := by
    simp [dropWhile_eq_nil_iff]
  rw [forall_mem_cons, forall_mem_singleton, ← first.findTimeStampFieldName_eq_iff hne,
    ← second.findTimeStampFieldName_eq_iff hne]
  simp only [LowerToPhysicalNLJoin.apply, getTimestampLeftAndRight, hne, false_or]
  generalize findTimeStampFieldName _ first.schema = right
  generalize findTimeStampFieldName _ second.schema = left
  by_cases hempty : right = [] ∨ left = []
  · rw [if_pos hempty]
    refine iff_of_false (Option.some_ne_none _).symm ?_
    rintro ⟨⟨hright, _⟩, hleft, _⟩
    exact hempty.elim hright hleft
  · rw [if_neg hempty]
    rw [not_or] at hempty
    constructor
    · intro happly
      cases happly
      exact ⟨⟨hempty.1, rfl⟩, hempty.2, rfl⟩
    · rintro ⟨⟨_, rfl⟩, _, rfl⟩
      rfl

/-- The field `s$ts` is taken for `s$t`. -/
theorem similar_field_taken :
    getTimestampLeftAndRight ⟨.rowLayout, [⟨['s', '$', 't', 's'], .int64⟩, ⟨['s', '$', 't'], .int64⟩]⟩
        ⟨.rowLayout, [⟨['r', '$', 't'], .int64⟩]⟩ ⟨.eventTime ['s', '$', 't']⟩ =
      some (.eventTime ['s', '$', 't', 's'], .eventTime ['r', '$', 't']) := by
  decide

end MobilityNebula.QueryOptimizer
