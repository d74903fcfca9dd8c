import MobilityNebula.Library.RoseTree
import MobilityNebula.LogicalOperators.LogicalFunction

/-!
# LogicalOperator — the operators of a logical plan

A logical plan is a tree of operators, the sink at the root and the sources at the leaves.  Every operator records
the schemas and the origin ids of its inputs and of its output; both are filled in by the phases of the optimizer.
A failed precondition or invariant, an index out of range and a thrown exception are `none`.
-/

namespace MobilityNebula.LogicalOperators

open DataTypes Library

/-- The names of the fields that hold the bounds of a window. -/
structure WindowMetaData where
  windowStartFieldName : FieldName
  windowEndFieldName : FieldName
  deriving DecidableEq

/-- The classes of operators, with the data that only they have. -/
inductive Operator (F A : Type) where
  | sourceName (logicalSourceName : List Char)
  | sourceDescriptor (schema : Schema)
  | selection (predicate : F)
  | map (mapFunction : FieldAssignmentLogicalFunction F)
  | projection (functions : List (ProjectionFunction F))
  | eventTimeWatermarkAssigner (onField : F)
  | ingestionTimeWatermarkAssigner
  | sequence
  | union
  | join (joinFunction : F) (windowType : TimeBasedWindowType) (windowMetaData : WindowMetaData)
  | windowedAggregation (groupingKey : List FieldAccessLogicalFunction) (aggregationFunctions : List A)
      (windowType : TimeBasedWindowType) (windowMetaData : WindowMetaData)
  | sink

namespace Operator

variable {F A : Type}

def isSourceDescriptor : Operator F A → Bool
  | sourceDescriptor _ => true
  | _ => false

def isUnion : Operator F A → Bool
  | union => true
  | _ => false

def isJoin : Operator F A → Bool
  | join .. => true
  | _ => false

/-- The operators with a left and a right input. -/
def isBinary (operator : Operator F A) : Bool := operator.isUnion || operator.isJoin

/-- The operators that emit windows and configure a watermark processor with the origins of their input. -/
def isWindowed : Operator F A → Bool
  | join .. | windowedAggregation .. => true
  | _ => false

/-- Only an aggregation has keys. -/
def getGroupingKeys : Operator F A → List FieldAccessLogicalFunction
  | windowedAggregation groupingKey .. => groupingKey
  | _ => []

def hasOriginIdAssignerTrait (operator : Operator F A) : Bool := operator.isSourceDescriptor || operator.isWindowed

end Operator

structure OperatorNode (F A : Type) where
  id : Nat
  operator : Operator F A
  inputSchemas : List Schema
  outputSchema : Schema
  inputOriginIds : List (List Nat)
  outputOriginIds : List Nat

abbrev LogicalOperator (F A : Type) := RoseTree (OperatorNode F A)

namespace OperatorNode

variable {F A : Type}

/-- An operator as its constructor leaves it, with as many empty schemas as it has inputs. -/
def create (id : Nat) (operator : Operator F A) : OperatorNode F A where
  id := id
  operator := operator
  inputSchemas := if operator.isBinary then [default, default] else [default]
  outputSchema := default
  inputOriginIds := []
  outputOriginIds := []

variable (node : OperatorNode F A)

def getInputSchemas : List Schema :=
  match node.operator with
  | .sourceDescriptor schema => [schema]
  | _ => node.inputSchemas

def getOutputSchema : Schema :=
  match node.operator with
  | .sourceDescriptor schema => schema
  | _ => node.outputSchema

lemma getOutputSchema_of_not_source {node : OperatorNode F A} (h : node.operator.isSourceDescriptor = false) :
    node.getOutputSchema = node.outputSchema := by
  unfold getOutputSchema
  cases hoperator : node.operator with
  | sourceDescriptor _ => rw [hoperator] at h; cases h
  | _ => rfl

lemma getInputSchemas_of_not_source {node : OperatorNode F A} (h : node.operator.isSourceDescriptor = false) :
    node.getInputSchemas = node.inputSchemas := by
  unfold getInputSchemas
  cases hoperator : node.operator with
  | sourceDescriptor _ => rw [hoperator] at h; cases h
  | _ => rfl

/-! ## Origin ids -/

/-- Only the union, the join, the sources and the operators that check the number of their inputs look at more than
the first list. -/
def withInputOriginIds (ids : List (List Nat)) : Option (OperatorNode F A) :=
  match node.operator with
  | .sourceName _ => none
  | .sourceDescriptor _ =>
    match ids with
    | [[origin]] => some { node with inputOriginIds := [[origin]] }
    | _ => none
  | .union | .join .. => if ids.length = 2 then some { node with inputOriginIds := ids } else none
  | .selection _ | .sequence | .sink =>
    match ids with
    | first :: _ => some { node with inputOriginIds := [first] }
    | [] => none
  | .map _ | .projection _ | .eventTimeWatermarkAssigner _ | .ingestionTimeWatermarkAssigner
  | .windowedAggregation .. =>
    match ids with
    | [first] => some { node with inputOriginIds := [first] }
    | _ => none

def withOutputOriginIds (ids : List Nat) : Option (OperatorNode F A) :=
  match node.operator with
  | .sourceName _ => none
  | .windowedAggregation .. => if ids.length = 1 then some { node with outputOriginIds := ids } else none
  | _ => some { node with outputOriginIds := ids }

/-! ## Schemas -/

/-- The first schema, if all schemas equal it. -/
def firstSchemaOf : List Schema → Option Schema
  | [] => none
  | first :: rest => if rest.all (· = first) then some first else none

def withInputAndOutputSchema (schema : Schema) : OperatorNode F A :=
  { node with inputSchemas := [schema], outputSchema := schema }

/-- The schemas that differ from all before them. -/
def distinctSchemas (schemas : List Schema) : List Schema :=
  schemas.foldl (fun distinct schema => if schema ∈ distinct then distinct else distinct ++ [schema]) []

/-- The memory layout of the left (`0`) or right (`1`) schema of a binary operator. -/
def memoryLayoutOfInput (position : Nat) : MemoryLayoutType :=
  (node.inputSchemas.getD position default).memoryLayoutType

def windowFieldNames (qualifier : FieldName) : WindowMetaData :=
  ⟨qualifier ++ ['s', 't', 'a', 'r', 't'], qualifier ++ ['e', 'n', 'd']⟩

def windowSchema (layout : MemoryLayoutType) (windowMetaData : WindowMetaData) : Schema :=
  ((Schema.empty layout).addField windowMetaData.windowStartFieldName .uint64).addField
    windowMetaData.windowEndFieldName .uint64

def addFields (schema : Schema) (fields : List Field) : Schema :=
  fields.foldl (fun schema field => schema.addField field.name field.dataType) schema

variable [LogicalFunctionConcept F] [WindowAggregationLogicalFunction A]

section Rules

variable (node : OperatorNode F A) (inputSchemas : List Schema)

def inferSelection (predicate : F) : Option (OperatorNode F A) := do
  let firstSchema ← firstSchemaOf inputSchemas
  let predicate ← LogicalFunctionConcept.withInferredDataType predicate firstSchema
  if getDataType predicate = .boolean then
    some ({ node with operator := .selection predicate }.withInputAndOutputSchema firstSchema)
  else
    none

def inferMap (mapFunction : FieldAssignmentLogicalFunction F) : Option (OperatorNode F A) :=
  match inputSchemas with
  | [firstSchema] => do
    let mapFunction ← mapFunction.withInferredDataType firstSchema
    let field := mapFunction.fieldAccess
    let outputSchema ←
      if (firstSchema.getFieldByName field.fieldName).isSome then
        firstSchema.replaceTypeOfField field.fieldName field.dataType
      else
        some (firstSchema.addField field.fieldName field.dataType)
    some { node with operator := .map mapFunction, inputSchemas := [firstSchema], outputSchema := outputSchema }
  | _ => none

def inferProjection (functions : List (ProjectionFunction F)) : Option (OperatorNode F A) := do
  let firstSchema ← firstSchemaOf inputSchemas
  let functions ← functions.mapM (·.withInferredDataType firstSchema)
  let outputSchema := addFields (.empty node.outputSchema.memoryLayoutType) (functions.map (·.getField))
  some { node with operator := .projection functions, inputSchemas := [firstSchema], outputSchema := outputSchema }

def inferEventTimeWatermarkAssigner (onField : F) : Option (OperatorNode F A) :=
  match inputSchemas with
  | [inputSchema] => do
    let onField ← LogicalFunctionConcept.withInferredDataType onField inputSchema
    some ({ node with operator := .eventTimeWatermarkAssigner onField }.withInputAndOutputSchema inputSchema)
  | _ => none

def inferIngestionTimeWatermarkAssigner : Option (OperatorNode F A) :=
  match inputSchemas with
  | [inputSchema] => some (node.withInputAndOutputSchema inputSchema)
  | _ => none

/-- The sequence operator and the sink take any number of inputs of one schema. -/
def inferPassThrough : Option (OperatorNode F A) := do
  let firstSchema ← firstSchemaOf inputSchemas
  some (node.withInputAndOutputSchema firstSchema)

/-- `childSchemas` are the first input schemas of the children: the left and the right schema are taken from these,
the output schema from the output of the left child. -/
def inferUnion (childSchemas : List Schema) : Option (OperatorNode F A) :=
  match inputSchemas with
  | leftInputSchema :: rightInputSchema :: _ =>
    let distinct := distinctSchemas childSchemas
    let left := distinct[0]?
    let right := if distinct.length = 1 then distinct[0]? else distinct[1]?
    match left, right with
    | some left, some right =>
      if leftInputSchema.fields.all fun field => !leftInputSchema.contains field.name then
        none
      else if leftInputSchema.memoryLayoutType ≠ rightInputSchema.memoryLayoutType then
        none
      else
        some { node with
          inputSchemas := [(Schema.empty (node.memoryLayoutOfInput 0)).appendFieldsFromOtherSchema left,
            (Schema.empty (node.memoryLayoutOfInput 1)).appendFieldsFromOtherSchema right]
          outputSchema := (Schema.empty .rowLayout).appendFieldsFromOtherSchema leftInputSchema }
    | _, _ => none
  | _ => none

def inferJoin (joinFunction : F) (windowType : TimeBasedWindowType) : Option (OperatorNode F A) :=
  match inputSchemas with
  | leftInputSchema :: rightInputSchema :: _ => do
    let sourceNameLeft ← leftInputSchema.getSourceNameQualifier
    let sourceNameRight ← rightInputSchema.getSourceNameQualifier
    let windowMetaData := windowFieldNames (sourceNameLeft ++ sourceNameRight ++ [attributeNameSeparator])
    let outputSchema := addFields (addFields (windowSchema node.outputSchema.memoryLayoutType windowMetaData)
      leftInputSchema.fields) rightInputSchema.fields
    let inputSchema := leftInputSchema.appendFieldsFromOtherSchema rightInputSchema
    let joinFunction ← LogicalFunctionConcept.withInferredDataType joinFunction inputSchema
    let windowType ← windowType.inferStamp inputSchema
    some { node with
      operator := .join joinFunction windowType windowMetaData
      inputSchemas := [leftInputSchema, rightInputSchema]
      outputSchema := outputSchema }
  | _ => none

def inferWindowedAggregation (groupingKey : List FieldAccessLogicalFunction) (aggregationFunctions : List A)
    (windowType : TimeBasedWindowType) : Option (OperatorNode F A) := do
  let firstSchema ← firstSchemaOf inputSchemas
  let aggregationFunctions ←
    aggregationFunctions.mapM (WindowAggregationLogicalFunction.inferStamp · firstSchema)
  let windowType ← windowType.inferStamp firstSchema
  let qualifier ← firstSchema.getQualifierNameForSystemGeneratedFieldsWithSeparator
  let windowMetaData := windowFieldNames qualifier
  let groupingKey ← groupingKey.mapM (·.withInferredDataType firstSchema)
  let keyFields := groupingKey.map fun key => DataTypes.Field.mk key.fieldName key.dataType
  let resultFields := aggregationFunctions.map fun function =>
    DataTypes.Field.mk (WindowAggregationLogicalFunction.asField function).fieldName
      (WindowAggregationLogicalFunction.asField function).dataType
  let outputSchema :=
    addFields (addFields (windowSchema node.outputSchema.memoryLayoutType windowMetaData) keyFields) resultFields
  some { node with
    operator := .windowedAggregation groupingKey aggregationFunctions windowType windowMetaData
    inputSchemas := [firstSchema]
    outputSchema := outputSchema }

end Rules

/-- The rule of the operator's class, on the output schemas of its children. -/
def withInferredSchema (node : OperatorNode F A) (children : List (OperatorNode F A)) : Option (OperatorNode F A) :=
  let inputSchemas := children.map getOutputSchema
  match node.operator with
  | .sourceName _ | .sourceDescriptor _ => none
  | .selection predicate => inferSelection node inputSchemas predicate
  | .map mapFunction => inferMap node inputSchemas mapFunction
  | .projection functions => inferProjection node inputSchemas functions
  | .eventTimeWatermarkAssigner onField => inferEventTimeWatermarkAssigner node inputSchemas onField
  | .ingestionTimeWatermarkAssigner => inferIngestionTimeWatermarkAssigner node inputSchemas
  | .sequence | .sink => inferPassThrough node inputSchemas
  | .union => do inferUnion node inputSchemas (← children.mapM (·.getInputSchemas[0]?))
  | .join joinFunction windowType _ => inferJoin node inputSchemas joinFunction windowType
  | .windowedAggregation groupingKey aggregationFunctions windowType _ =>
    inferWindowedAggregation node inputSchemas groupingKey aggregationFunctions windowType

end OperatorNode

end MobilityNebula.LogicalOperators
