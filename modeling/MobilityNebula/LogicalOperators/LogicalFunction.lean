import MobilityNebula.DataTypes.Schema

/-!
# LogicalFunction — typing of the functions in operators

Field accesses and field assignments are the functions that the operators look into.  Predicates, assigned
functions, join functions and aggregation functions are only asked for their types, so the development is generic
in them.  A typing that throws is `none`.
-/

namespace MobilityNebula.LogicalOperators

open DataTypes

/-- A function that can be typed over a schema. -/
class LogicalFunctionConcept (F : Type) where
  withInferredDataType : F → Schema → Option F
  getDataType : F → DataType

export LogicalFunctionConcept (getDataType)

/-! ## Field accesses -/

structure FieldAccessLogicalFunction where
  fieldName : FieldName
  dataType : DataType
  deriving DecidableEq

namespace FieldAccessLogicalFunction

/-- The type and the full name of the field; fails with `CannotInferSchema` if there is none. -/
def withInferredDataType (function : FieldAccessLogicalFunction) (schema : Schema) :
    Option FieldAccessLogicalFunction := do
  let existingField ← schema.getFieldByName function.fieldName
  some ⟨existingField.name, existingField.dataType⟩

instance : LogicalFunctionConcept FieldAccessLogicalFunction where
  withInferredDataType := withInferredDataType
  getDataType := dataType

end FieldAccessLogicalFunction

/-! ## Field assignments -/

structure FieldAssignmentLogicalFunction (F : Type) where
  dataType : DataType
  fieldAccess : FieldAccessLogicalFunction
  logicalFunction : F

namespace FieldAssignmentLogicalFunction

variable {F : Type} [LogicalFunctionConcept F]

/-- The full name of the assigned field: that of the field it overwrites, or a new one with the qualifier of the
schema. -/
def inferField (function : FieldAssignmentLogicalFunction F) (logicalFunction : F) (schema : Schema) :
    Option FieldAccessLogicalFunction :=
  let fieldName := function.fieldAccess.fieldName
  match schema.getFieldByName fieldName with
  | some existingField => do
    let dataType ← (getDataType logicalFunction).join function.fieldAccess.dataType
    some ⟨existingField.name, dataType⟩
  | none =>
    if attributeNameSeparator ∈ fieldName then
      some function.fieldAccess
    else do
      let qualifier ← schema.getQualifierNameForSystemGeneratedFieldsWithSeparator
      some { function.fieldAccess with fieldName := qualifier ++ fieldName }

/-- In the end the field always has the type of the assigned function. -/
def withInferredDataType (function : FieldAssignmentLogicalFunction F) (schema : Schema) :
    Option (FieldAssignmentLogicalFunction F) := do
  let logicalFunction ← LogicalFunctionConcept.withInferredDataType function.logicalFunction schema
  let fieldAccess ← inferField function logicalFunction schema
  let assigned := getDataType logicalFunction
  let fieldAccess :=
    if fieldAccess.dataType = .undefined then
      { fieldAccess with dataType := assigned }
    else if assigned ≠ fieldAccess.dataType then
      { fieldAccess with dataType := assigned }
    else
      fieldAccess
  some ⟨assigned, fieldAccess, logicalFunction⟩

end FieldAssignmentLogicalFunction

/-! ## The functions of a projection -/

/-- The two functions that the constructor of a projection accepts. -/
inductive ProjectionFunction (F : Type) where
  | fieldAccess (function : FieldAccessLogicalFunction)
  | fieldAssignment (function : FieldAssignmentLogicalFunction F)

namespace ProjectionFunction

variable {F : Type} [LogicalFunctionConcept F]

/-- An assignment is typed twice, the second time with the full name of its field. -/
def withInferredDataType (function : ProjectionFunction F) (schema : Schema) : Option (ProjectionFunction F) :=
  match function with
  | fieldAccess function => do some (fieldAccess (← function.withInferredDataType schema))
  | fieldAssignment function => do
    let function ← function.withInferredDataType schema
    some (fieldAssignment (← function.withInferredDataType schema))

def getField : ProjectionFunction F → Field
  | fieldAccess function => ⟨function.fieldName, function.dataType⟩
  | fieldAssignment function => ⟨function.fieldAccess.fieldName, function.fieldAccess.dataType⟩

end ProjectionFunction

/-! ## Aggregations and windows -/

/-- An aggregation function: `inferStamp` types it, and its result is written to `asField`. -/
class WindowAggregationLogicalFunction (A : Type) where
  inferStamp : A → Schema → Option A
  asField : A → FieldAccessLogicalFunction
  requiresSequentialAggregation : A → Bool

structure SumAggregationLogicalFunction where
  inputStamp : DataType
  finalAggregateStamp : DataType
  onField : FieldAccessLogicalFunction
  asField : FieldAccessLogicalFunction
  deriving DecidableEq

namespace SumAggregationLogicalFunction

/-- The result has the type of the summed field and the qualifier of its name. -/
def inferStamp (function : SumAggregationLogicalFunction) (schema : Schema) : Option SumAggregationLogicalFunction := do
  let onField ← function.onField.withInferredDataType schema
  if onField.dataType.isNumeric then
    let attributeNameResolver :=
      if attributeNameSeparator ∈ onField.fieldName then
        onField.fieldName.takeWhile (· ≠ attributeNameSeparator) ++ [attributeNameSeparator]
      else []
    let fieldName := (function.asField.fieldName.reverse.takeWhile (· ≠ attributeNameSeparator)).reverse
    some ⟨onField.dataType, onField.dataType, onField, ⟨attributeNameResolver ++ fieldName, onField.dataType⟩⟩
  else
    none

instance : WindowAggregationLogicalFunction SumAggregationLogicalFunction where
  inferStamp := inferStamp
  asField := asField
  requiresSequentialAggregation _ := false

end SumAggregationLogicalFunction

def recordCreationTsFieldName : FieldName :=
  ['$', 'r', 'e', 'c', 'o', 'r', 'd', '.', 'c', 'r', 'e', 'a', 't', 'i', 'o', 'n', 'T', 's']

/-- The time of a tuple: that of its ingestion, or the value of a field. -/
inductive TimeCharacteristic where
  | ingestionTime
  | eventTime (field : FieldName)
  deriving DecidableEq

/-- The measure of a time-based window, as far as it is typed. -/
structure TimeBasedWindowType where
  timeCharacteristic : TimeCharacteristic
  deriving DecidableEq

namespace TimeBasedWindowType

/-- The time field has to be an integer field. -/
def inferStamp (windowType : TimeBasedWindowType) (schema : Schema) : Option TimeBasedWindowType :=
  match windowType.timeCharacteristic with
  | .ingestionTime => some windowType
  | .eventTime fieldName =>
    match schema.getFieldByName fieldName with
    | some existingField =>
      if existingField.dataType.isInteger then some ⟨.eventTime existingField.name⟩ else none
    | none => if fieldName = recordCreationTsFieldName then some windowType else none

end TimeBasedWindowType

end MobilityNebula.LogicalOperators
