import Mathlib

/-!
# Schema — data types, fields and the lookup of fields by name

A schema is a list of named and typed fields.  The source keeps two values beside it that are functions of the
list: the size of a row, and the index of the first field with each name.
-/

namespace MobilityNebula.DataTypes

/-! ## Data types -/

inductive DataType where
  | uint8 | uint16 | uint32 | uint64
  | int8 | int16 | int32 | int64
  | float32 | float64
  | boolean | char | undefined | varsized | varsizedPointerRep
  deriving DecidableEq, Repr

namespace DataType

def getSizeInBytes : DataType → Nat
  | int8 | uint8 | boolean | char => 1
  | int16 | uint16 => 2
  | int32 | uint32 | float32 | varsized => 4
  | varsizedPointerRep => 8
  | int64 | uint64 | float64 => 8
  | undefined => 0

def isInteger : DataType → Bool
  | uint8 | uint16 | uint32 | uint64 | int8 | int16 | int32 | int64 => true
  | _ => false

def isSignedInteger : DataType → Bool
  | int8 | int16 | int32 | int64 => true
  | _ => false

def isFloat : DataType → Bool
  | float32 | float64 => true
  | _ => false

def isNumeric (type : DataType) : Bool := type.isInteger || type.isFloat

def inferNumericDataType (left right : DataType) : Option DataType :=
  if left.isFloat ∧ right.isInteger then
    some (if left.getSizeInBytes = 4 then float32 else float64)
  else if left.isInteger ∧ right.isFloat then
    some (if right.getSizeInBytes = 4 then float32 else float64)
  else if right.isFloat ∧ left.isFloat then
    some (if left.getSizeInBytes = 8 ∨ right.getSizeInBytes = 8 then float64 else float32)
  else if right.isInteger ∧ left.isInteger then
    if left.getSizeInBytes < 4 ∧ right.getSizeInBytes < 4 then
      some int32
    else if left.getSizeInBytes = 4 ∧ right.getSizeInBytes < 4 then
      some (if left.isSignedInteger then int32 else uint32)
    else if left.getSizeInBytes < 4 ∧ right.getSizeInBytes = 4 then
      some (if right.isSignedInteger then int32 else uint32)
    else if left.getSizeInBytes = 4 ∧ right.getSizeInBytes = 4 then
      some (if left.isSignedInteger ∧ right.isSignedInteger then int32 else uint32)
    else if left.getSizeInBytes = 8 ∧ right.getSizeInBytes < 8 then
      some (if left.isSignedInteger then int64 else uint64)
    else if left.getSizeInBytes < 8 ∧ right.getSizeInBytes = 8 then
      some (if right.isSignedInteger then int64 else uint64)
    else if left.getSizeInBytes = 8 ∧ right.getSizeInBytes = 8 then
      some (if left.isSignedInteger ∧ right.isSignedInteger then int64 else uint64)
    else
      none
  else
    none

def join (type other : DataType) : Option DataType :=
  if type = undefined ∨ type = varsized then
    some undefined
  else if type.isNumeric then
    if other = undefined then
      some undefined
    else if other.isNumeric then
      inferNumericDataType type other
    else
      none
  else if type = char then
    some (if other = char then char else undefined)
  else if type = boolean then
    some (if other = boolean then boolean else undefined)
  else
    none

end DataType

/-! ## Schemas -/

/-- A field name, with or without the name of its source in front. -/
abbrev FieldName := List Char

/-- `ATTRIBUTE_NAME_SEPARATOR`, between the name of a source and the name of a field. -/
def attributeNameSeparator : Char := '$'

structure Field where
  name : FieldName
  dataType : DataType
  deriving DecidableEq

inductive MemoryLayoutType where
  | rowLayout
  | columnarLayout
  deriving DecidableEq

structure Schema where
  memoryLayoutType : MemoryLayoutType
  fields : List Field
  deriving DecidableEq

namespace Schema

def empty (layout : MemoryLayoutType) : Schema := ⟨layout, []⟩

instance : Inhabited Schema := ⟨empty .rowLayout⟩

variable (schema : Schema) (name : FieldName)

def addField (dataType : DataType) : Schema :=
  { schema with fields := schema.fields ++ [⟨name, dataType⟩] }

def appendFieldsFromOtherSchema (schema other : Schema) : Schema :=
  { schema with fields := schema.fields ++ other.fields }

def replaceTypeOfField (dataType : DataType) : Option Schema :=
  match schema.fields.findIdx? fun field => field.name = name with
  | some index => some { schema with fields := schema.fields.modify index fun field => { field with dataType } }
  | none => none

def contains : Bool := schema.fields.any fun field => field.name = name

def getFieldByName (fieldName : FieldName) : Option Field :=
  match schema.fields.find? fun field => field.name = fieldName with
  | some field => some field
  | none => schema.fields.find? fun field => fieldName.isSuffixOf field.name

/-- The part of the first field's name in front of the separator. -/
def getSourceNameQualifier : Option FieldName :=
  match schema.fields with
  | [] => none
  | field :: _ => some (field.name.takeWhile (· ≠ attributeNameSeparator))

/-- Fails with `CannotInferStamp` on a schema without fields. -/
def getQualifierNameForSystemGeneratedFieldsWithSeparator : Option FieldName := do
  let qualifierName ← schema.getSourceNameQualifier
  some (qualifierName ++ [attributeNameSeparator])

/-- What fixes the layout of a row: the types of its columns, in order. -/
def columns : List DataType := schema.fields.map Field.dataType

end Schema

end MobilityNebula.DataTypes
