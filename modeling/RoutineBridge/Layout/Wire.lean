import RoutineBridge.Identifier
import RoutineBridge.Options
import RoutineBridge.Types.Table

/-!
# How values travel

A scalar travels as one of a few wire kinds. A field holds one element or a list of them, and an
element is a scalar or a message.
-/

namespace RoutineBridge

/-- How a scalar travels. -/
inductive Wire where
  | string
  | int32
  | int64
  | double
  | bool
  | bytes
  | timestamp
deriving DecidableEq, Repr, Inhabited

namespace Wire

/-- The wire of a scalar type. A decimal without fraction digits is a 64-bit integer up to 18
digits. -/
def ofScalar (s : Scalar) (numberAsString : Bool) : Wire :=
  match s.kind with
  | .text | .clob => string
  | .integer => if numberAsString then string else int32
  | .number =>
    if numberAsString then string
    else if s.isIntegral && s.precision ≤ 18 then int64
    else double
  | .float => if numberAsString then string else double
  | .dateTime => timestamp
  | .raw | .blob => bytes
  | .boolean => bool

def display : Wire → String
  | string => "String"
  | int32 => "Int32"
  | int64 => "Int64"
  | double => "Double"
  | bool => "Bool"
  | bytes => "Bytes"
  | timestamp => "Timestamp"

end Wire

/-- What one element of a field is. -/
inductive Element where
  | scalar (wire : Wire) (type : Scalar)
  | message (name : String) (type : TypeName)
deriving DecidableEq, Repr, Inhabited

structure FieldShape where
  repeated : Bool
  element : Element
deriving DecidableEq, Repr, Inhabited

namespace Element

def ofScalar (numberAsString : Bool) (s : Scalar) : Element :=
  .scalar (Wire.ofScalar s numberAsString) s

def ofType (n : TypeName) : Element := .message (Identifier.typeMessage n) n

/-- A single element of a type: a composite type is the message of its name. -/
def ofDataType (numberAsString : Bool) : DataType → Element
  | .scalar s => ofScalar numberAsString s
  | .composite r => ofType r.name

/-- The message an element is, if it is one. -/
def message? : Element → Option String
  | message name _ => some name
  | scalar .. => none

end Element

namespace FieldShape

/-- The shape of a field of some type. Collections and cursors are lists of what they hold; when
that is not known, of the message of their own name. -/
def ofDataType (types : TypeTable) (numberAsString : Bool) (d : DataType) : FieldShape :=
  match d with
  | .scalar s => ⟨false, .ofScalar numberAsString s⟩
  | .composite r =>
    match r.kind with
    | .record => ⟨false, .ofType r.name⟩
    | .collection | .cursor =>
      match types.element? r with
      | some e => ⟨true, .ofDataType numberAsString e⟩
      | none => ⟨true, .ofType r.name⟩

end FieldShape

end RoutineBridge
