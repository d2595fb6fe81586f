import RoutineBridge.Text.Ascii
import RoutineBridge.Text.Blank

/-!
# Scalar types

The catalog names a scalar type by a data kind and sizes it by precision, scale and length, where
zero stands for a size that is not given.
-/

namespace RoutineBridge

inductive Scalar.Kind where
  | text
  /-- A machine integer. -/
  | integer
  /-- An exact decimal. -/
  | number
  /-- A binary floating point number. -/
  | float
  | dateTime
  | raw
  | clob
  | blob
  | boolean
deriving DecidableEq, Repr, Inhabited

/-- A scalar type with its sizes. -/
structure Scalar where
  kind : Scalar.Kind
  /-- The data kind of the catalog in upper case. -/
  catalogName : String
  precision : Nat
  scale : Int
  length : Nat
  charset : String
deriving DecidableEq, Repr, Inhabited

namespace Scalar

/-- The length of character data that is not given one. -/
def defaultTextLength : Nat := 32767

/-- The length of fixed-width character data that is not given one. -/
def defaultFixedLength : Nat := 10

/-- The family of a data kind in upper case. -/
def Kind.ofName? (name : String) : Option Kind :=
  if ["CHAR", "NCHAR", "VARCHAR", "VARCHAR2", "NVARCHAR2", "NVARCHAR", "STRING", "LONG",
      "ROWID", "UROWID"].contains name then some .text
  else if ["PLS_INTEGER", "BINARY_INTEGER", "SIMPLE_INTEGER", "NATURAL", "NATURALN", "POSITIVE",
      "POSITIVEN", "SIGNTYPE", "PL/SQL PLS INTEGER", "PL/SQL BINARY INTEGER"].contains name then
    some .integer
  else if ["NUMBER", "DECIMAL", "NUMERIC", "INTEGER", "INT", "SMALLINT"].contains name then
    some .number
  else if ["FLOAT", "REAL", "DOUBLE PRECISION", "BINARY_FLOAT", "BINARY_DOUBLE"].contains name then
    some .float
  else if name == "DATE" || "TIMESTAMP".toList.isPrefixOf name.toList then some .dateTime
  else if ["RAW", "LONG RAW"].contains name then some .raw
  else if ["CLOB", "NCLOB"].contains name then some .clob
  else if ["BLOB", "BFILE"].contains name then some .blob
  else if ["BOOLEAN", "PL/SQL BOOLEAN"].contains name then some .boolean
  else none

/-- The length a type has when `given` stands in the catalog. -/
def effectiveLength (name : String) (kind : Kind) (given : Nat) : Nat :=
  if given ≠ 0 then given
  else if name = "CHAR" ∨ name = "NCHAR" then defaultFixedLength
  else if kind = .text then defaultTextLength
  else 0

/-- Precision and scale: the whole-number names stand for 38 digits when no precision is given. -/
def effectiveFacets (name : String) (precision : Nat) (scale : Int) : Nat × Int :=
  if (name = "INTEGER" ∨ name = "INT" ∨ name = "SMALLINT") ∧ precision = 0 then (38, 0)
  else (precision, scale)

/-- The scalar type of a catalog entry; none when its data kind names no scalar. -/
def ofCatalog? (dataKind : String) (precision : Nat) (scale : Int) (length : Nat)
    (charset : String) : Option Scalar :=
  let name := Text.asciiUpper (Text.trimmed dataKind)
  (Kind.ofName? name).map fun kind =>
    let facets := effectiveFacets name precision scale
    { kind
      catalogName := name
      precision := facets.1
      scale := facets.2
      length := effectiveLength name kind length
      charset := Text.trimmed charset }

/-- The type as a declaration would write it. -/
def describe (s : Scalar) : String :=
  match s.kind with
  | .text | .raw => if s.length > 0 then s!"{s.catalogName}({s.length})" else s.catalogName
  | .number =>
    if s.scale = 0 then
      if s.precision = 0 then s.catalogName else s!"{s.catalogName}({s.precision})"
    else s!"{s.catalogName}({s.precision}, {s.scale})"
  | .integer => s.catalogName ++ "(10)"
  | _ => s.catalogName

/-- Values of the type have no fraction digits. -/
def isIntegral (s : Scalar) : Bool :=
  match s.kind with
  | .integer => true
  | .number => s.scale ≤ 0 && s.precision > 0
  | _ => false

end Scalar

end RoutineBridge
