import RoutineBridge.Catalog.TypeSpec
import RoutineBridge.Json.Decode
import RoutineBridge.Routine.Doc

/-!
# Rows of the catalog

An argument row describes one argument, result or nested member of a routine; its level says how
deep it is nested. Member rows describe the attributes of records and the elements of collections.
-/

namespace RoutineBridge

/-- A row of the argument listing, which is ordered by owner, package, object and sequence. -/
structure ArgumentRow where
  owner : String := ""
  package : String := ""
  object : String := ""
  /-- Tells the overloads of one object apart. -/
  subprogramId : Nat := 0
  sequence : Nat := 0
  level : Nat := 0
  argumentName : String := ""
  direction : String := ""
  dataKind : String := ""
  precision : Nat := 0
  scale : Int := 0
  length : Nat := 0
  charset : String := ""
  typeOwner : String := ""
  typePackage : String := ""
  typeName : String := ""
  typeLink : String := ""
deriving DecidableEq, Repr, Inhabited

namespace ArgumentRow

/-- `package.object` as the catalog spells it. -/
def routineName (r : ArgumentRow) : String :=
  if r.package.isEmpty then r.object else r.package ++ "." ++ r.object

def way (r : ArgumentRow) : Direction := .ofCatalog r.direction

def spec (r : ArgumentRow) : TypeSpec where
  dataKind := r.dataKind
  precision := r.precision
  scale := r.scale
  length := r.length
  charset := r.charset
  typeRef := typeRef? r.typeOwner r.typePackage r.typeName

/-- The only row of a routine without arguments. -/
def isPlaceholder (r : ArgumentRow) : Bool :=
  r.level == 0 && r.argumentName.isEmpty && Text.isBlankText r.dataKind.toList

/-- The object is marked as hidden. -/
def isHidden (r : ArgumentRow) : Bool := r.object.toList.getLast? == some '#'

end ArgumentRow

/-- An attribute of a record, or the element of a collection. -/
structure MemberRow where
  name : String := ""
  dataKind : String := ""
  precision : Nat := 0
  scale : Int := 0
  length : Nat := 0
  charset : String := ""
  typeOwner : String := ""
  typePackage : String := ""
  typeName : String := ""
deriving DecidableEq, Repr, Inhabited

def MemberRow.spec (r : MemberRow) : TypeSpec where
  dataKind := r.dataKind
  precision := r.precision
  scale := r.scale
  length := r.length
  charset := r.charset
  typeRef := typeRef? r.typeOwner r.typePackage r.typeName

structure CollectionRow where
  element : MemberRow
  /-- Elements are found by a key of their own. -/
  indexed : Bool := false
deriving DecidableEq, Repr, Inhabited

/-! ## Reading rows -/

namespace ArgumentRow

open Json

def fields : List (Member ArgumentRow) :=
  [.withDefault "owner" string fun v r => { r with owner := v },
   .withDefault "package" string fun v r => { r with package := v },
   .withDefault "object" string fun v r => { r with object := v },
   .withDefault "subprogram_id" word fun v r => { r with subprogramId := v },
   .withDefault "sequence" word fun v r => { r with sequence := v },
   .withDefault "level" word fun v r => { r with level := v },
   .withDefault "argument_name" string fun v r => { r with argumentName := v },
   .withDefault "direction" string fun v r => { r with direction := v },
   .withDefault "data_kind" string fun v r => { r with dataKind := v },
   .withDefault "precision" word fun v r => { r with precision := v },
   .withDefault "scale" signedWord fun v r => { r with scale := v },
   .withDefault "length" word fun v r => { r with length := v },
   .withDefault "charset" string fun v r => { r with charset := v },
   .withDefault "type_owner" string fun v r => { r with typeOwner := v },
   .withDefault "type_package" string fun v r => { r with typePackage := v },
   .withDefault "type_name" string fun v r => { r with typeName := v },
   .withDefault "type_link" string fun v r => { r with typeLink := v }]

def read : Decoder ArgumentRow := record fields {}

end ArgumentRow

namespace MemberRow

open Json

def fields : List (Member MemberRow) :=
  [.withDefault "name" string fun v r => { r with name := v },
   .withDefault "data_kind" string fun v r => { r with dataKind := v },
   .withDefault "precision" word fun v r => { r with precision := v },
   .withDefault "scale" signedWord fun v r => { r with scale := v },
   .withDefault "length" word fun v r => { r with length := v },
   .withDefault "charset" string fun v r => { r with charset := v },
   .withDefault "type_owner" string fun v r => { r with typeOwner := v },
   .withDefault "type_package" string fun v r => { r with typePackage := v },
   .withDefault "type_name" string fun v r => { r with typeName := v }]

def read : Decoder MemberRow := record fields {}

end MemberRow

namespace CollectionRow

open Json

def fields : List (Member CollectionRow) :=
  [.required "element" MemberRow.read fun v r => { r with element := v },
   .withDefault "indexed" boolean fun v r => { r with indexed := v }]

def read : Decoder CollectionRow := record fields { element := {} }

end CollectionRow

end RoutineBridge
