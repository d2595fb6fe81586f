import RoutineBridge.Text.Quoted
import RoutineBridge.Types.Composite

/-!
# Types as the catalog gives them

A row of the catalog names a type by a data kind, sizes and perhaps a reference to a composite
type. Classification decides what it stands for. The failures of classification and of the
look-ups that follow it are listed here with their messages.
-/

namespace RoutineBridge

/-- Why the catalog could not be asked. -/
inductive CatalogError where
  | unavailable (what : String)
deriving DecidableEq, Repr

def CatalogError.message : CatalogError → String
  | .unavailable what => "catalog unavailable: " ++ what

/-- Why a type cannot be resolved. -/
inductive ResolveError where
  | notFound (name : TypeName)
  | unknownCompositeKind (dataKind : String)
  | unknownScalarType (dataKind context : String)
  /-- The path leads from the type back to it. -/
  | recursive (name : TypeName) (path : List TypeName)
  | kindMismatch (name : TypeName) (expected found : Composite.Kind)
  | missingElement (context member : String)
  | catalog (e : CatalogError)
deriving DecidableEq, Repr

namespace ResolveError

def message : ResolveError → String
  | notFound name => s!"composite type {name} not found in the catalog"
  | unknownCompositeKind dataKind => "unknown composite type code " ++ Text.quoted dataKind
  | unknownScalarType dataKind context =>
    let kind := Text.quoted dataKind
    s!"unknown scalar type {kind} ({context})"
  | recursive name path =>
    let path := " -> ".intercalate (path.map TypeName.display)
    s!"recursive type {name} is not supported: {path}"
  | kindMismatch name expected found => s!"{name} is a {found}, not a {expected}"
  | missingElement context member =>
    let member := Text.quoted member
    s!"{context}: composite {member} has no type reference and no element"
  | catalog e => e.message

/-- The failure concerns one type only, so a routine that uses it may be left out. -/
def isSkippable : ResolveError → Bool
  | notFound _ | unknownCompositeKind _ | unknownScalarType .. | missingElement .. => true
  | recursive .. | kindMismatch .. | catalog _ => false

end ResolveError

/-- The composite type that a row refers to. A type of the schema has its name where a type of a
package has the package. -/
def typeRef? (owner package name : String) : Option TypeName :=
  let package := Text.trimmed package
  let name := Text.trimmed name
  if name.isEmpty then
    if package.isEmpty then none else some ⟨Text.trimmed owner, "", package⟩
  else some ⟨Text.trimmed owner, package, name⟩

/-- A type as a row gives it. -/
structure TypeSpec where
  dataKind : String
  precision : Nat
  scale : Int
  length : Nat
  charset : String
  typeRef : Option TypeName
deriving DecidableEq, Repr, Inhabited

/-- What a type stands for. -/
inductive Classified where
  | scalar (s : Scalar)
  | composite (kind : Composite.Kind) (typeRef : Option TypeName)
deriving DecidableEq, Repr

namespace TypeSpec

def compositeKind? (t : TypeSpec) : Option Composite.Kind := Composite.Kind.ofCatalog? t.dataKind

/-- Decides between composite and scalar. An unknown data kind counts as a composite one when a
reference comes with it; `context` says in the message where the type stands. -/
def classify (t : TypeSpec) (context : String) : Except ResolveError Classified :=
  match t.compositeKind? with
  | some kind => .ok (.composite kind t.typeRef)
  | none =>
    match Scalar.ofCatalog? t.dataKind t.precision t.scale t.length t.charset with
    | some s => .ok (.scalar s)
    | none =>
      if t.typeRef.isSome then .error (.unknownCompositeKind t.dataKind)
      else .error (.unknownScalarType t.dataKind context)

theorem classify_error {t : TypeSpec} {context : String} {e : ResolveError}
    (h : t.classify context = .error e) :
    e = .unknownCompositeKind t.dataKind ∨ e = .unknownScalarType t.dataKind context := by
  unfold classify at h
  split at h
  · cases h
  · split at h
    · cases h
    · split at h
      · exact .inl (Except.error.inj h).symm
      · exact .inr (Except.error.inj h).symm

end TypeSpec

end RoutineBridge
