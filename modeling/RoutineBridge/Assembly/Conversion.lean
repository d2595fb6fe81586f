import RoutineBridge.Catalog.Resolver
import RoutineBridge.Catalog.Signature
import RoutineBridge.Identifier

/-!
# Signatures to routines

A type that a parameter refers to comes from a resolution. A type that the rows spell out below the
parameter, without a reference or with one the catalog does not know, is built from those rows; it
gets a name from the place where it stands unless it has one.
-/

namespace RoutineBridge

/-- The outcomes of resolution, by use. -/
abbrev Resolutions := SortedMap Composite.Ref (Except ResolveError Resolution)

namespace Conversion

/-- Where a parameter stands. -/
structure Site where
  owner : String
  package : String
  object : String
  /-- The names of the parameters around it and its own, the outermost first. -/
  path : List String

namespace Site

/-- The place as messages name it. -/
def display (s : Site) : String := s.package ++ "." ++ s.object ++ "." ++ ".".intercalate s.path

/-- One step further in. -/
def below (s : Site) (name : String) : Site := { s with path := s.path ++ [name] }

/-- The name of a type that is spelled out here. -/
def typeName (s : Site) (kind : String) : TypeName :=
  ⟨s.owner, s.package, Identifier.inlineType s.object s.path kind⟩

/-- The site of a child; a child without a name goes by another one. -/
def child (s : Site) (t : ParamTree) (fallback : String) : Site :=
  s.below (if t.name.isEmpty then fallback else t.name)

end Site

/-- Tables of the catalog language are associative, all other collections dense. -/
def indexingOf (dataKind : String) : Indexing :=
  let kind := Text.asciiUpper (Text.trimmed dataKind)
  if kind = "PL/SQL TABLE" ∨ kind = "PL/SQL INDEX TABLE" then .associative else .dense

/-- A converted type, with the definitions known by then. -/
abbrev Converted := Except ResolveError (DataType × TypeTable)

/-- How the type of a parameter is found. -/
inductive Plan where
  | scalar (s : Scalar)
  /-- The type and what it leads to. -/
  | resolved (r : Composite.Ref) (resolution : Resolution)
  /-- Built from the rows, under a given name if there is one. -/
  | spelledOut (kind : Composite.Kind) (name : Option TypeName)

/-- Decides how the type of a parameter is found. -/
def plan (resolutions : Resolutions) (site : Site) (spec : TypeSpec) (hasChildren : Bool) :
    Except ResolveError Plan := do
  match ← spec.classify site.display with
  | .scalar s => pure (.scalar s)
  | .composite kind none => pure (.spelledOut kind none)
  | .composite kind (some name) =>
    match resolutions.get? ⟨kind, name⟩ with
    | some (.ok resolution) => pure (.resolved ⟨kind, name⟩ resolution)
    | some (.error (.notFound missing)) =>
      if hasChildren then pure (.spelledOut kind (some name)) else throw (.notFound missing)
    | some (.error e) => throw e
    | none =>
      if hasChildren then pure (.spelledOut kind (some name)) else throw (.notFound name)

mutual

def dataType (resolutions : Resolutions) (site : Site) (found : TypeTable) : ParamTree → Converted
  | ⟨_, _, _, spec, children⟩ => do
    let missing : ResolveError := .missingElement site.display spec.dataKind
    match ← plan resolutions site spec (!children.isEmpty) with
    | .scalar s => pure (.scalar s, found)
    | .resolved r resolution => pure (.composite r, found.extend resolution.types)
    | .spelledOut .record name =>
      let name := name.getD (site.typeName "rec")
      let (attributes, found) ← attributes resolutions site found children
      pure (.composite ⟨.record, name⟩, found.insert (.record name attributes))
    | .spelledOut .collection name =>
      let name := name.getD (site.typeName "tab")
      match ← firstElement resolutions site found "ITEM" children with
      | none => throw missing
      | some (element, found) =>
        let definition := .collection name element (indexingOf spec.dataKind)
        pure (.composite ⟨.collection, name⟩, found.insert definition)
    | .spelledOut .cursor _ =>
      match ← firstElement resolutions site found "ROW" children with
      | some (.composite ⟨.record, row⟩, found) => pure (.composite ⟨.cursor, row⟩, found)
      | _ => throw missing

/-- The attributes that the children of a record describe. -/
def attributes (resolutions : Resolutions) (site : Site) (found : TypeTable) :
    List ParamTree → Except ResolveError (List Attribute × TypeTable)
  | [] => pure ([], found)
  | t :: ts => do
    let (type, found) ← dataType resolutions (site.child t "FIELD") found t
    let (rest, found) ← attributes resolutions site found ts
    pure (⟨t.name, type⟩ :: rest, found)

/-- The type of the first child, if there is one. -/
def firstElement (resolutions : Resolutions) (site : Site) (found : TypeTable) (fallback : String) :
    List ParamTree → Except ResolveError (Option (DataType × TypeTable))
  | [] => pure none
  | t :: _ => do
    let converted ← dataType resolutions (site.child t fallback) found t
    pure (some converted)

end

/-- The site of a top-level parameter. -/
def siteOf (s : Signature) (name : String) : Site := ⟨s.owner, s.package, s.name, [name]⟩

def arguments (resolutions : Resolutions) (s : Signature) (position : Nat) (found : TypeTable) :
    List ParamTree → Except ResolveError (List Argument × TypeTable)
  | [] => pure ([], found)
  | t :: ts => do
    let (type, found) ← dataType resolutions (siteOf s t.name) found t
    let (rest, found) ← arguments resolutions s (position + 1) found ts
    pure (⟨t.name, type, t.direction, position⟩ :: rest, found)

/-- The routine of a signature, with the definitions of the types it uses. -/
def routine (resolutions : Resolutions) (s : Signature) :
    Except ResolveError (Routine × TypeTable) := do
  let (arguments, found) ← arguments resolutions s 1 .empty s.arguments
  let (returns, found) ←
    match s.returns with
    | none => pure (none, found)
    | some t => do
      let (type, found) ← dataType resolutions (siteOf s "RET") found t
      pure (some ⟨"ret", type⟩, found)
  pure ({ Routine.named s.owner s.package s.name with arguments, returns }, found)

end Conversion

end RoutineBridge
