import RoutineBridge.Catalog.Snapshot

/-!
# Looking up definitions

What a catalog answers when it is asked for the definition of a composite type, and what the type
of a member stands for. A catalog may have outages: look-ups that fail.
-/

namespace RoutineBridge

/-- The look-ups that fail. -/
structure Outages where
  /-- Types that are found neither as a record nor as a collection. -/
  types : List TypeName := []
  /-- Look-ups of a type as one kind of entry that fail alone, and what they fail with. -/
  lookups : List (Composite.Ref × CatalogError) := []
  /-- Packages in upper case. -/
  sources : List String := []
  arguments : Bool := false
deriving Inhabited

/-- What the look-up of a type fails with. A cursor is looked up as a record. -/
def Outages.error? (o : Outages) (kind : Composite.Kind) (name : TypeName) : Option CatalogError :=
  if o.types.contains name then some (.unavailable name.display)
  else o.lookups.lookup ⟨kind.stored, name⟩

@[simp]
theorem Outages.error?_stored (o : Outages) (kind : Composite.Kind) (name : TypeName) :
    o.error? kind.stored name = o.error? kind name := by
  rw [error?, error?, Composite.Kind.stored_stored]

/-- A catalog to be asked. -/
structure Catalog where
  snapshot : Snapshot
  outages : Outages := {}
  /-- How long the look-up of a type or a source takes, in milliseconds. -/
  latency : Nat := 0
deriving Inhabited

/-- The definition of a composite type as the catalog gives it. -/
inductive Definition where
  | record (members : List MemberRow)
  | collection (row : CollectionRow)
deriving DecidableEq, Repr

def Definition.kind : Definition → Composite.Kind
  | record _ => .record
  | collection _ => .collection

namespace Catalog

def argumentRows (c : Catalog) : Except CatalogError (List ArgumentRow) :=
  if c.outages.arguments then .error (.unavailable "arguments") else .ok c.snapshot.arguments

def source (c : Catalog) (package : String) : Except CatalogError (Option String) :=
  if c.outages.sources.contains (Text.asciiUpper package) then .error (.unavailable package)
  else .ok (c.snapshot.source? package)

/-- The members of a record; one that is not known has none. -/
def recordAttributes (c : Catalog) (name : TypeName) : Except CatalogError (List MemberRow) :=
  match c.outages.error? .record name with
  | some e => .error e
  | none => .ok (c.snapshot.recordAttributes name)

/-- The element of a collection, if it is known. -/
def collectionElement (c : Catalog) (name : TypeName) :
    Except CatalogError (Option CollectionRow) :=
  match c.outages.error? .collection name with
  | some e => .error e
  | none => .ok (c.snapshot.collectionElement? name)

/-- The definition of a type that is used with some kind. A record without attributes is not
known. -/
def define (c : Catalog) (kind : Composite.Kind) (name : TypeName) :
    Except ResolveError Definition :=
  match kind with
  | .collection =>
    match c.collectionElement name with
    | .error e => .error (.catalog e)
    | .ok none => .error (.notFound name)
    | .ok (some row) => .ok (.collection row)
  | .record | .cursor =>
    match c.recordAttributes name with
    | .error e => .error (.catalog e)
    | .ok [] => .error (.notFound name)
    | .ok members => .ok (.record members)

/-- How many types are defined; no chain of different defined types is longer. -/
def typeCount (c : Catalog) : Nat := c.snapshot.records.size + c.snapshot.collections.size

/-- How many members and elements the definitions have in all. -/
def memberCount (c : Catalog) : Nat :=
  c.snapshot.records.values.foldr (fun members n => members.length + n) c.snapshot.collections.size

end Catalog

/-- The type of a member of `parent`. A composite member needs a reference. -/
def MemberRow.dataType (m : MemberRow) (parent : TypeName) : Except ResolveError DataType :=
  let context := if m.name.isEmpty then parent.display else parent.display ++ "." ++ m.name
  match m.spec.classify context with
  | .error e => .error e
  | .ok (.scalar s) => .ok (.scalar s)
  | .ok (.composite kind (some name)) => .ok (.composite ⟨kind, name⟩)
  | .ok (.composite _ none) => .error (.missingElement context m.dataKind)

/-- The type of a member is refused because of its data kind or for want of a reference. -/
theorem MemberRow.dataType_error {m : MemberRow} {parent : TypeName} {e : ResolveError}
    (h : m.dataType parent = .error e) :
    ∃ context, e = .unknownCompositeKind m.dataKind ∨ e = .unknownScalarType m.dataKind context ∨
      e = .missingElement context m.dataKind := by
  dsimp only [dataType] at h
  generalize (if m.name.isEmpty then parent.display
    else parent.display ++ "." ++ m.name) = context at h
  refine ⟨context, ?_⟩
  cases hclassify : m.spec.classify context with
  | error e' =>
      rw [hclassify] at h
      obtain rfl := Except.error.inj h
      exact (TypeSpec.classify_error hclassify).imp_right .inl
  | ok classified =>
      rw [hclassify] at h
      cases classified with
      | scalar s => cases h
      | composite kind name =>
          cases name with
          | none => exact .inr (.inr (Except.error.inj h).symm)
          | some name => cases h

end RoutineBridge
