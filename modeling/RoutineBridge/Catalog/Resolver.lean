import RoutineBridge.Catalog.Inquiry
import RoutineBridge.OnceMap
import RoutineBridge.Types.Table

/-!
# Resolving composite types

A resolution is a type together with every definition it leads to. Definitions are gathered depth
first. The names under way form a chain, and a name that comes up again while it is on the chain
is a recursive type, which is refused. Every definition is looked up once, and every resolution is
made once: later requests get the answer of the first.
-/

namespace RoutineBridge

/-- A type with every definition it leads to. -/
structure Resolution where
  root : Composite
  types : TypeTable
deriving Inhabited

/-- Composite uses are ordered by kind, then name. -/
protected def Composite.Ref.compare : Composite.Ref → Composite.Ref → Ordering :=
  compareLex (compareOn (·.kind.rank)) (compareOn (·.name))

instance : Ord Composite.Ref := ⟨Composite.Ref.compare⟩

instance : Std.TransOrd Composite.Ref :=
  inferInstanceAs (Std.TransCmp
    (compareLex (compareOn fun r : Composite.Ref => r.kind.rank) (compareOn fun r => r.name)))

theorem Composite.Kind.rank_injective {a b : Composite.Kind} (h : a.rank = b.rank) : a = b := by
  cases a <;> cases b <;> simp_all [rank]

instance : Std.LawfulEqOrd Composite.Ref where
  eq_of_compare {a b} h := by
    have h' : compareLex (compareOn fun r : Composite.Ref => r.kind.rank)
        (compareOn fun r => r.name) a b = .eq := h
    simp only [compareLex_eq_eq, compareOn, Std.compare_eq_iff_eq] at h'
    obtain ⟨hkind, hname⟩ := h'
    have hkind := Composite.Kind.rank_injective hkind
    cases a
    cases b
    simp_all

/-! ## The walk -/

/-- A step that gathers what a use of a type leads to, behind the definitions found so far. -/
abbrev Gather := Composite.Ref → TypeTable → ExceptT ResolveError Inquiry TypeTable

/-- The type of a member, and what it leads to. -/
def gatherMember (gather : Gather) (parent : TypeName) (m : MemberRow) (found : TypeTable) :
    ExceptT ResolveError Inquiry (DataType × TypeTable) := do
  match ← ExceptT.mk (pure (m.dataType parent)) with
  | .composite r => do
    let found ← gather r found
    pure (.composite r, found)
  | .scalar s => pure (.scalar s, found)

/-- The attributes of a record, and what they lead to. -/
def gatherAttributes (gather : Gather) (parent : TypeName) :
    List MemberRow → TypeTable → ExceptT ResolveError Inquiry (List Attribute × TypeTable)
  | [], found => pure ([], found)
  | m :: ms, found => do
    let (dataType, found) ← gatherMember gather parent m found
    let (attributes, found) ← gatherAttributes gather parent ms found
    pure (⟨m.name, dataType⟩ :: attributes, found)

/-- What a definition defines, and what its members lead to. -/
def gatherDefinition (gather : Gather) (name : TypeName) :
    Definition → TypeTable → ExceptT ResolveError Inquiry (Composite × TypeTable)
  | .record members, found => do
    let (attributes, found) ← gatherAttributes gather name members found
    pure (.record name attributes, found)
  | .collection row, found => do
    let (element, found) ← gatherMember gather name row.element found
    pure (.collection name element (if row.indexed then .associative else .dense), found)

/-- What an answer of the catalog is worth to a use with some kind. -/
def expectKind (kind : Composite.Kind) (name : TypeName) :
    Except ResolveError Definition → Except ResolveError Definition
  | .ok definition =>
    if definition.kind = kind then .ok definition
    else .error (.kindMismatch name kind definition.kind)
  | .error e => .error e

theorem expectKind_eq_ok {kind : Composite.Kind} {name : TypeName} {d : Definition}
    {answer : Except ResolveError Definition} :
    expectKind kind name answer = .ok d ↔ answer = .ok d ∧ d.kind = kind := by
  cases answer with
  | error e => simp [expectKind]
  | ok e =>
      simp only [expectKind]
      split
      · rename_i h
        constructor
        · rintro ⟨⟩
          exact ⟨rfl, h⟩
        · exact fun h => h.1
      · rename_i h
        constructor
        · intro h
          cases h
        · rintro ⟨⟨⟩, h'⟩
          exact absurd h' h

/-- Asks for a definition and checks that it is of the kind it is used with. -/
def askDefinition (kind : Composite.Kind) (name : TypeName) :
    ExceptT ResolveError Inquiry Definition :=
  ExceptT.mk (.define kind name fun answer => .done (expectKind kind name answer))

/-- One round of the walk: gathers what a use of a type leads to, with `next` for the members of its
definition. `chain` are the names under way, the outermost first. -/
def gatherStep (next : List TypeName → Gather) (chain : List TypeName) : Gather :=
  fun r found => do
    if chain.contains r.name then
      throw (.recursive r.name (chain.dropWhile (· != r.name) ++ [r.name]))
    else if found.contains r.name then pure found
    else
      let definition ← askDefinition r.kind.stored r.name
      let (composite, found) ←
        gatherDefinition (next (chain ++ [r.name])) r.name definition found
      pure (found.insert composite)

/-- Gathers what a use of a type leads to. The fuel bounds the length of the chain, and no chain is
longer than the number of defined types. -/
def gather : Nat → List TypeName → Gather
  | 0 => fun _ r _ => throw (.notFound r.name)
  | fuel + 1 => gatherStep (gather fuel)

/-- The resolution of a use of a type, in a catalog with so many defined types. -/
def resolution (typeCount : Nat) (r : Composite.Ref) : ExceptT ResolveError Inquiry Resolution := do
  let types ← gather (typeCount + 1) [] r .empty
  match r.kind with
  | .cursor => pure ⟨.cursor r.name, types⟩
  | _ =>
    match types.get? r.name with
    | some root => pure ⟨root, types⟩
    | none => throw (.notFound r.name)

/-! ## Memory -/

/-- What was looked up, and how often the catalog was asked. -/
structure Lookups where
  definitions : OnceMap TypeName (Except ResolveError Definition)
  fetches : Nat
deriving Inhabited

namespace Lookups

def empty : Lookups := ⟨.empty, 0⟩

/-- The definition under a name; the catalog is asked only if nobody has asked before. -/
def define (c : Catalog) (kind : Composite.Kind) (name : TypeName) (l : Lookups) :
    Except ResolveError Definition × Lookups :=
  match l.definitions.get? name with
  | some answer => (answer, l)
  | none =>
    let answer := c.define kind name
    (answer, ⟨l.definitions.complete name answer, l.fetches + 1⟩)

end Lookups

def Inquiry.run {α : Type} (c : Catalog) : Inquiry α → Lookups → α × Lookups
  | done a, l => (a, l)
  | define kind name next, l =>
    let (answer, l) := l.define c kind name
    (next answer).run c l
  | source package next, l => (next (c.source package)).run c l

theorem Inquiry.run_define {α : Type} (c : Catalog) (kind : Composite.Kind) (name : TypeName)
    (next : Except ResolveError Definition → Inquiry α) (l : Lookups) :
    (define kind name next).run c l =
      (next (l.define c kind name).1).run c (l.define c kind name).2 := rfl

structure Resolver where
  lookups : Lookups
  resolutions : OnceMap Composite.Ref (Except ResolveError Resolution)
deriving Inhabited

namespace Resolver

def empty : Resolver := ⟨.empty, .empty⟩

/-- How often the catalog was asked for a definition. -/
def fetches (m : Resolver) : Nat := m.lookups.fetches

/-- Resolves a use of a type, unless that was done before. -/
def resolve (c : Catalog) (r : Composite.Ref) (m : Resolver) :
    Except ResolveError Resolution × Resolver :=
  match m.resolutions.get? r with
  | some answer => (answer, m)
  | none =>
    let (answer, lookups) := (resolution c.typeCount r).run.run c m.lookups
    (answer, ⟨lookups, m.resolutions.complete r answer⟩)

def resolveCode (c : Catalog) (dataKind : String) (name : TypeName) (m : Resolver) :
    Except ResolveError Resolution × Resolver :=
  match Composite.Kind.ofCatalog? dataKind with
  | some kind => m.resolve c ⟨kind, name⟩
  | none => (.error (.unknownCompositeKind dataKind), m)

/-- The resolution that was made before, if there is one. -/
def resolved? (m : Resolver) (r : Composite.Ref) : Option (Except ResolveError Resolution) :=
  m.resolutions.get? r

end Resolver

end RoutineBridge
