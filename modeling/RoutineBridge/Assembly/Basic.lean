import RoutineBridge.Assembly.Conversion
import RoutineBridge.Assembly.Effects
import RoutineBridge.Catalog.Grouping
import RoutineBridge.Model
import RoutineBridge.Source.Package

/-!
# Assembly

Signatures, resolutions, documentation and directives come together in a model. Everything is
joined by key, so it does not matter in which order the parts were gathered.
-/

namespace RoutineBridge

/-- A routine that was left out, and why. -/
structure Skipped where
  routine : String
  reason : String
deriving DecidableEq, Repr

/-- What happened in a run. -/
structure Summary where
  routines : Nat
  skipped : List Skipped
  compositeTypes : Nat
  directives : Nat
  warnings : List String
  typeFetches : Nat
deriving DecidableEq, Repr

/-- Why a run gives no model. -/
inductive AssemblyError where
  | rows (e : RowError)
  | resolve (routine : String) (cause : ResolveError)
  | catalog (e : CatalogError)
  /-- Gathering took longer than so many seconds. -/
  | timeout (seconds : Nat)
deriving DecidableEq, Repr

namespace AssemblyError

/-- A number of seconds as messages write it. -/
def seconds (n : Nat) : String := if n = 0 then "0ns" else s!"{n}s"

def message : AssemblyError → String
  | rows e => e.message
  | resolve routine cause => routine ++ ": " ++ cause.message
  | catalog e => e.message
  | timeout n => "metadata gathering did not finish within " ++ seconds n

/-- The messages of the failures behind a failure, the nearest first. -/
def causes : AssemblyError → List String
  | resolve _ cause => [cause.message]
  | _ => []

end AssemblyError

/-- What assembly starts from. -/
structure Gathered where
  signatures : List Signature
  resolutions : Resolutions
  /-- By package in upper case. -/
  packages : SortedMap String PackageDocs
  /-- Directives from outside the sources. -/
  extraDirectives : List Directive
  /-- What went wrong on the way without stopping the run. -/
  warnings : List String
  typeFetches : Nat

namespace Assembly

/-- The routines taken up so far. -/
structure Progress where
  routines : List Routine
  types : TypeTable
  skipped : List Skipped

def docOf (packages : SortedMap String PackageDocs) (r : Routine) : DocBlock :=
  match packages.get? (Text.asciiUpper r.package) with
  | some p => (p.doc? r.catalogKey).getD .empty
  | none => .empty

/-- Takes up a signature. A routine whose types cannot be resolved is left out if the options allow
it, and so is one with the name of a routine that is there. -/
def takeUp (g : Gathered) (options : Options) (p : Progress) (s : Signature) :
    Except AssemblyError Progress :=
  match Conversion.routine g.resolutions s with
  | .error e =>
    if e.isSkippable && options.skipUnresolved then
      .ok { p with skipped := p.skipped ++ [⟨s.displayName, e.message⟩] }
    else .error (.resolve s.displayName e)
  | .ok (r, types) =>
    if p.routines.any (·.catalogKey == r.catalogKey) then
      .ok { p with skipped := p.skipped ++ [⟨s.displayName, "overloaded name"⟩] }
    else
      .ok { p with
        routines := p.routines ++ [{ r with doc := docOf g.packages r }]
        types := p.types.extend types }

/-- All directives: those of the sources in order of packages, then those from outside. -/
def directives (g : Gathered) : List Directive :=
  g.packages.values.flatMap (·.directives) ++ g.extraDirectives

/-- Routines in the order of their qualified names. -/
def sortRoutines (rs : List Routine) : List Routine :=
  rs.mergeSort fun a b => compare a.qualifiedName b.qualifiedName != .gt

/-- Brings everything together. -/
def assemble (options : Options) (g : Gathered) : Except AssemblyError (Model × Summary) := do
  let p ← g.signatures.foldlM (takeUp g options) ⟨[], .empty, []⟩
  let directives := directives g
  let (routines, refusals) := Effects.applyAll directives p.routines
  let model := Model.freeze (sortRoutines routines) p.types options
  let faults := g.packages.values.flatMap fun d => d.faults.map DirectiveFault.message
  pure (model,
    { routines := model.routines.length
      skipped := p.skipped
      compositeTypes := model.types.size
      directives := directives.length
      warnings := g.warnings ++ faults ++ refusals
      typeFetches := g.typeFetches })

end Assembly

end RoutineBridge
