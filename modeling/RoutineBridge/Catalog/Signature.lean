import RoutineBridge.Catalog.Row

/-!
# Signatures

The parameters of a routine as trees: the attributes of a record and the element of a collection
stand below the parameter they belong to. `Signature.rows` lists a signature with the depth of
every parameter; it is what the rows of the catalog say about the routine.
-/

namespace RoutineBridge

/-- A parameter, a result or a nested member. -/
structure ParamTree where
  name : String
  direction : Direction
  sequence : Nat
  spec : TypeSpec
  /-- The attributes of a record, or the one element of a collection or cursor. -/
  children : List ParamTree
deriving Inhabited

namespace ParamTree

/-- What a row says about its parameter. -/
def ofRow (r : ArgumentRow) : ParamTree where
  name := r.argumentName
  direction := r.way
  sequence := r.sequence
  spec := r.spec
  children := []

def compositeKind? (t : ParamTree) : Option Composite.Kind := t.spec.compositeKind?

/-- Adds a child behind the ones that are there. -/
def adopt (t child : ParamTree) : ParamTree := { t with children := t.children ++ [child] }

mutual

/-- The parameter and everything below it, each with its depth and without its children. -/
def rows (depth : Nat) : ParamTree → List (ParamTree × Nat)
  | ⟨name, direction, sequence, spec, children⟩ =>
    (⟨name, direction, sequence, spec, []⟩, depth) :: rowsBelow (depth + 1) children

def rowsBelow (depth : Nat) : List ParamTree → List (ParamTree × Nat)
  | [] => []
  | t :: ts => rows depth t ++ rowsBelow depth ts

end

end ParamTree

/-- A routine as the argument listing describes it. -/
structure Signature where
  owner : String
  package : String
  name : String
  subprogramId : Nat
  arguments : List ParamTree
  returns : Option ParamTree
deriving Inhabited

namespace Signature

def ofRow (r : ArgumentRow) : Signature where
  owner := r.owner
  package := r.package
  name := r.object
  subprogramId := r.subprogramId
  arguments := []
  returns := none

/-- `package.name` as the catalog spells it. -/
def displayName (s : Signature) : String :=
  if s.package.isEmpty then s.name else s.package ++ "." ++ s.name

/-- The row belongs to the same subprogram. -/
def owns (s : Signature) (r : ArgumentRow) : Bool :=
  s.owner == r.owner && s.package == r.package && s.name == r.object &&
    s.subprogramId == r.subprogramId

/-- The arguments with the result put back where its sequence says. -/
def topLevel (s : Signature) : List ParamTree :=
  match s.returns with
  | none => s.arguments
  | some result =>
    s.arguments.takeWhile (·.sequence < result.sequence) ++ result ::
      s.arguments.dropWhile (·.sequence < result.sequence)

/-- Every parameter of the signature with its depth, in the order of sequence numbers. -/
def rows (s : Signature) : List (ParamTree × Nat) := ParamTree.rowsBelow 0 s.topLevel

end Signature

end RoutineBridge
