import RoutineBridge.Routine.Doc
import RoutineBridge.Text.Lowercase
import RoutineBridge.Types.Composite

/-!
# Stored routines

A routine as callers see it: what the catalog says about it, the name it is exposed under, and
the routines that stand in for it when it is called.
-/

namespace RoutineBridge

structure Argument where
  name : String
  dataType : DataType
  direction : Direction
  /-- The place among the arguments, from one. -/
  position : Nat
deriving DecidableEq, Repr, Inhabited

/-- What a routine is by itself. -/
structure Routine.Body where
  owner : String
  package : String
  name : String
  /-- The name it is exposed under, if it was renamed. -/
  exposedAs : Option String
  arguments : List Argument
  returns : Option Attribute
  doc : DocBlock
  /-- Upper case names of the handlers around every call. -/
  handlers : List String
  maxTableSize : Option Nat
deriving Inhabited

/-- A routine that is called in place of another one. -/
structure Routine.StandIn where
  body : Routine.Body
  /-- It takes and gives one JSON document instead of typed arguments. -/
  json : Bool
deriving Inhabited

/-- A routine, and its chain of stand-ins: the first is called in its place, the second in place
of the first, and so on. -/
structure Routine extends Routine.Body where
  standIns : List Routine.StandIn
deriving Inhabited

/-- The lower case `package.name` under which routines are looked up and sorted. -/
def qualify (package name : String) : String :=
  if package.isEmpty then Text.lower name else Text.lower package ++ "." ++ Text.lower name

namespace Routine

/-- A routine without arguments, documentation and stand-ins. -/
def named (owner package name : String) : Routine where
  owner := owner
  package := package
  name := name
  exposedAs := none
  arguments := []
  returns := none
  doc := .empty
  handlers := []
  maxTableSize := none
  standIns := []

/-- The name callers use. -/
def exposedName (r : Routine) : String := r.exposedAs.getD r.name

/-- The key of the catalog object; documentation and directives refer to it. -/
def catalogKey (r : Routine) : String := qualify r.package r.name

/-- The key callers use; routines are sorted by it. -/
def qualifiedName (r : Routine) : String := qualify r.package r.exposedName

def Body.object (b : Body) : String :=
  if b.package.isEmpty then b.name else b.package ++ "." ++ b.name

/-- The database object that a call runs: the last stand-in, or the routine itself. -/
def callTarget (r : Routine) : String :=
  match r.standIns.getLast? with
  | some s => s.body.object
  | none => r.toBody.object

/-- Calls exchange one JSON document. -/
def isJson (r : Routine) : Bool :=
  match r.standIns with
  | s :: _ => s.json
  | [] => false

/-- Puts a routine with its own stand-ins in place of whatever stood in before. -/
def replaceBy (r target : Routine) (json : Bool) : Routine :=
  { r with standIns := ⟨target.toBody, json⟩ :: target.standIns }

def inputs (r : Routine) : List Argument := r.arguments.filter (·.direction.isInput)

def outputs (r : Routine) : List Argument := r.arguments.filter (·.direction.isOutput)

/-- Something that comes out is a cursor. -/
def isStreaming (r : Routine) : Bool :=
  r.outputs.any (·.dataType.isCursor) || r.returns.any (·.dataType.isCursor)

def dataTypes (r : Routine) : List DataType :=
  r.arguments.map (·.dataType) ++ r.returns.toList.map (·.dataType)

/-- How many elements a collection may have, given what holds by default. -/
def tableCap (r : Routine) (default : Nat) : Nat := r.maxTableSize.getD default

end Routine

end RoutineBridge
