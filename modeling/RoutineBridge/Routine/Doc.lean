import RoutineBridge.SortedMap
import RoutineBridge.Text.Ascii
import RoutineBridge.Text.Blank

/-!
# Directions and documentation

Which way an argument goes, and the documentation of a routine: a common part, and descriptions
of what goes in and of what comes out, by parameter name.
-/

namespace RoutineBridge

/-- Which way the value of an argument goes. -/
inductive Direction where
  | input
  | output
  | both
deriving DecidableEq, Repr, Inhabited

namespace Direction

/-- The direction that a code of the catalog names; an unknown code means input. -/
def ofCatalog (code : String) : Direction :=
  let code := Text.asciiUpper (Text.trimmed code)
  if code = "OUT" then output
  else if ["IN/OUT", "IN OUT", "INOUT", "IN_OUT"].contains code then both
  else input

def isInput : Direction → Bool
  | output => false
  | _ => true

def isOutput : Direction → Bool
  | input => false
  | _ => true

def display : Direction → String
  | input => "IN"
  | output => "OUT"
  | both => "IN/OUT"

end Direction

structure DocBlock where
  /-- The comment as it stands in the source, without directives. -/
  raw : String
  /-- What stands before the first section. -/
  common : String
  /-- Descriptions from the input section. -/
  input : SortedMap String String
  /-- Descriptions from the output section. -/
  output : SortedMap String String
deriving Inhabited

namespace DocBlock

def empty : DocBlock := ⟨"", "", .empty, .empty⟩

/-- The first description whose parameter has this name up to case. -/
def lookup (texts : SortedMap String String) (name : String) : Option String :=
  (texts.entries.find? fun e => Text.sameIgnoringCase e.1 name).map (·.2)

/-- What the documentation says about a parameter. The section of its own direction comes first,
the other one is looked at if the first is silent. -/
def describe (doc : DocBlock) (name : String) (direction : Direction) : Option String :=
  if direction.isInput then lookup doc.input name <|> lookup doc.output name
  else lookup doc.output name <|> lookup doc.input name

def isEmpty (doc : DocBlock) : Bool := Text.isBlankText doc.raw.toList

end DocBlock

end RoutineBridge
