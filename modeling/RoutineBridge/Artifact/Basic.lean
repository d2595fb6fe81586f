import RoutineBridge.Model
import RoutineBridge.Types.Digits

/-!
# Artifacts

A generated file, what its source is put together from, and why it may not be possible to make
one.
-/

namespace RoutineBridge

/-- A generated file, relative to the output directory. -/
structure Artifact where
  path : String
  contents : String
deriving DecidableEq, Repr

/-- Why an artifact cannot be made. -/
inductive EmitError where
  | missingLayout (routine : String)
  | missingMessage (name : String)
  /-- A sample does not fit its number type. -/
  | fixture (routine field : String) (cause : DigitsError)
  /-- A sample is no value of its wire. -/
  | sample (routine field value : String) (wire : Wire)
deriving DecidableEq, Repr

namespace EmitError

def message : EmitError → String
  | missingLayout routine => "no call layout for " ++ routine
  | missingMessage name => s!"no message {name} in the layout"
  | fixture routine field cause =>
    let cause := cause.message
    s!"fixture for {routine}.{field}: {cause}"
  | sample routine field value wire =>
    let value := Text.quoted value
    let wire := wire.display
    s!"fixture for {routine}.{field}: sample {value} is not a valid {wire}"

/-- The messages of the failures behind a failure, the nearest first. -/
def causes : EmitError → List String
  | fixture _ _ cause => [cause.message]
  | _ => []

end EmitError

/-- The messages of a routine, which the layout has to hold. -/
def Model.call (m : Model) (r : Routine) : Except EmitError CallLayout :=
  match m.layout.call? r with
  | some c => .ok c
  | none => .error (.missingLayout r.qualifiedName)

/-- The routines of a model with their messages. -/
def Model.calls (m : Model) : Except EmitError (List (Routine × CallLayout)) :=
  m.routines.mapM fun r => (m.call r).map fun c => (r, c)

/-! ## Source text -/

/-- A part of generated source: program text, or documentation that is written as comment lines. -/
inductive Piece where
  | text (s : String)
  | doc (mark : String) (s : String)
deriving DecidableEq, Repr

namespace Piece

/-- A line of documentation behind its mark. The mark of an empty line ends without blanks. -/
def commentLine (mark line : List Char) : List Char :=
  if line.isEmpty then Text.trimEnd mark else mark ++ line

/-- The lines of a documentation text: no line feeds in front and no blanks behind. -/
def docLines (text : List Char) : List (List Char) :=
  (Text.lines (Text.trimEnd (text.dropWhile (· == '\n')))).map Text.trimEnd

/-- A documentation text with a mark in front of every line. A blank text has no lines at all. -/
def commentLines (mark text : List Char) : List Char :=
  if Text.isBlankText text then []
  else (docLines text).flatMap fun line => commentLine mark line ++ ['\n']

/-- The source text of a part. -/
def render : Piece → List Char
  | text s => s.toList
  | doc mark s => commentLines mark.toList s.toList

/-- The source text of a list of parts. -/
def renderAll (ps : List Piece) : String := String.ofList (ps.flatMap render)

end Piece

end RoutineBridge
