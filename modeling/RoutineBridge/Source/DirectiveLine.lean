import RoutineBridge.Options
import RoutineBridge.Routine.Directive
import RoutineBridge.Text.Decimal
import RoutineBridge.Text.Lines
import RoutineBridge.Text.Quoted

/-!
# Directives in comments

A directive stands on a comment line of its own: a marker, a colon, a verb and what the verb asks
for. Lines with other markers are documentation. A directive that cannot be read is reported and
left out; it is not documentation either.
-/

namespace RoutineBridge

inductive DirectiveFault.Reason where
  | missingVerb
  | unknownVerb
  | expectedName
  | expectedPair
  | badName
  | badSecondName
  | expectedSize
  | sizeNotInteger
  | sizeNotPositive
deriving DecidableEq, Repr

def DirectiveFault.Reason.message : DirectiveFault.Reason → String
  | missingVerb => "missing verb"
  | unknownVerb => "unknown verb"
  | expectedName => "expected one name"
  | expectedPair => "expected `name => other`"
  | badName => "bad name"
  | badSecondName => "bad second name"
  | expectedSize => "expected `name = size`"
  | sizeNotInteger => "non-integer size"
  | sizeNotPositive => "size must be positive"

/-- A directive that cannot be read. -/
structure DirectiveFault where
  line : Nat
  /-- What stands behind the marker. -/
  text : String
  reason : DirectiveFault.Reason
deriving DecidableEq, Repr

def DirectiveFault.message (f : DirectiveFault) : String :=
  let text := Text.quoted f.text
  let reason := f.reason.message
  s!"line {f.line}: malformed directive {text}: {reason}"

namespace Directive

/-- The characters of a name. -/
def isNameChar (c : Char) : Bool := c.isAlphanum || c == '_' || c == '$' || c == '#'

/-- A name with blanks around it. -/
def name? (cs : List Char) : Option String :=
  let name := Text.trim cs
  if !name.isEmpty && name.all isNameChar then some (String.ofList name) else none

/-- What a verb asks for: the names and the size of the directive. -/
def readArguments (package : String) (verb : Verb) (args : List Char) :
    Except DirectiveFault.Reason Directive :=
  match verb with
  | .hide | .handle =>
    match name? args with
    | some name => .ok ⟨package, verb, name, none, none, none⟩
    | none => .error .expectedName
  | .rename | .replace | .replaceJson =>
    match Text.splitAt? ['=', '>'] args with
    | none => .error .expectedPair
    | some (first, second) =>
      match name? first with
      | none => .error .badName
      | some name =>
        match name? second with
        | none => .error .badSecondName
        | some other => .ok ⟨package, verb, name, some other, none, none⟩
  | .maxTableSize =>
    match Text.splitAt? ['='] args with
    | none => .error .expectedSize
    | some (first, second) =>
      match name? first with
      | none => .error .badName
      | some name =>
        match Text.natural? 32 (Text.trim second) with
        | none => .error .sizeNotInteger
        | some 0 => .error .sizeNotPositive
        | some size => .ok ⟨package, verb, name, none, some size, none⟩

/-- Reads what stands behind a marker. -/
def readBody (package : String) (body : List Char) : Except DirectiveFault.Reason Directive :=
  let body := Text.trim body
  let (verb, args) := (Text.splitWhere? Text.isBlank body).getD (body, [])
  if verb.isEmpty then .error .missingVerb
  else
    match Verb.ofWord? (String.ofList verb) with
    | none => .error .unknownVerb
    | some verb => readArguments package verb (Text.trim args)

/-- Reads the directive behind a marker on some line. -/
def parse (package : String) (body : List Char) (line : Nat) : Except DirectiveFault Directive :=
  match readBody package body with
  | .ok d => .ok { d with line := some line }
  | .error reason => .error ⟨line, String.ofList (Text.trim body), reason⟩

end Directive

/-! ## Comments -/

namespace Comment

/-- The characters of a marker behind its first letter. -/
def isMarkerChar (c : Char) : Bool := c.isAlphanum || c == '_' || c == '-'

/-- The marker of a line and what follows its colon. A star may stand in front of the marker. -/
def markerAndBody? (line : List Char) : Option (List Char × List Char) :=
  let cs := Text.trimStart line
  let cs := match cs with
    | '*' :: rest => Text.trimStart rest
    | _ => cs
  let marker := cs.takeWhile isMarkerChar
  match marker, cs.dropWhile isMarkerChar with
  | c :: _, ':' :: body => if c.isAlpha then some (marker, Text.trimStart body) else none
  | _, _ => none

/-- What a line of a comment is. -/
inductive Line where
  | text
  | directive (body : List Char)

/-- Decides whether a line holds a directive. -/
def Line.classify (markers : List String) (line : List Char) : Line :=
  match markerAndBody? line with
  | some (marker, body) =>
    if Options.isMarker markers (String.ofList marker) then .directive body else .text
  | none => .text

/-- A comment with its directives taken out. -/
structure Scanned where
  /-- The lines that are documentation. -/
  kept : List (List Char)
  directives : List Directive
  faults : List DirectiveFault

/-- Takes the directives out of the lines of a comment that starts on `line`. -/
def scanLines (markers : List String) (package : String) (line : Nat) :
    List (List Char) → Scanned
  | [] => ⟨[], [], []⟩
  | l :: ls =>
    let later := scanLines markers package (line + 1) ls
    match Line.classify markers l with
    | .text => { later with kept := l :: later.kept }
    | .directive body =>
      match Directive.parse package body line with
      | .ok d => { later with directives := d :: later.directives }
      | .error f => { later with faults := f :: later.faults }

/-- Takes the directives out of a comment that starts on `line`. -/
def scan (markers : List String) (package : String) (comment : List Char) (line : Nat) : Scanned :=
  scanLines markers package line (Text.lines comment)

/-- The documentation that is left. -/
def Scanned.text (s : Scanned) : List Char := Text.join ['\n'] s.kept

end Comment

end RoutineBridge
