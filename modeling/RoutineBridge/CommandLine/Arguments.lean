import RoutineBridge.CommandLine.ReplaceRule
import RoutineBridge.CommandLine.Selection
import RoutineBridge.Options
import RoutineBridge.Text.Decimal

/-!
# Arguments of the command line

A command word, and flags behind it: switches, and settings that take a value. A value stands in the
next argument or, behind an equals sign, in the same one; a letter may have it right behind it. The
arguments are read from front to back, and the first that is wrong ends the reading.
-/

namespace RoutineBridge

/-- What both commands are told. -/
structure RunArguments where
  snapshot : Option String := none
  config : Option String := none
  out : Option String := none
  pattern : Option String := none
  except : List String := []
  replace : List String := []
  markers : List String := []
  schemaPackage : Option String := none
  maxTableSize : Option Nat := none
  workers : Option Nat := none
  deadline : Option Nat := none
  numberAsString : Bool := false
  noSkipMissing : Bool := false
  verbose : Bool := false
deriving DecidableEq, Repr, Inhabited

inductive Command where
  /-- Artifacts below a folder. -/
  | generate (arguments : RunArguments) (snapshot out : String)
  /-- The model, into a file if there is one. -/
  | model (arguments : RunArguments) (snapshot : String) (out : Option String)
deriving DecidableEq, Repr

inductive ArgumentError where
  | unexpected (argument : String)
  | repeated (flag : String)
  | badValue (flag value : String)
  | missingValue (flag : String)
  | missing (flag : String)
  | missingCommand
deriving DecidableEq, Repr

def ArgumentError.message : ArgumentError → String
  | unexpected argument => "unexpected argument " ++ Text.quoted argument
  | repeated flag => flag ++ " cannot be given twice"
  | badValue flag value => "bad value for " ++ flag ++ ": " ++ Text.quoted value
  | missingValue flag => flag ++ " needs a value"
  | missing flag => flag ++ " is required"
  | missingCommand => "a command is required"

/-- Why the reading of arguments ends early. -/
inductive Stop where
  | help
  | version
  | wrong (e : ArgumentError)
deriving DecidableEq, Repr

/-! ## Flags -/

/-- A flag without a value. -/
inductive Switch where
  | verbose
  | numberAsString
  | noSkipMissing
  | help
deriving DecidableEq, Repr

/-- A flag with a value. -/
inductive Setting where
  | snapshot
  | config
  | out
  | pattern
  | except
  | replace
  | marker
  | schemaPackage
  | maxTableSize
  | workers
  | deadline
deriving DecidableEq, Repr

inductive Flag where
  | switch (s : Switch)
  | setting (s : Setting)
deriving DecidableEq, Repr

def Switch.words : List (String × Switch) :=
  [("verbose", verbose), ("number-as-string", numberAsString), ("no-skip-missing", noSkipMissing),
   ("help", help)]

def Setting.words : List (String × Setting) :=
  [("snapshot", snapshot), ("config", config), ("out", out), ("pattern", pattern),
   ("except", except), ("replace", replace), ("marker", marker), ("idl-package", schemaPackage),
   ("max-table-size", maxTableSize), ("workers", workers), ("deadline", deadline)]

def Flag.ofWord? (word : String) : Option Flag :=
  (Switch.words.lookup word).map switch <|> (Setting.words.lookup word).map setting

def Flag.ofLetter? : Char → Option Flag
  | 'v' => some (switch .verbose)
  | 'h' => some (switch .help)
  | 's' => some (setting .snapshot)
  | 'c' => some (setting .config)
  | 'o' => some (setting .out)
  | _ => none

def Switch.word : Switch → String
  | verbose => "--verbose"
  | numberAsString => "--number-as-string"
  | noSkipMissing => "--no-skip-missing"
  | help => "--help"

def Setting.word : Setting → String
  | snapshot => "--snapshot"
  | config => "--config"
  | out => "--out"
  | pattern => "--pattern"
  | except => "--except"
  | replace => "--replace"
  | marker => "--marker"
  | schemaPackage => "--idl-package"
  | maxTableSize => "--max-table-size"
  | workers => "--workers"
  | deadline => "--deadline"

namespace RunArguments

/-- Turns a switch on, which is possible once. -/
def turnOn (a : RunArguments) (s : Switch) : Except Stop RunArguments :=
  let once (isOn : Bool) (next : RunArguments) : Except Stop RunArguments :=
    if isOn then .error (.wrong (.repeated s.word)) else .ok next
  match s with
  | .help => .error .help
  | .verbose => once a.verbose { a with verbose := true }
  | .numberAsString => once a.numberAsString { a with numberAsString := true }
  | .noSkipMissing => once a.noSkipMissing { a with noSkipMissing := true }

/-- The names of a list with commas between them. -/
def splitCommas (value : String) : List String :=
  (value.toList.splitOn ',').map String.ofList

/-- Takes up the value of a setting. Lists of names grow; everything else is given once. -/
def set (a : RunArguments) (s : Setting) (value : String) : Except Stop RunArguments :=
  let once {α : Type} (old new : Option α) (next : RunArguments) : Except Stop RunArguments :=
    if old.isSome then .error (.wrong (.repeated s.word))
    else if new.isNone then .error (.wrong (.badValue s.word value))
    else .ok next
  let path := if value.isEmpty then none else some value
  match s with
  | .snapshot => once a.snapshot path { a with snapshot := path }
  | .config => once a.config path { a with config := path }
  | .out => once a.out path { a with out := path }
  | .pattern => once a.pattern (some value) { a with pattern := some value }
  | .except => .ok { a with except := a.except ++ splitCommas value }
  | .replace => .ok { a with replace := a.replace ++ [value] }
  | .marker => .ok { a with markers := a.markers ++ [value] }
  | .schemaPackage => once a.schemaPackage (some value) { a with schemaPackage := some value }
  | .maxTableSize =>
    let size := Text.signedNatural? 32 value.toList
    once a.maxTableSize size { a with maxTableSize := size }
  | .workers =>
    let count := Text.natural? 64 value.toList
    once a.workers count { a with workers := count }
  | .deadline =>
    let seconds := Text.natural? 64 value.toList
    once a.deadline seconds { a with deadline := seconds }

end RunArguments

/-! ## Reading -/

namespace RunArguments

/-- What the next argument may be. -/
inductive Expecting where
  | flag
  | value (s : Setting)
  /-- Flags have ended. -/
  | nothing
deriving DecidableEq, Repr

/-- An argument that looks like a flag is no value. -/
def isValue (argument : List Char) : Bool :=
  match argument with
  | '-' :: _ :: _ => false
  | _ => true

/-- The word of a flag, and the value behind an equals sign. -/
def splitEquals (cs : List Char) : List Char × Option (List Char) :=
  match Text.splitAt? ['='] cs with
  | some (word, value) => (word, some value)
  | none => (cs, none)

/-- Takes up a flag that is given by its word. -/
def readWord (a : RunArguments) (argument : String) (cs : List Char) :
    Except Stop (RunArguments × Expecting) :=
  let (word, value) := splitEquals cs
  match Flag.ofWord? (String.ofList word), value with
  | some (.switch s), none => (a.turnOn s).map fun a => (a, .flag)
  | some (.setting s), none => .ok (a, .value s)
  | some (.setting s), some value => (a.set s (String.ofList value)).map fun a => (a, .flag)
  | some (.switch _), some _ | none, _ => .error (.wrong (.unexpected argument))

/-- Takes up flags that are given by letters. What stands behind the letter of a setting is its
value. -/
def readLetters (argument : String) : RunArguments → List Char →
    Except Stop (RunArguments × Expecting)
  | a, [] => .ok (a, .flag)
  | a, c :: cs =>
    match Flag.ofLetter? c with
    | none => .error (.wrong (.unexpected argument))
    | some (.switch s) => do
      let a ← a.turnOn s
      readLetters argument a cs
    | some (.setting s) =>
      match cs with
      | [] => .ok (a, .value s)
      | '=' :: value | value => (a.set s (String.ofList value)).map fun a => (a, .flag)

/-- Takes up an argument. -/
def readArgument (a : RunArguments) (argument : String) :
    Expecting → Except Stop (RunArguments × Expecting)
  | .nothing => .error (.wrong (.unexpected argument))
  | .value s =>
    if isValue argument.toList then (a.set s argument).map fun a => (a, .flag)
    else .error (.wrong (.missingValue s.word))
  | .flag =>
    match argument.toList with
    | ['-', '-'] => .ok (a, .nothing)
    | '-' :: '-' :: word => a.readWord argument word
    | '-' :: c :: cs => readLetters argument a (c :: cs)
    | _ => .error (.wrong (.unexpected argument))

/-- Takes up arguments one after the other. -/
def readAll (a : RunArguments) : Expecting → List String → Except Stop RunArguments
  | .value s, [] => .error (.wrong (.missingValue s.word))
  | _, [] => .ok a
  | expecting, argument :: arguments => do
    let (a, expecting) ← a.readArgument argument expecting
    readAll a expecting arguments

/-- A value that has to be given. -/
def required (s : Setting) : Option String → Except Stop String
  | some value => .ok value
  | none => .error (.wrong (.missing s.word))

/-- The options of a run: the arguments come before the configuration. -/
def override (a : RunArguments) (o : Options) : Options where
  numberAsString := o.numberAsString || a.numberAsString
  skipUnresolved := o.skipUnresolved && !a.noSkipMissing
  maxTableSize := a.maxTableSize.getD o.maxTableSize
  markers := if a.markers.isEmpty then o.markers else a.markers
  workers := a.workers.getD o.workers
  deadlineSecs := a.deadline.getD o.deadlineSecs
  schemaPackage := a.schemaPackage.getD o.schemaPackage

/-- The objects that take part. -/
def selection (a : RunArguments) : Selection := .ofNames a.pattern a.except

end RunArguments

namespace Command

/-- The arguments behind the word of a command. -/
def readGenerate (arguments : List String) : Except Stop Command := do
  let a ← RunArguments.readAll {} .flag arguments
  let snapshot ← RunArguments.required .snapshot a.snapshot
  let out ← RunArguments.required .out a.out
  pure (.generate a snapshot out)

def readModel (arguments : List String) : Except Stop Command := do
  let a ← RunArguments.readAll {} .flag arguments
  let snapshot ← RunArguments.required .snapshot a.snapshot
  pure (.model a snapshot a.out)

/-- Help may be asked for on a command. -/
def readHelp : List String → Stop
  | [] | ["generate"] | ["model"] | ["help"] => .help
  | "generate" :: argument :: _ | "model" :: argument :: _ | "help" :: argument :: _ |
    argument :: _ => .wrong (.unexpected argument)

/-- Letters in front of a command; says whether more may be logged. -/
def readLeadingLetters (argument : String) : Bool → List Char → Except Stop Bool
  | verbose, [] => .ok verbose
  | verbose, c :: cs =>
    if c = 'v' then
      if verbose then .error (.wrong (.repeated Switch.verbose.word))
      else readLeadingLetters argument true cs
    else if c = 'h' then .error .help
    else if c = 'V' then .error .version
    else .error (.wrong (.unexpected argument))

/-- Reads the arguments of a run, the flags in front of the command included. -/
def readAfter (verbose : Bool) : List String → Except Stop Command
  | [] => .error (.wrong .missingCommand)
  | argument :: arguments =>
    if argument = "generate" then readGenerate arguments
    else if argument = "model" then readModel arguments
    else if argument = "help" then .error (readHelp arguments)
    else if argument = "--help" then .error .help
    else if argument = "--version" then .error .version
    else if argument = "--verbose" then
      if verbose then .error (.wrong (.repeated argument)) else readAfter true arguments
    else
      match argument.toList with
      | '-' :: '-' :: _ => .error (.wrong (.unexpected argument))
      | '-' :: c :: cs => do
        let verbose ← readLeadingLetters argument verbose (c :: cs)
        readAfter verbose arguments
      | _ => .error (.wrong (.unexpected argument))

def read (arguments : List String) : Except Stop Command := readAfter false arguments

end Command

end RoutineBridge
