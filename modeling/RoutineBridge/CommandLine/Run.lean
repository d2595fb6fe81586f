import RoutineBridge.Artifact.Emitter
import RoutineBridge.Assembly.Gathering
import RoutineBridge.CommandLine.Arguments
import RoutineBridge.CommandLine.Files
import RoutineBridge.Model.Dump
import RoutineBridge.Text.Like.Size

/-!
# Runs of the command line

A run loads its options and the snapshot, gathers and assembles, reports what it found, and writes
the model or the artifacts. A failure is reported with everything behind it.
-/

namespace RoutineBridge

/-- What a run leaves behind, files apart. -/
structure Output where
  code : Nat
  stdout : String
  stderr : String
deriving DecidableEq, Repr

/-- Why a run fails. -/
inductive Failure where
  | unreadable (path : String)
  | invalidConfig (path : String) (cause : Json.Problem)
  /-- A snapshot that cannot be read has no cause. -/
  | invalidSnapshot (path : String) (cause : Option Json.Problem)
  | rule (e : ReplaceRuleError)
  | badPattern (pattern : String)
  | assembly (e : AssemblyError)
  | emission (e : EmitError)
  | noFolder (path : String)
  | noFile (path : String)
deriving DecidableEq, Repr

namespace Failure

def problem : Json.Problem → String
  | .malformed => "malformed JSON"
  | .mismatch => "JSON of another shape"
  | .ended => "JSON that ends too early"

def message : Failure → String
  | unreadable path => "failed to read " ++ path
  | invalidConfig path _ => "invalid config " ++ path
  | invalidSnapshot path _ => "failed to load snapshot " ++ path
  | rule e => e.message
  | badPattern pattern => "bad pattern " ++ Text.quoted pattern
  | assembly _ => "assembly failed"
  | emission _ => "code generation failed"
  | noFolder path => "failed to create " ++ path
  | noFile path => "failed to write " ++ path

/-- The messages of what is behind a failure, the nearest first. -/
def causes : Failure → List String
  | invalidConfig _ cause => [problem cause]
  | invalidSnapshot _ cause => cause.toList.map problem
  | badPattern _ => ["the pattern is too large"]
  | assembly e => e.message :: e.causes
  | emission e => e.message :: e.causes
  | unreadable _ | rule _ | noFolder _ | noFile _ => []

/-- A text whose lines behind the first are moved in. -/
def hanging (blanks : Nat) (text : String) : List Char :=
  Text.join ('\n' :: List.replicate blanks ' ') (Text.pieces text.toList)

/-- A cause on lines of its own; one of several has a number. -/
def causeLine : Option Nat → String → List Char
  | none, text => "    ".toList ++ hanging 4 text
  | some n, text =>
    let number := (toString n).toList
    List.replicate (5 - number.length) ' ' ++ number ++ [':', ' '] ++ hanging 7 text

def causeLines : List String → List (List Char)
  | [] => []
  | [text] => [causeLine none text]
  | texts => texts.zipIdx.map fun (text, n) => causeLine (some n) text

def report (f : Failure) : String :=
  let first := ("Error: " ++ f.message).toList
  let rest := if f.causes.isEmpty then [] else [] :: "Caused by:".toList :: causeLines f.causes
  String.ofList ((first :: rest).flatMap (· ++ ['\n']))

end Failure

/-- What happened in a run, as it is reported. -/
def Summary.report (s : Summary) : String :=
  let counts :=
    s!"assembled {s.routines} functions, {s.compositeTypes} composite types, " ++
      s!"{s.directives} directives, {s.typeFetches} type fetches\n"
  let skipped := s.skipped.map fun k => "  skipped " ++ k.routine ++ " (" ++ k.reason ++ ")\n"
  let warnings := s.warnings.map fun w => "  warning: " ++ w ++ "\n"
  String.join (counts :: skipped ++ warnings)

namespace CommandLine

variable {m : Type → Type} [Monad m]

def loadOptions (files : Files m) (a : RunArguments) : ExceptT Failure m Options :=
  match a.config with
  | none => pure (a.override {})
  | some path => do
    match ← (files.read path : m (Option String)) with
    | none => throw (.unreadable path)
    | some text =>
      match Options.ofJson text with
      | .ok o => pure (a.override o)
      | .error e => throw (.invalidConfig path e)

def loadSnapshot (files : Files m) (path : String) : ExceptT Failure m Snapshot := do
  match ← (files.read path : m (Option String)) with
  | none => throw (.invalidSnapshot path none)
  | some text =>
    match Snapshot.ofJson text with
    | .ok s => pure s
    | .error e => throw (.invalidSnapshot path (some e))

def orFail {ε α : Type} (wrap : ε → Failure) (e : Except ε α) : ExceptT Failure m α :=
  ExceptT.mk (pure (e.mapError wrap))

/-- Everything up to the model. -/
def assemble (files : Files m) (a : RunArguments) (snapshot : String) :
    ExceptT Failure m (Options × Model × Summary) := do
  let options ← loadOptions files a
  let snapshot ← loadSnapshot files snapshot
  let directives ← orFail .rule (a.replace.mapM ReplaceRule.read)
  if let some pattern := a.pattern.filter (!Like.isUsable ·) then throw (.badPattern pattern)
  let (model, summary) ← orFail .assembly <| Gathering.run
    { catalog := { snapshot }, options, keep := a.selection.keeps, directives }
  pure (options, model, summary)

def writeArtifact (files : Files m) (out : String) (a : Artifact) : ExceptT Failure m Unit := do
  let path := Path.below out a.path
  let folder := Path.folder path
  if !(← (files.makeFolder folder : m Bool)) then throw (.noFolder folder)
  if !(← (files.write path a.contents : m Bool)) then throw (.noFile path)

/-- Writes artifacts and says so. -/
def writeArtifacts (files : Files m) (options : Options) (model : Model) (out : String) :
    ExceptT Failure m Output := do
  let artifacts ← orFail .emission (Emitter.emitAll Emitter.all model options)
  artifacts.forM (writeArtifact files out)
  pure ⟨0, "", s!"wrote {artifacts.length} files in {out}\n"⟩

/-- Writes the model, or prints it. -/
def writeModel (files : Files m) (model : Model) (out : Option String) :
    ExceptT Failure m Output := do
  let text := model.toJson.pretty ++ "\n"
  match out with
  | none => pure ⟨0, text, ""⟩
  | some path =>
    if !(← (files.write path text : m Bool)) then throw (.noFile path)
    pure ⟨0, "", s!"wrote {path}\n"⟩

def finish (files : Files m) (options : Options) (model : Model) :
    Command → ExceptT Failure m Output
  | .generate _ _ out => writeArtifacts files options model out
  | .model _ _ out => writeModel files model out

def execute (files : Files m) (c : Command) : m Output := do
  let (arguments, snapshot) := match c with
    | .generate a snapshot _ => (a, snapshot)
    | .model a snapshot _ => (a, snapshot)
  match ← (assemble files arguments snapshot).run with
  | .error failure => pure ⟨1, "", failure.report⟩
  | .ok (options, model, summary) =>
    match ← (finish files options model c).run with
    | .error failure => pure ⟨1, "", summary.report ++ failure.report⟩
    | .ok output => pure { output with stderr := summary.report ++ output.stderr }

/-- The line that names the program. -/
def versionText : String := "procgen 0.1.0\n"

def usage : String :=
  "\n".intercalate
    ["procgen: stored-procedure metadata to typed call layers",
     "",
     "Usage: procgen [-v] generate -s FILE -o DIR [OPTIONS]",
     "       procgen [-v] model -s FILE [-o FILE] [OPTIONS]",
     "",
     "  -c, --config FILE       options as JSON; the options below come first",
     "      --pattern P         only objects whose name is like P",
     "      --except A,B        objects that are left out",
     "      --replace pkg.a=>b  b stands in for a",
     "      --number-as-string  numbers travel as texts",
     "      --no-skip-missing   fail where a type cannot be resolved",
     "      --max-table-size N  how many elements a collection may have",
     "      --marker M          a word that introduces directives",
     "      --workers N         how many look-ups run at a time",
     "      --deadline SECS     how long gathering may take",
     "      --idl-package P     the package of the schema",
     ""]

def run (files : Files m) (arguments : List String) : m Output :=
  match Command.read arguments with
  | .ok c => execute files c
  | .error .help => pure ⟨0, usage, ""⟩
  | .error .version => pure ⟨0, versionText, ""⟩
  | .error (.wrong e) => pure ⟨2, "", "error: " ++ e.message ++ "\n\n" ++ usage⟩

end CommandLine

end RoutineBridge
