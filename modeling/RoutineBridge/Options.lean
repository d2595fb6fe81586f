import RoutineBridge.Json.Decode
import RoutineBridge.Text.Ascii

/-!
# Options of a run

What a run may be told, and how a configuration text is read. Every option has a default.
-/

namespace RoutineBridge

structure Options where
  /-- Numbers travel as texts. -/
  numberAsString : Bool := false
  /-- A routine whose types cannot be resolved is left out; otherwise the run fails. -/
  skipUnresolved : Bool := true
  /-- How many elements a collection may have where no directive says so. -/
  maxTableSize : Nat := 1000
  /-- The words that introduce a directive in a comment. -/
  markers : List String := ["procgen"]
  /-- How many catalog look-ups run at a time. -/
  workers : Nat := 8
  /-- How long gathering may take, in seconds. -/
  deadlineSecs : Nat := 30
  /-- The package of the generated schema. -/
  schemaPackage : String := "procgen"
deriving DecidableEq, Repr, Inhabited

namespace Options

open Json

/-- The word introduces a directive. -/
def isMarker (markers : List String) (word : String) : Bool :=
  markers.any (Text.sameIgnoringCase · word)

def fields : List (Member Options) :=
  [.withDefault "number_as_string" boolean fun v o => { o with numberAsString := v },
   .withDefault "skip_missing_table_of" boolean fun v o => { o with skipUnresolved := v },
   .withDefault "max_table_size" word fun v o => { o with maxTableSize := v },
   .withDefault "markers" (list string) fun v o => { o with markers := v },
   .withDefault "workers" (natural 64) fun v o => { o with workers := v },
   .withDefault "deadline_secs" (natural 64) fun v o => { o with deadlineSecs := v },
   .withDefault "idl_package" string fun v o => { o with schemaPackage := v }]

def read : Json.Decoder Options := Json.record fields {}

def ofJson (text : String) : Except Json.Problem Options := Json.decode read text

end Options

end RoutineBridge
