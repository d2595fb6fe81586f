import RoutineBridge.Text.Ascii
import RoutineBridge.Text.Blank
import RoutineBridge.Text.Like

/-!
# Which objects take part

Objects may be selected by a pattern on their full name and left out by name.
-/

namespace RoutineBridge

/-- Which objects of the catalog take part. -/
structure Selection where
  /-- The full name has to match. -/
  pattern : Option String
  /-- Lower case names that are left out; each is a full name or that of the object alone. -/
  excluded : List String
deriving DecidableEq, Repr

namespace Selection

/-- The exclusions as they count: without blanks around them, in lower case, none of them empty. -/
def exclusions (names : List String) : List String :=
  (names.map fun n => Text.asciiLower (Text.trimmed n)).filter (!·.isEmpty)

def ofNames (pattern : Option String) (except : List String) : Selection :=
  ⟨pattern, exclusions except⟩

/-- What stands behind the last dot of a name. -/
def lastPart (name : String) : String :=
  String.ofList (name.toList.reverse.takeWhile (· != '.')).reverse

/-- The object of a full name takes part. -/
def keeps (s : Selection) (name : String) : Bool :=
  let lower := Text.asciiLower name
  !(s.excluded.contains lower || s.excluded.contains (lastPart lower)) &&
    s.pattern.all (Like.matches · name)

end Selection

end RoutineBridge
