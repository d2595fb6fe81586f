/-!
# Files

What a run needs of the files around it, and the paths it gives them. Paths are texts with slashes
between names; one that starts with a slash counts from the root.
-/

namespace RoutineBridge

/-- Files as a run sees them. -/
structure Files (m : Type → Type) where
  /-- The text of a file; none when there is no file that can be read. -/
  read : String → m (Option String)
  /-- Makes a folder and those it stands in, and says whether it is there. -/
  makeFolder : String → m Bool
  /-- Writes a file and says whether that was possible. -/
  write : String → String → m Bool

namespace Path

def below (folder file : String) : String :=
  if "/".toList.isPrefixOf file.toList then file
  else if folder.isEmpty || folder.toList.getLast? = some '/' then folder ++ file
  else folder ++ "/" ++ file

/-- A path, given from its end, without slashes and single dots at its end. The root stays. -/
def trimEnd : List Char → List Char
  | ['/'] => ['/']
  | '/' :: cs => trimEnd cs
  | '.' :: '/' :: cs => trimEnd ('/' :: cs)
  | cs => cs

/-- The folder that a file stands in. -/
def folder (path : String) : String :=
  String.ofList (trimEnd (path.toList.reverse.dropWhile (· != '/'))).reverse

/-- The names of a path, the outermost first. -/
def names (path : String) : List String := (path.toList.splitOn '/').map String.ofList

/-- A path that there can be: no name of more than 255 bytes, not more than 4095 bytes in all, and
no zero character. -/
def isPossible (path : String) : Bool :=
  path.utf8ByteSize ≤ 4095 && (names path).all (·.utf8ByteSize ≤ 255) &&
    !path.toList.contains '\x00'

/-- The path counts from the root. -/
def isRooted (path : String) : Bool := "/".toList.isPrefixOf path.toList

end Path

end RoutineBridge
