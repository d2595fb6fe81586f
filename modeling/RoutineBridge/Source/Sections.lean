import RoutineBridge.Routine.Doc
import RoutineBridge.Text.Lines

/-!
# Sections of documentation

Documentation starts with a common part. An input section and an output section may follow, each
under a header line, with one item for each parameter: a bullet, the name, a dash or colon, and
the description, which goes on in the lines that are indented further.
-/

namespace RoutineBridge.Sections

/-! ## Headers -/

def isTabOrSpace (c : Char) : Bool := c == ' ' || c == '\t'

/-- A line without the tabs and spaces around it and without one colon at its end. -/
def headerCore (line : List Char) : List Char :=
  let cs := ((line.dropWhile isTabOrSpace).reverse.dropWhile isTabOrSpace).reverse
  if cs.getLast? = some ':' then cs.dropLast else cs

/-- Lower case of a letter; the long s is an s. -/
def headerLetter (c : Char) : Char := if c = 'ſ' then 's' else c.toLower

/-- The line is one of these headers, in either case. -/
def isHeader (headers : List String) (line : List Char) : Bool :=
  headers.any fun h => h.toList == (headerCore line).map headerLetter

def isInputHeader (line : List Char) : Bool :=
  isHeader ["in", "input", "- in", "- input"] line

def isOutputHeader (line : List Char) : Bool :=
  isHeader ["out", "output", "- out", "- output", "ret", "return", "returns"] line

/-- The lines before and after the first one of a kind; without one, all lines are before. -/
def cutAt (p : List Char → Bool) (lines : List (List Char)) : List (List Char) × List (List Char) :=
  (lines.takeWhile (!p ·), (lines.dropWhile (!p ·)).drop 1)

/-! ## Items -/

/-- How far a line is indented, in bytes. -/
def indentation (line : List Char) : Nat :=
  (line.takeWhile Text.isBlank).foldr (fun c n => c.utf8Size + n) 0

/-- The lines of an item behind its first: those indented further. What is left starts the next
item. -/
def cutItem (offset : Nat) (lines : List (List Char)) : List (List Char) × List (List Char) :=
  (lines.takeWhile (offset < indentation ·), lines.dropWhile (offset < indentation ·))

theorem cutItem_rest_length (offset : Nat) (lines : List (List Char)) :
    (cutItem offset lines).2.length ≤ lines.length :=
  (List.dropWhile_sublist _).length_le

/-- The items of lines that are not blank, each with its lines trimmed. -/
def itemsOf : List (List Char) → List (List Char × List (List Char))
  | [] => []
  | l :: ls =>
    have := cutItem_rest_length (indentation l) ls
    let cut := cutItem (indentation l) ls
    (Text.trim l, cut.1.map Text.trim) :: itemsOf cut.2
termination_by ls => ls.length
decreasing_by simp only [List.length_cons]; omega

def items (lines : List (List Char)) : List (List Char × List (List Char)) :=
  itemsOf (lines.filter (!Text.isBlankText ·))

def isSeparator (c : Char) : Bool := c == '-' || c == ':'

def dropBullet? : List Char → Option (List Char)
  | c :: cs => if c = '-' ∨ c = '*' then some (Text.trim cs) else none
  | [] => none

/-- The name and the description of an item. An item without a bullet or a name is none. -/
def entry? (item : List Char × List (List Char)) : Option (String × String) :=
  match dropBullet? item.1 with
  | none => none
  | some body =>
    let (name, description) := (Text.splitWhere? isSeparator body).getD (body, [])
    let name := Text.trim name
    let description := Text.trim description
    if name.isEmpty then none
    else
      let lines := (if description.isEmpty then [] else [description]) ++ item.2
      some (String.ofList name, String.ofList (Text.join ['\n'] lines))

/-- The descriptions of a section by name. Of two items with one name the later one counts. -/
def entries (lines : List (List Char)) : SortedMap String String :=
  .ofList ((items lines).filterMap entry?)

/-! ## Whole documentation -/

/-- The text without the blank lines in front of it and the blanks behind it. -/
def body (raw : List Char) : List Char :=
  let pieces := Text.pieces raw
  let last := pieces.getLast?.toList
  Text.trimEnd (Text.join ['\n'] (pieces.dropLast.dropWhile Text.isBlankText ++ last))

/-- Splits documentation into its sections. An input section ends where the output section starts;
a header that comes too late is part of the section it stands in. -/
def split (raw : List Char) : DocBlock :=
  let text := body raw
  let (before, output) := cutAt isOutputHeader (Text.pieces text)
  let (common, input) := cutAt isInputHeader before
  { raw := String.ofList text
    common := String.ofList (Text.trim (Text.join ['\n'] common))
    input := entries input
    output := entries output }

end RoutineBridge.Sections
