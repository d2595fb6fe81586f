import RoutineBridge.Text.Folding

/-!
# LIKE patterns

A pattern describes a whole text: a percent sign stands for any run of characters, an underscore
for any one character, and every other character for itself in either case. Wildcards do not reach
over a line feed.
-/

namespace RoutineBridge

/-- What one character of a pattern stands for. -/
inductive Like.Part where
  | anyRun
  | anyOne
  | letter (c : Char)
deriving DecidableEq, Repr

namespace Like

def Part.ofChar (c : Char) : Part :=
  if c = '%' then anyRun else if c = '_' then anyOne else letter c

def parts (pattern : String) : List Part := pattern.toList.map Part.ofChar

/-- A wildcard may stand for the character. -/
def isOpen (c : Char) : Bool := c != '\n'

/-! ## Matching

Matching goes through the parts from the last to the first. For the parts seen so far it holds one
truth value for every suffix of the text, the whole text first and the empty suffix last: whether
those parts match the suffix.
-/

/-- The row of no parts at all: they match the empty suffix only. -/
def emptyRow : List Char → List Bool
  | [] => [true]
  | _ :: cs => false :: emptyRow cs

/-- The row with a part for one character in front. -/
def oneRow (p : Char → Bool) : List Char → List Bool → List Bool
  | c :: cs, _ :: row => (p c && row.headD false) :: oneRow p cs row
  | _, _ => [false]

/-- The row with a part for any run in front. -/
def runRow : List Char → List Bool → List Bool
  | c :: cs, b :: row =>
    let later := runRow cs row
    (b || (isOpen c && later.headD false)) :: later
  | _, row => row

/-- The row with a part in front. -/
def Part.row (text : List Char) : Part → List Bool → List Bool
  | anyRun, row => runRow text row
  | anyOne, row => oneRow isOpen text row
  | letter c, row => oneRow (Text.sameLetter c) text row

def matchParts (ps : List Part) (text : List Char) : Bool :=
  (ps.foldr (Part.row text) (emptyRow text)).headD false

end Like

def Like.matches (pattern text : String) : Bool := matchParts (parts pattern) text.toList

end RoutineBridge
