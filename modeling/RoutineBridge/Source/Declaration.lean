import RoutineBridge.Routine.Basic
import RoutineBridge.Text.Folding
import RoutineBridge.Text.Word

/-!
# Declarations and their documentation

A declaration is the word `FUNCTION` or `PROCEDURE` in either case, standing alone, with a name
behind it. The comments right before the code of a declaration document it.
-/

namespace RoutineBridge.Declaration

/-- The rest behind a word, letters of either case being the same. -/
def dropWord? : List Char → List Char → Option (List Char)
  | [], cs => some cs
  | _ :: _, [] => none
  | w :: ws, c :: cs => if Text.sameLetter w c then dropWord? ws cs else none

/-- The rest behind the word that opens a declaration. -/
def dropKeyword? (cs : List Char) : Option (List Char) :=
  dropWord? "FUNCTION".toList cs <|> dropWord? "PROCEDURE".toList cs

/-- An ASCII letter, or a character that is one up to case. -/
def isLetter (c : Char) : Bool := (Text.fold c).isAlpha

/-- A character of a plain name. -/
def isNameChar (c : Char) : Bool := isLetter c || c.isDigit || c == '_' || c == '$' || c == '#'

/-- A name at the front, without its quotes, and the rest. A quoted name has something between the
quotes. -/
def cutName? : List Char → Option (List Char × List Char)
  | [] => none
  | c :: cs =>
    if c = '\x22' then
      match cs.dropWhile (· != '\x22') with
      | _ :: rest =>
        let name := cs.takeWhile (· != '\x22')
        if name.isEmpty then none else some (name, rest)
      | [] => none
    else if isLetter c then some (c :: cs.takeWhile isNameChar, cs.dropWhile isNameChar)
    else none

/-- A declaration at the front: its name, and the rest. -/
def cut? (cs : List Char) : Option (List Char × List Char) :=
  match dropKeyword? cs with
  | some (c :: rest) => if Text.isBlank c then cutName? (Text.trimStart rest) else none
  | _ => none

/-- The names that a stretch of code declares, in order. `inWord` says that a word character stands
right before the code; the fuel bounds the number of characters looked at. -/
def namesFrom : Nat → Bool → List Char → List (List Char)
  | 0, _, _ => []
  | _ + 1, _, [] => []
  | fuel + 1, inWord, c :: cs =>
    match if inWord then none else cut? (c :: cs) with
    | some (name, rest) =>
      let consumed := (c :: cs).take ((c :: cs).length - rest.length)
      name :: namesFrom fuel (consumed.getLast?.any Text.isWord) rest
    | none => namesFrom fuel (Text.isWord c) cs

/-- The names that a stretch of code declares, in order. -/
def names (code : List Char) : List (List Char) := namesFrom code.length false code

end RoutineBridge.Declaration

namespace RoutineBridge

/-- Comments are collected until code comes up; the documentation of the declarations met so far is
kept by catalog key. -/
structure DocCollector where
  /-- The comments since the last code. -/
  pending : List Char
  docs : SortedMap String (List Char)

namespace DocCollector

def empty : DocCollector := ⟨[], .empty⟩

/-- Takes up a comment. A blank one counts for nothing. -/
def comment (c : DocCollector) (text : List Char) : DocCollector :=
  if Text.isBlankText text then c
  else if c.pending.isEmpty then { c with pending := text }
  else { c with pending := c.pending ++ '\n' :: text }

/-- Takes up code. The first declaration in it gets the pending comments, unless the name is
documented already; code without a declaration drops them. Blank code counts for nothing. -/
def code (c : DocCollector) (package : String) (text : List Char) : DocCollector :=
  if Text.isBlankText text then c
  else
    match Declaration.names text with
    | name :: _ =>
      if Text.isBlankText c.pending then { c with pending := [] }
      else ⟨[], c.docs.insertNew (qualify package (String.ofList name)) c.pending⟩
    | [] => { c with pending := [] }

end DocCollector

end RoutineBridge
