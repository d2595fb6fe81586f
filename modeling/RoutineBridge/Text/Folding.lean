import RoutineBridge.Text.Folding.Table

/-!
# The same letter in another case

Two characters are the same letter when they fold to one representative.
-/

namespace RoutineBridge.Text

/-- The representative of a character under simple case folding. -/
def fold (c : Char) : Char :=
  if c.toNat < 128 then c.toLower else shiftCase foldingShifts c

/-- Equality up to simple case folding. -/
def sameLetter (a b : Char) : Bool := fold a == fold b

/-- The characters that are the same letter: the representative, and what a shift moves to it. -/
def sameLetters (c : Char) : List Char :=
  let r := fold c
  r :: foldingShifts.filterMap fun s =>
    let d := Char.ofNat ((r.toNat : Int) - s.shift).toNat
    if s.covers d && fold d == r then some d else none

end RoutineBridge.Text
