import RoutineBridge.Text.Lowercase.Table

/-!
# Lower case of whole texts

Every character goes to its lower case form. Two need more than a table: the dotted capital I
becomes two characters, and a capital sigma at the end of a word takes its final form.
-/

namespace RoutineBridge.Text

/-- The first character that is not skipped has case. -/
def startsCased (cs : List Char) : Bool :=
  match cs.find? (!caseIgnorableSet.contains ·) with
  | some c => casedSet.contains c
  | none => false

/-- A capital sigma is final when a cased letter stands before it and none after it. -/
def isFinalSigma (before after : List Char) : Bool := startsCased before && !startsCased after

/-- Lower case of the character that stands between `before` (nearest first) and `after`. -/
def lowerChar (before : List Char) (c : Char) (after : List Char) : List Char :=
  if c.toNat < 128 then [c.toLower]
  else if c = 'Σ' then [if isFinalSigma before after then 'ς' else 'σ']
  else if c = 'İ' then ['i', '\u0307']
  else [shiftCase lowercaseShifts c]

/-- Lower case of a text, the characters already passed given nearest first. -/
def lowerAfter (before : List Char) : List Char → List Char
  | [] => []
  | c :: cs => lowerChar before c cs ++ lowerAfter (c :: before) cs

def lower (s : String) : String := String.ofList (lowerAfter [] s.toList)

end RoutineBridge.Text
