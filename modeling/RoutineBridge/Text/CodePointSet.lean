/-!
# Sets and shifts of code points

A character class is kept as the increasing list of places where membership changes, and a case
mapping as the list of runs that move by one distance. Both are data of the character standard;
the tables themselves stand in modules of their own.
-/

namespace RoutineBridge.Text

/-- A set of code points, given by the code points at which membership changes. -/
structure CodePointSet where
  changes : List Nat

/-- A character is a member when membership has changed an odd number of times up to it. -/
def CodePointSet.contains (s : CodePointSet) (c : Char) : Bool :=
  s.changes.countP (· ≤ c.toNat) % 2 == 1

/-- Every `step`-th code point from `first` to `last` moves by `shift`. -/
structure CaseShift where
  first : Nat
  last : Nat
  step : Nat
  shift : Int

/-- The shift takes the character along. -/
def CaseShift.covers (r : CaseShift) (c : Char) : Bool :=
  r.first ≤ c.toNat && c.toNat ≤ r.last && (c.toNat - r.first) % r.step == 0

/-- Moves a character by the shift that covers it; a character no shift covers stays. -/
def shiftCase (shifts : List CaseShift) (c : Char) : Char :=
  match shifts.find? (·.covers c) with
  | some r => Char.ofNat (c.toNat + r.shift).toNat
  | none => c

end RoutineBridge.Text
