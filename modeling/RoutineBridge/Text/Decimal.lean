/-!
# Whole numbers in decimal

The digits of a number, with a sign in front where one is allowed.
-/

namespace RoutineBridge.Text

/-- The number that digits write; a text that is empty or holds something else writes none. -/
def digits? (cs : List Char) : Option Nat :=
  if cs.isEmpty || !cs.all Char.isDigit then none
  else some (cs.foldl (fun n c => 10 * n + (c.toNat - 48)) 0)

/-- The text without a plus sign in front. -/
def dropPlus : List Char → List Char
  | '+' :: cs => cs
  | cs => cs

/-- A number of so many bits. A plus sign may stand in front of it. -/
def natural? (bits : Nat) (cs : List Char) : Option Nat :=
  (digits? (dropPlus cs)).filter (· < Nat.pow 2 bits)

/-- A number of so many bits that either sign may stand in front of; only zero takes a minus. -/
def signedNatural? (bits : Nat) (cs : List Char) : Option Nat :=
  match cs with
  | '-' :: ds => (digits? ds).filter (· = 0)
  | cs => natural? bits cs

end RoutineBridge.Text
