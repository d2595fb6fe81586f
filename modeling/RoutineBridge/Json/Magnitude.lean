/-!
# How large a number may be

A number with a fraction or an exponent, and an integer of more than 64 bits, is its leading
digits, as many as fit 64 bits, times a power of ten. Both factors are rounded to the 53 bits of a
double, and so is their product, which has to stay finite.
-/

namespace RoutineBridge.Json

/-- A significand and the power of ten that goes with it. -/
structure Magnitude where
  significand : Nat
  exponent : Int
deriving DecidableEq, Repr

namespace Magnitude

def digit (c : Char) : Nat := c.toNat - 48

/-- The number that digits stand for. -/
def digitsValue (ds : List Char) : Nat := ds.foldl (fun n d => 10 * n + digit d) 0

/-- The number that digits stand for behind a sign, if there is one. -/
def exponentValue : List Char → Int
  | '-' :: ds => -digitsValue ds
  | '+' :: ds => digitsValue ds
  | ds => digitsValue ds

/-- Puts digits behind a significand while it fits 64 bits, and gives the digits that are left. -/
def takeDigits : Nat → List Char → Nat × List Char
  | n, [] => (n, [])
  | n, d :: ds =>
    let next := 10 * n + digit d
    if next < Nat.pow 2 64 then takeDigits next ds else (n, d :: ds)

/-- The digits before and behind the point, and the exponent. Every digit left out before the point
multiplies by ten, every one taken behind it divides. -/
def ofParts (whole places : List Char) (exponent : Int) : Magnitude :=
  let (n, out) := takeDigits 0 whole
  let (n, left) := takeDigits n places
  ⟨n, exponent + out.length - (places.length - left.length : Nat)⟩

/-- The nearest number of 53 bits with zeros behind them; of two the one that ends in zero. -/
def round (n : Nat) : Nat :=
  let unit := Nat.pow 2 (Nat.log2 n - 52)
  let low := n / unit
  let rest := n % unit
  if 2 * rest < unit || (2 * rest == unit && low % 2 == 0) then low * unit else (low + 1) * unit

/-- The least number that rounds to no double. -/
def limit : Nat := Nat.pow 2 1024 - Nat.pow 2 970

/-- The number can be held. No power of ten above the 308th is a double, and dividing leaves every
significand finite. -/
def fits (x : Magnitude) : Bool :=
  x.significand == 0 || x.exponent < 0 ||
    x.exponent ≤ 308 && round x.significand * round (Nat.pow 10 x.exponent.toNat) < limit

end Magnitude

end RoutineBridge.Json
