import RoutineBridge.Text.Lines
import RoutineBridge.Text.Quoted
import RoutineBridge.Text.Blank

/-!
# Decimal texts that fit a number type

A number type bounds the digits in front of the point by precision minus scale and those behind it
by the scale.
-/

namespace RoutineBridge

/-- Why a text is no value of a number type. -/
inductive DigitsError where
  | tooManyDigits (value : String) (precision : Nat) (scale : Int)
  | notANumber (value : String) (found : Char)
deriving DecidableEq, Repr

def DigitsError.message : DigitsError → String
  | .tooManyDigits value precision scale =>
    let text := Text.quoted value
    s!"want NUMBER({precision},{scale}), has {text}"
  | .notANumber value found =>
    let char := Text.quotedChar found
    let text := Text.quoted value
    s!"want number, has {char} in {text}"

namespace Digits

/-- The text without a sign in front. -/
def dropSign : List Char → List Char
  | '-' :: cs => cs
  | '+' :: cs => cs
  | cs => cs

/-- The parts before and after the first point. -/
def splitPoint (cs : List Char) : List Char × List Char :=
  (Text.splitAt? ['.'] cs).getD (cs, [])

/-- How many digits may stand before and after the point. A type with neither precision nor scale
holds 38 of each. -/
def budget (precision : Nat) (scale : Int) : Int × Int :=
  if precision = 0 ∧ scale = 0 then (38, 38)
  else
    let p : Int := if precision = 0 then 38 else precision
    let s := max scale 0
    (max (p - s) 0, s)

/-- Checks a decimal text against a number type. The empty text stands for a missing value and
passes. -/
def check (value : String) (precision : Nat) (scale : Int) : Except DigitsError Unit :=
  let digits := dropSign (Text.trim value.toList)
  if digits.isEmpty then .ok ()
  else
    let (whole, places) := splitPoint digits
    match (whole ++ places).find? (!·.isDigit) with
    | some c => .error (.notANumber value c)
    | none =>
      let (wholeBudget, placesBudget) := budget precision scale
      if ((whole.dropWhile (· == '0')).length : Int) > wholeBudget ∨
          (places.length : Int) > placesBudget then
        .error (.tooManyDigits value precision scale)
      else .ok ()

end Digits

end RoutineBridge
