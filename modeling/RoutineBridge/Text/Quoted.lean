import RoutineBridge.Text.Quoted.Table

/-!
# Quoted texts

How messages and generated code write a text between quotes: the quote and the backslash behind
a backslash, the four controls that have a letter by that letter, every other character without
a visible form of its own by its number.
-/

namespace RoutineBridge.Text

/-- The lower case hexadecimal digits of a number, without leading zeros. -/
def hex (n : Nat) : List Char := Nat.toDigits 16 n

/-- A character inside quotes that are written as `quote`. -/
def escape (quote c : Char) : List Char :=
  if c = '\x00' then ['\\', '0']
  else if c = '\t' then ['\\', 't']
  else if c = '\r' then ['\\', 'r']
  else if c = '\n' then ['\\', 'n']
  else if c = '\\' || c = quote then ['\\', c]
  else if invisibleSet.contains c then ['\\', 'u', '\x7b'] ++ hex c.toNat ++ ['\x7d']
  else [c]

def quoted (s : String) : String :=
  String.ofList ('\x22' :: s.toList.flatMap (escape '\x22') ++ ['\x22'])

/-- A character between single quotes. -/
def quotedChar (c : Char) : String := String.ofList ('\x27' :: escape '\x27' c ++ ['\x27'])

end RoutineBridge.Text
