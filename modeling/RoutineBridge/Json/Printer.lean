import RoutineBridge.Json.Basic
import RoutineBridge.Text.Quoted

/-!
# JSON texts

Values written out. The indented form puts every item and member on a line of its own, two
blanks further in than its container; an empty container stays on one line.
-/

namespace RoutineBridge.Json

/-- A four-digit hexadecimal escape. -/
def unicodeEscape (n : Nat) : List Char :=
  let digits := Text.hex n
  ['\\', 'u'] ++ List.replicate (4 - digits.length) '0' ++ digits

/-- A character of a string: quotes, backslashes and controls are escaped. -/
def escape (c : Char) : List Char :=
  if c = '\x22' || c = '\\' then ['\\', c]
  else if c = '\x08' then ['\\', 'b']
  else if c = '\x0c' then ['\\', 'f']
  else if c = '\n' then ['\\', 'n']
  else if c = '\r' then ['\\', 'r']
  else if c = '\t' then ['\\', 't']
  else if c.toNat < 32 then unicodeEscape c.toNat
  else [c]

def writeString (s : String) : List Char := '\x22' :: s.toList.flatMap escape ++ ['\x22']

/-- Separates written items by commas. -/
def commaSeparated (sep : List Char) : List (List Char) → List Char
  | [] => []
  | [x] => x
  | x :: y :: xs => x ++ ',' :: sep ++ commaSeparated sep (y :: xs)

/-- A container with its items on lines of their own. -/
def block (left right : Char) (depth : Nat) (items : List (List Char)) : List Char :=
  if items.isEmpty then [left, right]
  else
    let inner := '\n' :: List.replicate (2 * (depth + 1)) ' '
    left :: inner ++ commaSeparated inner items ++
      '\n' :: List.replicate (2 * depth) ' ' ++ [right]

mutual

/-- The indented text of a value that stands `depth` containers deep. -/
def writeAt (depth : Nat) : Json → List Char
  | .null => "null".toList
  | .bool b => (if b then "true" else "false").toList
  | .int i => (toString i).toList
  | .decimal text => text.toList
  | .str s => writeString s
  | .arr items => block '[' ']' depth (writeItems (depth + 1) items)
  | .obj members => block '\x7b' '\x7d' depth (writeMembers (depth + 1) members)

def writeItems (depth : Nat) : List Json → List (List Char)
  | [] => []
  | item :: items => writeAt depth item :: writeItems depth items

def writeMembers (depth : Nat) : List (String × Json) → List (List Char)
  | [] => []
  | (name, value) :: members =>
    (writeString name ++ ':' :: ' ' :: writeAt depth value) :: writeMembers depth members

end

/-- The indented text of a value. -/
def pretty (j : Json) : String := String.ofList (writeAt 0 j)

mutual

/-- The text of a value on one line, without blanks. -/
def writeInline : Json → List Char
  | .null => "null".toList
  | .bool b => (if b then "true" else "false").toList
  | .int i => (toString i).toList
  | .decimal text => text.toList
  | .str s => writeString s
  | .arr items => '[' :: commaSeparated [] (writeInlineItems items) ++ [']']
  | .obj members => '\x7b' :: commaSeparated [] (writeInlineMembers members) ++ ['\x7d']

def writeInlineItems : List Json → List (List Char)
  | [] => []
  | item :: items => writeInline item :: writeInlineItems items

def writeInlineMembers : List (String × Json) → List (List Char)
  | [] => []
  | (name, value) :: members =>
    (writeString name ++ ':' :: writeInline value) :: writeInlineMembers members

end

/-- The text of a value on one line. -/
def compact (j : Json) : String := String.ofList (writeInline j)

end RoutineBridge.Json
