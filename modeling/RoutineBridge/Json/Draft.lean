import RoutineBridge.Json.Basic
import RoutineBridge.Json.Magnitude

/-!
# Reading JSON texts

A text is read into a draft: the tree of what stands in it up to the place where it stops being
JSON, with that place marked. A reader of the draft that goes through it in order therefore meets
the problems of a text in the order in which they stand there, whether they are problems of the
text or of its meaning.
-/

namespace RoutineBridge.Json

/-- Why a text cannot be read on. -/
inductive Break where
  /-- The text is no JSON from here on. -/
  | malformed
  /-- The text ends too early. -/
  | ended
  /-- The text ends behind a comma. -/
  | endedAfterComma
deriving DecidableEq, Repr, Inhabited

/-- A break as two readers meet it: one who asks for the value that stands there, and one who only
passes over it. The second does not put surrogates together, and to him a number that ends too
early is no number. -/
structure Fault where
  asked : Break
  passed : Break
deriving DecidableEq, Repr, Inhabited

/-- A break that is the same to both. -/
def Break.toFault (b : Break) : Fault := ⟨b, b⟩

/-- What stands in a text. -/
inductive Draft where
  | null
  | bool (b : Bool)
  /-- An integer that fits in 64 bits, with or without a sign. -/
  | int (i : Int)
  /-- Any other number, and whether it is small enough to be held. -/
  | real (text : String) (fits : Bool)
  /-- A string; nothing when it escapes half of a surrogate pair. -/
  | str (s : Option String)
  | arr (items : List Draft) (cut : Option Fault)
  | obj (members : List (Option String × Draft)) (cut : Option Fault)
  | broken (f : Fault)
deriving Inhabited

/-- A step of reading: the draft, and the rest of the text unless reading stopped. -/
abbrev Progress := Draft × Option (List Char)

def isSpace (c : Char) : Bool := c = ' ' || c = '\n' || c = '\t' || c = '\r'

def skipSpace (cs : List Char) : List Char := cs.dropWhile isSpace

/-- Reading stops here. -/
def stop (b : Break) : Progress := (.broken b.toFault, none)

def readWord (d : Draft) : List Char → List Char → Progress
  | [], cs => (d, some cs)
  | _ :: _, [] => stop .ended
  | w :: ws, c :: cs => if c = w then readWord d ws cs else stop .malformed

/-! ## Numbers -/

/-- The digits at the front, and the rest. -/
def spanDigits (cs : List Char) : List Char × List Char := cs.span Char.isDigit

/-- Digits are missing where the text ends. -/
def endedNumber : Fault := ⟨.ended, .malformed⟩

/-- At least one digit. -/
def readDigits (cs : List Char) : Except Fault (List Char × List Char) :=
  match spanDigits cs with
  | ([], []) => .error endedNumber
  | ([], _ :: _) => .error Break.malformed.toFault
  | (ds, rest) => .ok (ds, rest)

/-- The integer part: a single zero, or digits that do not start with one. -/
def readWhole (cs : List Char) : Except Fault (List Char × List Char) :=
  match readDigits cs with
  | .error f => .error f
  | .ok ('0' :: _ :: _, _) => .error Break.malformed.toFault
  | .ok r => .ok r

/-- A point and digits, if there is a point. -/
def readFraction : List Char → Except Fault (List Char × List Char)
  | '.' :: cs => (readDigits cs).map fun (ds, rest) => ('.' :: ds, rest)
  | cs => .ok ([], cs)

/-- An exponent, if there is one. -/
def readExponent : List Char → Except Fault (List Char × List Char)
  | c :: cs =>
    if c = 'e' || c = 'E' then
      match cs with
      | s :: ds =>
        if s = '+' || s = '-' then (readDigits ds).map fun (es, rest) => (c :: s :: es, rest)
        else (readDigits cs).map fun (es, rest) => (c :: es, rest)
      | [] => .error endedNumber
    else .ok ([], c :: cs)
  | [] => .ok ([], [])

/-- Integers of 64 bits, with and without a sign, are kept as integers. -/
def fitsWord (negative : Bool) (n : Nat) : Bool :=
  if negative then 0 < n && n ≤ Nat.pow 2 63 else n < Nat.pow 2 64

def numberDraft (negative : Bool) (whole fraction exponent : List Char) : Draft :=
  let text := (if negative then ['-'] else []) ++ whole ++ fraction ++ exponent
  let n := Magnitude.digitsValue whole
  if fraction.isEmpty && exponent.isEmpty && fitsWord negative n then
    .int (if negative then -n else n)
  else
    let e := Magnitude.exponentValue (exponent.drop 1)
    .real (String.ofList text) (Magnitude.ofParts whole (fraction.drop 1) e).fits

/-- A number, its sign already taken. -/
def readNumber (negative : Bool) (cs : List Char) : Progress :=
  match readWhole cs with
  | .error f => (.broken f, none)
  | .ok (whole, rest) =>
    match readFraction rest with
    | .error f => (.broken f, none)
    | .ok (fraction, rest) =>
      match readExponent rest with
      | .error f => (.broken f, none)
      | .ok (exponent, rest) => (numberDraft negative whole fraction exponent, some rest)

/-! ## Strings -/

def hexValue? (c : Char) : Option Nat :=
  if c.isDigit then some (c.toNat - 48)
  else if 'a' ≤ c && c ≤ 'f' then some (c.toNat - 87)
  else if 'A' ≤ c && c ≤ 'F' then some (c.toNat - 55)
  else none

/-- The bytes of a text, counted up to its fourth character. -/
def bytesAhead (cs : List Char) : Nat := (cs.take 4).foldr (fun c n => c.utf8Size + n) 0

/-- Four hexadecimal digits. A text of fewer than four bytes ends too early, whatever they are. -/
def readHex (cs : List Char) : Except Break (Nat × List Char) :=
  if bytesAhead cs < 4 then .error .ended
  else
    match (cs.take 4).mapM hexValue? with
    | some [a, b, c, d] => .ok (((16 * a + b) * 16 + c) * 16 + d, cs.drop 4)
    | _ => .error .malformed

/-- The character behind a backslash, for the escapes of one letter. -/
def shortEscape? (c : Char) : Option Char :=
  if c = '\x22' || c = '\\' || c = '/' then some c
  else if c = 'b' then some '\x08'
  else if c = 'f' then some '\x0c'
  else if c = 'n' then some '\n'
  else if c = 'r' then some '\r'
  else if c = 't' then some '\t'
  else none

/-- The second half of a surrogate pair, where it has to stand. -/
def readLowHalf : List Char → Except Break (Option Nat × List Char)
  | [] => .error .ended
  | '\\' :: [] => .error .ended
  | '\\' :: 'u' :: cs =>
    match readHex cs with
    | .error b => .error b
    | .ok (n, rest) =>
      if 0xDC00 ≤ n && n ≤ 0xDFFF then .ok (some n, rest) else .ok (none, '\\' :: 'u' :: cs)
  | cs => .ok (none, cs)

/-- The character of a numbered escape, and the rest; no character for half a pair. -/
def readEscapeNumber (cs : List Char) : Except Break (Option Char × List Char) :=
  match readHex cs with
  | .error b => .error b
  | .ok (n, rest) =>
    if 0xDC00 ≤ n && n ≤ 0xDFFF then .ok (none, rest)
    else if 0xD800 ≤ n && n ≤ 0xDBFF then
      match readLowHalf rest with
      | .error b => .error b
      | .ok (some low, rest) =>
        .ok (some (Char.ofNat (0x10000 + (n - 0xD800) * 0x400 + (low - 0xDC00))), rest)
      | .ok (none, rest) => .ok (none, rest)
    else .ok (some (Char.ofNat n), rest)

/-- A break inside a string. Who asks for the string has stopped at half a pair before. -/
def stringFault (acc : Option (List Char)) (b : Break) : Fault :=
  ⟨if acc.isSome then b else .malformed, b⟩

/-- The rest of a string behind its opening quote: the text, nothing if some escape was half a
pair, and what follows the closing quote. The text so far is given in reverse. -/
def readString : Nat → Option (List Char) → List Char → Except Fault (Option String × List Char)
  | 0, _, _ => .error Break.malformed.toFault
  | _ + 1, acc, [] => .error (stringFault acc .ended)
  | fuel + 1, acc, c :: cs =>
    if c = '\x22' then .ok (acc.map fun r => String.ofList r.reverse, cs)
    else if c.toNat < 32 then .error Break.malformed.toFault
    else if c = '\\' then
      match cs with
      | [] => .error (stringFault acc .ended)
      | 'u' :: rest =>
        match readEscapeNumber rest with
        | .error b => .error (stringFault acc b)
        | .ok (some d, rest) => readString fuel (acc.map (d :: ·)) rest
        | .ok (none, rest) => readString fuel none rest
      | e :: rest =>
        match shortEscape? e with
        | some d => readString fuel (acc.map (d :: ·)) rest
        | none => .error Break.malformed.toFault
    else readString fuel (acc.map (c :: ·)) cs

/-! ## Values -/

mutual

/-- One value. The fuel bounds the depth of the calls, at most three for every character. -/
def readValue : Nat → List Char → Progress
  | 0, _ => stop .malformed
  | fuel + 1, cs =>
    match skipSpace cs with
    | [] => stop .ended
    | c :: cs =>
      if c = 'n' then readWord .null "ull".toList cs
      else if c = 't' then readWord (.bool true) "rue".toList cs
      else if c = 'f' then readWord (.bool false) "alse".toList cs
      else if c = '-' then readNumber true cs
      else if c.isDigit then readNumber false (c :: cs)
      else if c = '\x22' then
        match readString fuel (some []) cs with
        | .ok (s, rest) => (.str s, some rest)
        | .error f => (.broken f, none)
      else if c = '[' then
        let (items, cut, rest) := readItems fuel true cs
        (.arr items cut, rest)
      else if c = '\x7b' then
        let (members, cut, rest) := readMembers fuel true cs
        (.obj members cut, rest)
      else stop .malformed

/-- The items of an array up to its closing bracket. -/
def readItems : Nat → Bool → List Char → List Draft × Option Fault × Option (List Char)
  | 0, _, _ => ([], some Break.malformed.toFault, none)
  | fuel + 1, first, cs =>
    match skipSpace cs with
    | [] => ([], some Break.ended.toFault, none)
    | c :: rest =>
      if c = ']' then ([], none, some rest)
      else if first then readItem fuel (c :: rest)
      else if c = ',' then
        match skipSpace rest with
        | [] => ([], some Break.endedAfterComma.toFault, none)
        | ']' :: _ => ([], some Break.malformed.toFault, none)
        | next => readItem fuel next
      else ([], some Break.malformed.toFault, none)

/-- An item, and the items behind it. -/
def readItem : Nat → List Char → List Draft × Option Fault × Option (List Char)
  | 0, _ => ([], some Break.malformed.toFault, none)
  | fuel + 1, cs =>
    match readValue fuel cs with
    | (d, none) => ([d], none, none)
    | (d, some rest) =>
      let (ds, cut, rest) := readItems fuel false rest
      (d :: ds, cut, rest)

/-- The members of an object up to its closing brace. -/
def readMembers : Nat → Bool → List Char →
    List (Option String × Draft) × Option Fault × Option (List Char)
  | 0, _, _ => ([], some Break.malformed.toFault, none)
  | fuel + 1, first, cs =>
    match skipSpace cs with
    | [] => ([], some Break.ended.toFault, none)
    | c :: rest =>
      if c = '\x7d' then ([], none, some rest)
      else if first then readMember fuel (c :: rest)
      else if c = ',' then readMember fuel (skipSpace rest)
      else ([], some Break.malformed.toFault, none)

/-- A member, and the members behind it. -/
def readMember : Nat → List Char →
    List (Option String × Draft) × Option Fault × Option (List Char)
  | 0, _ => ([], some Break.malformed.toFault, none)
  | fuel + 1, cs =>
    match cs with
    | [] => ([], some Break.ended.toFault, none)
    | c :: cs =>
      if c = '\x22' then
        match readString fuel (some []) cs with
        | .error f => ([], some f, none)
        | .ok (name, rest) =>
          match skipSpace rest with
          | [] => ([(name, .broken Break.ended.toFault)], none, none)
          | ':' :: rest =>
            match readValue fuel rest with
            | (d, none) => ([(name, d)], none, none)
            | (d, some rest) =>
              let (ms, cut, rest) := readMembers fuel false rest
              ((name, d) :: ms, cut, rest)
          | _ :: _ => ([(name, .broken Break.malformed.toFault)], none, none)
      else ([], some Break.malformed.toFault, none)

end

/-- A whole text: its draft, and whether something else stands behind the value. -/
structure Document where
  root : Draft
  trailing : Bool

def Document.read (text : String) : Document :=
  let cs := text.toList
  match readValue (3 * cs.length + 3) cs with
  | (root, some rest) => ⟨root, !(skipSpace rest).isEmpty⟩
  | (root, none) => ⟨root, false⟩

end RoutineBridge.Json
