import RoutineBridge.Routine.Basic
import RoutineBridge.Text.Lines

/-!
# Names in generated artifacts

All artifacts take their names from here. Message names are in Pascal case with a double
underscore between their parts; fields and calls are in lower snake case.
-/

namespace RoutineBridge.Identifier

/-- A name without the mark of hidden names, and whether the mark was there. -/
def splitHidden (cs : List Char) : List Char × Bool :=
  if cs.getLast? = some '#' then (cs.dropLast, true) else (cs, false)

/-! ## Pascal case -/

/-- Joins the words of a name. A character that is neither letter nor digit starts a new word and
disappears, except that an underscore keeps a word that starts with a digit apart. -/
def joinWords (keepCase upperNext : Bool) : List Char → List Char
  | [] => []
  | c :: cs =>
    if !c.isAlphanum then
      (if cs.head?.any Char.isDigit then ['_'] else []) ++ joinWords keepCase true cs
    else
      (if upperNext then c.toUpper else if keepCase then c else c.toLower) ::
        joinWords keepCase false cs

/-- Pascal case of one part of a name. A part that has lower case letters keeps the case inside
its words. -/
def pascalPart (cs : List Char) : List Char :=
  let (visible, hidden) := splitHidden cs
  joinWords (visible.any Char.isLower) true visible ++ if hidden then "Hidden".toList else []

/-- The parts of a name between double underscores. -/
def parts : List Char → List (List Char)
  | '_' :: '_' :: cs => [] :: parts cs
  | c :: cs =>
    match parts cs with
    | [] => [[c]]
    | p :: ps => (c :: p) :: ps
  | [] => [[]]

/-- Pascal case of a name; empty parts disappear. -/
def pascal (name : String) : String :=
  String.ofList (Text.join ['_', '_'] (((parts name.toList).map pascalPart).filter (!·.isEmpty)))

/-! ## Snake case -/

/-- Words that no spelling makes an identifier. -/
def reserved : List (List Char) := ["crate", "self", "super", "_"].map String.toList

/-- A letter or digit in lower case; an underscore for everything else. -/
def snakeChar (c : Char) : Char := if c.isAlphanum then c.toLower else '_'

/-- Something in front of a digit, or of nothing. -/
def startIdent : List Char → List Char
  | [] => ['f', '_']
  | c :: cs => if c.isDigit then 'f' :: '_' :: c :: cs else c :: cs

/-- An underscore behind a reserved word. -/
def avoidReserved (cs : List Char) : List Char := if reserved.contains cs then cs ++ ['_'] else cs

def field (name : String) : String :=
  let (visible, hidden) := splitHidden (Text.trim name.toList)
  let snake := visible.map snakeChar ++ if hidden then "_hidden".toList else []
  String.ofList (avoidReserved (startIdent snake))

/-- The words that Rust takes for itself and that can be written raw. -/
def keywords : List String :=
  ["as", "async", "await", "box", "break", "const", "continue", "dyn", "else", "enum", "extern",
   "false", "final", "fn", "for", "gen", "if", "impl", "in", "let", "loop", "macro", "match",
   "mod", "move", "mut", "override", "priv", "pub", "ref", "return", "static", "struct", "trait",
   "true", "try", "type", "typeof", "unsafe", "unsized", "use", "virtual", "where", "while",
   "yield", "abstract", "become", "do"]

/-- An identifier as Rust source writes it. -/
def rust (ident : String) : String := if keywords.contains ident then "r#" ++ ident else ident

/-! ## Routines -/

/-- `Package__Name` of a routine. -/
def base (r : Routine) : String :=
  if r.package.isEmpty then pascal r.exposedName
  else pascal r.package ++ "__" ++ pascal r.exposedName

def requestMessage (r : Routine) : String := base r ++ "__Request"

def responseMessage (r : Routine) : String := base r ++ "__Response"

/-- The service that the routines of a package belong to. -/
def service (package : String) : String :=
  if package.isEmpty then "Procedures" else pascal package

def rpc (r : Routine) : String := pascal r.exposedName

/-- `package__name` of a routine. -/
def call (r : Routine) : String :=
  if r.package.isEmpty then field r.exposedName
  else field r.package ++ "__" ++ field r.exposedName

def constant (r : Routine) : String := Text.asciiUpper (call r)

/-! ## Types -/

def typeMessage (n : TypeName) : String := "__".intercalate (n.parts.map pascal)

/-- The name of a type that is spelled out at a place inside a routine. -/
def inlineType (object : String) (path : List String) (kind : String) : String :=
  "__".intercalate ((object :: path).map Text.asciiUpper) ++ "_" ++ Text.asciiUpper kind

end RoutineBridge.Identifier
