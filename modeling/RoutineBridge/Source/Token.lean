import RoutineBridge.Text.Lines

/-!
# Code and comments

The source of a package is split into code and comments. A line comment runs to the end of its
line, a block comment to the next closing mark; block comments do not nest. A comment mark inside
a quoted literal is code, and a literal ends with its line at the latest.
-/

namespace RoutineBridge

/-- A stretch of source. -/
inductive Token where
  | code (text : List Char) (line : Nat)
  | comment (text : List Char) (line : Nat) (block : Bool)
deriving DecidableEq, Repr, Inhabited

/-- Why a source cannot be split. -/
inductive LexError where
  | unterminatedComment (line : Nat)
deriving DecidableEq, Repr

def LexError.message : LexError → String
  | .unterminatedComment line => s!"unterminated block comment starting on line {line}"

namespace Token

/-- The line a token starts on, counted from one. -/
def line : Token → Nat
  | code _ l => l
  | comment _ l _ => l

def opensComment (cs : List Char) : Bool := ['-', '-'].isPrefixOf cs || ['/', '*'].isPrefixOf cs

/-- Whether a quoted literal is open behind a character. -/
def quotedAfter (quoted : Bool) (c : Char) : Bool :=
  if c = '\x27' then !quoted else if c = '\n' then false else quoted

/-- The code up to the next comment outside a literal, and the rest. -/
def cutCode (quoted : Bool) : List Char → List Char × List Char
  | [] => ([], [])
  | c :: cs =>
    if !quoted && opensComment (c :: cs) then ([], c :: cs)
    else
      let tail := cutCode (quotedAfter quoted c) cs
      (c :: tail.1, tail.2)

theorem cutCode_append (quoted : Bool) (cs : List Char) :
    (cutCode quoted cs).1 ++ (cutCode quoted cs).2 = cs := by
  induction cs generalizing quoted with
  | nil => rfl
  | cons c cs ih =>
      simp only [cutCode]
      split
      · rfl
      · simp [ih]

theorem cutCode_rest_length (quoted : Bool) (cs : List Char) :
    (cutCode quoted cs).2.length ≤ cs.length := by
  have := congrArg List.length (cutCode_append quoted cs)
  simp only [List.length_append] at this
  omega

/-- The text of a line comment, and what follows its line. -/
def cutLineComment (cs : List Char) : List Char × List Char :=
  (Text.splitWhere? (· == '\n') cs).getD (cs, [])

theorem cutLineComment_rest_length (cs : List Char) :
    (cutLineComment cs).2.length ≤ cs.length := by
  simp only [cutLineComment]
  cases h : Text.splitWhere? (· == '\n') cs with
  | none => simp
  | some p =>
      obtain ⟨_, _, rfl⟩ := Text.eq_of_splitWhere? h
      simp only [Option.getD_some, List.length_append, List.length_cons]
      omega

theorem splitBlock_rest_length {cs text rest : List Char}
    (h : Text.splitAt? ['*', '/'] cs = some (text, rest)) : rest.length ≤ cs.length := by
  rw [Text.eq_of_splitAt? h]
  simp only [List.length_append]
  omega

/-- How many lines a text ends. -/
def lineCount (cs : List Char) : Nat := cs.count '\n'

/-- The tokens of a source whose first character stands on `line`, and the error that ends them if
there is one. -/
def scan (line : Nat) : List Char → List Token × Option LexError
  | [] => ([], none)
  | '-' :: '-' :: cs =>
    have := cutLineComment_rest_length cs
    let cut := cutLineComment cs
    let later := scan (line + 1) cut.2
    (comment cut.1 line false :: later.1, later.2)
  | '/' :: '*' :: cs =>
    match h : Text.splitAt? ['*', '/'] cs with
    | none => ([], some (.unterminatedComment line))
    | some (text, rest) =>
      have := splitBlock_rest_length h
      let later := scan (line + lineCount text) rest
      (comment text line true :: later.1, later.2)
  | c :: cs =>
    have := cutCode_rest_length (quotedAfter false c) cs
    let cut := cutCode (quotedAfter false c) cs
    let later := scan (line + lineCount (c :: cut.1)) cut.2
    (code (c :: cut.1) line :: later.1, later.2)
termination_by cs => cs.length
decreasing_by all_goals simp only [List.length_cons]; omega

/-- The tokens of a source, and the error that ends them if there is one. -/
def lex (source : String) : List Token × Option LexError := scan 1 source.toList

/-- The tokens of a source that can be split to its end. -/
def lexAll (source : String) : Except LexError (List Token) :=
  match lex source with
  | (tokens, none) => .ok tokens
  | (_, some e) => .error e

theorem lexAll_eq_ok_iff {source : String} {tokens : List Token} :
    lexAll source = .ok tokens ↔ lex source = (tokens, none) := by
  rw [lexAll]
  rcases lex source with ⟨found, _ | e⟩
  · simp
  · simp

/-- The source text of a token; a line comment ends its line unless the source ends there. -/
def render (atEnd : Bool) : Token → List Char
  | code text _ => text
  | comment text _ false => '-' :: '-' :: text ++ if atEnd then [] else ['\n']
  | comment text _ true => '/' :: '*' :: text ++ ['*', '/']

end Token

end RoutineBridge
