import RoutineBridge.Source.Declaration
import RoutineBridge.Source.DirectiveLine
import RoutineBridge.Source.Sections
import RoutineBridge.Source.Token

/-!
# Sources of packages

What the source of a package contributes: the documentation of its routines and its directives.
-/

namespace RoutineBridge

/-- What one package contributes. -/
structure PackageDocs where
  package : String
  /-- Documentation by catalog key. -/
  docs : SortedMap String DocBlock
  directives : List Directive
  faults : List DirectiveFault
deriving Inhabited

namespace PackageDocs

/-- A package that contributes nothing. -/
def empty (package : String) : PackageDocs := ⟨package, .empty, [], []⟩

/-- The documentation under a catalog key. -/
def doc? (p : PackageDocs) (key : String) : Option DocBlock := p.docs.get? key

/-- What has been read of a source. -/
structure Progress where
  collector : DocCollector
  directives : List Directive
  faults : List DirectiveFault

/-- The text of a comment; the stars at the front of a block comment are decoration. -/
def commentText (text : List Char) (block : Bool) : List Char :=
  if block then text.dropWhile (· == '*') else text

/-- Takes up a token. -/
def step (markers : List String) (package : String) (p : Progress) : Token → Progress
  | .code text _ => { p with collector := p.collector.code package text }
  | .comment text line block =>
    let scanned := Comment.scan markers package (commentText text block) line
    { collector := p.collector.comment scanned.text
      directives := p.directives ++ scanned.directives
      faults := p.faults ++ scanned.faults }

def ofTokens (markers : List String) (package : String) (tokens : List Token) : PackageDocs :=
  let p := tokens.foldl (step markers package) ⟨.empty, [], []⟩
  ⟨package, p.collector.docs.mapValues Sections.split, p.directives, p.faults⟩

def ofSource (markers : List String) (package source : String) : Except LexError PackageDocs :=
  (Token.lexAll source).map (ofTokens markers package)

/-- A source is read as its tokens say, if it can be split into tokens. -/
theorem ofSource_eq_ok_iff {markers : List String} {package source : String} {p : PackageDocs} :
    ofSource markers package source = .ok p ↔
      ∃ tokens, Token.lexAll source = .ok tokens ∧ ofTokens markers package tokens = p := by
  rw [ofSource]
  cases Token.lexAll source with
  | error e => simp [Except.map]
  | ok tokens => simp [Except.map]

end PackageDocs

end RoutineBridge
