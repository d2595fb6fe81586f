import RoutineBridge.Proofs.Collecting
import RoutineBridge.Proofs.Tokens
import RoutineBridge.Source.Package

/-!
# Where documentation comes from

What is read of a source goes to the collector token by token (`PackageDocs.fed`), so what the
collector holds can be traced back to the source: the comments that document a routine stand in
front of the stretch of code with its heading, and only blank code stands between
(`Placement.Places`). Main statement: the code between such a comment and the heading ends a
statement only if one ends in front of the heading in that very stretch (`PackageDocs.doc_placed`).
The latter does happen: a constant and a function without a comment between them are one stretch,
and a comment in front of the constant documents the function
(`PackageDocs.documented_behind_statement`).
-/

namespace RoutineBridge

namespace PackageDocs

/-- What the collector gets of a token: code as it is, and comments without their directives. -/
def fed (markers : List String) (package : String) : Token → DocCollector.Step
  | .code text _ => .code text
  | .comment text line block =>
    .comment (Comment.scan markers package (commentText text block) line).text

/-- What a token adds to the documentation behind it. -/
def remark? (markers : List String) (package : String) (t : Token) : Option (List Char) :=
  (fed markers package t).remark?

theorem collector_foldl_step (markers : List String) (package : String) (tokens : List Token)
    (p : Progress) :
    (tokens.foldl (step markers package) p).collector =
      (tokens.map (fed markers package)).foldl (DocCollector.take package) p.collector := by
  induction tokens generalizing p with
  | nil => rfl
  | cons t tokens ih =>
      rw [List.foldl_cons, ih, List.map_cons, List.foldl_cons]
      cases t <;> rfl

theorem docs_ofTokens (markers : List String) (package : String) (tokens : List Token) :
    (ofTokens markers package tokens).docs =
      (DocCollector.collect package (tokens.map (fed markers package))).docs.mapValues
        Sections.split := by
  rw [DocCollector.collect, ofTokens, collector_foldl_step]

end PackageDocs

/-! ## Code between a comment and a heading -/

/-- A semicolon outside the quoted literals ends a statement. -/
def EndsStatement (code : List Char) : Prop :=
  ∃ before after, code = before ++ ';' :: after ∧ before.foldl Token.quotedAfter false = false

theorem not_endsStatement_of_isBlankText {code : List Char} (h : Text.isBlankText code) :
    ¬ EndsStatement code := by
  rintro ⟨before, after, rfl, -⟩
  have hblank : Text.isBlank ';' := List.all_eq_true.mp h ';' (by simp)
  exact absurd hblank (by decide)

def Token.code? : Token → Option (List Char)
  | .code text _ => some text
  | .comment .. => none

/-- A heading in the tokens of a source: the tokens are `earlier`, the `run` in front of the
heading, the code `text` with the heading, and those that come `later`; in the code, `front` stands
in front of the heading. -/
structure Placement where
  earlier : List Token
  run : List Token
  text : List Char
  line : Nat
  later : List Token
  front : List Char
  name : List Char

namespace Placement

/-- The stretches of code between a token of the run and the heading, where `after` is what follows
the token in the run. -/
def between (a : Placement) (after : List Token) : List (List Char) :=
  after.filterMap Token.code? ++ [a.front]

/-- The heading is the first of its code, and the comments of the run are what documents it. -/
structure Places (a : Placement) (markers : List String) (package : String) (tokens : List Token)
    (key : String) (block : DocBlock) : Prop where
  tokens_eq : tokens = a.earlier ++ (a.run ++ .code a.text a.line :: a.later)
  first : Declaration.First a.text a.front a.name
  key_eq : key = qualify package (String.ofList a.name)
  remarks : a.run.filterMap (PackageDocs.remark? markers package) ≠ []
  block_eq : block = Sections.split
    (Text.join ['\n'] (a.run.filterMap (PackageDocs.remark? markers package)))
  blank : ∀ code ∈ a.run.filterMap Token.code?, Text.isBlankText code

variable {a : Placement} {markers : List String} {package key : String} {tokens : List Token}
  {block : DocBlock}

/-- Statements end in front of the heading or not at all. -/
theorem Places.endsStatement_iff (h : a.Places markers package tokens key block)
    {before after : List Token} {comment : Token} (hrun : a.run = before ++ comment :: after) :
    (∃ code ∈ a.between after, EndsStatement code) ↔ EndsStatement a.front := by
  constructor
  · rintro ⟨code, hcode, hends⟩
    rcases List.mem_append.mp hcode with hcode | hcode
    · refine absurd hends (not_endsStatement_of_isBlankText (h.blank code ?_))
      obtain ⟨t, ht, hcode⟩ := List.mem_filterMap.mp hcode
      exact List.mem_filterMap.mpr ⟨t, by simp [hrun, ht], hcode⟩
    · exact List.mem_singleton.mp hcode ▸ hends
  · intro hends
    exact ⟨a.front, by simp [between], hends⟩

end Placement

namespace PackageDocs

variable {markers : List String} {package key source : String} {tokens : List Token}
  {p : PackageDocs} {block : DocBlock}

theorem fed_eq_code {t : Token} {text : List Char}
    (h : fed markers package t = .code text) : ∃ line, t = .code text line := by
  cases t with
  | code other line => exact ⟨line, by rw [DocCollector.Step.code.inj h]⟩
  | comment => cases h

/-- Whatever is documented has its heading and its comments in the source. -/
theorem exists_places (hdoc : (ofTokens markers package tokens).doc? key = some block) :
    ∃ a : Placement, a.Places markers package tokens key block := by
  rw [doc?, docs_ofTokens, SortedMap.get?_mapValues, Option.map_eq_some_iff] at hdoc
  obtain ⟨raw, hraw, rfl⟩ := hdoc
  obtain ⟨before, s, after, hsplit, hdocuments, -⟩ :=
    ((DocCollector.holds_collect package _).docs key raw).mp hraw
  obtain ⟨text, front, name, remarks, rfl, hfirst, hkey, htrailing, hremarks, rfl⟩ := hdocuments
  obtain ⟨earlier, run, rfl, -, hrun, rfl⟩ := htrailing
  -- every token feeds one step, so the tokens can be cut where the steps are
  obtain ⟨front', back, rfl, hfront, hback⟩ := List.map_eq_append_iff.mp hsplit
  obtain ⟨earlier, run, rfl, rfl, rfl⟩ := List.map_eq_append_iff.mp hfront
  obtain ⟨t, later, rfl, ht, -⟩ := List.map_eq_cons_iff.mp hback
  obtain ⟨line, rfl⟩ := fed_eq_code ht
  have hremarks' : (run.map (fed markers package)).filterMap DocCollector.Step.remark? =
      run.filterMap (remark? markers package) := List.filterMap_map
  rw [hremarks'] at hremarks ⊢
  refine ⟨⟨earlier, run, text, line, later, front, name⟩, ?_, hfirst, hkey, hremarks, rfl, ?_⟩
  · simp
  · intro code hcode
    obtain ⟨t, ht, hcode⟩ := List.mem_filterMap.mp hcode
    have hblank := hrun (fed markers package t) (List.mem_map_of_mem ht)
    cases t with
    | code other line =>
        obtain rfl := Option.some.inj hcode
        simpa [fed, DocCollector.Step.isSolidCode] using hblank
    | comment => cases hcode

/-- **Where documentation comes from**: what is documented has a heading in the source, the first of
its stretch of code, and the documentation is what the comments right in front of that stretch say.
Behind each of them, a statement ends before the heading only if one does in the stretch itself. -/
theorem doc_placed (hread : ofSource markers package source = .ok p)
    (hdoc : p.doc? key = some block) :
    ∃ tokens a, Token.lexAll source = .ok tokens ∧
      Placement.Places a markers package tokens key block ∧
      ∀ before comment after, a.run = before ++ comment :: after →
        ((∃ code ∈ a.between after, EndsStatement code) ↔ EndsStatement a.front) := by
  obtain ⟨tokens, htokens, rfl⟩ := ofSource_eq_ok_iff.mp hread
  obtain ⟨a, hplaces⟩ := exists_places hdoc
  exact ⟨tokens, a, htokens, hplaces, fun _ _ _ hrun => hplaces.endsStatement_iff hrun⟩

theorem doc?_ofTokens {text : List Char}
    (h : (DocCollector.collect package (tokens.map (fed markers package))).docs.get? key =
      some text) :
    (ofTokens markers package tokens).doc? key = some (Sections.split text) := by
  rw [doc?, docs_ofTokens, SortedMap.get?_mapValues, h, Option.map_some]

/-- Comments of both kinds in front of a function, and one in front of the constant before it. -/
def placedTokens : List Token :=
  [.comment " The limit.".toList 1 false, .code "c CONSTANT NUMBER := 1;\n".toList 2,
    .comment " Returns the limit.".toList 3 false, .comment "* Never NULL. ".toList 4 true,
    .code "\nFUNCTION f RETURN NUMBER;\n".toList 4]

def placedSource : String :=
  "-- The limit.\nc CONSTANT NUMBER := 1;\n-- Returns the limit.\n/** Never NULL. */\n" ++
    "FUNCTION f RETURN NUMBER;\n"

theorem doc_placed_sample :
    ∃ p block, ofSource ["procgen"] "PKG" placedSource = .ok p ∧ p.doc? "pkg.f" = some block ∧
      block.common = "Returns the limit.\n Never NULL." ∧
      ∃ tokens a, Token.lexAll placedSource = .ok tokens ∧
        Placement.Places a ["procgen"] "PKG" tokens "pkg.f" block ∧
        ∀ before comment after, a.run = before ++ comment :: after →
          ((∃ code ∈ a.between after, EndsStatement code) ↔ EndsStatement a.front) := by
  have htokens : Token.lexAll placedSource = .ok placedTokens :=
    Token.lexAll_eq_ok_iff.mpr (by decide +kernel)
  have hread : ofSource ["procgen"] "PKG" placedSource =
      .ok (ofTokens ["procgen"] "PKG" placedTokens) :=
    ofSource_eq_ok_iff.mpr ⟨_, htokens, rfl⟩
  have hdoc : (ofTokens ["procgen"] "PKG" placedTokens).doc? "pkg.f" =
      some (Sections.split " Returns the limit.\n Never NULL. ".toList) :=
    doc?_ofTokens (by decide +kernel)
  exact ⟨_, _, hread, hdoc, by decide +kernel, doc_placed hread hdoc⟩

/-- A constant and a function behind it, -/
def constantCode : List Char := "c CONSTANT NUMBER := 1;\n".toList

def functionCode : List Char := "FUNCTION f RETURN NUMBER;\n".toList

/-- and one comment, which stands in front of the constant. -/
def constantTokens : List Token :=
  [.comment " The limit.".toList 1 false, .code (constantCode ++ functionCode) 2]

def constantSource : String := "-- The limit.\nc CONSTANT NUMBER := 1;\nFUNCTION f RETURN NUMBER;\n"

/-- The comment documents the function, though the constant ends in between. -/
theorem documented_behind_statement :
    ∃ p block a comment, ofSource ["procgen"] "PKG" constantSource = .ok p ∧
      p.doc? "pkg.f" = some block ∧ block.common = "The limit." ∧
      Token.lexAll constantSource = .ok constantTokens ∧
      Placement.Places a ["procgen"] "PKG" constantTokens "pkg.f" block ∧
      a.run = [comment] ∧ remark? ["procgen"] "PKG" comment = some " The limit.".toList ∧
      ∃ code ∈ a.between [], EndsStatement code := by
  have htokens : Token.lexAll constantSource = .ok constantTokens :=
    Token.lexAll_eq_ok_iff.mpr (by decide +kernel)
  have hread : ofSource ["procgen"] "PKG" constantSource =
      .ok (ofTokens ["procgen"] "PKG" constantTokens) :=
    ofSource_eq_ok_iff.mpr ⟨_, htokens, rfl⟩
  have hcut : Declaration.cut? functionCode = some (['f'], " RETURN NUMBER;\n".toList) := by
    decide +kernel
  have hplaces : Placement.Places
      ⟨[], [.comment " The limit.".toList 1 false], constantCode ++ functionCode, 2, [],
        constantCode, ['f']⟩
      ["procgen"] "PKG" constantTokens "pkg.f" (Sections.split " The limit.".toList) :=
    { tokens_eq := rfl
      first := Declaration.First.of_cut? hcut (by decide +kernel) (by decide +kernel)
      key_eq := by decide +kernel
      remarks := by decide +kernel
      block_eq := rfl
      blank := by decide +kernel }
  have hends : EndsStatement constantCode :=
    ⟨"c CONSTANT NUMBER := 1".toList, ['\n'], by decide +kernel, by decide +kernel⟩
  exact ⟨_, _, _, _, hread, doc?_ofTokens (by decide +kernel), by decide +kernel, htokens, hplaces,
    rfl, by decide +kernel, constantCode, by simp [Placement.between], hends⟩

end PackageDocs

end RoutineBridge
