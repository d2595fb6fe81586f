import RoutineBridge.Proofs.Tokens
import RoutineBridge.Proofs.Trimming
import RoutineBridge.Source.Package

/-!
# Directives written into a source

A directive has a written form: its verb, its name, and a second name or a size where the verb asks
for one. Reading takes the form apart at the first blank, arrow or equals sign, and none of them can
stand in what comes before it, so every part comes back (`Directive.Asked.parse_clause`). Behind a
marker the form makes a comment line, and such lines, one below the other, are a source that holds
directives only. Main statement: what is read from it are the directives that were written, each
with its line (`PackageDocs.ofSource_commentLines`).
-/

namespace RoutineBridge

/-! ## Numbers and names -/

theorem Text.natural?_repr {bits n : Nat} (h : n < Nat.pow 2 bits) :
    Text.natural? bits n.repr.toList = some n := by
  have hdigits : ∀ c ∈ n.repr.toList, c.isDigit := by
    intro c hc
    rw [Nat.toList_repr] at hc
    exact Nat.isDigit_of_mem_toDigits (by decide) (by decide) hc
  have hvalue : Text.digits? n.repr.toList = some n := by
    rw [Text.digits?, Nat.toList_repr, if_neg]
    · exact congrArg some (Nat.ofDigitChars_toDigits (by decide) (by decide))
    · rw [Nat.toList_repr] at hdigits
      simpa [Nat.toDigits_ne_nil] using hdigits
  have hunsigned : Text.dropPlus n.repr.toList = n.repr.toList := by
    rw [Text.dropPlus.eq_def]
    split
    · rename_i cs hplus
      have hsign : '+'.isDigit := hdigits '+' (hplus ▸ List.mem_cons_self)
      exact absurd hsign (by decide)
    · rfl
  rw [Text.natural?, hunsigned, hvalue]
  simpa using h

namespace Directive

/-- A name that a directive can carry. -/
def IsName (name : String) : Prop := name.toList ≠ [] ∧ ∀ c ∈ name.toList, isNameChar c

instance (name : String) : Decidable (IsName name) :=
  decidable_of_iff (name.toList ≠ [] ∧ name.toList.all isNameChar)
    (and_congr_right' List.all_eq_true)

/-- The characters of names are visible, stand on one line and are no part of the marks between
names. -/
theorem classes_of_isNameChar {c : Char} (h : isNameChar c) :
    ¬ Text.isBlank c ∧ c ≠ '=' ∧ c ≠ '\n' := by
  simp only [isNameChar, Bool.or_eq_true, beq_iff_eq] at h
  rcases h with ((halnum | rfl) | rfl) | rfl
  · exact Text.of_isAlphanum
      (p := fun c => c.isAlphanum → ¬ Text.isBlank c ∧ c ≠ '=' ∧ c ≠ '\n') (by decide) halnum halnum
  all_goals decide

namespace IsName

variable {name : String}

theorem solid (h : IsName name) : Text.Solid name.toList := by
  refine Text.solid_of_all h.1 (List.all_eq_true.mpr fun c hc => ?_)
  simpa using (classes_of_isNameChar (h.2 c hc)).1

theorem equals_notMem (h : IsName name) : '=' ∉ name.toList :=
  fun hmem => (classes_of_isNameChar (h.2 '=' hmem)).2.1 rfl

theorem newline_notMem (h : IsName name) : '\n' ∉ name.toList :=
  fun hmem => (classes_of_isNameChar (h.2 '\n' hmem)).2.2 rfl

/-- A name is read from between blanks. -/
theorem read (h : IsName name) {before after : List Char} (hbefore : Text.isBlankText before)
    (hafter : Text.isBlankText after) : name? (before ++ (name.toList ++ after)) = some name := by
  have hchars : name.toList.all isNameChar := List.all_eq_true.mpr h.2
  have hnonempty : name.toList.isEmpty = false := by simpa using h.1
  rw [name?, h.solid.trim_append hbefore hafter]
  simp only [hnonempty, hchars, Bool.not_false, Bool.and_self, if_true, String.ofList_toList]

end IsName

/-- The digits of a number could be a name. -/
theorem isName_repr (n : Nat) : IsName n.repr := by
  rw [IsName, Nat.toList_repr]
  refine ⟨Nat.toDigits_ne_nil, fun c hc => ?_⟩
  have hdigit : c.isDigit := Nat.isDigit_of_mem_toDigits (by decide) (by decide) hc
  simp [isNameChar, Char.isAlphanum, hdigit]

/-! ## The written form -/

/-- The directives of a package that are written with all their verb asks for and nothing else. -/
structure Writable (package : String) (d : Directive) : Prop where
  package_eq : d.package = package
  isName : IsName d.name
  other_iff : d.other.isSome ↔ d.verb = .rename ∨ d.verb = .replace ∨ d.verb = .replaceJson
  other_isName : ∀ other ∈ d.other, IsName other
  size_iff : d.size.isSome ↔ d.verb = .maxTableSize
  size_mem : ∀ size ∈ d.size, 1 ≤ size ∧ size < Nat.pow 2 32

instance (package : String) (d : Directive) : Decidable (Writable package d) :=
  decidable_of_iff
    (d.package = package ∧ IsName d.name ∧
      (d.other.isSome ↔ d.verb = .rename ∨ d.verb = .replace ∨ d.verb = .replaceJson) ∧
      (∀ other ∈ d.other, IsName other) ∧ (d.size.isSome ↔ d.verb = .maxTableSize) ∧
      ∀ size ∈ d.size, 1 ≤ size ∧ size < Nat.pow 2 32)
    ⟨fun ⟨h₁, h₂, h₃, h₄, h₅, h₆⟩ => ⟨h₁, h₂, h₃, h₄, h₅, h₆⟩,
      fun ⟨h₁, h₂, h₃, h₄, h₅, h₆⟩ => ⟨h₁, h₂, h₃, h₄, h₅, h₆⟩⟩

/-- What is written behind the verb. -/
def operands (d : Directive) : List Char :=
  match d.other, d.size with
  | some other, _ => d.name.toList ++ " => ".toList ++ other.toList
  | none, some size => d.name.toList ++ '=' :: size.repr.toList
  | none, none => d.name.toList

theorem toList_clause (d : Directive) :
    d.clause.toList = d.verb.word.toList ++ ' ' :: d.operands := by
  rw [clause.eq_def, operands.eq_def]
  cases d.other with
  | some other => simp
  | none => cases d.size <;> simp [toString]

/-- A verb with what it asks for. -/
inductive Asked (package : String) : Directive → Prop
  | name {verb : Verb} {name : String} {line : Option Nat} (hverb : verb = .hide ∨ verb = .handle)
      (hname : IsName name) : Asked package ⟨package, verb, name, none, none, line⟩
  | pair {verb : Verb} {name other : String} {line : Option Nat}
      (hverb : verb = .rename ∨ verb = .replace ∨ verb = .replaceJson) (hname : IsName name)
      (hother : IsName other) : Asked package ⟨package, verb, name, some other, none, line⟩
  | size {name : String} {size : Nat} {line : Option Nat} (hname : IsName name)
      (hpositive : size ≠ 0) (hbound : size < Nat.pow 2 32) :
      Asked package ⟨package, .maxTableSize, name, none, some size, line⟩

theorem Writable.asked {package : String} {d : Directive} (h : d.Writable package) :
    Asked package d := by
  obtain ⟨hpackage, hname, hother, hotherName, hsize, hbounds⟩ := h
  obtain ⟨_, verb, name, other, size, line⟩ := d
  obtain rfl : _ = package := hpackage
  cases other with
  | some other =>
      have hpair : verb = .rename ∨ verb = .replace ∨ verb = .replaceJson := hother.mp rfl
      cases size with
      | none => exact .pair hpair hname (hotherName other rfl)
      | some size =>
          obtain rfl : verb = .maxTableSize := hsize.mp rfl
          simp at hpair
  | none =>
      cases size with
      | some size =>
          obtain rfl : verb = .maxTableSize := hsize.mp rfl
          obtain ⟨hlower, hupper⟩ := hbounds size rfl
          exact .size hname (Nat.ne_of_gt hlower) hupper
      | none => cases verb <;> simp_all [Asked.name]

/-! ## Reading it back -/

theorem visible_word (verb : Verb) : verb.word.toList.all (!Text.isBlank ·) := by
  cases verb <;> decide

theorem solid_word (verb : Verb) : Text.Solid verb.word.toList :=
  Text.solid_of_all (by cases verb <;> decide) (visible_word verb)

theorem ofWord?_word (verb : Verb) : Verb.ofWord? verb.word = some verb := by
  cases verb <;> decide

section Reading

variable {package : String} {d : Directive}

theorem Asked.solid_operands (h : Asked package d) : Text.Solid d.operands := by
  cases h with
  | name hverb hname => exact hname.solid
  | pair hverb hname hother =>
      show Text.Solid (_ ++ " => ".toList ++ _)
      rw [List.append_assoc]
      exact hname.solid.append _ hother.solid
  | size hname hpositive hbound => exact hname.solid.append ['='] (isName_repr _).solid

/-- Every part comes back from where the mark behind it is found first. -/
theorem Asked.readArguments (h : Asked package d) :
    Directive.readArguments package d.verb d.operands = .ok { d with line := none } := by
  have hblank : Text.isBlankText [' '] := by decide
  have hnil : Text.isBlankText [] := rfl
  cases h with
  | @name verb name _ hverb hname =>
      have hread : name? name.toList = some name := by simpa using hname.read hnil hnil
      rcases hverb with rfl | rfl <;> simp [Directive.readArguments, operands, hread]
  | @pair verb name other _ hverb hname hother =>
      have hfound : Text.splitAt? ['=', '>'] (name.toList ++ " => ".toList ++ other.toList) =
          some (name.toList ++ [' '], ' ' :: other.toList) := by
        -- the arrow begins with the sign that no name holds
        have hbefore : '=' ∉ name.toList ++ [' '] := by simp [hname.equals_notMem]
        have hsplit : Text.splitAt? ['=', '>'] (name.toList ++ [' '] ++ (['=', '>'] ++ _)) = _ :=
          Text.splitAt?_append hbefore (' ' :: other.toList)
        simpa using hsplit
      have hfirst : name? (name.toList ++ [' ']) = some name := by
        simpa using hname.read hnil hblank
      have hsecond : name? (' ' :: other.toList) = some other := by
        simpa using hother.read hblank hnil
      rcases hverb with rfl | rfl | rfl <;>
        simp only [Directive.readArguments, operands, hfound, hfirst, hsecond]
  | @size name size _ hname hpositive hbound =>
      have hfound : Text.splitAt? ['='] (name.toList ++ '=' :: size.repr.toList) =
          some (name.toList, size.repr.toList) :=
        Text.splitAt?_append hname.equals_notMem size.repr.toList
      have hread : name? name.toList = some name := by simpa using hname.read hnil hnil
      have hvalue : Text.natural? 32 (Text.trim size.repr.toList) = some size := by
        rw [(isName_repr size).solid.trim_eq, Text.natural?_repr hbound]
      simp only [Directive.readArguments, operands, hfound, hread, hvalue]

theorem Asked.solid_clause (h : Asked package d) : Text.Solid d.clause.toList := by
  rw [toList_clause]
  exact (solid_word d.verb).append [' '] h.solid_operands

theorem Asked.parse_clause (h : Asked package d) (line : Nat) :
    parse package d.clause.toList line = .ok { d with line := some line } := by
  have hverb : Text.splitWhere? Text.isBlank d.clause.toList =
      some (d.verb.word.toList, d.operands) := by
    have hvisible : ∀ c ∈ d.verb.word.toList, ¬ Text.isBlank c := by
      simpa using visible_word d.verb
    rw [toList_clause]
    exact Text.splitWhere?_append hvisible (by decide) d.operands
  have hnonempty : d.verb.word.toList.isEmpty = false := by cases d.verb <;> decide
  have hbody : readBody package d.clause.toList = .ok { d with line := none } := by
    simp only [readBody, h.solid_clause.trim_eq, hverb, Option.getD_some, hnonempty,
      String.ofList_toList, ofWord?_word, h.solid_operands.trim_eq, h.readArguments]
    rfl
  rw [parse, hbody]

theorem Asked.newline_notMem (h : Asked package d) : '\n' ∉ d.clause.toList := by
  have hword : '\n' ∉ d.verb.word.toList := by cases d.verb <;> decide
  have hoperands : '\n' ∉ d.operands := by
    cases h with
    | name hverb hname => exact hname.newline_notMem
    | pair hverb hname hother =>
        simp [operands, hname.newline_notMem, hother.newline_notMem]
    | @size name size _ hname hpositive hbound =>
        show '\n' ∉ name.toList ++ '=' :: size.repr.toList
        rw [List.mem_append, List.mem_cons, not_or, not_or]
        exact ⟨hname.newline_notMem, by decide, (isName_repr size).newline_notMem⟩
  rw [toList_clause]
  simp [hword, hoperands]

end Reading

end Directive

/-! ## Comment lines -/

namespace Comment

/-- A letter with letters, digits, underscores and dashes behind it. -/
def isMarkerWord (cs : List Char) : Bool := cs.head?.any Char.isAlpha && cs.all isMarkerChar

theorem markerAndBody?_append {marker body : List Char} (hmarker : isMarkerWord marker)
    (hbody : Text.Solid body) :
    markerAndBody? (' ' :: (marker ++ ':' :: body)) = some (marker, body) := by
  rw [isMarkerWord, Bool.and_eq_true, List.all_eq_true] at hmarker
  obtain ⟨hstart, hchars⟩ := hmarker
  cases marker with
  | nil => cases hstart
  | cons c rest =>
      have halpha : c.isAlpha := hstart
      have hvisible : ¬ Text.isBlank c ∧ c ≠ '*' := by
        refine Text.of_isAlphanum (p := fun c => c.isAlpha → ¬ Text.isBlank c ∧ c ≠ '*')
          (by decide) ?_ halpha
        exact Bool.or_eq_true_iff.mpr (.inl halpha)
      have htrim : Text.trimStart (' ' :: c :: (rest ++ ':' :: body)) =
          c :: (rest ++ ':' :: body) := by
        have hblank : Text.isBlankText [' '] := by decide
        rw [← List.singleton_append, Text.trimStart_append hblank, Text.trimStart_cons hvisible.1]
      have htake : (c :: (rest ++ ':' :: body)).takeWhile isMarkerChar = c :: rest := by
        rw [← List.cons_append, List.takeWhile_append_of_pos hchars]
        simp [isMarkerChar]
      have hdrop : (c :: (rest ++ ':' :: body)).dropWhile isMarkerChar = ':' :: body := by
        rw [← List.cons_append, List.dropWhile_append_of_pos hchars]
        simp [isMarkerChar]
      have htail : Text.trimStart body = body := by
        have hnil : Text.isBlankText [] := rfl
        simpa using hbody.trimStart_append hnil []
      show markerAndBody? (' ' :: c :: (rest ++ ':' :: body)) = some (c :: rest, body)
      simp [markerAndBody?, htrim, hvisible.2, htake, hdrop, halpha, htail]

section Lines

variable {markers : List String} {package marker : String} {d : Directive}

/-- The text of the comment that holds a directive. -/
def directiveText (marker : String) (d : Directive) : List Char :=
  ' ' :: (marker.toList ++ ':' :: d.clause.toList)

theorem newline_notMem_directiveText (hmarker : isMarkerWord marker.toList)
    (hd : d.Asked package) : '\n' ∉ directiveText marker d := by
  rw [isMarkerWord, Bool.and_eq_true, List.all_eq_true] at hmarker
  have hword : '\n' ∉ marker.toList := fun hmem => absurd (hmarker.2 '\n' hmem) (by decide)
  simp [directiveText, hword, hd.newline_notMem]

theorem scan_directiveText (hmarker : isMarkerWord marker.toList)
    (haccepted : Options.isMarker markers marker) (hd : d.Asked package) (line : Nat) :
    scan markers package (directiveText marker d) line =
      ⟨[], [{ d with line := some line }], []⟩ := by
  have hlines : Text.lines (directiveText marker d) = [directiveText marker d] :=
    Text.lines_eq_singleton (newline_notMem_directiveText hmarker hd) (List.cons_ne_nil _ _)
  have hline : Line.classify markers (directiveText marker d) = .directive d.clause.toList := by
    rw [Line.classify, directiveText, markerAndBody?_append hmarker hd.solid_clause]
    simp [haccepted]
  rw [scan, hlines]
  simp only [scanLines, hline, hd.parse_clause]

end Lines

end Comment

/-! ## Whole sources -/

namespace PackageDocs

/-- A directive on a comment line of its own. -/
def commentLine (marker : String) (d : Directive) : String := "-- " ++ marker ++ ":" ++ d.clause

/-- The directives as they are read from lines that follow each other. -/
def onLines (line : Nat) (ds : List Directive) : List Directive :=
  (ds.zipIdx line).map fun e => { e.1 with line := some e.2 }

/-- The comments that hold the directives. -/
def commentTokens (marker : String) (line : Nat) (ds : List Directive) : List Token :=
  (ds.zipIdx line).map fun e => .comment (Comment.directiveText marker e.1) e.2 false

section Sources

variable {markers : List String} {package marker : String} {ds : List Directive}

theorem toList_commentLine (marker : String) (d : Directive) :
    (commentLine marker d).toList = '-' :: '-' :: Comment.directiveText marker d := by
  simp [commentLine, Comment.directiveText]

theorem splits_commentLines (hmarker : Comment.isMarkerWord marker.toList)
    (hds : ∀ d ∈ ds, d.Asked package) (line : Nat) :
    Token.Splits line (ds.flatMap fun d => (commentLine marker d).toList ++ ['\n'])
      (commentTokens marker line ds) none := by
  induction ds generalizing line with
  | nil => exact .done
  | cons d ds ih =>
      obtain ⟨hd, hrest⟩ := List.forall_mem_cons.mp hds
      have hsingle := Comment.newline_notMem_directiveText hmarker hd
      have hlater := Token.Splits.lineComment hsingle (ih hrest (line + 1))
      simpa [toList_commentLine, commentTokens] using hlater

/-- The last comment may end with the source. -/
theorem splits_intercalate (hmarker : Comment.isMarkerWord marker.toList)
    (hds : ∀ d ∈ ds, d.Asked package) (line : Nat) :
    Token.Splits line (['\n'].intercalate (ds.map fun d => (commentLine marker d).toList))
      (commentTokens marker line ds) none := by
  induction ds generalizing line with
  | nil => exact .done
  | cons d ds ih =>
      obtain ⟨hd, hrest⟩ := List.forall_mem_cons.mp hds
      have hsingle := Comment.newline_notMem_directiveText hmarker hd
      cases ds with
      | nil => simpa [toList_commentLine, commentTokens] using Token.Splits.lastLine hsingle
      | cons e ds =>
          have hlater := Token.Splits.lineComment hsingle (ih hrest (line + 1))
          simpa [toList_commentLine, commentTokens] using hlater

theorem step_commentToken (hmarker : Comment.isMarkerWord marker.toList)
    (haccepted : Options.isMarker markers marker) {d : Directive} (hd : d.Asked package)
    (line : Nat) (p : Progress) :
    step markers package p (.comment (Comment.directiveText marker d) line false) =
      { p with directives := p.directives ++ [{ d with line := some line }] } := by
  have hscan := Comment.scan_directiveText hmarker haccepted hd line
  have hblank : Text.isBlankText [] := rfl
  simp [step, commentText, hscan, Comment.Scanned.text, Text.join, DocCollector.comment, hblank]

theorem foldl_commentTokens (hmarker : Comment.isMarkerWord marker.toList)
    (haccepted : Options.isMarker markers marker) (hds : ∀ d ∈ ds, d.Asked package) (line : Nat)
    (p : Progress) :
    (commentTokens marker line ds).foldl (step markers package) p =
      { p with directives := p.directives ++ onLines line ds } := by
  induction ds generalizing line p with
  | nil => simp [commentTokens, onLines]
  | cons d ds ih =>
      obtain ⟨hd, hrest⟩ := List.forall_mem_cons.mp hds
      have hstep := step_commentToken hmarker haccepted hd line p
      have hlater := ih hrest (line + 1)
      simp only [commentTokens, onLines] at hlater ⊢
      simp [hstep, hlater]

theorem ofSource_of_splits (hmarker : Comment.isMarkerWord marker.toList)
    (haccepted : Options.isMarker markers marker) (hds : ∀ d ∈ ds, d.Asked package)
    {source : String} (hsource : Token.Splits 1 source.toList (commentTokens marker 1 ds) none) :
    ofSource markers package source = .ok ⟨package, .empty, onLines 1 ds, []⟩ := by
  have htokens : Token.lexAll source = .ok (commentTokens marker 1 ds) :=
    Token.lexAll_eq_ok_iff.mpr (Token.splits_iff.mp hsource)
  refine ofSource_eq_ok_iff.mpr ⟨_, htokens, ?_⟩
  simp only [ofTokens, foldl_commentTokens hmarker haccepted hds]
  rfl

/-- **Directives survive a round trip.** The written form of a directive is what messages show
behind its package. Put behind a marker that is accepted, one comment line for each directive, the
forms are read back as the same directives in the same order, each with its line, and nothing else
is found, whether or not a line feed ends the last line. -/
theorem ofSource_commentLines (hmarker : Comment.isMarkerWord marker.toList)
    (haccepted : Options.isMarker markers marker) (hds : ∀ d ∈ ds, d.Writable package) :
    (∀ d ∈ ds, d.display = package ++ "." ++ d.clause) ∧
      ∀ source ∈ [String.join (ds.map fun d => commentLine marker d ++ "\n"),
          "\n".intercalate (ds.map (commentLine marker))],
        ofSource markers package source = .ok ⟨package, .empty, onLines 1 ds, []⟩ := by
  have hasked : ∀ d ∈ ds, d.Asked package := fun d hd => (hds d hd).asked
  refine ⟨fun d hd => by rw [Directive.display, (hds d hd).package_eq], ?_⟩
  intro source hsource
  apply ofSource_of_splits hmarker haccepted hasked
  rcases List.mem_pair.mp hsource with rfl | rfl
  · have hlines := splits_commentLines hmarker hasked 1
    simpa [String.toList_join, List.flatMap_map] using hlines
  · have hlines := splits_intercalate hmarker hasked 1
    simpa [String.toList_intercalate, Function.comp_def] using hlines

/-- One directive of each kind, written for a package, with a number as large as they come. -/
def sampleDirectives : List Directive :=
  [⟨"PKG", .hide, "init", none, none, none⟩,
    ⟨"PKG", .rename, "get_usr", some "get_user", none, none⟩,
    ⟨"PKG", .replace, "slow$1", some "fast", none, some 7⟩,
    ⟨"PKG", .replaceJson, "slow", some "slow_json#", none, none⟩,
    ⟨"PKG", .handle, "audit", none, none, none⟩,
    ⟨"PKG", .maxTableSize, "list_users", none, some 4294967295, none⟩]

/-- What they are in a source. -/
def sampleLines : String :=
  "-- X-gen_2:private init\n-- X-gen_2:rename get_usr => get_user\n" ++
    "-- X-gen_2:replace slow$1 => fast\n-- X-gen_2:replace_json slow => slow_json#\n" ++
    "-- X-gen_2:handle audit\n-- X-gen_2:max-table-size list_users=4294967295\n"

theorem ofSource_commentLines_sample :
    (Comment.isMarkerWord "X-gen_2".toList ∧ Options.isMarker ["procgen", "x-gen_2"] "X-gen_2" ∧
        ∀ d ∈ sampleDirectives, d.Writable "PKG") ∧
      ofSource ["procgen", "x-gen_2"] "PKG" sampleLines =
        .ok ⟨"PKG", .empty, onLines 1 sampleDirectives, []⟩ := by
  have hmarker : Comment.isMarkerWord "X-gen_2".toList := by decide
  have haccepted : Options.isMarker ["procgen", "x-gen_2"] "X-gen_2" := by decide
  have hwritable : ∀ d ∈ sampleDirectives, d.Writable "PKG" := by decide
  have hlines : sampleLines =
      String.join (sampleDirectives.map fun d => commentLine "X-gen_2" d ++ "\n") := by
    decide +kernel
  refine ⟨⟨hmarker, haccepted, hwritable⟩, ?_⟩
  rw [hlines]
  exact (ofSource_commentLines hmarker haccepted hwritable).2 _ List.mem_cons_self

end Sources

end PackageDocs

end RoutineBridge
