import RoutineBridge.Proofs.Attachment
import RoutineBridge.Proofs.DirectiveLines

/-!
# Where directives are reported

Whether a line of a comment is a directive can be seen from its text (`Comment.Directs`), and blanks
at its end make no difference (`Comment.directs_append_iff`). So it does not matter that scanning
drops carriage returns and a last line that is empty, nor that documentation is trimmed: a line that
was no directive in its comment is none in the documentation. The lines of comments are numbered
from the line of their token, and every one of them is part of the source line with that number
(`Token.Splits.onLine`). Main statement: what is reported are the directive lines of comments, each
once, in order and at its line, and none of them is left in the documentation
(`PackageDocs.ofSource_reports`).
-/

namespace RoutineBridge

/-! ## Numbered lines -/

namespace Text

/-- The lines of a text with their numbers, where `line` is the number of the first one. -/
def numbered (line : Nat) (cs : List Char) : List (List Char × Nat) := (pieces cs).zipIdx line

/-- The text `l` is a part of the line of `cs` that has the number `n`. -/
def OnLine (line : Nat) (cs : List Char) (n : Nat) (l : List Char) : Prop :=
  ∃ whole, (whole, n) ∈ numbered line cs ∧ l <:+: whole

theorem length_pieces (cs : List Char) : (pieces cs).length = Token.lineCount cs + 1 := by
  rw [Token.lineCount]
  fun_induction pieces cs with
  | case1 => rfl
  | case2 cs ih => simp [ih]
  | case3 c cs hc hnil => exact absurd hnil (pieces_ne_nil cs)
  | case4 c cs hc p ps hcons ih =>
      rw [List.count_cons_of_ne hc, ← ih, hcons]
      rfl

section Append

variable {cs after first last l : List Char} {front later : List (List Char)} {line n : Nat}

/-- The last line of one text and the first line of the next become one. -/
theorem pieces_append (hcs : pieces cs = front ++ [last]) (hafter : pieces after = first :: later) :
    pieces (cs ++ after) = front ++ (last ++ first) :: later := by
  fun_induction pieces cs generalizing front last with
  | case1 =>
      obtain ⟨rfl, rfl⟩ : front = [] ∧ last = [] := by
        simpa [List.singleton_eq_append_iff] using hcs
      exact hafter
  | case2 cs ih =>
      cases front with
      | nil => exact absurd (List.cons.inj hcs).2 (pieces_ne_nil cs)
      | cons p front =>
          obtain ⟨rfl, hlater⟩ := List.cons.inj hcs
          have hlater : pieces cs = front ++ [last] := hlater
          rw [List.cons_append, pieces, if_pos rfl, ih hlater]
          rfl
  | case3 c cs hc hnil => exact absurd hnil (pieces_ne_nil cs)
  | case4 c cs hc p ps hcons ih =>
      rw [List.cons_append, pieces, if_neg hc]
      cases front with
      | nil =>
          obtain ⟨rfl, rfl⟩ := List.cons.inj hcs
          have hsingle : pieces cs = [] ++ [p] := hcons
          rw [ih hsingle]
          rfl
      | cons q front =>
          obtain ⟨rfl, rfl⟩ := List.cons.inj hcs
          have hmany : pieces cs = p :: front ++ [last] := hcons
          rw [ih hmany]
          rfl

theorem pieces_eq_concat (cs : List Char) :
    ∃ front last, pieces cs = front ++ [last] ∧ Token.lineCount cs = front.length := by
  obtain ⟨front, last, hcs⟩ := (List.eq_nil_or_concat' (pieces cs)).resolve_left (pieces_ne_nil cs)
  have hlength := length_pieces cs
  rw [hcs, List.length_append, List.length_singleton] at hlength
  exact ⟨front, last, hcs, by omega⟩

theorem pieces_eq_cons (cs : List Char) : ∃ first later, pieces cs = first :: later :=
  List.exists_cons_of_ne_nil (pieces_ne_nil cs)

/-- What comes behind a text can only go on with its last line. -/
theorem exists_numbered_append (h : (l, n) ∈ numbered line cs) (after : List Char) :
    ∃ more, more <+: after ∧ (l ++ more, n) ∈ numbered line (cs ++ after) := by
  obtain ⟨front, last, hcs, -⟩ := pieces_eq_concat cs
  obtain ⟨first, later, hafter⟩ := pieces_eq_cons after
  rw [numbered, hcs, List.zipIdx_append, List.mem_append] at h
  rw [numbered, pieces_append hcs hafter, List.zipIdx_append, List.zipIdx_cons]
  rcases h with h | h
  · exact ⟨[], List.nil_prefix, by simp [h]⟩
  · obtain ⟨rfl, rfl⟩ : l = last ∧ n = line + front.length := by simpa using h
    refine ⟨first, ?_, by simp⟩
    rw [← join_pieces after, hafter]
    cases later with
    | nil => exact List.prefix_rfl
    | cons p ps => exact ⟨['\n'] ++ join ['\n'] (p :: ps), (join_cons (List.cons_ne_nil p ps)).symm⟩

/-- What comes in front of a text moves its lines down, and can only go on into its first line. -/
theorem exists_numbered_of_append (cs : List Char)
    (h : (l, n) ∈ numbered (line + Token.lineCount cs) after) :
    ∃ more, (more ++ l, n) ∈ numbered line (cs ++ after) := by
  obtain ⟨front, last, hcs, hcount⟩ := pieces_eq_concat cs
  obtain ⟨first, later, hafter⟩ := pieces_eq_cons after
  rw [numbered, hafter, hcount, List.zipIdx_cons, List.mem_cons] at h
  rw [numbered, pieces_append hcs hafter, List.zipIdx_append, List.zipIdx_cons]
  rcases h with heq | h
  · obtain ⟨rfl, rfl⟩ := Prod.mk.inj heq
    exact ⟨last, by simp⟩
  · exact ⟨[], by simp [h]⟩

theorem mem_pieces_iff (line : Nat) : l ∈ pieces cs ↔ ∃ n, (l, n) ∈ numbered line cs := by
  rw [← List.zipIdx_map_fst line (pieces cs), List.mem_map]
  simp [numbered]

theorem exists_mem_pieces_append (h : l ∈ pieces cs) (after : List Char) :
    ∃ more, more <+: after ∧ l ++ more ∈ pieces (cs ++ after) := by
  obtain ⟨n, hn⟩ := (mem_pieces_iff 1).mp h
  obtain ⟨more, hmore, hmem⟩ := exists_numbered_append hn after
  exact ⟨more, hmore, (mem_pieces_iff 1).mpr ⟨n, hmem⟩⟩

theorem OnLine.append (h : OnLine line cs n l) (after : List Char) :
    OnLine line (cs ++ after) n l := by
  obtain ⟨whole, hwhole, hl⟩ := h
  obtain ⟨more, -, hmore⟩ := exists_numbered_append hwhole after
  exact ⟨whole ++ more, hmore, hl.trans (List.prefix_append whole more).isInfix⟩

theorem OnLine.of_append (cs : List Char) (h : OnLine (line + Token.lineCount cs) after n l) :
    OnLine line (cs ++ after) n l := by
  obtain ⟨whole, hwhole, hl⟩ := h
  obtain ⟨more, hmore⟩ := exists_numbered_of_append cs hwhole
  exact ⟨more ++ whole, hmore, hl.trans (List.suffix_append more whole).isInfix⟩

end Append

/-! ## Blanks at the end -/

theorem trim_append_of_isBlankText {after : List Char} (h : isBlankText after) (cs : List Char) :
    trim (cs ++ after) = trim cs := by
  by_cases hblank : isBlankText cs
  · have hboth : isBlankText (cs ++ after) := by simp_all [isBlankText]
    rw [trim, trim, trimStart, trimStart, List.dropWhile_eq_nil_iff.mpr (List.all_eq_true.mp hboth),
      List.dropWhile_eq_nil_iff.mpr (List.all_eq_true.mp hblank)]
  · have hstart : trimStart (cs ++ after) = trimStart cs ++ after := by
      rw [trimStart, List.dropWhile_append, if_neg (by simpa [isBlankText] using hblank)]
      rfl
    rw [trim, hstart, trimEnd_append h, trim]

theorem trim_trimStart (cs : List Char) : trim (trimStart cs) = trim cs := by
  rw [trim, trimStart, trimStart, List.dropWhile_idempotent]
  rfl

theorem trim_infix (cs : List Char) : trim cs <:+: cs :=
  (List.rdropWhile_prefix isBlank (trimStart cs)).isInfix.trans
    (List.dropWhile_suffix isBlank).isInfix

/-- The blanks at the end of a text stand behind everything visible. -/
theorem exists_middle {cs after front rest : List Char} {c : Char} (hafter : isBlankText after)
    (hc : ¬ isBlank c) (h : cs ++ after = front ++ c :: rest) :
    ∃ middle, cs = front ++ c :: middle ∧ rest = middle ++ after := by
  have hnotMem : c ∉ after := fun hmem => hc (List.all_eq_true.mp hafter c hmem)
  rcases List.append_eq_append_iff.mp h with ⟨back, -, rfl⟩ | ⟨tail, rfl, htail⟩
  · exact absurd (List.mem_append_right back List.mem_cons_self) hnotMem
  · cases tail with
    | nil =>
        obtain rfl : c :: rest = after := htail
        exact absurd List.mem_cons_self hnotMem
    | cons d middle =>
        obtain ⟨rfl, rfl⟩ := List.cons.inj htail
        exact ⟨middle, rfl, rfl⟩

/-- The carriage return that a line may lose is blank. -/
theorem exists_dropReturn_append (line : List Char) :
    ∃ after, isBlankText after ∧ line = dropReturn line ++ after := by
  rw [dropReturn]
  split
  · rename_i hlast
    refine ⟨['\r'], by decide, ?_⟩
    exact (List.dropLast_append_getLast? _ hlast).symm
  · exact ⟨[], rfl, (List.append_nil line).symm⟩

end Text

namespace Comment

/-! ## Directive lines -/

/-- What may stand in front of a marker: blanks, and a star among them. -/
def Margin (cs : List Char) : Prop :=
  Text.isBlankText cs ∨ ∃ before after, cs = before ++ '*' :: after ∧
    Text.isBlankText before ∧ Text.isBlankText after

/-- The line consists of a margin, a marker that is accepted, a colon, and the body with blanks
around it. -/
def Directs (markers : List String) (line body : List Char) : Prop :=
  ∃ margin marker rest, line = margin ++ (marker ++ ':' :: rest) ∧ Margin margin ∧
    isMarkerWord marker ∧ Options.isMarker markers (String.ofList marker) ∧ body = Text.trim rest

/-- The line without its margin. -/
def dropMargin (line : List Char) : List Char :=
  match Text.trimStart line with
  | '*' :: rest => Text.trimStart rest
  | _ => Text.trimStart line

/-- The marker at the front, and what follows its colon. -/
def cutMarker? (cs : List Char) : Option (List Char × List Char) :=
  match cs.takeWhile isMarkerChar, cs.dropWhile isMarkerChar with
  | c :: _, ':' :: body =>
    if c.isAlpha then some (cs.takeWhile isMarkerChar, Text.trimStart body) else none
  | _, _ => none

theorem markerAndBody?_eq (line : List Char) :
    markerAndBody? line = cutMarker? (dropMargin line) := rfl

theorem exists_margin (line : List Char) : ∃ margin, Margin margin ∧
    line = margin ++ dropMargin line := by
  have hblanks : ∀ cs : List Char, Text.isBlankText (cs.takeWhile Text.isBlank) := fun cs =>
    List.all_eq_true.mpr fun c hc => List.mem_takeWhile_imp hc
  have hline : line = line.takeWhile Text.isBlank ++ Text.trimStart line :=
    List.takeWhile_append_dropWhile.symm
  rw [dropMargin]
  split
  · rename_i rest hstar
    have hrest : rest = rest.takeWhile Text.isBlank ++ Text.trimStart rest :=
      List.takeWhile_append_dropWhile.symm
    rw [hstar, hrest] at hline
    refine ⟨_, .inr ⟨_, _, rfl, hblanks line, hblanks rest⟩, ?_⟩
    rw [List.append_assoc]
    exact hline
  · exact ⟨_, .inl (hblanks line), hline⟩

/-- No letter is blank or a star. -/
theorem dropMargin_append {margin cs : List Char} {c : Char} (hmargin : Margin margin)
    (hc : c.isAlpha) : dropMargin (margin ++ c :: cs) = c :: cs := by
  have hvisible : ¬ Text.isBlank c ∧ c ≠ '*' := by
    refine Text.of_isAlphanum (p := fun c => c.isAlpha → ¬ Text.isBlank c ∧ c ≠ '*')
      (by decide) ?_ hc
    exact Bool.or_eq_true_iff.mpr (.inl hc)
  rcases hmargin with hblank | ⟨before, after, rfl, hbefore, hafter⟩
  · have hstart : Text.trimStart (margin ++ c :: cs) = c :: cs := by
      rw [Text.trimStart_append hblank, Text.trimStart_cons hvisible.1]
    rw [dropMargin, hstart]
    simp [hvisible.2]
  · have hstart : Text.trimStart (before ++ '*' :: after ++ c :: cs) =
        '*' :: (after ++ c :: cs) := by
      rw [List.append_assoc, Text.trimStart_append hbefore, List.cons_append,
        Text.trimStart_cons (by decide)]
    rw [dropMargin, hstart]
    exact (Text.trimStart_append hafter _).trans (Text.trimStart_cons hvisible.1 cs)

theorem isMarkerWord_iff {marker : List Char} : isMarkerWord marker ↔
    ∃ c rest, marker = c :: rest ∧ c.isAlpha ∧ ∀ d ∈ marker, isMarkerChar d := by
  cases marker <;> simp [isMarkerWord]

theorem cutMarker?_eq_some_iff {cs marker body : List Char} :
    cutMarker? cs = some (marker, body) ↔ ∃ rest, cs = marker ++ ':' :: rest ∧
      isMarkerWord marker ∧ body = Text.trimStart rest := by
  constructor
  · intro h
    have hcut : cs.takeWhile isMarkerChar ++ cs.dropWhile isMarkerChar = cs :=
      List.takeWhile_append_dropWhile
    rw [cutMarker?] at h
    split at h
    · rename_i c word rest hword hrest
      split at h
      · rename_i hc
        obtain ⟨rfl, rfl⟩ := Prod.mk.inj (Option.some.inj h)
        refine ⟨rest, ?_, isMarkerWord_iff.mpr ⟨c, word, hword, hc, fun d hd => ?_⟩, rfl⟩
        · rw [← hrest, hcut]
        · exact List.mem_takeWhile_imp hd
      · cases h
    · cases h
  · rintro ⟨rest, rfl, hmarker, rfl⟩
    obtain ⟨c, word, rfl, hc, hchars⟩ := isMarkerWord_iff.mp hmarker
    have hcolon : ¬ isMarkerChar ':' := by decide
    have htake : (c :: word ++ ':' :: rest).takeWhile isMarkerChar = c :: word := by
      rw [List.takeWhile_append_of_pos hchars, List.takeWhile_cons_of_neg hcolon, List.append_nil]
    have hdrop : (c :: word ++ ':' :: rest).dropWhile isMarkerChar = ':' :: rest := by
      rw [List.dropWhile_append_of_pos hchars, List.dropWhile_cons_of_neg hcolon]
    rw [cutMarker?, htake, hdrop]
    simp [hc]

theorem markerAndBody?_eq_some_iff {line marker body : List Char} :
    markerAndBody? line = some (marker, body) ↔ ∃ margin rest,
      line = margin ++ (marker ++ ':' :: rest) ∧ Margin margin ∧ isMarkerWord marker ∧
        body = Text.trimStart rest := by
  rw [markerAndBody?_eq, cutMarker?_eq_some_iff]
  constructor
  · rintro ⟨rest, hcs, hmarker, hbody⟩
    obtain ⟨margin, hmargin, hline⟩ := exists_margin line
    exact ⟨margin, rest, hcs ▸ hline, hmargin, hmarker, hbody⟩
  · rintro ⟨margin, rest, rfl, hmargin, hmarker, hbody⟩
    obtain ⟨c, word, rfl, hc, -⟩ := isMarkerWord_iff.mp hmarker
    exact ⟨rest, dropMargin_append hmargin hc, hmarker, hbody⟩

/-- Exactly the directive lines are taken for directives. -/
theorem directs_iff {markers : List String} {line body : List Char} :
    Directs markers line body ↔
      ∃ rest, Line.classify markers line = .directive rest ∧ Text.trim rest = body := by
  constructor
  · rintro ⟨margin, marker, rest, hline, hmargin, hmarker, haccepted, rfl⟩
    have hfound : markerAndBody? line = some (marker, Text.trimStart rest) :=
      markerAndBody?_eq_some_iff.mpr ⟨margin, rest, hline, hmargin, hmarker, rfl⟩
    refine ⟨Text.trimStart rest, ?_, Text.trim_trimStart rest⟩
    simp [Line.classify, hfound, haccepted]
  · rintro ⟨body, hclassify, rfl⟩
    rw [Line.classify] at hclassify
    split at hclassify
    · rename_i marker found hfound
      split at hclassify
      · rename_i haccepted
        obtain rfl := Line.directive.inj hclassify
        obtain ⟨margin, rest, hline, hmargin, hmarker, rfl⟩ := markerAndBody?_eq_some_iff.mp hfound
        exact ⟨margin, marker, rest, hline, hmargin, hmarker, haccepted, Text.trim_trimStart rest⟩
      · cases hclassify
    · cases hclassify

theorem classify_eq_text_iff {markers : List String} {line : List Char} :
    Line.classify markers line = .text ↔ ∀ body, ¬ Directs markers line body := by
  simp only [directs_iff, not_exists, not_and]
  cases Line.classify markers line with
  | text => simp
  | directive rest => simp

/-- Blanks at the end of a line make no difference. -/
theorem directs_append_iff {markers : List String} {line body after : List Char}
    (hafter : Text.isBlankText after) :
    Directs markers (line ++ after) body ↔ Directs markers line body := by
  constructor
  · rintro ⟨margin, marker, rest, hline, hmargin, hmarker, haccepted, rfl⟩
    -- the colon is not blank, so the blanks at the end stand behind it
    have hcolon : ¬ Text.isBlank ':' := by decide
    obtain ⟨middle, rfl, rfl⟩ := Text.exists_middle hafter hcolon
      (hline.trans (List.append_assoc ..).symm)
    refine ⟨margin, marker, middle, List.append_assoc .., hmargin, hmarker, haccepted, ?_⟩
    exact Text.trim_append_of_isBlankText hafter middle
  · rintro ⟨margin, marker, rest, rfl, hmargin, hmarker, haccepted, rfl⟩
    refine ⟨margin, marker, rest ++ after, by simp, hmargin, hmarker, haccepted, ?_⟩
    exact (Text.trim_append_of_isBlankText hafter rest).symm

theorem not_directs_nil {markers : List String} {body : List Char} :
    ¬ Directs markers [] body := by
  rintro ⟨margin, marker, rest, hline, -⟩
  simp at hline

theorem Directs.trim_body {markers : List String} {line body : List Char}
    (h : Directs markers line body) : Text.trim body = body := by
  obtain ⟨margin, marker, rest, -, -, -, -, rfl⟩ := h
  exact Text.trim_trim rest

theorem Directs.infix {markers : List String} {line body : List Char}
    (h : Directs markers line body) : body <:+: line := by
  obtain ⟨margin, marker, rest, rfl, -, -, -, rfl⟩ := h
  refine (Text.trim_infix rest).trans (List.IsSuffix.isInfix ⟨margin ++ (marker ++ [':']), ?_⟩)
  simp

/-! ## Scanning -/

/-- What is read of a numbered line, if it is a directive. -/
def report? (markers : List String) (package : String) (l : List Char × Nat) :
    Option (Except DirectiveFault Directive) :=
  match Line.classify markers l.1 with
  | .text => none
  | .directive body => some (Directive.parse package body l.2)

/-- The fault that was found in place of a directive. -/
def fault? : Except DirectiveFault Directive → Option DirectiveFault
  | .ok _ => none
  | .error f => some f

section Scanning

variable {markers : List String} {package : String} {line n : Nat} {l : List Char}

theorem parse_trim (body : List Char) (n : Nat) :
    Directive.parse package (Text.trim body) n = Directive.parse package body n := by
  simp only [Directive.parse, Directive.readBody, Text.trim_trim]

theorem report?_eq_some_iff {r : Except DirectiveFault Directive} :
    report? markers package (l, n) = some r ↔
      ∃ body, Directs markers l body ∧ Directive.parse package body n = r := by
  simp only [report?, directs_iff]
  cases Line.classify markers l with
  | text => simp
  | directive rest => simp [parse_trim]

theorem report?_eq_none_iff :
    report? markers package (l, n) = none ↔ ∀ body, ¬ Directs markers l body := by
  rw [← classify_eq_text_iff, report?]
  cases Line.classify markers l <;> simp

theorem report?_append {after : List Char} (hafter : Text.isBlankText after) :
    report? markers package (l ++ after, n) = report? markers package (l, n) := by
  refine Option.ext fun r => ?_
  simp only [report?_eq_some_iff, directs_append_iff hafter]

theorem report?_dropReturn :
    report? markers package (Text.dropReturn l, n) = report? markers package (l, n) := by
  obtain ⟨after, hafter, hl⟩ := Text.exists_dropReturn_append l
  calc report? markers package (Text.dropReturn l, n)
      = report? markers package (Text.dropReturn l ++ after, n) := (report?_append hafter).symm
    _ = report? markers package (l, n) := by rw [← hl]

/-- Lines are reported one by one. -/
theorem scanLines_reports (markers : List String) (package : String) (line : Nat)
    (ls : List (List Char)) :
    (scanLines markers package line ls).directives =
        ((ls.zipIdx line).filterMap (report? markers package)).filterMap Except.toOption ∧
      (scanLines markers package line ls).faults =
        ((ls.zipIdx line).filterMap (report? markers package)).filterMap fault? := by
  induction ls generalizing line with
  | nil => exact ⟨rfl, rfl⟩
  | cons l ls ih =>
      obtain ⟨hdirectives, hfaults⟩ := ih (line + 1)
      rw [List.zipIdx_cons, List.filterMap_cons, scanLines, report?]
      cases Line.classify markers l with
      | text => exact ⟨hdirectives, hfaults⟩
      | directive body =>
          cases hparse : Directive.parse package body line with
          | ok d =>
              simp [hparse, hdirectives, hfaults, List.filterMap_cons, Except.toOption, fault?]
          | error f =>
              simp [hparse, hdirectives, hfaults, List.filterMap_cons, Except.toOption, fault?]

/-- The carriage returns and the last line that scanning leaves out hold no directive. -/
theorem filterMap_report?_lines (line : Nat) (cs : List Char) :
    ((Text.lines cs).zipIdx line).filterMap (report? markers package) =
      (Text.numbered line cs).filterMap (report? markers package) := by
  obtain ⟨front, last, hcs, -⟩ := Text.pieces_eq_concat cs
  have hfront : ((front.map Text.dropReturn).zipIdx line).filterMap (report? markers package) =
      (front.zipIdx line).filterMap (report? markers package) := by
    rw [List.zipIdx_map, List.filterMap_map]
    exact List.filterMap_congr fun _ _ => report?_dropReturn
  -- a last line that is empty is left out
  have hlast : ∀ n, (([last].filter (!·.isEmpty)).zipIdx n).filterMap (report? markers package) =
      ([last].zipIdx n).filterMap (report? markers package) := by
    intro n
    cases last with
    | nil =>
        have hnone : report? markers package ([], n) = none :=
          report?_eq_none_iff.mpr fun _ => not_directs_nil
        simp [hnone]
    | cons c cs => rfl
  rw [Text.lines, Text.numbered, hcs, List.dropLast_concat, List.getLast?_concat,
    List.zipIdx_append, List.zipIdx_append, List.filterMap_append, List.filterMap_append, hfront,
    List.length_map]
  exact congrArg _ (hlast _)

theorem scan_reports (markers : List String) (package : String) (line : Nat) (cs : List Char) :
    (scan markers package cs line).directives =
        ((Text.numbered line cs).filterMap (report? markers package)).filterMap
          Except.toOption ∧
      (scan markers package cs line).faults =
        ((Text.numbered line cs).filterMap (report? markers package)).filterMap fault? := by
  rw [← filterMap_report?_lines]
  exact scanLines_reports markers package line _

/-- What is kept are lines that are no directives. -/
theorem mem_kept {ls : List (List Char)} (h : l ∈ (scanLines markers package line ls).kept) :
    l ∈ ls ∧ ∀ body, ¬ Directs markers l body := by
  induction ls generalizing line with
  | nil => cases h
  | cons m ls ih =>
      rw [scanLines] at h
      cases hclassify : Line.classify markers m with
      | text =>
          simp only [hclassify, List.mem_cons] at h
          rcases h with rfl | h
          · exact ⟨List.mem_cons_self, classify_eq_text_iff.mp hclassify⟩
          · exact (ih h).imp_left (List.mem_cons_of_mem m)
      | directive body =>
          have hlater : l ∈ (scanLines markers package (line + 1) ls).kept := by
            cases hparse : Directive.parse package body line <;> simpa [hclassify, hparse] using h
          exact (ih hlater).imp_left (List.mem_cons_of_mem m)

/-- No directive is left in the text of a scanned comment. -/
theorem not_directs_of_mem_pieces_scan {cs body : List Char}
    (h : l ∈ Text.pieces (scan markers package cs line).text) : ¬ Directs markers l body := by
  rw [Scanned.text, scan] at h
  by_cases hnone : (scanLines markers package line (Text.lines cs)).kept = []
  · rw [hnone] at h
    obtain rfl : l = [] := List.mem_singleton.mp h
    exact not_directs_nil
  · rw [Text.pieces_join_lines _ hnone] at h
    · exact (mem_kept h).2 body
    · exact fun m hm => Text.notMem_of_mem_lines (mem_kept hm).1

end Scanning

end Comment

/-! ## Comments of a source -/

/-- The lines of a comment with their numbers in the source. Code has none. -/
def Token.commentLines : Token → List (List Char × Nat)
  | .code .. => []
  | .comment text line block => Text.numbered line (PackageDocs.commentText text block)

/-- The stars that are taken off a comment stand on its first line. -/
theorem PackageDocs.exists_commentText (text : List Char) (block : Bool) :
    ∃ stars, Token.lineCount stars = 0 ∧ text = stars ++ commentText text block := by
  cases block with
  | false => exact ⟨[], rfl, rfl⟩
  | true =>
      refine ⟨text.takeWhile (· == '*'), ?_, List.takeWhile_append_dropWhile.symm⟩
      refine List.count_eq_zero.mpr fun hmem => ?_
      have hstar := List.mem_takeWhile_imp hmem
      exact absurd hstar (by decide)

namespace Token

theorem onLine_of_mem_commentLines {text : List Char} {line : Nat} {block : Bool}
    {l : List Char × Nat} (h : l ∈ commentLines (.comment text line block)) {mark : List Char}
    (hmark : lineCount mark = 0) (after : List Char) :
    Text.OnLine line (mark ++ (text ++ after)) l.2 l.1 := by
  obtain ⟨stars, hstars, htext⟩ := PackageDocs.exists_commentText text block
  have hline : Text.OnLine line (PackageDocs.commentText text block) l.2 l.1 :=
    ⟨l.1, h, List.infix_rfl⟩
  have hfront : lineCount (mark ++ stars) = 0 := by rw [lineCount_append, hmark, hstars]
  have hwhole : Text.OnLine line ((mark ++ stars) ++ PackageDocs.commentText text block) l.2 l.1 :=
    Text.OnLine.of_append _ (by rwa [hfront])
  have hsource := hwhole.append after
  rwa [List.append_assoc mark, ← htext, List.append_assoc] at hsource

/-- **The lines of comments have the numbers of their lines in the source.** -/
theorem Splits.onLine {line : Nat} {cs : List Char} {ts : List Token} {e : Option LexError}
    (h : Splits line cs ts e) : ∀ l ∈ ts.flatMap commentLines, Text.OnLine line cs l.2 l.1 := by
  induction h with
  | done => simp
  | @code line text rest ts e stretch later ih =>
      exact fun l hl => (ih l hl).of_append text
  | @lineComment line text rest ts e single later ih =>
      intro l hl
      rcases List.mem_append.mp hl with hl | hl
      · have hmark : lineCount ['-', '-'] = 0 := rfl
        exact onLine_of_mem_commentLines hl hmark ('\n' :: rest)
      · rw [← lineCount_lineComment line single] at ih
        have hsource := (ih l hl).of_append (render false (.comment text line false))
        rwa [render_lineComment] at hsource
  | @lastLine line text single =>
      intro l hl
      have hlines : l ∈ commentLines (.comment text line false) := by simpa using hl
      have hmark : lineCount ['-', '-'] = 0 := rfl
      have hsource := onLine_of_mem_commentLines hlines hmark []
      rwa [List.append_nil] at hsource
  | @block line text rest ts e closed later ih =>
      intro l hl
      rcases List.mem_append.mp hl with hl | hl
      · have hmark : lineCount ['/', '*'] = 0 := rfl
        exact onLine_of_mem_commentLines hl hmark ('*' :: '/' :: rest)
      · rw [← lineCount, ← lineCount_block line] at ih
        have hsource := (ih l hl).of_append (render false (.comment text line true))
        rwa [render_block] at hsource
  | unclosed => simp

end Token

namespace PackageDocs

section Documentation

variable {markers : List String} {package : String} {tokens : List Token}

/-- What is read of a token is what its lines report. -/
theorem step_reports (markers : List String) (package : String) (q : Progress) (t : Token) :
    (step markers package q t).directives = q.directives ++
        (t.commentLines.filterMap (Comment.report? markers package)).filterMap Except.toOption ∧
      (step markers package q t).faults = q.faults ++
        (t.commentLines.filterMap (Comment.report? markers package)).filterMap Comment.fault? := by
  cases t with
  | code text line => simp [step, Token.commentLines]
  | comment text line block =>
      obtain ⟨hdirectives, hfaults⟩ :=
        Comment.scan_reports markers package line (commentText text block)
      simp only [step, Token.commentLines, hdirectives, hfaults, and_self]

theorem foldl_step_reports (markers : List String) (package : String) (tokens : List Token)
    (q : Progress) :
    (tokens.foldl (step markers package) q).directives = q.directives ++
        ((tokens.flatMap Token.commentLines).filterMap
          (Comment.report? markers package)).filterMap Except.toOption ∧
      (tokens.foldl (step markers package) q).faults = q.faults ++
        ((tokens.flatMap Token.commentLines).filterMap
          (Comment.report? markers package)).filterMap Comment.fault? := by
  induction tokens generalizing q with
  | nil => simp
  | cons t tokens ih =>
      obtain ⟨hdirectives, hfaults⟩ := step_reports markers package q t
      obtain ⟨hdirectives', hfaults'⟩ := ih (step markers package q t)
      rw [List.foldl_cons, hdirectives', hfaults', hdirectives, hfaults]
      simp only [List.flatMap_cons, List.filterMap_append, List.append_assoc, and_self]

theorem not_directs_of_remark? {t : Token} {text l body : List Char}
    (h : remark? markers package t = some text) (hl : l ∈ Text.pieces text) :
    ¬ Comment.Directs markers l body := by
  cases t with
  | code => cases h
  | comment written line block =>
      simp only [remark?, fed, DocCollector.Step.remark?] at h
      split at h
      · cases h
      · obtain rfl := Option.some.inj h
        exact Comment.not_directs_of_mem_pieces_scan hl

end Documentation

end PackageDocs

/-- The lines of a body are lines of the documentation, but for blanks at the end. -/
theorem Sections.exists_of_mem_pieces_body {raw l : List Char} (h : l ∈ Text.pieces (body raw)) :
    ∃ after, Text.isBlankText after ∧ l ++ after ∈ Text.pieces raw := by
  obtain ⟨front, last, hraw, -⟩ := Text.pieces_eq_concat raw
  have hbody : body raw = Text.trimEnd
      (Text.join ['\n'] (front.dropWhile Text.isBlankText ++ [last])) := by
    rw [body, hraw, List.dropLast_concat, List.getLast?_concat]
    rfl
  have hsubset : front.dropWhile Text.isBlankText ++ [last] ⊆ Text.pieces raw := by
    rw [hraw]
    exact ((List.dropWhile_sublist _).append_right [last]).subset
  have hlines : Text.pieces (Text.join ['\n'] (front.dropWhile Text.isBlankText ++ [last])) =
      front.dropWhile Text.isBlankText ++ [last] :=
    Text.pieces_join_lines (fun m hm => Text.notMem_of_mem_pieces (hsubset hm)) (by simp)
  obtain ⟨after, hafter, hjoin⟩ := Text.exists_trimEnd_append
    (Text.join ['\n'] (front.dropWhile Text.isBlankText ++ [last]))
  rw [hbody] at h
  obtain ⟨more, hmore, hmem⟩ := Text.exists_mem_pieces_append h after
  rw [← hjoin, hlines] at hmem
  refine ⟨more, ?_, hsubset hmem⟩
  exact List.all_eq_true.mpr fun c hc => List.all_eq_true.mp hafter c (hmore.subset hc)

namespace PackageDocs

variable {markers : List String} {package key source : String} {tokens : List Token}
  {block : DocBlock}

/-- No line of a documentation is a directive. -/
theorem not_directs_of_doc (hdoc : (ofTokens markers package tokens).doc? key = some block)
    {l : List Char} (hl : l ∈ Text.pieces block.raw.toList) (body : List Char) :
    ¬ Comment.Directs markers l body := by
  -- back from the documentation over its body and the comments it was joined from to a kept line
  obtain ⟨a, hplaces⟩ := exists_places hdoc
  have hraw : block.raw.toList = Sections.body
      (Text.join ['\n'] (a.run.filterMap (remark? markers package))) := by
    rw [hplaces.block_eq, Sections.split]
    exact String.toList_ofList
  rw [hraw] at hl
  obtain ⟨after, hafter, hmem⟩ := Sections.exists_of_mem_pieces_body hl
  rw [Text.pieces_join hplaces.remarks] at hmem
  obtain ⟨text, htext, hmem⟩ := List.mem_flatMap.mp hmem
  obtain ⟨t, -, hremark⟩ := List.mem_filterMap.mp htext
  rw [← Comment.directs_append_iff hafter]
  exact not_directs_of_remark? hremark hmem

/-- What a line of a comment reports, given with its number: a directive or a fault if it is a
directive line, which stands on the line of the source that is named, and nothing otherwise. -/
inductive Reports (markers : List String) (package : String) (source : List Char) :
    List Char × Nat → Option (Except DirectiveFault Directive) → Prop
  | nothing {l : List Char} {n : Nat} (text : ∀ body, ¬ Comment.Directs markers l body) :
      Reports markers package source (l, n) none
  | directive {l body : List Char} {n : Nat} {d : Directive}
      (directs : Comment.Directs markers l body) (place : Text.OnLine 1 source n body)
      (read : Directive.readBody package body = .ok d) :
      Reports markers package source (l, n) (some (.ok { d with line := some n }))
  | fault {l body : List Char} {n : Nat} {reason : DirectiveFault.Reason}
      (directs : Comment.Directs markers l body) (place : Text.OnLine 1 source n body)
      (read : Directive.readBody package body = .error reason) :
      Reports markers package source (l, n) (some (.error ⟨n, String.ofList body, reason⟩))

theorem reports_of_onLine {l : List Char × Nat} {cs : List Char}
    (hl : Text.OnLine 1 cs l.2 l.1) :
    Reports markers package cs l (Comment.report? markers package l) := by
  obtain ⟨l, n⟩ := l
  cases hreport : Comment.report? markers package (l, n) with
  | none => exact .nothing (Comment.report?_eq_none_iff.mp hreport)
  | some r =>
      obtain ⟨body, hdirects, hparse⟩ := Comment.report?_eq_some_iff.mp hreport
      obtain ⟨whole, hwhole, hinfix⟩ := hl
      have hplace : Text.OnLine 1 cs n body := ⟨whole, hwhole, hdirects.infix.trans hinfix⟩
      rw [Directive.parse, hdirects.trim_body] at hparse
      split at hparse
      · rename_i d hread
        rw [← hparse]
        exact .directive hdirects hplace hread
      · rename_i reason hread
        rw [← hparse]
        exact .fault hdirects hplace hread

/-- **Every directive line is reported once, at its line, and is no documentation.** The lines of
the comments of a source report one after the other, each a directive, a fault or nothing; what is
read of the source are the directives and the faults among these reports; and no line of a
documentation is a directive line. -/
theorem ofSource_reports (markers : List String) (package : String)
    (htokens : Token.lexAll source = .ok tokens) :
    ∃ p reports, ofSource markers package source = .ok p ∧
      List.Forall₂ (Reports markers package source.toList) (tokens.flatMap Token.commentLines)
        reports ∧
      p.directives = (reports.filterMap id).filterMap Except.toOption ∧
      p.faults = (reports.filterMap id).filterMap Comment.fault? ∧
      ∀ key block, p.doc? key = some block → ∀ l ∈ Text.pieces block.raw.toList, ∀ body,
        ¬ Comment.Directs markers l body := by
  have hsplits : Token.Splits 1 source.toList tokens none :=
    Token.splits_iff.mpr (Token.lexAll_eq_ok_iff.mp htokens)
  obtain ⟨hdirectives, hfaults⟩ := foldl_step_reports markers package tokens ⟨.empty, [], []⟩
  have hread : ofSource markers package source = .ok (ofTokens markers package tokens) :=
    ofSource_eq_ok_iff.mpr ⟨tokens, htokens, rfl⟩
  refine ⟨ofTokens markers package tokens,
    (tokens.flatMap Token.commentLines).map (Comment.report? markers package), hread, ?_, ?_, ?_,
    fun key block hdoc l hl body => not_directs_of_doc hdoc hl body⟩
  · rw [List.forall₂_map_right_iff, List.forall₂_same]
    exact fun l hl => reports_of_onLine (hsplits.onLine l hl)
  · rw [List.filterMap_map]
    exact hdirectives
  · rw [List.filterMap_map]
    exact hfaults

/-- A block comment with carriage returns that holds a directive and a fault, and a directive behind
code. -/
def reportedTokens : List Token :=
  [.comment "* Doc.\r\n * procgen:handle f\r\n * procgen:oops \r\n ".toList 1 true,
    .code "\nFUNCTION f; ".toList 4, .comment " Procgen: private f".toList 5 false]

def reportedSource : String :=
  "/** Doc.\r\n * procgen:handle f\r\n * procgen:oops \r\n */\n" ++
    "FUNCTION f; -- Procgen: private f\n"

theorem ofSource_reports_sample :
    Token.lexAll reportedSource = .ok reportedTokens ∧
    ∃ p reports, ofSource ["procgen"] "PKG" reportedSource = .ok p ∧
      List.Forall₂ (Reports ["procgen"] "PKG" reportedSource.toList)
        (reportedTokens.flatMap Token.commentLines) reports ∧
      (reports.filterMap id).filterMap Except.toOption =
        [⟨"PKG", .handle, "f", none, none, some 2⟩, ⟨"PKG", .hide, "f", none, none, some 5⟩] ∧
      (reports.filterMap id).filterMap Comment.fault? = [⟨3, "oops", .unknownVerb⟩] ∧
      (∃ block, p.doc? "pkg.f" = some block ∧ block.raw = " Doc.") ∧
      ∀ key block, p.doc? key = some block → ∀ l ∈ Text.pieces block.raw.toList, ∀ body,
        ¬ Comment.Directs ["procgen"] l body := by
  have htokens : Token.lexAll reportedSource = .ok reportedTokens :=
    Token.lexAll_eq_ok_iff.mpr (by decide +kernel)
  obtain ⟨p, reports, hread, hreports, hdirectives, hfaults, hdocs⟩ :=
    ofSource_reports ["procgen"] "PKG" htokens
  obtain ⟨tokens, htokens', rfl⟩ := ofSource_eq_ok_iff.mp hread
  obtain rfl : reportedTokens = tokens := Except.ok.inj (htokens.symm.trans htokens')
  have hdoc : (ofTokens ["procgen"] "PKG" reportedTokens).doc? "pkg.f" =
      some (Sections.split " Doc.\n ".toList) := doc?_ofTokens (by decide +kernel)
  refine ⟨htokens, _, reports, hread, hreports, ?_, ?_, ⟨_, hdoc, by decide +kernel⟩, hdocs⟩
  · rw [← hdirectives]
    decide +kernel
  · rw [← hfaults]
    decide +kernel

end PackageDocs

end RoutineBridge
