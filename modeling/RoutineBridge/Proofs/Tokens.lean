import Mathlib.Algebra.Ring.Parity
import Mathlib.Data.List.Chain
import Mathlib.Data.List.DropRight
import RoutineBridge.Source.Token

/-!
# Splitting loses nothing

Where a literal is open and where code ends is said by counting quotes: a text ends in a literal if
its last line holds an odd number of them (`Token.InLiteral`), and code goes on for as long as the
comment marks in it stand in literals (`Token.Stretch`). The search for a comment starts anew behind
every token, with no literal open. What it finds there is said once, as a relation between a source
and its tokens (`Token.Splits`), and the tokens that are found are the only ones that stand in it to
the source (`Token.splits_iff`). So whatever is true of the tokens and the lines of a source follows
by going through them one after the other (`Token.lex_faithful`).
-/

namespace RoutineBridge.Token

/-! ## Literals and comment marks -/

/-- A quoted literal is open behind the text: there is an odd number of quotes since the last line
feed. -/
def InLiteral (text : List Char) : Prop :=
  Odd ((text.rtakeWhile (· != '\n')).count '\x27')

/-- The text begins with the mark of a line comment or of a block comment. -/
def BeginsComment (cs : List Char) : Prop :=
  (∃ rest, cs = '-' :: '-' :: rest) ∨ ∃ rest, cs = '/' :: '*' :: rest

/-- Every comment mark that begins in the text stands in a literal, where `rest` follows. -/
def MarksQuoted (text rest : List Char) : Prop :=
  ∀ before c after, text = before ++ c :: after → BeginsComment (c :: after ++ rest) →
    InLiteral before

/-- The text is what there is of code until the source ends or a comment begins. -/
structure Stretch (text rest : List Char) : Prop where
  nonempty : text ≠ []
  marks : MarksQuoted text rest
  ends : rest = [] ∨ BeginsComment rest ∧ ¬ InLiteral text

theorem opensComment_iff {cs : List Char} : opensComment cs ↔ BeginsComment cs := by
  rw [opensComment, Bool.or_eq_true, List.isPrefixOf_iff_prefix, List.isPrefixOf_iff_prefix]
  simp only [BeginsComment, List.IsPrefix, List.cons_append, List.nil_append, eq_comm]

theorem BeginsComment.append {cs : List Char} (h : BeginsComment cs) (ds : List Char) :
    BeginsComment (cs ++ ds) := by
  rcases h with ⟨rest, rfl⟩ | ⟨rest, rfl⟩
  · exact .inl ⟨rest ++ ds, rfl⟩
  · exact .inr ⟨rest ++ ds, rfl⟩

theorem not_inLiteral_nil : ¬ InLiteral [] := by
  simp [InLiteral, List.rtakeWhile]

/-- A line feed closes a literal, a quote opens or closes one. -/
theorem inLiteral_concat (text : List Char) (c : Char) :
    InLiteral (text ++ [c]) ↔
      c ≠ '\n' ∧ if c = '\x27' then ¬ InLiteral text else InLiteral text := by
  rw [InLiteral, List.rtakeWhile_concat]
  by_cases hfeed : c = '\n'
  · simp [hfeed]
  · by_cases hquote : c = '\x27'
    · simp [hquote, InLiteral, Nat.odd_add_one]
    · simp [hfeed, hquote, InLiteral]

/-- The search knows whether a literal is open. -/
theorem foldl_quotedAfter_iff (text : List Char) :
    text.foldl quotedAfter false = true ↔ InLiteral text := by
  induction text using List.reverseRecOn with
  | nil => simp [not_inLiteral_nil]
  | append_singleton text c ih =>
      rw [inLiteral_concat, ← ih, List.foldl_append, List.foldl_cons, List.foldl_nil, quotedAfter]
      by_cases hquote : c = '\x27'
      · simp [hquote]
      · by_cases hfeed : c = '\n' <;> simp [hquote, hfeed]

/-! ## Code -/

/-- No comment begins in the text, where `rest` follows. Marks in a literal begin none; `quoted`
says whether a literal is open in front of the text. -/
def Plain (quoted : Bool) (text rest : List Char) : Prop :=
  ∀ before c after, text = before ++ c :: after → before.foldl quotedAfter quoted = false →
    ¬ opensComment (c :: after ++ rest)

/-- The code goes on to the end of the source, or to a comment outside its literals. -/
def EndsAt (quoted : Bool) (text rest : List Char) : Prop :=
  rest = [] ∨ opensComment rest ∧ text.foldl quotedAfter quoted = false

section Cuts

variable {quoted : Bool} {c : Char} {cs text rest : List Char}

theorem plain_nil : Plain quoted [] rest := by
  intro before c after happend
  simp at happend

theorem plain_cons : Plain quoted (c :: text) rest ↔
    (quoted = false → ¬ opensComment (c :: text ++ rest)) ∧
      Plain (quotedAfter quoted c) text rest := by
  constructor
  · intro h
    exact ⟨h [] c text rfl, fun before d after happend => h (c :: before) d after (happend ▸ rfl)⟩
  · rintro ⟨hstart, hlater⟩ before d after happend hclosed
    cases before with
    | nil =>
        obtain ⟨rfl, rfl⟩ := List.cons.inj happend
        exact hstart hclosed
    | cons e before =>
        obtain ⟨rfl, rfl⟩ := List.cons.inj happend
        exact hlater before d after rfl hclosed

/-- The first comment outside a literal begins behind the cut. -/
theorem plain_cutCode (quoted : Bool) (cs : List Char) :
    Plain quoted (cutCode quoted cs).1 (cutCode quoted cs).2 := by
  induction cs generalizing quoted with
  | nil => exact plain_nil
  | cons c cs ih =>
      rw [cutCode]
      split
      · exact plain_nil
      · rename_i hcode
        refine plain_cons.mpr ⟨fun hopen hmark => hcode ?_, ih _⟩
        rw [List.cons_append, cutCode_append] at hmark
        rw [hopen, hmark]
        rfl

theorem endsAt_cutCode (quoted : Bool) (cs : List Char) :
    EndsAt quoted (cutCode quoted cs).1 (cutCode quoted cs).2 := by
  induction cs generalizing quoted with
  | nil => exact .inl rfl
  | cons c cs ih =>
      rw [cutCode]
      split
      · rename_i hcomment
        exact .inr (by simpa [and_comm] using hcomment)
      · exact ih _

/-- There is one place to cut. -/
theorem cutCode_eq (hplain : Plain quoted text rest) (hends : EndsAt quoted text rest) :
    cutCode quoted (text ++ rest) = (text, rest) := by
  induction text generalizing quoted with
  | nil =>
      rcases hends with rfl | ⟨hmark, hclosed⟩
      · rfl
      · cases rest with
        | nil => rfl
        | cons c rest =>
            obtain rfl : quoted = false := hclosed
            rw [List.nil_append, cutCode, if_pos (by rw [hmark]; rfl)]
  | cons c text ih =>
      obtain ⟨hstart, hlater⟩ := plain_cons.mp hplain
      have hcode : (!quoted && opensComment (c :: (text ++ rest))) ≠ true := by
        intro hcomment
        rw [Bool.and_eq_true, Bool.not_eq_true'] at hcomment
        exact hstart hcomment.1 hcomment.2
      rw [List.cons_append, cutCode, if_neg hcode, ih hlater hends]

theorem plain_iff : Plain false text rest ↔ MarksQuoted text rest := by
  refine forall_congr' fun before => forall_congr' fun c => forall_congr' fun after =>
    imp_congr_right fun _ => ?_
  rw [opensComment_iff, ← foldl_quotedAfter_iff, ← Bool.not_eq_true, not_imp_not]

theorem endsAt_iff : EndsAt false text rest ↔
    rest = [] ∨ BeginsComment rest ∧ ¬ InLiteral text := by
  rw [EndsAt, opensComment_iff, ← foldl_quotedAfter_iff, Bool.not_eq_true]

/-- Code does not begin where a comment does. -/
theorem Stretch.not_beginsComment (h : Stretch text rest) : ¬ BeginsComment (text ++ rest) := by
  obtain ⟨c, after, rfl⟩ := List.exists_cons_of_ne_nil h.nonempty
  exact fun hmark => not_inLiteral_nil (h.marks [] c after rfl hmark)

end Cuts

/-! ## Tokens -/

/-- The source from `line` on consists of the tokens, and of a comment without end if there is an
error. -/
inductive Splits : Nat → List Char → List Token → Option LexError → Prop
  | done {line : Nat} : Splits line [] [] none
  | code {line : Nat} {text rest : List Char} {ts : List Token} {e : Option LexError}
      (stretch : Stretch text rest) (later : Splits (line + text.count '\n') rest ts e) :
      Splits line (text ++ rest) (.code text line :: ts) e
  | lineComment {line : Nat} {text rest : List Char} {ts : List Token} {e : Option LexError}
      (single : '\n' ∉ text) (later : Splits (line + 1) rest ts e) :
      Splits line ('-' :: '-' :: (text ++ '\n' :: rest)) (.comment text line false :: ts) e
  | lastLine {line : Nat} {text : List Char} (single : '\n' ∉ text) :
      Splits line ('-' :: '-' :: text) [.comment text line false] none
  | block {line : Nat} {text rest : List Char} {ts : List Token} {e : Option LexError}
      (closed : ¬ ['*', '/'] <:+: text) (later : Splits (line + text.count '\n') rest ts e) :
      Splits line ('/' :: '*' :: (text ++ ('*' :: '/' :: rest))) (.comment text line true :: ts) e
  | unclosed {line : Nat} {body : List Char} (endless : ¬ ['*', '/'] <:+: body) :
      Splits line ('/' :: '*' :: body) [] (some (.unterminatedComment line))

theorem cutLineComment_of_notMem {cs : List Char} (h : '\n' ∉ cs) :
    cutLineComment cs = (cs, []) := by
  have hnone : Text.splitWhere? (· == '\n') cs = none := by
    refine Text.splitWhere?_eq_none_iff.mpr fun c hc heq => h ?_
    exact beq_iff_eq.mp heq ▸ hc
  rw [cutLineComment, hnone, Option.getD_none]

theorem cutLineComment_append {text : List Char} (h : '\n' ∉ text) (rest : List Char) :
    cutLineComment (text ++ '\n' :: rest) = (text, rest) := by
  have hbefore : ∀ c ∈ text, ¬ (c == '\n') := fun c hc heq => h (beq_iff_eq.mp heq ▸ hc)
  rw [cutLineComment, Text.splitWhere?_append hbefore rfl, Option.getD_some]

theorem splitBlock_append {text : List Char} (h : ¬ ['*', '/'] <:+: text) (rest : List Char) :
    Text.splitAt? ['*', '/'] (text ++ '*' :: '/' :: rest) = some (text, rest) := by
  induction text with
  | nil => rfl
  | cons c text ih =>
      rw [List.infix_cons_iff, not_or] at h
      -- a mark that begins with `c` would end in the text, for the mark behind it begins otherwise
      have hstart : ¬ ['*', '/'] <+: c :: (text ++ '*' :: '/' :: rest) := by
        intro hmark
        refine h.1 ?_
        cases text with
        | nil => simp at hmark
        | cons d text => simpa using hmark
      rw [List.cons_append, Text.splitAt?, if_neg (by rwa [List.isPrefixOf_iff_prefix]), ih h.2]
      rfl

section Steps

variable {cs text rest : List Char} (line : Nat)

theorem scan_code (h : Stretch text rest) :
    scan line (text ++ rest) = (.code text line :: (scan (line + lineCount text) rest).1,
      (scan (line + lineCount text) rest).2) := by
  have hcut := cutCode_eq (plain_iff.mpr h.marks) (endsAt_iff.mpr h.ends)
  have hcode : ¬ opensComment (text ++ rest) := opensComment_iff.not.mpr h.not_beginsComment
  obtain ⟨c, text, rfl⟩ := List.exists_cons_of_ne_nil h.nonempty
  rw [List.cons_append, cutCode, if_neg (by simpa using hcode)] at hcut
  obtain ⟨htext, hrest⟩ := Prod.mk.inj hcut
  rw [List.cons_append, scan]
  · simp only [(List.cons.inj htext).2, hrest]
  · rintro cs rfl heq
    exact hcode (opensComment_iff.mpr (.inl ⟨cs, by rw [List.cons_append, heq]⟩))
  · rintro cs rfl heq
    exact hcode (opensComment_iff.mpr (.inr ⟨cs, by rw [List.cons_append, heq]⟩))

theorem scan_block (h : Text.splitAt? ['*', '/'] cs = some (text, rest)) :
    scan line ('/' :: '*' :: cs) =
      (.comment text line true :: (scan (line + lineCount text) rest).1,
        (scan (line + lineCount text) rest).2) := by
  rw [scan]
  split
  · rename_i hnone
    rw [h] at hnone
    cases hnone
  · rename_i hsome
    rw [h] at hsome
    cases hsome
    rfl

theorem scan_unclosed (h : Text.splitAt? ['*', '/'] cs = none) :
    scan line ('/' :: '*' :: cs) = ([], some (.unterminatedComment line)) := by
  rw [scan]
  split
  · rfl
  · rename_i hsome
    rw [h] at hsome
    cases hsome

end Steps

theorem splits_scan (line : Nat) (cs : List Char) :
    Splits line cs (scan line cs).1 (scan line cs).2 := by
  fun_induction scan line cs with
  | case1 line => exact .done
  | case2 line cs hlength cut later ih =>
      by_cases hend : '\n' ∈ cs
      · obtain ⟨text, rest, rfl, hsingle⟩ := List.eq_append_cons_of_mem hend
        have hcut : cut = (text, rest) := cutLineComment_append hsingle rest
        simp only [later, hcut] at ih ⊢
        exact .lineComment hsingle ih
      · have hcut : cut = (cs, []) := cutLineComment_of_notMem hend
        simp only [later, hcut, scan]
        exact .lastLine hend
  | case3 line cs hnone => exact .unclosed ((Text.splitAt?_eq_none_iff (by decide)).mp hnone)
  | case4 line cs text rest hsome hlength later ih =>
      rw [Text.eq_of_splitAt? hsome]
      exact .block (Text.not_infix_of_splitAt? (by decide) hsome) ih
  | case5 line c cs hline hblock hlength cut later ih =>
      have hcode : ¬ opensComment (c :: cs) := by
        rw [opensComment_iff]
        rintro (⟨rest, hmark⟩ | ⟨rest, hmark⟩)
        · exact hline rest (List.cons.inj hmark).1 (List.cons.inj hmark).2
        · exact hblock rest (List.cons.inj hmark).1 (List.cons.inj hmark).2
      have hcut : cutCode false (c :: cs) = (c :: cut.1, cut.2) := by
        rw [cutCode, if_neg (by simpa using hcode)]
      have hplain := plain_cutCode false (c :: cs)
      have hends := endsAt_cutCode false (c :: cs)
      have hsource := cutCode_append false (c :: cs)
      rw [hcut] at hplain hends hsource
      rw [← hsource]
      exact .code ⟨List.cons_ne_nil c cut.1, plain_iff.mp hplain, endsAt_iff.mp hends⟩ ih

/-- The tokens that are found are the only ones that the source consists of. -/
theorem splits_iff {line : Nat} {cs : List Char} {ts : List Token} {e : Option LexError} :
    Splits line cs ts e ↔ scan line cs = (ts, e) := by
  constructor
  · intro h
    induction h with
    | done => rw [scan]
    | code stretch later ih => rw [scan_code _ stretch, lineCount, ih]
    | lineComment single later ih => rw [scan, cutLineComment_append single, ih]
    | lastLine single => rw [scan, cutLineComment_of_notMem single, scan]
    | block closed later ih => rw [scan_block _ (splitBlock_append closed _), lineCount, ih]
    | unclosed endless =>
        exact scan_unclosed _ ((Text.splitAt?_eq_none_iff (by decide)).mpr endless)
  · intro h
    have hsplits := splits_scan line cs
    rwa [h] at hsplits

/-! ## What is true of all tokens -/

def isCode : Token → Bool
  | code .. => true
  | comment .. => false

/-- What a token may hold: code without comment marks outside its literals, one line of a comment,
or a comment without a mark that closes it. -/
inductive Formed : Token → Prop
  | code {text : List Char} {line : Nat} (nonempty : text ≠ []) (marks : MarksQuoted text []) :
      Formed (.code text line)
  | lineComment {text : List Char} {line : Nat} (single : '\n' ∉ text) :
      Formed (.comment text line false)
  | block {text : List Char} {line : Nat} (closed : ¬ ['*', '/'] <:+: text) :
      Formed (.comment text line true)

/-- The tokens written one after the other. A last line comment may end with the source. -/
def renderAll (atEnd : Bool) : List Token → List Char
  | [] => []
  | [t] => t.render atEnd
  | t :: u :: ts => t.render false ++ renderAll atEnd (u :: ts)

/-- The tokens keep all of the source, which begins on `line`. -/
structure Faithful (line : Nat) (cs : List Char) (ts : List Token) (e : Option LexError) :
    Prop where
  /-- Without an error the tokens are the source. -/
  whole : e = none → ∃ atEnd, cs = renderAll atEnd ts
  /-- With an error they are what stands before a comment that is never closed. -/
  stopped : ∀ l, e = some (.unterminatedComment l) → ∃ body,
    cs = renderAll false ts ++ '/' :: '*' :: body ∧ ¬ ['*', '/'] <:+: body ∧
      l = line + (renderAll false ts).count '\n'
  formed : ∀ t ∈ ts, t.Formed
  /-- No two tokens of code stand side by side. -/
  apart : ts.IsChain fun t u => ¬ (t.isCode ∧ u.isCode)
  lines : ∀ before t after, ts = before ++ t :: after →
    t.line = line + (renderAll false before).count '\n'
  /-- Every token takes something from the source, so there is an end to them. -/
  length : ts.length ≤ cs.length

theorem lineCount_append (xs ys : List Char) : lineCount (xs ++ ys) = lineCount xs + lineCount ys :=
  List.count_append

theorem renderAll_cons {atEnd : Bool} {t : Token} {ts : List Token} (h : ts ≠ [] ∨ atEnd = false) :
    renderAll atEnd (t :: ts) = t.render false ++ renderAll atEnd ts := by
  cases ts with
  | nil =>
      obtain rfl := h.resolve_left (absurd rfl)
      rw [renderAll, renderAll, List.append_nil]
  | cons u ts => rfl

section Steps

variable {line : Nat} {cs text rest : List Char} {t : Token} {ts : List Token} {e : Option LexError}

theorem render_lineComment (line : Nat) :
    render false (.comment text line false) ++ rest = '-' :: '-' :: (text ++ '\n' :: rest) := by
  simp [render]

theorem render_block (line : Nat) :
    render false (.comment text line true) ++ rest =
      '/' :: '*' :: (text ++ '*' :: '/' :: rest) := by
  simp [render]

theorem lineCount_lineComment (line : Nat) (h : '\n' ∉ text) :
    lineCount (render false (.comment text line false)) = 1 := by
  simp [lineCount, render, List.count_append, List.count_eq_zero.mpr h]

theorem lineCount_block (line : Nat) :
    lineCount (render false (.comment text line true)) = lineCount text := by
  simp [lineCount, render, List.count_append]

/-- One token in front keeps all of the source if the others keep the rest. -/
theorem Faithful.cons (hformed : t.Formed) (hline : t.line = line)
    (hnext : t.isCode → ∀ u ∈ ts.head?, ¬ u.isCode)
    (h : Faithful (line + lineCount (t.render false)) rest ts e) :
    Faithful line (t.render false ++ rest) (t :: ts) e where
  whole he := by
    obtain ⟨atEnd, rfl⟩ := h.whole he
    cases ts with
    | nil => exact ⟨false, by rw [renderAll, renderAll, List.append_nil]⟩
    | cons u ts => exact ⟨atEnd, rfl⟩
  stopped l he := by
    obtain ⟨body, rfl, hendless, rfl⟩ := h.stopped l he
    refine ⟨body, ?_, hendless, ?_⟩
    · rw [renderAll_cons (.inr rfl), List.append_assoc]
    · rw [renderAll_cons (.inr rfl), List.count_append, lineCount, Nat.add_assoc]
  formed := List.forall_mem_cons.mpr ⟨hformed, h.formed⟩
  apart := List.isChain_cons.mpr ⟨fun u hu hcode => hnext hcode.1 u hu hcode.2, h.apart⟩
  lines before u after hsplit := by
    cases before with
    | nil =>
        obtain ⟨rfl, -⟩ := List.cons.inj hsplit
        exact hline
    | cons v before =>
        obtain ⟨rfl, rfl⟩ := List.cons.inj hsplit
        rw [h.lines before u after rfl, renderAll_cons (.inr rfl), List.count_append, lineCount,
          Nat.add_assoc]
  length := by
    have hpositive : 0 < (t.render false).length := by
      cases hformed with
      | code nonempty => exact List.length_pos_iff.mpr nonempty
      | lineComment => exact Nat.succ_pos _
      | block => exact Nat.succ_pos _
    have hlater := h.length
    rw [List.length_cons, List.length_append]
    omega

/-- Where a comment begins there is no code. -/
theorem Splits.not_isCode (h : Splits line cs ts e) (hstart : cs = [] ∨ BeginsComment cs) :
    ∀ t ∈ ts.head?, ¬ t.isCode := by
  cases h with
  | code stretch later =>
      exact absurd (hstart.resolve_left (by simp [stretch.nonempty])) stretch.not_beginsComment
  | done | unclosed => simp
  | lineComment | lastLine | block => simp [isCode]

theorem MarksQuoted.alone (h : MarksQuoted text rest) : MarksQuoted text [] := by
  intro before c after happend hmark
  rw [List.append_nil] at hmark
  exact h before c after happend (hmark.append rest)

theorem Splits.faithful (h : Splits line cs ts e) : Faithful line cs ts e := by
  induction h with
  | done =>
      exact
        { whole := fun _ => ⟨false, rfl⟩
          stopped := fun l he => by cases he
          formed := fun t ht => absurd ht List.not_mem_nil
          apart := .nil
          lines := fun before t after hsplit => by simp at hsplit
          length := Nat.le_refl 0 }
  | code stretch later ih =>
      refine Faithful.cons (.code stretch.nonempty stretch.marks.alone) rfl (fun _ => ?_) ih
      exact later.not_isCode (stretch.ends.imp id And.left)
  | @lineComment line text rest ts e single later ih =>
      rw [← lineCount_lineComment line single] at ih
      rw [← render_lineComment line]
      exact Faithful.cons (.lineComment single) rfl (fun hcode => by cases hcode) ih
  | lastLine single =>
      exact
        { whole := fun _ => ⟨true, by simp [renderAll, render]⟩
          stopped := fun l he => by cases he
          formed := fun t ht => List.mem_singleton.mp ht ▸ .lineComment single
          apart := .singleton _
          lines := fun before t after hsplit => by
            obtain ⟨rfl, rfl, rfl⟩ : before = [] ∧ _ ∧ _ := by
              simpa [List.append_eq_cons_iff, and_assoc] using hsplit.symm
            rfl
          length := by simp }
  | @block line text rest ts e closed later ih =>
      rw [← lineCount, ← lineCount_block line] at ih
      rw [← render_block line]
      exact Faithful.cons (.block closed) rfl (fun hcode => by cases hcode) ih
  | unclosed endless =>
      exact
        { whole := fun he => by cases he
          stopped := fun l he => by
            cases he
            exact ⟨_, rfl, endless, rfl⟩
          formed := fun t ht => absurd ht List.not_mem_nil
          apart := .nil
          lines := fun before t after hsplit => by simp at hsplit
          length := Nat.zero_le _ }

end Steps

/-- **Splitting loses nothing.** The tokens of a source are all of it, or all that stands before a
comment that is never closed, and every token knows its line. Code and comments are told apart by
the marks outside literals, and there is no other way to split the source like that. -/
theorem lex_faithful (source : String) :
    Faithful 1 source.toList (lex source).1 (lex source).2 ∧
      ∀ ts e, Splits 1 source.toList ts e ↔ lex source = (ts, e) :=
  ⟨(splits_iff.mpr rfl).faithful, fun _ _ => splits_iff⟩

end RoutineBridge.Token
