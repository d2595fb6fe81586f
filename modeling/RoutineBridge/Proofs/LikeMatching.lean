import Mathlib.Data.List.Forall2
import Mathlib.Data.List.Infix
import RoutineBridge.Text.Like

/-!
# What a LIKE pattern matches

A text matches the parts of a pattern if it can be cut into one piece for every part
(`Like.Matches`). Matching never cuts: it keeps a row of truth values, one for every suffix of the
text, and puts the parts in front one by one. What a row says about the suffixes is the invariant
(`Like.Says`): a part in front of it adds a piece in front of every suffix (`Like.Says.part`). Main
statement: matching finds out whether the text can be cut (`Like.matchParts_iff`).
-/

namespace RoutineBridge.Like

/-- The part may stand for this piece of a text. -/
inductive Part.Fits : Part → List Char → Prop
  | anyRun {piece : List Char} (h : ∀ c ∈ piece, isOpen c) : Fits .anyRun piece
  | anyOne {c : Char} (h : isOpen c) : Fits .anyOne [c]
  | letter {a c : Char} (h : Text.sameLetter a c) : Fits (.letter a) [c]

/-- The text can be cut into one piece for every part. -/
def Matches (ps : List Part) (text : List Char) : Prop :=
  ∃ pieces : List (List Char), text = pieces.flatten ∧ List.Forall₂ Part.Fits ps pieces

variable {text : List Char} {p : Part} {ps : List Part} {row : List Bool}

theorem matches_nil_iff : Matches [] text ↔ text = [] := by
  simp [Matches]

theorem matches_cons_iff :
    Matches (p :: ps) text ↔
      ∃ piece rest, text = piece ++ rest ∧ p.Fits piece ∧ Matches ps rest := by
  constructor
  · rintro ⟨pieces, htext, hfits⟩
    obtain ⟨piece, pieces, hpiece, hrest, rfl⟩ := List.forall₂_cons_left_iff.mp hfits
    exact ⟨piece, pieces.flatten, htext, hpiece, pieces, rfl, hrest⟩
  · rintro ⟨piece, rest, rfl, hpiece, pieces, rfl, hfits⟩
    exact ⟨piece :: pieces, rfl, .cons hpiece hfits⟩

/-! ## Rows -/

/-- The row says of every suffix of the text whether the property holds for it. -/
def Says (holds : List Char → Prop) (text : List Char) (row : List Bool) : Prop :=
  List.Forall₂ (fun suffix b => b = true ↔ holds suffix) text.tails row

namespace Says

variable {holds : List Char → Prop}

theorem congr {holds' : List Char → Prop} (h : Says holds text row)
    (hiff : ∀ suffix, holds suffix ↔ holds' suffix) : Says holds' text row :=
  h.imp fun _ _ hb => hb.trans (hiff _)

theorem nil_iff : Says holds [] row ↔ ∃ b, row = [b] ∧ (b = true ↔ holds []) := by
  simp [Says, List.forall₂_cons_left_iff, and_comm]

theorem cons_iff {c : Char} :
    Says holds (c :: text) row ↔
      ∃ b row', row = b :: row' ∧ (b = true ↔ holds (c :: text)) ∧ Says holds text row' := by
  simp only [Says, List.tails_cons, List.forall₂_cons_left_iff]
  grind

/-- The first value is about the whole text. -/
theorem headD_iff (h : Says holds text row) : row.headD false = true ↔ holds text := by
  cases text with
  | nil =>
      obtain ⟨b, rfl, hb⟩ := nil_iff.mp h
      exact hb
  | cons c text =>
      obtain ⟨b, row, rfl, hb, -⟩ := cons_iff.mp h
      exact hb

theorem empty (text : List Char) : Says (· = []) text (emptyRow text) := by
  induction text with
  | nil => exact nil_iff.mpr ⟨true, rfl, by simp⟩
  | cons c text ih => exact cons_iff.mpr ⟨false, _, rfl, by simp, ih⟩

/-- One more character in front of what the row is about. -/
theorem one (p : Char → Bool) (h : Says holds text row) :
    Says (fun suffix => ∃ c rest, suffix = c :: rest ∧ p c ∧ holds rest) text
      (oneRow p text row) := by
  induction text generalizing row with
  | nil =>
      obtain ⟨b, rfl, -⟩ := nil_iff.mp h
      exact nil_iff.mpr ⟨false, rfl, by simp⟩
  | cons c text ih =>
      obtain ⟨b, row, rfl, -, hrow⟩ := cons_iff.mp h
      refine cons_iff.mpr ⟨_, _, rfl, ?_, ih hrow⟩
      rw [Bool.and_eq_true, hrow.headD_iff]
      simp

/-- A run in front of what the row is about: it is empty, or its first character is in front of what
the row for the next suffix says with a run in front. -/
theorem run (h : Says holds text row) :
    Says (fun suffix => ∃ piece rest, suffix = piece ++ rest ∧ (∀ c ∈ piece, isOpen c) ∧ holds rest)
      text (runRow text row) := by
  induction text generalizing row with
  | nil =>
      obtain ⟨b, rfl, hb⟩ := nil_iff.mp h
      refine nil_iff.mpr ⟨b, rfl, hb.trans ⟨fun h => ⟨[], [], rfl, by simp, h⟩, ?_⟩⟩
      rintro ⟨piece, rest, heq, -, hholds⟩
      exact (List.append_eq_nil_iff.mp heq.symm).2 ▸ hholds
  | cons c text ih =>
      obtain ⟨b, row, rfl, hb, hrow⟩ := cons_iff.mp h
      have hlater := ih hrow
      refine cons_iff.mpr ⟨_, _, rfl, ?_, hlater⟩
      rw [Bool.or_eq_true, Bool.and_eq_true, hlater.headD_iff, hb]
      constructor
      · rintro (hholds | ⟨hc, piece, rest, rfl, hpiece, hholds⟩)
        · exact ⟨[], c :: text, rfl, by simp, hholds⟩
        · exact ⟨c :: piece, rest, rfl, List.forall_mem_cons.mpr ⟨hc, hpiece⟩, hholds⟩
      · rintro ⟨_ | ⟨d, piece⟩, rest, heq, hpiece, hholds⟩
        · exact .inl (heq ▸ hholds)
        · obtain ⟨rfl, rfl⟩ := List.cons.inj heq
          obtain ⟨hc, hpiece⟩ := List.forall_mem_cons.mp hpiece
          exact .inr ⟨hc, piece, rest, rfl, hpiece, hholds⟩

/-- **A part in front of a row** is a piece in front of every suffix. -/
theorem part (p : Part) (h : Says holds text row) :
    Says (fun suffix => ∃ piece rest, suffix = piece ++ rest ∧ p.Fits piece ∧ holds rest) text
      (p.row text row) := by
  cases p with
  | anyRun =>
      refine h.run.congr fun suffix => exists₂_congr fun piece rest => ?_
      exact and_congr_right fun _ => and_congr_left fun _ => ⟨.anyRun, fun | .anyRun h => h⟩
  | anyOne =>
      refine (h.one isOpen).congr fun suffix => ⟨?_, ?_⟩
      · rintro ⟨c, rest, rfl, hc, hholds⟩
        exact ⟨[c], rest, rfl, .anyOne hc, hholds⟩
      · rintro ⟨piece, rest, rfl, hpiece, hholds⟩
        cases hpiece with
        | anyOne hc => exact ⟨_, rest, rfl, hc, hholds⟩
  | letter a =>
      refine (h.one (Text.sameLetter a)).congr fun suffix => ⟨?_, ?_⟩
      · rintro ⟨c, rest, rfl, hc, hholds⟩
        exact ⟨[c], rest, rfl, .letter hc, hholds⟩
      · rintro ⟨piece, rest, rfl, hpiece, hholds⟩
        cases hpiece with
        | letter hc => exact ⟨_, rest, rfl, hc, hholds⟩

/-- The rows of the parts, from the last to the first, are about the texts that match them. -/
theorem foldr (ps : List Part) (text : List Char) :
    Says (Matches ps) text (ps.foldr (Part.row text) (emptyRow text)) := by
  induction ps with
  | nil => exact (Says.empty text).congr fun _ => matches_nil_iff.symm
  | cons p ps ih => exact (ih.part p).congr fun _ => matches_cons_iff.symm

end Says

/-- **Matching finds every cut.** -/
theorem matchParts_iff : matchParts ps text ↔ Matches ps text := (Says.foldr ps text).headD_iff

/-! ## Patterns -/

/-- What a character of a pattern stands for: any run, any one character, or itself in any case. -/
inductive StandsFor : Char → List Char → Prop
  | run (piece : List Char) : StandsFor '%' piece
  | one (c : Char) : StandsFor '_' [c]
  | letter {a c : Char} (hpercent : a ≠ '%') (hunderscore : a ≠ '_')
      (h : Text.fold a = Text.fold c) : StandsFor a [c]

/-- The text can be cut into one piece for every character of the pattern, of which that character
stands for each. -/
def Describes (pattern text : String) : Prop :=
  ∃ pieces : List (List Char), text.toList = pieces.flatten ∧
    List.Forall₂ StandsFor pattern.toList pieces

theorem fits_ofChar_iff {a : Char} {piece : List Char} (hpiece : '\n' ∉ piece) :
    (Part.ofChar a).Fits piece ↔ StandsFor a piece := by
  have hopen : ∀ c ∈ piece, isOpen c := fun c hc => by
    simpa [isOpen] using fun heq : c = '\n' => hpiece (heq ▸ hc)
  rw [Part.ofChar]
  split
  · rename_i hpercent
    subst hpercent
    exact ⟨fun _ => .run piece, fun _ => .anyRun hopen⟩
  · rename_i hpercent
    split
    · rename_i hunderscore
      subst hunderscore
      constructor
      · intro h
        cases h with
        | anyOne hc => exact .one _
      · intro h
        cases h with
        | one c => exact .anyOne (hopen c (List.mem_singleton_self c))
        | letter _ hunderscore _ => exact absurd rfl hunderscore
    · rename_i hunderscore
      constructor
      · intro h
        cases h with
        | letter hsame =>
            exact .letter hpercent hunderscore (by simpa [Text.sameLetter] using hsame)
      · intro h
        cases h with
        | run piece => exact absurd rfl hpercent
        | one c => exact absurd rfl hunderscore
        | letter _ _ hsame => exact .letter (by simpa [Text.sameLetter] using hsame)

theorem forall₂_fits_iff {as : List Char} {pieces : List (List Char)} (h : '\n' ∉ pieces.flatten) :
    List.Forall₂ (fun a piece => (Part.ofChar a).Fits piece) as pieces ↔
      List.Forall₂ StandsFor as pieces := by
  induction pieces generalizing as with
  | nil => simp
  | cons piece pieces ih =>
      rw [List.flatten_cons, List.mem_append, not_or] at h
      cases as with
      | nil => simp
      | cons a as => rw [List.forall₂_cons, List.forall₂_cons, fits_ofChar_iff h.1, ih h.2]

/-- **In a text without line feeds** wildcards stand for anything. -/
theorem matches_iff_describes {pattern text : String} (h : '\n' ∉ text.toList) :
    Like.matches pattern text ↔ Describes pattern text := by
  rw [Like.matches, matchParts_iff]
  refine exists_congr fun pieces => and_congr_right fun htext => ?_
  rw [parts, List.forall₂_map_left_iff]
  exact forall₂_fits_iff (htext ▸ h)

end RoutineBridge.Like
