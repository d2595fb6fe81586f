import RoutineBridge.Proofs.LikeMatching

/-!
# LIKE patterns as regular expressions

A pattern can be written as a regular expression between the two ends of the text
(`Like.expression`). An expression is found in a text if it spans a piece of it
(`Regex.Found`); the ends of the text are what keeps it from being found somewhere inside. Of an
engine it is only asked that it finds what can be found, regardless of case
(`Regex.Engine.Standard`), so any such engine may stand behind LIKE
(`Regex.Engine.Standard.compile_expression`).
-/

namespace RoutineBridge

/-- What a regular expression is made of, as far as patterns need it. -/
inductive Regex.Atom where
  | start
  | finish
  | any
  | anyRun
  | literal (c : Char)
deriving DecidableEq, Repr

namespace Regex

open Like (isOpen)

/-- The atoms span `piece` in a text that has `before` in front of it and `after` behind it. -/
inductive Spans : List Atom → (before piece after : List Char) → Prop
  | nil (before after : List Char) : Spans [] before [] after
  | start {atoms : List Atom} {piece after : List Char} (h : Spans atoms [] piece after) :
      Spans (.start :: atoms) [] piece after
  | finish {atoms : List Atom} {before : List Char} (h : Spans atoms before [] []) :
      Spans (.finish :: atoms) before [] []
  | any {atoms : List Atom} {before piece after : List Char} {c : Char} (hc : isOpen c)
      (h : Spans atoms (before ++ [c]) piece after) : Spans (.any :: atoms) before (c :: piece) after
  | anyRun {atoms : List Atom} {before run piece after : List Char} (hrun : ∀ c ∈ run, isOpen c)
      (h : Spans atoms (before ++ run) piece after) :
      Spans (.anyRun :: atoms) before (run ++ piece) after
  | literal {atoms : List Atom} {before piece after : List Char} {a c : Char}
      (hc : Text.sameLetter a c) (h : Spans atoms (before ++ [c]) piece after) :
      Spans (.literal a :: atoms) before (c :: piece) after

/-- The atoms span some piece of the text. -/
def Found (atoms : List Atom) (text : List Char) : Prop :=
  ∃ before piece after, text = before ++ (piece ++ after) ∧ Spans atoms before piece after

/-- An engine for regular expressions: how it has a character written that stands for itself, and
what it makes of an expression, if it takes it. -/
structure Engine where
  escape : Char → List Char
  compile : List Char → Option (List Char → Bool)

namespace Engine

variable (e : Engine)

/-- How an atom is written. -/
def source : Atom → List Char
  | .start => ['^']
  | .finish => ['$']
  | .any => ['.']
  | .anyRun => ['.', '*']
  | .literal c => e.escape c

/-- How atoms are written that are found regardless of case. -/
def caseless (atoms : List Atom) : List Char := ['(', '?', 'i', ')'] ++ atoms.flatMap e.source

/-- What the engine takes, it finds wherever it can be found. -/
def Standard : Prop :=
  ∀ atoms run, e.compile (e.caseless atoms) = some run → ∀ text, run text ↔ Found atoms text

end Engine

end Regex

namespace Like

open Regex (Spans Found Engine)

/-- The regular expression of a pattern, from the start of the text to its end. -/
def expression (e : Engine) (pattern : String) : List Char :=
  ['(', '?', 'i', ')', '^'] ++ pattern.toList.flatMap (fun c =>
    if c = '%' then ['.', '*'] else if c = '_' then ['.'] else e.escape c) ++ ['$']

/-- The atom of a part. -/
def Part.atom : Part → Regex.Atom
  | anyRun => .anyRun
  | anyOne => .any
  | letter c => .literal c

/-- The atoms of a pattern between the ends of the text. -/
def atoms (ps : List Part) : List Regex.Atom := .start :: (ps.map Part.atom ++ [.finish])

/-- A pattern is written as the atoms of its parts. -/
theorem expression_eq (e : Engine) (pattern : String) :
    expression e pattern = e.caseless (atoms (parts pattern)) := by
  have hparts : pattern.toList.flatMap (fun c =>
      if c = '%' then ['.', '*'] else if c = '_' then ['.'] else e.escape c) =
      ((parts pattern).map Part.atom).flatMap e.source := by
    rw [parts, List.flatMap_map, List.flatMap_map]
    refine List.flatMap_congr fun c _ => ?_
    rw [Part.ofChar]
    split
    · rfl
    · split <;> rfl
  rw [expression, hparts, Engine.caseless, atoms, List.flatMap_cons, List.flatMap_append]
  rfl

/-- Up to the end of the text, the parts span what matches them. -/
theorem spans_finish_iff {ps : List Part} {before piece after : List Char} :
    Spans (ps.map Part.atom ++ [.finish]) before piece after ↔ after = [] ∧ Matches ps piece := by
  induction ps generalizing before piece with
  | nil =>
      rw [matches_nil_iff]
      constructor
      · intro h
        cases h with
        | finish _ => exact ⟨rfl, rfl⟩
      · rintro ⟨rfl, rfl⟩
        exact .finish (.nil before [])
  | cons p ps ih =>
      rw [matches_cons_iff]
      constructor
      · cases p with
        | anyRun =>
            intro h
            cases h with
            | anyRun hrun h =>
                obtain ⟨rfl, hmatches⟩ := ih.mp h
                exact ⟨rfl, _, _, rfl, .anyRun hrun, hmatches⟩
        | anyOne =>
            intro h
            cases h with
            | any hc h =>
                obtain ⟨rfl, hmatches⟩ := ih.mp h
                exact ⟨rfl, [_], _, rfl, .anyOne hc, hmatches⟩
        | letter a =>
            intro h
            cases h with
            | literal hc h =>
                obtain ⟨rfl, hmatches⟩ := ih.mp h
                exact ⟨rfl, [_], _, rfl, .letter hc, hmatches⟩
      · rintro ⟨rfl, piece, rest, rfl, hpiece, hmatches⟩
        cases hpiece with
        | anyRun hrun => exact .anyRun hrun (ih.mpr ⟨rfl, hmatches⟩)
        | anyOne hc => exact .any hc (ih.mpr ⟨rfl, hmatches⟩)
        | letter hc => exact .literal hc (ih.mpr ⟨rfl, hmatches⟩)

/-- **Between the ends of a text** the parts of a pattern are found if the text matches them. -/
theorem found_atoms_iff {ps : List Part} {text : List Char} :
    Found (atoms ps) text ↔ Matches ps text := by
  constructor
  · rintro ⟨before, piece, after, rfl, hspans⟩
    cases hspans with
    | start h =>
        obtain ⟨rfl, hmatches⟩ := spans_finish_iff.mp h
        simpa using hmatches
  · intro hmatches
    exact ⟨[], text, [], by simp, .start (spans_finish_iff.mpr ⟨rfl, hmatches⟩)⟩

end Like

/-- **A standard engine decides LIKE**, if it takes the expression of the pattern. -/
theorem Regex.Engine.Standard.compile_expression {e : Engine} (he : e.Standard) {pattern : String}
    {run : List Char → Bool} (hrun : e.compile (Like.expression e pattern) = some run)
    (text : String) : run text.toList = Like.matches pattern text := by
  rw [Like.expression_eq] at hrun
  rw [Bool.eq_iff_iff, he _ run hrun, Like.found_atoms_iff, Like.matches, Like.matchParts_iff]

end RoutineBridge
