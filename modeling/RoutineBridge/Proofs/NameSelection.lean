import Mathlib.Data.List.TakeWhile
import RoutineBridge.CommandLine.Selection
import RoutineBridge.Proofs.ReferenceEngine

/-!
# Which names are selected

A name is selected if no exclusion names it and the pattern, if there is one, describes the whole of
it (`Selection.Selects`). A filter may leave the pattern to an engine for regular expressions
(`Selection.filter?`); what it lets through is what the selection keeps
(`Selection.filter?_eq_keeps`). Main statement: of the names without line feeds, selection and
filter let exactly those through that are selected (`Selection.keeps_exact`).
-/

namespace RoutineBridge.Selection

/-- The part stands behind the last dot of the name. -/
def IsBehindLastDot (part name : String) : Prop :=
  '.' ∉ part.toList ∧ ∃ before, name = before ++ "." ++ part

/-- The exclusion is the name or what stands behind its last dot, up to the case of ASCII letters
and the blanks around it. A blank exclusion is none. -/
def Excludes (exclusion name : String) : Prop :=
  let word := Text.asciiLower (Text.trimmed exclusion)
  word ≠ "" ∧ (word = Text.asciiLower name ∨ IsBehindLastDot word (Text.asciiLower name))

/-- No exclusion names the object and the pattern describes its name. -/
def Selects (pattern : Option String) (except : List String) (name : String) : Prop :=
  (∀ x ∈ except, ¬ Excludes x name) ∧ ∀ p ∈ pattern, Like.Describes p name

/-- A name is let through if it is not excluded, nor what stands behind its last dot, and the run
of the pattern takes it, if there is one. -/
def lets (like : Option (List Char → Bool)) (excluded : List String) (name : String) : Bool :=
  let lower := Text.asciiLower name
  let object := lastPart lower
  if excluded.any fun x => x == lower || x == object then false
  else like.all (· name.toList)

/-- The filter that has its pattern matched by an engine. There is none if nothing is asked for, and
none can be made if the engine does not take the expression of the pattern. -/
def filter? (e : Regex.Engine) (pattern : Option String) (except : List String) :
    Option (Option (String → Bool)) :=
  (pattern.mapM fun p => e.compile (Like.expression e p)).map fun like =>
    let excluded := exclusions except
    if like.isNone && excluded.isEmpty then none else some (lets like excluded)

/-! ## Exclusions -/

theorem takeWhile_ne_eq_iff {c : Char} {cs front : List Char} :
    cs.takeWhile (· != c) = front ↔ c ∉ front ∧ (cs = front ∨ ∃ back, cs = front ++ c :: back) := by
  constructor
  · rintro rfl
    refine ⟨fun hmem => by simpa using List.mem_takeWhile_imp hmem, ?_⟩
    have hsplit := List.takeWhile_append_dropWhile (p := (· != c)) (l := cs)
    have hstop := List.head?_dropWhile_not (· != c) cs
    cases hback : cs.dropWhile (· != c) with
    | nil =>
        rw [hback, List.append_nil] at hsplit
        exact .inl hsplit.symm
    | cons d back =>
        rw [hback] at hsplit hstop
        obtain rfl : d = c := by simpa using hstop
        exact .inr ⟨back, hsplit.symm⟩
  · rintro ⟨hfront, hcs⟩
    have hall : ∀ d ∈ front, d != c := fun d hd => bne_iff_ne.mpr (ne_of_mem_of_not_mem hd hfront)
    obtain rfl | ⟨back, rfl⟩ := hcs
    · exact List.takeWhile_eq_self_iff.mpr hall
    · rw [List.takeWhile_append_of_pos hall, List.takeWhile_cons_of_neg (by simp), List.append_nil]

theorem eq_lastPart_iff {part name : String} :
    part = lastPart name ↔ '.' ∉ part.toList ∧ part = name ∨ IsBehindLastDot part name := by
  rw [lastPart, ← String.toList_inj, String.toList_ofList, ← List.reverse_eq_iff, eq_comm,
    takeWhile_ne_eq_iff, List.mem_reverse, IsBehindLastDot, ← and_or_left]
  refine and_congr_right fun _ => or_congr ?_ ?_
  · rw [List.reverse_inj, String.toList_inj, eq_comm]
  · constructor
    · rintro ⟨back, hname⟩
      refine ⟨String.ofList back.reverse, ?_⟩
      rw [← String.toList_inj, ← List.reverse_inj, hname]
      simp
    · rintro ⟨before, rfl⟩
      exact ⟨before.toList.reverse, by simp⟩

theorem mem_exclusions {names : List String} {word : String} :
    word ∈ exclusions names ↔
      word ≠ "" ∧ ∃ x ∈ names, word = Text.asciiLower (Text.trimmed x) := by
  rw [exclusions, List.mem_filter, List.mem_map]
  simp only [Bool.not_eq_true', String.isEmpty_eq_false_iff, and_comm, eq_comm (a := word)]

/-- **What is left out** is what an exclusion names. -/
theorem excluded_iff {except : List String} {name : String} :
    Text.asciiLower name ∈ exclusions except ∨ lastPart (Text.asciiLower name) ∈ exclusions except ↔
      ∃ x ∈ except, Excludes x name := by
  have hword : ∀ word, word = Text.asciiLower name ∨ word = lastPart (Text.asciiLower name) ↔
      word = Text.asciiLower name ∨ IsBehindLastDot word (Text.asciiLower name) := by
    intro word
    rw [eq_lastPart_iff]
    tauto
  simp only [Excludes, ← hword, mem_exclusions]
  grind

/-! ## Selections -/

theorem keeps_iff {pattern : Option String} {except : List String} {name : String} :
    (ofNames pattern except).keeps name ↔
      (∀ x ∈ except, ¬ Excludes x name) ∧ ∀ p ∈ pattern, Like.matches p name := by
  rw [keeps, ofNames, Bool.and_eq_true, Bool.not_eq_true', ← Bool.not_eq_true, Bool.or_eq_true,
    List.contains_iff_mem, List.contains_iff_mem, excluded_iff, Option.all_eq_true]
  simp only [not_exists, not_and, Option.mem_def]

theorem lets_iff {like : Option (List Char → Bool)} {excluded : List String} {name : String} :
    lets like excluded name ↔
      ¬ (Text.asciiLower name ∈ excluded ∨ lastPart (Text.asciiLower name) ∈ excluded) ∧
        like.all (· name.toList) := by
  have hany : (excluded.any fun x => x == Text.asciiLower name ||
      x == lastPart (Text.asciiLower name)) ↔
      Text.asciiLower name ∈ excluded ∨ lastPart (Text.asciiLower name) ∈ excluded := by
    simp [and_or_left, exists_or]
  rw [← hany, lets]
  simp

/-- **A filter lets through what the selection keeps.** -/
theorem filter?_eq_keeps {e : Regex.Engine} (he : e.Standard) {pattern : Option String}
    {except : List String} {filter : Option (String → Bool)}
    (hfilter : filter? e pattern except = some filter) (name : String) :
    filter.all (· name) = (ofNames pattern except).keeps name := by
  obtain ⟨like, hlike, rfl⟩ := Option.map_eq_some_iff.mp hfilter
  have hmatch : like.all (· name.toList) = pattern.all (Like.matches · name) := by
    cases pattern with
    | none =>
        cases hlike
        rfl
    | some p =>
        obtain ⟨run, hrun, rfl⟩ := Option.map_eq_some_iff.mp hlike
        exact he.compile_expression hrun name
  have hlets : lets like (exclusions except) name = (ofNames pattern except).keeps name := by
    rw [Bool.eq_iff_iff, lets_iff, hmatch, excluded_iff, keeps_iff, Option.all_eq_true]
    simp only [not_exists, not_and, Option.mem_def]
  dsimp only
  split
  · -- nothing is asked for, so everything is let through
    rename_i hnothing
    obtain ⟨hnone, hempty⟩ := Bool.and_eq_true_iff.mp hnothing
    rw [← hlets, Option.isNone_iff_eq_none.mp hnone, List.isEmpty_iff.mp hempty]
    rfl
  · exact hlets

theorem filter?_eq_none_iff {e : Regex.Engine} {pattern : Option String} {except : List String} :
    filter? e pattern except = none ↔ ∃ p ∈ pattern, e.compile (Like.expression e p) = none := by
  rw [filter?, Option.map_eq_none_iff]
  cases pattern with
  | none => simp
  | some p => simp

/-- **Names are selected by LIKE and exclusions.** Of the names without line feeds, the selection
keeps those that no exclusion names and that the pattern describes, and so does the filter that has
a standard engine match the pattern. Such a filter can be made unless the engine does not take the
expression of the pattern. -/
theorem keeps_exact {e : Regex.Engine} (he : e.Standard) (pattern : Option String)
    (except : List String) {name : String} (hname : '\n' ∉ name.toList) :
    ((ofNames pattern except).keeps name ↔ Selects pattern except name) ∧
      (∀ filter, filter? e pattern except = some filter →
        (filter.all (· name) ↔ Selects pattern except name)) ∧
      (filter? e pattern except = none →
        ∃ p ∈ pattern, e.compile (Like.expression e p) = none) := by
  have hkeeps : (ofNames pattern except).keeps name ↔ Selects pattern except name :=
    keeps_iff.trans <| and_congr_right fun _ =>
      forall₂_congr fun p _ => Like.matches_iff_describes hname
  refine ⟨hkeeps, fun filter hfilter => ?_, filter?_eq_none_iff.mp⟩
  rw [filter?_eq_keeps he hfilter, hkeeps]

theorem keeps_exact_sample :
    Regex.Engine.reference.Standard ∧ '\n' ∉ "DB1.G+T_USER".toList ∧ '\n' ∉ "DB1.LEGACY".toList ∧
      Selects (some "db_.g+%") [" ", "\tLegacy "] "DB1.G+T_USER" ∧
      ¬ Selects (some "db_.%") [" ", "\tLegacy "] "DB1.LEGACY" ∧
      ∃ filter, filter? Regex.Engine.reference (some "db_.g+%") [" ", "\tLegacy "] = some filter ∧
        filter.all (· "DB1.G+T_USER") := by
  have he := Regex.Engine.reference_standard
  have hkept : '\n' ∉ "DB1.G+T_USER".toList := by decide
  have hleft : '\n' ∉ "DB1.LEGACY".toList := by decide
  obtain ⟨hkeeps, hfilters, hrefused⟩ :=
    keeps_exact he (some "db_.g+%") [" ", "\tLegacy "] hkept
  have hselects := hkeeps.mp (by decide +kernel)
  refine ⟨he, hkept, hleft, hselects, fun h => ?_, ?_⟩
  · exact absurd ((keeps_exact he _ _ hleft).1.mpr h) (by decide +kernel)
  · have hbuilt : filter? Regex.Engine.reference (some "db_.g+%") [" ", "\tLegacy "] ≠ none := by
      intro hnone
      obtain ⟨p, -, hcompile⟩ := hrefused hnone
      rw [Like.expression_eq, Regex.Engine.compile_reference] at hcompile
      cases hcompile
    obtain ⟨filter, hfilter⟩ := Option.ne_none_iff_exists'.mp hbuilt
    exact ⟨filter, hfilter, (hfilters filter hfilter).mpr hselects⟩

end RoutineBridge.Selection
