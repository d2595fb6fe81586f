import RoutineBridge.Proofs.Verdicts

/-!
# A rename changes nothing but an exposed name

Directives find routines by their catalog names, and a rename does not change those. So two lists of
routines that differ in exposed names only (`Alike`) are the same to every directive but a rename:
it is refused on both for the same reason or takes effect on both at the same routine, and leaves
lists that again differ in exposed names only (`alike_routinesAfter`). The run with all renames and
the run without them stay alike to the end (`applyAll_renames`).
-/

namespace RoutineBridge

namespace Routine

/-- The routine under its catalog name. -/
def Body.unrenamed (b : Body) : Body := { b with exposedAs := none }

def StandIn.unrenamed (s : StandIn) : StandIn := { s with body := s.body.unrenamed }

/-- The routine, and everything that stands in for it, under their catalog names. -/
def unrenamed (r : Routine) : Routine where
  toBody := r.toBody.unrenamed
  standIns := r.standIns.map StandIn.unrenamed

@[simp]
theorem catalogKey_unrenamed (r : Routine) : r.unrenamed.catalogKey = r.catalogKey := rfl

theorem unrenamed_replaceBy (r replacement : Routine) (json : Bool) :
    (r.replaceBy replacement json).unrenamed = r.unrenamed.replaceBy replacement.unrenamed json :=
  rfl

theorem unrenamed_addHandler (handler : String) (r : Routine) :
    (Effects.addHandler handler r).unrenamed = Effects.addHandler handler r.unrenamed := by
  have hhandlers : r.unrenamed.handlers = r.handlers := rfl
  unfold Effects.addHandler
  rw [hhandlers]
  split
  · rfl
  · rfl

theorem unrenamed_raiseCap (size : Nat) (r : Routine) :
    (Effects.raiseCap size r).unrenamed = Effects.raiseCap size r.unrenamed := rfl

end Routine

namespace Effects

open Routine (unrenamed)

variable {key : String} {d : Directive} {ds : List Directive} {rs rs' : List Routine}

/-! ## Edits that do not look at exposed names -/

theorem change_unrenamed {f f' : Routine → Routine} (h : ∀ r, f' r.unrenamed = (f r).unrenamed) :
    change key f' (rs.map unrenamed) = (change key f rs).map (·.map unrenamed) := by
  induction rs with
  | nil => rfl
  | cons r rs ih =>
      rw [List.map_cons, change, change, Routine.catalogKey_unrenamed]
      split
      · rw [h]
        rfl
      · rw [ih, Option.map_map, Option.map_map]
        rfl

theorem takeOut_unrenamed : takeOut key (rs.map unrenamed) =
    (takeOut key rs).map fun found => (found.1.unrenamed, found.2.map unrenamed) := by
  induction rs with
  | nil => rfl
  | cons r rs ih =>
      rw [List.map_cons, takeOut, takeOut, Routine.catalogKey_unrenamed]
      split
      · rfl
      · rw [ih, Option.map_map, Option.map_map]
        rfl

theorem isKnown_unrenamed : isKnown key (rs.map unrenamed) = isKnown key rs := by
  rw [isKnown, isKnown, List.any_map]
  rfl

/-- How an edit ends and what it leaves, up to exposed names. -/
def catalogView (result : Except Refusal Unit × List Routine) :
    Except Refusal Unit × List Routine :=
  (result.1, result.2.map unrenamed)

theorem outcome_changeRoutine_unrenamed {f f' : Routine → Routine}
    (h : ∀ r, f' r.unrenamed = (f r).unrenamed) :
    (changeRoutine key f').outcome (rs.map unrenamed) =
      catalogView ((changeRoutine key f).outcome rs) := by
  rw [outcome_changeRoutine, outcome_changeRoutine, change_unrenamed h]
  cases change key f rs with
  | none => rfl
  | some rs' => rfl

theorem outcome_replace_unrenamed (target other : String) (json : Bool) :
    (replace target other json).outcome (rs.map unrenamed) =
      catalogView ((replace target other json).outcome rs) := by
  rw [outcome_replace, outcome_replace, isKnown_unrenamed, takeOut_unrenamed]
  split
  · rfl
  split
  · rfl
  cases takeOut other rs with
  | none => rfl
  | some found =>
      exact outcome_changeRoutine_unrenamed fun r =>
        (Routine.unrenamed_replaceBy r found.1 json).symm

/-- **Only a rename looks at exposed names.** -/
theorem outcome_unrenamed (h : d.verb ≠ .rename) :
    (perform d).outcome (rs.map unrenamed) = catalogView ((perform d).outcome rs) := by
  unfold perform
  split
  · rw [outcome_takeRoutine_bind, outcome_takeRoutine_bind, takeOut_unrenamed]
    cases takeOut d.targetKey rs with
    | none => rfl
    | some found => rfl
  · rename_i verb
    exact absurd verb h
  · split
    · rfl
    · exact outcome_replace_unrenamed _ _ _
  · split
    · rfl
    · exact outcome_replace_unrenamed _ _ _
  · dsimp only
    rw [outcome_modify, outcome_modify, catalogView, List.map_map, List.map_map]
    refine congrArg (Prod.mk _) (List.map_congr_left fun r _ => ?_)
    rw [Function.comp_apply, Function.comp_apply]
    have hpackage : r.unrenamed.package = r.package := rfl
    rw [hpackage]
    split
    · exact (Routine.unrenamed_addHandler _ r).symm
    · rfl
  · split
    · rfl
    · exact outcome_changeRoutine_unrenamed fun r => (Routine.unrenamed_raiseCap _ r).symm

/-! ## Two runs side by side -/

/-- The routines are the same, up to the names they are exposed under. -/
def Alike (rs rs' : List Routine) : Prop := rs.map unrenamed = rs'.map unrenamed

theorem verdict_unrenamed (h : d.verb ≠ .rename) :
    verdict d (rs.map unrenamed) = verdict d rs := by
  rw [verdict, verdict, outcome_unrenamed h, catalogView]

theorem routinesAfter_unrenamed (h : d.verb ≠ .rename) :
    routinesAfter d (rs.map unrenamed) = (routinesAfter d rs).map unrenamed := by
  rw [routinesAfter, routinesAfter, outcome_unrenamed h, catalogView]

/-- **What has been renamed makes no difference** to a directive that is not a rename. -/
theorem alike_routinesAfter (h : d.verb ≠ .rename) (halike : Alike rs rs') :
    verdict d rs = verdict d rs' ∧ Alike (routinesAfter d rs) (routinesAfter d rs') := by
  constructor
  · rw [← verdict_unrenamed h, halike, verdict_unrenamed h]
  · rw [Alike, ← routinesAfter_unrenamed h, halike, routinesAfter_unrenamed h]

/-- A rename gives a routine another name and does nothing else. -/
theorem alike_of_rename (h : d.verb = .rename) (rs : List Routine) :
    Alike (routinesAfter d rs) rs := by
  rcases perform_cases d rs with ⟨rs', hperform, heffect⟩ | ⟨refusal, hperform⟩
  · rw [routinesAfter, hperform]
    cases heffect with
    | rename verb exposed target free => rw [Alike, List.map_append, List.map_append]; rfl
    | hide verb target => cases h.symm.trans verb
    | replace verb target other taken =>
        rcases verb with verb | verb
        · cases h.symm.trans verb
        · cases h.symm.trans verb
    | handle verb => cases h.symm.trans verb
    | cap verb target asked => cases h.symm.trans verb
  · rw [routinesAfter, hperform]
    rfl

/-- The directives that are not renames. -/
def withoutRenames (ds : List Directive) : List Directive := ds.filter (·.verb != .rename)

theorem alike_applyEach (ds : List Directive) (h : Alike rs rs') :
    (verdicts ds rs).filter (·.1.verb != .rename) = verdicts (withoutRenames ds) rs' ∧
      Alike (applyEach ds rs).1 (applyEach (withoutRenames ds) rs').1 := by
  simp only [applyEach_fst]
  induction ds generalizing rs rs' with
  | nil => exact ⟨rfl, h⟩
  | cons d ds ih =>
      rw [verdicts, List.foldl_cons, withoutRenames, List.filter_cons, List.filter_cons]
      by_cases hverb : d.verb = .rename
      · have hskip : ¬ (d.verb != .rename) := by simpa using hverb
        rw [if_neg hskip, if_neg hskip]
        exact ih ((alike_of_rename hverb rs).trans h)
      · have hkeep : d.verb != .rename := by simpa using hverb
        obtain ⟨hverdict, halike⟩ := alike_routinesAfter hverb h
        obtain ⟨hverdicts, hrest⟩ := ih halike
        rw [if_pos hkeep, if_pos hkeep, verdicts, List.foldl_cons, hverdicts, hverdict]
        exact ⟨rfl, hrest⟩

/-- **Renames change nothing but exposed names.** Leaving them out leaves the same routines in the
same order, up to exposed names, and the same refusals of all other directives, for the same
reasons. At every point every other directive is about the same routines, whatever was renamed
before. -/
theorem applyAll_renames :
    (∀ (ds : List Directive) (rs : List Routine),
      Alike (applyAll ds rs).1 (applyAll (withoutRenames ds) rs).1 ∧
      (applyAll ds rs).2 = warningsOf (verdicts (inOrder ds) rs) ∧
      (applyAll (withoutRenames ds) rs).2 =
        warningsOf ((verdicts (inOrder ds) rs).filter (·.1.verb != .rename))) ∧
    ∀ (d : Directive) (rs rs' : List Routine), d.verb ≠ .rename → Alike rs rs' →
      verdict d rs = verdict d rs' ∧ Alike (routinesAfter d rs) (routinesAfter d rs') := by
  refine ⟨fun ds rs => ?_, fun d rs rs' hverb halike => alike_routinesAfter hverb halike⟩
  obtain ⟨hverdicts, halike⟩ := alike_applyEach (inOrder ds) (rfl : Alike rs rs)
  have horder : withoutRenames (inOrder ds) = inOrder (withoutRenames ds) := filter_inOrder _ _
  rw [horder] at hverdicts halike
  refine ⟨halike, applyEach_snd _ _, ?_⟩
  rw [hverdicts]
  exact applyEach_snd _ _

/-- One of the routines is exposed under another name, and so is what stands in for it. -/
def sampleExposed : List Routine :=
  [{ Routine.named "APP" "PKG" "A" with
      exposedAs := some "X"
      standIns := [⟨{ (Routine.named "APP" "PKG" "B").toBody with exposedAs := some "Y" }, true⟩] },
    Routine.named "APP" "PKG" "C"]

/-- The second rename takes the name that the first one gave up, and no directive but a rename knows
the new names. -/
def sampleMixed : List Directive :=
  [⟨"PKG", .rename, "A", some "Z", none, none⟩, ⟨"PKG", .rename, "C", some "X", none, none⟩,
    ⟨"PKG", .maxTableSize, "X", none, some 5, none⟩, ⟨"PKG", .replace, "A", some "C", none, none⟩]

theorem applyAll_renames_sample :
    Alike (applyAll sampleMixed sampleExposed).1
      (applyAll (withoutRenames sampleMixed) sampleExposed).1 ∧
    (applyAll sampleMixed sampleExposed).1.map (·.exposedName) = ["Z"] ∧
    (applyAll (withoutRenames sampleMixed) sampleExposed).1.map (·.exposedName) = ["X"] ∧
    (applyAll (withoutRenames sampleMixed) sampleExposed).2 =
      ["PKG.max-table-size X=5: no such function"] ∧
    verdict ⟨"PKG", .hide, "X", none, none, none⟩ sampleExposed =
      verdict ⟨"PKG", .hide, "X", none, none, none⟩ (sampleExposed.map Routine.unrenamed) := by
  obtain ⟨halike, -, hwarnings⟩ := applyAll_renames.1 sampleMixed sampleExposed
  refine ⟨halike, by decide +kernel, by decide +kernel, ?_, ?_⟩
  · rw [hwarnings]
    decide +kernel
  · exact (applyAll_renames.2 _ sampleExposed (sampleExposed.map Routine.unrenamed) (by decide)
      rfl).1

end Effects

end RoutineBridge
