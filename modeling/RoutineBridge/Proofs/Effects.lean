import Mathlib.Data.List.Perm.Basic
import RoutineBridge.Assembly.Effects

/-!
# What directives do to routines

A directive that takes effect does one of five things (`Effect`), and a directive that is refused
does nothing (`perform_cases`). What every effect keeps, all directives together keep
(`applyEach_induction`). No effect touches what the catalog says about a routine: every routine that
is left is one that was there, with the same name and the same parameters
(`exists_origin_of_mem_applyEach`).
-/

namespace RoutineBridge

/-- What the catalog says about a routine. -/
structure Routine.Origin where
  owner : String
  package : String
  name : String
  arguments : List Argument
  returns : Option Attribute
deriving DecidableEq

namespace Routine

def Body.origin (b : Body) : Origin := ⟨b.owner, b.package, b.name, b.arguments, b.returns⟩

/-- The key of the catalog object. -/
def Origin.catalogKey (o : Origin) : String := qualify o.package o.name

@[simp]
theorem origin_replaceBy (r replacement : Routine) (json : Bool) :
    (r.replaceBy replacement json).toBody.origin = r.toBody.origin := rfl

theorem catalogKey_eq_of_origin {r s : Routine} (h : r.toBody.origin = s.toBody.origin) :
    r.catalogKey = s.catalogKey :=
  congrArg Origin.catalogKey h

theorem dataTypes_eq_of_origin {r s : Routine} (h : r.toBody.origin = s.toBody.origin) :
    r.dataTypes = s.dataTypes := by
  have harguments : r.arguments = s.arguments := congrArg Origin.arguments h
  have hreturns : r.returns = s.returns := congrArg Origin.returns h
  rw [dataTypes, dataTypes, harguments, hreturns]

end Routine

/-- The directive puts one routine in place of another. -/
def Directive.Replaces (d : Directive) : Prop := d.verb = .replace ∨ d.verb = .replaceJson

namespace Effects

variable {key : String} {rs rs' : List Routine} {r taken : Routine} {d : Directive}

/-- One routine changes, and it has the catalog name. -/
theorem change_eq_some {f : Routine → Routine} (h : change key f rs = some rs') :
    ∃ before s after, rs = before ++ s :: after ∧ rs' = before ++ f s :: after ∧
      s.catalogKey = key := by
  induction rs generalizing rs' with
  | nil => cases h
  | cons s ss ih =>
      rw [change] at h
      split at h
      · rename_i hkey
        obtain rfl := Option.some.inj h
        exact ⟨[], s, ss, rfl, rfl, hkey⟩
      · obtain ⟨ss', hss, rfl⟩ := Option.map_eq_some_iff.mp h
        obtain ⟨before, s', after, rfl, rfl, hkey⟩ := ih hss
        exact ⟨s :: before, s', after, rfl, rfl, hkey⟩

/-- One routine goes, and it has the catalog name. -/
theorem takeOut_eq_some (h : takeOut key rs = some (taken, rs')) :
    ∃ before after, rs = before ++ taken :: after ∧ rs' = before ++ after ∧
      taken.catalogKey = key := by
  induction rs generalizing rs' with
  | nil => cases h
  | cons s ss ih =>
      rw [takeOut] at h
      split at h
      · rename_i hkey
        obtain ⟨rfl, rfl⟩ := Prod.mk.inj (Option.some.inj h)
        exact ⟨[], ss, rfl, rfl, hkey⟩
      · obtain ⟨⟨taken', rest⟩, hss, heq⟩ := Option.map_eq_some_iff.mp h
        obtain ⟨rfl, rfl⟩ := Prod.mk.inj heq
        obtain ⟨before, after, rfl, rfl, hkey⟩ := ih hss
        exact ⟨s :: before, after, rfl, rfl, hkey⟩

/-- What a directive that takes effect does to the routines. -/
inductive Effect (d : Directive) : List Routine → List Routine → Prop
  | hide {before after : List Routine} {r : Routine} (verb : d.verb = .hide)
      (target : r.catalogKey = d.targetKey) :
      Effect d (before ++ r :: after) (before ++ after)
  | rename {before after : List Routine} {r : Routine} {name : String} (verb : d.verb = .rename)
      (exposed : d.other = some name) (target : r.catalogKey = d.targetKey)
      (free : ∀ s ∈ before ++ r :: after, s.qualifiedName ≠ qualify d.package name) :
      Effect d (before ++ r :: after) (before ++ { r with exposedAs := some name } :: after)
  | replace {rs before after : List Routine} {r replacement : Routine} (verb : d.Replaces)
      (target : r.catalogKey = d.targetKey) (other : d.otherKey? = some replacement.catalogKey)
      (taken : rs.Perm (replacement :: (before ++ r :: after))) :
      Effect d rs (before ++ r.replaceBy replacement (d.verb == .replaceJson) :: after)
  | handle {rs : List Routine} (verb : d.verb = .handle) :
      Effect d rs <| rs.map fun r =>
        if Text.sameIgnoringCase r.package d.package then addHandler (Text.asciiUpper d.name) r else r
  | cap {before after : List Routine} {r : Routine} {size : Nat} (verb : d.verb = .maxTableSize)
      (target : r.catalogKey = d.targetKey) (asked : d.size = some size) :
      Effect d (before ++ r :: after) (before ++ raiseCap size r :: after)

/-! ## Carrying a directive out -/

theorem outcome_get_bind {α : Type} (f : List Routine → Edit α) (rs : List Routine) :
    Edit.outcome (get >>= f) rs = (f rs).outcome rs := rfl

theorem outcome_modify (f : List Routine → List Routine) (rs : List Routine) :
    Edit.outcome (modify f) rs = (.ok (), f rs) := rfl

theorem outcome_changeRoutine (key : String) (f : Routine → Routine) (rs : List Routine) :
    (changeRoutine key f).outcome rs =
      (change key f rs).elim (.error .noSuchRoutine, rs) fun rs' => (.ok (), rs') := by
  rw [changeRoutine, outcome_get_bind]
  cases change key f rs with
  | none => rfl
  | some rs' => rfl

theorem outcome_takeRoutine_bind {α : Type} (key : String) (refusal : Refusal)
    (f : Routine → Edit α) (rs : List Routine) :
    (takeRoutine key refusal >>= f).outcome rs =
      (takeOut key rs).elim (.error refusal, rs) fun found => (f found.1).outcome found.2 := by
  rw [takeRoutine, bind_assoc, outcome_get_bind]
  cases takeOut key rs with
  | none => rfl
  | some found => rfl

theorem outcome_replace (target other : String) (json : Bool) (rs : List Routine) :
    (replace target other json).outcome rs =
      if other = target then (.error .replacesItself, rs)
      else if !isKnown target rs then (.error .noSuchRoutine, rs)
      else (takeOut other rs).elim (.error .noSuchReplacement, rs) fun found =>
        (changeRoutine target (·.replaceBy found.1 json)).outcome found.2 := by
  rw [replace]
  split
  · rfl
  rw [outcome_get_bind]
  split
  · rfl
  · exact outcome_takeRoutine_bind _ _ _ _

theorem isKnown_iff : isKnown key rs ↔ ∃ r ∈ rs, r.catalogKey = key := by
  simp [isKnown]

theorem change_eq_none_iff {f : Routine → Routine} :
    change key f rs = none ↔ isKnown key rs = false := by
  induction rs with
  | nil => simp [change, isKnown]
  | cons r rs ih =>
      by_cases hkey : r.catalogKey = key
      · simp [change, isKnown, hkey]
      · simp only [change, if_neg hkey, Option.map_eq_none_iff, ih]
        simp [isKnown, hkey]

/-- A change is made, or there is nothing to change. -/
theorem changeRoutine_cases (key : String) (f : Routine → Routine) (rs : List Routine) :
    (∃ before r after, rs = before ++ r :: after ∧ r.catalogKey = key ∧
      (changeRoutine key f).outcome rs = (.ok (), before ++ f r :: after)) ∨
    isKnown key rs = false ∧ (changeRoutine key f).outcome rs = (.error .noSuchRoutine, rs) := by
  rw [outcome_changeRoutine]
  cases hchange : change key f rs with
  | none => exact .inr ⟨change_eq_none_iff.mp hchange, rfl⟩
  | some rs' =>
      obtain ⟨before, r, after, rfl, rfl, hkey⟩ := change_eq_some hchange
      exact .inl ⟨before, r, after, rfl, hkey, rfl⟩

/-- A routine is put in place of another, or nothing happens. Once the replacement was taken out
nothing can fail any more: it has another catalog name than the routine that it replaces, which was
there before and so still is. -/
theorem replace_cases (target other : String) (json : Bool) (rs : List Routine) :
    (∃ replacement before r after, rs.Perm (replacement :: (before ++ r :: after)) ∧
      replacement.catalogKey = other ∧ r.catalogKey = target ∧
      (replace target other json).outcome rs =
        (.ok (), before ++ r.replaceBy replacement json :: after)) ∨
    ∃ refusal, (replace target other json).outcome rs = (.error refusal, rs) := by
  rw [outcome_replace]
  split
  · exact .inr ⟨_, rfl⟩
  rename_i hne
  split
  · exact .inr ⟨_, rfl⟩
  rename_i hknown
  cases htaken : takeOut other rs with
  | none => exact .inr ⟨_, rfl⟩
  | some found =>
      obtain ⟨replacement, rest⟩ := found
      obtain ⟨front, back, rfl, rfl, hother⟩ := takeOut_eq_some htaken
      have hstill : isKnown target (front ++ back) := by
        rw [Bool.not_eq_true', Bool.not_eq_false, isKnown_iff] at hknown
        obtain ⟨r, hr, htarget⟩ := hknown
        have hr' : r ≠ replacement := fun h => hne (by rw [← hother, ← h, htarget])
        exact isKnown_iff.mpr ⟨r, by simpa [hr'] using hr, htarget⟩
      rw [Option.elim_some]
      rcases changeRoutine_cases target (·.replaceBy replacement json) (front ++ back) with
        ⟨before, r, after, hrest, htarget, hdone⟩ | ⟨hunknown, -⟩
      · refine .inl ⟨replacement, before, r, after, ?_, hother, htarget, hdone⟩
        rw [← hrest]
        exact List.perm_middle
      · rw [hstill] at hunknown
        cases hunknown

theorem perform_replaces (verb : d.Replaces) {other : String} (hother : d.otherKey? = some other)
    (rs : List Routine) :
    (∃ rs', (replace d.targetKey other (d.verb == .replaceJson)).outcome rs = (.ok (), rs') ∧
      Effect d rs rs') ∨
    ∃ refusal, (replace d.targetKey other (d.verb == .replaceJson)).outcome rs =
      (.error refusal, rs) := by
  rcases replace_cases d.targetKey other (d.verb == .replaceJson) rs with
    ⟨replacement, before, r, after, hperm, rfl, htarget, hdone⟩ | hrefused
  · exact .inl ⟨_, hdone, .replace verb htarget hother hperm⟩
  · exact .inr hrefused

/-- **A directive has its effect or is refused, and a refused directive does nothing.** -/
theorem perform_cases (d : Directive) (rs : List Routine) :
    (∃ rs', (perform d).outcome rs = (.ok (), rs') ∧ Effect d rs rs') ∨
    ∃ refusal, (perform d).outcome rs = (.error refusal, rs) := by
  unfold perform
  split
  · rename_i verb
    rw [outcome_takeRoutine_bind]
    cases htaken : takeOut d.targetKey rs with
    | none => exact .inr ⟨_, rfl⟩
    | some found =>
        obtain ⟨before, after, rfl, hrest, htarget⟩ := takeOut_eq_some htaken
        refine .inl ⟨_, rfl, ?_⟩
        rw [hrest]
        exact .hide verb htarget
  · rename_i verb
    split
    · exact .inr ⟨_, rfl⟩
    · rename_i name exposed
      dsimp only
      rw [outcome_get_bind]
      split
      · exact .inr ⟨_, rfl⟩
      · rename_i hfree
        rcases changeRoutine_cases d.targetKey (fun r => { r with exposedAs := some name }) rs with
          ⟨before, r, after, rfl, htarget, hdone⟩ | ⟨-, hrefused⟩
        · refine .inl ⟨_, hdone, .rename verb exposed htarget fun s hs hname => hfree ?_⟩
          exact List.any_eq_true.mpr ⟨s, hs, beq_iff_eq.mpr hname⟩
        · exact .inr ⟨_, hrefused⟩
  · rename_i verb
    split
    · exact .inr ⟨_, rfl⟩
    · rename_i other hother
      exact perform_replaces (.inl verb) hother rs
  · rename_i verb
    split
    · exact .inr ⟨_, rfl⟩
    · rename_i other hother
      exact perform_replaces (.inr verb) hother rs
  · rename_i verb
    exact .inl ⟨_, rfl, .handle verb⟩
  · rename_i verb
    split
    · exact .inr ⟨_, rfl⟩
    · rename_i size hsize
      rcases changeRoutine_cases d.targetKey (raiseCap size) rs with
        ⟨before, r, after, rfl, htarget, hdone⟩ | ⟨-, hrefused⟩
      · exact .inl ⟨_, hdone, .cap verb htarget hsize⟩
      · exact .inr ⟨_, hrefused⟩

/-! ## One directive after the other -/

theorem applyEach_cons_of_ok (ds : List Directive) (h : (perform d).outcome rs = (.ok (), rs')) :
    (applyEach (d :: ds) rs).1 = (applyEach ds rs').1 := by
  rw [applyEach, h]

theorem applyEach_cons_of_error (ds : List Directive) {refusal : Refusal}
    (h : (perform d).outcome rs = (.error refusal, rs')) :
    (applyEach (d :: ds) rs).1 = (applyEach ds rs').1 := by
  rw [applyEach, h]

/-- What every effect keeps, directives one after the other keep. -/
theorem applyEach_induction {P : List Routine → Prop} {ds : List Directive}
    (hstep : ∀ d ∈ ds, ∀ rs rs', Effect d rs rs' → P rs → P rs') (h : P rs) :
    P (applyEach ds rs).1 := by
  induction ds generalizing rs with
  | nil => exact h
  | cons d ds ih =>
      obtain ⟨hd, hds⟩ := List.forall_mem_cons.mp hstep
      rcases perform_cases d rs with ⟨rs', hperform, heffect⟩ | ⟨refusal, hperform⟩
      · rw [applyEach_cons_of_ok ds hperform]
        exact ih hds (hd rs rs' heffect h)
      · rw [applyEach_cons_of_error ds hperform]
        exact ih hds h

theorem mem_inOrder {ds : List Directive} : d ∈ inOrder ds ↔ d ∈ ds := by
  simp only [inOrder, List.mem_flatMap, List.mem_filter, beq_iff_eq]
  refine ⟨fun ⟨_, _, hd, _⟩ => hd, fun hd => ⟨d.verb, ?_, hd, rfl⟩⟩
  cases d.verb <;> decide

theorem pairwise_filter_verb (v : Directive.Verb) (ds : List Directive) :
    (ds.filter (·.verb == v)).Pairwise fun a b => a.verb.rank ≤ b.verb.rank := by
  refine List.pairwise_of_forall_mem_list fun a ha b hb => Nat.le_of_eq ?_
  rw [beq_iff_eq.mp (List.mem_filter.mp ha).2, beq_iff_eq.mp (List.mem_filter.mp hb).2]

/-- Directives take effect in the order of their verbs. -/
theorem pairwise_inOrder (ds : List Directive) :
    (inOrder ds).Pairwise fun a b => a.verb.rank ≤ b.verb.rank := by
  have hverbs : verbs.Pairwise fun v w => v.rank ≤ w.rank := by decide
  rw [inOrder, List.pairwise_flatMap]
  refine ⟨fun v _ => pairwise_filter_verb v ds, hverbs.imp fun hrank a ha b hb => ?_⟩
  rwa [beq_iff_eq.mp (List.mem_filter.mp ha).2, beq_iff_eq.mp (List.mem_filter.mp hb).2]

/-! ## What stays -/

@[simp]
theorem origin_addHandler (handler : String) (r : Routine) :
    (addHandler handler r).toBody.origin = r.toBody.origin := by
  unfold addHandler
  split <;> rfl

@[simp]
theorem standIns_addHandler (handler : String) (r : Routine) :
    (addHandler handler r).standIns = r.standIns := by
  unfold addHandler
  split <;> rfl

/-- What a routine is turned into by a directive that takes effect. -/
inductive Turns (d : Directive) : Routine → Routine → Prop
  | same {r : Routine} : Turns d r r
  | renamed {r : Routine} {name : String} (verb : d.verb = .rename) :
      Turns d r { r with exposedAs := some name }
  | replaced {r replacement : Routine} {json : Bool} (verb : d.Replaces)
      (target : r.catalogKey = d.targetKey) : Turns d r (r.replaceBy replacement json)
  | handled {r : Routine} {handler : String} (verb : d.verb = .handle) :
      Turns d r (addHandler handler r)
  | capped {r : Routine} {size : Nat} (verb : d.verb = .maxTableSize) : Turns d r (raiseCap size r)

/-- Every routine that is left is what one that was there has been turned into. -/
theorem Effect.exists_turns (h : Effect d rs rs') : ∀ r ∈ rs', ∃ s ∈ rs, Turns d s r := by
  intro r hr
  -- only one routine in the middle changes
  have hmiddle : ∀ {before after : List Routine} {s s' : Routine},
      r ∈ before ++ s' :: after → Turns d s s' → ∃ t ∈ before ++ s :: after, Turns d t r := by
    intro before after s s' hmem hturns
    rw [List.mem_append, List.mem_cons] at hmem
    rcases hmem with hmem | rfl | hmem
    · exact ⟨r, by simp [hmem], .same⟩
    · exact ⟨s, by simp, hturns⟩
    · exact ⟨r, by simp [hmem], .same⟩
  cases h with
  | hide verb target =>
      refine ⟨r, ?_, .same⟩
      rw [List.mem_append] at hr
      rw [List.mem_append, List.mem_cons]
      tauto
  | rename verb exposed target free => exact hmiddle hr (.renamed verb)
  | replace verb target other taken =>
      obtain ⟨s, hs, hturns⟩ := hmiddle hr (.replaced verb target)
      exact ⟨s, taken.mem_iff.mpr (List.mem_cons_of_mem _ hs), hturns⟩
  | handle verb =>
      obtain ⟨s, hs, rfl⟩ := List.mem_map.mp hr
      refine ⟨s, hs, ?_⟩
      split
      · exact .handled verb
      · exact .same
  | cap verb target => exact hmiddle hr (.capped verb)

namespace Turns

variable {s : Routine}

theorem origin_eq (h : Turns d s r) : s.toBody.origin = r.toBody.origin := by
  cases h with
  | replaced verb target => exact (Routine.origin_replaceBy s _ _).symm
  | handled verb => exact (origin_addHandler _ s).symm
  | _ => rfl

theorem standIns_eq_or (h : Turns d s r) :
    r.standIns = s.standIns ∨ d.Replaces ∧ d.targetKey = r.catalogKey := by
  cases h with
  | replaced verb target => exact .inr ⟨verb, target.symm⟩
  | handled verb => exact .inl (standIns_addHandler _ s)
  | _ => exact .inl rfl

theorem maxTableSize_eq (h : Turns d s r) (verb : d.verb ≠ .maxTableSize) :
    r.maxTableSize = s.maxTableSize := by
  cases h with
  | handled _ =>
      unfold addHandler
      split
      · rfl
      · rfl
  | capped hcap => exact absurd hcap verb
  | _ => rfl

end Turns

/-- Every routine comes from one with the same origin. It keeps its chain unless the directive puts
another routine in its place. -/
theorem Effect.exists_before (h : Effect d rs rs') :
    ∀ r ∈ rs', ∃ s ∈ rs, s.toBody.origin = r.toBody.origin ∧
      (r.standIns = s.standIns ∨ d.Replaces ∧ d.targetKey = r.catalogKey) := by
  intro r hr
  obtain ⟨s, hs, hturns⟩ := h.exists_turns r hr
  exact ⟨s, hs, hturns.origin_eq, hturns.standIns_eq_or⟩

/-- **Whatever directives leave was there**, with the same name and the same parameters. -/
theorem exists_origin_of_mem_applyEach {ds : List Directive} (hr : r ∈ (applyEach ds rs).1) :
    ∃ s ∈ rs, s.toBody.origin = r.toBody.origin := by
  have hall : ∀ r ∈ (applyEach ds rs).1, ∃ s ∈ rs, s.toBody.origin = r.toBody.origin := by
    refine applyEach_induction
      (P := fun rs' => ∀ r ∈ rs', ∃ s ∈ rs, s.toBody.origin = r.toBody.origin)
      (fun d _ rs₁ rs₂ heffect hbefore r hr => ?_) fun r hr => ⟨r, hr, rfl⟩
    obtain ⟨s, hs, horigin, -⟩ := heffect.exists_before r hr
    obtain ⟨s', hs', horigin'⟩ := hbefore s hs
    exact ⟨s', hs', horigin'.trans horigin⟩
  exact hall r hr

end Effects

end RoutineBridge
