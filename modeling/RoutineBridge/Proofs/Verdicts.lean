import Mathlib.Logic.Function.Basic
import RoutineBridge.Proofs.Effects

/-!
# What becomes of each directive

Directives are carried out one after the other, and each of them either takes effect or is refused
(`verdicts`). Carrying one out is a sequence of steps, of which a later one could fail after an
earlier one has changed the routines; but it never does: a refused directive leaves everything as it
was. So the refused directives can be left out from the start, and what is left then takes effect
without a single warning (`applyAll_refusals`).
-/

namespace RoutineBridge

namespace Effects

variable {d : Directive} {ds ds' : List Directive} {rs rs' : List Routine}

/-! ## Runs -/

/-- The routines that are there after a directive, whether it took effect or not. -/
def routinesAfter (d : Directive) (rs : List Routine) : List Routine := ((perform d).outcome rs).2

/-- Why a directive is refused, if it is. -/
def verdict (d : Directive) (rs : List Routine) : Option Refusal :=
  match ((perform d).outcome rs).1 with
  | .ok () => none
  | .error refusal => some refusal

/-- Directives one after the other, each with what becomes of it. -/
def verdicts : List Directive → List Routine → List (Directive × Option Refusal)
  | [], _ => []
  | d :: ds, rs => (d, verdict d rs) :: verdicts ds (routinesAfter d rs)

/-- The warnings about the directives that are refused. -/
def warningsOf (vs : List (Directive × Option Refusal)) : List String :=
  vs.filterMap fun v => v.2.map (warning v.1)

/-- The directives that take effect. -/
def heeded (vs : List (Directive × Option Refusal)) : List Directive :=
  (vs.filter (·.2.isNone)).map (·.1)

/-- **A refused directive changes nothing.** -/
theorem outcome_of_refused {refusal : Refusal} (h : verdict d rs = some refusal) :
    (perform d).outcome rs = (.error refusal, rs) := by
  rcases perform_cases d rs with ⟨rs', hperform, -⟩ | ⟨refusal', hperform⟩
  · rw [verdict, hperform] at h
    cases h
  · rw [verdict, hperform] at h
    rw [hperform, Option.some.inj h]

theorem outcome_of_heeded (h : verdict d rs = none) :
    (perform d).outcome rs = (.ok (), routinesAfter d rs) := by
  rcases perform_cases d rs with ⟨rs', hperform, -⟩ | ⟨refusal, hperform⟩
  · rw [routinesAfter, hperform]
  · rw [verdict, hperform] at h
    cases h

theorem routinesAfter_of_refused {refusal : Refusal} (h : verdict d rs = some refusal) :
    routinesAfter d rs = rs := by
  rw [routinesAfter, outcome_of_refused h]

theorem applyEach_fst (ds : List Directive) (rs : List Routine) :
    (applyEach ds rs).1 = ds.foldl (fun rs d => routinesAfter d rs) rs := by
  induction ds generalizing rs with
  | nil => rfl
  | cons d ds ih =>
      rw [List.foldl_cons]
      cases hverdict : verdict d rs with
      | none => rw [applyEach_cons_of_ok ds (outcome_of_heeded hverdict), ih]
      | some refusal =>
          rw [applyEach_cons_of_error ds (outcome_of_refused hverdict), ih,
            routinesAfter_of_refused hverdict]

theorem applyEach_snd (ds : List Directive) (rs : List Routine) :
    (applyEach ds rs).2 = warningsOf (verdicts ds rs) := by
  induction ds generalizing rs with
  | nil => rfl
  | cons d ds ih =>
      rw [applyEach, verdicts, warningsOf, List.filterMap_cons]
      cases hverdict : verdict d rs with
      | none =>
          rw [outcome_of_heeded hverdict]
          exact ih _
      | some refusal =>
          rw [outcome_of_refused hverdict, routinesAfter_of_refused hverdict]
          exact congrArg (warning d refusal :: ·) (ih rs)

theorem map_fst_verdicts (ds : List Directive) (rs : List Routine) :
    (verdicts ds rs).map (·.1) = ds := by
  induction ds generalizing rs with
  | nil => rfl
  | cons d ds ih => rw [verdicts, List.map_cons, ih]

theorem heeded_sublist (ds : List Directive) (rs : List Routine) :
    (heeded (verdicts ds rs)).Sublist ds := by
  have hsublist := (List.filter_sublist (p := fun v => v.2.isNone) (l := verdicts ds rs)).map (·.1)
  rwa [map_fst_verdicts] at hsublist

/-- Nothing is missing when the refused directives are left out. -/
theorem applyEach_heeded (ds : List Directive) (rs : List Routine) :
    applyEach (heeded (verdicts ds rs)) rs = ((applyEach ds rs).1, []) := by
  induction ds generalizing rs with
  | nil => rfl
  | cons d ds ih =>
      rw [verdicts]
      cases hverdict : verdict d rs with
      | none =>
          rw [applyEach_cons_of_ok ds (outcome_of_heeded hverdict), ← ih]
          change applyEach (d :: heeded (verdicts ds (routinesAfter d rs))) rs = _
          rw [applyEach, outcome_of_heeded hverdict]
      | some refusal =>
          rw [applyEach_cons_of_error ds (outcome_of_refused hverdict), ← ih,
            routinesAfter_of_refused hverdict]
          rfl

/-! ## The order of verbs -/

theorem filter_inOrder (p : Directive → Bool) (ds : List Directive) :
    (inOrder ds).filter p = inOrder (ds.filter p) := by
  rw [inOrder, inOrder, List.filter_flatMap]
  congr 1
  funext v
  rw [List.filter_filter, List.filter_filter]
  congr 1
  funext d
  exact Bool.and_comm _ _

theorem inOrder_congr (h : ∀ v, ds.filter (·.verb == v) = ds'.filter (·.verb == v)) :
    inOrder ds = inOrder ds' := by
  rw [inOrder, inOrder]
  congr 1
  funext v
  exact h v

theorem mem_verbs (v : Directive.Verb) : v ∈ verbs := by
  cases v <;> decide

/-- A directive stays in front of others if none of their verbs comes before its own. -/
theorem inOrder_cons (h : ∀ e ∈ ds, d.verb.rank ≤ e.verb.rank) :
    inOrder (d :: ds) = d :: inOrder ds := by
  obtain ⟨earlier, later, hverbs⟩ := List.append_of_mem (mem_verbs d.verb)
  have hsorted : verbs.Pairwise fun v w => v.rank < w.rank := by decide
  rw [hverbs, List.pairwise_append, List.pairwise_cons] at hsorted
  obtain ⟨-, ⟨hlater, -⟩, hearlier⟩ := hsorted
  have hnone : ∀ es : List Directive, (∀ e ∈ es, d.verb.rank ≤ e.verb.rank) →
      earlier.flatMap (fun v => es.filter (·.verb == v)) = [] := by
    intro es hes
    rw [List.flatMap_eq_nil_iff]
    intro v hv
    rw [List.filter_eq_nil_iff]
    intro e he heq
    have hlt := hearlier v hv d.verb List.mem_cons_self
    have hle := hes e he
    rw [beq_iff_eq.mp heq] at hle
    omega
  have hsame : later.flatMap (fun v => (d :: ds).filter (·.verb == v)) =
      later.flatMap (fun v => ds.filter (·.verb == v)) := by
    refine List.flatMap_congr fun v hv => ?_
    have hne : d.verb ≠ v := fun heq => Nat.ne_of_lt (hlater v hv) (congrArg _ heq)
    rw [List.filter_cons_of_neg (by simpa using hne)]
  have hfront : ∀ e ∈ d :: ds, d.verb.rank ≤ e.verb.rank :=
    List.forall_mem_cons.mpr ⟨Nat.le_refl _, h⟩
  rw [inOrder, inOrder, hverbs, List.flatMap_append, List.flatMap_append, List.flatMap_cons,
    List.flatMap_cons, hnone _ hfront, hnone _ h, hsame, List.filter_cons_of_pos (by simp)]
  rfl

/-- Directives that are in the order of their verbs stay as they are. -/
theorem inOrder_of_pairwise (h : ds.Pairwise fun a b => a.verb.rank ≤ b.verb.rank) :
    inOrder ds = ds := by
  induction ds with
  | nil => rfl
  | cons d ds ih =>
      obtain ⟨hd, hds⟩ := List.pairwise_cons.mp h
      rw [inOrder_cons hd, ih hds]

theorem filter_verb_inOrder (v : Directive.Verb) (ds : List Directive) :
    (inOrder ds).filter (·.verb == v) = ds.filter (·.verb == v) := by
  rw [filter_inOrder, inOrder_of_pairwise (pairwise_filter_verb v ds)]

/-- What is picked out of the directives of each verb can be picked out of all directives. -/
theorem exists_sublist_of_filter (ds : List Directive) (picked : Directive.Verb → List Directive)
    (h : ∀ v, (picked v).Sublist (ds.filter (·.verb == v))) :
    ∃ kept : List Directive, kept.Sublist ds ∧ ∀ v, kept.filter (·.verb == v) = picked v := by
  induction ds generalizing picked with
  | nil => exact ⟨[], .slnil, fun v => (List.sublist_nil.mp (h v)).symm⟩
  | cons d ds ih =>
      have hd := h d.verb
      rw [List.filter_cons_of_pos (by simp), List.sublist_cons_iff] at hd
      have hothers : ∀ v, v ≠ d.verb → (picked v).Sublist (ds.filter (·.verb == v)) := by
        intro v hv
        have hsublist := h v
        rwa [List.filter_cons_of_neg (by simpa using hv.symm)] at hsublist
      rcases hd with hskipped | ⟨rest, hpicked, hrest⟩
      · obtain ⟨kept, hkept, hfilter⟩ := ih picked fun v => by
          by_cases hv : v = d.verb
          · rw [hv]
            exact hskipped
          · exact hothers v hv
        exact ⟨kept, hkept.cons d, hfilter⟩
      · obtain ⟨kept, hkept, hfilter⟩ := ih (Function.update picked d.verb rest) fun v => by
          by_cases hv : v = d.verb
          · rw [hv, Function.update_self]
            exact hrest
          · rw [Function.update_of_ne hv]
            exact hothers v hv
        refine ⟨d :: kept, hkept.cons_cons d, fun v => ?_⟩
        by_cases hv : v = d.verb
        · rw [hv, List.filter_cons_of_pos (by simp), hfilter, Function.update_self, hpicked]
        · rw [List.filter_cons_of_neg (by simpa using Ne.symm hv), hfilter,
            Function.update_of_ne hv]

/-- What is picked out of the directives in the order of effects can be picked out of them in the
order in which they were given. -/
theorem exists_sublist_of_sublist_inOrder (h : ds'.Sublist (inOrder ds)) :
    ∃ kept, kept.Sublist ds ∧ inOrder kept = ds' := by
  obtain ⟨kept, hkept, hfilter⟩ :=
    exists_sublist_of_filter ds (fun v => ds'.filter (·.verb == v)) fun v => by
      have hsublist := h.filter (·.verb == v)
      rwa [filter_verb_inOrder] at hsublist
  refine ⟨kept, hkept, ?_⟩
  rw [inOrder_congr hfilter, inOrder_of_pairwise ((pairwise_inOrder ds).sublist h)]

/-! ## Refusals -/

/-- **A refused directive leaves the routines as they were**, at whatever step of it the refusal is
found. So it makes no difference to leave out the directives that are refused: what is kept of the
list then takes effect as before, and without a warning. -/
theorem applyAll_refusals :
    (∀ (d : Directive) (rs rs' : List Routine) (refusal : Refusal),
      (perform d).outcome rs = (.error refusal, rs') → rs' = rs) ∧
    ∀ (ds : List Directive) (rs : List Routine),
      (applyAll ds rs).2 = warningsOf (verdicts (inOrder ds) rs) ∧
      ∃ kept : List Directive, kept.Sublist ds ∧
        inOrder kept = heeded (verdicts (inOrder ds) rs) ∧
        applyAll kept rs = ((applyAll ds rs).1, []) := by
  refine ⟨fun d rs rs' refusal h => ?_, fun ds rs => ⟨applyEach_snd _ _, ?_⟩⟩
  · have hrefused : verdict d rs = some refusal := by rw [verdict, h]
    rw [outcome_of_refused hrefused] at h
    exact (Prod.mk.inj h).2.symm
  · obtain ⟨kept, hkept, horder⟩ :=
      exists_sublist_of_sublist_inOrder (heeded_sublist (inOrder ds) rs)
    refine ⟨kept, hkept, horder, ?_⟩
    rw [applyAll, horder, applyEach_heeded]
    rfl

/-- Two routines of one catalog name, and another one. -/
def sampleTwins : List Routine :=
  ["A", "B", "A"].map (Routine.named "APP" "PKG")

/-- The name is taken, the replacement is gone at the second time, and a size is missing. -/
def sampleRefused : List Directive :=
  [⟨"PKG", .maxTableSize, "A", none, none, none⟩, ⟨"PKG", .replace, "A", some "B", none, none⟩,
    ⟨"PKG", .rename, "A", some "B", none, none⟩, ⟨"PKG", .replace, "A", some "B", none, none⟩,
    ⟨"PKG", .maxTableSize, "A", none, some 7, none⟩]

theorem applyAll_refusals_sample :
    (∃ rs', (perform ⟨"PKG", .replace, "C", some "B", none, none⟩).outcome sampleTwins =
      (.error .noSuchRoutine, rs') ∧ rs' = sampleTwins) ∧
    (applyAll sampleRefused sampleTwins).2 =
      ["PKG.rename A => B: pkg.b already exists", "PKG.replace A => B: no such replacement",
        "PKG.max-table-size A: missing size"] ∧
    ∃ kept : List Directive, kept.Sublist sampleRefused ∧
      inOrder kept = [⟨"PKG", .replace, "A", some "B", none, none⟩,
        ⟨"PKG", .maxTableSize, "A", none, some 7, none⟩] ∧
      applyAll kept sampleTwins = ((applyAll sampleRefused sampleTwins).1, []) := by
  have hrefused : (perform ⟨"PKG", .replace, "C", some "B", none, none⟩).outcome sampleTwins =
      (.error .noSuchRoutine, sampleTwins) := rfl
  obtain ⟨-, kept, hkept, horder, hresult⟩ := applyAll_refusals.2 sampleRefused sampleTwins
  refine ⟨⟨_, hrefused, applyAll_refusals.1 _ _ _ _ hrefused⟩, by decide +kernel, kept, hkept,
    ?_, hresult⟩
  rw [horder]
  decide +kernel

end Effects

end RoutineBridge
