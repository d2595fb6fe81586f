import RoutineBridge.Proofs.Uptake

/-!
# Every routine is accounted for

A directive moves routines about: one that replaces another goes into the chain of the other,
together with its own chain. Nothing is made or copied on the way, so everything that was there is
still there, on its own or in a chain, or has left at a directive that took it out
(`applyEach_conserves`). There are two ways out. A routine that a directive hides is gone for good,
and that is intended. But a routine also leaves when it stands in for another one and a later
directive puts a third one in its place; nothing reports this (`assemble_accounts`).
-/

namespace RoutineBridge

open List (Perm)

/-- The routine itself and everything in its chain. -/
def Routine.bodies (r : Routine) : List Routine.Body := r.toBody :: r.standIns.map (·.body)

/-- Which object of the database a signature is about. -/
def Signature.place (s : Signature) : String × String × String := (s.owner, s.package, s.name)

def Routine.Origin.place (o : Routine.Origin) : String × String × String :=
  (o.owner, o.package, o.name)

namespace Effects

variable {rs rs' : List Routine} {d : Directive}

/-- Routines and what stands in for them, by what the catalog says about them. -/
def origins (rs : List Routine) : List Routine.Origin :=
  (rs.flatMap Routine.bodies).map (·.origin)

theorem origins_append (rs rs' : List Routine) : origins (rs ++ rs') = origins rs ++ origins rs' := by
  simp [origins]

theorem origins_cons (r : Routine) (rs : List Routine) :
    origins (r :: rs) = r.bodies.map (·.origin) ++ origins rs := by
  simp [origins]

theorem origins_perm (h : rs.Perm rs') : (origins rs).Perm (origins rs') :=
  (h.flatMap_right _).map _

theorem origins_of_forall (h : ∀ r ∈ rs, r.standIns = []) :
    origins rs = rs.map (·.toBody.origin) := by
  induction rs with
  | nil => rfl
  | cons r rs ih =>
      obtain ⟨hr, hrs⟩ := List.forall_mem_cons.mp h
      rw [origins_cons, ih hrs, Routine.bodies, hr]
      rfl

/-- How a routine leaves at a directive. -/
inductive Leaves (d : Directive) (rs : List Routine) (b : Routine.Body) : Prop
  /-- It is hidden, or goes with one that is. -/
  | hidden {r : Routine} (verb : d.verb = .hide) (present : r ∈ rs)
      (target : r.catalogKey = d.targetKey) (member : b ∈ r.bodies)
  /-- It stood in for a routine that gets another stand-in. -/
  | displaced {r : Routine} (verb : d.Replaces) (present : r ∈ rs)
      (target : r.catalogKey = d.targetKey) (member : b ∈ r.standIns.map (·.body))

theorem origins_map {f : Routine → Routine}
    (hf : ∀ r, (f r).bodies.map (·.origin) = r.bodies.map (·.origin)) (rs : List Routine) :
    origins (rs.map f) = origins rs := by
  induction rs with
  | nil => rfl
  | cons r rs ih => rw [List.map_cons, origins_cons, origins_cons, hf, ih]

theorem map_origin_bodies_addHandler (handler : String) (r : Routine) :
    (addHandler handler r).bodies.map (·.origin) = r.bodies.map (·.origin) := by
  rw [Routine.bodies, Routine.bodies, List.map_cons, List.map_cons, origin_addHandler,
    standIns_addHandler]

/-- **At a directive nothing is lost** that does not leave. -/
theorem Effect.conserves (h : Effect d rs rs') :
    ∃ gone : List Routine.Body, (origins rs).Perm (origins rs' ++ gone.map (·.origin)) ∧
      ∀ b ∈ gone, Leaves d rs b := by
  -- what changes in a routine besides its origin and its chain does not count
  have hsame : ∀ {before after : List Routine} {r r' : Routine},
      r'.bodies.map (·.origin) = r.bodies.map (·.origin) →
      origins (before ++ r' :: after) = origins (before ++ r :: after) := by
    intro before after r r' hbodies
    rw [origins_append, origins_append, origins_cons, origins_cons, hbodies]
  cases h with
  | @hide before after r verb target =>
      refine ⟨r.bodies, ?_, fun b hb => .hidden verb (by simp) target hb⟩
      rw [origins_append, origins_cons, origins_append, List.append_assoc]
      exact List.perm_append_comm.append_left _
  | rename verb exposed target free =>
      refine ⟨[], ?_, by simp⟩
      rw [List.map_nil, List.append_nil, hsame]
      rfl
  | @replace _ before after r replacement verb target other taken =>
      have hr : r ∈ rs := taken.mem_iff.mpr (by simp)
      refine ⟨r.standIns.map (·.body), ?_, fun b hb => .displaced verb hr target hb⟩
      refine (origins_perm taken).trans ?_
      rw [List.perm_iff_count]
      intro o
      simp only [origins_cons, origins_append, Routine.bodies, Routine.replaceBy, List.map_cons,
        List.count_append, List.count_cons]
      omega
  | handle verb =>
      refine ⟨[], ?_, by simp⟩
      rw [List.map_nil, List.append_nil, origins_map]
      intro r
      split
      · exact map_origin_bodies_addHandler _ r
      · rfl
  | cap verb target =>
      refine ⟨[], ?_, by simp⟩
      rw [List.map_nil, List.append_nil, hsame]
      rfl

/-- **Directives lose nothing** that does not leave at one of them. -/
theorem applyEach_conserves (ds : List Directive) (rs : List Routine) :
    ∃ gone : List Routine.Body,
      (origins rs).Perm (origins (applyEach ds rs).1 ++ gone.map (·.origin)) ∧
      ∀ b ∈ gone, ∃ before d after, ds = before ++ d :: after ∧
        Leaves d (applyEach before rs).1 b := by
  induction ds generalizing rs with
  | nil => exact ⟨[], by simp [applyEach], by simp⟩
  | cons d ds ih =>
      rcases perform_cases d rs with ⟨rs₁, hperform, heffect⟩ | ⟨refusal, hperform⟩
      · obtain ⟨gone₁, hperm₁, hleaves₁⟩ := heffect.conserves
        obtain ⟨gone, hperm, hleaves⟩ := ih rs₁
        rw [applyEach_cons_of_ok ds hperform]
        refine ⟨gone ++ gone₁, ?_, fun b hb => ?_⟩
        · rw [List.map_append, ← List.append_assoc]
          exact hperm₁.trans (hperm.append_right _)
        · rcases List.mem_append.mp hb with hb | hb
          · obtain ⟨before, d', after, rfl, hb⟩ := hleaves b hb
            refine ⟨d :: before, d', after, rfl, ?_⟩
            rwa [applyEach_cons_of_ok before hperform]
          · exact ⟨[], d, ds, rfl, hleaves₁ b hb⟩
      · obtain ⟨gone, hperm, hleaves⟩ := ih rs
        rw [applyEach_cons_of_error ds hperform]
        refine ⟨gone, hperm, fun b hb => ?_⟩
        obtain ⟨before, d', after, rfl, hb⟩ := hleaves b hb
        refine ⟨d :: before, d', after, rfl, ?_⟩
        rwa [applyEach_cons_of_error before hperform]

/-- A chain comes from a directive that replaces the routine it belongs to. -/
theorem exists_replaces {ds : List Directive} (hrs : ∀ r ∈ rs, r.standIns = []) :
    ∀ r ∈ (applyEach ds rs).1, r.standIns ≠ [] →
      ∃ d ∈ ds, d.Replaces ∧ d.targetKey = r.catalogKey := by
  refine applyEach_induction
    (P := fun rs => ∀ r ∈ rs, r.standIns ≠ [] →
      ∃ d ∈ ds, d.Replaces ∧ d.targetKey = r.catalogKey) ?_ fun r hr hne => absurd (hrs r hr) hne
  intro d hd rs₁ rs₂ heffect hbefore r hr hne
  obtain ⟨s, hs, horigin, hchain | ⟨hreplaces, htarget⟩⟩ := heffect.exists_before r hr
  · rw [hchain] at hne
    rw [← Routine.catalogKey_eq_of_origin horigin]
    exact hbefore s hs hne
  · exact ⟨d, hd, hreplaces, htarget⟩

/-! ### The order of verbs -/

/-- Nothing is replaced before the last routine is hidden. -/
theorem not_replaces_of_hide {ds before after : List Directive}
    (h : inOrder ds = before ++ d :: after) (verb : d.verb = .hide) : ∀ e ∈ before, ¬ e.Replaces := by
  intro e he hreplaces
  have hsorted := pairwise_inOrder ds
  rw [h, List.pairwise_append] at hsorted
  have hrank := hsorted.2.2 e he d List.mem_cons_self
  rw [verb] at hrank
  rcases hreplaces with hverb | hverb
  · rw [hverb] at hrank
    exact absurd hrank (by decide)
  · rw [hverb] at hrank
    exact absurd hrank (by decide)

/-- The routine stood in for another one until a later directive put a third one in its place. -/
def Displaced (ds : List Directive) (start : List Routine) (b : Routine.Body) : Prop :=
  ∃ before d after, ds = before ++ d :: after ∧ d.Replaces ∧
    (∃ e ∈ before, e.Replaces ∧ e.targetKey = d.targetKey) ∧
    ∃ r ∈ (applyEach before start).1, r.catalogKey = d.targetKey ∧ b ∈ r.standIns.map (·.body)

/-- Where nothing stands in for anything at the start, what leaves is hidden by its own name or
displaced. -/
theorem hidden_or_displaced {ds before after : List Directive} {start : List Routine}
    {b : Routine.Body} (hstart : ∀ r ∈ start, r.standIns = [])
    (h : inOrder ds = before ++ d :: after) (hleaves : Leaves d (applyEach before start).1 b) :
    (d.verb = .hide ∧ d.targetKey = b.origin.catalogKey) ∨ Displaced (inOrder ds) start b := by
  cases hleaves with
  | @hidden r verb present target member =>
      have hchain : r.standIns = [] := by
        by_contra hne
        obtain ⟨e, he, hreplaces, -⟩ := exists_replaces hstart r present hne
        exact not_replaces_of_hide h verb e he hreplaces
      rw [Routine.bodies, hchain, List.map_nil, List.mem_singleton] at member
      subst member
      exact .inl ⟨verb, target.symm⟩
  | @displaced r verb present target member =>
      have hne : r.standIns ≠ [] := by
        rintro hnil
        rw [hnil] at member
        cases member
      obtain ⟨e, he, hreplaces, hkey⟩ := exists_replaces hstart r present hne
      exact .inr ⟨before, d, after, h, verb, ⟨e, he, hreplaces, hkey.trans target⟩,
        r, present, target, member⟩

/-- **Nothing is lost** but what is hidden by its name or displaced. -/
theorem exists_hidden_displaced {ds : List Directive} {start : List Routine}
    (hstart : ∀ r ∈ start, r.standIns = []) :
    ∃ hidden displaced : List Routine.Body,
      (start.map (·.toBody.origin)).Perm
        (origins (applyEach (inOrder ds) start).1 ++ (hidden ++ displaced).map (·.origin)) ∧
      (∀ b ∈ hidden, ∃ d ∈ ds, d.verb = .hide ∧ d.targetKey = b.origin.catalogKey) ∧
      ∀ b ∈ displaced, Displaced (inOrder ds) start b := by
  obtain ⟨gone, hperm, hgone⟩ := applyEach_conserves (inOrder ds) start
  let named : Routine.Body → Bool := fun b =>
    ds.any fun d => d.verb == .hide && d.targetKey == b.origin.catalogKey
  refine ⟨gone.filter named, gone.filter (!named ·), ?_, fun b hb => ?_, fun b hb => ?_⟩
  · rw [← origins_of_forall hstart]
    exact hperm.trans (((List.filter_append_perm named gone).symm.map _).append_left _)
  · obtain ⟨d, hd, hnamed⟩ := List.any_eq_true.mp (List.mem_filter.mp hb).2
    rw [Bool.and_eq_true, beq_iff_eq, beq_iff_eq] at hnamed
    exact ⟨d, hd, hnamed⟩
  · obtain ⟨hb, hunnamed⟩ := List.mem_filter.mp hb
    obtain ⟨before, d, after, horder, hleaves⟩ := hgone b hb
    refine (hidden_or_displaced hstart horder hleaves).resolve_left fun ⟨verb, target⟩ => ?_
    have hd : d ∈ ds := mem_inOrder.mp (by rw [horder]; simp)
    have hnamed : named b = true :=
      List.any_eq_true.mpr ⟨d, hd, by rw [verb, target]; simp⟩
    rw [hnamed] at hunnamed
    cases hunnamed

end Effects

namespace Assembly

open Effects (applyEach inOrder Displaced)

/-- What became of all signatures. They are `spared`, or became one of the routines there are at the
`start`. Of these some are `hidden` and some are `displaced`; the others are in the model. -/
structure Accounts (g : Gathered) (model : Model) (summary : Summary) (start : List Routine)
    (spared : List Signature) (hidden displaced : List Routine.Body) : Prop where
  split : g.signatures.Perm (takenUp g [] g.signatures ++ spared)
  converted : List.Forall₂ (Converts g) (takenUp g [] g.signatures) start
  /-- Every signature is in one of the lists, and none is in two. -/
  everyone : (g.signatures.map (·.place)).Perm
    ((model.routines.flatMap Routine.bodies ++ hidden ++ displaced).map (·.origin.place) ++
      spared.map (·.place))
  /-- No routine is there twice, on its own or in a chain. -/
  once : ((model.routines.flatMap Routine.bodies ++ hidden ++ displaced).map
    (·.origin.catalogKey)).Nodup
  listed : summary.skipped.map (·.routine) = spared.map (·.displayName)
  byName : ∀ b ∈ hidden, ∃ d ∈ directives g, d.verb = .hide ∧ d.targetKey = b.origin.catalogKey
  byReplacement : ∀ b ∈ displaced, Displaced (inOrder (directives g)) start b

theorem map_place_of_converts {g : Gathered} {ss : List Signature} {rs : List Routine}
    (h : List.Forall₂ (Converts g) ss rs) :
    ss.map (·.place) = rs.map (·.toBody.origin.place) := by
  induction h with
  | nil => rfl
  | @cons s r ss rs hs _ ih =>
      obtain ⟨howner, hpackage, hname⟩ := hs.names
      rw [List.map_cons, List.map_cons, ih, Signature.place, Routine.Origin.place,
        Routine.Body.origin, howner, hpackage, hname]

/-- **Every signature is accounted for**: it is listed as left out, or a directive hides it by its
name, or the model has it, on its own or in the chain of one routine; or it was in a chain that a
second replacement of the same routine cut off. -/
theorem assemble_accounts (options : Options) (g : Gathered) (model : Model) (summary : Summary)
    (h : assemble options g = .ok (model, summary)) :
    ∃ start spared hidden displaced,
      Accounts g model summary start spared hidden displaced := by
  obtain ⟨start, types, spared, rfl, hconverted, hkeys, hsplit, hlisted⟩ :=
    exists_start_of_assemble h
  have hstart : ∀ r ∈ start, r.standIns = [] := by
    intro r hr
    obtain ⟨s, -, hs⟩ := Grouping.exists_of_mem_right hconverted hr
    exact hs.untouched.2
  obtain ⟨hidden, displaced, hperm, hnamed, hdisplaced⟩ :=
    Effects.exists_hidden_displaced hstart
  let final := (applyEach (inOrder (directives g)) start).1
  have hall : (start.map (·.toBody.origin)).Perm
      (((sortRoutines final).flatMap Routine.bodies ++ hidden ++ displaced).map (·.origin)) := by
    have hsort : (sortRoutines final).Perm final := List.mergeSort_perm _ _
    rw [List.append_assoc, List.map_append]
    exact hperm.trans ((Effects.origins_perm hsort.symm).append_right _)
  refine ⟨start, spared, hidden, displaced, hsplit, hconverted, ?_, ?_, hlisted, hnamed, hdisplaced⟩
  · refine (hsplit.map _).trans ?_
    rw [List.map_append, map_place_of_converts hconverted]
    refine .append_right _ ?_
    have hall := hall.map Routine.Origin.place
    rwa [List.map_map, List.map_map] at hall
  · have hall := hall.map Routine.Origin.catalogKey
    rw [List.map_map, List.map_map] at hall
    exact hall.nodup_iff.mp hkeys

/-- Two routines that replace the same one, a hidden one, and an overload. -/
def sampleReplacements : Gathered where
  signatures := ["A", "B", "C", "D", "A"].map fun name =>
    { owner := "APP", package := "PKG", name, subprogramId := 1, arguments := [], returns := none }
  resolutions := .empty
  packages := .empty
  extraDirectives :=
    [⟨"PKG", .replace, "A", some "B", none, none⟩, ⟨"PKG", .replace, "A", some "C", none, none⟩,
      ⟨"PKG", .hide, "D", none, none, none⟩]
  warnings := []
  typeFetches := 0

/-- All that is left is `A`, and `C` stands in for it. -/
theorem exists_assemble_sampleReplacements :
    ∃ model summary, assemble {} sampleReplacements = .ok (model, summary) ∧
      model.routines =
        [(Routine.named "APP" "PKG" "A").replaceBy (Routine.named "APP" "PKG" "C") false] ∧
      summary.skipped = [⟨"PKG.A", "overloaded name"⟩] := by
  obtain ⟨p, hfold, hleft, hskipped⟩ : ∃ p,
      sampleReplacements.signatures.foldlM (takeUp sampleReplacements {}) ⟨[], .empty, []⟩ = .ok p ∧
      (Effects.applyAll (directives sampleReplacements) p.routines).1 =
        [(Routine.named "APP" "PKG" "A").replaceBy (Routine.named "APP" "PKG" "C") false] ∧
      p.skipped = [⟨"PKG.A", "overloaded name"⟩] := ⟨_, rfl, rfl, rfl⟩
  obtain ⟨summary, h, hlisted⟩ := exists_assemble_of_foldlM hfold
  exact ⟨_, summary, h, (congrArg sortRoutines hleft).trans (List.mergeSort_singleton _),
    hlisted.trans hskipped⟩

theorem assemble_accounts_sample :
    ∃ model summary start spared hidden displaced,
      assemble {} sampleReplacements = .ok (model, summary) ∧ model.routines ≠ [] ∧
      Accounts sampleReplacements model summary start spared hidden displaced := by
  obtain ⟨model, summary, h, hroutines, -⟩ := exists_assemble_sampleReplacements
  obtain ⟨start, spared, hidden, displaced, haccounts⟩ :=
    assemble_accounts {} sampleReplacements model summary h
  exact ⟨model, summary, start, spared, hidden, displaced, h, by simp [hroutines], haccounts⟩

/-- `B` is nowhere: it is not in the model, on its own or in a chain, it is not listed as left out,
and no directive hides it. -/
theorem assemble_loses_replacement :
    ∃ s ∈ sampleReplacements.signatures, s.name = "B" ∧
      ∃ model summary, assemble {} sampleReplacements = .ok (model, summary) ∧
        (∀ b ∈ model.routines.flatMap Routine.bodies, b.name ≠ s.name) ∧
        (∀ skipped ∈ summary.skipped, skipped.routine ≠ s.displayName) ∧
        ∀ d ∈ directives sampleReplacements, d.verb = .hide → d.targetKey ≠ s.catalogKey := by
  obtain ⟨model, summary, h, hroutines, hskipped⟩ := exists_assemble_sampleReplacements
  refine ⟨_, .tail _ (.head _), rfl, model, summary, h, ?_, ?_, by decide⟩
  · rw [hroutines]
    simp [Routine.bodies, Routine.named, Routine.replaceBy]
  · rw [hskipped]
    decide

end Assembly

end RoutineBridge
