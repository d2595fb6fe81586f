import Mathlib.Data.List.Nodup
import RoutineBridge.Assembly.Basic
import RoutineBridge.Proofs.Effects
import RoutineBridge.Proofs.RowListing

/-!
# Which signatures become routines

Taking up goes through the signatures once. Each of them either becomes a routine or is left out
with a reason (`Uptake`), and which of the two does not depend on what happened to the ones before,
except that a catalog name is used only once: the first signature of a name that can be converted
becomes the routine (`takenUp`). So the routines have different catalog names (`nodup`), and every
signature is either among those taken up or among those left out (`exists_spared`).
-/

namespace RoutineBridge

theorem bind_eq_ok {ε α β : Type} {x : Except ε α} {f : α → Except ε β} {b : β} :
    x >>= f = .ok b ↔ ∃ a, x = .ok a ∧ f a = .ok b := by
  cases x with
  | error e =>
      refine ⟨fun h => ?_, fun ⟨a, h, _⟩ => ?_⟩
      · cases h
      · cases h
  | ok a =>
      refine ⟨fun h => ⟨a, rfl, h⟩, fun ⟨a', ha, h⟩ => ?_⟩
      obtain rfl := Except.ok.inj ha
      exact h

/-- The key of the catalog object. -/
def Signature.catalogKey (s : Signature) : String := qualify s.package s.name

namespace Conversion

variable {resolutions : Resolutions} {s : Signature} {r : Routine} {types : TypeTable}

/-- How a signature is converted: its arguments first, then what it returns. -/
theorem exists_of_routine (h : routine resolutions s = .ok (r, types)) :
    ∃ as found, arguments resolutions s 1 .empty s.arguments = .ok (as, found) ∧
      ((s.returns = none ∧ types = found ∧
        r = { Routine.named s.owner s.package s.name with arguments := as }) ∨
      ∃ t type, s.returns = some t ∧
        dataType resolutions (siteOf s "RET") found t = .ok (type, types) ∧
        r = { Routine.named s.owner s.package s.name with
          arguments := as, returns := some ⟨"ret", type⟩ }) := by
  obtain ⟨⟨as, found⟩, harguments, h⟩ := bind_eq_ok.mp h
  refine ⟨as, found, harguments, ?_⟩
  dsimp only at h
  split at h
  · rename_i hreturns
    obtain ⟨rfl, rfl⟩ := Prod.mk.inj (Except.ok.inj h)
    exact .inl ⟨hreturns, rfl, rfl⟩
  · rename_i t hreturns
    obtain ⟨⟨type, found'⟩, htype, h⟩ := bind_eq_ok.mp h
    obtain ⟨rfl, rfl⟩ := Prod.mk.inj (Except.ok.inj h)
    exact .inr ⟨t, type, hreturns, htype, rfl⟩

/-- A converted routine has the names of its signature, and nothing has been done to it yet. -/
theorem eq_named_of_routine (h : routine resolutions s = .ok (r, types)) :
    ∃ arguments returns,
      r = { Routine.named s.owner s.package s.name with arguments, returns } := by
  obtain ⟨as, found, -, ⟨-, -, rfl⟩ | ⟨t, type, -, -, rfl⟩⟩ := exists_of_routine h
  · exact ⟨as, none, rfl⟩
  · exact ⟨as, some ⟨"ret", type⟩, rfl⟩

end Conversion

namespace Assembly

variable {g : Gathered} {options : Options} {p p' : Progress} {s : Signature} {ss : List Signature}

/-- The routine is what the signature is converted to, with its documentation. -/
def Converts (g : Gathered) (s : Signature) (r : Routine) : Prop :=
  ∃ r₀ types, Conversion.routine g.resolutions s = .ok (r₀, types) ∧
    r = { r₀ with doc := docOf g.packages r₀ }

namespace Converts

variable {r : Routine}

theorem names (h : Converts g s r) :
    r.owner = s.owner ∧ r.package = s.package ∧ r.name = s.name := by
  obtain ⟨r₀, types, hconverted, rfl⟩ := h
  obtain ⟨arguments, returns, rfl⟩ := Conversion.eq_named_of_routine hconverted
  exact ⟨rfl, rfl, rfl⟩

/-- Nothing has been done to the routine yet. -/
theorem untouched (h : Converts g s r) : r.exposedAs = none ∧ r.standIns = [] := by
  obtain ⟨r₀, types, hconverted, rfl⟩ := h
  obtain ⟨arguments, returns, rfl⟩ := Conversion.eq_named_of_routine hconverted
  exact ⟨rfl, rfl⟩

theorem catalogKey_eq (h : Converts g s r) : r.catalogKey = s.catalogKey := by
  obtain ⟨-, hpackage, hname⟩ := h.names
  rw [Routine.catalogKey, Signature.catalogKey, hpackage, hname]

end Converts

/-- There is no routine for the signature: its types cannot be resolved, or its catalog name has
been used. -/
def Spare (g : Gathered) (used : List String) (s : Signature) : Prop :=
  (Conversion.routine g.resolutions s).isOk = false ∨ s.catalogKey ∈ used

/-- How signatures are taken up. -/
inductive Uptake (g : Gathered) : Progress → List Signature → Progress → Prop
  | done {p : Progress} : Uptake g p [] p
  | skip {p p' : Progress} {s : Signature} {ss : List Signature} {reason : String}
      (spare : Spare g (p.routines.map (·.catalogKey)) s)
      (rest : Uptake g { p with skipped := p.skipped ++ [⟨s.displayName, reason⟩] } ss p') :
      Uptake g p (s :: ss) p'
  | take {p p' : Progress} {s : Signature} {ss : List Signature} {r : Routine} {types : TypeTable}
      (converted : Conversion.routine g.resolutions s = .ok (r, types))
      (fresh : s.catalogKey ∉ p.routines.map (·.catalogKey))
      (rest : Uptake g
        { p with
          routines := p.routines ++ [{ r with doc := docOf g.packages r }]
          types := p.types.extend types } ss p') :
      Uptake g p (s :: ss) p'

theorem uptake_of_foldlM (h : ss.foldlM (takeUp g options) p = .ok p') : Uptake g p ss p' := by
  induction ss generalizing p with
  | nil =>
      obtain rfl := Except.ok.inj h
      exact .done
  | cons s ss ih =>
      rw [List.foldlM_cons] at h
      obtain ⟨p₁, htake, hrest⟩ := bind_eq_ok.mp h
      unfold takeUp at htake
      split at htake
      · rename_i e hconverted
        split at htake
        · obtain rfl := Except.ok.inj htake
          exact .skip (.inl (by rw [hconverted]; rfl)) (ih hrest)
        · cases htake
      · rename_i r types hconverted
        have hkey : r.catalogKey = s.catalogKey :=
          Converts.catalogKey_eq (r := { r with doc := docOf g.packages r })
            ⟨r, types, hconverted, rfl⟩
        have hused : p.routines.any (·.catalogKey == r.catalogKey) ↔
            s.catalogKey ∈ p.routines.map (·.catalogKey) := by
          simp [hkey]
        split at htake
        · rename_i hany
          obtain rfl := Except.ok.inj htake
          exact .skip (.inr (hused.mp hany)) (ih hrest)
        · rename_i hany
          obtain rfl := Except.ok.inj htake
          exact .take hconverted (fun hmem => hany (hused.mpr hmem)) (ih hrest)

/-- The signatures that become routines: of those that can be converted, the first one of each
catalog name that has not been used. -/
def takenUp (g : Gathered) (used : List String) : List Signature → List Signature
  | [] => []
  | s :: ss =>
    if (Conversion.routine g.resolutions s).isOk ∧ s.catalogKey ∉ used then
      s :: takenUp g (used ++ [s.catalogKey]) ss
    else takenUp g used ss

theorem takenUp_of_spare {used : List String} (h : Spare g used s) (ss : List Signature) :
    takenUp g used (s :: ss) = takenUp g used ss := by
  rw [takenUp, if_neg]
  rintro ⟨hok, hfresh⟩
  rcases h with herror | hused
  · rw [herror] at hok
    cases hok
  · exact hfresh hused

/-- A signature that is converted under a new name is taken up. -/
theorem takenUp_of_converted {rs : List Routine} {r : Routine} {types : TypeTable}
    (converted : Conversion.routine g.resolutions s = .ok (r, types))
    (fresh : s.catalogKey ∉ rs.map (·.catalogKey)) (ss : List Signature) :
    takenUp g (rs.map (·.catalogKey)) (s :: ss) =
      s :: takenUp g
        ((rs ++ [{ r with doc := docOf g.packages r }]).map fun r : Routine => r.catalogKey) ss := by
  have hkey : ({ r with doc := docOf g.packages r } : Routine).catalogKey = s.catalogKey :=
    Converts.catalogKey_eq ⟨r, types, converted, rfl⟩
  rw [takenUp, if_pos ⟨by rw [converted]; rfl, fresh⟩, List.map_append, List.map_singleton, hkey]

theorem takenUp_subset (g : Gathered) (used : List String) (ss : List Signature) :
    takenUp g used ss ⊆ ss := by
  induction ss generalizing used with
  | nil => exact List.Subset.refl _
  | cons s ss ih =>
      rw [takenUp]
      split
      · exact List.cons_subset_cons s (ih _)
      · exact List.subset_cons_of_subset s (ih _)

namespace Uptake

/-- The new routines are what the signatures that are taken up are converted to. -/
theorem routines (h : Uptake g p ss p') :
    ∃ new, p'.routines = p.routines ++ new ∧
      List.Forall₂ (Converts g) (takenUp g (p.routines.map (·.catalogKey)) ss) new := by
  induction h with
  | done => exact ⟨[], (List.append_nil _).symm, .nil⟩
  | skip spare rest ih =>
      rw [takenUp_of_spare spare]
      exact ih
  | @take p p' s ss r types converted fresh rest ih =>
      have hconverts : Converts g s { r with doc := docOf g.packages r } :=
        ⟨r, types, converted, rfl⟩
      obtain ⟨new, hnew, hconverted⟩ := ih
      rw [takenUp_of_converted converted fresh]
      refine ⟨{ r with doc := docOf g.packages r } :: new, ?_, .cons hconverts hconverted⟩
      rw [hnew, List.append_assoc, List.singleton_append]

/-- No two routines have one catalog name. -/
theorem nodup (h : Uptake g p ss p') (hp : (p.routines.map (·.catalogKey)).Nodup) :
    (p'.routines.map (·.catalogKey)).Nodup := by
  induction h with
  | done => exact hp
  | skip spare rest ih => exact ih hp
  | @take p p' s ss r types converted fresh rest ih =>
      have hkey : ({ r with doc := docOf g.packages r } : Routine).catalogKey = s.catalogKey :=
        Converts.catalogKey_eq ⟨r, types, converted, rfl⟩
      refine ih ?_
      rw [List.map_append, List.map_singleton, hkey, ← List.concat_eq_append]
      exact hp.concat fresh

/-- The signatures that are not taken up are the ones that are listed as left out. -/
theorem exists_spared (h : Uptake g p ss p') :
    ∃ spared, ss.Perm (takenUp g (p.routines.map (·.catalogKey)) ss ++ spared) ∧
      p'.skipped.map (·.routine) = p.skipped.map (·.routine) ++ spared.map (·.displayName) := by
  induction h with
  | done => exact ⟨[], .nil, (List.append_nil _).symm⟩
  | @skip p p' s ss reason spare rest ih =>
      obtain ⟨spared, hperm, hskipped⟩ := ih
      refine ⟨s :: spared, ?_, ?_⟩
      · rw [takenUp_of_spare spare]
        exact (hperm.cons s).trans List.perm_middle.symm
      · rw [hskipped]
        simp
  | @take p p' s ss r types converted fresh rest ih =>
      obtain ⟨spared, hperm, hskipped⟩ := ih
      refine ⟨spared, ?_, hskipped⟩
      rw [takenUp_of_converted converted fresh]
      exact hperm.cons s

end Uptake

/-- How a model comes about. -/
theorem exists_uptake_of_assemble {model : Model} {summary : Summary}
    (h : assemble options g = .ok (model, summary)) :
    ∃ p, Uptake g ⟨[], .empty, []⟩ g.signatures p ∧
      model = Model.freeze
        (sortRoutines (Effects.applyEach (Effects.inOrder (directives g)) p.routines).1)
        p.types options ∧
      summary.skipped = p.skipped := by
  obtain ⟨p, hfold, h⟩ := bind_eq_ok.mp h
  obtain ⟨rfl, rfl⟩ := Prod.mk.inj (Except.ok.inj h)
  exact ⟨p, uptake_of_foldlM hfold, rfl, rfl⟩

theorem exists_assemble_of_foldlM
    (h : g.signatures.foldlM (takeUp g options) ⟨[], .empty, []⟩ = .ok p) :
    ∃ summary, assemble options g =
        .ok (Model.freeze (sortRoutines (Effects.applyAll (directives g) p.routines).1)
          p.types options, summary) ∧
      summary.skipped = p.skipped :=
  ⟨_, bind_eq_ok.mpr ⟨p, h, rfl⟩, rfl⟩

/-- The routines that the directives start from are those of the signatures that are taken up; the
other signatures are listed. -/
theorem exists_start_of_assemble {model : Model} {summary : Summary}
    (h : assemble options g = .ok (model, summary)) :
    ∃ start types spared,
      model = Model.freeze
        (sortRoutines (Effects.applyEach (Effects.inOrder (directives g)) start).1) types options ∧
      List.Forall₂ (Converts g) (takenUp g [] g.signatures) start ∧
      (start.map (·.catalogKey)).Nodup ∧
      g.signatures.Perm (takenUp g [] g.signatures ++ spared) ∧
      summary.skipped.map (·.routine) = spared.map (·.displayName) := by
  obtain ⟨p, huptake, rfl, hskipped⟩ := exists_uptake_of_assemble h
  obtain ⟨start, hroutines, hconverted⟩ := huptake.routines
  obtain ⟨spared, hsplit, hlisted⟩ := huptake.exists_spared
  rw [List.nil_append] at hroutines
  refine ⟨start, p.types, spared, by rw [hroutines], hconverted, ?_, hsplit, ?_⟩
  · rw [← hroutines]
    exact huptake.nodup .nil
  · rw [hskipped, hlisted]
    rfl

/-- A routine of a model has the names, the arguments and the result of a signature. -/
theorem exists_signature_of_mem {model : Model} {summary : Summary}
    (h : assemble options g = .ok (model, summary)) {r : Routine} (hr : r ∈ model.routines) :
    ∃ s ∈ takenUp g [] g.signatures, r.owner = s.owner ∧ r.package = s.package ∧ r.name = s.name ∧
      ∃ r₀ types, Conversion.routine g.resolutions s = .ok (r₀, types) ∧
        r₀.arguments = r.arguments ∧ r₀.returns = r.returns := by
  obtain ⟨start, types, -, rfl, hconverted, -, -, -⟩ := exists_start_of_assemble h
  obtain ⟨r', hr', horigin⟩ := Effects.exists_origin_of_mem_applyEach (List.mem_mergeSort.mp hr)
  obtain ⟨s, hs, hconverts⟩ := Grouping.exists_of_mem_right hconverted hr'
  obtain ⟨howner, hpackage, hname⟩ := hconverts.names
  obtain ⟨r₀, types₀, hroutine, rfl⟩ := hconverts
  exact ⟨s, hs, (congrArg Routine.Origin.owner horigin).symm.trans howner,
    (congrArg Routine.Origin.package horigin).symm.trans hpackage,
    (congrArg Routine.Origin.name horigin).symm.trans hname, r₀, types₀, hroutine,
    congrArg Routine.Origin.arguments horigin, congrArg Routine.Origin.returns horigin⟩

end Assembly

end RoutineBridge
