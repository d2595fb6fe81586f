import Mathlib.Data.String.Basic
import RoutineBridge.Proofs.Parameters
import RoutineBridge.Proofs.Uptake

/-!
# Exposed names are unique

A qualified name is two names around a dot, so it can be taken apart when neither of them has a dot
(`qualify_congr`). Without dots, then, a routine that a rename is about belongs to the package of the
rename, and the name that was found to be free is the name the routine gets. So no directive gives a
name twice (`Distinct.step`), the routines of a model are strictly increasing by name, and each of
them finds the layout made for it (`assemble_addresses`).
-/

namespace RoutineBridge

/-! ## Names without dots -/

def Dotless (s : String) : Prop := '.' ∉ s.toList

instance (s : String) : Decidable (Dotless s) := inferInstanceAs (Decidable ('.' ∉ s.toList))

namespace Text

/-- No character but a dot has a dot as its lower case form. -/
theorem toLower_eq_dot {c : Char} (hascii : c.toNat < 128) (h : c.toLower = '.') : c = '.' := by
  have hall : ∀ n < 128, (Char.ofNat n).toLower = '.' → Char.ofNat n = '.' := by decide
  rw [← Char.ofNat_toNat c] at h ⊢
  exact hall c.toNat hascii h

theorem eq_of_ofNat_eq_dot {n : Nat} (h : Char.ofNat n = '.') : n = 46 := by
  by_cases hvalid : n.isValidChar
  · have hnat : (Char.ofNat n).toNat = n := by
      rw [Char.ofNat, dif_pos hvalid]
      rfl
    rw [← hnat, h]
    rfl
  · rw [Char.ofNat, dif_neg hvalid] at h
    exact absurd h (by decide)

/-- Every shift ends above the dot. -/
theorem shiftCase_ne_dot {c : Char} (hc : c ≠ '.') : shiftCase lowercaseShifts c ≠ '.' := by
  have habove : ∀ r ∈ lowercaseShifts, 46 < (r.first : Int) + r.shift := by decide +kernel
  rw [shiftCase]
  split
  · rename_i r hfind
    intro heq
    have hcovers := List.find?_some hfind
    have hshift := habove r (List.mem_of_find?_eq_some hfind)
    simp only [CaseShift.covers, Bool.and_eq_true, decide_eq_true_eq] at hcovers
    have hnat := eq_of_ofNat_eq_dot heq
    omega
  · exact hc

theorem eq_dot_of_mem_lowerChar {before after : List Char} {c : Char}
    (h : '.' ∈ lowerChar before c after) : c = '.' := by
  rw [lowerChar] at h
  split at h
  · rename_i hascii
    exact toLower_eq_dot hascii (List.mem_singleton.mp h).symm
  split at h
  · split at h
    · exact absurd (List.mem_singleton.mp h) (by decide)
    · exact absurd (List.mem_singleton.mp h) (by decide)
  split at h
  · exact absurd h (by decide)
  · by_contra hc
    exact shiftCase_ne_dot hc (List.mem_singleton.mp h).symm

theorem dot_notMem_lowerAfter {before cs : List Char} (h : '.' ∉ cs) :
    '.' ∉ lowerAfter before cs := by
  induction cs generalizing before with
  | nil => exact List.not_mem_nil
  | cons c cs ih =>
      rw [List.mem_cons, not_or] at h
      rw [lowerAfter, List.mem_append, not_or]
      exact ⟨fun hmem => h.1 (eq_dot_of_mem_lowerChar hmem).symm, ih h.2⟩

theorem dotless_lower {s : String} (h : Dotless s) : Dotless (lower s) := by
  rw [Dotless, lower, String.toList_ofList]
  exact dot_notMem_lowerAfter h

end Text

/-- **A qualified name determines its package**, up to case, if the names have no dots. -/
theorem qualify_congr {p q m n : String} (hm : Dotless m) (hq : Dotless q) (hn : Dotless n)
    (h : qualify p m = qualify q n) (x : String) : qualify p x = qualify q x := by
  have hdot : ∀ {p m n : String}, Dotless n → Text.lower n ≠ Text.lower p ++ "." ++ Text.lower m := by
    intro p m n hn heq
    refine Text.dotless_lower hn ?_
    rw [heq]
    simp
  unfold qualify at h ⊢
  split at h
  · split at h
    · rename_i hpempty hqempty
      rw [if_pos hpempty, if_pos hqempty]
    · exact absurd h (hdot hm)
  · rename_i hpempty
    split at h
    · exact absurd h.symm (hdot hn)
    · rename_i hqempty
      rw [if_neg hpempty, if_neg hqempty]
      have hlists := congrArg String.toList h
      simp only [String.toList_append, List.append_assoc] at hlists
      have hpackage := ((List.append_cons_inj_of_notMem (Text.dotless_lower hq)
        (Text.dotless_lower hn)).mp hlists.symm).1
      rw [String.toList_inj.mp hpackage]

/-! ## Directives -/

/-- The names of the directive have no dots. -/
structure Directive.Plain (d : Directive) : Prop where
  package : Dotless d.package
  name : Dotless d.name

namespace Effects

variable {rs rs' : List Routine} {d : Directive}

/-- No two routines have one qualified name, and no catalog name has a dot. -/
structure Distinct (rs : List Routine) : Prop where
  nodup : (rs.map (·.qualifiedName)).Nodup
  plain : ∀ r ∈ rs, Dotless r.name

theorem qualifiedName_addHandler (handler : String) (r : Routine) :
    (addHandler handler r).qualifiedName = r.qualifiedName := by
  unfold addHandler
  split <;> rfl

/-- No effect gives a name twice. -/
theorem Effect.nodup_qualifiedName (h : Effect d rs rs') (hd : d.Plain) (hrs : Distinct rs) :
    (rs'.map (·.qualifiedName)).Nodup := by
  have hnodup := hrs.nodup
  cases h with
  | hide verb target =>
      refine hnodup.sublist (List.Sublist.map _ ?_)
      exact (List.sublist_cons_self _ _).append_left _
  | @rename before after r name verb exposed target free =>
      -- the name that was free is the one that the routine gets
      have hname : ({ r with exposedAs := some name } : Routine).qualifiedName =
          qualify d.package name :=
        qualify_congr (hrs.plain r (by simp)) hd.package hd.name target name
      have hfree : ∀ s ∈ before ++ after, s.qualifiedName ≠ qualify d.package name := by
        intro s hs
        refine free s ?_
        rw [List.mem_append] at hs
        rw [List.mem_append, List.mem_cons]
        tauto
      rw [List.map_append, List.map_cons, List.nodup_middle, ← List.map_append] at hnodup ⊢
      refine List.nodup_cons.mpr ⟨fun hmem => ?_, hnodup.of_cons⟩
      obtain ⟨s, hs, heq⟩ := List.mem_map.mp hmem
      exact hfree s hs (heq.trans hname)
  | replace verb target other taken =>
      have hrest := ((taken.map (·.qualifiedName)).nodup_iff.mp hnodup).of_cons
      rwa [List.map_append, List.map_cons] at hrest ⊢
  | handle verb =>
      rw [List.map_map]
      convert hnodup using 2
      funext r
      rw [Function.comp_apply]
      split
      · exact qualifiedName_addHandler _ r
      · rfl
  | cap verb target =>
      rwa [List.map_append, List.map_cons] at hnodup ⊢

theorem Distinct.step (h : Effect d rs rs') (hd : d.Plain) (hrs : Distinct rs) : Distinct rs' where
  nodup := h.nodup_qualifiedName hd hrs
  plain r hr := by
    obtain ⟨s, hs, horigin, -⟩ := h.exists_before r hr
    rw [← show s.name = r.name from congrArg Routine.Origin.name horigin]
    exact hrs.plain s hs

/-- **Directives in any order give no name twice.** -/
theorem Distinct.applyEach {ds : List Directive} (hds : ∀ d ∈ ds, d.Plain) (hrs : Distinct rs) :
    Distinct (applyEach ds rs).1 :=
  applyEach_induction (P := Distinct) (fun d hd _ _ heffect => .step heffect (hds d hd)) hrs

end Effects

/-! ## Models -/

namespace Model

/-- Routines are in strictly increasing order of their names, and the layout has for each of them
the messages that are made from it. -/
structure Addresses (m : Model) (options : Options) : Prop where
  increasing : (m.routines.map (·.qualifiedName)).Pairwise (· < ·)
  call : ∀ r ∈ m.routines, ∃ c, m.layout.call? r = some c ∧ c = Layout.call r m.types options ∧
    c.IsFor r

end Model

namespace Assembly

theorem increasing_sortRoutines {rs : List Routine} (hnodup : (rs.map (·.qualifiedName)).Nodup) :
    ((sortRoutines rs).map (·.qualifiedName)).Pairwise (· < ·) := by
  have hle : ∀ {a b : Routine}, (compare a.qualifiedName b.qualifiedName != .gt) = true ↔
      a.qualifiedName ≤ b.qualifiedName := by
    intro a b
    rw [bne_iff_ne, compare_le_iff_le]
  have hsorted : (sortRoutines rs).Pairwise fun a b => a.qualifiedName ≤ b.qualifiedName := by
    refine (List.pairwise_mergeSort ?_ ?_ rs).imp hle.mp
    · intro a b c hab hbc
      exact hle.mpr ((hle.mp hab).trans (hle.mp hbc))
    · intro a b
      rw [Bool.or_eq_true, hle, hle]
      exact le_total _ _
  have hperm : (sortRoutines rs).Perm rs := List.mergeSort_perm rs _
  have hne : ((sortRoutines rs).map (·.qualifiedName)).Nodup :=
    (hperm.map _).nodup_iff.mpr hnodup
  exact (List.pairwise_map.mpr hsorted).and hne |>.imp fun ⟨hle, hne⟩ => lt_of_le_of_ne hle hne

/-- What signatures are converted to is exposed under the names of the catalog. -/
theorem distinct_of_converts {g : Gathered} {ss : List Signature} {rs : List Routine}
    (h : List.Forall₂ (Converts g) ss rs) (hss : ∀ s ∈ ss, Dotless s.name)
    (hkeys : (rs.map (·.catalogKey)).Nodup) : Effects.Distinct rs := by
  constructor
  · rw [List.map_congr_left (g := (·.catalogKey))]
    · exact hkeys
    · intro r hr
      obtain ⟨s, -, hs⟩ := Grouping.exists_of_mem_right h hr
      rw [Routine.qualifiedName, Routine.exposedName, hs.untouched.1]
      rfl
  · intro r hr
    obtain ⟨s, hs, hr⟩ := Grouping.exists_of_mem_right h hr
    rw [hr.names.2.2]
    exact hss s hs

/-- **Exposed names are unique, and every routine finds its own messages**, whatever directives
were applied in whatever order, if there is no dot in the name of an object and none in the package
and the target of a directive. -/
theorem assemble_addresses (options : Options) (g : Gathered)
    (hsignatures : ∀ s ∈ g.signatures, Dotless s.name)
    (hdirectives : ∀ d ∈ directives g, d.Plain)
    (model : Model) (summary : Summary) (h : assemble options g = .ok (model, summary)) :
    model.Addresses options := by
  obtain ⟨start, types, -, rfl, hconverted, hkeys, -, -⟩ := exists_start_of_assemble h
  have hstart : Effects.Distinct start :=
    distinct_of_converts hconverted (fun s hs => hsignatures s (takenUp_subset _ _ _ hs)) hkeys
  have hleft := hstart.applyEach fun d hd => hdirectives d (Effects.mem_inOrder.mp hd)
  have hincreasing := increasing_sortRoutines hleft.nodup
  refine ⟨hincreasing, fun r hr => ⟨_, ?_, rfl, Layout.isFor_call _ _ _⟩⟩
  exact Model.call?_freeze (hincreasing.imp ne_of_lt) hr

/-- Renames where each takes the name that the one before gave up. -/
def sampleRenames : Gathered where
  signatures := ["A", "B", "C"].map fun name =>
    { owner := "APP", package := "PKG", name, subprogramId := 1, arguments := [], returns := none }
  resolutions := .empty
  packages := .empty
  extraDirectives :=
    [⟨"PKG", .rename, "A", some "FIRST", none, none⟩, ⟨"PKG", .rename, "B", some "A", none, none⟩,
      ⟨"PKG", .rename, "C", some "B", none, none⟩]
  warnings := []
  typeFetches := 0

theorem assemble_addresses_sample :
    ∃ model summary, assemble {} sampleRenames = .ok (model, summary) ∧
      model.routines.length = 3 ∧
      (∃ r ∈ model.routines, r.name = "C" ∧ r.qualifiedName = "pkg.b") ∧
      model.Addresses {} := by
  obtain ⟨p, hfold, hlength, hrenamed⟩ : ∃ p,
      sampleRenames.signatures.foldlM (takeUp sampleRenames {}) ⟨[], .empty, []⟩ = .ok p ∧
      (Effects.applyAll (directives sampleRenames) p.routines).1.length = 3 ∧
      (Effects.applyAll (directives sampleRenames) p.routines).1[2]? =
        some { Routine.named "APP" "PKG" "C" with exposedAs := some "B" } := ⟨_, rfl, rfl, rfl⟩
  obtain ⟨summary, h, -⟩ := exists_assemble_of_foldlM hfold
  refine ⟨_, summary, h, (List.length_mergeSort _).trans hlength,
    ⟨_, List.mem_mergeSort.mpr (List.mem_of_getElem? hrenamed), rfl, by decide⟩,
    assemble_addresses {} sampleRenames (by decide) ?_ _ summary h⟩
  intro d hd
  have hplain : ∀ d ∈ sampleRenames.extraDirectives, Dotless d.package ∧ Dotless d.name := by decide
  exact ⟨(hplain d hd).1, (hplain d hd).2⟩

end Assembly

end RoutineBridge
