import RoutineBridge.Proofs.Resolution

/-!
# Kinds of definitions and of their uses

The kind of a use is compared with the definition when the definition is looked up, and a name that
has a definition already is not looked up again. So a use of another kind passes unnoticed where a
use of the right kind came before it, and nowhere else (`resolve_kinds`): a table may refer to a
record as a collection (`resolve_kinds_diamond`).
-/

namespace RoutineBridge

open Relation Inquiry

variable {c : Catalog} {u v : Composite.Ref} {n : TypeName} {d : Composite} {res : Resolution}

/-- The use that was asked for, or a reference of a definition. -/
def Resolution.Uses (res : Resolution) (u v : Composite.Ref) : Prop :=
  v = u ∨ ∃ n d, res.types.get? n = some d ∧ v ∈ d.references

/-- Whatever a use leads to is used with one kind under each name. -/
def Catalog.OneKind (c : Catalog) (u : Composite.Ref) : Prop :=
  ∀ v w, c.LeadsTo u v → c.LeadsTo u w → v.name = w.name → v.kind.stored = w.kind.stored

theorem Catalog.oneKind_of_uses (h : ∀ v ∈ u :: c.uses, ∀ w ∈ u :: c.uses, v.name = w.name →
    v.kind.stored = w.kind.stored) : c.OneKind u :=
  fun v w hv hw => h v hv.mem_uses w hw.mem_uses

namespace Resolution.Complete

theorem contains_of_uses (h : Complete c u res) (hv : res.Uses u v) :
    res.types.contains v.name := by
  rcases hv with rfl | ⟨n, d, hget, hv⟩
  · rcases h.root with ⟨-, hget, -⟩ | ⟨-, -, attributes, hget⟩
    · exact TypeTable.contains_of_get? hget
    · exact TypeTable.contains_of_get? hget
  · exact h.grown.closed hget v hv

/-- The kind of a definition is that of one of the uses of its name. -/
theorem exists_use (h : Complete c u res) (hget : res.types.get? n = some d) :
    ∃ w, res.Uses u w ∧ c.LeadsTo u w ∧ w.name = n ∧ w.kind.stored = d.kind := by
  obtain ⟨w, hused, hname, hkind, hw | hw⟩ := h.agreed n d hget
  · exact ⟨w, .inl (List.mem_singleton.mp hw), hused, hname, hkind⟩
  · exact ⟨w, .inr hw, hused, hname, hkind⟩

/-- The use leads to everything that a resolution of it uses. -/
theorem leadsTo (h : Complete c u res) (hv : res.Uses u v) : c.LeadsTo u v := by
  rcases hv with rfl | ⟨n, d, hget, hv⟩
  · exact .refl
  · obtain ⟨w, -, hused, rfl, hkind⟩ := h.exists_use hget
    obtain ⟨entry, hheld, hentry, hreferences⟩ := (h.grown.describes hget).mem_references
    obtain ⟨m, hm, htype⟩ := (hreferences v).mp hv
    exact hused.tail ⟨entry, hheld, hentry.trans hkind.symm, m, hm, htype⟩

/-- Where every name is used with one kind, definitions are of this kind. -/
theorem kind_eq (h : Complete c u res) (hone : c.OneKind u) (hv : c.LeadsTo u v)
    (hget : res.types.get? v.name = some d) : d.kind = v.kind.stored := by
  obtain ⟨w, -, hw, hname, hkind⟩ := h.exists_use hget
  rw [← hkind, hone w v hw hv hname]

/-- Where every name is used with one kind, nothing that the use leads to is left out. -/
theorem get?_of_leadsTo (h : Complete c u res) (hone : c.OneKind u) (hv : c.LeadsTo u v) :
    ∃ d, res.types.get? v.name = some d ∧ d.kind = v.kind.stored := by
  have hcontains : res.types.contains v.name := by
    induction hv with
    | refl => exact h.contains_of_uses (.inl rfl)
    | @tail x y hx hxy ih =>
        obtain ⟨d, hget⟩ := TypeTable.contains_iff.mp ih
        obtain ⟨entry, hheld, hkind, m, hm, htype⟩ := hxy
        obtain ⟨entry', hheld', hkind', hreferences⟩ := (h.grown.describes hget).mem_references
        -- both entries are of the kind that the name is used with
        obtain rfl : entry' = entry := by
          refine hheld'.eq_of_kind hheld ?_
          rw [hkind', hkind, h.kind_eq hone hx hget]
        exact h.grown.closed hget y ((hreferences y).mpr ⟨m, hm, htype⟩)
  obtain ⟨d, hget⟩ := TypeTable.contains_iff.mp hcontains
  exact ⟨d, hget, h.kind_eq hone hv hget⟩

end Resolution.Complete

namespace Resolver

/-- **A use of another kind passes only behind one of the right kind.** Whatever was resolved
before: everything a resolution uses has a definition, and this definition is of the kind of the use
or of another use of the same name. So if every name is used with one kind, all uses are of the
kind of their definitions, and a use that the catalog has no entry of its kind for makes the
resolution fail: with what it is itself refused for, or with another error found before it. -/
theorem resolve_kinds (c : Catalog) (calls : List Composite.Ref) (u : Composite.Ref) :
    (∀ res, ((after c calls).resolve c u).1 = .ok res → ∀ v, res.Uses u v →
      ∃ d, res.types.get? v.name = some d ∧
        ∃ w, res.Uses u w ∧ w.name = v.name ∧ w.kind.stored = d.kind) ∧
    (c.OneKind u → ∀ res, ((after c calls).resolve c u).1 = .ok res → ∀ v, res.Uses u v →
      ∃ d, res.types.get? v.name = some d ∧ d.kind = v.kind.stored) ∧
    (c.OneKind u → ∀ v, c.LeadsTo u v → (∀ d, c.Holds v.name d → d.kind ≠ v.kind.stored) →
      ∃ e, ((after c calls).resolve c u).1 = .error e ∧
        (c.Fails u e ∨ ∃ w, c.LeadsTo u w ∧
          (e = .notFound w.name ∨ (∃ found, e = .kindMismatch w.name w.kind.stored found) ∨
            ∃ kind f, c.outages.error? kind w.name = some f ∧ e = .catalog f))) := by
  refine ⟨?_, ?_, ?_⟩
  · intro res hres v hv
    have hcomplete : Resolution.Complete c u res := complete_of_ok hres
    obtain ⟨d, hget⟩ := TypeTable.contains_iff.mp (hcomplete.contains_of_uses hv)
    obtain ⟨w, hw, -, hname, hkind⟩ := hcomplete.exists_use hget
    exact ⟨d, hget, w, hw, hname, hkind⟩
  · intro hone res hres v hv
    have hcomplete : Resolution.Complete c u res := complete_of_ok hres
    exact hcomplete.get?_of_leadsTo hone (hcomplete.leadsTo hv)
  · intro hone v hv hnone
    rcases resolve_outcome c calls u with ⟨res, -, hcomplete⟩ | ⟨e, hres, herror⟩
    · -- the definition of `v` would come from an entry of its kind
      obtain ⟨d, hget, hkind⟩ := hcomplete.get?_of_leadsTo hone hv
      obtain ⟨entry, hheld, hentry, -⟩ := (hcomplete.grown.describes hget).mem_references
      exact absurd (hentry.trans hkind) (hnone entry hheld)
    · exact ⟨e, hres, herror.imp_right Refused.cases⟩

/-- A record that uses `X` twice; `X` is a record. -/
def sampleKinds (first second : String) : Catalog where
  snapshot := Snapshot.empty
    |>.withRecord ⟨"APP", "PKG", "TOP"⟩ [sampleMember "A" first "X", sampleMember "B" second "X"]
    |>.withRecord ⟨"APP", "PKG", "X"⟩ [{ name := "ID", dataKind := "NUMBER" }]

def sampleUse : Composite.Ref := ⟨.record, ⟨"APP", "PKG", "TOP"⟩⟩

theorem resolve_kinds_sample :
    (∃ res d, ((after (sampleKinds "PL/SQL RECORD" "PL/SQL TABLE") []).resolve
        (sampleKinds "PL/SQL RECORD" "PL/SQL TABLE") sampleUse).1 = .ok res ∧
      res.types.get? ⟨"APP", "PKG", "X"⟩ = some d ∧
      ∃ w, res.Uses sampleUse w ∧ w.name = ⟨"APP", "PKG", "X"⟩ ∧ w.kind.stored = d.kind) ∧
    (sampleKinds "REF CURSOR" "PL/SQL RECORD").OneKind sampleUse ∧
    (∃ res d, ((after (sampleKinds "REF CURSOR" "PL/SQL RECORD") []).resolve
        (sampleKinds "REF CURSOR" "PL/SQL RECORD") sampleUse).1 = .ok res ∧
      res.types.get? ⟨"APP", "PKG", "X"⟩ = some d ∧ d.kind = .record) ∧
    (sampleKinds "PL/SQL TABLE" "PL/SQL TABLE").OneKind sampleUse ∧
    ∃ e, ((after (sampleKinds "PL/SQL TABLE" "PL/SQL TABLE") []).resolve
      (sampleKinds "PL/SQL TABLE" "PL/SQL TABLE") sampleUse).1 = .error e := by
  refine ⟨?_, ?_, ?_, ?_, ?_⟩
  · obtain ⟨res, hres, d, htop, hd⟩ : ∃ res,
        ((after (sampleKinds "PL/SQL RECORD" "PL/SQL TABLE") []).resolve
          (sampleKinds "PL/SQL RECORD" "PL/SQL TABLE") sampleUse).1 = .ok res ∧
        ∃ d, res.types.get? ⟨"APP", "PKG", "TOP"⟩ = some d ∧
          ⟨.collection, ⟨"APP", "PKG", "X"⟩⟩ ∈ d.references :=
      ⟨_, rfl, _, rfl, .tail _ (.head _)⟩
    obtain ⟨e, he, hw⟩ := (resolve_kinds (sampleKinds "PL/SQL RECORD" "PL/SQL TABLE") []
      sampleUse).1 res hres _ (.inr ⟨_, d, htop, hd⟩)
    exact ⟨res, e, hres, he, hw⟩
  · exact Catalog.oneKind_of_uses (by decide +kernel)
  · obtain ⟨res, hres, d, htop, hd⟩ : ∃ res,
        ((after (sampleKinds "REF CURSOR" "PL/SQL RECORD") []).resolve
          (sampleKinds "REF CURSOR" "PL/SQL RECORD") sampleUse).1 = .ok res ∧
        ∃ d, res.types.get? ⟨"APP", "PKG", "TOP"⟩ = some d ∧
          ⟨.cursor, ⟨"APP", "PKG", "X"⟩⟩ ∈ d.references :=
      ⟨_, rfl, _, rfl, .head _⟩
    obtain ⟨e, he, hkind⟩ := (resolve_kinds (sampleKinds "REF CURSOR" "PL/SQL RECORD") []
      sampleUse).2.1 (Catalog.oneKind_of_uses (by decide +kernel)) res hres
      _ (.inr ⟨_, d, htop, hd⟩)
    exact ⟨res, e, hres, he, hkind⟩
  · exact Catalog.oneKind_of_uses (by decide +kernel)
  · have hnone : ∀ d, (sampleKinds "PL/SQL TABLE" "PL/SQL TABLE").Holds ⟨"APP", "PKG", "X"⟩ d →
        d.kind ≠ .collection := by
      rintro d (⟨held, -⟩ | held) hkind
      · cases hkind
      · cases held
    have hled : (sampleKinds "PL/SQL TABLE" "PL/SQL TABLE").LeadsTo
        sampleUse ⟨.collection, ⟨"APP", "PKG", "X"⟩⟩ :=
      .single ⟨_, .record rfl (List.cons_ne_nil _ _), rfl, _, .head _, rfl⟩
    obtain ⟨e, he, -⟩ := (resolve_kinds (sampleKinds "PL/SQL TABLE" "PL/SQL TABLE") []
      sampleUse).2.2 (Catalog.oneKind_of_uses (by decide +kernel)) _ hled
      hnone
    exact ⟨e, he⟩

/-- A table may refer to a record as a collection. -/
theorem resolve_kinds_diamond :
    ¬ ∀ res, ((after (sampleKinds "PL/SQL RECORD" "PL/SQL TABLE") []).resolve
        (sampleKinds "PL/SQL RECORD" "PL/SQL TABLE") sampleUse).1 = .ok res →
      ∀ n d, res.types.get? n = some d → ∀ r ∈ d.references, ∀ e,
        res.types.get? r.name = some e → e.kind = r.kind.stored := by
  intro h
  obtain ⟨res, hres, d, htop, hd, e, hx, he⟩ : ∃ res,
      ((after (sampleKinds "PL/SQL RECORD" "PL/SQL TABLE") []).resolve
        (sampleKinds "PL/SQL RECORD" "PL/SQL TABLE") sampleUse).1 = .ok res ∧
      ∃ d, res.types.get? ⟨"APP", "PKG", "TOP"⟩ = some d ∧
        d.references = [⟨.record, ⟨"APP", "PKG", "X"⟩⟩, ⟨.collection, ⟨"APP", "PKG", "X"⟩⟩] ∧
      ∃ e, res.types.get? ⟨"APP", "PKG", "X"⟩ = some e ∧ e.kind = .record :=
    ⟨_, rfl, _, rfl, rfl, _, rfl, rfl⟩
  have hkind := h res hres _ d htop ⟨.collection, ⟨"APP", "PKG", "X"⟩⟩ (by simp [hd]) e hx
  rw [he] at hkind
  cases hkind

end Resolver

end RoutineBridge
