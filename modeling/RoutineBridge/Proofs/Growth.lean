import RoutineBridge.Proofs.Extensionality
import RoutineBridge.Proofs.References

/-!
# Tables that grow from the leaves

A walk takes up a definition after everything it refers to. A table that grows in this way from
nothing holds only what the catalog says (`Grows.describes`), leads nowhere outside itself
(`Grows.closed`), and has no cycles, since nothing refers to the newest definition
(`Grows.acyclic`).
-/

namespace RoutineBridge

open Relation

variable {c : Catalog}

/-! ## Descriptions -/

/-- What the entry under a name defines: every member at its place and with its own type. -/
inductive Catalog.Describes (c : Catalog) (n : TypeName) : Composite → Prop
  | record {members : List MemberRow} {attributes : List Attribute}
      (held : c.snapshot.records.get? n = some members) (known : members ≠ [])
      (typed : List.Forall₂ (fun m a => a.name = m.name ∧ m.dataType n = .ok a.dataType) members
        attributes) : Describes c n (.record n attributes)
  | collection {row : CollectionRow} {element : DataType}
      (held : c.snapshot.collections.get? n = some row)
      (typed : row.element.dataType n = .ok element) :
      Describes c n (.collection n element (if row.indexed then .associative else .dense))

namespace Catalog.Describes

variable {n : TypeName} {d : Composite}

theorem name_eq (h : c.Describes n d) : d.name = n := by
  cases h <;> rfl

theorem kind_ne_cursor (h : c.Describes n d) : d.kind ≠ .cursor := by
  cases h <;> simp [Composite.kind]

theorem mem_filterMap_ref? {members : List MemberRow} {attributes : List Attribute}
    (h : List.Forall₂ (fun m a => a.name = m.name ∧ m.dataType n = .ok a.dataType) members
      attributes) (r : Composite.Ref) :
    r ∈ attributes.filterMap (·.dataType.ref?) ↔
      ∃ m ∈ members, m.dataType n = .ok (.composite r) := by
  induction h with
  | nil => simp
  | @cons m a ms as hma _ ih =>
      have hhead : a.dataType.ref? = some r ↔ m.dataType n = .ok (.composite r) := by
        rw [hma.2]
        cases a.dataType <;> simp [DataType.ref?]
      simp only [List.mem_filterMap, List.mem_cons, exists_eq_or_imp] at ih ⊢
      rw [hhead, ih]

/-- A definition refers to what the members of its entry refer to. -/
theorem mem_references (h : c.Describes n d) :
    ∃ entry, c.Holds n entry ∧ entry.kind = d.kind ∧
      ∀ r, r ∈ d.references ↔ ∃ m ∈ entry.members, m.dataType n = .ok (.composite r) := by
  cases h with
  | @record members attributes held known typed =>
      exact ⟨.record members, .record held known, rfl, mem_filterMap_ref? typed⟩
  | @collection row element held typed =>
      refine ⟨.collection row, .collection held, rfl, fun r => ?_⟩
      simp only [Composite.references, Definition.members, List.mem_singleton, exists_eq_left,
        typed]
      cases element <;> simp [DataType.ref?, eq_comm]

end Catalog.Describes

/-! ## Growth -/

namespace TypeTable

/-- One table becomes another by taking up described definitions, each after what it refers to. -/
inductive Grows (c : Catalog) (t : TypeTable) : TypeTable → Prop
  | refl : Grows c t t
  | insert {u : TypeTable} {n : TypeName} {d : Composite} (grown : Grows c t u)
      (described : c.Describes n d) (fresh : u.contains n = false)
      (covered : ∀ r ∈ d.references, u.contains r.name) : Grows c t (u.insert d)

namespace Grows

variable {t u v : TypeTable} {a b n : TypeName} {d : Composite}

theorem trans (h : Grows c t u) (h' : Grows c u v) : Grows c t v := by
  induction h' with
  | refl => exact h
  | insert _ described fresh covered ih => exact .insert ih described fresh covered

/-- Definitions stay as they are. -/
theorem get? (h : Grows c t u) (hget : t.get? n = some d) : u.get? n = some d := by
  induction h with
  | refl => exact hget
  | @insert u m e _ described fresh _ ih =>
      -- the new name had no definition, so none is replaced
      rw [get?_insert_of_ne, ih]
      rintro rfl
      rw [described.name_eq] at ih
      rw [contains_of_get? ih] at fresh
      cases fresh

theorem contains (h : Grows c t u) (hn : t.contains n) : u.contains n := by
  obtain ⟨d, hget⟩ := contains_iff.mp hn
  exact contains_of_get? (h.get? hget)

theorem refers (h : Grows c t u) (hab : t.Refers a b) : u.Refers a b := by
  obtain ⟨d, hget, hb⟩ := hab
  exact ⟨d, h.get? hget, hb⟩

theorem reaches (h : Grows c t u) (hab : t.Reaches a b) : u.Reaches a b :=
  ReflTransGen.mono (fun _ _ => h.refers) a b hab

/-- What is found after a definition was taken up. -/
theorem get?_insert_cases (described : c.Describes n d) (fresh : u.contains n = false)
    {e : Composite} (hget : (u.insert d).get? a = some e) :
    (a = n ∧ e = d) ∨ (a ≠ n ∧ u.get? a = some e) := by
  obtain rfl := described.name_eq
  by_cases ha : a = d.name
  · subst ha
    rw [get?_insert_self described.kind_ne_cursor fresh] at hget
    exact .inl ⟨rfl, (Option.some.inj hget).symm⟩
  · rw [get?_insert_of_ne u ha] at hget
    exact .inr ⟨ha, hget⟩

/-- A table grown from nothing holds what the catalog says. -/
theorem describes (h : Grows c .empty t) (hget : t.get? n = some d) : c.Describes n d := by
  induction h with
  | refl => cases hget
  | insert _ described fresh _ ih =>
      rcases get?_insert_cases described fresh hget with ⟨rfl, rfl⟩ | ⟨-, hget⟩
      · exact described
      · exact ih hget

theorem proper (h : Grows c .empty t) : t.Proper := fun _ _ hget =>
  ⟨(h.describes hget).name_eq, (h.describes hget).kind_ne_cursor⟩

/-- A table grown from nothing has a definition for everything its definitions refer to. -/
theorem closed (h : Grows c .empty t) (hget : t.get? n = some d) :
    ∀ r ∈ d.references, t.contains r.name := by
  induction h with
  | refl => cases hget
  | @insert u m e grown described fresh covered ih =>
      have hgrows : Grows c u (u.insert e) := .insert .refl described fresh covered
      rcases get?_insert_cases described fresh hget with ⟨rfl, rfl⟩ | ⟨-, hget⟩
      · exact fun r hr => hgrows.contains (covered r hr)
      · exact fun r hr => hgrows.contains (ih hget r hr)

theorem refers_contains (h : Grows c .empty t) (hab : t.Refers a b) : t.contains b := by
  obtain ⟨d, hget, r, hr, rfl⟩ := hab
  exact h.closed hget r hr

/-- **A table grown from nothing has no cycle.** -/
theorem acyclic (h : Grows c .empty t) : ¬ TransGen t.Refers n n := by
  induction h generalizing n with
  | refl =>
      intro hcycle
      obtain ⟨m, ⟨d, hget, -⟩, -⟩ := TransGen.head'_iff.mp hcycle
      cases hget
  | @insert u new d grown described fresh covered ih =>
      -- nothing refers to the new name, so a path from any other name is one of before
      have hstep : ∀ a b, (u.insert d).Refers a b → b ≠ new ∧ (a ≠ new → u.Refers a b) := by
        rintro a b ⟨e, hget, r, hr, rfl⟩
        have hne : ∀ m, u.contains m → m ≠ new := by
          rintro m hm rfl
          rw [hm] at fresh
          cases fresh
        rcases get?_insert_cases described fresh hget with ⟨rfl, rfl⟩ | ⟨-, hget⟩
        · exact ⟨hne _ (covered r hr), fun h => absurd rfl h⟩
        · exact ⟨hne _ (grown.closed hget r hr), fun _ => ⟨e, hget, r, hr, rfl⟩⟩
      have hpath : ∀ a b, TransGen (u.insert d).Refers a b → a ≠ new → TransGen u.Refers a b := by
        intro a b hab ha
        induction hab with
        | single hab => exact .single ((hstep _ _ hab).2 ha)
        | tail hprev hlast ih' =>
            obtain ⟨m, -, hm⟩ := TransGen.tail'_iff.mp hprev
            exact .tail ih' ((hstep _ _ hlast).2 (hstep _ _ hm).1)
      intro hcycle
      obtain ⟨m, -, hm⟩ := TransGen.tail'_iff.mp hcycle
      exact ih (hpath n n hcycle (hstep _ _ hm).1)

end Grows

end TypeTable

end RoutineBridge
