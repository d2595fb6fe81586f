import RoutineBridge.Proofs.Extensionality
import RoutineBridge.Proofs.References

/-!
# Reachable definitions

While names are taken from a list of pending names, everything that was reached so far is found or
pending (`Frontier`), and every step keeps it so. When nothing is pending any more, what is found is
what the roots lead to (`get?_reachableFrom`).
-/

namespace RoutineBridge.TypeTable

open Relation

/-- Between two steps: `found` has definitions of `t` that the roots lead to, and what the roots or
these definitions refer to is found, pending, or without a definition. -/
structure Frontier (t : TypeTable) (roots unseen pending : List TypeName) (found : TypeTable) :
    Prop where
  nodup : unseen.Nodup
  sub : ∀ n d, found.get? n = some d → t.get? n = some d
  met : ∀ n, t.contains n → (found.contains n ↔ n ∉ unseen)
  reached : ∀ n, found.contains n ∨ n ∈ pending → ∃ r ∈ roots, t.Reaches r n
  covered : ∀ n, t.contains n → (n ∈ roots ∨ ∃ m, found.contains m ∧ t.Refers m n) →
    found.contains n ∨ n ∈ pending

variable {t found : TypeTable} {roots unseen pending : List TypeName} {n : TypeName} {d : Composite}

theorem contains_insert_fresh (hkind : d.kind ≠ .cursor) (hfresh : found.contains d.name = false)
    (a : TypeName) : (found.insert d).contains a ↔ a = d.name ∨ found.contains a := by
  by_cases ha : a = d.name
  · simp [ha, contains_of_get? (get?_insert_self hkind hfresh)]
  · rw [contains_insert_of_ne found ha]
    simp [ha]

namespace Frontier

theorem start (t : TypeTable) (roots : List TypeName) :
    t.Frontier roots t.definitions.keys roots empty where
  nodup := SortedMap.nodup_keys _
  sub n d h := by cases h
  met n hn := by
    have hkey : n ∈ t.definitions.keys := SortedMap.contains_iff_mem_keys.mp hn
    simp [hkey, contains, empty, SortedMap.contains, SortedMap.get?, SortedMap.empty]
  reached n hn := by
    rcases hn with hn | hn
    · cases hn
    · exact ⟨n, hn, .refl⟩
  covered n _ hn := by
    rcases hn with hn | ⟨m, hm, -⟩
    · exact .inr hn
    · cases hm

/-- A name that was met before. -/
theorem skip (h : t.Frontier roots unseen (n :: pending) found) (hn : n ∉ unseen) :
    t.Frontier roots unseen pending found where
  nodup := h.nodup
  sub := h.sub
  met := h.met
  reached a ha := h.reached a (ha.imp_right (List.mem_cons_of_mem n))
  covered a ha hreached := by
    rcases h.covered a ha hreached with hfound | hpending
    · exact .inl hfound
    · rcases List.mem_cons.mp hpending with rfl | hpending
      · exact .inl ((h.met a ha).mpr hn)
      · exact .inr hpending

/-- A name without a definition. -/
theorem pass (h : t.Frontier roots unseen (n :: pending) found) (hget : t.get? n = none) :
    t.Frontier roots (unseen.erase n) pending found where
  nodup := h.nodup.erase n
  sub := h.sub
  met a ha := by
    rw [h.met a ha, List.mem_erase_of_ne]
    rintro rfl
    rw [contains_iff, hget] at ha
    obtain ⟨d, hd⟩ := ha
    cases hd
  reached a ha := h.reached a (ha.imp_right (List.mem_cons_of_mem n))
  covered a ha hreached := by
    refine (h.covered a ha hreached).imp_right fun hpending => ?_
    rcases List.mem_cons.mp hpending with rfl | hpending
    · rw [contains_iff, hget] at ha
      obtain ⟨d, hd⟩ := ha
      cases hd
    · exact hpending

/-- A new name with a definition. -/
theorem take (h : t.Frontier roots unseen (n :: pending) found) (ht : t.Proper) (hn : n ∈ unseen)
    (hget : t.get? n = some d) :
    t.Frontier roots (unseen.erase n) (d.references.map (·.name) ++ pending) (found.insert d) := by
  obtain ⟨rfl, hkind⟩ := ht n d hget
  have hfresh : found.contains d.name = false := by
    rw [Bool.eq_false_iff, Ne, h.met d.name (contains_of_get? hget), not_not]
    exact hn
  have hcontains := contains_insert_fresh hkind hfresh
  have hroot : ∃ r ∈ roots, t.Reaches r d.name := h.reached d.name (.inr List.mem_cons_self)
  refine ⟨h.nodup.erase _, ?_, ?_, ?_, ?_⟩
  · intro a e ha
    by_cases hne : a = d.name
    · subst hne
      rw [get?_insert_self hkind hfresh] at ha
      rwa [← Option.some.inj ha]
    · rw [get?_insert_of_ne found hne] at ha
      exact h.sub a e ha
  · intro a ha
    rw [hcontains, h.met a ha, h.nodup.mem_erase_iff]
    tauto
  · intro a ha
    rw [hcontains, List.mem_append, List.mem_map] at ha
    rcases ha with (rfl | ha) | ⟨r, hr, rfl⟩ | ha
    · exact hroot
    · exact h.reached a (.inl ha)
    · -- one step further than the new name
      obtain ⟨root, hmem, hreach⟩ := hroot
      exact ⟨root, hmem, hreach.tail ⟨d, hget, r, hr, rfl⟩⟩
    · exact h.reached a (.inr (List.mem_cons_of_mem _ ha))
  · intro a ha hreached
    rw [hcontains, List.mem_append]
    by_cases hne : a = d.name
    · exact .inl (.inl hne)
    have hbefore : (a ∈ roots ∨ ∃ m, found.contains m ∧ t.Refers m a) →
        (a = d.name ∨ found.contains a) ∨ a ∈ d.references.map (·.name) ∨ a ∈ pending := by
      intro hbefore
      rcases h.covered a ha hbefore with hfound | hpending
      · exact .inl (.inr hfound)
      · exact .inr (.inr ((List.mem_cons.mp hpending).resolve_left hne))
    rcases hreached with hroots | ⟨m, hm, hrefers⟩
    · exact hbefore (.inl hroots)
    · rcases (hcontains m).mp hm with rfl | hm
      · obtain ⟨e, he, r, hr, rfl⟩ := hrefers
        obtain rfl : d = e := Option.some.inj (hget.symm.trans he)
        exact .inr (.inl (List.mem_map_of_mem hr))
      · exact hbefore (.inr ⟨m, hm, hrefers⟩)

/-- When nothing is pending, what the roots lead to is found. -/
theorem contains_of_reaches (h : t.Frontier roots unseen [] found) {r : TypeName} (hr : r ∈ roots)
    (hreach : t.Reaches r n) (hn : t.contains n) : found.contains n := by
  induction hreach with
  | refl => exact (h.covered r hn (.inl hr)).resolve_right List.not_mem_nil
  | @tail m n _ hrefers ih =>
      obtain ⟨d, hget, -⟩ := id hrefers
      have hm := ih (contains_of_get? hget)
      exact (h.covered n hn (.inr ⟨m, hm, hrefers⟩)).resolve_right List.not_mem_nil

end Frontier

/-- Collecting ends with nothing pending. -/
theorem frontier_collect (ht : t.Proper) (h : t.Frontier roots unseen pending found) :
    ∃ unseen', t.Frontier roots unseen' [] (t.collect unseen pending found) := by
  induction unseen, pending, found using collect.induct t with
  | case1 unseen found => exact ⟨unseen, by rwa [collect]⟩
  | case2 unseen found n pending hn d hget ih =>
      rw [collect, dif_pos hn, hget]
      exact ih (h.take ht hn hget)
  | case3 unseen found n pending hn hget ih =>
      rw [collect, dif_pos hn, hget]
      exact ih (h.pass hget)
  | case4 unseen found n pending hn ih =>
      rw [collect, dif_neg hn]
      exact ih (h.skip hn)

/-- **Pruning keeps what is reached**, and nothing else. -/
theorem get?_reachableFrom (ht : t.Proper) (types : List DataType) :
    (t.reachableFrom types).get? n = some d ↔
      t.get? n = some d ∧ ∃ r ∈ TypeTable.roots types, t.Reaches r n := by
  obtain ⟨unseen, h⟩ := frontier_collect ht (Frontier.start t (TypeTable.roots types))
  constructor
  · intro hget
    exact ⟨h.sub n d hget, h.reached n (.inl (contains_of_get? hget))⟩
  · rintro ⟨hget, r, hr, hreach⟩
    obtain ⟨e, he⟩ := contains_iff.mp (h.contains_of_reaches hr hreach (contains_of_get? hget))
    obtain rfl : d = e := Option.some.inj (hget.symm.trans (h.sub n e he))
    exact he

theorem contains_reachableFrom (ht : t.Proper) (types : List DataType) :
    (t.reachableFrom types).contains n ↔
      t.contains n ∧ ∃ r ∈ TypeTable.roots types, t.Reaches r n := by
  simp only [contains_iff, get?_reachableFrom ht, exists_and_right]

/-- The roots lead to as much as before. -/
theorem reaches_reachableFrom (ht : t.Proper) {types : List DataType} {r : TypeName}
    (hr : r ∈ TypeTable.roots types) (hreach : t.Reaches r n) :
    (t.reachableFrom types).Reaches r n := by
  induction hreach with
  | refl => exact .refl
  | tail hm hrefers ih =>
      obtain ⟨d, hget, hreference⟩ := hrefers
      exact ih.tail ⟨d, (get?_reachableFrom ht types).mpr ⟨hget, r, hr, hm⟩, hreference⟩

/-! ## Closed tables -/

/-- Whatever a definition refers to has a definition. -/
def Closed (t : TypeTable) : Prop :=
  ∀ n d, t.get? n = some d → ∀ r ∈ d.references, t.contains r.name

theorem closed_empty : empty.Closed := by
  intro n d h
  cases h

theorem contains_insert_of_contains (h : t.contains n) (c : Composite) :
    (t.insert c).contains n := by
  obtain ⟨d, hget⟩ := contains_iff.mp h
  exact contains_of_get? (c := d) (by rw [get?_insert, hget, Option.some_or])

theorem contains_extend (t : TypeTable) {u : TypeTable} (hu : u.Proper) (n : TypeName) :
    (t.extend u).contains n ↔ t.contains n ∨ u.contains n := by
  rw [contains, SortedMap.contains]
  show ((t.extend u).get? n).isSome ↔ _
  rw [get?_extend t hu, Option.isSome_or, Bool.or_eq_true]
  rfl

/-- A definition whose references are there may be added, also in vain. -/
theorem Closed.insert (h : t.Closed) {c : Composite}
    (hc : ∀ r ∈ c.references, t.contains r.name) : (t.insert c).Closed := by
  intro n d hget r hr
  rw [get?_insert, Option.or_eq_some_iff] at hget
  rcases hget with hget | ⟨-, hget⟩
  · exact contains_insert_of_contains (h n d hget r hr) c
  · obtain ⟨-, hd⟩ := Option.ite_none_right_eq_some.mp hget
    obtain rfl := Option.some.inj hd
    exact contains_insert_of_contains (hc r hr) _

theorem Closed.extend (h : t.Closed) {u : TypeTable} (hu : u.Proper) (hclosed : u.Closed) :
    (t.extend u).Closed := by
  intro n d hget r hr
  rw [get?_extend t hu, Option.or_eq_some_iff] at hget
  rw [contains_extend t hu]
  rcases hget with hget | ⟨-, hget⟩
  · exact .inl (h n d hget r hr)
  · exact .inr (hclosed n d hget r hr)

theorem Closed.reachableFrom (h : t.Closed) (ht : t.Proper) (types : List DataType) :
    (t.reachableFrom types).Closed := by
  intro n d hget r hr
  obtain ⟨hget, root, hroot, hreach⟩ := (get?_reachableFrom ht types).mp hget
  exact (contains_reachableFrom ht types).mpr
    ⟨h n d hget r hr, root, hroot, hreach.tail ⟨d, hget, r, hr, rfl⟩⟩

end RoutineBridge.TypeTable
