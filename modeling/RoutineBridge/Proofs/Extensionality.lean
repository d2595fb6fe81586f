import Mathlib.Data.List.Nodup
import Mathlib.Data.List.Perm.Basic
import RoutineBridge.OnceMap
import RoutineBridge.Types.Table

/-!
# Maps are what is found in them

Two maps in key order are equal if they give the same answer to every look-up
(`SortedMap.ext_get?`), so neither the order in which entries came (`ofList_perm`) nor an entry that
was replaced (`insert_insert`) can be told from a map. A table of types that is extended by another
finds what it found before, and what the other one finds under all other names
(`TypeTable.get?_extend`).
-/

namespace RoutineBridge

namespace SortedMap

variable {κ ν μ : Type} [Ord κ] [Std.LawfulEqOrd κ]

theorem nodup_keys (m : SortedMap κ ν) : m.keys.Nodup := by
  rw [keys, List.Nodup, List.pairwise_map]
  refine m.increasing.imp fun {a b} hlt heq => ?_
  have hself : compare b.1 b.1 = .eq := Std.ReflCmp.compare_self
  rw [heq, hself] at hlt
  cases hlt

theorem get?_eq_some_iff {m : SortedMap κ ν} {k : κ} {v : ν} :
    m.get? k = some v ↔ (k, v) ∈ m.entries := by
  refine ⟨mem_entries_of_get?, fun hmem => ?_⟩
  have hfound : (m.entries.find? fun e => compare k e.1 == .eq).isSome := by
    rw [List.find?_isSome]
    exact ⟨(k, v), hmem, by simp⟩
  obtain ⟨e, hfind⟩ := Option.isSome_iff_exists.mp hfound
  have hget : m.get? k = some e.2 := by rw [get?, hfind]; rfl
  have hentry : (k, e.2) ∈ m.entries := mem_entries_of_get? hget
  -- no key has two entries
  have hsame : (k, e.2) = (k, v) :=
    List.inj_on_of_nodup_map (f := Prod.fst) m.nodup_keys hentry hmem rfl
  rw [hget, (Prod.mk.inj hsame).2]

theorem contains_iff_mem_keys {m : SortedMap κ ν} {k : κ} : m.contains k ↔ k ∈ m.keys := by
  rw [contains, Option.isSome_iff_exists, keys, List.mem_map]
  constructor
  · rintro ⟨v, hget⟩
    exact ⟨(k, v), get?_eq_some_iff.mp hget, rfl⟩
  · rintro ⟨⟨j, v⟩, hmem, rfl⟩
    exact ⟨v, get?_eq_some_iff.mpr hmem⟩

/-- Maps with the same keys are of one size. -/
theorem size_eq_of_contains {m : SortedMap κ ν} {n : SortedMap κ μ}
    (h : ∀ k, m.contains k ↔ n.contains k) : m.size = n.size := by
  have hperm : m.keys.Perm n.keys := by
    rw [List.perm_ext_iff_of_nodup m.nodup_keys n.nodup_keys]
    intro k
    rw [← contains_iff_mem_keys, ← contains_iff_mem_keys, h k]
  have hlength := hperm.length_eq
  rwa [keys, keys, List.length_map, List.length_map] at hlength

/-- Keeps the entries whose values `f` can do something with. -/
def filterMap (f : ν → Option μ) (m : SortedMap κ ν) : SortedMap κ μ where
  entries := m.entries.filterMap fun e => (f e.2).map fun w => (e.1, w)
  increasing := by
    refine m.increasing.filterMap _ fun a b hlt c hc d hd => ?_
    obtain ⟨v, -, rfl⟩ := Option.map_eq_some_iff.mp hc
    obtain ⟨w, -, rfl⟩ := Option.map_eq_some_iff.mp hd
    exact hlt

theorem get?_filterMap {f : ν → Option μ} {m : SortedMap κ ν} {k : κ} {w : μ} :
    (m.filterMap f).get? k = some w ↔ ∃ v, m.get? k = some v ∧ f v = some w := by
  rw [get?_eq_some_iff, filterMap, List.mem_filterMap]
  constructor
  · rintro ⟨⟨j, v⟩, hmem, hf⟩
    obtain ⟨w', hw, heq⟩ := Option.map_eq_some_iff.mp hf
    obtain ⟨rfl, rfl⟩ := Prod.mk.inj heq
    exact ⟨v, get?_eq_some_iff.mpr hmem, hw⟩
  · rintro ⟨v, hget, hf⟩
    exact ⟨(k, v), get?_eq_some_iff.mp hget, by rw [hf]; rfl⟩

variable [Std.TransOrd κ]

/-- **Maps with the same look-ups are equal.** -/
theorem ext_get? {m n : SortedMap κ ν} (h : ∀ k, m.get? k = n.get? k) : m = n := by
  apply ext
  have hnodup : ∀ m : SortedMap κ ν, m.entries.Nodup := fun m => m.nodup_keys.of_map Prod.fst
  have hperm : m.entries.Perm n.entries := by
    rw [List.perm_ext_iff_of_nodup (hnodup m) (hnodup n)]
    rintro ⟨k, v⟩
    rw [← get?_eq_some_iff, ← get?_eq_some_iff, h k]
  refine hperm.eq_of_pairwise (fun a b _ _ hab hba => ?_) m.increasing n.increasing
  have hswap : compare a.1 b.1 = (compare b.1 a.1).swap := Std.OrientedCmp.eq_swap
  rw [hswap, hba] at hab
  cases hab

theorem insert_insert (m : SortedMap κ ν) (k : κ) (v w : ν) :
    (m.insert k v).insert k w = m.insert k w := by
  apply ext_get?
  intro j
  by_cases hj : j = k
  · rw [hj, get?_insert_self, get?_insert_self]
  · rw [get?_insert_of_ne _ _ hj, get?_insert_of_ne _ _ hj, get?_insert_of_ne _ _ hj]

theorem insert_of_get? {m : SortedMap κ ν} {k : κ} {v : ν} (h : m.get? k = some v) :
    m.insert k v = m := by
  apply ext_get?
  intro j
  by_cases hj : j = k
  · rw [hj, get?_insert_self, h]
  · rw [get?_insert_of_ne _ _ hj]

theorem contains_insert (m : SortedMap κ ν) (k j : κ) (v : ν) :
    (m.insert k v).contains j ↔ j = k ∨ m.contains j := by
  by_cases hj : j = k
  · simp [contains, hj]
  · simp [contains, get?_insert_of_ne _ _ hj, hj]

theorem size_insert (m : SortedMap κ ν) {k : κ} (v : ν) (h : m.contains k = false) :
    (m.insert k v).size = m.size + 1 := by
  have hfresh : k ∉ m.keys := by
    rw [← contains_iff_mem_keys, h]
    exact Bool.false_ne_true
  have hperm : (m.insert k v).keys.Perm (k :: m.keys) := by
    rw [List.perm_ext_iff_of_nodup (nodup_keys _) (List.nodup_cons.mpr ⟨hfresh, nodup_keys m⟩)]
    intro j
    rw [← contains_iff_mem_keys, contains_insert, List.mem_cons, contains_iff_mem_keys]
  have hlength := hperm.length_eq
  rwa [keys, keys, List.length_cons, List.length_map, List.length_map] at hlength

theorem get?_foldl_insert {es : List (κ × ν)} (hnodup : (es.map (·.1)).Nodup)
    (m : SortedMap κ ν) (k : κ) (v : ν) :
    (es.foldl (fun m e => m.insert e.1 e.2) m).get? k = some v ↔
      (k, v) ∈ es ∨ k ∉ es.map (·.1) ∧ m.get? k = some v := by
  induction es generalizing m with
  | nil => simp
  | cons e es ih =>
      obtain ⟨hfresh, hnodup⟩ := List.nodup_cons.mp hnodup
      have hnotMem : ∀ w, (e.1, w) ∉ es := fun w hmem =>
        hfresh (List.mem_map.mpr ⟨(e.1, w), hmem, rfl⟩)
      rw [List.foldl_cons, ih hnodup]
      obtain ⟨j, w⟩ := e
      by_cases hk : k = j
      · subst hk
        simp [hnotMem, hfresh, eq_comm]
      · simp [get?_insert_of_ne _ _ hk, hk]

theorem get?_ofList {es : List (κ × ν)} (hnodup : (es.map (·.1)).Nodup) {k : κ} {v : ν} :
    (ofList es).get? k = some v ↔ (k, v) ∈ es := by
  rw [ofList, get?_foldl_insert hnodup]
  exact or_iff_left fun h => by cases h.2

theorem ofList_entries (m : SortedMap κ ν) : ofList m.entries = m := by
  refine ext_get? fun k => ?_
  ext v
  rw [get?_ofList m.nodup_keys, get?_eq_some_iff]

theorem mapValues_insert (f : ν → μ) (m : SortedMap κ ν) (k : κ) (v : ν) :
    (m.insert k v).mapValues f = (m.mapValues f).insert k (f v) := by
  refine ext_get? fun j => ?_
  rw [get?_mapValues, get?_insert, get?_insert, get?_mapValues]
  split <;> rfl

/-- Values may be changed before they are put into a map. -/
theorem mapValues_ofList (f : ν → μ) (es : List (κ × ν)) :
    (ofList es).mapValues f = ofList (es.map fun e => (e.1, f e.2)) := by
  have hfoldl : ∀ m : SortedMap κ ν, (es.foldl (fun m e => m.insert e.1 e.2) m).mapValues f =
      (es.map fun e => (e.1, f e.2)).foldl (fun m e => m.insert e.1 e.2) (m.mapValues f) := by
    intro m
    induction es generalizing m with
    | nil => rfl
    | cons e es ih => rw [List.foldl_cons, ih, mapValues_insert, List.map_cons, List.foldl_cons]
  exact hfoldl empty

/-- The order of entries with different keys does not matter. -/
theorem ofList_perm {es es' : List (κ × ν)} (hnodup : (es.map (·.1)).Nodup) (h : es.Perm es') :
    ofList es = ofList es' := by
  apply ext_get?
  intro k
  ext v
  rw [get?_ofList hnodup, get?_ofList ((h.map _).nodup_iff.mp hnodup), h.mem_iff]

end SortedMap

namespace OnceMap

variable {κ ν : Type} [Ord κ] {m : OnceMap κ ν} {k j : κ}

theorem requested_iff : m.requested k ↔ ∃ cell, m.cells.get? k = some cell :=
  Option.isSome_iff_exists

theorem requested_of_get? {v : ν} (h : m.get? k = some v) : m.requested k := by
  rw [requested_iff]
  cases hcell : m.cells.get? k with
  | none => rw [get?, hcell] at h; cases h
  | some cell => exact ⟨cell, rfl⟩

theorem get?_of_not_requested (h : m.requested k = false) : m.get? k = none := by
  cases hget : m.get? k with
  | none => rfl
  | some v =>
      rw [requested_of_get? hget] at h
      cases h

variable [Std.TransOrd κ]

theorem request_of_not_requested (h : m.requested k = false) :
    m.request k = ⟨m.cells.insert k none⟩ := by
  rw [request, SortedMap.insertNew, if_neg]
  rw [show m.cells.contains k = false from h]
  exact Bool.false_ne_true

theorem complete_of_some {w : ν} (v : ν) (h : m.get? k = some w) : m.complete k v = m := by
  simp only [complete, h]

theorem complete_of_none (v : ν) (h : m.get? k = none) :
    m.complete k v = ⟨m.cells.insert k (some v)⟩ := by
  simp only [complete, h]

variable [Std.LawfulEqOrd κ]

/-- A request makes no value known. -/
theorem get?_request (h : m.requested k = false) : (m.request k).get? j = m.get? j := by
  rw [request_of_not_requested h]
  by_cases hj : j = k
  · subst hj
    rw [get?_of_not_requested h, get?, SortedMap.get?_insert_self]
    rfl
  · rw [get?, get?, SortedMap.get?_insert_of_ne _ _ hj]

theorem requested_request (h : m.requested k = false) :
    (m.request k).requested j ↔ j = k ∨ m.requested j := by
  rw [request_of_not_requested h]
  exact SortedMap.contains_insert m.cells k j none

theorem size_request (h : m.requested k = false) : (m.request k).size = m.size + 1 := by
  rw [request_of_not_requested h]
  exact SortedMap.size_insert m.cells none h

theorem requested_complete (m : OnceMap κ ν) (k : κ) (v : ν) :
    (m.complete k v).requested j ↔ j = k ∨ m.requested j := by
  cases hget : m.get? k with
  | some w =>
      rw [complete_of_some v hget, iff_or_self]
      rintro rfl
      exact requested_of_get? hget
  | none =>
      rw [complete_of_none v hget]
      exact SortedMap.contains_insert m.cells k j (some v)

/-- A value that is stored under a requested key takes no new place. -/
theorem size_complete (v : ν) (h : m.requested k) : (m.complete k v).size = m.size := by
  apply SortedMap.size_eq_of_contains
  intro j
  rw [show (m.complete k v).cells.contains j = (m.complete k v).requested j from rfl,
    requested_complete, or_iff_right_of_imp]
  · rfl
  · rintro rfl
    exact h

/-- It does not matter whether a key was requested before its value was stored. -/
theorem complete_request (v : ν) (h : m.requested k = false) :
    (m.request k).complete k v = m.complete k v := by
  have hnone := get?_of_not_requested h
  rw [complete_of_none v ((get?_request h).trans hnone), complete_of_none v hnone,
    request_of_not_requested h]
  exact congrArg OnceMap.mk (SortedMap.insert_insert _ _ _ _)

end OnceMap

namespace TypeTable

variable {t u : TypeTable} {c d : Composite} {n : TypeName}

theorem ext_get? (h : ∀ n, t.get? n = u.get? n) : t = u := by
  obtain ⟨definitions⟩ := t
  obtain ⟨definitions'⟩ := u
  exact congrArg TypeTable.mk (SortedMap.ext_get? h)

/-- Every definition stands under its own name, and no cursor is stored. -/
def Proper (t : TypeTable) : Prop := ∀ n d, t.get? n = some d → d.name = n ∧ d.kind ≠ .cursor

theorem proper_empty : empty.Proper := by
  intro n d h
  cases h

/-- A definition is what an insertion adds if there was none under its name. -/
theorem get?_insert (t : TypeTable) (c : Composite) (n : TypeName) :
    (t.insert c).get? n =
      (t.get? n).or (if c.kind ≠ .cursor ∧ c.name = n then some c else none) := by
  by_cases hname : c.name = n
  · subst hname
    by_cases hkind : c.kind = .cursor
    · cases c <;> cases hkind
      simp [insert, add, Composite.kind]
    · cases hget : t.get? c.name with
      | none =>
          have hfresh : t.contains c.name = false := congrArg Option.isSome hget
          simp [get?_insert_self hkind hfresh, hkind]
      | some d =>
          have hcontains := contains_of_get? hget
          have hsame : t.insert c = t := by cases c <;> simp_all [insert, add]
          rw [hsame, hget]
          rfl
  · rw [get?_insert_of_ne t (Ne.symm hname), if_neg fun h => hname h.2, Option.or_none]

theorem Proper.insert (h : t.Proper) (c : Composite) : (t.insert c).Proper := by
  intro n d hget
  rw [get?_insert, Option.or_eq_some_iff] at hget
  rcases hget with hget | ⟨-, hget⟩
  · exact h n d hget
  · obtain ⟨hc, hd⟩ := Option.ite_none_right_eq_some.mp hget
    obtain rfl := Option.some.inj hd
    exact ⟨hc.2, hc.1⟩

theorem Proper.insertAll (h : t.Proper) (cs : List Composite) : (t.insertAll cs).Proper := by
  induction cs generalizing t with
  | nil => exact h
  | cons c cs ih => exact ih (h.insert c)

/-- Of several definitions for a name the first one counts. -/
theorem get?_insertAll (t : TypeTable) (cs : List Composite) (n : TypeName) :
    (t.insertAll cs).get? n =
      (t.get? n).or (cs.find? fun c => c.kind ≠ .cursor ∧ c.name = n) := by
  induction cs generalizing t with
  | nil => simp [insertAll]
  | cons c cs ih =>
      have hcons : t.insertAll (c :: cs) = (t.insert c).insertAll cs := rfl
      rw [hcons, ih, get?_insert, Option.or_assoc, List.find?_cons]
      by_cases hc : c.kind ≠ .cursor ∧ c.name = n
      · simp [hc]
      · rw [if_neg hc, decide_eq_false hc, Option.none_or]

theorem Proper.find?_toList (h : t.Proper) (n : TypeName) :
    (t.toList.find? fun c => c.kind ≠ .cursor ∧ c.name = n) = t.get? n := by
  have hmem : ∀ c, c ∈ t.toList ↔ ∃ m, t.get? m = some c := by
    intro c
    simp only [toList, SortedMap.values, List.mem_map, Prod.exists, exists_eq_right]
    exact exists_congr fun m => SortedMap.get?_eq_some_iff.symm
  cases hget : t.get? n with
  | none =>
      rw [List.find?_eq_none]
      rintro c hc hfound
      obtain ⟨m, hm⟩ := (hmem c).mp hc
      obtain ⟨-, rfl⟩ := of_decide_eq_true hfound
      rw [(h m c hm).1, hm] at hget
      cases hget
  | some d =>
      have hd : ∃ c ∈ t.toList, (decide (c.kind ≠ .cursor ∧ c.name = n)) = true :=
        ⟨d, (hmem d).mpr ⟨n, hget⟩, decide_eq_true ⟨(h n d hget).2, (h n d hget).1⟩⟩
      obtain ⟨c, hfind⟩ := Option.isSome_iff_exists.mp (List.find?_isSome.mpr hd)
      obtain ⟨m, hm⟩ := (hmem c).mp (List.mem_of_find?_eq_some hfind)
      have hc : c.kind ≠ .cursor ∧ c.name = n := by simpa using List.find?_some hfind
      obtain ⟨-, rfl⟩ := hc
      rw [(h m c hm).1, hm] at hget
      rw [hfind, hget]

/-- **An extended table** finds what it found before, and elsewhere what the other one finds. -/
theorem get?_extend (t : TypeTable) (h : u.Proper) (n : TypeName) :
    (t.extend u).get? n = (t.get? n).or (u.get? n) := by
  rw [extend, get?_insertAll, h.find?_toList]

theorem Proper.extend (h : t.Proper) (u : TypeTable) : (t.extend u).Proper := h.insertAll _

/-- Where several tables say the same, it does not matter which of them is asked. -/
theorem get?_foldl_extend {us : List TypeTable} (hproper : ∀ u ∈ us, u.Proper)
    (hagree : ∀ u ∈ us, ∀ v ∈ us, ∀ n d e, u.get? n = some d → v.get? n = some e → d = e)
    (t : TypeTable) (n : TypeName) (d : Composite) :
    (us.foldl TypeTable.extend t).get? n = some d ↔
      t.get? n = some d ∨ t.get? n = none ∧ ∃ u ∈ us, u.get? n = some d := by
  induction us generalizing t with
  | nil => simp
  | cons u us ih =>
      obtain ⟨hu, hus⟩ := List.forall_mem_cons.mp hproper
      have hrest := ih hus fun v hv w hw =>
        hagree v (List.mem_cons_of_mem _ hv) w (List.mem_cons_of_mem _ hw)
      rw [List.foldl_cons, hrest, get?_extend t hu]
      cases ht : t.get? n with
      | some e => simp
      | none =>
          cases hget : u.get? n with
          | none => simp [hget]
          | some e =>
              have hfirst : (∃ v ∈ u :: us, v.get? n = some d) ↔ e = d := by
                constructor
                · rintro ⟨v, hv, hvd⟩
                  exact hagree u List.mem_cons_self v hv n e d hget hvd
                · rintro rfl
                  exact ⟨u, List.mem_cons_self, hget⟩
              rw [hfirst]
              simp

/-- **Tables that agree** may extend a table in any order. -/
theorem foldl_extend_perm {us us' : List TypeTable} (hproper : ∀ u ∈ us, u.Proper)
    (hagree : ∀ u ∈ us, ∀ v ∈ us, ∀ n d e, u.get? n = some d → v.get? n = some e → d = e)
    (h : us.Perm us') (t : TypeTable) :
    us.foldl TypeTable.extend t = us'.foldl TypeTable.extend t := by
  apply ext_get?
  intro n
  ext d
  rw [get?_foldl_extend hproper hagree]
  rw [get?_foldl_extend (fun u hu => hproper u (h.mem_iff.mpr hu))
    (fun u hu v hv => hagree u (h.mem_iff.mpr hu) v (h.mem_iff.mpr hv))]
  simp only [h.mem_iff]

end TypeTable

end RoutineBridge
