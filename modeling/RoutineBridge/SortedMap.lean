/-!
# Finite maps in key order

A map is the list of its entries, strictly increasing by key. Two maps with the same entries are
equal, and the order in which a map is written is the order in which it is held. Main statement:
`get?_insert`, which says what insertion does to look-up.
-/

namespace RoutineBridge

/-- A finite map whose entries are held in strictly increasing order of their keys. -/
structure SortedMap (κ ν : Type) [Ord κ] where
  entries : List (κ × ν)
  increasing : entries.Pairwise fun a b => compare a.1 b.1 = .lt

namespace SortedMap

variable {κ ν μ : Type} [Ord κ]

/-- The map without entries. -/
def empty : SortedMap κ ν := ⟨[], .nil⟩

instance : Inhabited (SortedMap κ ν) := ⟨empty⟩

theorem ext {m n : SortedMap κ ν} (h : m.entries = n.entries) : m = n := by
  cases m
  cases n
  cases h
  rfl

/-- The value at a key. -/
def get? (m : SortedMap κ ν) (k : κ) : Option ν :=
  (m.entries.find? fun e => compare k e.1 == .eq).map (·.2)

/-- The key has a value. -/
def contains (m : SortedMap κ ν) (k : κ) : Bool := (m.get? k).isSome

def keys (m : SortedMap κ ν) : List κ := m.entries.map (·.1)

def values (m : SortedMap κ ν) : List ν := m.entries.map (·.2)

def size (m : SortedMap κ ν) : Nat := m.entries.length

/-- What look-up finds is an entry. -/
theorem mem_entries_of_get? [Std.LawfulEqOrd κ] {m : SortedMap κ ν} {k : κ} {v : ν}
    (h : m.get? k = some v) : (k, v) ∈ m.entries := by
  obtain ⟨⟨j, w⟩, hfind, rfl⟩ := Option.map_eq_some_iff.mp h
  have hkey : k = j := by simpa using List.find?_some hfind
  rw [hkey]
  exact List.mem_of_find?_eq_some hfind

/-- Puts an entry at its place, instead of the one that has its key. -/
def insertEntry (k : κ) (v : ν) : List (κ × ν) → List (κ × ν)
  | [] => [(k, v)]
  | e :: es =>
    match compare k e.1 with
    | .lt => (k, v) :: e :: es
    | .eq => (k, v) :: es
    | .gt => e :: insertEntry k v es

theorem mem_insertEntry {k : κ} {v : ν} {e : κ × ν} {es : List (κ × ν)}
    (h : e ∈ insertEntry k v es) : e = (k, v) ∨ e ∈ es := by
  induction es with
  | nil => simpa [insertEntry] using h
  | cons d ds ih =>
      simp only [insertEntry] at h
      split at h
      · simpa using h
      · rcases List.mem_cons.1 h with h | h
        · exact Or.inl h
        · exact Or.inr (List.mem_cons_of_mem _ h)
      · rcases List.mem_cons.1 h with h | h
        · exact Or.inr (h ▸ List.mem_cons_self)
        · exact (ih h).imp_right (List.mem_cons_of_mem _)

section Insertion

variable [Std.TransOrd κ]

theorem increasing_insertEntry (k : κ) (v : ν) {es : List (κ × ν)}
    (h : es.Pairwise fun a b => compare a.1 b.1 = .lt) :
    (insertEntry k v es).Pairwise fun a b => compare a.1 b.1 = .lt := by
  induction es with
  | nil => simp [insertEntry]
  | cons d ds ih =>
      rw [List.pairwise_cons] at h
      simp only [insertEntry]
      split
      · rename_i hlt
        refine List.pairwise_cons.2 ⟨fun e he => ?_, List.pairwise_cons.2 h⟩
        rcases List.mem_cons.1 he with rfl | he
        · exact hlt
        · exact Std.TransCmp.lt_trans hlt (h.1 e he)
      · rename_i heq
        exact List.pairwise_cons.2
          ⟨fun e he => Std.TransCmp.lt_of_eq_of_lt heq (h.1 e he), h.2⟩
      · rename_i hgt
        refine List.pairwise_cons.2 ⟨fun e he => ?_, ih h.2⟩
        rcases mem_insertEntry he with rfl | he
        · exact Std.OrientedCmp.gt_iff_lt.1 hgt
        · exact h.1 e he

/-- Sets the value at a key. -/
def insert (m : SortedMap κ ν) (k : κ) (v : ν) : SortedMap κ ν :=
  ⟨insertEntry k v m.entries, increasing_insertEntry k v m.increasing⟩

/-- Sets the value at a key that has none yet; the first value stays. -/
def insertNew (m : SortedMap κ ν) (k : κ) (v : ν) : SortedMap κ ν :=
  if m.contains k then m else m.insert k v

/-- The map of a list of entries; of two entries with one key the later one counts. -/
def ofList (es : List (κ × ν)) : SortedMap κ ν := es.foldl (fun m e => m.insert e.1 e.2) empty

theorem find?_insertEntry (k j : κ) (v : ν) (es : List (κ × ν)) :
    ((insertEntry k v es).find? fun e => compare j e.1 == .eq).map (·.2) =
      if compare j k = .eq then some v else (es.find? fun e => compare j e.1 == .eq).map (·.2) := by
  induction es with
  | nil => by_cases h : compare j k = .eq <;> simp [insertEntry, h]
  | cons d ds ih =>
      simp only [insertEntry]
      split
      · by_cases h : compare j k = .eq <;> simp [List.find?_cons, h]
      · rename_i heq
        by_cases h : compare j k = .eq
        · simp [h]
        · have hne : compare j d.1 ≠ .eq := fun hd =>
            h (Std.TransCmp.eq_trans hd (Std.OrientedCmp.eq_symm heq))
          simp [h, hne]
      · rename_i hgt
        by_cases hd : compare j d.1 = .eq
        · have h : compare j k ≠ .eq := fun h => by
            have := Std.TransCmp.eq_trans (Std.OrientedCmp.eq_symm h) hd
            simp [this] at hgt
          simp [h, hd]
        · rw [List.find?_cons, List.find?_cons]
          simp only [beq_eq_false_iff_ne.2 hd]
          exact ih

/-- A look-up after an insertion finds the new value at its key and what was there before at
every other key. -/
theorem get?_insert (m : SortedMap κ ν) (k j : κ) (v : ν) :
    (m.insert k v).get? j = if compare j k = .eq then some v else m.get? j :=
  find?_insertEntry k j v m.entries

theorem get?_insert_of_ne [Std.LawfulEqOrd κ] (m : SortedMap κ ν) {k j : κ} (v : ν) (h : j ≠ k) :
    (m.insert k v).get? j = m.get? j := by
  rw [get?_insert, if_neg fun heq => h (Std.LawfulEqOrd.eq_of_compare heq)]

@[simp]
theorem get?_insert_self (m : SortedMap κ ν) (k : κ) (v : ν) :
    (m.insert k v).get? k = some v := by
  rw [get?_insert, if_pos (Std.ReflCmp.compare_self)]

end Insertion

/-- Changes every value and no key. -/
def mapValues (f : ν → μ) (m : SortedMap κ ν) : SortedMap κ μ where
  entries := m.entries.map fun e => (e.1, f e.2)
  increasing := List.pairwise_map.2 m.increasing

theorem get?_mapValues (f : ν → μ) (m : SortedMap κ ν) (k : κ) :
    (m.mapValues f).get? k = (m.get? k).map f := by
  rw [get?, mapValues, List.find?_map, Option.map_map, get?, Option.map_map]
  rfl

theorem values_mapValues (f : ν → μ) (m : SortedMap κ ν) :
    (m.mapValues f).values = m.values.map f := by
  rw [values, mapValues, List.map_map, values, List.map_map]
  rfl

end SortedMap

end RoutineBridge
