import RoutineBridge.Proofs.Messages

/-!
# Pruning cannot be seen

A model keeps only the types that its routines lead to. What was pruned is never missed: the shape
of a field is decided by the one definition that its type uses, if by any
(`FieldShape.ofDataType_congr`), and that definition is kept for every root and for every type
inside a kept definition (`TypeTable.Kept.get?_eq`). Neither cycles nor names without a definition
matter. Main statement: pruning keeps exactly the definitions that the roots lead to, and no field
notices it (`TypeTable.reachableFrom_exact`).
-/

namespace RoutineBridge

/-- The types that stand in a definition. -/
def Composite.dataTypes : Composite → List DataType
  | record _ attributes => attributes.map (·.dataType)
  | collection _ element _ => [element]
  | cursor n => [.composite ⟨.record, n⟩]

theorem Composite.mem_references_of_mem_dataTypes {c : Composite} {d : DataType}
    {r : Composite.Ref} (hd : d ∈ c.dataTypes) (hr : d.ref? = some r) : r ∈ c.references := by
  cases c with
  | record n attributes =>
      obtain ⟨a, ha, rfl⟩ := List.mem_map.mp hd
      exact List.mem_filterMap.mpr ⟨a, ha, hr⟩
  | collection n element indexing =>
      obtain rfl := List.mem_singleton.mp hd
      rw [references, hr]
      exact List.mem_singleton_self r
  | cursor n =>
      obtain rfl := List.mem_singleton.mp hd
      obtain rfl := Option.some.inj hr
      exact List.mem_singleton_self _

/-- Only the definition that a type uses decides the shape of its fields. -/
theorem FieldShape.ofDataType_congr {t u : TypeTable} {d : DataType}
    (h : ∀ r, d.ref? = some r → t.get? r.name = u.get? r.name) (numberAsString : Bool) :
    ofDataType t numberAsString d = ofDataType u numberAsString d := by
  cases d with
  | scalar s => rfl
  | composite r =>
      have helement : t.element? r = u.element? r := by
        simp only [TypeTable.element?, h r rfl]
      simp only [ofDataType, helement]

namespace TypeTable

variable {t : TypeTable} {types : List DataType} {d : DataType}

/-- The type is a root, or it stands in a definition that is kept for the roots. -/
def Kept (t : TypeTable) (types : List DataType) (d : DataType) : Prop :=
  d ∈ types ∨ ∃ c ∈ (t.reachableFrom types).toList, d ∈ c.dataTypes

theorem mem_roots {r : Composite.Ref} (hd : d ∈ types) (hr : d.ref? = some r) :
    r.name ∈ roots types :=
  List.mem_filterMap.mpr ⟨d, hd, by rw [hr]; rfl⟩

/-- The roots lead to whatever a kept type uses. -/
theorem Kept.reached (h : t.Kept types d) (ht : t.Proper) {r : Composite.Ref}
    (hr : d.ref? = some r) : ∃ root ∈ roots types, t.Reaches root r.name := by
  rcases h with hd | ⟨c, hc, hd⟩
  · exact ⟨r.name, mem_roots hd hr, .refl⟩
  · have hkept := ((t.reachableFrom types).mem_toList (ht.reachableFrom types)).mp hc
    obtain ⟨hget, root, hroot, hreach⟩ := (get?_reachableFrom ht types).mp hkept
    refine ⟨root, hroot, hreach.tail ⟨c, hget, r, ?_, rfl⟩⟩
    exact Composite.mem_references_of_mem_dataTypes hd hr

/-- What a kept type uses is defined as before, or has no definition as before. -/
theorem Kept.get?_eq (h : t.Kept types d) (ht : t.Proper) {r : Composite.Ref}
    (hr : d.ref? = some r) : (t.reachableFrom types).get? r.name = t.get? r.name := by
  have hreached := h.reached ht hr
  ext c
  rw [get?_reachableFrom ht types]
  exact and_iff_left hreached

theorem reachableFrom_reachableFrom (ht : t.Proper) (types : List DataType) :
    (t.reachableFrom types).reachableFrom types = t.reachableFrom types := by
  refine reachableFrom_eq_self (ht.reachableFrom types) fun n hn => ?_
  obtain ⟨-, root, hroot, hreach⟩ := (contains_reachableFrom ht types).mp hn
  exact ⟨root, hroot, reaches_reachableFrom ht hroot hreach⟩

/-- **Pruning is exact, and fields do not notice it.** Of a table, cyclic or with references that
lead nowhere, the definitions are kept that the roots lead to, just as they are; pruning again
changes nothing; and every root and every type inside a kept definition has the shape that it has
over the whole table. -/
theorem reachableFrom_exact (ht : t.Proper) (types : List DataType) :
    (∀ n c, (t.reachableFrom types).get? n = some c ↔
        t.get? n = some c ∧ ∃ root ∈ roots types, t.Reaches root n) ∧
      (t.reachableFrom types).reachableFrom types = t.reachableFrom types ∧
      ∀ d, t.Kept types d → ∀ numberAsString,
        FieldShape.ofDataType (t.reachableFrom types) numberAsString d =
          FieldShape.ofDataType t numberAsString d := by
  refine ⟨fun n c => get?_reachableFrom ht types, reachableFrom_reachableFrom ht types, ?_⟩
  intro d hd numberAsString
  exact FieldShape.ofDataType_congr (fun r hr => hd.get?_eq ht hr) numberAsString

/-- Nodes that lead back to themselves and to a list without a definition, and a record apart. -/
def cyclicTypes : TypeTable :=
  let name (n : String) : TypeName := ⟨"APP", "PKG", n⟩
  .ofList
    [.record (name "NODE") [⟨"NEXT", .composite ⟨.record, name "NODE"⟩⟩,
       ⟨"ITEMS", .composite ⟨.collection, name "ITEMS"⟩⟩,
       ⟨"TAGS", .composite ⟨.collection, name "TAGS"⟩⟩],
     .collection (name "ITEMS") (.composite ⟨.record, name "NODE"⟩) .dense,
     .record (name "APART") [⟨"NODE", .composite ⟨.record, name "NODE"⟩⟩]]

def cyclicRoots : List DataType := [.composite ⟨.collection, ⟨"APP", "PKG", "ITEMS"⟩⟩]

theorem reachableFrom_exact_sample :
    cyclicTypes.Proper ∧
      (∀ n c, (cyclicTypes.reachableFrom cyclicRoots).get? n = some c ↔
        cyclicTypes.get? n = some c ∧ ∃ root ∈ roots cyclicRoots, cyclicTypes.Reaches root n) ∧
      (cyclicTypes.reachableFrom cyclicRoots).reachableFrom cyclicRoots =
        cyclicTypes.reachableFrom cyclicRoots ∧
      ∀ d ∈ cyclicRoots, FieldShape.ofDataType (cyclicTypes.reachableFrom cyclicRoots) false d =
        ⟨true, .ofType ⟨"APP", "PKG", "NODE"⟩⟩ := by
  have hproper : cyclicTypes.Proper := proper_empty.insertAll _
  obtain ⟨hexact, htwice, hshape⟩ := reachableFrom_exact hproper cyclicRoots
  refine ⟨hproper, hexact, htwice, fun d hd => ?_⟩
  rw [hshape d (.inl hd)]
  obtain rfl := List.mem_singleton.mp hd
  decide +kernel

end TypeTable

end RoutineBridge
