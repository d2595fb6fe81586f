import Mathlib.Algebra.GroupWithZero.Nat
import Mathlib.Data.List.Chain
import Mathlib.Data.List.Perm.Subperm
import Mathlib.Logic.Relation
import RoutineBridge.Catalog.Resolver

/-!
# References between definitions

The definitions of a catalog refer to one another by name, and so do those of a table of types. A
walk over a catalog follows these references; the names under way are a path without repetition, so
they are never more than the defined types (`length_le_typeCount`), and a name that comes up again
closes a cycle (`isCycle_of_revisit`).
-/

namespace RoutineBridge

open Relation

/-- The rows whose types a definition is made of. -/
def Definition.members : Definition → List MemberRow
  | record members => members
  | collection row => [row.element]

namespace TypeTable

/-- The definition of one name uses the type of another. -/
def Refers (t : TypeTable) (a b : TypeName) : Prop :=
  ∃ d, t.get? a = some d ∧ ∃ r ∈ d.references, r.name = b

/-- References lead from one name to another, in no steps or more. -/
def Reaches (t : TypeTable) : TypeName → TypeName → Prop := ReflTransGen t.Refers

end TypeTable

namespace Catalog

variable {c : Catalog}

/-- The entries under a name; there may be one of each kind. A record without members is not
known. -/
inductive Holds (c : Catalog) (n : TypeName) : Definition → Prop
  | record {members : List MemberRow} : c.snapshot.records.get? n = some members →
      members ≠ [] → Holds c n (.record members)
  | collection {row : CollectionRow} : c.snapshot.collections.get? n = some row →
      Holds c n (.collection row)

/-- All entries with their names. -/
def entries (c : Catalog) : List (TypeName × Definition) :=
  c.snapshot.records.entries.map (fun e => (e.1, .record e.2)) ++
    c.snapshot.collections.entries.map fun e => (e.1, .collection e.2)

/-- The uses of composite types by the members of an entry. -/
def memberUses (n : TypeName) (d : Definition) : List Composite.Ref :=
  d.members.filterMap fun m => (m.dataType n).toOption.bind DataType.ref?

/-- All uses of composite types by members of entries. -/
def uses (c : Catalog) : List Composite.Ref := c.entries.flatMap fun e => memberUses e.1 e.2

/-- An entry under one name refers to another name. -/
def Refers (c : Catalog) (a b : TypeName) : Prop :=
  ∃ d, c.Holds a d ∧ ∃ m ∈ d.members, ∃ r, m.dataType a = .ok (.composite r) ∧ r.name = b

/-- References lead from one name to another, in no steps or more. -/
def Reaches (c : Catalog) : TypeName → TypeName → Prop := ReflTransGen c.Refers

/-- The entry that a use of a type stands for uses another type. -/
def Leads (c : Catalog) (u v : Composite.Ref) : Prop :=
  ∃ d, c.Holds u.name d ∧ d.kind = u.kind.stored ∧
    ∃ m ∈ d.members, m.dataType u.name = .ok (.composite v)

/-- What is used directly or through other entries; unlike `Reaches` it keeps to the entries of the
right kind. -/
def LeadsTo (c : Catalog) : Composite.Ref → Composite.Ref → Prop := ReflTransGen c.Leads

/-- A path along references from a name back to it, with no other name twice. -/
def IsCycle (c : Catalog) (n : TypeName) (path : List TypeName) : Prop :=
  ∃ between, path = n :: between ++ [n] ∧ (n :: between).Nodup ∧ path.IsChain c.Refers

/-! ## What the catalog answers -/

/-- The entry of a kind under a name. -/
def definition? (c : Catalog) (kind : Composite.Kind) (n : TypeName) : Option Definition :=
  match kind with
  | .collection => (c.snapshot.collectionElement? n).map .collection
  | .record | .cursor =>
    match c.snapshot.recordAttributes n with
    | [] => none
    | m :: ms => some (.record (m :: ms))

/-- A question fails if its look-up fails; else it is answered with the entry of its kind. -/
theorem define_eq (kind : Composite.Kind) (n : TypeName) :
    c.define kind n =
      match c.outages.error? kind n, c.definition? kind n with
      | some f, _ => .error (.catalog f)
      | none, some d => .ok d
      | none, none => .error (.notFound n) := by
  rw [← Outages.error?_stored]
  cases kind with
  | record | cursor =>
      rw [define, recordAttributes, definition?]
      dsimp only [Composite.Kind.stored]
      cases c.outages.error? .record n with
      | some f => rfl
      | none => cases c.snapshot.recordAttributes n <;> rfl
  | collection =>
      rw [define, collectionElement, definition?]
      dsimp only [Composite.Kind.stored]
      cases c.outages.error? .collection n with
      | some f => rfl
      | none => cases c.snapshot.collectionElement? n <;> rfl

theorem definition?_eq_some_iff {kind : Composite.Kind} {n : TypeName} {d : Definition} :
    c.definition? kind n = some d ↔ c.Holds n d ∧ d.kind = kind.stored := by
  constructor
  · intro h
    cases kind with
    | record | cursor =>
        rw [definition?, Snapshot.recordAttributes] at h
        cases hget : c.snapshot.records.get? n with
        | none =>
            rw [hget] at h
            cases h
        | some members =>
            rw [hget, Option.getD_some] at h
            cases members with
            | nil => cases h
            | cons m ms =>
                obtain rfl := Option.some.inj h
                exact ⟨.record hget (List.cons_ne_nil m ms), rfl⟩
    | collection =>
        obtain ⟨row, hget, rfl⟩ := Option.map_eq_some_iff.mp h
        exact ⟨.collection hget, rfl⟩
  · rintro ⟨hheld, hkind⟩
    cases hheld with
    | @record members hget hmembers =>
        obtain ⟨m, ms, rfl⟩ := List.exists_cons_of_ne_nil hmembers
        cases kind with
        | record | cursor => rw [definition?, Snapshot.recordAttributes, hget, Option.getD_some]
        | collection => cases hkind
    | @collection row hget =>
        cases kind with
        | record | cursor => cases hkind
        | collection => rw [definition?, Snapshot.collectionElement?, hget, Option.map_some]

/-- An answer is the entry of the right kind. -/
theorem define_ok {kind : Composite.Kind} {n : TypeName} {d : Definition}
    (h : c.define kind n = .ok d) : c.Holds n d ∧ d.kind = kind.stored := by
  rw [define_eq] at h
  split at h
  · cases h
  · rename_i hdefinition
    obtain rfl := Except.ok.inj h
    exact definition?_eq_some_iff.mp hdefinition
  · cases h

/-- A question fails with the error of the look-up, or because there is no entry. -/
theorem define_error {kind : Composite.Kind} {n : TypeName} {e : ResolveError}
    (h : c.define kind n = .error e) :
    (∃ f, c.outages.error? kind n = some f ∧ e = .catalog f) ∨
      c.outages.error? kind n = none ∧ e = .notFound n := by
  rw [define_eq] at h
  split at h
  · rename_i f hout
    exact .inl ⟨f, hout, (Except.error.inj h).symm⟩
  · cases h
  · rename_i hout _
    exact .inr ⟨hout, (Except.error.inj h).symm⟩

/-- Where there is an answer, there is no outage. -/
theorem available_of_define {kind : Composite.Kind} {n : TypeName} {d : Definition}
    (h : c.define kind n = .ok d) : c.outages.error? d.kind n = none := by
  rw [(define_ok h).2, Outages.error?_stored]
  rw [define_eq] at h
  split at h
  · cases h
  · assumption
  · cases h

/-- An entry is found by those who ask for its kind, unless there is an outage. -/
theorem define_of_holds {n : TypeName} {d : Definition} (h : c.Holds n d)
    (havailable : c.outages.error? d.kind n = none) : c.define d.kind n = .ok d := by
  have hdefinition : c.definition? d.kind n = some d := by
    refine definition?_eq_some_iff.mpr ⟨h, ?_⟩
    cases d <;> rfl
  rw [define_eq, havailable, hdefinition]

/-! ## Paths -/

theorem Leads.refers {u v : Composite.Ref} (h : c.Leads u v) : c.Refers u.name v.name := by
  obtain ⟨d, hheld, -, m, hm, htype⟩ := h
  exact ⟨d, hheld, m, hm, v, htype, rfl⟩

theorem LeadsTo.reaches {u v : Composite.Ref} (h : c.LeadsTo u v) : c.Reaches u.name v.name := by
  induction h with
  | refl => exact .refl
  | tail _ hstep ih => exact ih.tail hstep.refers

theorem Holds.mem_entries {n : TypeName} {d : Definition} (h : c.Holds n d) :
    (n, d) ∈ c.entries := by
  cases h with
  | record hget _ =>
      exact List.mem_append_left _ (List.mem_map.mpr ⟨_, SortedMap.mem_entries_of_get? hget, rfl⟩)
  | collection hget =>
      exact List.mem_append_right _ (List.mem_map.mpr ⟨_, SortedMap.mem_entries_of_get? hget, rfl⟩)

/-- A name has one entry of each kind. -/
theorem Holds.eq_of_kind {n : TypeName} {d e : Definition} (hd : c.Holds n d) (he : c.Holds n e)
    (h : d.kind = e.kind) : d = e := by
  cases hd with
  | record hget _ =>
      cases he with
      | record hget' _ => rw [Option.some.inj (hget.symm.trans hget')]
      | collection => cases h
  | collection hget =>
      cases he with
      | record => cases h
      | collection hget' => rw [Option.some.inj (hget.symm.trans hget')]

theorem mem_memberUses {n : TypeName} {d : Definition} {r : Composite.Ref} :
    r ∈ memberUses n d ↔ ∃ m ∈ d.members, m.dataType n = .ok (.composite r) := by
  have hone : ∀ m : MemberRow, (m.dataType n).toOption.bind DataType.ref? = some r ↔
      m.dataType n = .ok (.composite r) := by
    intro m
    rcases m.dataType n with e | (s | r') <;> simp [Except.toOption, DataType.ref?]
  simp only [memberUses, List.mem_filterMap, hone]

theorem length_memberUses_le (n : TypeName) (d : Definition) :
    (memberUses n d).length ≤ d.members.length := List.length_filterMap_le _ _

theorem memberCount_eq : c.memberCount = (c.entries.map fun e => e.2.members.length).sum := by
  have hrecords : ∀ (lists : List (List MemberRow)) (k : Nat),
      lists.foldr (fun members n => members.length + n) k =
        (lists.map List.length).sum + k := by
    intro lists k
    induction lists with
    | nil => simp
    | cons members lists ih =>
        rw [List.foldr_cons, ih, List.map_cons, List.sum_cons, Nat.add_assoc]
  have hcollections : c.snapshot.collections.size =
      (c.snapshot.collections.entries.map fun _ => 1).sum := by
    simp [SortedMap.size]
  rw [memberCount, hrecords, entries, List.map_append, List.sum_append_nat, hcollections]
  simp [SortedMap.values, Function.comp_def, Definition.members]

/-- Each member uses one type at most. -/
theorem length_uses_le : c.uses.length ≤ c.memberCount := by
  rw [memberCount_eq, uses, List.length_flatMap]
  induction c.entries with
  | nil => exact Nat.le_refl _
  | cons e es ih =>
      simp only [List.map_cons, List.sum_cons]
      exact Nat.add_le_add (length_memberUses_le e.1 e.2) ih

theorem Leads.mem_uses {u v : Composite.Ref} (h : c.Leads u v) : v ∈ c.uses := by
  obtain ⟨d, hheld, -, hmember⟩ := h
  exact List.mem_flatMap.mpr ⟨(u.name, d), hheld.mem_entries, mem_memberUses.mpr hmember⟩

/-- Whatever a use leads to is used by a member of an entry. -/
theorem LeadsTo.mem_uses {u v : Composite.Ref} (h : c.LeadsTo u v) : v ∈ u :: c.uses := by
  rcases ReflTransGen.cases_tail h with rfl | ⟨w, -, hwv⟩
  · exact List.mem_cons_self
  · exact List.mem_cons_of_mem _ hwv.mem_uses

/-- Different defined names are not more than there are definitions. -/
theorem length_le_typeCount {names : List TypeName} (hnodup : names.Nodup)
    (hheld : ∀ n ∈ names, ∃ d, c.Holds n d) : names.length ≤ c.typeCount := by
  have hsub : names ⊆ c.entries.map (·.1) := by
    intro n hn
    obtain ⟨d, hd⟩ := hheld n hn
    exact List.mem_map.mpr ⟨(n, d), hd.mem_entries, rfl⟩
  calc
    names.length ≤ (c.entries.map (·.1)).length := (hnodup.subperm hsub).length_le
    _ = c.typeCount := by simp [entries, typeCount, SortedMap.size]

/-- A path that comes back to one of its names closes a cycle there. -/
theorem isCycle_of_revisit {path : List TypeName} {n : TypeName} (hnodup : path.Nodup)
    (hpath : (path ++ [n]).IsChain c.Refers) (hn : n ∈ path) :
    c.IsCycle n (path.dropWhile (· != n) ++ [n]) := by
  -- what comes before the first visit does not belong to the cycle
  obtain ⟨before, after, rfl, hbefore⟩ := List.eq_append_cons_of_mem hn
  have hdrop : (before ++ n :: after).dropWhile (· != n) = n :: after := by
    rw [List.dropWhile_append_of_pos]
    · simp
    · intro a ha
      simpa using fun h : a = n => hbefore (h ▸ ha)
  have hsuffix : (n :: after ++ [n]) <:+ (before ++ n :: after ++ [n]) :=
    ⟨before, by simp⟩
  rw [hdrop]
  exact ⟨after, rfl, (List.nodup_append.mp hnodup).2.1, hpath.suffix hsuffix⟩

/-- A cycle leads from its name back to it. -/
theorem IsCycle.transGen {n : TypeName} {path : List TypeName} (h : c.IsCycle n path) :
    TransGen c.Refers n n := by
  obtain ⟨between, rfl, -, hchain⟩ := h
  cases between with
  | nil => exact .single (List.isChain_pair.mp hchain)
  | cons m ms =>
      obtain ⟨hfirst, hrest⟩ := List.isChain_cons_cons.mp hchain
      have hlast : ReflTransGen c.Refers m n :=
        List.relationReflTransGen_of_exists_isChain_cons (ms ++ [n]) hrest (by simp)
      exact .head' hfirst hlast

end Catalog

end RoutineBridge
