import RoutineBridge.Proofs.Closedness
import RoutineBridge.Proofs.Parameters

/-!
# Messages of composite types

A field refers to a message by its name, and the messages of composite types are made by two passes
over the table, one for the records and one for the collections inside collections. In a table whose
references are all backed by definitions of their kinds (`TypeTable.Consistent`), whatever type a
field refers to has a message of its own (`Layout.exists_own_of_element`), so every name that is
referred to is in the layout (`Layout.exists_message?`). Whose message is found there is another
question: of several types with one name, the one that is written last (`Layout.own_of_message?`),
and so the type itself if it has its name alone (`Layout.message?_of_alone`).
-/

namespace RoutineBridge

open Relation

namespace SortedMap

variable {κ ν : Type} [Ord κ] [Std.TransOrd κ] [Std.LawfulEqOrd κ] [BEq κ] [LawfulBEq κ]
variable {es : List (κ × ν)} {k : κ} {v : ν}

/-- Of several entries with one key, the last one is found. -/
theorem get?_ofList_eq_lookup (es : List (κ × ν)) (k : κ) :
    (ofList es).get? k = es.reverse.lookup k := by
  induction es using List.reverseRecOn with
  | nil => rfl
  | append_singleton es e ih =>
      have hinsert : ofList (es ++ [e]) = (ofList es).insert e.1 e.2 := by
        rw [ofList, List.foldl_append]
        rfl
      rw [hinsert, List.reverse_concat, List.lookup_cons]
      by_cases hk : k = e.1
      · rw [hk, get?_insert_self, beq_self_eq_true]
      · rw [get?_insert_of_ne _ _ hk, ih, beq_eq_false_iff_ne.mpr hk]

theorem mem_of_get?_ofList (h : (ofList es).get? k = some v) : (k, v) ∈ es := by
  rw [get?_ofList_eq_lookup, List.lookup_eq_some_iff] at h
  obtain ⟨before, after, hsplit, -⟩ := h
  exact List.mem_reverse.mp (hsplit ▸ List.mem_append_right _ List.mem_cons_self)

theorem exists_get?_ofList (h : (k, v) ∈ es) : ∃ w, (ofList es).get? k = some w := by
  rw [get?_ofList_eq_lookup, ← Option.isSome_iff_exists, List.lookup_isSome_iff]
  exact ⟨(k, v), List.mem_reverse.mpr h, beq_self_eq_true k⟩

end SortedMap

/-- A relation that starts from finitely many points and never comes back to one ends everywhere. -/
theorem wellFounded_of_acyclic {α : Type} {r : α → α → Prop} {starts : List α}
    (hstarts : ∀ a b, r a b → a ∈ starts) (hacyclic : ∀ a, ¬ TransGen r a a) :
    WellFounded fun b a => r a b := by
  induction starts generalizing r with
  | nil => exact ⟨fun a => ⟨a, fun b hab => absurd (hstarts a b hab) List.not_mem_nil⟩⟩
  | cons x starts ih =>
      -- without the steps from `x` it ends, and what `x` leads to does not need them
      have hwf : WellFounded fun b a => a ≠ x ∧ r a b :=
        ih (fun a b h => (List.mem_cons.mp (hstarts a b h.2)).resolve_left h.1)
          fun a hcycle => hacyclic a (hcycle.lift id fun _ _ h => h.2)
      have hbelow : ∀ b, TransGen r x b → Acc (fun b a => r a b) b := by
        intro b
        induction b using hwf.induction with
        | _ b ihb =>
        intro hxb
        refine ⟨b, fun c hbc => ihb c ⟨?_, hbc⟩ (hxb.tail hbc)⟩
        rintro rfl
        exact hacyclic _ hxb
      have hx : Acc (fun b a => r a b) x := ⟨x, fun b hxb => hbelow b (.single hxb)⟩
      refine ⟨fun a => hwf.induction a fun a iha => ?_⟩
      by_cases ha : a = x
      · exact ha ▸ hx
      · exact ⟨a, fun b hab => iha b ⟨ha, hab⟩⟩

/-! ## Consistent tables -/

namespace TypeTable

variable {t : TypeTable} {r : Composite.Ref} {n : TypeName}

theorem mem_toList (t : TypeTable) (h : t.Proper) {d : Composite} :
    d ∈ t.toList ↔ t.get? d.name = some d := by
  rw [toList, SortedMap.values, List.mem_map, get?]
  constructor
  · rintro ⟨⟨m, c⟩, hmem, rfl⟩
    have hget := SortedMap.get?_eq_some_iff.mpr hmem
    rwa [(h m c hget).1]
  · intro hget
    exact ⟨_, SortedMap.get?_eq_some_iff.mp hget, rfl⟩

/-- The use of a type is backed by a definition of its kind. -/
def Defines (t : TypeTable) (r : Composite.Ref) : Prop :=
  ∃ d, t.get? r.name = some d ∧ d.kind = r.kind.stored

instance (t : TypeTable) (r : Composite.Ref) : Decidable (t.Defines r) :=
  decidable_of_iff ((t.get? r.name).any (·.kind = r.kind.stored))
    (by simp [Option.any_eq_true, Defines])

/-- Whatever definitions refer to is defined as what it is used for. -/
def Consistent (t : TypeTable) : Prop := ∀ n d, t.get? n = some d → ∀ r ∈ d.references, t.Defines r

/-- Whatever routines use, directly or through other definitions, is defined as what it is used
for. What no routine leads to may be missing or of another kind. -/
structure Supports (t : TypeTable) (routines : List Routine) : Prop where
  proper : t.Proper
  uses : ∀ f ∈ routines, ∀ r, .composite r ∈ f.dataTypes → t.Defines r
  references : ∀ f ∈ routines, ∀ r, .composite r ∈ f.dataTypes →
    ∀ n d, t.Reaches r.name n → t.get? n = some d → ∀ s ∈ d.references, t.Defines s

/-- A use that is defined is one of a record, directly or as the row of a cursor, or one of a
collection. -/
theorem Defines.cases (h : t.Defines r) (ht : t.Proper) :
    (r.kind ≠ .collection ∧ ∃ attributes, t.get? r.name = some (.record r.name attributes)) ∨
      (r.kind = .collection ∧
        ∃ element indexing, t.get? r.name = some (.collection r.name element indexing)) := by
  obtain ⟨d, hget, hkind⟩ := h
  obtain ⟨hname, -⟩ := ht r.name d hget
  obtain ⟨kind, name⟩ := r
  cases d with
  | record m attributes =>
      obtain rfl : m = name := hname
      refine .inl ⟨?_, attributes, hget⟩
      rintro rfl
      cases hkind
  | collection m element indexing =>
      obtain rfl : m = name := hname
      refine .inr ⟨?_, element, indexing, hget⟩
      cases kind with
      | collection => rfl
      | record | cursor => cases hkind
  | cursor m => cases kind <;> cases hkind

/-- Pruning a table for routines keeps whatever they lead to. -/
theorem Supports.defines_reachableFrom {routines : List Routine} (h : t.Supports routines)
    {f : Routine} (hf : f ∈ routines) (hr : .composite r ∈ f.dataTypes) {s : Composite.Ref}
    (hreach : t.Reaches r.name s.name) (hs : t.Defines s) :
    (t.reachableFrom (routines.flatMap Routine.dataTypes)).Defines s := by
  obtain ⟨d, hget, hkind⟩ := hs
  refine ⟨d, (get?_reachableFrom h.proper _).mpr ⟨hget, r.name, ?_, hreach⟩, hkind⟩
  exact Model.mem_roots_dataTypes.mpr ⟨f, hf, r, hr, rfl⟩

theorem consistent_iff (h : t.Proper) :
    t.Consistent ↔ ∀ d ∈ t.toList, ∀ r ∈ d.references, t.Defines r := by
  constructor
  · intro hc d hd
    exact hc d.name d ((t.mem_toList h).mp hd)
  · intro hall n d hget
    obtain rfl := (h n d hget).1
    exact hall d ((t.mem_toList h).mpr hget)

theorem Consistent.supports (hc : t.Consistent) (h : t.Proper) {routines : List Routine}
    (huses : ∀ f ∈ routines, ∀ r ∈ f.dataTypes.filterMap DataType.ref?, t.Defines r) :
    t.Supports routines where
  proper := h
  uses f hf r hr := huses f hf r (List.mem_filterMap.mpr ⟨.composite r, hr, rfl⟩)
  references _ _ _ _ n d _ hget := hc n d hget

/-- Definitions that only refer to what is ranked lower never lead back to themselves. -/
theorem acyclic_of_rank (h : t.Proper) (rank : TypeName → Nat)
    (hrank : ∀ d ∈ t.toList, ∀ r ∈ d.references, rank r.name < rank d.name) (n : TypeName) :
    ¬ TransGen t.Refers n n := by
  have hstep : ∀ a b, t.Refers a b → rank b < rank a := by
    rintro a b ⟨d, hget, r, hr, rfl⟩
    obtain rfl := (h a d hget).1
    exact hrank d ((t.mem_toList h).mpr hget) r hr
  have hlower : ∀ a b, TransGen t.Refers a b → rank b < rank a := by
    intro a b hpath
    induction hpath with
    | single hrefers => exact hstep _ _ hrefers
    | tail _ hrefers ih => exact (hstep _ _ hrefers).trans ih
  exact fun hcycle => lt_irrefl _ (hlower n n hcycle)

/-- No two definitions have one message name. -/
def NamesApart (t : TypeTable) : Prop :=
  ∀ n m, t.contains n → t.contains m → Identifier.typeMessage n = Identifier.typeMessage m → n = m

theorem Proper.reachableFrom (h : t.Proper) (types : List DataType) :
    (t.reachableFrom types).Proper := fun n d hget =>
  h n d ((get?_reachableFrom h types).mp hget).1

theorem NamesApart.reachableFrom (hnames : t.NamesApart) (h : t.Proper) (types : List DataType) :
    (t.reachableFrom types).NamesApart := fun n m hn hm =>
  hnames n m ((contains_reachableFrom h types).mp hn).1 ((contains_reachableFrom h types).mp hm).1

/-- Pruning leaves a table alone if everything in it is led to. -/
theorem reachableFrom_eq_self (h : t.Proper) {types : List DataType}
    (hreached : ∀ n, t.contains n → ∃ root ∈ roots types, t.Reaches root n) :
    t.reachableFrom types = t := by
  refine ext_get? fun n => Option.ext fun d => (get?_reachableFrom h types).trans ?_
  exact ⟨And.left, fun hget => ⟨hget, hreached n (contains_of_get? hget)⟩⟩

theorem Refers.of_reachableFrom (h : t.Proper) {types : List DataType} {a b : TypeName}
    (hrefers : (t.reachableFrom types).Refers a b) : t.Refers a b := by
  obtain ⟨d, hget, hd⟩ := hrefers
  exact ⟨d, ((get?_reachableFrom h types).mp hget).1, hd⟩

end TypeTable

namespace Model

variable {routines : List Routine} {types : TypeTable} {options : Options}

theorem proper_freeze (h : types.Supports routines) (options : Options) :
    (freeze routines types options).types.Proper :=
  h.proper.reachableFrom _

theorem consistent_freeze (h : types.Supports routines) (options : Options) :
    (freeze routines types options).types.Consistent := by
  intro n d hget s hs
  obtain ⟨hget, root, hroot, hreach⟩ := (TypeTable.get?_reachableFrom h.proper _).mp hget
  obtain ⟨f, hf, r, hr, rfl⟩ := mem_roots_dataTypes.mp hroot
  exact h.defines_reachableFrom hf hr (hreach.tail ⟨d, hget, s, hs, rfl⟩)
    (h.references f hf r hr n d hreach hget s hs)

theorem defines_freeze (h : types.Supports routines) {f : Routine} (hf : f ∈ routines)
    {r : Composite.Ref} (hr : .composite r ∈ f.dataTypes) :
    (freeze routines types options).types.Defines r :=
  h.defines_reachableFrom hf hr .refl (h.uses f hf r hr)

end Model

/-! ## Messages of their own -/

namespace Layout

variable {types : TypeTable} {options : Options} {n key : TypeName} {name : String}
variable {t t' : MessageTable} {r : Composite.Ref} {d : DataType} {s : Slot}

/-- The message of a type itself, whatever is found under its name. -/
inductive Own (types : TypeTable) (options : Options) : TypeName → MessageTable → Prop
  | record {n : TypeName} {attributes : List Attribute}
      (definition : types.get? n = some (.record n attributes)) :
      Own types options n (record types options n attributes)
  | wrapper {outer n : TypeName} {indexing : Indexing}
      (inside : types.get? outer =
        some (.collection outer (.composite ⟨.collection, n⟩) indexing)) :
      Own types options n (wrapper types options n)

theorem Own.message_eq (h : Own types options n t) : t.message = Identifier.typeMessage n := by
  cases h <;> rfl

theorem Own.type_eq (h : Own types options n t) : t.type = some n := by
  cases h <;> rfl

theorem mem_records (ht : types.Proper) {attributes : List Attribute} :
    (n, attributes) ∈ types.records ↔ types.get? n = some (.record n attributes) := by
  rw [TypeTable.records, List.mem_filterMap, TypeTable.get?, SortedMap.get?_eq_some_iff]
  constructor
  · rintro ⟨⟨m, c⟩, hmem, hc⟩
    cases c with
    | record m' attributes' =>
        obtain ⟨rfl, rfl⟩ := Prod.mk.inj (Option.some.inj hc)
        obtain rfl : m' = m := (ht m _ (SortedMap.get?_eq_some_iff.mpr hmem)).1
        exact hmem
    | collection | cursor => cases hc
  · intro hmem
    exact ⟨_, hmem, rfl⟩

theorem mem_innerCollections (ht : types.Proper) :
    n ∈ (innerCollections types).keys ↔ ∃ outer indexing,
      types.get? outer = some (.collection outer (.composite ⟨.collection, n⟩) indexing) := by
  rw [← SortedMap.contains_iff_mem_keys, SortedMap.contains, Option.isSome_iff_exists]
  constructor
  · rintro ⟨⟨⟩, hget⟩
    obtain ⟨c, hc, hinner⟩ := List.mem_filterMap.mp (SortedMap.mem_of_get?_ofList hget)
    split at hinner
    · obtain ⟨rfl, -⟩ := Prod.mk.inj (Option.some.inj hinner)
      exact ⟨_, _, (types.mem_toList ht).mp hc⟩
    · cases hinner
  · rintro ⟨outer, indexing, hget⟩
    refine SortedMap.exists_get?_ofList (List.mem_filterMap.mpr
      ⟨.collection outer (.composite ⟨.collection, n⟩) indexing, ?_, rfl⟩)
    exact (types.mem_toList ht).mpr hget

/-- The two passes make the messages that types have for their own. -/
theorem mem_typeMessages (ht : types.Proper) :
    t ∈ typeMessages types options ↔ ∃ n, Own types options n t := by
  rw [typeMessages, List.mem_append, List.mem_map, List.mem_map]
  constructor
  · rintro (⟨⟨n, attributes⟩, hmem, rfl⟩ | ⟨n, hmem, rfl⟩)
    · exact ⟨n, .record ((mem_records ht).mp hmem)⟩
    · obtain ⟨outer, indexing, hget⟩ := (mem_innerCollections ht).mp hmem
      exact ⟨n, .wrapper hget⟩
  · rintro ⟨n, ⟨definition⟩ | ⟨inside⟩⟩
    · exact .inl ⟨_, (mem_records ht).mpr definition, rfl⟩
    · exact .inr ⟨_, (mem_innerCollections ht).mpr ⟨_, _, inside⟩, rfl⟩

/-- A type has one message of its own: no record stands inside a collection as a collection. -/
theorem Own.unique (hc : types.Consistent) (h : Own types options n t)
    (h' : Own types options n t') : t = t' := by
  have hclash : ∀ {outer : TypeName} {indexing : Indexing} {attributes : List Attribute},
      types.get? outer = some (.collection outer (.composite ⟨.collection, n⟩) indexing) →
      types.get? n ≠ some (.record n attributes) := by
    intro outer indexing attributes inside definition
    obtain ⟨d, hget, hkind⟩ := hc outer _ inside ⟨.collection, n⟩ (List.mem_singleton_self _)
    obtain rfl : d = _ := Option.some.inj (hget.symm.trans definition)
    cases hkind
  cases h with
  | record definition =>
      cases h' with
      | record definition' =>
          have hsame := Option.some.inj (definition.symm.trans definition')
          obtain ⟨-, rfl⟩ := Composite.record.inj hsame
          rfl
      | wrapper inside => exact absurd definition (hclash inside)
  | wrapper inside =>
      cases h' with
      | record definition => exact absurd definition (hclash inside)
      | wrapper => rfl

section Lookup

variable {routines : List Routine}

/-- What is found under a name is the message of some type of this name. -/
theorem own_of_message? (ht : types.Proper)
    (h : (build routines types options).message? name = some t) :
    ∃ n, Identifier.typeMessage n = name ∧ Own types options n t := by
  obtain ⟨t', hmem, heq⟩ := List.mem_map.mp (SortedMap.mem_of_get?_ofList h)
  obtain ⟨rfl, rfl⟩ := Prod.mk.inj heq
  obtain ⟨n, hown⟩ := (mem_typeMessages ht).mp hmem
  exact ⟨n, hown.message_eq.symm, hown⟩

theorem exists_message? (ht : types.Proper) (routines : List Routine)
    (h : Own types options n t) :
    ∃ t', (build routines types options).message? (Identifier.typeMessage n) = some t' := by
  refine SortedMap.exists_get?_ofList (v := t) (List.mem_map.mpr ⟨t, ?_, ?_⟩)
  · exact (mem_typeMessages ht).mpr ⟨n, h⟩
  · rw [h.message_eq]

/-- What is found for a routine are the messages of some routine of its name. -/
theorem exists_routine_of_get? {c : CallLayout}
    (h : (build routines types options).calls.get? name = some c) :
    ∃ r ∈ routines, c = call r types options := by
  obtain ⟨r, hr, heq⟩ := List.mem_map.mp (SortedMap.mem_of_get?_ofList h)
  exact ⟨r, hr, (Prod.mk.inj heq).2.symm⟩

/-- No other type that has a message goes by the name of this one. -/
def Alone (types : TypeTable) (options : Options) (n : TypeName) : Prop :=
  ∀ m t, Own types options m t → Identifier.typeMessage m = Identifier.typeMessage n → m = n

theorem Own.contains (hc : types.Consistent) (h : Own types options n t) : types.contains n := by
  cases h with
  | record definition => exact TypeTable.contains_of_get? definition
  | wrapper inside =>
      obtain ⟨d, hget, -⟩ := hc _ _ inside _ (List.mem_singleton_self _)
      exact TypeTable.contains_of_get? hget

theorem alone_of_namesApart (hc : types.Consistent) (hnames : types.NamesApart)
    (hn : types.contains n) : Alone types options n := fun m _ hown heq =>
  hnames m n (hown.contains hc) hn heq

/-- A type that has its name alone finds its own message there. -/
theorem message?_of_alone (ht : types.Proper) (hc : types.Consistent) (routines : List Routine)
    (h : Own types options n t) (halone : Alone types options n) :
    (build routines types options).message? (Identifier.typeMessage n) = some t := by
  obtain ⟨t', hfound⟩ := exists_message? ht routines h
  obtain ⟨m, hname, hown⟩ := own_of_message? ht hfound
  obtain rfl := halone m t' hown hname
  rw [hfound, hown.unique hc h]

end Lookup

/-! ## References to messages -/

/-- The message that a field of a composite type refers to: of the record itself, or of what the
collection holds. -/
theorem element_composite (ht : types.Proper) (hr : types.Defines r)
    (h : (FieldShape.ofDataType types options.numberAsString (.composite r)).element =
      .message name key) :
    name = Identifier.typeMessage key ∧
      ((r.kind ≠ .collection ∧ key = r.name) ∨
        (r.kind = .collection ∧ ∃ kind indexing,
          types.get? r.name = some (.collection r.name (.composite ⟨kind, key⟩) indexing))) := by
  obtain ⟨kind, n⟩ := r
  cases kind with
  | record | cursor =>
      obtain ⟨rfl, rfl⟩ := Element.message.inj h
      exact ⟨rfl, .inl ⟨Composite.Kind.noConfusion, rfl⟩⟩
  | collection =>
      rcases hr.cases ht with ⟨hkind, -⟩ | ⟨-, e, indexing, hget⟩
      · exact absurd rfl hkind
      · simp only [FieldShape.ofDataType, TypeTable.element?, hget] at h
        cases e with
        | scalar e => cases h
        | composite inner =>
            obtain ⟨rfl, rfl⟩ := Element.message.inj h
            exact ⟨rfl, .inr ⟨rfl, inner.kind, indexing, hget⟩⟩

/-- Whatever composite type a field refers to has a message of its own. -/
theorem exists_own_of_element (ht : types.Proper) (hc : types.Consistent)
    (hd : ∀ r, d = .composite r → types.Defines r)
    (h : (FieldShape.ofDataType types options.numberAsString d).element = .message name key) :
    name = Identifier.typeMessage key ∧ ∃ t, Own types options key t := by
  cases d with
  | scalar s => cases h
  | composite r =>
      obtain ⟨rfl, ⟨hkind, rfl⟩ | ⟨-, kind, indexing, hget⟩⟩ := element_composite ht (hd r rfl) h
      · rcases (hd r rfl).cases ht with ⟨-, attributes, hrecord⟩ | ⟨hcollection, -⟩
        · exact ⟨rfl, _, .record hrecord⟩
        · exact absurd hcollection hkind
      · -- the message of a collection that holds another composite type is that of the inner one
        have hinner := hc _ _ hget ⟨kind, key⟩ (List.mem_singleton_self _)
        rcases hinner.cases ht with ⟨-, attributes, hrecord⟩ | ⟨rfl, -⟩
        · exact ⟨rfl, _, .record hrecord⟩
        · exact ⟨rfl, _, .wrapper hget⟩

/-- The slot is one for a type that is defined, and has the shape of that type. -/
structure Sound (types : TypeTable) (options : Options) (s : Slot) : Prop where
  shape : s.shape = .ofDataType types options.numberAsString s.dataType
  defined : ∀ r, s.dataType = .composite r → types.Defines r

theorem Sound.exists_own (ht : types.Proper) (hc : types.Consistent) (h : Sound types options s)
    (he : s.shape.element = .message name key) :
    name = Identifier.typeMessage key ∧ ∃ t, Own types options key t := by
  rw [h.shape] at he
  exact exists_own_of_element ht hc h.defined he

/-- The slots of a record are those of its attributes, in the same order. -/
theorem map_slots_record {β : Type} {f : Slot → β} {g : Attribute → β}
    (hf : ∀ field ordinal a, f (attributeSlot types options field ordinal a) = g a)
    (attributes : List Attribute) :
    (record types options n attributes).slots.map f = attributes.map g := by
  have hlength : attributes.length ≤
      (distinctNames [] (attributes.map fun a => Identifier.field a.name)).length := by
    rw [length_distinctNames, List.length_map]
  have hzip : ((((distinctNames [] (attributes.map fun a => Identifier.field a.name)).zip
      attributes).zipIdx.map Prod.fst).map Prod.snd) = attributes := by
    rw [List.zipIdx_map_fst, List.map_snd_zip hlength]
  conv_rhs => rw [← hzip, List.map_map, List.map_map]
  rw [record, List.map_map]
  exact List.map_congr_left fun x _ => hf x.1.1 (x.2 + 1) x.1.2

/-- The fields of a record are what its attributes wish for, told apart. -/
theorem map_field_record (types : TypeTable) (options : Options) (n : TypeName)
    (attributes : List Attribute) :
    (record types options n attributes).slots.map (·.field) =
      distinctNames [] (attributes.map fun a => Identifier.field a.name) := by
  have hlength : (distinctNames [] (attributes.map fun a => Identifier.field a.name)).length ≤
      attributes.length := by
    rw [length_distinctNames, List.length_map]
  have hfields : (record types options n attributes).slots.map (·.field) =
      ((((distinctNames [] (attributes.map fun a => Identifier.field a.name)).zip
        attributes).zipIdx.map Prod.fst).map Prod.fst) := by
    rw [record, List.map_map, List.map_map]
    rfl
  rw [hfields, List.zipIdx_map_fst, List.map_fst_zip hlength]

/-- A slot of a record is one of an attribute. -/
theorem exists_attribute {attributes : List Attribute}
    (h : s ∈ (record types options n attributes).slots) :
    ∃ field ordinal, ∃ a ∈ attributes, s = attributeSlot types options field ordinal a := by
  obtain ⟨⟨⟨field, a⟩, i⟩, hmem, rfl⟩ := List.mem_map.mp h
  have hpair := (List.mem_zipIdx hmem).2.2
  have ha : (field, a) ∈ (distinctNames [] (attributes.map fun a => Identifier.field a.name)).zip
      attributes := hpair ▸ List.getElem_mem _
  exact ⟨field, i + 1, a, (List.of_mem_zip ha).2, rfl⟩

theorem Own.sound (hc : types.Consistent) (h : Own types options n t) (hs : s ∈ t.slots) :
    Sound types options s := by
  cases h with
  | record definition =>
      obtain ⟨field, ordinal, a, ha, rfl⟩ := exists_attribute hs
      refine ⟨rfl, fun r hr => hc n _ definition r ?_⟩
      exact Conversion.mem_references_record.mpr (List.mem_map.mpr ⟨a, ha, hr⟩)
  | wrapper inside =>
      obtain rfl := List.mem_singleton.mp hs
      refine ⟨rfl, fun r hr => ?_⟩
      obtain rfl := DataType.composite.inj hr
      exact hc _ _ inside _ (List.mem_singleton_self _)

/-- The slots of a call are those of its arguments and its result. -/
theorem sound_call {f : Routine} (hf : ∀ r, .composite r ∈ f.dataTypes → types.Defines r)
    (hs : s ∈ (call f types options).request.slots ++ (call f types options).response.slots) :
    Sound types options s := by
  have hargument : ∀ {a : Argument} {field : String} {way : Direction}
      {p : String × Argument → Bool},
      (field, a) ∈ ((fieldNames f).zip f.arguments).filter p →
      Sound types options (argumentSlot f types options way field a) := by
    intro a field way p ha
    have ha := (List.of_mem_zip (List.mem_filter.mp ha).1).2
    refine ⟨rfl, fun r hr => hf r (List.mem_append_left _ (List.mem_map.mpr ⟨a, ha, hr⟩))⟩
  rcases List.mem_append.mp hs with hs | hs
  · obtain ⟨⟨field, a⟩, ha, rfl⟩ := List.mem_map.mp hs
    exact hargument ha
  · rcases List.mem_append.mp hs with hs | hs
    · obtain ⟨⟨field, a⟩, ha, rfl⟩ := List.mem_map.mp hs
      exact hargument ha
    · obtain ⟨⟨field, a⟩, ha, rfl⟩ := List.mem_map.mp hs
      refine ⟨rfl, fun r hr => hf r (List.mem_append_right _ (List.mem_map.mpr ⟨a, ?_, hr⟩))⟩
      exact (List.of_mem_zip ha).2

end Layout

/-! ## Models -/

/-- All messages of a model, of calls and of types. -/
def Model.tables (m : Model) : List MessageTable :=
  m.layout.calls.values.flatMap (fun c => [c.request, c.response]) ++ m.layout.messages.values

namespace Model

variable {routines : List Routine} {types : TypeTable} {options : Options}

/-- **Every slot of a frozen model** is one for a type that is defined. -/
theorem sound_of_mem_tables (h : types.Supports routines) {t : MessageTable}
    (ht : t ∈ (freeze routines types options).tables) {s : Slot} (hs : s ∈ t.slots) :
    Layout.Sound (freeze routines types options).types options s := by
  rcases List.mem_append.mp ht with ht | ht
  · obtain ⟨c, hc, htable⟩ := List.mem_flatMap.mp ht
    obtain ⟨⟨name, c⟩, hentry, rfl⟩ := List.mem_map.mp hc
    obtain ⟨f, hf, rfl⟩ := Layout.exists_routine_of_get? (SortedMap.get?_eq_some_iff.mpr hentry)
    refine Layout.sound_call (fun r hr => defines_freeze h hf hr) (f := f) (List.mem_append.mpr ?_)
    rcases List.mem_cons.mp htable with rfl | htable
    · exact .inl hs
    · rw [List.mem_singleton.mp htable] at hs
      exact .inr hs
  · obtain ⟨⟨name, t⟩, hentry, rfl⟩ := List.mem_map.mp ht
    have hfound : (freeze routines types options).layout.message? name = some t :=
      SortedMap.get?_eq_some_iff.mpr hentry
    obtain ⟨n, -, hown⟩ := Layout.own_of_message? (proper_freeze h options) hfound
    exact hown.sound (consistent_freeze h options) hs

/-- Orders hold a list of lists of lines. -/
def sampleTypes : TypeTable :=
  let name (n : String) : TypeName := ⟨"APP", "PKG", n⟩
  .ofList
    [.record (name "LINE") [⟨"SKU", .scalar ⟨.text, "VARCHAR2", 0, 0, 20, ""⟩⟩],
     .collection (name "LINES") (.composite ⟨.record, name "LINE"⟩) .dense,
     .collection (name "GROUPS") (.composite ⟨.collection, name "LINES"⟩) .associative,
     .record (name "ORDER_ROW") [⟨"ID", .scalar ⟨.number, "NUMBER", 9, 0, 0, ""⟩⟩,
       ⟨"GROUPS", .composite ⟨.collection, name "GROUPS"⟩⟩]]

/-- A routine that takes lines and opens a cursor on orders. -/
def sampleOrders : List Routine :=
  [{ Routine.named "APP" "PKG" "FIND" with
      arguments := [⟨"P_LINES", .composite ⟨.collection, ⟨"APP", "PKG", "LINES"⟩⟩, .input, 1⟩]
      returns := some ⟨"ret", .composite ⟨.cursor, ⟨"APP", "PKG", "ORDER_ROW"⟩⟩⟩ }]

theorem proper_sampleTypes : sampleTypes.Proper := TypeTable.proper_empty.insertAll _

theorem consistent_sampleTypes : sampleTypes.Consistent :=
  (TypeTable.consistent_iff proper_sampleTypes).mpr (by decide)

theorem supports_sampleTypes : sampleTypes.Supports sampleOrders :=
  consistent_sampleTypes.supports proper_sampleTypes (by decide)

theorem acyclic_sampleTypes : ∀ n, ¬ TransGen sampleTypes.Refers n n :=
  TypeTable.acyclic_of_rank proper_sampleTypes
    (fun n => ["LINE", "LINES", "GROUPS", "ORDER_ROW"].idxOf n.name) (by decide)

end Model

end RoutineBridge
