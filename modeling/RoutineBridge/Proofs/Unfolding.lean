import RoutineBridge.Proofs.Closedness

/-!
# Types that rows spell out

Rows below a parameter describe a tree: a record with its members, a collection or a cursor with its
element, scalars at the leaves (`ParamTree.shape?`). A data type is unfolded to such a tree by looking
its names up in a table (`Unfolds`), and that gives one tree at most (`Unfolds.unique`). A type that
is spelled out unfolds to the tree of its rows wherever all the definitions written for it are found
(`unfolded_of_written`). In a model they are found unless one of their names was first used for
something else: the names are made from the names of parameters, and nothing keeps two places from
having the same one (`assemble_unfolds`).
-/

namespace RoutineBridge

/-! ## Shapes -/

/-- A type with everything in it. -/
inductive Shape where
  | scalar (s : Scalar)
  | record (members : List (String × Shape))
  | collection (element : Shape) (indexing : Indexing)
  /-- A stream of rows, which have these members. -/
  | cursor (members : List (String × Shape))

namespace ParamTree

mutual

/-- The tree that rows describe, if they describe one. -/
def shape? : ParamTree → Option Shape
  | ⟨_, _, _, spec, children⟩ =>
    match spec.compositeKind? with
    | none => spec.scalar?.map .scalar
    | some .record => (memberShapes? children).map .record
    | some .collection =>
      (elementShape? children).map fun element => .collection element (Conversion.indexingOf spec.dataKind)
    | some .cursor =>
      match elementShape? children with
      | some (.record members) => some (.cursor members)
      | _ => none

def memberShapes? : List ParamTree → Option (List (String × Shape))
  | [] => some []
  | t :: ts => do
    let shape ← shape? t
    let rest ← memberShapes? ts
    pure ((t.name, shape) :: rest)

def elementShape? : List ParamTree → Option Shape
  | [] => none
  | t :: _ => shape? t

end

end ParamTree

mutual

/-- Looking up the names of a type in a table, and the names found there, and so on, comes to an end
with this shape. -/
inductive Unfolds (types : TypeTable) : DataType → Shape → Prop
  | scalar {s : Scalar} : Unfolds types (.scalar s) (.scalar s)
  | record {n : TypeName} {attributes : List Attribute} {members : List (String × Shape)}
      (definition : types.get? n = some (.record n attributes))
      (below : UnfoldsAll types attributes members) :
      Unfolds types (.composite ⟨.record, n⟩) (.record members)
  | collection {n : TypeName} {type : DataType} {indexing : Indexing} {element : Shape}
      (definition : types.get? n = some (.collection n type indexing))
      (below : Unfolds types type element) :
      Unfolds types (.composite ⟨.collection, n⟩) (.collection element indexing)
  | cursor {n : TypeName} {attributes : List Attribute} {members : List (String × Shape)}
      (definition : types.get? n = some (.record n attributes))
      (below : UnfoldsAll types attributes members) :
      Unfolds types (.composite ⟨.cursor, n⟩) (.cursor members)

inductive UnfoldsAll (types : TypeTable) : List Attribute → List (String × Shape) → Prop
  | nil : UnfoldsAll types [] []
  | cons {a : Attribute} {as : List Attribute} {shape : Shape} {rest : List (String × Shape)}
      (first : Unfolds types a.dataType shape) (below : UnfoldsAll types as rest) :
      UnfoldsAll types (a :: as) ((a.name, shape) :: rest)

end

mutual

/-- A type unfolds to one shape at most. -/
theorem Unfolds.unique {types : TypeTable} {type : DataType} {shape shape' : Shape} :
    Unfolds types type shape → Unfolds types type shape' → shape = shape'
  | .scalar, .scalar => rfl
  | .record definition below, .record definition' below' => by
      obtain ⟨-, rfl⟩ := Composite.record.inj (Option.some.inj (definition.symm.trans definition'))
      rw [below.unique below']
  | .collection definition below, .collection definition' below' => by
      obtain ⟨-, rfl, rfl⟩ :=
        Composite.collection.inj (Option.some.inj (definition.symm.trans definition'))
      rw [below.unique below']
  | .cursor definition below, .cursor definition' below' => by
      obtain ⟨-, rfl⟩ := Composite.record.inj (Option.some.inj (definition.symm.trans definition'))
      rw [below.unique below']

theorem UnfoldsAll.unique {types : TypeTable} {attributes : List Attribute}
    {members members' : List (String × Shape)} :
    UnfoldsAll types attributes members → UnfoldsAll types attributes members' → members = members'
  | .nil, .nil => rfl
  | .cons first below, .cons first' below' => by rw [first.unique first', below.unique below']

end

/-! ## Parameters -/

/-- Neither the parameter nor anything below it refers to a type that was resolved. -/
inductive ParamTree.SpelledOut (resolutions : Resolutions) : ParamTree → Prop
  | node {t : ParamTree}
      (here : ∀ r res, t.spec.typeRef = some r.name → resolutions.get? r ≠ some (.ok res))
      (below : ∀ child ∈ t.children, SpelledOut resolutions child) : SpelledOut resolutions t

theorem ParamTree.rows_subset_rowsBelow {depth : Nat} {t : ParamTree} {ts : List ParamTree}
    (h : t ∈ ts) : t.rows depth ⊆ rowsBelow depth ts := by
  obtain ⟨before, after, rfl⟩ := List.append_of_mem h
  rw [rowsBelow_append, rowsBelow]
  exact List.subset_append_of_subset_right _ (List.subset_append_left _ _)

/-- Without references everything is spelled out. -/
theorem ParamTree.spelledOut_of_rows (resolutions : Resolutions) (t : ParamTree) (depth : Nat)
    (h : ∀ node ∈ t.rows depth, node.1.spec.typeRef = none) : t.SpelledOut resolutions := by
  induction t using ParamTree.induction generalizing depth with
  | node t ih =>
  rw [rows_eq] at h
  obtain ⟨hhere, hbelow⟩ := List.forall_mem_cons.mp h
  refine .node (fun r res hreference => ?_) fun child hchild => ih child hchild (depth + 1) ?_
  · have hnone : t.spec.typeRef = none := hhere
    rw [hnone] at hreference
    cases hreference
  · intro node hnode
    exact hbelow node (rows_subset_rowsBelow hchild hnode)

namespace Conversion

variable {resolutions : Resolutions} {types : TypeTable} {site : Site}

/-- All the definitions are found under their names. Cursors have no definitions of their own. -/
def Found (types : TypeTable) (ds : List Composite) : Prop :=
  ∀ d ∈ ds, d.kind ≠ .cursor → types.get? d.name = some d

/-- The type unfolds to the shape, and leads to all the definitions. -/
structure Unfolded (types : TypeTable) (type : DataType) (ds : List Composite) (shape : Shape) :
    Prop where
  unfolds : Unfolds types type shape
  reached : ∀ d ∈ ds, ∃ r, type = .composite r ∧ types.Reaches r.name d.name

/-- What is said of a parameter: wherever it stands, its type unfolds to the tree of its rows, if
that is spelled out and the definitions written for it are all found. -/
def Faithful (resolutions : Resolutions) (types : TypeTable) (t : ParamTree) : Prop :=
  t.SpelledOut resolutions → ∀ site type ds, written resolutions site t = .ok (type, ds) →
    Found types ds → ∃ shape, t.shape? = some shape ∧ Unfolded types type ds shape

theorem members_faithful {ts : List ParamTree} (hts : ∀ t ∈ ts, Faithful resolutions types t)
    (hspelled : ∀ t ∈ ts, t.SpelledOut resolutions) {attributes : List Attribute}
    {ds : List Composite} (h : writtenMembers resolutions site ts = .ok (attributes, ds))
    (hds : Found types ds) :
    ∃ members, ParamTree.memberShapes? ts = some members ∧ UnfoldsAll types attributes members ∧
      ∀ d ∈ ds, ∃ r, .composite r ∈ attributes.map (·.dataType) ∧ types.Reaches r.name d.name := by
  induction ts generalizing attributes ds with
  | nil =>
      obtain ⟨rfl, rfl⟩ := Prod.mk.inj (Except.ok.inj h)
      exact ⟨[], rfl, .nil, by simp⟩
  | cons t ts ih =>
      obtain ⟨ht, hts⟩ := List.forall_mem_cons.mp hts
      obtain ⟨hfirst, hrest⟩ := List.forall_mem_cons.mp hspelled
      rw [writtenMembers] at h
      obtain ⟨⟨type, ds₁⟩, hwritten, h⟩ := bind_eq_ok.mp h
      obtain ⟨⟨rest, ds₂⟩, hbelow, h⟩ := bind_eq_ok.mp h
      obtain ⟨rfl, rfl⟩ := Prod.mk.inj (Except.ok.inj h)
      obtain ⟨shape, hshape, hunfolded⟩ :=
        ht hfirst _ type ds₁ hwritten fun d hd => hds d (List.mem_append_left _ hd)
      obtain ⟨members, hmembers, hunfolds, hreached⟩ :=
        ih hts hrest hbelow fun d hd => hds d (List.mem_append_right _ hd)
      refine ⟨(t.name, shape) :: members, ?_, .cons hunfolded.unfolds hunfolds, fun d hd => ?_⟩
      · rw [ParamTree.memberShapes?, hshape, hmembers]
        rfl
      · rcases List.mem_append.mp hd with hd | hd
        · obtain ⟨r, rfl, hreach⟩ := hunfolded.reached d hd
          exact ⟨r, List.mem_cons_self, hreach⟩
        · obtain ⟨r, hr, hreach⟩ := hreached d hd
          exact ⟨r, List.mem_cons_of_mem _ hr, hreach⟩

theorem element_faithful {ts : List ParamTree} (hts : ∀ t ∈ ts, Faithful resolutions types t)
    (hspelled : ∀ t ∈ ts, t.SpelledOut resolutions) {fallback : String} {type : DataType}
    {ds : List Composite} (h : writtenElement resolutions site fallback ts = .ok (some (type, ds)))
    (hds : Found types ds) :
    ∃ shape, ParamTree.elementShape? ts = some shape ∧ Unfolded types type ds shape := by
  cases ts with
  | nil => cases h
  | cons t ts =>
      rw [writtenElement] at h
      obtain ⟨converted, hwritten, h⟩ := bind_eq_ok.mp h
      obtain rfl := Option.some.inj (Except.ok.inj h)
      exact hts t List.mem_cons_self (hspelled t List.mem_cons_self) _ type ds hwritten hds

/-- A definition that a type names leads to itself and to what its references lead to. -/
theorem reached_of_definition {r : Composite.Ref} {ds : List Composite} {d : Composite}
    (hname : d.name = r.name) (hd : types.get? d.name = some d)
    (hds : ∀ e ∈ ds, ∃ s ∈ d.references, types.Reaches s.name e.name) :
    ∀ e ∈ ds ++ [d], ∃ s, DataType.composite r = .composite s ∧ types.Reaches s.name e.name := by
  intro e he
  refine ⟨r, rfl, ?_⟩
  rcases List.mem_append.mp he with he | he
  · obtain ⟨s, hs, hreach⟩ := hds e he
    exact .head ⟨d, hname ▸ hd, s, hs, rfl⟩ hreach
  · rw [List.mem_singleton.mp he, hname]
    exact .refl

/-- **Types that are spelled out unfold to the tree of their rows**, if the definitions written for
them are found. -/
theorem unfolded_of_written (resolutions : Resolutions) (types : TypeTable) (t : ParamTree) :
    Faithful resolutions types t := by
  induction t using ParamTree.induction with
  | node t ih =>
  intro hspelled site type ds h hds
  obtain ⟨here, below⟩ := hspelled
  obtain ⟨p, hplan, hoffers⟩ := offers_of_ok h
  have hplanned := planned_of_plan hplan
  obtain ⟨name, direction, sequence, spec, children⟩ := t
  cases hoffers with
  | @scalar s =>
      cases hplanned with
      | scalar single leaf =>
      refine ⟨.scalar s, ?_, .scalar, by simp⟩
      rw [ParamTree.shape?, single, leaf]
      rfl
  | @resolved r res =>
      cases hplanned with
      | resolved reference resolution =>
      exact absurd resolution (here r res reference)
  | @record _ attributes ds hbelow =>
      cases hplanned with
      | spelledOut composite =>
      obtain ⟨hbefore, hdefinition⟩ := List.forall_mem_append.mp hds
      obtain ⟨members, hmembers, hunfolds, hreached⟩ := members_faithful ih below hbelow hbefore
      have hdefinition := hdefinition _ (List.mem_singleton_self _) Composite.Kind.noConfusion
      refine ⟨.record members, ?_, .record hdefinition hunfolds, ?_⟩
      · rw [ParamTree.shape?, composite, hmembers]
        rfl
      · refine reached_of_definition rfl hdefinition fun e he => ?_
        obtain ⟨r, hr, hreach⟩ := hreached e he
        exact ⟨r, mem_references_record.mpr hr, hreach⟩
  | @collection _ element ds hbelow =>
      cases hplanned with
      | spelledOut composite =>
      obtain ⟨hbefore, hdefinition⟩ := List.forall_mem_append.mp hds
      obtain ⟨shape, hshape, hunfolded⟩ := element_faithful ih below hbelow hbefore
      have hdefinition := hdefinition _ (List.mem_singleton_self _) Composite.Kind.noConfusion
      refine ⟨.collection shape (indexingOf spec.dataKind), ?_,
        .collection hdefinition hunfolded.unfolds, ?_⟩
      · rw [ParamTree.shape?, composite, hshape]
        rfl
      · refine reached_of_definition rfl hdefinition fun e he => ?_
        obtain ⟨r, rfl, hreach⟩ := hunfolded.reached e he
        exact ⟨r, List.mem_singleton_self r, hreach⟩
  | @cursor _ row ds hbelow =>
      cases hplanned with
      | spelledOut composite =>
      obtain ⟨shape, hshape, hunfolded⟩ := element_faithful ih below hbelow hds
      cases hunfolded.unfolds with
      | @record _ attributes members definition hunfolds =>
      refine ⟨.cursor members, ?_, .cursor definition hunfolds, fun d hd => ?_⟩
      · rw [ParamTree.shape?, composite, hshape]
      · obtain ⟨r, hr, hreach⟩ := hunfolded.reached d hd
        obtain rfl := DataType.composite.inj hr
        exact ⟨_, rfl, hreach⟩

end Conversion

/-! ## Assembly -/

namespace Assembly

variable {g : Gathered}

/-- Of all the definitions that are offered, those for the parameter have their names to
themselves. -/
def Unrivalled (g : Gathered) (site : Conversion.Site) (t : ParamTree) : Prop :=
  ∀ d ∈ Conversion.definitionsAt g.resolutions site t, ∀ e ∈ offered g, e.name = d.name → e = d

/-- If the parameter is spelled out, and what is written for it has its names to itself, the type
unfolds to the tree of its rows. -/
def KeepsShape (g : Gathered) (types : TypeTable) (site : Conversion.Site) (t : ParamTree)
    (type : DataType) : Prop :=
  t.SpelledOut g.resolutions → Unrivalled g site t →
    ∃ shape, t.shape? = some shape ∧ Unfolds types type shape

theorem keepsShape_of_hasType {p : Progress} (h : Uptake g ⟨[], .empty, []⟩ g.signatures p)
    {site : Conversion.Site} {t : ParamTree} {type : DataType}
    (htype : Conversion.HasType g.resolutions site t type)
    (hoffered : Conversion.definitionsAt g.resolutions site t ⊆ offered g) {types : List DataType}
    (hused : type ∈ types) : KeepsShape g (p.types.reachableFrom types) site t type := by
  intro hspelled hunrivalled
  have hproper : p.types.Proper := h.proper_types TypeTable.proper_empty
  have hfound : Conversion.Found p.types (Conversion.definitionsAt g.resolutions site t) := by
    intro d hd hkind
    have hget : p.types.get? d.name =
        (offered g).find? fun c => c.kind ≠ .cursor ∧ c.name = d.name := h.get?_types d.name
    have hsome : ((offered g).find? fun c => c.kind ≠ .cursor ∧ c.name = d.name).isSome :=
      List.find?_isSome.mpr ⟨d, hoffered hd, decide_eq_true ⟨hkind, rfl⟩⟩
    obtain ⟨e, he⟩ := Option.isSome_iff_exists.mp hsome
    have hname : e.kind ≠ .cursor ∧ e.name = d.name := by simpa using List.find?_some he
    rw [hget, he, hunrivalled d hd e (List.mem_of_find?_eq_some he) hname.2]
  obtain ⟨_, -, hleads⟩ :=
    Conversion.unfolded_of_written g.resolutions p.types t hspelled site type _ htype hfound
  -- what the type leads to is not pruned
  have hkept : Conversion.Found (p.types.reachableFrom types)
      (Conversion.definitionsAt g.resolutions site t) := by
    intro d hd hkind
    obtain ⟨r, rfl, hreach⟩ := hleads.reached d hd
    refine (TypeTable.get?_reachableFrom hproper _).mpr ⟨hfound d hd hkind, r.name, ?_, hreach⟩
    exact List.mem_filterMap.mpr ⟨.composite r, hused, rfl⟩
  obtain ⟨shape, hshape, hunfolded⟩ :=
    Conversion.unfolded_of_written g.resolutions _ t hspelled site type _ htype hkept
  exact ⟨shape, hshape, hunfolded.unfolds⟩

theorem forall₂_imp_of_mem {α β : Type} {R S : α → β → Prop} {as : List α} {bs : List β}
    (h : List.Forall₂ R as bs) (himp : ∀ a ∈ as, ∀ b ∈ bs, R a b → S a b) :
    List.Forall₂ S as bs := by
  induction h with
  | nil => exact .nil
  | cons hab _ ih =>
      refine .cons (himp _ List.mem_cons_self _ List.mem_cons_self hab) (ih fun a ha b hb => ?_)
      exact himp a (List.mem_cons_of_mem _ ha) b (List.mem_cons_of_mem _ hb)

/-- **Types that are spelled out keep their structure**, if the definitions written for them have
their names to themselves. -/
theorem assemble_unfolds (options : Options) (g : Gathered) (model : Model) (summary : Summary)
    (h : assemble options g = .ok (model, summary)) :
    ∀ r ∈ model.routines, ∃ s ∈ takenUp g [] g.signatures,
      r.owner = s.owner ∧ r.package = s.package ∧ r.name = s.name ∧
      List.Forall₂ (fun t a => a.name = t.name ∧
        KeepsShape g model.types (Conversion.siteOf s t.name) t a.dataType)
        s.arguments r.arguments ∧
      Option.Rel (fun t a => KeepsShape g model.types (Conversion.siteOf s "RET") t a.dataType)
        s.returns r.returns := by
  intro r hr
  obtain ⟨s, hs, howner, hpackage, hname, r₀, types, hroutine, harguments', hreturns'⟩ :=
    exists_signature_of_mem h hr
  obtain ⟨p, huptake, rfl, -⟩ := exists_uptake_of_assemble h
  obtain ⟨harguments, hreturns, -⟩ := Conversion.hasType_of_routine hroutine
  rw [harguments'] at harguments
  rw [hreturns'] at hreturns
  have hoffered : Conversion.definitions g.resolutions s ⊆ offered g := fun d hd =>
    List.mem_flatMap.mpr ⟨s, hs, hd⟩
  refine ⟨s, hs, howner, hpackage, hname, ?_, ?_⟩
  · refine forall₂_imp_of_mem harguments fun t ht a ha ⟨hname, htype⟩ => ⟨hname, ?_⟩
    refine keepsShape_of_hasType huptake htype (fun d hd => hoffered ?_) ?_
    · exact List.mem_append_left _ (List.mem_flatMap.mpr ⟨t, ht, hd⟩)
    · refine List.mem_flatMap.mpr ⟨r, hr, List.mem_append_left _ ?_⟩
      exact List.mem_map_of_mem ha
  · generalize hresult : s.returns = result, hreturn : r.returns = returns at hreturns
    cases hreturns with
    | none => exact .none
    | @some t a htype =>
        refine .some (keepsShape_of_hasType huptake htype (fun d hd => hoffered ?_) ?_)
        · exact List.mem_append_right _ (List.mem_flatMap.mpr ⟨t, by simp [hresult], hd⟩)
        · refine List.mem_flatMap.mpr ⟨r, hr, List.mem_append_right _ ?_⟩
          rw [hreturn]
          exact List.mem_singleton_self _

/-- A routine that takes a record with a number and returns a record with text. Rows spell both
out. -/
def sampleFoo (argument : String) : Gathered where
  signatures :=
    [{ owner := "APP", package := "PKG", name := "FOO", subprogramId := 1
       arguments := [⟨argument, .input, 1, ⟨"PL/SQL RECORD", 0, 0, 0, "", none⟩,
         [⟨"A", .input, 2, ⟨"NUMBER", 0, 0, 0, "", none⟩, []⟩]⟩]
       returns := some ⟨"", .output, 3, ⟨"PL/SQL RECORD", 0, 0, 0, "", none⟩,
         [⟨"B", .output, 4, ⟨"VARCHAR2", 0, 0, 0, "", none⟩, []⟩]⟩ }]
  resolutions := .empty
  packages := .empty
  extraDirectives := []
  warnings := []
  typeFetches := 0

/-- The record of the argument. -/
def sampleArgument : Shape := .record [("A", .scalar ⟨.number, "NUMBER", 0, 0, 0, ""⟩)]

/-- The record of the result. -/
def sampleResult : Shape := .record [("B", .scalar ⟨.text, "VARCHAR2", 0, 0, 32767, ""⟩)]

theorem assemble_unfolds_sample :
    ∃ model summary, assemble {} (sampleFoo "P_WHERE") = .ok (model, summary) ∧
      ∃ r ∈ model.routines,
        (∃ a ∈ r.arguments, Unfolds model.types a.dataType sampleArgument) ∧
        ∃ result, r.returns = some result ∧ Unfolds model.types result.dataType sampleResult := by
  obtain ⟨p, r, hfold, hkept⟩ : ∃ p r,
      (sampleFoo "P_WHERE").signatures.foldlM (takeUp (sampleFoo "P_WHERE") {})
        ⟨[], .empty, []⟩ = .ok p ∧
      (Effects.applyAll (directives (sampleFoo "P_WHERE")) p.routines).1 = [r] := ⟨_, _, rfl, rfl⟩
  obtain ⟨summary, h, -⟩ := exists_assemble_of_foldlM hfold
  have hr : r ∈ sortRoutines (Effects.applyAll (directives (sampleFoo "P_WHERE")) p.routines).1 :=
    List.mem_mergeSort.mpr (by simp [hkept])
  obtain ⟨s, hs, -, -, -, harguments, hreturns⟩ :=
    assemble_unfolds {} (sampleFoo "P_WHERE") _ summary h r hr
  obtain rfl := List.mem_singleton.mp (takenUp_subset _ _ _ hs)
  refine ⟨_, summary, h, r, hr, ?_, ?_⟩
  · obtain ⟨a, as, ⟨-, hkeeps⟩, -, has⟩ := List.forall₂_cons_left_iff.mp harguments
    obtain ⟨shape, hshape, hunfolds⟩ :=
      hkeeps (ParamTree.spelledOut_of_rows _ _ 0 (by decide)) (by unfold Unrivalled; decide)
    obtain rfl : sampleArgument = shape := Option.some.inj hshape
    exact ⟨a, has ▸ List.mem_cons_self, hunfolds⟩
  · generalize hresult : r.returns = returns at hreturns
    cases hreturns with
    | @some t result hkeeps =>
        obtain ⟨shape, hshape, hunfolds⟩ :=
          hkeeps (ParamTree.spelledOut_of_rows _ _ 0 (by decide)) (by unfold Unrivalled; decide)
        obtain rfl : sampleResult = shape := Option.some.inj hshape
        exact ⟨result, rfl, hunfolds⟩

/-- An argument `RET` has the name that is meant for the result, so the result gets its record. -/
theorem assemble_shares_definition :
    ∃ model summary, assemble {} (sampleFoo "RET") = .ok (model, summary) ∧
      ∃ s ∈ (sampleFoo "RET").signatures, ∃ t, s.returns = some t ∧
        t.SpelledOut (sampleFoo "RET").resolutions ∧ t.shape? = some sampleResult ∧
        ∃ r ∈ model.routines, r.name = s.name ∧ ∃ result, r.returns = some result ∧
          Unfolds model.types result.dataType sampleArgument ∧
          ¬ Unfolds model.types result.dataType sampleResult := by
  obtain ⟨p, r, hfold, hkept, hname, result, hresult, htype, hget⟩ : ∃ p r,
      (sampleFoo "RET").signatures.foldlM (takeUp (sampleFoo "RET") {}) ⟨[], .empty, []⟩ = .ok p ∧
      (Effects.applyAll (directives (sampleFoo "RET")) p.routines).1 = [r] ∧ r.name = "FOO" ∧
      ∃ result, r.returns = some result ∧
        result.dataType = .composite ⟨.record, ⟨"APP", "PKG", "FOO__RET_REC"⟩⟩ ∧
        p.types.get? ⟨"APP", "PKG", "FOO__RET_REC"⟩ = some (.record ⟨"APP", "PKG", "FOO__RET_REC"⟩
          [⟨"A", .scalar ⟨.number, "NUMBER", 0, 0, 0, ""⟩⟩]) :=
    ⟨_, _, rfl, rfl, rfl, _, rfl, rfl, rfl⟩
  have hproper : p.types.Proper := (uptake_of_foldlM hfold).proper_types TypeTable.proper_empty
  have hr : r ∈ sortRoutines (Effects.applyAll (directives (sampleFoo "RET")) p.routines).1 :=
    List.mem_mergeSort.mpr (by simp [hkept])
  obtain ⟨summary, h, -⟩ := exists_assemble_of_foldlM hfold
  have hunfolds : Unfolds (p.types.reachableFrom
      ((sortRoutines (Effects.applyAll (directives (sampleFoo "RET")) p.routines).1).flatMap
        Routine.dataTypes)) result.dataType sampleArgument := by
    rw [htype]
    refine .record ((TypeTable.get?_reachableFrom hproper _).mpr ⟨hget, _, ?_, .refl⟩)
      (.cons .scalar .nil)
    refine List.mem_filterMap.mpr ⟨result.dataType, ?_, by rw [htype]; rfl⟩
    refine List.mem_flatMap.mpr ⟨r, hr, ?_⟩
    simp [Routine.dataTypes, hresult]
  refine ⟨_, summary, h, _, .head _, _, rfl, ?_, rfl, r, hr, hname, result, hresult, hunfolds,
    fun hother => ?_⟩
  · exact ParamTree.spelledOut_of_rows _ _ 0 (by decide)
  · have hsame : sampleArgument = sampleResult := hunfolds.unique hother
    simp [sampleArgument, sampleResult] at hsame

end Assembly

end RoutineBridge
