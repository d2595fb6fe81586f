import RoutineBridge.Proofs.Extensionality
import RoutineBridge.Proofs.Outline
import RoutineBridge.Proofs.Uptake

/-!
# What conversions write

A conversion never reads the definitions it is given: it has a type and a list of definitions of its
own (`written`), and puts these behind those that are known (`dataType_eq_written`). So the table of
a model is made from one list, the definitions that all signatures offer in turn, and under every
name it has the first of them (`Uptake.get?_types`).
-/

namespace RoutineBridge

/-- The scalar type that a type names by its data kind. -/
def TypeSpec.scalar? (spec : TypeSpec) : Option Scalar :=
  Scalar.ofCatalog? spec.dataKind spec.precision spec.scale spec.length spec.charset

namespace Conversion

/-! ## Plans -/

/-- What is known of a type that is converted by some plan. -/
inductive Planned (resolutions : Resolutions) (spec : TypeSpec) : Plan → Prop
  | scalar {s : Scalar} (single : spec.compositeKind? = none) (leaf : spec.scalar? = some s) :
      Planned resolutions spec (.scalar s)
  | resolved {r : Composite.Ref} {res : Resolution} (reference : spec.typeRef = some r.name)
      (resolution : resolutions.get? r = some (.ok res)) :
      Planned resolutions spec (.resolved r res)
  | spelledOut {kind : Composite.Kind} {name : Option TypeName}
      (composite : spec.compositeKind? = some kind) :
      Planned resolutions spec (.spelledOut kind name)

theorem planned_of_plan {resolutions : Resolutions} {site : Site} {spec : TypeSpec}
    {hasChildren : Bool} {p : Plan} (h : plan resolutions site spec hasChildren = .ok p) :
    Planned resolutions spec p := by
  obtain ⟨classified, hclassify, h⟩ := bind_eq_ok.mp h
  rw [TypeSpec.classify] at hclassify
  split at hclassify
  · rename_i kind hkind
    obtain rfl := Except.ok.inj hclassify
    cases hreference : spec.typeRef with
    | none =>
        rw [hreference] at h
        obtain rfl := Except.ok.inj h
        exact .spelledOut hkind
    | some name =>
        simp only [hreference] at h
        split at h
        · rename_i res hresolution
          obtain rfl := Except.ok.inj h
          exact .resolved hreference hresolution
        · split at h
          · obtain rfl := Except.ok.inj h
            exact .spelledOut hkind
          · cases h
        · cases h
        · split at h
          · obtain rfl := Except.ok.inj h
            exact .spelledOut hkind
          · cases h
  · rename_i hkind
    split at hclassify
    · rename_i s hleaf
      obtain rfl := Except.ok.inj hclassify
      obtain rfl := Except.ok.inj h
      exact .scalar hkind hleaf
    · split at hclassify <;> cases hclassify

/-! ## Types and definitions -/

mutual

/-- The type of a parameter, and the definitions that are offered for it, in order. -/
def written (resolutions : Resolutions) (site : Site) :
    ParamTree → Except ResolveError (DataType × List Composite)
  | ⟨_, _, _, spec, children⟩ => do
    let missing : ResolveError := .missingElement site.display spec.dataKind
    match ← plan resolutions site spec (!children.isEmpty) with
    | .scalar s => pure (.scalar s, [])
    | .resolved r resolution => pure (.composite r, resolution.types.toList)
    | .spelledOut .record name =>
      let name := name.getD (site.typeName "rec")
      let (members, ds) ← writtenMembers resolutions site children
      pure (.composite ⟨.record, name⟩, ds ++ [.record name members])
    | .spelledOut .collection name =>
      let name := name.getD (site.typeName "tab")
      match ← writtenElement resolutions site "ITEM" children with
      | none => throw missing
      | some (element, ds) =>
        let definition := .collection name element (indexingOf spec.dataKind)
        pure (.composite ⟨.collection, name⟩, ds ++ [definition])
    | .spelledOut .cursor _ =>
      match ← writtenElement resolutions site "ROW" children with
      | some (.composite ⟨.record, row⟩, ds) => pure (.composite ⟨.cursor, row⟩, ds)
      | _ => throw missing

def writtenMembers (resolutions : Resolutions) (site : Site) :
    List ParamTree → Except ResolveError (List Attribute × List Composite)
  | [] => pure ([], [])
  | t :: ts => do
    let (type, ds) ← written resolutions (site.child t "FIELD") t
    let (rest, ds') ← writtenMembers resolutions site ts
    pure (⟨t.name, type⟩ :: rest, ds ++ ds')

def writtenElement (resolutions : Resolutions) (site : Site) (fallback : String) :
    List ParamTree → Except ResolveError (Option (DataType × List Composite))
  | [] => pure none
  | t :: _ => do
    let converted ← written resolutions (site.child t fallback) t
    pure (some converted)

end

variable {resolutions : Resolutions}

theorem insertAll_append (found : TypeTable) (ds ds' : List Composite) :
    found.insertAll (ds ++ ds') = (found.insertAll ds).insertAll ds' :=
  List.foldl_append

/-- The conversion of a parameter puts what it writes behind what is found. -/
def Writes (resolutions : Resolutions) (t : ParamTree) : Prop :=
  ∀ site found, dataType resolutions site found t =
    (written resolutions site t).map fun (type, ds) => (type, found.insertAll ds)

theorem attributes_eq_written {ts : List ParamTree} (hts : ∀ t ∈ ts, Writes resolutions t)
    (site : Site) (found : TypeTable) :
    attributes resolutions site found ts =
      (writtenMembers resolutions site ts).map fun (members, ds) => (members, found.insertAll ds) := by
  induction ts generalizing found with
  | nil => rfl
  | cons t ts ih =>
      obtain ⟨ht, hts⟩ := List.forall_mem_cons.mp hts
      rw [attributes, writtenMembers, ht]
      cases written resolutions (site.child t "FIELD") t with
      | error e => rfl
      | ok x =>
          obtain ⟨type, ds⟩ := x
          show (attributes resolutions site (found.insertAll ds) ts >>= _) = _
          rw [ih hts]
          cases writtenMembers resolutions site ts with
          | error e => rfl
          | ok x =>
              show Except.ok (_, (found.insertAll ds).insertAll x.2) = _
              rw [← insertAll_append]
              rfl

theorem firstElement_eq_written {ts : List ParamTree} (hts : ∀ t ∈ ts, Writes resolutions t)
    (site : Site) (found : TypeTable) (fallback : String) :
    firstElement resolutions site found fallback ts =
      (writtenElement resolutions site fallback ts).map
        (Option.map fun (type, ds) => (type, found.insertAll ds)) := by
  cases ts with
  | nil => rfl
  | cons t ts =>
      rw [firstElement, writtenElement, hts t List.mem_cons_self]
      cases written resolutions (site.child t fallback) t <;> rfl

/-- **Conversions do not read** what is found before them. -/
theorem dataType_eq_written (t : ParamTree) : Writes resolutions t := by
  induction t using ParamTree.induction with
  | node t ih =>
  intro site found
  obtain ⟨name, direction, sequence, spec, children⟩ := t
  rw [dataType, written]
  cases plan resolutions site spec (!children.isEmpty) with
  | error e => rfl
  | ok p =>
      cases p with
      | scalar s => rfl
      | resolved r res => rfl
      | spelledOut kind name =>
          cases kind with
          | record =>
              show (attributes resolutions site found children >>= _) = _
              rw [attributes_eq_written ih]
              cases writtenMembers resolutions site children with
              | error e => rfl
              | ok x =>
                  obtain ⟨members, ds⟩ := x
                  show Except.ok (_, (found.insertAll ds).insert _) = Except.ok (_, _)
                  rw [insertAll_append]
                  rfl
          | collection =>
              show (firstElement resolutions site found "ITEM" children >>= _) = _
              rw [firstElement_eq_written ih]
              cases writtenElement resolutions site "ITEM" children with
              | error e => rfl
              | ok element? =>
                  cases element? with
                  | none => rfl
                  | some x =>
                      obtain ⟨element, ds⟩ := x
                      show Except.ok (_, (found.insertAll ds).insert _) = Except.ok (_, _)
                      rw [insertAll_append]
                      rfl
          | cursor =>
              show (firstElement resolutions site found "ROW" children >>= _) = _
              rw [firstElement_eq_written ih]
              cases writtenElement resolutions site "ROW" children with
              | error e => rfl
              | ok element? =>
                  cases element? with
                  | none => rfl
                  | some x =>
                      obtain ⟨element, ds⟩ := x
                      cases element with
                      | scalar s => rfl
                      | composite r =>
                          obtain ⟨kind, row⟩ := r
                          cases kind <;> rfl

/-- What is written for a parameter that is converted by some plan. -/
inductive Offers (resolutions : Resolutions) (site : Site) (t : ParamTree) :
    Plan → DataType → List Composite → Prop
  | scalar {s : Scalar} : Offers resolutions site t (.scalar s) (.scalar s) []
  | resolved {r : Composite.Ref} {res : Resolution} :
      Offers resolutions site t (.resolved r res) (.composite r) res.types.toList
  | record {name : Option TypeName} {members : List Attribute} {ds : List Composite}
      (below : writtenMembers resolutions site t.children = .ok (members, ds)) :
      Offers resolutions site t (.spelledOut .record name)
        (.composite ⟨.record, name.getD (site.typeName "rec")⟩)
        (ds ++ [.record (name.getD (site.typeName "rec")) members])
  | collection {name : Option TypeName} {element : DataType} {ds : List Composite}
      (below : writtenElement resolutions site "ITEM" t.children = .ok (some (element, ds))) :
      Offers resolutions site t (.spelledOut .collection name)
        (.composite ⟨.collection, name.getD (site.typeName "tab")⟩)
        (ds ++ [.collection (name.getD (site.typeName "tab")) element (indexingOf t.spec.dataKind)])
  | cursor {name : Option TypeName} {row : TypeName} {ds : List Composite}
      (below : writtenElement resolutions site "ROW" t.children =
        .ok (some (.composite ⟨.record, row⟩, ds))) :
      Offers resolutions site t (.spelledOut .cursor name) (.composite ⟨.cursor, row⟩) ds

theorem offers_of_ok {site : Site} {t : ParamTree} {type : DataType} {ds : List Composite}
    (h : written resolutions site t = .ok (type, ds)) :
    ∃ p, plan resolutions site t.spec (!t.children.isEmpty) = .ok p ∧
      Offers resolutions site t p type ds := by
  obtain ⟨name, direction, sequence, spec, children⟩ := t
  rw [written] at h
  obtain ⟨p, hplan, h⟩ := bind_eq_ok.mp h
  refine ⟨p, hplan, ?_⟩
  cases p with
  | scalar s =>
      obtain ⟨rfl, rfl⟩ := Prod.mk.inj (Except.ok.inj h)
      exact .scalar
  | resolved r res =>
      obtain ⟨rfl, rfl⟩ := Prod.mk.inj (Except.ok.inj h)
      exact .resolved
  | spelledOut kind name =>
      cases kind with
      | record =>
          obtain ⟨⟨members, ds₁⟩, hbelow, h⟩ := bind_eq_ok.mp h
          obtain ⟨rfl, rfl⟩ := Prod.mk.inj (Except.ok.inj h)
          exact .record hbelow
      | collection =>
          obtain ⟨element?, hbelow, h⟩ := bind_eq_ok.mp h
          cases element? with
          | none => cases h
          | some converted =>
              obtain ⟨rfl, rfl⟩ := Prod.mk.inj (Except.ok.inj h)
              exact .collection hbelow
      | cursor =>
          obtain ⟨element?, hbelow, h⟩ := bind_eq_ok.mp h
          split at h
          · obtain ⟨rfl, rfl⟩ := Prod.mk.inj (Except.ok.inj h)
            exact .cursor hbelow
          · cases h

/-! ## Signatures -/

/-- The definitions that are offered for a parameter. -/
def definitionsAt (resolutions : Resolutions) (site : Site) (t : ParamTree) : List Composite :=
  match written resolutions site t with
  | .ok (_, ds) => ds
  | .error _ => []

/-- The definitions that are offered for a signature, in order. -/
def definitions (resolutions : Resolutions) (s : Signature) : List Composite :=
  s.arguments.flatMap (fun t => definitionsAt resolutions (siteOf s t.name) t) ++
    s.returns.toList.flatMap (definitionsAt resolutions (siteOf s "RET"))

/-- What is written for the parameter has this type. -/
def HasType (resolutions : Resolutions) (site : Site) (t : ParamTree) (type : DataType) : Prop :=
  written resolutions site t = .ok (type, definitionsAt resolutions site t)

theorem hasType_of_ok {site : Site} {found found' : TypeTable} {t : ParamTree} {type : DataType}
    (h : dataType resolutions site found t = .ok (type, found')) :
    HasType resolutions site t type ∧
      found' = found.insertAll (definitionsAt resolutions site t) := by
  rw [dataType_eq_written t site found] at h
  rw [HasType, definitionsAt]
  cases hwritten : written resolutions site t with
  | error e =>
      rw [hwritten] at h
      cases h
  | ok x =>
      rw [hwritten] at h
      obtain ⟨rfl, rfl⟩ := Prod.mk.inj (Except.ok.inj h)
      exact ⟨rfl, rfl⟩

theorem hasType_of_arguments {s : Signature} {position : Nat} {found found' : TypeTable}
    {ts : List ParamTree} {as : List Argument}
    (h : arguments resolutions s position found ts = .ok (as, found')) :
    List.Forall₂ (fun t a => a.name = t.name ∧
      HasType resolutions (siteOf s t.name) t a.dataType) ts as ∧
      found' = found.insertAll
        (ts.flatMap fun t => definitionsAt resolutions (siteOf s t.name) t) := by
  induction ts generalizing position found as with
  | nil =>
      obtain ⟨rfl, rfl⟩ := Prod.mk.inj (Except.ok.inj h)
      exact ⟨.nil, rfl⟩
  | cons t ts ih =>
      obtain ⟨⟨type, found₁⟩, hfirst, h⟩ := bind_eq_ok.mp h
      obtain ⟨⟨rest, found₂⟩, hrest, h⟩ := bind_eq_ok.mp h
      obtain ⟨rfl, rfl⟩ := Prod.mk.inj (Except.ok.inj h)
      obtain ⟨htype, rfl⟩ := hasType_of_ok hfirst
      obtain ⟨htypes, rfl⟩ := ih hrest
      exact ⟨.cons ⟨rfl, htype⟩ htypes, by rw [List.flatMap_cons, insertAll_append]⟩

/-- A routine has the types that are written for its signature, and its table has the first
definition of every name that is offered. -/
theorem hasType_of_routine {s : Signature} {r : Routine} {types : TypeTable}
    (h : routine resolutions s = .ok (r, types)) :
    List.Forall₂ (fun t a => a.name = t.name ∧
      HasType resolutions (siteOf s t.name) t a.dataType) s.arguments r.arguments ∧
      Option.Rel (fun t a => HasType resolutions (siteOf s "RET") t a.dataType)
        s.returns r.returns ∧
      types = TypeTable.empty.insertAll (definitions resolutions s) := by
  obtain ⟨as, found, harguments, ⟨hreturns, rfl, rfl⟩ | ⟨t, type, hreturns, htype, rfl⟩⟩ :=
    exists_of_routine h
  · obtain ⟨htypes, rfl⟩ := hasType_of_arguments harguments
    refine ⟨htypes, ?_, ?_⟩
    · rw [hreturns]
      exact .none
    · rw [definitions, hreturns]
      simp
  · obtain ⟨htypes, rfl⟩ := hasType_of_arguments harguments
    obtain ⟨hresult, rfl⟩ := hasType_of_ok htype
    refine ⟨htypes, ?_, ?_⟩
    · rw [hreturns]
      exact .some hresult
    · rw [definitions, hreturns, insertAll_append]
      simp

end Conversion

/-! ## Assembly -/

namespace Assembly

variable {g : Gathered} {p p' : Progress} {ss : List Signature}

/-- The definitions that are offered for the signatures that are taken up, in order. -/
def offered (g : Gathered) : List Composite :=
  (takenUp g [] g.signatures).flatMap (Conversion.definitions g.resolutions)

theorem Uptake.proper_types (h : Uptake g p ss p') (hp : p.types.Proper) : p'.types.Proper := by
  induction h with
  | done => exact hp
  | skip spare rest ih => exact ih hp
  | take converted fresh rest ih => exact ih (hp.extend _)

/-- The table that signatures leave has the first definition of every name. -/
theorem Uptake.get?_types (h : Uptake g p ss p') (n : TypeName) :
    p'.types.get? n = (p.types.get? n).or
      (((takenUp g (p.routines.map (·.catalogKey)) ss).flatMap
        (Conversion.definitions g.resolutions)).find? fun c => c.kind ≠ .cursor ∧ c.name = n) := by
  induction h with
  | done => simp [takenUp]
  | skip spare rest ih =>
      rw [takenUp_of_spare spare]
      exact ih
  | @take p p' s ss r types converted fresh rest ih =>
      obtain ⟨-, -, rfl⟩ := Conversion.hasType_of_routine converted
      have hproper : (TypeTable.empty.insertAll (Conversion.definitions g.resolutions s)).Proper :=
        TypeTable.proper_empty.insertAll _
      rw [ih, takenUp_of_converted converted fresh, TypeTable.get?_extend _ hproper,
        TypeTable.get?_insertAll, List.flatMap_cons, List.find?_append, Option.or_assoc]
      rfl

end Assembly

end RoutineBridge
