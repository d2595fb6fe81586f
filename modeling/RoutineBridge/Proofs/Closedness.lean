import RoutineBridge.Proofs.Memory
import RoutineBridge.Proofs.Reachability
import RoutineBridge.Proofs.Resolution
import RoutineBridge.Proofs.Written

/-!
# Models are closed

A conversion puts the definitions of the types it finds behind those that are known, and whatever
it refers to is among them afterwards (`Supplies`): a resolution is closed by itself, and a type
that is spelled out is put behind what its members refer to, so it does no harm if its name has a
definition already. Routines keep their types under directives, and pruning keeps what they lead
to, so a model is closed and has nothing to spare (`assemble_closed`).
-/

namespace RoutineBridge

/-! ## Conversion -/

/-- A closed table with every definition under its own name. -/
structure TypeTable.Whole (t : TypeTable) : Prop where
  proper : t.Proper
  closed : t.Closed

/-- The successful resolutions are closed and have a definition of what they were asked for. -/
def Resolutions.Whole (resolutions : Resolutions) : Prop :=
  ∀ r res, resolutions.get? r = some (.ok res) → res.types.Whole ∧ res.types.contains r.name

namespace Conversion

variable {resolutions : Resolutions} {site : Site} {found found' found'' : TypeTable}
  {types types' : List DataType} {ds : List Composite}

/-- From one table to another that has everything which the types refer to. -/
structure Supplies (found : TypeTable) (types : List DataType) (found' : TypeTable) : Prop where
  whole : found'.Whole
  kept : ∀ n, found.contains n → found'.contains n
  covers : ∀ r, .composite r ∈ types → found'.contains r.name

namespace Supplies

theorem nil (h : found.Whole) : Supplies found [] found where
  whole := h
  kept _ hn := hn
  covers r hr := by cases hr

theorem append (h : Supplies found types found') (h' : Supplies found' types' found'') :
    Supplies found (types ++ types') found'' where
  whole := h'.whole
  kept n hn := h'.kept n (h.kept n hn)
  covers r hr := by
    rcases List.mem_append.mp hr with hr | hr
    · exact h'.kept r.name (h.covers r hr)
    · exact h'.covers r hr

/-- A definition may be put behind what it refers to. -/
theorem insert {d : Composite} (h : Supplies found types found')
    (hreferences : ∀ r ∈ d.references, .composite r ∈ types) (hkind : d.kind ≠ .cursor)
    {r : Composite.Ref} (hr : r.name = d.name) :
    Supplies found [.composite r] (found'.insert d) where
  whole :=
    ⟨h.whole.proper.insert d, h.whole.closed.insert fun r hr => h.covers r (hreferences r hr)⟩
  kept n hn := TypeTable.contains_insert_of_contains (h.kept n hn) d
  covers s hs := by
    obtain rfl := DataType.composite.inj (List.mem_singleton.mp hs)
    rw [hr, TypeTable.contains_iff]
    -- the name had a definition before, or has this one now
    cases hget : found'.get? d.name with
    | some e => exact ⟨e, by rw [TypeTable.get?_insert, hget, Option.some_or]⟩
    | none => exact ⟨d, TypeTable.get?_insert_self hkind (congrArg Option.isSome hget)⟩

end Supplies

theorem mem_references_record {n : TypeName} {members : List Attribute} {r : Composite.Ref} :
    r ∈ (Composite.record n members).references ↔ .composite r ∈ members.map (·.dataType) := by
  have href : ∀ d : DataType, d.ref? = some r ↔ d = .composite r := by
    intro d
    cases d <;> simp [DataType.ref?]
  simp [Composite.references, href]

/-- What is said of a parameter: wherever it stands, what is written for it supplies what its type
refers to. -/
def Convertible (resolutions : Resolutions) (t : ParamTree) : Prop :=
  ∀ site found type ds, found.Whole → written resolutions site t = .ok (type, ds) →
    Supplies found [type] (found.insertAll ds)

theorem members_supplies {ts : List ParamTree} (hts : ∀ t ∈ ts, Convertible resolutions t)
    (hfound : found.Whole) {members : List Attribute}
    (h : writtenMembers resolutions site ts = .ok (members, ds)) :
    Supplies found (members.map (·.dataType)) (found.insertAll ds) := by
  induction ts generalizing found members ds with
  | nil =>
      obtain ⟨rfl, rfl⟩ := Prod.mk.inj (Except.ok.inj h)
      exact .nil hfound
  | cons t ts ih =>
      obtain ⟨ht, hts⟩ := List.forall_mem_cons.mp hts
      rw [writtenMembers] at h
      obtain ⟨⟨type, ds₁⟩, hfirst, h⟩ := bind_eq_ok.mp h
      obtain ⟨⟨rest, ds₂⟩, hrest, h⟩ := bind_eq_ok.mp h
      obtain ⟨rfl, rfl⟩ := Prod.mk.inj (Except.ok.inj h)
      have hfirst := ht _ found type ds₁ hfound hfirst
      rw [insertAll_append]
      exact hfirst.append (ih hts hfirst.whole hrest)

theorem element_supplies {ts : List ParamTree} (hts : ∀ t ∈ ts, Convertible resolutions t)
    (hfound : found.Whole) {fallback : String} {type : DataType}
    (h : writtenElement resolutions site fallback ts = .ok (some (type, ds))) :
    Supplies found [type] (found.insertAll ds) := by
  cases ts with
  | nil => cases h
  | cons t ts =>
      rw [writtenElement] at h
      obtain ⟨converted, hfirst, h⟩ := bind_eq_ok.mp h
      obtain rfl := Option.some.inj (Except.ok.inj h)
      exact hts t List.mem_cons_self _ found type ds hfound hfirst

/-- **Every parameter** supplies what its type refers to. -/
theorem convertible (hres : resolutions.Whole) (t : ParamTree) : Convertible resolutions t := by
  induction t using ParamTree.induction with
  | node t ih =>
  intro site found type ds hfound h
  obtain ⟨p, hplan, hoffers⟩ := offers_of_ok h
  cases hoffers with
  | scalar => exact ⟨hfound, fun _ hn => hn, by simp⟩
  | @resolved r res =>
      cases planned_of_plan hplan with
      | resolved reference resolution =>
      obtain ⟨hwhole, hcontains⟩ := hres r res resolution
      refine ⟨⟨hfound.proper.extend _, hfound.closed.extend hwhole.proper hwhole.closed⟩, ?_, ?_⟩
      · intro n hn
        exact (TypeTable.contains_extend found hwhole.proper n).mpr (.inl hn)
      · intro s hs
        obtain rfl := DataType.composite.inj (List.mem_singleton.mp hs)
        exact (TypeTable.contains_extend found hwhole.proper s.name).mpr (.inr hcontains)
  | record below =>
      have hbelow := members_supplies ih hfound below
      rw [insertAll_append]
      exact hbelow.insert (fun _ hr => mem_references_record.mp hr) Composite.Kind.noConfusion rfl
  | @collection _ element _ below =>
      have hbelow := element_supplies ih hfound below
      rw [insertAll_append]
      refine hbelow.insert (fun r hr => ?_) Composite.Kind.noConfusion rfl
      cases element with
      | scalar s => cases hr
      | composite s =>
          rw [List.mem_singleton.mp hr]
          exact List.mem_singleton_self _
  | @cursor _ row _ below =>
      -- a cursor refers to the name of its row
      have hbelow := element_supplies ih hfound below
      refine ⟨hbelow.whole, hbelow.kept, fun s hs => ?_⟩
      obtain rfl := DataType.composite.inj (List.mem_singleton.mp hs)
      exact hbelow.covers ⟨.record, row⟩ (List.mem_singleton_self _)

theorem arguments_supplies (hres : resolutions.Whole) {s : Signature} (hfound : found.Whole)
    {ts : List ParamTree} {as : List Argument}
    (h : List.Forall₂ (fun t a => a.name = t.name ∧
      HasType resolutions (siteOf s t.name) t a.dataType) ts as) :
    Supplies found (as.map (·.dataType)) (found.insertAll
      (ts.flatMap fun t => definitionsAt resolutions (siteOf s t.name) t)) := by
  induction h generalizing found with
  | nil => exact .nil hfound
  | @cons t a ts as hfirst _ ih =>
      have hfirst := convertible hres t _ found _ _ hfound hfirst.2
      rw [List.flatMap_cons, insertAll_append]
      exact hfirst.append (ih hfirst.whole)

/-- A routine comes with everything that its types refer to. -/
theorem routine_supplies (hres : resolutions.Whole) {s : Signature} {r : Routine}
    (h : routine resolutions s = .ok (r, found)) : Supplies .empty r.dataTypes found := by
  obtain ⟨harguments, hreturns, rfl⟩ := hasType_of_routine h
  have harguments := arguments_supplies hres ⟨TypeTable.proper_empty, TypeTable.closed_empty⟩
    harguments
  rw [definitions, insertAll_append, Routine.dataTypes]
  refine harguments.append ?_
  generalize s.returns = result, r.returns = returns at hreturns
  cases hreturns with
  | none => exact .nil harguments.whole
  | @some t a htype =>
      simpa using convertible hres t _ _ a.dataType _ harguments.whole htype

end Conversion

/-! ## Directives -/

namespace Effects

variable {rs : List Routine} {r : Routine}

/-- Directives leave routines with types that were there. -/
theorem exists_of_mem_applyEach {ds : List Directive} (hr : r ∈ (applyEach ds rs).1) :
    ∃ s ∈ rs, r.dataTypes = s.dataTypes := by
  obtain ⟨s, hs, horigin⟩ := exists_origin_of_mem_applyEach hr
  exact ⟨s, hs, Routine.dataTypes_eq_of_origin horigin.symm⟩

end Effects

/-! ## Assembly -/

namespace Assembly

variable {g : Gathered} {options : Options} {p p' : Progress}

/-- Everything that the routines taken up so far refer to is there. -/
structure Progress.Whole (p : Progress) : Prop where
  types : p.types.Whole
  covers : ∀ f ∈ p.routines, ∀ r, .composite r ∈ f.dataTypes → p.types.contains r.name

theorem Uptake.whole (hres : g.resolutions.Whole) {ss : List Signature} (h : Uptake g p ss p')
    (hp : p.Whole) : p'.Whole := by
  induction h with
  | done => exact hp
  | skip spare rest ih => exact ih ⟨hp.types, hp.covers⟩
  | @take p p' s ss f types converted fresh rest ih =>
      have hsupplies := Conversion.routine_supplies hres converted
      have hproper := hsupplies.whole.proper
      refine ih ⟨⟨hp.types.proper.extend _,
        hp.types.closed.extend hproper hsupplies.whole.closed⟩, ?_⟩
      intro f' hf' r hr
      rw [TypeTable.contains_extend p.types hproper]
      rcases List.mem_append.mp hf' with hf' | hf'
      · exact .inl (hp.covers f' hf' r hr)
      · rw [List.mem_singleton.mp hf'] at hr
        exact .inr (hsupplies.covers r hr)

theorem foldlM_takeUp_whole (hres : g.resolutions.Whole) {ss : List Signature} (h : p.Whole)
    (hfold : ss.foldlM (takeUp g options) p = .ok p') : p'.Whole :=
  (uptake_of_foldlM hfold).whole hres h

end Assembly

/-- The resolutions of a resolver are closed. -/
theorem Resolutions.whole_of_resolved {resolutions : Resolutions}
    (h : ∀ r res, resolutions.get? r = some (.ok res) →
      ∃ c calls, ((Resolver.after c calls).resolve c r).1 = .ok res) : resolutions.Whole := by
  intro r res hget
  obtain ⟨c, calls, hres⟩ := h r res hget
  have hcomplete : Resolution.Complete c r res := Resolver.complete_of_ok hres
  refine ⟨⟨hcomplete.grown.proper, fun n d => hcomplete.grown.closed⟩, ?_⟩
  rcases hcomplete.root with ⟨-, hroot, -⟩ | ⟨-, -, attributes, hroot⟩
  · exact TypeTable.contains_of_get? hroot
  · exact TypeTable.contains_of_get? hroot

namespace Model

/-- Everything that routines or definitions refer to has a definition, and every definition is one
that some routine leads to. -/
structure Closed (m : Model) : Prop where
  routines : ∀ f ∈ m.routines, ∀ r, .composite r ∈ f.dataTypes → m.types.contains r.name
  definitions : ∀ n d, m.types.get? n = some d → ∀ r ∈ d.references, m.types.contains r.name
  reached : ∀ n, m.types.contains n →
    ∃ f ∈ m.routines, ∃ r, .composite r ∈ f.dataTypes ∧ m.types.Reaches r.name n

theorem mem_roots_dataTypes {routines : List Routine} {n : TypeName} :
    n ∈ TypeTable.roots (routines.flatMap Routine.dataTypes) ↔
      ∃ f ∈ routines, ∃ r, .composite r ∈ f.dataTypes ∧ r.name = n := by
  simp only [TypeTable.roots, List.mem_filterMap, List.mem_flatMap]
  constructor
  · rintro ⟨d, ⟨f, hf, hd⟩, hn⟩
    cases d with
    | scalar s => cases hn
    | composite r => exact ⟨f, hf, r, hd, Option.some.inj hn⟩
  · rintro ⟨f, hf, r, hr, rfl⟩
    exact ⟨.composite r, ⟨f, hf, hr⟩, rfl⟩

theorem freeze_closed {routines : List Routine} {types : TypeTable} (h : types.Whole)
    (hcovers : ∀ f ∈ routines, ∀ r, .composite r ∈ f.dataTypes → types.contains r.name)
    (options : Options) : (freeze routines types options).Closed where
  routines f hf r hr :=
    (TypeTable.contains_reachableFrom h.proper _).mpr
      ⟨hcovers f hf r hr, r.name, mem_roots_dataTypes.mpr ⟨f, hf, r, hr, rfl⟩, .refl⟩
  definitions := h.closed.reachableFrom h.proper _
  reached n hn := by
    obtain ⟨-, root, hroot, hreach⟩ := (TypeTable.contains_reachableFrom h.proper _).mp hn
    obtain ⟨f, hf, r, hr, rfl⟩ := mem_roots_dataTypes.mp hroot
    exact ⟨f, hf, r, hr, TypeTable.reaches_reachableFrom h.proper hroot hreach⟩

end Model

namespace Assembly

/-- **Models are closed**, whichever way their types came, and whatever directives did to the
routines, if all resolutions come from resolvers. -/
theorem assemble_closed (options : Options) (g : Gathered)
    (hres : ∀ r res, g.resolutions.get? r = some (.ok res) →
      ∃ c calls, ((Resolver.after c calls).resolve c r).1 = .ok res)
    (model : Model) (summary : Summary) (h : assemble options g = .ok (model, summary)) :
    model.Closed := by
  obtain ⟨p, hfold, h⟩ := bind_eq_ok.mp h
  obtain ⟨rfl, -⟩ := Prod.mk.inj (Except.ok.inj h)
  have hwhole : p.Whole := foldlM_takeUp_whole (Resolutions.whole_of_resolved hres)
    ⟨⟨TypeTable.proper_empty, TypeTable.closed_empty⟩, by simp⟩ hfold
  refine Model.freeze_closed hwhole.types (fun f hf r hr => ?_) options
  rw [sortRoutines, List.mem_mergeSort] at hf
  obtain ⟨f', hf', htypes⟩ := Effects.exists_of_mem_applyEach hf
  exact hwhole.covers f' hf' r (htypes ▸ hr)

/-- A routine that takes lines the catalog knows, one with a record that only its rows spell out,
and one that takes an order. -/
def sampleGathered : Gathered where
  signatures :=
    [{ owner := "APP", package := "PKG", name := "PLACE", subprogramId := 1
       arguments := [⟨"P_LINES", .input, 1,
         ⟨"PL/SQL TABLE", 0, 0, 0, "", some ⟨"APP", "PKG", "LINES"⟩⟩, []⟩]
       returns := none },
     { owner := "APP", package := "PKG", name := "FIND", subprogramId := 2
       arguments := [⟨"P_WHERE", .input, 1,
         ⟨"PL/SQL RECORD", 0, 0, 0, "", some ⟨"APP", "PKG", "GONE"⟩⟩,
         [⟨"CITY", .input, 2, ⟨"VARCHAR2", 0, 0, 0, "", none⟩, []⟩]⟩]
       returns := none },
     { owner := "APP", package := "PKG", name := "DROP_ALL", subprogramId := 3
       arguments := [⟨"P_ORDER", .input, 1,
         ⟨"PL/SQL RECORD", 0, 0, 0, "", some ⟨"APP", "PKG", "ORDER"⟩⟩, []⟩]
       returns := none }]
  resolutions := .ofList <|
    [⟨.collection, ⟨"APP", "PKG", "LINES"⟩⟩, ⟨.record, ⟨"APP", "PKG", "GONE"⟩⟩,
      ⟨.record, ⟨"APP", "PKG", "ORDER"⟩⟩].map fun r =>
        (r, ((Resolver.after Resolver.sampleCatalog []).resolve Resolver.sampleCatalog r).1)
  packages := .empty
  extraDirectives := [⟨"PKG", .hide, "DROP_ALL", none, none, none⟩]
  warnings := []
  typeFetches := 0

theorem assemble_closed_sample :
    ∃ model summary, assemble {} sampleGathered = .ok (model, summary) ∧
      (∃ f ∈ model.routines, f.dataTypes = [.composite ⟨.collection, ⟨"APP", "PKG", "LINES"⟩⟩]) ∧
      (∃ f ∈ model.routines, f.dataTypes = [.composite ⟨.record, ⟨"APP", "PKG", "GONE"⟩⟩]) ∧
      model.Closed := by
  have hres : ∀ r res, sampleGathered.resolutions.get? r = some (.ok res) →
      ∃ c calls, ((Resolver.after c calls).resolve c r).1 = .ok res := by
    intro r res hget
    rw [sampleGathered, SortedMap.get?_ofList (by decide)] at hget
    obtain ⟨r', -, heq⟩ := List.mem_map.mp hget
    obtain ⟨rfl, hres⟩ := Prod.mk.inj heq
    exact ⟨Resolver.sampleCatalog, [], hres⟩
  obtain ⟨p, hfold, hkept⟩ : ∃ p,
      sampleGathered.signatures.foldlM (takeUp sampleGathered {}) ⟨[], .empty, []⟩ = .ok p ∧
      (Effects.applyAll (directives sampleGathered) p.routines).1.map Routine.dataTypes =
        [[.composite ⟨.collection, ⟨"APP", "PKG", "LINES"⟩⟩],
          [.composite ⟨.record, ⟨"APP", "PKG", "GONE"⟩⟩]] := ⟨_, rfl, rfl⟩
  have hassembled : ∃ summary, assemble {} sampleGathered =
      .ok (Model.freeze (sortRoutines (Effects.applyAll (directives sampleGathered) p.routines).1)
        p.types {}, summary) := ⟨_, bind_eq_ok.mpr ⟨p, hfold, rfl⟩⟩
  have hmem : ∀ types ∈ (Effects.applyAll (directives sampleGathered) p.routines).1.map
      Routine.dataTypes,
      ∃ f ∈ sortRoutines (Effects.applyAll (directives sampleGathered) p.routines).1,
        f.dataTypes = types := by
    intro types htypes
    obtain ⟨f, hf, rfl⟩ := List.mem_map.mp htypes
    exact ⟨f, List.mem_mergeSort.mpr hf, rfl⟩
  rw [hkept] at hmem
  obtain ⟨summary, h⟩ := hassembled
  exact ⟨_, summary, h, hmem _ (.head _), hmem _ (.tail _ (.head _)),
    assemble_closed {} sampleGathered hres _ summary h⟩

end Assembly

end RoutineBridge
