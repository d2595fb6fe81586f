import RoutineBridge.Proofs.Memory

/-!
# What resolutions say

A resolution is the part of the catalog that the use leads to, entry by entry
(`resolve_reachable`). Every call ends; it refuses a type as recursive only with a cycle to show for
it, and where nothing else can fail it refuses exactly the types that lead to a cycle
(`resolve_recursion`).
-/

namespace RoutineBridge

open Relation Inquiry

variable {c : Catalog} {u : Composite.Ref} {res : Resolution}

/-! ## The reachable part of the catalog -/

namespace Resolver

/-- **A resolution is the reachable part of the catalog.** Whatever was resolved before: everything
that its root or one of its definitions refers to has a definition, everything that has one is
reached from the use, and every definition is the one that the catalog has under its name. -/
theorem resolve_reachable (c : Catalog) (calls : List Composite.Ref) (u : Composite.Ref)
    (res : Resolution) (h : ((after c calls).resolve c u).1 = .ok res) :
    (∀ r ∈ res.root.references, res.types.contains r.name) ∧
    (∀ n d, res.types.get? n = some d → ∀ r ∈ d.references, res.types.contains r.name) ∧
    (∀ n, res.types.contains n → res.types.Reaches u.name n) ∧
    (∀ n d, res.types.get? n = some d → c.Describes n d) ∧
    ((u.kind ≠ .cursor ∧ res.types.get? u.name = some res.root ∧ res.root.kind = u.kind) ∨
      (u.kind = .cursor ∧ res.root = .cursor u.name ∧
        ∃ attributes, res.types.get? u.name = some (.record u.name attributes))) := by
  have hcomplete : Resolution.Complete c u res := complete_of_ok h
  refine ⟨?_, fun n d => hcomplete.grown.closed, hcomplete.reached,
    fun n d => hcomplete.grown.describes, hcomplete.root⟩
  rcases hcomplete.root with ⟨-, hget, -⟩ | ⟨-, hroot, attributes, hget⟩
  · exact hcomplete.grown.closed hget
  · intro r hr
    rw [hroot] at hr
    rw [List.mem_singleton.mp hr]
    exact TypeTable.contains_of_get? hget

/-- A member that uses a type of the same package. -/
def sampleMember (name dataKind typeName : String) : MemberRow :=
  { name, dataKind, typeOwner := "APP", typePackage := "PKG", typeName }

/-- An order leads to a person in two ways, as its buyer and as the seller of its lines. A node
leads back to itself through the nodes below it. -/
def sampleCatalog : Catalog where
  snapshot := Snapshot.empty
    |>.withRecord ⟨"APP", "PKG", "ORDER"⟩
      [sampleMember "BUYER" "PL/SQL RECORD" "PERSON", sampleMember "LINES" "PL/SQL TABLE" "LINES"]
    |>.withCollection ⟨"APP", "PKG", "LINES"⟩
      { element := sampleMember "" "PL/SQL RECORD" "LINE", indexed := true }
    |>.withRecord ⟨"APP", "PKG", "LINE"⟩ [sampleMember "SELLER" "PL/SQL RECORD" "PERSON"]
    |>.withRecord ⟨"APP", "PKG", "PERSON"⟩ [{ name := "NAME", dataKind := "VARCHAR2" }]
    |>.withRecord ⟨"APP", "PKG", "NODE"⟩ [sampleMember "BELOW" "PL/SQL TABLE" "NODES"]
    |>.withCollection ⟨"APP", "PKG", "NODES"⟩ { element := sampleMember "" "PL/SQL RECORD" "NODE" }

theorem resolve_reachable_sample :
    ∃ res,
      ((after sampleCatalog [⟨.collection, ⟨"APP", "PKG", "LINES"⟩⟩]).resolve sampleCatalog
        ⟨.cursor, ⟨"APP", "PKG", "ORDER"⟩⟩).1 = .ok res ∧
      res.root = .cursor ⟨"APP", "PKG", "ORDER"⟩ ∧
      res.types.definitions.keys = [⟨"APP", "PKG", "LINE"⟩, ⟨"APP", "PKG", "LINES"⟩,
        ⟨"APP", "PKG", "ORDER"⟩, ⟨"APP", "PKG", "PERSON"⟩] ∧
      (∀ n d, res.types.get? n = some d → ∀ r ∈ d.references, res.types.contains r.name) ∧
      (∀ n, res.types.contains n → res.types.Reaches ⟨"APP", "PKG", "ORDER"⟩ n) ∧
      ∀ n d, res.types.get? n = some d → sampleCatalog.Describes n d := by
  obtain ⟨res, hres, hroot, hkeys⟩ : ∃ res,
      ((after sampleCatalog [⟨.collection, ⟨"APP", "PKG", "LINES"⟩⟩]).resolve sampleCatalog
        ⟨.cursor, ⟨"APP", "PKG", "ORDER"⟩⟩).1 = .ok res ∧
      res.root = .cursor ⟨"APP", "PKG", "ORDER"⟩ ∧
      res.types.definitions.keys = [⟨"APP", "PKG", "LINE"⟩, ⟨"APP", "PKG", "LINES"⟩,
        ⟨"APP", "PKG", "ORDER"⟩, ⟨"APP", "PKG", "PERSON"⟩] := ⟨_, rfl, rfl, rfl⟩
  obtain ⟨-, hclosed, hreached, hdescribed, -⟩ := resolve_reachable _ _ _ res hres
  exact ⟨res, hres, hroot, hkeys, hclosed, hreached, hdescribed⟩

end Resolver

/-! ## Recursion -/

/-- Nothing but recursion can go wrong: every name that a use leads to has one entry, which can be
looked up, is used with the kind of that entry, and all its members have types. -/
structure Catalog.Regular (c : Catalog) (u : Composite.Ref) : Prop where
  available : ∀ n d, c.Reaches u.name n → c.Holds n d → c.outages.error? d.kind n = none
  defined : ∀ n, c.Reaches u.name n → ∃! d, c.Holds n d
  root : ∀ d, c.Holds u.name d → d.kind = u.kind.stored
  uses : ∀ n d m r, c.Reaches u.name n → c.Holds n d → m ∈ d.members →
    m.dataType n = .ok (.composite r) → ∀ e, c.Holds r.name e → e.kind = r.kind.stored
  typed : ∀ n d m, c.Reaches u.name n → c.Holds n d → m ∈ d.members → ∃ t, m.dataType n = .ok t

namespace Catalog.Regular

/-- Every question of a walk is answered with an entry. -/
theorem define_ok (h : c.Regular u) {v : Composite.Ref} (hv : c.LeadsTo u v) :
    ∃ d, c.define v.kind.stored v.name = .ok d ∧ d.kind = v.kind.stored := by
  obtain ⟨d, hheld, -⟩ := h.defined v.name hv.reaches
  have hkind : d.kind = v.kind.stored := by
    rcases ReflTransGen.cases_tail hv with rfl | ⟨w, hw, e, hentry, -, m, hm, htype⟩
    · exact h.root d hheld
    · exact h.uses w.name e m v (LeadsTo.reaches hw) hentry hm htype d hheld
  rw [← hkind]
  exact ⟨d, define_of_holds hheld (h.available v.name d hv.reaches hheld), rfl⟩

/-- In a resolution all references of the catalog are there. -/
theorem refers (h : c.Regular u) (hres : Resolution.Complete c u res) {a b : TypeName}
    (ha : c.Reaches u.name a) (hcontains : res.types.contains a) (hab : c.Refers a b) :
    res.types.Refers a b := by
  obtain ⟨d, hget⟩ := TypeTable.contains_iff.mp hcontains
  obtain ⟨entry, hheld, -, hreferences⟩ := (hres.grown.describes hget).mem_references
  obtain ⟨entry', hheld', m, hm, r, htype, hname⟩ := hab
  obtain ⟨only, -, honly⟩ := h.defined a ha
  rw [honly entry' hheld', ← honly entry hheld] at hm
  exact ⟨d, hget, r, (hreferences r).mpr ⟨m, hm, htype⟩, hname⟩

theorem contains (h : c.Regular u) (hres : Resolution.Complete c u res) {n : TypeName}
    (hn : c.Reaches u.name n) : res.types.contains n := by
  induction hn with
  | refl =>
      rcases hres.root with ⟨-, hget, -⟩ | ⟨-, -, attributes, hget⟩
      · exact TypeTable.contains_of_get? hget
      · exact TypeTable.contains_of_get? hget
  | tail ha hab ih => exact hres.grown.refers_contains (h.refers hres ha ih hab)

/-- A type that leads to a cycle has no resolution. -/
theorem not_complete (h : c.Regular u) {n : TypeName} (hn : c.Reaches u.name n)
    (hcycle : TransGen c.Refers n n) : ¬ Resolution.Complete c u res := by
  intro hres
  -- the cycle of the catalog is one of the resolution, whose table has none
  have hpath : ∀ m, TransGen c.Refers n m → TransGen res.types.Refers n m := by
    intro m hm
    induction hm with
    | single hab => exact .single (h.refers hres hn (h.contains hres hn) hab)
    | tail ha hab ih =>
        have hreach := ReflTransGen.trans hn ha.to_reflTransGen
        exact .tail ih (h.refers hres hreach (h.contains hres hreach) hab)
  exact hres.grown.acyclic (hpath n hcycle)

end Catalog.Regular

/-- The type of a member is known, and if it is composite it has an entry. -/
def Catalog.answers (c : Catalog) (parent : TypeName) (m : MemberRow) : Bool :=
  match m.dataType parent with
  | .ok (.scalar _) => true
  | .ok (.composite r) => (c.define r.kind.stored r.name).isOk
  | .error _ => false

theorem Catalog.answers_composite {parent : TypeName} {m : MemberRow} {r : Composite.Ref}
    (h : m.dataType parent = .ok (.composite r)) :
    c.answers parent m = (c.define r.kind.stored r.name).isOk := by
  unfold answers
  rw [h]

/-- In a catalog with one entry for each name and an answer for each member, nothing but recursion
can go wrong. -/
theorem Catalog.regular_of_answers (hnodup : (c.entries.map (·.1)).Nodup)
    (hroot : (c.define u.kind.stored u.name).isOk)
    (hmembers : ∀ e ∈ c.entries, ∀ m ∈ e.2.members, c.answers e.1 m) : c.Regular u := by
  have hok : ∀ r : Composite.Ref, (c.define r.kind.stored r.name).isOk →
      ∃ d, c.define r.kind.stored r.name = .ok d ∧ c.Holds r.name d ∧ d.kind = r.kind.stored := by
    intro r hr
    cases hanswer : c.define r.kind.stored r.name with
    | error e =>
        rw [hanswer] at hr
        cases hr
    | ok d =>
        obtain ⟨hheld, hkind⟩ := define_ok hanswer
        exact ⟨d, rfl, hheld, hkind.trans (Composite.Kind.stored_stored _)⟩
  have hused : ∀ n d m r, c.Holds n d → m ∈ d.members → m.dataType n = .ok (.composite r) →
      (c.define r.kind.stored r.name).isOk := by
    intro n d m r hd hm htype
    have hanswers : c.answers n m := hmembers (n, d) hd.mem_entries m hm
    rwa [answers_composite htype] at hanswers
  have hunique : ∀ n d e, c.Holds n d → c.Holds n e → e = d := by
    intro n d e hd he
    exact congrArg Prod.snd (List.inj_on_of_nodup_map hnodup he.mem_entries hd.mem_entries rfl)
  -- by induction along the references: the name of every use has an answer
  have hfound : ∀ n, c.Reaches u.name n → ∃ kind d, c.define kind n = .ok d := by
    intro n hn
    induction hn with
    | refl =>
        obtain ⟨d, hd, -⟩ := hok u hroot
        exact ⟨_, d, hd⟩
    | tail _ hab _ =>
        obtain ⟨d, hd, m, hm, r, htype, rfl⟩ := hab
        obtain ⟨e, he, -⟩ := hok r (hused _ d m r hd hm htype)
        exact ⟨_, e, he⟩
  refine ⟨?_, ?_, ?_, ?_, ?_⟩
  · intro n d hn hd
    obtain ⟨kind, e, he⟩ := hfound n hn
    rw [hunique n e d (define_ok he).1 hd]
    exact available_of_define he
  · intro n hn
    obtain ⟨kind, d, hd⟩ := hfound n hn
    have hheld := (define_ok hd).1
    exact ⟨d, hheld, fun e => hunique n d e hheld⟩
  · intro d hd
    obtain ⟨e, -, he, hkind⟩ := hok u hroot
    rw [hunique _ e d he hd, hkind]
  · intro n d m r _ hd hm htype e he
    obtain ⟨e', -, he', hkind⟩ := hok r (hused n d m r hd hm htype)
    rw [hunique _ e' e he' he, hkind]
  · intro n d m _ hd hm
    have hanswers : c.answers n m := hmembers (n, d) hd.mem_entries m hm
    cases htype : m.dataType n with
    | ok t => exact ⟨t, rfl⟩
    | error e =>
        unfold answers at hanswers
        rw [htype] at hanswers
        cases hanswers

/-- An answer of the catalog is never worth a recursive type. -/
theorem Inquiry.Refused.ne_recursive {asks past : Composite.Ref → Prop} {e : ResolveError}
    (h : Refused c asks past e) (n : TypeName) (path : List TypeName) : e ≠ .recursive n path := by
  rintro rfl
  obtain ⟨v, -, h | ⟨found, h⟩ | ⟨_, _, -, h⟩⟩ := h.cases <;> cases h

namespace Resolver

/-- A type refused as recursive leads to a cycle. -/
theorem isCycle_of_recursive (calls : List Composite.Ref) {n : TypeName} {path : List TypeName}
    (h : ((after c calls).resolve c u).1 = .error (.recursive n path)) :
    c.IsCycle n path ∧ c.Reaches u.name n := by
  rcases resolve_outcome c calls u with ⟨res, hres, -⟩ | ⟨e, hres, hfails⟩
  · cases h.symm.trans hres
  · obtain rfl := Except.error.inj (h.symm.trans hres)
    rcases hfails with hfails | hrefused
    · cases hfails with
      | recursive cycle reached => exact ⟨cycle, reached⟩
      | member used held mem untyped =>
          obtain ⟨context, h | h | h⟩ := MemberRow.dataType_error untyped <;> cases h
    · exact absurd rfl (hrefused.ne_recursive n path)

/-- Where nothing but recursion can go wrong, a first call gives a resolution or a cycle. -/
theorem resolve_regular (h : c.Regular u) :
    (∃ res, (empty.resolve c u).1 = .ok res ∧ Resolution.Complete c u res) ∨
      ∃ n path, (empty.resolve c u).1 = .error (.recursive n path) := by
  rcases resolve_outcome c [] u with hres | ⟨e, hres, hfails | hrefused⟩
  · exact .inl hres
  · cases hfails with
    | @recursive n path cycle reached => exact .inr ⟨n, path, hres⟩
    | @member v d m e used held mem untyped =>
        obtain ⟨t, htype⟩ := h.typed v.name d m used.reaches held mem
        cases htype.symm.trans untyped
  · obtain ⟨v, w, hv, hw, -, hworth⟩ := hrefused
    -- nothing was asked before, so the answer is the one to the use itself
    rcases hw with rfl | ⟨call, hcall, -⟩
    · obtain ⟨d, hanswer, hkind⟩ := h.define_ok hv
      rw [hanswer, expectKind_eq_ok.mpr ⟨rfl, hkind⟩] at hworth
      cases hworth
    · cases hcall

/-- **Calls end and report recursion exactly.** Whatever was resolved before, a walk that is given
more rounds than there are definitions never gets to its bottom; the definitions of a resolution
have no cycle; and a type is refused as recursive with a cycle that the use leads to. If nothing
else can go wrong, a first call refuses a type as recursive exactly if it leads to a cycle, and
resolves it otherwise. -/
theorem resolve_recursion (c : Catalog) (calls : List Composite.Ref) (u : Composite.Ref) :
    (∀ bottom rounds, c.typeCount < rounds →
      (gatherStep^[rounds] bottom [] u .empty).run.run c (after c calls).lookups =
        (gather (c.typeCount + 1) [] u .empty).run.run c (after c calls).lookups) ∧
    (∀ res, ((after c calls).resolve c u).1 = .ok res → ∀ n, ¬ TransGen res.types.Refers n n) ∧
    (∀ n path, ((after c calls).resolve c u).1 = .error (.recursive n path) →
      c.IsCycle n path ∧ c.Reaches u.name n) ∧
    (c.Regular u →
      ((∃ n path, (empty.resolve c u).1 = .error (.recursive n path)) ↔
        ∃ n, c.Reaches u.name n ∧ TransGen c.Refers n n) ∧
      ((¬ ∃ n, c.Reaches u.name n ∧ TransGen c.Refers n n) →
        ∃ res, (empty.resolve c u).1 = .ok res)) := by
  refine ⟨?_, ?_, fun n path => isCycle_of_recursive calls, fun hregular => ⟨⟨?_, ?_⟩, ?_⟩⟩
  · intro bottom rounds hrounds
    rw [gather_eq_iterate]
    have hagree : Agree c (gatherStep^[rounds] bottom [] u .empty).run
        (gatherStep^[c.typeCount + 1] (gather 0) [] u .empty).run :=
      agree_iterate .nil (by simp) hrounds (Nat.lt_succ_self _) u .empty
    exact hagree.run_eq (remembers_after c calls).lookups
  · intro res hres n
    exact (complete_of_ok hres).grown.acyclic
  · rintro ⟨n, path, h⟩
    obtain ⟨hcycle, hreached⟩ := isCycle_of_recursive [] h
    exact ⟨n, hreached, hcycle.transGen⟩
  · rintro ⟨n, hreached, hcycle⟩
    rcases resolve_regular hregular with ⟨res, -, hcomplete⟩ | hrecursive
    · exact absurd hcomplete (hregular.not_complete hreached hcycle)
    · exact hrecursive
  · intro hacyclic
    rcases resolve_regular hregular with ⟨res, hres, -⟩ | ⟨n, path, h⟩
    · exact ⟨res, hres⟩
    · obtain ⟨hcycle, hreached⟩ := isCycle_of_recursive [] h
      exact absurd ⟨n, hreached, hcycle.transGen⟩ hacyclic

theorem resolve_recursion_sample :
    sampleCatalog.Regular ⟨.record, ⟨"APP", "PKG", "ORDER"⟩⟩ ∧
    (∃ res, (empty.resolve sampleCatalog ⟨.record, ⟨"APP", "PKG", "ORDER"⟩⟩).1 = .ok res) ∧
    sampleCatalog.Regular ⟨.cursor, ⟨"APP", "PKG", "NODE"⟩⟩ ∧
    (empty.resolve sampleCatalog ⟨.cursor, ⟨"APP", "PKG", "NODE"⟩⟩).1 =
      .error (.recursive ⟨"APP", "PKG", "NODE"⟩
        [⟨"APP", "PKG", "NODE"⟩, ⟨"APP", "PKG", "NODES"⟩, ⟨"APP", "PKG", "NODE"⟩]) ∧
    ∃ n, sampleCatalog.Reaches ⟨"APP", "PKG", "NODE"⟩ n ∧ TransGen sampleCatalog.Refers n n := by
  have hregular : ∀ u : Composite.Ref, (sampleCatalog.define u.kind.stored u.name).isOk →
      sampleCatalog.Regular u := by
    intro u hu
    exact Catalog.regular_of_answers (by decide +kernel) hu (by decide +kernel)
  have horder := hregular ⟨.record, ⟨"APP", "PKG", "ORDER"⟩⟩ rfl
  have hnode := hregular ⟨.cursor, ⟨"APP", "PKG", "NODE"⟩⟩ rfl
  have hrefused : (empty.resolve sampleCatalog ⟨.cursor, ⟨"APP", "PKG", "NODE"⟩⟩).1 =
      .error (.recursive ⟨"APP", "PKG", "NODE"⟩
        [⟨"APP", "PKG", "NODE"⟩, ⟨"APP", "PKG", "NODES"⟩, ⟨"APP", "PKG", "NODE"⟩]) := rfl
  obtain ⟨hexact, hresolved⟩ :=
    (resolve_recursion sampleCatalog [] ⟨.record, ⟨"APP", "PKG", "ORDER"⟩⟩).2.2.2 horder
  have hacyclic : ¬ ∃ n, sampleCatalog.Reaches ⟨"APP", "PKG", "ORDER"⟩ n ∧
      TransGen sampleCatalog.Refers n n := by
    intro hcycle
    obtain ⟨n, path, h⟩ := hexact.mpr hcycle
    have hok : (empty.resolve sampleCatalog ⟨.record, ⟨"APP", "PKG", "ORDER"⟩⟩).1.isOk := by
      decide +kernel
    rw [h] at hok
    cases hok
  have hcycle :=
    ((resolve_recursion sampleCatalog [] ⟨.cursor, ⟨"APP", "PKG", "NODE"⟩⟩).2.2.2 hnode).1.mp
      ⟨_, _, hrefused⟩
  exact ⟨horder, hresolved hacyclic, hnode, hrefused, hcycle⟩

end Resolver

end RoutineBridge
