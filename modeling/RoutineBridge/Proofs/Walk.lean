import Mathlib.Data.List.Nodup
import RoutineBridge.Proofs.Growth
import RoutineBridge.Proofs.Inquiry

/-!
# What a walk gathers

The walk keeps to the promise `Gather.Meets`: below a chain of names it takes up what a use leads
to, each definition after what it refers to, and it asks for no name that is on the chain or has a
definition already. Each part of the walk keeps its share of the promise if the step for the
members keeps it one name further down the chain. At the bottom the chain would be longer than
there are definitions, so what stands there does not matter (`meets_iterate`, `agree_iterate`).
-/

namespace RoutineBridge

open Relation Inquiry

variable {c : Catalog} {root u : Composite.Ref} {chain : List TypeName} {d : Definition}
  {found : TypeTable} {seen : Set TypeName}

/-! ## Promises -/

/-- The errors of a walk that are not answers of the catalog. -/
inductive Catalog.Fails (c : Catalog) (root : Composite.Ref) : ResolveError → Prop
  | recursive {n : TypeName} {path : List TypeName} (cycle : c.IsCycle n path)
      (reached : c.Reaches root.name n) : Fails c root (.recursive n path)
  | member {u : Composite.Ref} {d : Definition} {m : MemberRow} {e : ResolveError}
      (used : c.LeadsTo root u) (held : c.Holds u.name d) (mem : m ∈ d.members)
      (untyped : m.dataType u.name = .error e) : Fails c root e

/-- The names under way are a path without repetition along entries of the catalog, up to a use that
the root leads to. -/
structure UnderWay (c : Catalog) (root : Composite.Ref) (chain : List TypeName)
    (u : Composite.Ref) : Prop where
  nodup : chain.Nodup
  held : ∀ n ∈ chain, ∃ d, c.Holds n d
  path : (chain ++ [u.name]).IsChain c.Refers
  used : c.LeadsTo root u

/-- The walk goes into an entry: its name is not under way yet. -/
structure Entered (c : Catalog) (root : Composite.Ref) (chain : List TypeName)
    (u : Composite.Ref) (d : Definition) : Prop extends UnderWay c root chain u where
  new : u.name ∉ chain
  entry : c.Holds u.name d
  kind : d.kind = u.kind.stored

/-- Names under way have no definition yet, and what was asked for is under way or has one. -/
structure Standing (chain : List TypeName) (found : TypeTable) (seen : Set TypeName) : Prop where
  apart : ∀ n ∈ chain, found.contains n = false
  asked : ∀ n ∈ seen, n ∈ chain ∨ found.contains n

/-- A definition is of the kind that one of its uses asks for, a use that the root leads to: one in
`targets`, or one by a definition of the table. -/
def TypeTable.Agreed (t : TypeTable) (c : Catalog) (root : Composite.Ref)
    (targets : List Composite.Ref) (n : TypeName) (d : Composite) : Prop :=
  ∃ v : Composite.Ref, c.LeadsTo root v ∧ v.name = n ∧ v.kind.stored = d.kind ∧
    (v ∈ targets ∨ ∃ m e, t.get? m = some e ∧ v ∈ e.references)

/-- What the uses in `targets` lead to was put behind `found`, and nothing else. -/
structure TakenUp (c : Catalog) (root : Composite.Ref) (chain : List TypeName)
    (targets : List Composite.Ref) (found found' : TypeTable) (seen' : Set TypeName) : Prop where
  grows : found.Grows c found'
  contained : ∀ r ∈ targets, found'.contains r.name
  reached : ∀ n, found'.contains n → found.contains n ∨ ∃ r ∈ targets, found'.Reaches r.name n
  agreed : ∀ n d, found'.get? n = some d → found.get? n = some d ∨ found'.Agreed c root targets n d
  standing : Standing chain found' seen'

theorem TypeTable.Agreed.mono {t t' : TypeTable} {targets targets' : List Composite.Ref}
    {n : TypeName} {e : Composite} (h : t.Agreed c root targets n e)
    (ht : ∀ m b, t.get? m = some b → t'.get? m = some b) (htargets : targets ⊆ targets') :
    t'.Agreed c root targets' n e := by
  obtain ⟨v, hused, hname, hkind, hv | ⟨m, b, hget, hv⟩⟩ := h
  · exact ⟨v, hused, hname, hkind, .inl (htargets hv)⟩
  · exact ⟨v, hused, hname, hkind, .inr ⟨m, b, ht m b hget, hv⟩⟩

/-- What is promised of a step below a chain of names. The definition it was asked for is of the
right kind unless it was there before. -/
def Gather.Meets (c : Catalog) (root : Composite.Ref) (chain : List TypeName) (g : Gather) : Prop :=
  ∀ u found seen, UnderWay c root chain u → Standing chain found seen →
    Ensures c (c.LeadsTo root) (c.Fails root)
      (fun seen' found' => TakenUp c root chain [u] found found' seen' ∧
        (found.contains u.name = false →
          ∃ d, found'.get? u.name = some d ∧ d.kind = u.kind.stored))
      seen (g u found).run

theorem Standing.enter (h : Standing chain found seen) {n : TypeName}
    (hfresh : found.contains n = false) : Standing (chain ++ [n]) found (insert n seen) where
  apart a ha := by
    rcases List.mem_append.mp ha with ha | ha
    · exact h.apart a ha
    · rw [List.mem_singleton.mp ha]
      exact hfresh
  asked a ha := by
    rcases Set.mem_insert_iff.mp ha with rfl | ha
    · exact .inl (List.mem_append_right _ (List.mem_singleton_self a))
    · exact (h.asked a ha).imp_left (List.mem_append_left _)

theorem TakenUp.nil (h : Standing chain found seen) :
    TakenUp c root chain [] found found seen where
  grows := .refl
  contained := by simp
  reached _ hn := .inl hn
  agreed _ _ hget := .inl hget
  standing := h

theorem TakenUp.append {first second : List Composite.Ref} {found₁ found₂ : TypeTable}
    {seen₁ seen₂ : Set TypeName} (h₁ : TakenUp c root chain first found found₁ seen₁)
    (h₂ : TakenUp c root chain second found₁ found₂ seen₂) :
    TakenUp c root chain (first ++ second) found found₂ seen₂ where
  grows := h₁.grows.trans h₂.grows
  contained r hr := by
    rcases List.mem_append.mp hr with hr | hr
    · exact h₂.grows.contains (h₁.contained r hr)
    · exact h₂.contained r hr
  reached n hn := by
    rcases h₂.reached n hn with hn | ⟨r, hr, hreach⟩
    · rcases h₁.reached n hn with hn | ⟨r, hr, hreach⟩
      · exact .inl hn
      · exact .inr ⟨r, List.mem_append_left _ hr, h₂.grows.reaches hreach⟩
    · exact .inr ⟨r, List.mem_append_right _ hr, hreach⟩
  agreed n d hget := by
    rcases h₂.agreed n d hget with hget | hagreed
    · exact (h₁.agreed n d hget).imp_right
        (·.mono (fun _ _ => h₂.grows.get?) (List.subset_append_left _ _))
    · exact .inr (hagreed.mono (fun _ _ h => h) (List.subset_append_right _ _))
  standing := h₂.standing

theorem TakenUp.get?_insert {comp : Composite} {targets : List Composite.Ref}
    {found' : TypeTable} {seen' : Set TypeName}
    (h : TakenUp c root (chain ++ [u.name]) targets found found' seen')
    (described : c.Describes u.name comp) : (found'.insert comp).get? u.name = some comp := by
  have hfresh : found'.contains comp.name = false := by
    rw [described.name_eq]
    exact h.standing.apart _ (by simp)
  have hget := TypeTable.get?_insert_self described.kind_ne_cursor hfresh
  rwa [described.name_eq] at hget

/-- A definition is taken up after everything it refers to. -/
theorem TakenUp.insert {comp : Composite} {found' : TypeTable} {seen' : Set TypeName}
    (h : TakenUp c root (chain ++ [u.name]) comp.references found found' seen')
    (hnew : u.name ∉ chain) (hused : c.LeadsTo root u) (described : c.Describes u.name comp)
    (hkind : comp.kind = u.kind.stored) :
    TakenUp c root chain [u] found (found'.insert comp) seen' := by
  have hfresh : found'.contains u.name = false := h.standing.apart _ (by simp)
  have hgrows : found'.Grows c (found'.insert comp) := .insert .refl described hfresh h.contained
  have hself : (found'.insert comp).get? u.name = some comp := h.get?_insert described
  have hother : ∀ n, n ≠ u.name → (found'.insert comp).contains n = found'.contains n :=
    fun n hn => TypeTable.contains_insert_of_ne found' (described.name_eq.symm ▸ hn)
  refine ⟨.insert h.grows described hfresh h.contained, ?_, ?_, ?_, ?_, ?_⟩
  · intro r hr
    rw [List.mem_singleton.mp hr]
    exact TypeTable.contains_of_get? hself
  · intro n hn
    by_cases hname : n = u.name
    · exact .inr ⟨u, List.mem_singleton_self u, hname ▸ .refl⟩
    · rw [hother n hname] at hn
      rcases h.reached n hn with hn | ⟨r, hr, hreach⟩
      · exact .inl hn
      · -- what the references lead to is one step further from the new definition
        exact .inr ⟨u, List.mem_singleton_self u,
          .head ⟨comp, hself, r, hr, rfl⟩ (hgrows.reaches hreach)⟩
  · intro n d hget
    rcases TypeTable.Grows.get?_insert_cases described hfresh hget with ⟨rfl, rfl⟩ | ⟨-, hget⟩
    · exact .inr ⟨u, hused, rfl, hkind.symm, .inl (List.mem_singleton_self u)⟩
    · rcases h.agreed n d hget with hget | ⟨v, hv, hname, hvkind, hmem | ⟨m, e, hm, hmem⟩⟩
      · exact .inl hget
      · -- the uses that were targets below are references of the new definition
        exact .inr ⟨v, hv, hname, hvkind, .inr ⟨u.name, comp, hself, hmem⟩⟩
      · exact .inr ⟨v, hv, hname, hvkind, .inr ⟨m, e, hgrows.get? hm, hmem⟩⟩
  · intro n hn
    rw [hother n fun h => hnew (h ▸ hn)]
    exact h.standing.apart n (List.mem_append_left _ hn)
  · intro n hn
    rcases h.standing.asked n hn with hchain | hcontains
    · rcases List.mem_append.mp hchain with hchain | hname
      · exact .inl hchain
      · rw [List.mem_singleton.mp hname]
        exact .inr (TypeTable.contains_of_get? hself)
    · exact .inr (hgrows.contains hcontains)

/-! ## The parts of a walk -/

/-- The step into a member is below the chain with the name of the entry. -/
theorem Entered.underWay (h : Entered c root chain u d) {m : MemberRow} {r : Composite.Ref}
    (hm : m ∈ d.members) (htype : m.dataType u.name = .ok (.composite r)) :
    UnderWay c root (chain ++ [u.name]) r where
  nodup := by
    rw [← List.concat_eq_append]
    exact List.Nodup.concat h.new h.nodup
  held n hn := by
    rcases List.mem_append.mp hn with hn | hn
    · exact h.held n hn
    · rw [List.mem_singleton.mp hn]
      exact ⟨d, h.entry⟩
  path := by
    rw [List.append_assoc, List.singleton_append, List.isChain_split]
    exact ⟨h.path, List.isChain_pair.mpr ⟨d, h.entry, m, hm, r, htype, rfl⟩⟩
  used := h.used.tail ⟨d, h.entry, h.kind, m, hm, htype⟩

variable {g : Gather}

theorem gatherMember_ensures (hg : g.Meets c root (chain ++ [u.name]))
    (h : Entered c root chain u d) {m : MemberRow} (hm : m ∈ d.members)
    (hs : Standing (chain ++ [u.name]) found seen) :
    Ensures c (c.LeadsTo root) (c.Fails root)
      (fun seen' p => m.dataType u.name = .ok p.1 ∧
        TakenUp c root (chain ++ [u.name]) p.1.ref?.toList found p.2 seen')
      seen (gatherMember g u.name m found).run := by
  rw [gatherMember]
  cases htype : m.dataType u.name with
  | error e => exact .error (.member h.used h.entry hm htype)
  | ok t =>
      cases t with
      | scalar s => exact .ok ⟨rfl, .nil hs⟩
      | composite r =>
          show Ensures _ _ _ _ _ (g r found >>= fun found => pure (DataType.composite r, found)).run
          refine Ensures.bind (hg r found seen (h.underWay hm htype) hs) ?_
          intro seen' found' hfound
          exact .ok ⟨rfl, hfound.1⟩

theorem gatherAttributes_ensures (hg : g.Meets c root (chain ++ [u.name]))
    (h : Entered c root chain u d) {ms : List MemberRow} (hms : ms ⊆ d.members)
    (hs : Standing (chain ++ [u.name]) found seen) :
    Ensures c (c.LeadsTo root) (c.Fails root)
      (fun seen' p =>
        List.Forall₂ (fun m a => a.name = m.name ∧ m.dataType u.name = .ok a.dataType) ms p.1 ∧
        TakenUp c root (chain ++ [u.name]) (p.1.filterMap (·.dataType.ref?)) found p.2 seen')
      seen (gatherAttributes g u.name ms found).run := by
  induction ms generalizing found seen with
  | nil => exact .ok ⟨.nil, .nil hs⟩
  | cons m ms ih =>
      obtain ⟨hm, hms⟩ := List.cons_subset.mp hms
      rw [gatherAttributes]
      refine Ensures.bind (gatherMember_ensures hg h hm hs) ?_
      rintro seen₁ ⟨t, found₁⟩ ⟨htype, hfound₁⟩
      refine Ensures.bind (ih hms hfound₁.standing) ?_
      rintro seen₂ ⟨attributes, found₂⟩ ⟨htyped, hfound₂⟩
      have hreferences : (⟨m.name, t⟩ :: attributes).filterMap (·.dataType.ref?) =
          t.ref?.toList ++ attributes.filterMap (·.dataType.ref?) := by
        cases t <;> rfl
      exact .ok ⟨.cons ⟨rfl, htype⟩ htyped, hreferences ▸ hfound₁.append hfound₂⟩

/-- The definition that comes out is the one the catalog describes. -/
theorem gatherDefinition_ensures (hg : g.Meets c root (chain ++ [u.name]))
    (h : Entered c root chain u d) (hs : Standing (chain ++ [u.name]) found seen) :
    Ensures c (c.LeadsTo root) (c.Fails root)
      (fun seen' p => c.Describes u.name p.1 ∧ p.1.kind = u.kind.stored ∧
        TakenUp c root (chain ++ [u.name]) p.1.references found p.2 seen')
      seen (gatherDefinition g u.name d found).run := by
  have hkind := h.kind
  have hentry := h.entry
  cases d with
  | record members =>
      rw [gatherDefinition]
      refine Ensures.bind (gatherAttributes_ensures hg h (List.Subset.refl _) hs) ?_
      rintro seen' ⟨attributes, found'⟩ ⟨htyped, hfound⟩
      cases hentry with
      | record held known => exact .ok ⟨.record held known htyped, hkind, hfound⟩
  | collection row =>
      rw [gatherDefinition]
      refine Ensures.bind (gatherMember_ensures hg h (List.mem_singleton_self _) hs) ?_
      rintro seen' ⟨element, found'⟩ ⟨htyped, hfound⟩
      cases hentry with
      | collection held => exact .ok ⟨.collection held htyped, hkind, hfound⟩

/-- A round of the walk keeps the promise if the next round keeps it one name down the chain. -/
theorem gatherStep_meets {next : List TypeName → Gather}
    (hnext : ∀ u d, Entered c root chain u d → (next (chain ++ [u.name])).Meets c root
      (chain ++ [u.name])) : (gatherStep next chain).Meets c root chain := by
  intro u found seen h hs
  simp only [gatherStep]
  split
  · -- the name is under way: the rest of the chain closes a cycle
    rename_i hchain
    have hchain : u.name ∈ chain := by simpa using hchain
    exact .error (.recursive (Catalog.isCycle_of_revisit h.nodup h.path hchain) h.used.reaches)
  · rename_i hnew
    have hnew : u.name ∉ chain := by simpa using hnew
    split
    · -- the name has a definition: nothing is left to do
      rename_i hfound
      refine .ok ⟨⟨.refl, ?_, fun n hn => .inl hn, fun n d hget => .inl hget, hs⟩, ?_⟩
      · intro r hr
        rw [List.mem_singleton.mp hr]
        exact hfound
      · intro hfresh
        rw [hfound] at hfresh
        cases hfresh
    · -- the name is new: it goes to the end of the chain while its members are gathered
      rename_i hfresh
      have hfresh : found.contains u.name = false := by simpa using hfresh
      have hunseen : u.name ∉ seen := by
        intro hmem
        rcases hs.asked _ hmem with hmem | hmem
        · exact hnew hmem
        · rw [hfresh] at hmem
          cases hmem
      refine Ensures.bind (Ensures.askDefinition hunseen h.used) ?_
      rintro seen₁ d ⟨rfl, hheld, hkind⟩
      have hentered : Entered c root chain u d :=
        { toUnderWay := h, new := hnew, entry := hheld, kind := hkind }
      refine Ensures.bind
        (gatherDefinition_ensures (hnext u d hentered) hentered (hs.enter hfresh)) ?_
      rintro seen₂ ⟨comp, found'⟩ ⟨hdescribed, hkind, hfound⟩
      exact .ok ⟨hfound.insert hnew h.used hdescribed hkind,
        fun _ => ⟨comp, hfound.get?_insert hdescribed, hkind⟩⟩

/-! ## The whole walk -/

variable {bottom bottom' : List TypeName → Gather}

/-- **The walk keeps its promise.** Whatever stands at the bottom, if the rounds above it are more
than the definitions that are not under way. -/
theorem meets_iterate {rounds : Nat} (hrounds : c.typeCount < rounds + chain.length) :
    (gatherStep^[rounds] bottom chain).Meets c root chain := by
  induction rounds generalizing chain with
  | zero =>
      -- the chain would be longer than there are definitions
      intro u found seen h
      have := Catalog.length_le_typeCount h.nodup h.held
      omega
  | succ rounds ih =>
      rw [Function.iterate_succ_apply']
      refine gatherStep_meets fun u d _ => ih ?_
      rw [List.length_append, List.length_singleton]
      omega

/-- What the resolution of a use is: a table grown from nothing, in which the use leads to
everything, with the definition of the use as its root, or a cursor over a record. -/
structure Resolution.Complete (c : Catalog) (u : Composite.Ref) (res : Resolution) : Prop where
  grown : TypeTable.Grows c .empty res.types
  reached : ∀ n, res.types.contains n → res.types.Reaches u.name n
  agreed : ∀ n d, res.types.get? n = some d → res.types.Agreed c u [u] n d
  root : (u.kind ≠ .cursor ∧ res.types.get? u.name = some res.root ∧ res.root.kind = u.kind) ∨
    (u.kind = .cursor ∧ res.root = .cursor u.name ∧
      ∃ attributes, res.types.get? u.name = some (.record u.name attributes))

theorem gather_eq_iterate (rounds : Nat) : gather rounds = gatherStep^[rounds] (gather 0) := by
  induction rounds with
  | zero => rfl
  | succ rounds ih => rw [Function.iterate_succ_apply', ← ih, gather]

theorem resolution_ensures {rounds : Nat} (hrounds : c.typeCount ≤ rounds) (u : Composite.Ref) :
    Ensures c (c.LeadsTo u) (c.Fails u) (fun _ => Resolution.Complete c u) ∅
      (resolution rounds u).run := by
  rw [resolution, gather_eq_iterate]
  have hstart : UnderWay c u [] u := ⟨.nil, by simp, .singleton _, .refl⟩
  have hmeets : (gatherStep^[rounds + 1] (gather 0) []).Meets c u [] :=
    meets_iterate (Nat.lt_succ_of_le hrounds)
  refine Ensures.bind (hmeets u .empty ∅ hstart ⟨by simp, by simp⟩) ?_
  rintro seen types ⟨htypes, hroot⟩
  obtain ⟨d, hget, hkind⟩ := hroot rfl
  -- the walk starts with an empty table, so it reached everything that is there now
  have hreached : ∀ n, types.contains n → types.Reaches u.name n := by
    intro n hn
    rcases htypes.reached n hn with hn | ⟨r, hr, hreach⟩
    · cases hn
    · rwa [List.mem_singleton.mp hr] at hreach
  have hagreed : ∀ n d, types.get? n = some d → types.Agreed c u [u] n d := by
    intro n d hget
    exact (htypes.agreed n d hget).resolve_left nofun
  obtain ⟨kind, name⟩ := u
  cases kind with
  | cursor =>
      have hdescribed := htypes.grows.describes hget
      cases hdescribed with
      | @record members attributes =>
          exact .ok ⟨htypes.grows, hreached, hagreed, .inr ⟨rfl, rfl, attributes, hget⟩⟩
      | collection => cases hkind
  | record =>
      simp only [hget]
      exact .ok ⟨htypes.grows, hreached, hagreed, .inl ⟨nofun, hget, hkind⟩⟩
  | collection =>
      simp only [hget]
      exact .ok ⟨htypes.grows, hreached, hagreed, .inl ⟨nofun, hget, hkind⟩⟩

/-! ## Fuel does not matter -/

section Agreement

variable {g g' : Gather}

theorem agree_gatherMember (h : ∀ r found, Agree c (g r found).run (g' r found).run)
    (parent : TypeName) (m : MemberRow) (found : TypeTable) :
    Agree c (gatherMember g parent m found).run (gatherMember g' parent m found).run := by
  rw [gatherMember, gatherMember]
  refine Agree.bind (.done _) fun t => ?_
  cases t with
  | scalar s => exact .done _
  | composite r => exact Agree.bind (h r found) fun _ => .done _

theorem agree_gatherAttributes (h : ∀ r found, Agree c (g r found).run (g' r found).run)
    (parent : TypeName) (ms : List MemberRow) (found : TypeTable) :
    Agree c (gatherAttributes g parent ms found).run (gatherAttributes g' parent ms found).run := by
  induction ms generalizing found with
  | nil => exact .done _
  | cons m ms ih =>
      rw [gatherAttributes, gatherAttributes]
      refine Agree.bind (agree_gatherMember h parent m found) fun p => ?_
      exact Agree.bind (ih p.2) fun _ => .done _

theorem agree_gatherDefinition (h : ∀ r found, Agree c (g r found).run (g' r found).run)
    (name : TypeName) (d : Definition) (found : TypeTable) :
    Agree c (gatherDefinition g name d found).run (gatherDefinition g' name d found).run := by
  cases d with
  | record members =>
      exact Agree.bind (agree_gatherAttributes h name members found) fun _ => .done _
  | collection row =>
      exact Agree.bind (agree_gatherMember h name row.element found) fun _ => .done _

theorem agree_gatherStep {next next' : List TypeName → Gather}
    (h : ∀ n ∉ chain, (∃ d, c.Holds n d) → ∀ r found,
      Agree c (next (chain ++ [n]) r found).run (next' (chain ++ [n]) r found).run)
    (r : Composite.Ref) (found : TypeTable) :
    Agree c (gatherStep next chain r found).run (gatherStep next' chain r found).run := by
  simp only [gatherStep]
  split
  · exact .done _
  · rename_i hnew
    have hnew : r.name ∉ chain := by simpa using hnew
    split
    · exact .done _
    · refine Agree.askDefinition_bind fun d hheld => ?_
      exact Agree.bind (agree_gatherDefinition (h r.name hnew ⟨d, hheld⟩) r.name d found)
        fun _ => .done _

end Agreement

/-- Walks below a chain are the same if they have more rounds than there are definitions that are
not under way. -/
theorem agree_iterate {rounds rounds' : Nat} (hnodup : chain.Nodup)
    (hheld : ∀ n ∈ chain, ∃ d, c.Holds n d) (hrounds : c.typeCount < rounds + chain.length)
    (hrounds' : c.typeCount < rounds' + chain.length) (r : Composite.Ref) (found : TypeTable) :
    Agree c (gatherStep^[rounds] bottom chain r found).run
      (gatherStep^[rounds'] bottom' chain r found).run := by
  induction rounds generalizing chain rounds' r found with
  | zero =>
      have := Catalog.length_le_typeCount hnodup hheld
      omega
  | succ rounds ih =>
      obtain ⟨rounds', rfl⟩ : ∃ n, rounds' = n + 1 := by
        have := Catalog.length_le_typeCount hnodup hheld
        exact ⟨rounds' - 1, by omega⟩
      rw [Function.iterate_succ_apply', Function.iterate_succ_apply']
      refine agree_gatherStep (fun n hnew hn => ih ?_ ?_ ?_ ?_) r found
      · rw [← List.concat_eq_append]
        exact List.Nodup.concat hnew hnodup
      · intro a ha
        rcases List.mem_append.mp ha with ha | ha
        · exact hheld a ha
        · rw [List.mem_singleton.mp ha]
          exact hn
      · rw [List.length_append, List.length_singleton]
        omega
      · rw [List.length_append, List.length_singleton]
        omega

end RoutineBridge
