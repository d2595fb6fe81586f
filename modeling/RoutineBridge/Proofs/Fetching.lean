import Mathlib.Data.Finset.Card
import RoutineBridge.Proofs.Answers
import RoutineBridge.Proofs.Resolution

/-!
# One look-up and one definition for every name

The questions of a sequence of calls are the definitions they ask for, with a mark on those that
memory cannot answer. Every name is marked once, and the counter is the number of names
(`Lookups.Logs`). What a memory was told in the end is a catalog of its own, with one entry for each
name (`Lookups.told`); every resolution that was returned on the way is one of this catalog, so two
of them never differ on a name (`resolve_fetches_once`).
-/

namespace RoutineBridge

/-! ## Questions -/

/-- A name whose definition is asked for, and whether the catalog has to be asked for it. -/
structure Question where
  name : TypeName
  fetched : Bool
deriving DecidableEq, Repr

/-- The names for which the catalog is asked. -/
def fetchedNames (qs : List Question) : List TypeName := (qs.filter (·.fetched)).map (·.name)

/-- The questions of a run, in order. -/
def Inquiry.questions {α : Type} (c : Catalog) : Inquiry α → Lookups → List Question
  | done _, _ => []
  | define kind name next, l =>
    let (answer, l') := l.define c kind name
    ⟨name, (l.definitions.get? name).isNone⟩ :: (next answer).questions c l'
  | source package next, l => (next (c.source package)).questions c l

namespace Resolver

/-- The questions of a call; one that was made before asks nothing. -/
def questions (c : Catalog) (u : Composite.Ref) (m : Resolver) : List Question :=
  match m.resolutions.get? u with
  | some _ => []
  | none => (resolution c.typeCount u).run.questions c m.lookups

/-- The questions of a sequence of calls, in order. -/
def history (c : Catalog) : List Composite.Ref → Resolver → List Question
  | [], _ => []
  | u :: us, m => m.questions c u ++ history c us (m.resolve c u).2

/-- One of the calls gave this resolution. -/
def Returned (c : Catalog) (calls : List Composite.Ref) (res : Resolution) : Prop :=
  ∃ before u rest, calls = before ++ u :: rest ∧ ((after c before).resolve c u).1 = .ok res

end Resolver

/-! ## Counting -/

namespace Lookups

variable {c : Catalog} {l : Lookups} {qs : List Question}

/-- What is remembered and counted is what the questions say. -/
structure Logs (l : Lookups) (qs : List Question) : Prop where
  known : ∀ n, (l.definitions.get? n).isSome ↔ n ∈ fetchedNames qs
  answered : ∀ q ∈ qs, q.name ∈ fetchedNames qs
  once : (fetchedNames qs).Nodup
  counted : l.fetches = (fetchedNames qs).length

theorem logs_empty : empty.Logs [] where
  known n := by simp [empty, OnceMap.empty, OnceMap.get?, SortedMap.empty, SortedMap.get?,
    fetchedNames]
  answered := by simp
  once := .nil
  counted := rfl

theorem Logs.define (h : l.Logs qs) (kind : Composite.Kind) (name : TypeName) :
    (l.define c kind name).2.Logs (qs ++ [⟨name, (l.definitions.get? name).isNone⟩]) := by
  unfold Lookups.define
  cases hget : l.definitions.get? name with
  | some answer =>
      -- memory answers, so nothing is fetched
      have hsame : fetchedNames (qs ++ [⟨name, false⟩]) = fetchedNames qs := by
        simp [fetchedNames]
      refine ⟨?_, ?_, ?_, ?_⟩
      · simpa [hsame] using h.known
      · intro q hq
        rw [Option.isNone_some, hsame]
        rcases List.mem_append.mp hq with hq | hq
        · exact h.answered q hq
        · rw [List.mem_singleton.mp hq]
          exact (h.known name).mp (by rw [hget]; rfl)
      · simpa [hsame] using h.once
      · simpa [hsame] using h.counted
  | none =>
      have hnew : fetchedNames (qs ++ [⟨name, true⟩]) = fetchedNames qs ++ [name] := by
        simp [fetchedNames]
      have hfresh : name ∉ fetchedNames qs := by
        rw [← h.known name, hget]
        simp
      refine ⟨?_, ?_, ?_, ?_⟩
      · intro n
        rw [Option.isNone_none, hnew, List.mem_append, List.mem_singleton, ← h.known n]
        by_cases hn : n = name
        · subst hn
          simp [OnceMap.get?_complete_self _ hget]
        · simp [OnceMap.get?_complete_of_ne _ _ hn, hn]
      · intro q hq
        rw [Option.isNone_none, hnew]
        rcases List.mem_append.mp hq with hq | hq
        · exact List.mem_append_left _ (h.answered q hq)
        · rw [List.mem_singleton.mp hq]
          exact List.mem_append_right _ (List.mem_singleton_self _)
      · rw [Option.isNone_none, hnew, ← List.concat_eq_append]
        exact h.once.concat hfresh
      · rw [Option.isNone_none, hnew, List.length_append, List.length_singleton, h.counted]

/-- The counter is the number of names. -/
theorem Logs.fetches_eq_card (h : l.Logs qs) : l.fetches = (qs.map (·.name)).toFinset.card := by
  have hnames : (qs.map (·.name)).toFinset = (fetchedNames qs).toFinset := by
    ext n
    rw [List.mem_toFinset, List.mem_toFinset]
    constructor
    · intro hn
      obtain ⟨q, hq, rfl⟩ := List.mem_map.mp hn
      exact h.answered q hq
    · intro hn
      obtain ⟨q, hq, rfl⟩ := List.mem_map.mp hn
      exact List.mem_map.mpr ⟨q, (List.mem_filter.mp hq).1, rfl⟩
  rw [hnames, List.toFinset_card_of_nodup h.once, h.counted]

end Lookups

theorem Inquiry.logs_run {α : Type} {c : Catalog} {l : Lookups} {qs : List Question}
    (i : Inquiry α) (h : l.Logs qs) : (i.run c l).2.Logs (qs ++ i.questions c l) := by
  induction i generalizing l qs with
  | done a => simpa [Inquiry.run, questions] using h
  | define kind name next ih =>
      rw [run_define, questions, List.append_cons]
      exact ih _ (h.define kind name)
  | source package next ih => exact ih _ h

/-! ## Calls -/

namespace Resolver

variable {c : Catalog} {m : Resolver} {u v : Composite.Ref} {calls before rest : List Composite.Ref}
  {answer : Except ResolveError Resolution} {T : Answers}

theorem logs_resolve {qs : List Question} (h : m.lookups.Logs qs) (u : Composite.Ref) :
    (m.resolve c u).2.lookups.Logs (qs ++ m.questions c u) := by
  cases hget : m.resolutions.get? u with
  | some answer => simpa [resolve, questions, hget] using h
  | none =>
      simp only [resolve, questions, hget]
      exact Inquiry.logs_run _ h

theorem logs_foldl_resolve {qs : List Question} (h : m.lookups.Logs qs)
    (calls : List Composite.Ref) :
    (calls.foldl (fun m call => (m.resolve c call).2) m).lookups.Logs
      (qs ++ history c calls m) := by
  induction calls generalizing m qs with
  | nil => simpa [history] using h
  | cons u us ih =>
      rw [history, ← List.append_assoc]
      exact ih (logs_resolve h u)

theorem logs_after (c : Catalog) (calls : List Composite.Ref) :
    (after c calls).lookups.Logs (history c calls empty) :=
  logs_foldl_resolve (m := empty) Lookups.logs_empty calls

theorem after_append (c : Catalog) (before rest : List Composite.Ref) :
    after c (before ++ rest) =
      rest.foldl (fun m call => (m.resolve c call).2) (after c before) :=
  List.foldl_append

theorem after_concat (c : Catalog) (before : List Composite.Ref) (u : Composite.Ref) :
    after c (before ++ [u]) = ((after c before).resolve c u).2 :=
  after_append c before [u]

/-- What a call gave is remembered. -/
theorem get?_resolve_self (c : Catalog) (m : Resolver) (u : Composite.Ref) :
    (m.resolve c u).2.resolutions.get? u = some (m.resolve c u).1 := by
  unfold resolve
  split
  · rename_i hget
    exact hget
  · rename_i hnone
    exact OnceMap.get?_complete_self _ hnone

theorem get?_resolve_of_ne (h : v ≠ u) :
    (m.resolve c u).2.resolutions.get? v = m.resolutions.get? v := by
  unfold resolve
  split
  · rfl
  · exact OnceMap.get?_complete_of_ne _ _ h

theorem get?_resolve_of_some (h : m.resolutions.get? v = some answer) :
    (m.resolve c u).2.resolutions.get? v = some answer := by
  by_cases hv : v = u
  · subst hv
    simp [resolve, h]
  · rw [get?_resolve_of_ne hv, h]

theorem get?_foldl_resolve_of_some (h : m.resolutions.get? v = some answer)
    (calls : List Composite.Ref) :
    (calls.foldl (fun m call => (m.resolve c call).2) m).resolutions.get? v = some answer := by
  induction calls generalizing m with
  | nil => exact h
  | cons u us ih => exact ih (get?_resolve_of_some h)

/-- What one of the calls gave is remembered after all of them. -/
theorem get?_after (c : Catalog) (before : List Composite.Ref) (u : Composite.Ref)
    (rest : List Composite.Ref) :
    (after c (before ++ u :: rest)).resolutions.get? u =
      some ((after c before).resolve c u).1 := by
  rw [after_append, List.foldl_cons]
  exact get?_foldl_resolve_of_some (get?_resolve_self c _ u) rest

theorem resolve_of_get? (h : m.resolutions.get? u = some answer) :
    m.resolve c u = (answer, m) ∧ m.questions c u = [] := by
  simp [resolve, questions, h]

/-! ## What was told -/

/-- What was remembered before a call is remembered after it. -/
theorem get?_lookups_resolve_of_some {n : TypeName} {d : Except ResolveError Definition}
    (h : m.lookups.definitions.get? n = some d) :
    (m.resolve c u).2.lookups.definitions.get? n = some d := by
  unfold resolve
  split
  · exact h
  · exact Inquiry.get?_run_of_some _ h

/-- Every answer is what a table says, if memory holds nothing else in the end. -/
theorem eq_answered_after (h : (after c calls).lookups.AgreesWith T)
    (hget : (after c calls).resolutions.get? u = some answer) :
    answer = (resolution c.typeCount u).run.answered c T := by
  induction calls using List.reverseRecOn generalizing u answer with
  | nil => cases hget
  | append_singleton before v ih =>
      rw [after_concat] at h hget
      have hbefore : (after c before).lookups.AgreesWith T := fun n d hn =>
        h n d (get?_lookups_resolve_of_some hn)
      by_cases hu : u = v
      · subst hu
        rw [get?_resolve_self] at hget
        obtain rfl := Option.some.inj hget
        cases hmade : (after c before).resolutions.get? u with
        | some made =>
            rw [(resolve_of_get? hmade).1]
            exact ih hbefore hmade
        | none =>
            simp only [resolve, hmade] at h ⊢
            exact Inquiry.run_eq_answered _ h
      · rw [get?_resolve_of_ne hu] at hget
        exact ih hbefore hget

end Resolver

namespace Lookups

variable {c : Catalog} {l : Lookups} {n : TypeName} {d e : Definition}

/-- What is remembered, as a table. -/
def answers (l : Lookups) : Answers := fun n => (l.definitions.get? n).getD (.error (.notFound n))

theorem agreesWith_answers (l : Lookups) : l.AgreesWith l.answers := by
  intro n answer h
  rw [answers, h]
  rfl

/-- What is remembered, as a catalog. -/
def told (l : Lookups) : Catalog where
  snapshot :=
    { Snapshot.empty with
      records := l.definitions.cells.filterMap fun
        | some (.ok (.record members)) => some members
        | _ => none
      collections := l.definitions.cells.filterMap fun
        | some (.ok (.collection row)) => some row
        | _ => none }

theorem get?_records_told {members : List MemberRow} :
    l.told.snapshot.records.get? n = some members ↔
      l.definitions.get? n = some (.ok (.record members)) := by
  simp only [told, SortedMap.get?_filterMap, OnceMap.get?]
  constructor
  · rintro ⟨cell, hcell, hmembers⟩
    rw [hcell]
    split at hmembers
    · rw [Option.some.inj hmembers]
      rfl
    · cases hmembers
  · intro h
    exact ⟨_, Option.join_eq_some_iff.mp h, rfl⟩

theorem get?_collections_told {row : CollectionRow} :
    l.told.snapshot.collections.get? n = some row ↔
      l.definitions.get? n = some (.ok (.collection row)) := by
  simp only [told, SortedMap.get?_filterMap, OnceMap.get?]
  constructor
  · rintro ⟨cell, hcell, hrow⟩
    rw [hcell]
    split at hrow
    · rw [Option.some.inj hrow]
      rfl
    · cases hrow
  · intro h
    exact ⟨_, Option.join_eq_some_iff.mp h, rfl⟩

theorem get?_of_holds_told (h : l.told.Holds n d) : l.definitions.get? n = some (.ok d) := by
  cases h with
  | record held _ => exact get?_records_told.mp held
  | collection held => exact get?_collections_told.mp held

/-- A name has one entry among what was told. -/
theorem holds_told_unique (hd : l.told.Holds n d) (he : l.told.Holds n e) : d = e := by
  have h := (get?_of_holds_told hd).symm.trans (get?_of_holds_told he)
  exact Except.ok.inj (Option.some.inj h)

variable (hl : ∀ n d, l.definitions.get? n = some (.ok d) → c.Holds n d)

include hl

theorem holds_told (h : l.answers n = .ok d) : l.told.Holds n d := by
  cases hget : l.definitions.get? n with
  | none =>
      rw [answers, hget] at h
      cases h
  | some answer =>
      rw [answers, hget] at h
      obtain rfl : answer = .ok d := h
      cases hl n d hget with
      | record _ known => exact .record (get?_records_told.mpr hget) known
      | collection _ => exact .collection (get?_collections_told.mpr hget)

/-- There is not more among what was told than in the catalog that told it. -/
theorem typeCount_told_le : l.told.typeCount ≤ c.typeCount := by
  have hnodup : (l.told.snapshot.records.keys ++ l.told.snapshot.collections.keys).Nodup := by
    refine List.nodup_append.mpr ⟨SortedMap.nodup_keys _, SortedMap.nodup_keys _, ?_⟩
    rintro n hrecord m hcollection rfl
    obtain ⟨members, hmembers⟩ := Option.isSome_iff_exists.mp
      (SortedMap.contains_iff_mem_keys.mpr hrecord)
    obtain ⟨row, hrow⟩ := Option.isSome_iff_exists.mp
      (SortedMap.contains_iff_mem_keys.mpr hcollection)
    have h := (get?_records_told.mp hmembers).symm.trans (get?_collections_told.mp hrow)
    cases h
  have hheld : ∀ n ∈ l.told.snapshot.records.keys ++ l.told.snapshot.collections.keys,
      ∃ d, c.Holds n d := by
    intro n hn
    rcases List.mem_append.mp hn with hn | hn
    · obtain ⟨members, hmembers⟩ := Option.isSome_iff_exists.mp
        (SortedMap.contains_iff_mem_keys.mpr hn)
      exact ⟨_, hl n _ (get?_records_told.mp hmembers)⟩
    · obtain ⟨row, hrow⟩ := Option.isSome_iff_exists.mp (SortedMap.contains_iff_mem_keys.mpr hn)
      exact ⟨_, hl n _ (get?_collections_told.mp hrow)⟩
  have hle := Catalog.length_le_typeCount hnodup hheld
  simpa [Catalog.typeCount, SortedMap.size, SortedMap.keys] using hle

end Lookups

/-! ## One definition for every name -/

/-- A member makes one attribute. -/
theorem typed_unique (n : TypeName) : Relator.RightUnique fun (m : MemberRow) (a : Attribute) =>
    a.name = m.name ∧ m.dataType n = .ok a.dataType := by
  rintro m ⟨name, type⟩ ⟨name', type'⟩ ⟨hname, htype⟩ ⟨hname', htype'⟩
  have hnames : name = name' := hname.trans hname'.symm
  have htypes : type = type' := Except.ok.inj (htype.symm.trans htype')
  rw [hnames, htypes]

/-- Where every name has one entry, it has one description. -/
theorem Catalog.Describes.unique {c : Catalog} {n : TypeName} {a b : Composite}
    (hunique : ∀ d e, c.Holds n d → c.Holds n e → d = e) (ha : c.Describes n a)
    (hb : c.Describes n b) : a = b := by
  cases ha with
  | @record members attributes held known typed =>
      cases hb with
      | @record members' attributes' held' known' typed' =>
          obtain rfl := Option.some.inj (held.symm.trans held')
          rw [List.right_unique_forall₂' (typed_unique n) typed typed']
      | collection held' =>
          cases hunique _ _ (.record held known) (.collection held')
  | @collection row element held typed =>
      cases hb with
      | record held' known' =>
          cases hunique _ _ (.collection held) (.record held' known')
      | @collection row' element' held' typed' =>
          obtain rfl := Option.some.inj (held.symm.trans held')
          obtain rfl := Except.ok.inj (typed.symm.trans typed')
          rfl

namespace Resolver

variable {c : Catalog} {calls : List Composite.Ref} {res res' : Resolution}

/-- What a resolver remembers as a definition is an entry of the catalog. -/
theorem holds_of_get?_after {n : TypeName} {d : Definition}
    (h : (after c calls).lookups.definitions.get? n = some (.ok d)) : c.Holds n d := by
  obtain ⟨u, -, -, hanswer⟩ := (remembers_after c calls).lookups n (Set.notMem_empty _) _ h
  exact (Catalog.define_ok hanswer.symm).1

/-- A resolution that was returned is one of what the catalog told in the end. -/
theorem Returned.complete_told (h : Returned c calls res) :
    ∃ u, Resolution.Complete (after c calls).lookups.told u res := by
  obtain ⟨before, u, rest, rfl, hres⟩ := h
  have hheld : ∀ n d, (after c (before ++ u :: rest)).lookups.definitions.get? n = some (.ok d) →
      c.Holds n d := fun n d => holds_of_get?_after
  have hanswer := eq_answered_after (Lookups.agreesWith_answers _) (get?_after c before u rest)
  rw [hres] at hanswer
  have hpromise := resolution_ensures (Lookups.typeCount_told_le hheld) u
  obtain ⟨-, hcomplete⟩ :=
    hpromise.answered (fun n d => Lookups.holds_told hheld) hanswer.symm
  exact ⟨u, hcomplete⟩

theorem Returned.proper (h : Returned c calls res) : res.types.Proper := by
  obtain ⟨u, hcomplete⟩ := h.complete_told
  exact hcomplete.grown.proper

theorem Returned.agree (h : Returned c calls res) (h' : Returned c calls res') {n : TypeName}
    {d d' : Composite} (hd : res.types.get? n = some d) (hd' : res'.types.get? n = some d') :
    d = d' := by
  obtain ⟨u, hcomplete⟩ := h.complete_told
  obtain ⟨u', hcomplete'⟩ := h'.complete_told
  exact (hcomplete.grown.describes hd).unique (fun _ _ => Lookups.holds_told_unique)
    (hcomplete'.grown.describes hd')

/-- **One look-up and one definition for every name.** Whatever is asked of a resolver: the catalog
is asked for no name twice, and the counter is the number of names that a definition was asked for;
a call that was made before gives what it gave then, asks nothing and changes nothing; and
resolutions that were returned have the same definition under every name they share, so they may
extend a table in any order. -/
theorem resolve_fetches_once (c : Catalog) (calls : List Composite.Ref) :
    (fetchedNames (history c calls empty)).Nodup ∧
    (after c calls).fetches = (fetchedNames (history c calls empty)).length ∧
    (after c calls).fetches = ((history c calls empty).map (·.name)).toFinset.card ∧
    (∀ before u rest, calls = before ++ u :: rest →
      (after c calls).resolve c u = (((after c before).resolve c u).1, after c calls) ∧
      (after c calls).questions c u = []) ∧
    (∀ res res', Returned c calls res → Returned c calls res' →
      ∀ n d d', res.types.get? n = some d → res'.types.get? n = some d' → d = d') ∧
    ∀ ress ress' : List Resolution, (∀ res ∈ ress, Returned c calls res) → ress.Perm ress' →
      ∀ t : TypeTable, ress.foldl (fun t res => t.extend res.types) t =
        ress'.foldl (fun t res => t.extend res.types) t := by
  have hlogs := logs_after c calls
  refine ⟨hlogs.once, hlogs.counted, hlogs.fetches_eq_card, ?_, ?_, ?_⟩
  · rintro before u rest rfl
    exact resolve_of_get? (get?_after c before u rest)
  · intro res res' h h' n d d'
    exact h.agree h'
  · intro ress ress' hreturned hperm t
    have htypes : ∀ u ∈ ress.map Resolution.types, ∃ res, Returned c calls res ∧ res.types = u := by
      intro u hu
      obtain ⟨res, hres, rfl⟩ := List.mem_map.mp hu
      exact ⟨res, hreturned res hres, rfl⟩
    have hfold : ∀ ress : List Resolution, ress.foldl (fun t res => t.extend res.types) t =
        (ress.map Resolution.types).foldl TypeTable.extend t := fun _ => List.foldl_map.symm
    rw [hfold, hfold]
    refine TypeTable.foldl_extend_perm ?_ ?_ (hperm.map _) t
    · intro u hu
      obtain ⟨res, hres, rfl⟩ := htypes u hu
      exact hres.proper
    · intro u hu v hv n d e hd he
      obtain ⟨res, hres, rfl⟩ := htypes u hu
      obtain ⟨res', hres', rfl⟩ := htypes v hv
      exact hres.agree hres' hd he

/-- Two calls that share names, one that fails, and the first one again. -/
def sampleCalls : List Composite.Ref :=
  [⟨.collection, ⟨"APP", "PKG", "LINES"⟩⟩, ⟨.cursor, ⟨"APP", "PKG", "ORDER"⟩⟩,
    ⟨.record, ⟨"APP", "PKG", "NODE"⟩⟩, ⟨.collection, ⟨"APP", "PKG", "LINES"⟩⟩]

theorem resolve_fetches_once_sample :
    (history sampleCatalog sampleCalls empty).map (fun q => (q.name.name, q.fetched)) =
      [("LINES", true), ("LINE", true), ("PERSON", true), ("ORDER", true), ("PERSON", false),
        ("LINES", false), ("LINE", false), ("NODE", true), ("NODES", true)] ∧
    (after sampleCatalog sampleCalls).fetches = 6 ∧
    (after sampleCatalog sampleCalls).resolve sampleCatalog ⟨.record, ⟨"APP", "PKG", "NODE"⟩⟩ =
      (((after sampleCatalog (sampleCalls.take 2)).resolve sampleCatalog
        ⟨.record, ⟨"APP", "PKG", "NODE"⟩⟩).1, after sampleCatalog sampleCalls) ∧
    ∃ lines order, Returned sampleCatalog sampleCalls lines ∧
      Returned sampleCatalog sampleCalls order ∧
      (∃ d, lines.types.get? ⟨"APP", "PKG", "PERSON"⟩ = some d ∧
        order.types.get? ⟨"APP", "PKG", "PERSON"⟩ = some d) ∧
      (TypeTable.empty.extend lines.types).extend order.types =
        (TypeTable.empty.extend order.types).extend lines.types := by
  obtain ⟨-, hcounted, -, hrepeated, hagree, hjoined⟩ :=
    resolve_fetches_once sampleCatalog sampleCalls
  have hasked : (history sampleCatalog sampleCalls empty).map (fun q => (q.name.name, q.fetched)) =
      [("LINES", true), ("LINE", true), ("PERSON", true), ("ORDER", true), ("PERSON", false),
        ("LINES", false), ("LINE", false), ("NODE", true), ("NODES", true)] := by decide +kernel
  have hnames : (fetchedNames (history sampleCatalog sampleCalls empty)).length = 6 := by
    decide +kernel
  obtain ⟨lines, hlines, d, hd⟩ : ∃ lines,
      ((after sampleCatalog []).resolve sampleCatalog ⟨.collection, ⟨"APP", "PKG", "LINES"⟩⟩).1 =
        .ok lines ∧ ∃ d, lines.types.get? ⟨"APP", "PKG", "PERSON"⟩ = some d := ⟨_, rfl, _, rfl⟩
  obtain ⟨order, horder, e, he⟩ : ∃ order,
      ((after sampleCatalog (sampleCalls.take 1)).resolve sampleCatalog
        ⟨.cursor, ⟨"APP", "PKG", "ORDER"⟩⟩).1 = .ok order ∧
      ∃ e, order.types.get? ⟨"APP", "PKG", "PERSON"⟩ = some e := ⟨_, rfl, _, rfl⟩
  have hlines : Returned sampleCatalog sampleCalls lines := ⟨[], _, _, rfl, hlines⟩
  have horder : Returned sampleCatalog sampleCalls order :=
    ⟨sampleCalls.take 1, _, _, rfl, horder⟩
  have hshared : d = e := hagree lines order hlines horder _ d e hd he
  have hboth : ∀ res ∈ [lines, order], Returned sampleCatalog sampleCalls res := by
    simp [hlines, horder]
  exact ⟨hasked, hcounted.trans hnames,
    (hrepeated (sampleCalls.take 2) _ _ rfl).1, lines, order, hlines, horder,
    ⟨d, hd, hshared ▸ he⟩, hjoined [lines, order] [order, lines] hboth (.swap _ _ []) .empty⟩

end Resolver

end RoutineBridge
