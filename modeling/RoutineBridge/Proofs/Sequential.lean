import RoutineBridge.Assembly.Gathering
import RoutineBridge.Proofs.Fetching
import RoutineBridge.Proofs.RowListing
import RoutineBridge.Proofs.Scheduling

/-!
# The order of jobs does not matter

If every name is used with one kind, the catalog answers all jobs of a run like one table: it says
under a name what it says to the first use of this name. So the jobs come to the same whatever turns
they take, and everything is joined by key in the end. The plain run, which does one job after the
other, and the schedule are two of the orders (`order_irrelevant`).
-/

namespace RoutineBridge

open Relation Interleaving

/-! ## The table -/

/-- The composite type that is used, if it is one and has a reference. -/
def TypeSpec.use? (t : TypeSpec) : Option Composite.Ref :=
  t.compositeKind?.bind fun kind => t.typeRef.map (⟨kind, ·⟩)

theorem TypeSpec.use?_of_classify {t : TypeSpec} {context : String} {kind : Composite.Kind}
    {name : TypeName} (h : t.classify context = .ok (.composite kind (some name))) :
    t.use? = some ⟨kind, name⟩ := by
  unfold classify at h
  split at h
  · rename_i hkind
    obtain ⟨rfl, hname⟩ := Classified.composite.inj (Except.ok.inj h)
    simp [use?, hkind, hname]
  · split at h
    · cases h
    · split at h <;> cases h

namespace Catalog

variable {c : Catalog} {us : List Composite.Ref} {u : Composite.Ref}

/-- What the catalog says under a name to the first of the uses that has this name. -/
def answersTo (c : Catalog) (us : List Composite.Ref) : Answers := fun n =>
  match us.find? (·.name == n) with
  | some u => c.define u.kind.stored n
  | none => .error (.notFound n)

/-- It says the same to every use. -/
theorem define_eq_answersTo
    (hkinds : ∀ u ∈ us, ∀ v ∈ us, u.name = v.name → u.kind.stored = v.kind.stored) (hu : u ∈ us) :
    c.define u.kind.stored u.name = c.answersTo us u.name := by
  unfold answersTo
  split
  · rename_i v hfind
    have hname : v.name = u.name := by simpa using List.find?_some hfind
    rw [hkinds u hu v (List.mem_of_find?_eq_some hfind) hname.symm]
  · rename_i hnone
    have hne := List.find?_eq_none.mp hnone u hu
    simp at hne

end Catalog

/-! ## Jobs -/

/-- The job that has come to a finding. -/
def Finding.job : Finding → Job
  | docs package _ => .docs package
  | resolution r _ => .resolution r

namespace Job

variable {c : Catalog} {T : Answers} {markers : List String} {job : Job}

/-- What a job comes to when the table answers. -/
def finding (c : Catalog) (T : Answers) (markers : List String) : Job → Finding
  | docs package => .docs package (readDocs markers package (c.source package))
  | resolution r => .resolution r ((RoutineBridge.resolution c.typeCount r).run.answered c T)

/-- The table says what the catalog would say to everything that the job leads to. -/
def Told (c : Catalog) (T : Answers) : Job → Prop
  | docs _ => True
  | resolution r => ∀ u, c.LeadsTo r u → c.define u.kind.stored u.name = T u.name

theorem job_finding (job : Job) : (job.finding c T markers).job = job := by
  cases job <;> rfl

theorem answered_inquiry (job : Job) :
    (job.inquiry c.typeCount markers).answered c T = job.finding c T markers := by
  cases job with
  | docs package => rfl
  | resolution r => exact Inquiry.answered_bind _ _

theorem fits_inquiry (h : job.Told c T) : (job.inquiry c.typeCount markers).Fits c T := by
  cases job with
  | docs package => trivial
  | resolution r => exact Inquiry.fits_bind ((resolution_ensures le_rfl r).fits h) trivial

/-- A job asks for the source of its package, or for each name that a use may lead to. -/
theorem length_inquiry_le (h : job.Told c T) :
    (job.inquiry c.typeCount markers).length c T ≤ c.memberCount + 1 := by
  cases job with
  | docs package => exact Nat.le_add_left 1 _
  | resolution r =>
      obtain ⟨hnodup, hnames, hlength⟩ := (resolution_ensures le_rfl r).asked_nodup h
      -- different names, each of them of the use itself or of one by a member
      have hsub : (RoutineBridge.resolution c.typeCount r).run.asked c T ⊆
          (r :: c.uses).map (·.name) := by
        intro n hn
        obtain ⟨-, u, hu, rfl⟩ := hnames n hn
        exact List.mem_map_of_mem hu.mem_uses
      have hle := (hnodup.subperm hsub).length_le
      rw [List.length_map, List.length_cons] at hle
      have huses := c.length_uses_le
      rw [inquiry, Inquiry.length_bind, hlength]
      exact hle.trans (Nat.add_le_add_right huses 1)

end Job

namespace Gathering

variable {q : Request} {signatures : List Signature} {jobs : List Job}

theorem mem_distinct {α : Type} [BEq α] [LawfulBEq α] {seen l : List α} {a : α} :
    a ∈ distinct seen l ↔ a ∈ l ∧ a ∉ seen := by
  induction l generalizing seen with
  | nil => simp [distinct]
  | cons b l ih =>
      rw [distinct]
      split
      · rename_i hb
        have hb : b ∈ seen := by simpa using hb
        rw [ih, List.mem_cons]
        have hne : a ∉ seen → a ≠ b := fun ha hab => ha (hab ▸ hb)
        tauto
      · rename_i hb
        have hb : b ∉ seen := by simpa using hb
        rw [List.mem_cons, ih, List.mem_cons, List.mem_cons]
        by_cases hab : a = b
        · simp [hab, hb]
        · simp [hab]

theorem nodup_distinct {α : Type} [BEq α] [LawfulBEq α] (seen l : List α) :
    (distinct seen l).Nodup := by
  induction l generalizing seen with
  | nil => exact .nil
  | cons a l ih =>
      rw [distinct]
      split
      · exact ih seen
      · refine List.nodup_cons.mpr ⟨fun hmem => ?_, ih _⟩
        exact (mem_distinct.mp hmem).2 List.mem_cons_self

theorem resolution_mem_jobsOfRow {r : ArgumentRow} {u : Composite.Ref} :
    .resolution u ∈ jobsOfRow r ↔ r.spec.use? = some u := by
  unfold jobsOfRow TypeSpec.use?
  cases r.spec.compositeKind? with
  | none => simp
  | some kind =>
      cases r.spec.typeRef with
      | none => simp
      | some name => simp [eq_comm]

theorem resolution_mem_jobsOfRows {rows : List ArgumentRow} {u : Composite.Ref} :
    .resolution u ∈ jobsOfRows rows ↔ ∃ r ∈ rows, r.spec.use? = some u := by
  simp only [jobsOfRows, mem_distinct, List.mem_flatMap, resolution_mem_jobsOfRow,
    List.not_mem_nil, not_false_eq_true, and_true]

theorem prepare_eq_ok_iff : prepare q = .ok (signatures, jobs) ↔
    q.catalog.outages.arguments = false ∧
      Grouping.signatures q.keep q.catalog.snapshot.arguments = .ok signatures ∧
      jobs = jobsOfRows (q.catalog.snapshot.arguments.filter (Grouping.accepts q.keep)) := by
  unfold prepare Catalog.argumentRows
  cases q.catalog.outages.arguments with
  | true => simp
  | false =>
      cases hgroup : Grouping.signatures q.keep q.catalog.snapshot.arguments with
      | error e => simp [hgroup]
      | ok ss => simp [hgroup, eq_comm]

theorem nodup_of_prepare (h : prepare q = .ok (signatures, jobs)) : jobs.Nodup := by
  obtain ⟨-, -, rfl⟩ := prepare_eq_ok_iff.mp h
  exact nodup_distinct _ _

/-! ## One job after the other -/

/-- Does a job at once. -/
def perform (q : Request) (m : Resolver) : Job → Finding × Resolver
  | .docs package =>
    (.docs package (Job.readDocs q.options.markers package (q.catalog.source package)), m)
  | .resolution r =>
    let (answer, m) := m.resolve q.catalog r
    (.resolution r answer, m)

/-- Does one job after the other. -/
def performAll (q : Request) : List Job → Resolver → List Finding × Resolver
  | [], m => ([], m)
  | job :: jobs, m =>
    let (finding, m) := perform q m job
    let (findings, m) := performAll q jobs m
    (finding :: findings, m)

/-- The plain run. -/
def inSequence (q : Request) : Except AssemblyError (Model × Summary) := do
  let (signatures, jobs) ← prepare q
  let (findings, m) := performAll q jobs .empty
  Assembly.assemble q.options (gathered q signatures findings m.fetches)

/-- The resolver has not been asked for what the jobs resolve. -/
def Fresh (m : Resolver) (jobs : List Job) : Prop :=
  ∀ r, .resolution r ∈ jobs → m.resolutions.get? r = none

theorem perform_eq_run {m : Resolver} {job : Job} (h : Fresh m (job :: jobs)) :
    ((perform q m job).1, (perform q m job).2.lookups) =
      (job.inquiry q.catalog.typeCount q.options.markers).run q.catalog m.lookups := by
  cases job with
  | docs package => rfl
  | resolution r =>
      rw [Job.inquiry, Inquiry.run_bind, perform, Resolver.resolve, h r List.mem_cons_self]
      rfl

theorem Fresh.perform {m : Resolver} {job : Job} (h : Fresh m (job :: jobs)) (hjob : job ∉ jobs) :
    Fresh (perform q m job).2 jobs := by
  intro r hr
  have hnone : m.resolutions.get? r = none := h r (List.mem_cons_of_mem job hr)
  cases job with
  | docs package => exact hnone
  | resolution u =>
      have hne : r ≠ u := by
        rintro rfl
        exact hjob hr
      exact (Resolver.get?_resolve_of_ne hne).trans hnone

/-- A job that is done at once takes all its turns, and nobody else takes one. -/
theorem steps_perform {m : Resolver} {job : Job} (hfresh : Fresh m (job :: jobs))
    (hsettled : Settled m.lookups) (ts : Multiset (Task Finding)) (results : Multiset Finding) :
    Steps q.catalog
        ⟨.running (job.inquiry q.catalog.typeCount q.options.markers) ::ₘ ts, m.lookups, results⟩
        ⟨ts, (perform q m job).2.lookups, (perform q m job).1 ::ₘ results⟩ ∧
      Settled (perform q m job).2.lookups := by
  obtain ⟨hfinding, hlookups⟩ := Prod.mk.inj (perform_eq_run (q := q) hfresh)
  rw [hfinding, hlookups]
  exact ⟨steps_run _ hsettled, hsettled.run _⟩

/-- What one job after the other comes to, jobs can come to in turns. -/
theorem steps_performAll {m : Resolver} (hjobs : jobs.Nodup) (hfresh : Fresh m jobs)
    (hsettled : Settled m.lookups) (results : Multiset Finding) :
    Steps q.catalog ⟨.ofList ((inquiries q jobs).map Task.running), m.lookups, results⟩
      ⟨0, (performAll q jobs m).2.lookups, .ofList (performAll q jobs m).1 + results⟩ := by
  induction jobs generalizing m results with
  | nil => simpa [inquiries, performAll] using ReflTransGen.refl
  | cons job jobs ih =>
      obtain ⟨hnew, hjobs⟩ := List.nodup_cons.mp hjobs
      obtain ⟨hfirst, hsettled⟩ := steps_perform (q := q) hfresh hsettled
        (.ofList ((inquiries q jobs).map Task.running)) results
      have hrest := ih hjobs (hfresh.perform hnew) hsettled ((perform q m job).1 ::ₘ results)
      rw [Multiset.add_cons, ← Multiset.cons_add] at hrest
      exact hfirst.trans hrest

/-! ## Joining by key -/

/-- Parts of findings have different keys if a key says which job it comes from. -/
theorem nodup_keys_filterMap {κ ν : Type} (jobOf : κ → Job) {part : Finding → Option (κ × ν)}
    (hpart : ∀ f e, part f = some e → jobOf e.1 = f.job) {findings : List Finding}
    (hjobs : (findings.map (·.job)).Nodup) : ((findings.filterMap part).map (·.1)).Nodup := by
  induction findings with
  | nil => exact .nil
  | cons f fs ih =>
      obtain ⟨hnew, hjobs⟩ := List.nodup_cons.mp hjobs
      rw [List.filterMap_cons]
      split
      · exact ih hjobs
      · rename_i e he
        refine List.nodup_cons.mpr ⟨fun hmem => ?_, ih hjobs⟩
        obtain ⟨e', he', hkey⟩ := List.mem_map.mp hmem
        obtain ⟨f', hf', he'⟩ := List.mem_filterMap.mp he'
        have hjob : f'.job = f.job := by rw [← hpart f' e' he', hkey, hpart f e he]
        exact hnew (List.mem_map.mpr ⟨f', hf', hjob⟩)

theorem nodup_keys_resolutions {findings : List Finding} (hjobs : (findings.map (·.job)).Nodup) :
    ((findings.filterMap fun
      | .resolution r result => some (r, result)
      | .docs .. => none).map (·.1)).Nodup := by
  refine nodup_keys_filterMap Job.resolution ?_ hjobs
  rintro (_ | _) e he <;> cases he
  rfl

theorem nodup_keys_docs {findings : List Finding} (hjobs : (findings.map (·.job)).Nodup) :
    ((findings.filterMap fun
      | .docs package result => some (package, result)
      | .resolution .. => none).map (·.1)).Nodup := by
  refine nodup_keys_filterMap Job.docs ?_ hjobs
  rintro (_ | _) e he <;> cases he
  rfl

/-- Findings of different jobs are joined to the same, whatever their order. -/
theorem gathered_perm {findings findings' : List Finding} (hjobs : (findings.map (·.job)).Nodup)
    (hperm : findings.Perm findings') (fetches : Nat) :
    gathered q signatures findings fetches = gathered q signatures findings' fetches := by
  have hresolutions : resolutionsOf findings = resolutionsOf findings' :=
    SortedMap.ofList_perm (nodup_keys_resolutions hjobs) (hperm.filterMap _)
  have hdocs : docsOf findings = docsOf findings' :=
    SortedMap.ofList_perm (nodup_keys_docs hjobs) (hperm.filterMap _)
  rw [gathered, gathered, hresolutions, hdocs]

theorem get?_resolutionsOf {findings : List Finding} (hjobs : (findings.map (·.job)).Nodup)
    {u : Composite.Ref} {answer : Except ResolveError Resolution}
    (h : .resolution u answer ∈ findings) : (resolutionsOf findings).get? u = some answer :=
  (SortedMap.get?_ofList (nodup_keys_resolutions hjobs)).mpr
    (List.mem_filterMap.mpr ⟨_, h, rfl⟩)

/-! ## All orders -/

/-- The uses of composite types by the rows that take part and by members of definitions. -/
def Request.uses (q : Request) : List Composite.Ref :=
  (q.catalog.snapshot.arguments.filter (Grouping.accepts q.keep)).filterMap (·.spec.use?) ++
    q.catalog.uses

/-- Every name is used with one kind. -/
def Request.OneKind (q : Request) : Prop :=
  ∀ u ∈ q.uses, ∀ v ∈ q.uses, u.name = v.name → u.kind.stored = v.kind.stored

/-- All jobs before their first turns. -/
def atStart (q : Request) (jobs : List Job) : Pool Finding :=
  Interleaving.start (inquiries q jobs : Multiset (Inquiry Finding))

/-- The jobs come to an end: they take turns in some order until all of them are done. -/
structure Ends (q : Request) (jobs : List Job) (p : Pool Finding) : Prop where
  steps : Steps q.catalog (atStart q jobs) p
  done : p.tasks = 0

/-- What a run may give if no deadline stops it: an error of the listing, or what is assembled when
the jobs have come to an end, from their findings in any order. -/
inductive MayGive (q : Request) : Except AssemblyError (Model × Summary) → Prop
  | refused {e : AssemblyError} : prepare q = .error e → MayGive q (.error e)
  | assembled {signatures : List Signature} {jobs : List Job} {p : Pool Finding}
      {findings : List Finding} : prepare q = .ok (signatures, jobs) → Ends q jobs p →
      p.results = findings →
      MayGive q (Assembly.assemble q.options
        (gathered q signatures findings p.lookups.fetches))

/-- The table that answers all jobs of a run. -/
def Request.answers (q : Request) : Answers := q.catalog.answersTo q.uses

section OneKind

variable (hkinds : q.OneKind) (hprepare : prepare q = .ok (signatures, jobs))

include hkinds hprepare

theorem told {job : Job} (hjob : job ∈ jobs) : job.Told q.catalog q.answers := by
  obtain ⟨-, -, rfl⟩ := prepare_eq_ok_iff.mp hprepare
  cases job with
  | docs package => trivial
  | resolution r =>
      obtain ⟨row, hrow, hr⟩ := resolution_mem_jobsOfRows.mp hjob
      have hrow : r ∈ (q.catalog.snapshot.arguments.filter (Grouping.accepts q.keep)).filterMap
          (·.spec.use?) := List.mem_filterMap.mpr ⟨row, hrow, hr⟩
      intro u hu
      refine Catalog.define_eq_answersTo hkinds ?_
      rcases List.mem_cons.mp hu.mem_uses with rfl | hu
      · exact List.mem_append_left _ hrow
      · exact List.mem_append_right _ hu

theorem fits_of_mem {i : Inquiry Finding} (hi : i ∈ inquiries q jobs) :
    i.Fits q.catalog q.answers := by
  obtain ⟨job, hjob, rfl⟩ := List.mem_map.mp hi
  exact Job.fits_inquiry (told hkinds hprepare hjob)

/-- The jobs stay sound whatever turns they take. -/
theorem sound_of_steps {p : Pool Finding}
    (hsteps : Steps q.catalog (atStart q jobs) p) :
    Sound q.catalog q.answers (inquiries q jobs) p :=
  (sound_start fun _ hi => fits_of_mem hkinds hprepare (Multiset.mem_coe.mp hi)).steps hsteps

/-- The findings are those of the table, one for each job. -/
theorem Ends.results {p : Pool Finding} (h : Ends q jobs p) :
    p.results = jobs.map (Job.finding q.catalog q.answers q.options.markers) := by
  obtain ⟨hresults, -, -⟩ := (sound_of_steps hkinds hprepare h.steps).complete h.done
  rw [hresults, Multiset.map_coe, inquiries, List.map_map]
  congr 2
  funext job
  exact Job.answered_inquiry job

/-- The schedule brings the jobs to an end. -/
theorem ends_schedule :
    Ends q jobs (Schedule.run q.catalog q.options.workers (inquiries q jobs)).pool := by
  have hlength : ∀ i ∈ inquiries q jobs,
      i.length q.catalog q.answers ≤ q.catalog.memberCount + 1 := by
    intro i hi
    obtain ⟨job, hjob, rfl⟩ := List.mem_map.mp hi
    exact Job.length_inquiry_le (told hkinds hprepare hjob)
  obtain ⟨hsteps, hdone⟩ := Schedule.run_complete q.options.workers
    (fun i hi => fits_of_mem hkinds hprepare hi) hlength
  exact ⟨hsteps, hdone⟩

section Ended

variable {p : Pool Finding} {findings : List Finding} (h : Ends q jobs p)
  (hfindings : p.results = findings)

include h hfindings

/-- There is one finding for each job. -/
theorem perm_jobs : (findings.map (·.job)).Perm jobs := by
  have hresults := h.results hkinds hprepare
  rw [hfindings] at hresults
  have hperm := (Multiset.coe_eq_coe.mp hresults).map Finding.job
  simpa [Function.comp_def, Job.job_finding] using hperm

theorem nodup_jobs : (findings.map (·.job)).Nodup :=
  (perm_jobs hkinds hprepare h hfindings).nodup_iff.mpr (nodup_of_prepare hprepare)

/-- Whatever order the jobs end in, there is a resolution for each of them. -/
theorem isSome_resolution {u : Composite.Ref} (hu : .resolution u ∈ jobs) :
    ((resolutionsOf findings).get? u).isSome := by
  have hmem := (perm_jobs hkinds hprepare h hfindings).mem_iff.mpr hu
  obtain ⟨finding, hfinding, hjob⟩ := List.mem_map.mp hmem
  cases finding with
  | docs package result => cases hjob
  | resolution r answer =>
      obtain rfl := Job.resolution.inj hjob
      rw [get?_resolutionsOf (nodup_jobs hkinds hprepare h hfindings) hfinding]
      rfl

end Ended

end OneKind

/-- **All orders give the same.** -/
theorem MayGive.unique (hkinds : q.OneKind)
    {result result' : Except AssemblyError (Model × Summary)} (h : MayGive q result)
    (h' : MayGive q result') : result = result' := by
  cases h with
  | refused hprepare =>
      cases h' with
      | refused hprepare' => rw [Except.error.inj (hprepare.symm.trans hprepare')]
      | assembled hprepare' => cases hprepare.symm.trans hprepare'
  | @assembled _ jobs p findings hprepare hends hfindings =>
      cases h' with
      | refused hprepare' => cases hprepare.symm.trans hprepare'
      | @assembled _ _ p' findings' hprepare' hends' hfindings' =>
          obtain ⟨rfl, rfl⟩ := Prod.mk.inj (Except.ok.inj (hprepare.symm.trans hprepare'))
          have hsound := sound_of_steps hkinds hprepare hends.steps
          have hsound' := sound_of_steps hkinds hprepare hends'.steps
          obtain ⟨hresults, hfetches⟩ := hsound.unique hsound' hends.done hends'.done
          -- the findings are the same but for their order, which is lost when they are joined
          have hperm : findings.Perm findings' := by
            rw [← Multiset.coe_eq_coe, ← hfindings, ← hfindings', hresults]
          rw [hfetches, gathered_perm (nodup_jobs hkinds hprepare hends hfindings) hperm]

/-- The plain run takes the turns of one job after the other. -/
theorem mayGive_inSequence (q : Request) : MayGive q (inSequence q) := by
  unfold inSequence
  cases hprepare : prepare q with
  | error e => exact .refused hprepare
  | ok prepared =>
      obtain ⟨signatures, jobs⟩ := prepared
      have hsteps := steps_performAll (q := q) (m := .empty) (nodup_of_prepare hprepare)
        (fun _ _ => rfl) settled_empty 0
      rw [Multiset.add_zero] at hsteps
      exact .assembled hprepare ⟨hsteps, rfl⟩ rfl

/-- The schedule is done before the deadline. -/
def InTime (q : Request) : Prop :=
  ∀ signatures jobs, prepare q = .ok (signatures, jobs) →
    (Schedule.run q.catalog q.options.workers (inquiries q jobs)).clock ≤
      1000 * q.options.deadlineSecs

theorem mayGive_run (hkinds : q.OneKind) (htime : InTime q) : MayGive q (run q) := by
  unfold run
  cases hprepare : prepare q with
  | error e => exact .refused hprepare
  | ok prepared =>
      obtain ⟨signatures, jobs⟩ := prepared
      have hclock := htime signatures jobs hprepare
      have hassembled := MayGive.assembled hprepare (ends_schedule hkinds hprepare) rfl
      simp only [bind, Except.bind, gt_iff_lt, if_neg (Nat.not_lt.mpr hclock)]
      exact hassembled

/-- What the trees of a signature say comes from a row that takes part. -/
theorem exists_row_of_mem {keep : String → Bool} {rows : List ArgumentRow} {ss : List Signature}
    (h : Grouping.signatures keep rows = .ok ss) {s : Signature} (hs : s ∈ ss)
    {e : ParamTree × Nat} (he : e ∈ s.rows) :
    ∃ r ∈ rows.filter (Grouping.accepts keep), r.spec = e.1.spec := by
  obtain ⟨hlists, -⟩ := (Grouping.signatures_iff_lists keep rows ss).mp h
  obtain ⟨run, hrun, hrows⟩ := Grouping.exists_of_mem_right hlists.flip hs
  have he : e ∈ Grouping.nodes run := hrows.rows ▸ he
  obtain ⟨r, hr, rfl⟩ := List.mem_map.mp he
  refine ⟨r, ?_, rfl⟩
  -- the runs are pieces of the accepted rows
  rw [← List.flatten_splitBy Grouping.sameSubprogram (rows.filter (Grouping.accepts keep))]
  exact List.mem_flatten.mpr ⟨run, hrun, (List.mem_filter.mp hr).1⟩

/-- **The order of jobs does not matter.** If every name is used with one kind, then whatever turns
the jobs take, a run that no deadline stops gives what the plain run gives, an error or a model and
its summary. Somebody can always take a turn, turns do not go on for ever, and in the end there is a
resolution for whatever the signatures use, so none is missing when they are converted. The schedule
of a run that is done in time is one of these orders. -/
theorem order_irrelevant (q : Request) (hkinds : q.OneKind) :
    (∀ result, MayGive q result ↔ result = inSequence q) ∧
    (∀ signatures jobs, prepare q = .ok (signatures, jobs) →
      (∀ p, Steps q.catalog (atStart q jobs) p → p.tasks ≠ 0 → ∃ p', Step q.catalog p p') ∧
      (∀ f : Nat → Pool Finding, f 0 = atStart q jobs →
        ¬ ∀ k, Step q.catalog (f k) (f (k + 1))) ∧
      ∀ p (findings : List Finding), Ends q jobs p → p.results = findings →
        ∀ s ∈ signatures, ∀ e ∈ s.rows, ∀ context kind name,
          e.1.spec.classify context = .ok (.composite kind (some name)) →
            ((gathered q signatures findings p.lookups.fetches).resolutions.get?
              ⟨kind, name⟩).isSome) ∧
    (InTime q → run q = inSequence q) := by
  have hplain := mayGive_inSequence q
  refine ⟨fun result => ⟨fun h => h.unique hkinds hplain, fun h => h ▸ hplain⟩, ?_, ?_⟩
  · intro signatures jobs hprepare
    refine ⟨?_, ?_, ?_⟩
    · exact fun p hsteps => (sound_of_steps hkinds hprepare hsteps).exists_step
    · intro f hstart
      have hsound := sound_of_steps hkinds hprepare (.refl : Steps q.catalog (atStart q jobs) _)
      rw [← hstart] at hsound
      exact Sound.not_forever f hsound
    · intro p findings hends hfindings s hs e he context kind name hclassify
      obtain ⟨-, hsignatures, hjobs⟩ := prepare_eq_ok_iff.mp hprepare
      obtain ⟨r, hr, hspec⟩ := exists_row_of_mem hsignatures hs he
      refine isSome_resolution hkinds hprepare hends hfindings ?_
      rw [hjobs]
      refine resolution_mem_jobsOfRows.mpr ⟨r, hr, ?_⟩
      rw [hspec]
      exact TypeSpec.use?_of_classify hclassify
  · exact fun htime => (mayGive_run hkinds htime).unique hkinds hplain

/-- A routine with two records that share a third, and look-ups that take their time. -/
def sampleRequest : Request where
  catalog :=
    { snapshot :=
        { arguments :=
            [{ owner := "APP", package := "PKG", object := "FOO", sequence := 1
               argumentName := "A", dataKind := "PL/SQL RECORD", typeOwner := "APP"
               typePackage := "PKG", typeName := "R" },
             { owner := "APP", package := "PKG", object := "FOO", sequence := 2
               argumentName := "B", dataKind := "REF CURSOR", typeOwner := "APP"
               typePackage := "PKG", typeName := "S" }]
          records := .ofList
            [(⟨"APP", "PKG", "R"⟩, [Resolver.sampleMember "X" "PL/SQL RECORD" "X"]),
             (⟨"APP", "PKG", "S"⟩, [Resolver.sampleMember "X" "PL/SQL RECORD" "X"])]
          collections := .empty
          sources := .empty }
      latency := 3 }
  options := { workers := 2 }
  keep := fun _ => true
  directives := []

theorem order_irrelevant_sample :
    sampleRequest.OneKind ∧ InTime sampleRequest ∧ run sampleRequest = inSequence sampleRequest ∧
    MayGive sampleRequest (inSequence sampleRequest) ∧
    ∃ signatures jobs p, ∃ findings : List Finding,
      prepare sampleRequest = .ok (signatures, jobs) ∧
      Ends sampleRequest jobs p ∧ p.results = findings ∧
      ((gathered sampleRequest signatures findings p.lookups.fetches).resolutions.get?
        ⟨.cursor, ⟨"APP", "PKG", "S"⟩⟩).isSome := by
  have hkinds : sampleRequest.OneKind := by
    unfold Request.OneKind
    decide +kernel
  have htime : InTime sampleRequest := by
    intro signatures jobs hprepare
    obtain ⟨-, -, rfl⟩ := prepare_eq_ok_iff.mp hprepare
    decide +kernel
  obtain ⟨hall, hends, hrun⟩ := order_irrelevant sampleRequest hkinds
  obtain ⟨s, jobs, hprepare, e, he, hclassify⟩ : ∃ s jobs,
      prepare sampleRequest = .ok ([s], jobs) ∧
      ∃ e ∈ s.rows, e.1.spec.classify "" =
        .ok (.composite .cursor (some ⟨"APP", "PKG", "S"⟩)) :=
    ⟨_, _, rfl, _, .tail _ (.head _), rfl⟩
  have hended := ends_schedule hkinds hprepare
  exact ⟨hkinds, htime, hrun htime, (hall _).mpr rfl, [s], jobs, _, _, hprepare, hended, rfl,
    (hends [s] jobs hprepare).2.2 _ _ hended rfl s (.head _) e he "" _ _ hclassify⟩

end Gathering

end RoutineBridge
