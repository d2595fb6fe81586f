import Mathlib.Algebra.BigOperators.Group.Multiset.Defs
import Mathlib.Algebra.Group.Nat.Defs
import Mathlib.Logic.Relation
import RoutineBridge.Proofs.Answers

/-!
# Inquiries side by side

Several inquiries share what they look up and take turns in any order: each goes on as far as it
likes, and one that needs a definition which another one is looking up waits for it. If the catalog
answers all of them like one table, no order can be told from another by what comes out
(`Sound.complete`), there is always a turn to take (`Sound.exists_step`), and turns do not go on for
ever (`Step.work_lt`).
-/

namespace RoutineBridge

open Relation

/-! ## Turns -/

/-- An inquiry on its way. -/
inductive Task (α : Type) where
  | running (i : Inquiry α)
  /-- It is looking a definition up. -/
  | fetching (kind : Composite.Kind) (name : TypeName)
      (next : Except ResolveError Definition → Inquiry α)
  /-- It waits for a definition that another one is looking up. -/
  | waiting (name : TypeName) (next : Except ResolveError Definition → Inquiry α)

/-- Inquiries on their way, what they share, and what those that are done came to. -/
structure Pool (α : Type) where
  tasks : Multiset (Task α)
  lookups : Lookups
  results : Multiset α

namespace Interleaving

variable {α : Type} {c : Catalog}

/-- What a task does next, with what is looked up before and after it. -/
inductive Turn (c : Catalog) : Task α → Lookups → Task α → Lookups → Prop
  | source {package : String} {next : Except CatalogError (Option String) → Inquiry α}
      {l : Lookups} :
      Turn c (.running (.source package next)) l (.running (next (c.source package))) l
  | known {kind : Composite.Kind} {name : TypeName}
      {next : Except ResolveError Definition → Inquiry α} {l : Lookups}
      {answer : Except ResolveError Definition} (known : l.definitions.get? name = some answer) :
      Turn c (.running (.define kind name next)) l (.running (next answer)) l
  | ask {kind : Composite.Kind} {name : TypeName}
      {next : Except ResolveError Definition → Inquiry α} {l : Lookups}
      (new : l.definitions.requested name = false) :
      Turn c (.running (.define kind name next)) l (.fetching kind name next)
        ⟨l.definitions.request name, l.fetches + 1⟩
  | wait {kind : Composite.Kind} {name : TypeName}
      {next : Except ResolveError Definition → Inquiry α} {l : Lookups}
      (requested : l.definitions.requested name) (unknown : l.definitions.get? name = none) :
      Turn c (.running (.define kind name next)) l (.waiting name next) l
  | arrive {kind : Composite.Kind} {name : TypeName}
      {next : Except ResolveError Definition → Inquiry α} {l : Lookups} :
      Turn c (.fetching kind name next) l (.running (next (c.define kind name)))
        ⟨l.definitions.complete name (c.define kind name), l.fetches⟩
  | wake {name : TypeName} {next : Except ResolveError Definition → Inquiry α} {l : Lookups}
      {answer : Except ResolveError Definition} (known : l.definitions.get? name = some answer) :
      Turn c (.waiting name next) l (.running (next answer)) l

/-- Some task takes its turn, or is done. -/
inductive Step (c : Catalog) : Pool α → Pool α → Prop
  | turn {t t' : Task α} {l l' : Lookups} {ts : Multiset (Task α)} {results : Multiset α} :
      Turn c t l t' l' → Step c ⟨t ::ₘ ts, l, results⟩ ⟨t' ::ₘ ts, l', results⟩
  | finish {a : α} {l : Lookups} {ts : Multiset (Task α)} {results : Multiset α} :
      Step c ⟨.running (.done a) ::ₘ ts, l, results⟩ ⟨ts, l, a ::ₘ results⟩

/-- Some order of turns leads from one pool to another. -/
abbrev Steps (c : Catalog) : Pool α → Pool α → Prop := ReflTransGen (Step c)

/-- The start: nothing is looked up yet. -/
def start (jobs : Multiset (Inquiry α)) : Pool α := ⟨jobs.map .running, .empty, 0⟩

/-! ## One after the other -/

/-- Whatever was asked for is known. -/
def Settled (l : Lookups) : Prop :=
  ∀ n, l.definitions.requested n → (l.definitions.get? n).isSome

theorem settled_empty : Settled .empty := by
  intro n hn
  cases hn

theorem Settled.define {l : Lookups} (h : Settled l) (kind : Composite.Kind) (name : TypeName) :
    Settled (l.define c kind name).2 := by
  intro n hn
  by_cases hname : n = name
  · rw [hname, Lookups.get?_define_self]
    rfl
  · rw [Lookups.get?_define_of_ne hname]
    exact h n ((Lookups.requested_define.mp hn).resolve_left hname)

theorem Settled.run {l : Lookups} (h : Settled l) (i : Inquiry α) : Settled (i.run c l).2 := by
  induction i generalizing l with
  | done a => exact h
  | define kind name next ih => exact ih _ (h.define kind name)
  | source package next ih => exact ih _ h

variable {l : Lookups} {ts : Multiset (Task α)} {results : Multiset α}

/-- A task can look a definition up without anyone else taking a turn meanwhile. -/
theorem steps_define {kind : Composite.Kind} {name : TypeName}
    {next : Except ResolveError Definition → Inquiry α}
    (hnew : l.definitions.requested name = false) :
    Steps c ⟨.running (.define kind name next) ::ₘ ts, l, results⟩
      ⟨.running (next (l.define c kind name).1) ::ₘ ts, (l.define c kind name).2, results⟩ := by
  have hdefine : l.define c kind name = (c.define kind name,
      ⟨(l.definitions.request name).complete name (c.define kind name), l.fetches + 1⟩) := by
    simp only [Lookups.define, OnceMap.get?_of_not_requested hnew, OnceMap.complete_request _ hnew]
  rw [hdefine]
  exact .head (.turn (.ask hnew)) (.single (.turn .arrive))

/-- **To run an inquiry to its end at once** is one of the orders. -/
theorem steps_run (i : Inquiry α) (h : Settled l) :
    Steps c ⟨.running i ::ₘ ts, l, results⟩ ⟨ts, (i.run c l).2, (i.run c l).1 ::ₘ results⟩ := by
  induction i generalizing l with
  | done a => exact .single .finish
  | source package next ih => exact .head (.turn .source) (ih _ h)
  | define kind name next ih =>
      rw [Inquiry.run_define]
      refine ReflTransGen.trans ?_ (ih _ (h.define kind name))
      -- what was asked for is known, so there is nothing to wait for
      cases hget : l.definitions.get? name with
      | some answer =>
          have hdefine : l.define c kind name = (answer, l) := by simp only [Lookups.define, hget]
          rw [hdefine]
          exact .single (.turn (.known hget))
      | none =>
          have hnew : l.definitions.requested name = false := by
            by_contra hrequested
            have hknown := h name (by simpa using hrequested)
            rw [hget] at hknown
            cases hknown
          exact steps_define hnew

end Interleaving

/-! ## What is left of a task -/

namespace Task

variable {α : Type}

/-- What is left to do if the table answers. -/
def rest (T : Answers) : Task α → Inquiry α
  | running i => i
  | fetching _ name next => next (T name)
  | waiting name next => next (T name)

/-- The catalog would give the answers of the table. -/
def Fits (c : Catalog) (T : Answers) : Task α → Prop
  | running i => i.Fits c T
  | fetching kind name next => c.define kind name = T name ∧ (next (T name)).Fits c T
  | waiting name next => (next (T name)).Fits c T

/-- What it looks up or waits for was requested. -/
def Asked (l : Lookups) : Task α → Prop
  | running _ => True
  | fetching _ name _ => l.definitions.requested name
  | waiting name _ => l.definitions.requested name

theorem Asked.mono {t : Task α} {l l' : Lookups} (h : t.Asked l)
    (hl : ∀ n, l.definitions.requested n → l'.definitions.requested n) : t.Asked l' := by
  cases t with
  | running i => trivial
  | fetching kind name next => exact hl name h
  | waiting name next => exact hl name h

/-- How many turns it takes at most; it may wait for every answer. -/
def work (c : Catalog) (T : Answers) : Task α → Nat
  | running i => 2 * i.length c T + 1
  | fetching _ name next => 2 * (next (T name)).length c T + 2
  | waiting name next => 2 * (next (T name)).length c T + 2

end Task

namespace Interleaving

variable {α : Type} {c : Catalog} {T : Answers} {t t' : Task α} {l l' : Lookups} {n : TypeName}

namespace Turn

theorem requested (h : Turn c t l t' l') (hn : l.definitions.requested n) :
    l'.definitions.requested n := by
  cases h with
  | source | known | wait | wake => exact hn
  | ask hnew => exact (OnceMap.requested_request hnew).mpr (.inr hn)
  | arrive => exact (OnceMap.requested_complete _ _ _).mpr (.inr hn)

theorem asked (h : Turn c t l t' l') : t'.Asked l' := by
  cases h with
  | source | known | arrive | wake => trivial
  | ask hnew => exact (OnceMap.requested_request hnew).mpr (.inl rfl)
  | wait hrequested => exact hrequested

/-- There is a look-up for every requested name and for no other. -/
theorem counted (h : Turn c t l t' l') (hasked : t.Asked l)
    (hcounted : l.fetches = l.definitions.size) : l'.fetches = l'.definitions.size := by
  cases h with
  | source | known | wait | wake => exact hcounted
  | ask hnew => rw [OnceMap.size_request hnew, hcounted]
  | arrive => rw [OnceMap.size_complete _ hasked, hcounted]

section Answered

variable (h : Turn c t l t' l') (hl : l.AgreesWith T) (ht : t.Fits c T)

include h hl ht

theorem agreesWith : l'.AgreesWith T := by
  cases h with
  | source | known | wait | wake => exact hl
  | ask hnew =>
      intro m answer hget
      exact hl m answer ((OnceMap.get?_request hnew).symm.trans hget)
  | @arrive kind name next l =>
      intro m answer hget
      by_cases hm : m = name
      · subst hm
        cases hknown : l.definitions.get? m with
        | none =>
            rw [OnceMap.get?_complete_self _ hknown] at hget
            rw [← Option.some.inj hget, ht.1]
        | some known =>
            rw [OnceMap.complete_of_some _ hknown] at hget
            exact hl m answer hget
      · rw [OnceMap.get?_complete_of_ne _ _ hm] at hget
        exact hl m answer hget

/-- The turn of a task leaves the rest of it, or what is left after one more answer. -/
theorem fits : t'.Fits c T := by
  cases h with
  | source => exact ht
  | known hget =>
      rw [hl _ _ hget]
      exact ht.2
  | ask => exact ht
  | wait => exact ht.2
  | arrive =>
      rw [ht.1]
      exact ht.2
  | wake hget =>
      rw [hl _ _ hget]
      exact ht

theorem answered : (t'.rest T).answered c T = (t.rest T).answered c T := by
  cases h with
  | source | ask | wait => rfl
  | known hget =>
      rw [hl _ _ hget]
      rfl
  | arrive =>
      rw [ht.1]
      rfl
  | wake hget =>
      rw [hl _ _ hget]
      rfl

/-- A name that is asked for goes over to the requested ones. -/
theorem names (hasked : t.Asked l) : l'.definitions.requested n ∨ n ∈ (t'.rest T).asked c T ↔
    l.definitions.requested n ∨ n ∈ (t.rest T).asked c T := by
  -- a name at the head of the rest changes nothing once it is requested
  have hhead : ∀ {name : TypeName} {names : List TypeName}, l.definitions.requested name →
      (l.definitions.requested n ∨ n ∈ names ↔ l.definitions.requested n ∨ n ∈ name :: names) := by
    intro name names hname
    have hmem : n = name → l.definitions.requested n := fun hn => hn ▸ hname
    rw [List.mem_cons]
    tauto
  cases h with
  | source => rfl
  | known hget =>
      rw [hl _ _ hget]
      exact hhead (OnceMap.requested_of_get? hget)
  | ask hnew =>
      simp only [Task.rest, Inquiry.asked, List.mem_cons, OnceMap.requested_request hnew]
      tauto
  | wait hrequested => exact hhead hrequested
  | @arrive kind name next l =>
      have hname : n = name → l.definitions.requested n := fun hn => hn ▸ hasked
      rw [ht.1, OnceMap.requested_complete, or_iff_right_of_imp hname]
      rfl
  | wake hget =>
      rw [hl _ _ hget]
      rfl

theorem work_lt : t'.work c T < t.work c T := by
  cases h with
  | source => simp [Task.work, Inquiry.length]
  | known hget =>
      rw [hl _ _ hget]
      simp only [Task.work, Inquiry.length]
      omega
  | ask => simp only [Task.work, Inquiry.length]; omega
  | wait => simp only [Task.work, Inquiry.length]; omega
  | arrive =>
      rw [ht.1]
      simp [Task.work]
  | wake hget =>
      rw [hl _ _ hget]
      simp [Task.work]

end Answered

/-- A name whose definition is under way is looked up by the task, or by another one as before. -/
theorem fetched (h : Turn c t l t' l') (hn : l'.definitions.requested n)
    (hunknown : l'.definitions.get? n = none) :
    (∃ kind next, t' = .fetching kind n next) ∨
      (l.definitions.requested n ∧ l.definitions.get? n = none ∧
        ∀ kind next, t ≠ .fetching kind n next) := by
  cases h with
  | source | known | wait | wake => exact .inr ⟨hn, hunknown, by simp⟩
  | @ask kind name next l hnew =>
      rcases (OnceMap.requested_request hnew).mp hn with rfl | hn
      · exact .inl ⟨kind, next, rfl⟩
      · exact .inr ⟨hn, (OnceMap.get?_request hnew).symm.trans hunknown, by simp⟩
  | @arrive kind name next l =>
      have hne : n ≠ name := by
        rintro rfl
        cases hknown : l.definitions.get? n with
        | none => rw [OnceMap.get?_complete_self _ hknown] at hunknown; cases hunknown
        | some answer =>
            rw [OnceMap.complete_of_some _ hknown, hknown] at hunknown
            cases hunknown
      rw [OnceMap.get?_complete_of_ne _ _ hne] at hunknown
      refine .inr ⟨((OnceMap.requested_complete _ _ _).mp hn).resolve_left hne, hunknown, ?_⟩
      rintro kind' next' heq
      exact hne (Task.fetching.inj heq).2.1.symm

end Turn

/-! ## All tasks -/

/-- What holds between turns, whatever their order: the results with what the tasks still come to
are the answers to all jobs, the names that were requested with those still asked for are all names,
and whatever is requested is known or looked up by a task. -/
structure Sound (c : Catalog) (T : Answers) (jobs : Multiset (Inquiry α)) (p : Pool α) : Prop where
  results : p.results + p.tasks.map (fun t => (t.rest T).answered c T) = jobs.map (·.answered c T)
  fits : ∀ t ∈ p.tasks, t.Fits c T
  asked : ∀ t ∈ p.tasks, t.Asked p.lookups
  agrees : p.lookups.AgreesWith T
  names : ∀ n, (p.lookups.definitions.requested n ∨ ∃ t ∈ p.tasks, n ∈ (t.rest T).asked c T) ↔
    ∃ i ∈ jobs, n ∈ i.asked c T
  counted : p.lookups.fetches = p.lookups.definitions.size
  fetched : ∀ n, p.lookups.definitions.requested n → p.lookups.definitions.get? n = none →
    ∃ kind next, .fetching kind n next ∈ p.tasks

/-- How many turns there are at most. -/
def work (c : Catalog) (T : Answers) (p : Pool α) : Nat := (p.tasks.map (Task.work c T)).sum

variable {jobs : Multiset (Inquiry α)} {p p' : Pool α}

theorem sound_start (h : ∀ i ∈ jobs, i.Fits c T) : Sound c T jobs (start jobs) where
  results := by simp [start, Task.rest]
  fits t ht := by
    obtain ⟨i, hi, rfl⟩ := Multiset.mem_map.mp ht
    exact h i hi
  asked t ht := by
    obtain ⟨i, -, rfl⟩ := Multiset.mem_map.mp ht
    trivial
  agrees := Lookups.agreesWith_empty T
  names n := by
    have hempty : Lookups.empty.definitions.requested n = false := rfl
    simp [start, Task.rest, hempty]
  counted := rfl
  fetched n hn := by cases hn

/-- **Whoever takes the next turn**, everything stays as it should be. -/
theorem Sound.step (h : Sound c T jobs p) (hstep : Step c p p') : Sound c T jobs p' := by
  cases hstep with
  | @turn t t' l l' ts results hturn =>
      have ht : t.Fits c T := h.fits t (Multiset.mem_cons_self t ts)
      have hasked : t.Asked l := h.asked t (Multiset.mem_cons_self t ts)
      refine ⟨?_, ?_, ?_, hturn.agreesWith h.agrees ht, ?_, hturn.counted hasked h.counted, ?_⟩
      · rw [← h.results, Multiset.map_cons, Multiset.map_cons, hturn.answered h.agrees ht]
      · intro s hs
        rcases Multiset.mem_cons.mp hs with rfl | hs
        · exact hturn.fits h.agrees ht
        · exact h.fits s (Multiset.mem_cons_of_mem hs)
      · intro s hs
        rcases Multiset.mem_cons.mp hs with rfl | hs
        · exact hturn.asked
        · exact (h.asked s (Multiset.mem_cons_of_mem hs)).mono fun _ => hturn.requested
      · intro n
        have hnames := h.names n
        simp only [Multiset.mem_cons, exists_eq_or_imp, ← or_assoc] at hnames ⊢
        rw [← hnames, hturn.names h.agrees ht hasked]
      · intro n hn hunknown
        rcases hturn.fetched hn hunknown with ⟨kind, next, rfl⟩ | ⟨hn, hunknown, hother⟩
        · exact ⟨kind, next, Multiset.mem_cons_self _ _⟩
        · obtain ⟨kind, next, hmem⟩ := h.fetched n hn hunknown
          refine ⟨kind, next, Multiset.mem_cons_of_mem ?_⟩
          exact (Multiset.mem_cons.mp hmem).resolve_left fun heq => hother kind next heq.symm
  | @finish a l ts results =>
      refine ⟨?_, ?_, ?_, h.agrees, ?_, h.counted, ?_⟩
      · rw [← h.results, Multiset.map_cons, Multiset.cons_add, Multiset.add_cons]
        rfl
      · exact fun s hs => h.fits s (Multiset.mem_cons_of_mem hs)
      · exact fun s hs => h.asked s (Multiset.mem_cons_of_mem hs)
      · intro n
        rw [← h.names n]
        simp [Task.rest, Inquiry.asked]
      · intro n hn hunknown
        obtain ⟨kind, next, hmem⟩ := h.fetched n hn hunknown
        exact ⟨kind, next, (Multiset.mem_cons.mp hmem).resolve_left (by simp)⟩

theorem Sound.steps (h : Sound c T jobs p) (hsteps : Steps c p p') : Sound c T jobs p' := by
  induction hsteps with
  | refl => exact h
  | tail _ hstep ih => exact ih.step hstep

/-- Every turn takes the tasks nearer to their end. -/
theorem Sound.work_lt (h : Sound c T jobs p) (hstep : Step c p p') : work c T p' < work c T p := by
  cases hstep with
  | @turn t t' l l' ts results hturn =>
      have hlt := hturn.work_lt h.agrees (h.fits t (Multiset.mem_cons_self t ts))
      simp only [work, Multiset.map_cons, Multiset.sum_cons]
      omega
  | finish =>
      simp only [work, Multiset.map_cons, Multiset.sum_cons, Task.work]
      omega

/-- **Somebody can always go on.** -/
theorem Sound.exists_step (h : Sound c T jobs p) (htasks : p.tasks ≠ 0) : ∃ p', Step c p p' := by
  obtain ⟨tasks, l, results⟩ := p
  have hturn : ∀ {t t' l'}, t ∈ tasks → Turn c t l t' l' → ∃ p', Step c ⟨tasks, l, results⟩ p' := by
    intro t t' l' ht hturn
    obtain ⟨ts, rfl⟩ := Multiset.exists_cons_of_mem ht
    exact ⟨_, .turn hturn⟩
  obtain ⟨t, ht⟩ := Multiset.exists_mem_of_ne_zero htasks
  cases t with
  | fetching kind name next => exact hturn ht .arrive
  | waiting name next =>
      cases hget : l.definitions.get? name with
      | some answer => exact hturn ht (.wake hget)
      | none =>
          -- somebody else is looking the definition up
          obtain ⟨kind, next', hmem⟩ := h.fetched name (h.asked _ ht) hget
          exact hturn hmem .arrive
  | running i =>
      cases i with
      | done a =>
          obtain ⟨ts, rfl⟩ := Multiset.exists_cons_of_mem ht
          exact ⟨_, .finish⟩
      | source package next => exact hturn ht .source
      | define kind name next =>
          cases hget : l.definitions.get? name with
          | some answer => exact hturn ht (.known hget)
          | none =>
              cases hrequested : l.definitions.requested name with
              | true => exact hturn ht (.wait hrequested hget)
              | false => exact hturn ht (.ask hrequested)

/-- No order of turns goes on for ever. -/
theorem Sound.not_forever (f : Nat → Pool α) (h : Sound c T jobs (f 0)) :
    ¬ ∀ k, Step c (f k) (f (k + 1)) := by
  intro hsteps
  have hsound : ∀ k, Sound c T jobs (f k) := by
    intro k
    induction k with
    | zero => exact h
    | succ k ih => exact ih.step (hsteps k)
  have hwork : ∀ k, work c T (f k) + k ≤ work c T (f 0) := by
    intro k
    induction k with
    | zero => exact Nat.le_refl _
    | succ k ih =>
        have hlt := (hsound k).work_lt (hsteps k)
        omega
  have hlast := hwork (work c T (f 0) + 1)
  omega

/-- **When all tasks are done**, they came to the answers of the table, and what was looked up are
the names they ask for, each once. -/
theorem Sound.complete (h : Sound c T jobs p) (htasks : p.tasks = 0) :
    p.results = jobs.map (·.answered c T) ∧
      (∀ n, p.lookups.definitions.requested n ↔ ∃ i ∈ jobs, n ∈ i.asked c T) ∧
      p.lookups.fetches = p.lookups.definitions.size := by
  refine ⟨?_, fun n => ?_, h.counted⟩
  · rw [← h.results, htasks, Multiset.map_zero, Multiset.add_zero]
  · rw [← h.names n, htasks]
    simp

/-- **All orders come to the same**, and ask the catalog equally often. -/
theorem Sound.unique (h : Sound c T jobs p) (h' : Sound c T jobs p') (htasks : p.tasks = 0)
    (htasks' : p'.tasks = 0) :
    p.results = p'.results ∧ p.lookups.fetches = p'.lookups.fetches := by
  obtain ⟨hresults, hrequested, hcounted⟩ := h.complete htasks
  obtain ⟨hresults', hrequested', hcounted'⟩ := h'.complete htasks'
  refine ⟨hresults.trans hresults'.symm, ?_⟩
  rw [hcounted, hcounted']
  exact SortedMap.size_eq_of_contains fun n => (hrequested n).trans (hrequested' n).symm

end Interleaving

end RoutineBridge
