import Mathlib.Algebra.GroupWithZero.Nat
import Mathlib.Algebra.Order.BigOperators.Group.List
import Mathlib.Algebra.Order.Group.Nat
import RoutineBridge.Assembly.Schedule
import RoutineBridge.Proofs.Interleaving

/-!
# The schedule is one of the orders

What a schedule does between two polls are turns of its jobs (`steps_poll`), so all that holds for
every order of turns holds for it. Each poll takes something off its work, also where it is no turn:
a job that finds no free place goes into a queue, and the clock goes on when nothing else can
(`underWay_run`). When the work is done no job is left in the queue, since all places are free
again, and none waits, since nothing is being looked up (`tasks_eq_zero`).
-/

namespace RoutineBridge.Schedule

open Relation Interleaving

variable {c : Catalog} {T : Answers} {s : State}

/-! ## Jobs as tasks -/

def Ready.task : Ready → Task Finding
  | start job => .running job
  | resume job => .running job
  | arrived kind name next => .fetching kind name next

def Waiting.task (w : Waiting) : Task Finding := .waiting w.name w.next

namespace State

/-- The jobs that can go on, now or when the clock does. -/
def underWay (s : State) : List Ready := s.ready ++ s.asleep.map (·.2)

def tasks (s : State) : Multiset (Task Finding) :=
  s.underWay.map Ready.task + s.queued.map Task.running + s.waiting.map Waiting.task

/-- The jobs with what they share. -/
def pool (s : State) : Pool Finding := ⟨s.tasks, s.lookups, s.findings⟩

/-- The jobs and one more. -/
def poolWith (t : Task Finding) (s : State) : Pool Finding := ⟨t ::ₘ s.tasks, s.lookups, s.findings⟩

theorem coe_concat {α : Type} (l : List α) (a : α) : ((l ++ [a] : List α) : Multiset α) = a ::ₘ l :=
  Multiset.coe_eq_coe.mpr (List.perm_append_singleton a l)

theorem pool_start (workers : Nat) (jobs : List (Inquiry Finding)) :
    (start workers jobs).pool = Interleaving.start (jobs : Multiset (Inquiry Finding)) := by
  have htask : Ready.task ∘ Ready.start = Task.running := rfl
  simp [pool, tasks, underWay, start, Interleaving.start, htask]

theorem tasks_concat_ready (s : State) (r : Ready) :
    ({ s with ready := s.ready ++ [r] } : State).tasks = r.task ::ₘ s.tasks := by
  have hperm : (s.ready ++ [r] ++ s.asleep.map (·.2)).Perm (r :: s.underWay) := by
    rw [List.append_assoc]
    exact List.perm_middle
  simp only [tasks, underWay, Multiset.coe_eq_coe.mpr (hperm.map Ready.task), List.map_cons,
    ← Multiset.cons_coe, Multiset.cons_add]

theorem tasks_concat_asleep (s : State) (time : Nat) (r : Ready) :
    ({ s with asleep := s.asleep ++ [(time, r)] } : State).tasks = r.task ::ₘ s.tasks := by
  simp only [tasks, underWay, List.map_append, ← List.append_assoc, List.map_cons, List.map_nil,
    coe_concat, Multiset.cons_add]

theorem tasks_concat_waiting (s : State) (w : Waiting) :
    ({ s with waiting := s.waiting ++ [w] } : State).tasks = w.task ::ₘ s.tasks := by
  simp only [tasks, underWay, List.map_append, List.map_cons, List.map_nil, coe_concat,
    Multiset.add_cons]

theorem tasks_concat_queued (s : State) (job : Inquiry Finding) :
    ({ s with queued := s.queued ++ [job] } : State).tasks = .running job ::ₘ s.tasks := by
  simp only [tasks, underWay, List.map_append, List.map_cons, List.map_nil, coe_concat,
    Multiset.add_cons, Multiset.cons_add]

theorem pool_release (s : State) : s.release.pool = s.pool := by
  unfold release
  split
  · rename_i job rest hqueued
    have htasks := tasks_concat_ready { s with queued := rest } (.resume job)
    have hbefore : s.tasks = .running job ::ₘ ({ s with queued := rest } : State).tasks := by
      simp only [tasks, underWay, hqueued, List.map_cons, ← Multiset.cons_coe, Multiset.cons_add,
        Multiset.add_cons]
    exact congrArg (Pool.mk · s.lookups s.findings) (htasks.trans hbefore.symm)
  · rfl

@[simp]
theorem wake_free (s : State) : s.wake.free = s.free := by
  unfold wake
  split <;> rfl

@[simp]
theorem wake_queued (s : State) : s.wake.queued = s.queued := by
  unfold wake
  split <;> rfl

@[simp]
theorem wake_waiting (s : State) : s.wake.waiting = s.waiting := by
  unfold wake
  split <;> rfl

@[simp]
theorem wake_lookups (s : State) : s.wake.lookups = s.lookups := by
  unfold wake
  split <;> rfl

@[simp]
theorem wake_findings (s : State) : s.wake.findings = s.findings := by
  unfold wake
  split <;> rfl

theorem wake_eq {time : Nat} {first : Ready} {rest : List (Nat × Ready)}
    (hasleep : s.asleep = (time, first) :: rest) : s.wake = { s with
      clock := time
      ready := s.ready ++ (s.asleep.takeWhile (·.1 == time)).map (·.2)
      asleep := s.asleep.dropWhile (·.1 == time) } := by
  unfold wake
  split
  · rename_i hnone
    cases hasleep.symm.trans hnone
  · rename_i hsome
    obtain ⟨rfl, -⟩ := Prod.mk.inj (List.cons.inj (hsome.symm.trans hasleep)).1
    rfl

@[simp]
theorem underWay_wake (s : State) : s.wake.underWay = s.underWay := by
  cases hasleep : s.asleep with
  | nil => simp [wake, hasleep]
  | cons e rest =>
      rw [wake_eq hasleep]
      simp only [underWay]
      rw [List.append_assoc, ← List.map_append, List.takeWhile_append_dropWhile]

@[simp]
theorem pool_wake (s : State) : s.wake.pool = s.pool := by
  simp [pool, tasks]

/-! ## What the schedule does are turns -/

/-- What a job does until it is done or has to wait are turns. -/
theorem steps_advance (c : Catalog) (job : Inquiry Finding) (s : State) :
    Steps c (s.poolWith (.running job)) (s.advance c job).pool := by
  induction job generalizing s with
  | done finding =>
      rw [advance, pool_release]
      have hlast : ({ s with findings := s.findings ++ [finding] } : State).pool =
          ⟨s.tasks, s.lookups, finding ::ₘ (s.findings : Multiset Finding)⟩ := by
        rw [← coe_concat]
        rfl
      rw [hlast]
      exact .single .finish
  | source package next ih =>
      rw [advance]
      split
      · exact .head (.turn .source) (ih _ s)
      · rw [pool, tasks_concat_asleep]
        exact .single (.turn .source)
  | define kind name next ih =>
      rw [advance]
      split
      · rename_i answer hget
        exact .head (.turn (.known hget)) (ih answer s)
      · rename_i hget
        split
        · rename_i hrequested
          rw [pool, tasks_concat_waiting]
          exact .single (.turn (.wait hrequested hget))
        · rename_i hnew
          have hnew : s.lookups.definitions.requested name = false := by simpa using hnew
          split
          · -- the look-up takes no time, so nobody takes a turn in between
            exact (steps_define hnew).trans
              (ih _ { s with lookups := (s.lookups.define c kind name).2 })
          · rw [pool, tasks_concat_asleep { s with
              lookups := ⟨s.lookups.definitions.request name, s.lookups.fetches + 1⟩ }]
            exact .single (.turn (.ask hnew))

theorem waiting_perm (s : State) (name : TypeName) :
    (s.waiting.filter (·.name == name) ++ s.waiting.filter (!·.name == name)).Perm s.waiting :=
  List.filter_append_perm _ _

/-- A job whose definition is known now goes on, and so does everyone who waits for it. -/
theorem store_eq (s : State) (name : TypeName) (answer : Except ResolveError Definition) :
    s.store name answer = { s with
      lookups := ⟨s.lookups.definitions.complete name answer, s.lookups.fetches⟩
      waiting := s.waiting.filter (!·.name == name)
      ready := s.ready ++ (s.waiting.filter (·.name == name)).map fun w =>
        .resume (w.next answer) } := by
  simp only [store, List.partition_eq_filter_filter]
  rfl

theorem underWay_store (s : State) (name : TypeName) (answer : Except ResolveError Definition) :
    (s.store name answer).underWay.Perm
      ((s.waiting.filter (·.name == name)).map (fun w => .resume (w.next answer)) ++
        s.underWay) := by
  rw [store_eq, underWay, underWay, List.append_assoc]
  exact List.perm_append_comm_assoc _ _ _

/-- Those who wait for a definition take their turns when it is known. -/
theorem steps_wake {name : TypeName} {answer : Except ResolveError Definition} {l : Lookups}
    (hget : l.definitions.get? name = some answer) {results : Multiset Finding}
    {ws : List Waiting} (hws : ∀ w ∈ ws, w.name = name) (ts : Multiset (Task Finding)) :
    Steps c ⟨.ofList (ws.map Waiting.task) + ts, l, results⟩
      ⟨.ofList (ws.map fun w => .running (w.next answer)) + ts, l, results⟩ := by
  induction ws generalizing ts with
  | nil => exact .refl
  | cons w ws ih =>
      obtain ⟨rfl, hws⟩ := List.forall_mem_cons.mp hws
      simp only [List.map_cons, ← Multiset.cons_coe, Multiset.cons_add]
      refine .head (.turn (.wake hget)) ?_
      rw [← Multiset.add_cons, ← Multiset.add_cons]
      exact ih hws _

theorem steps_store {s : State} {name : TypeName} {answer : Except ResolveError Definition}
    (hget : (s.lookups.definitions.complete name answer).get? name = some answer)
    (t : Task Finding) :
    Steps c
      ⟨t ::ₘ s.tasks, ⟨s.lookups.definitions.complete name answer, s.lookups.fetches⟩, s.findings⟩
      ((s.store name answer).poolWith t) := by
  -- all tasks but those that wait for the name; they stay as they are
  generalize hothers : (↑(s.underWay.map Ready.task) + ↑(s.queued.map Task.running) +
    ↑((s.waiting.filter (!·.name == name)).map Waiting.task) : Multiset (Task Finding)) = others
  have hbefore : s.tasks = ↑((s.waiting.filter (·.name == name)).map Waiting.task) + others := by
    rw [tasks, ← Multiset.coe_eq_coe.mpr ((waiting_perm s name).map Waiting.task), List.map_append,
      ← Multiset.coe_add, Multiset.add_comm (.ofList (List.map Waiting.task _)),
      ← Multiset.add_assoc, hothers, Multiset.add_comm]
  have hafter : (s.store name answer).tasks =
      ↑((s.waiting.filter (·.name == name)).map fun w => Task.running (w.next answer)) +
        others := by
    rw [tasks, Multiset.coe_eq_coe.mpr ((underWay_store s name answer).map Ready.task),
      List.map_append, List.map_map, ← Multiset.coe_add, Multiset.add_assoc, Multiset.add_assoc,
      ← hothers, Multiset.add_assoc, store_eq]
    rfl
  rw [hbefore, poolWith, hafter, ← Multiset.add_cons, ← Multiset.add_cons, store_eq]
  exact steps_wake hget (by simp) _

end State

/-- Nobody was told anything else than what arrives now. -/
def Ready.Settled (c : Catalog) (l : Lookups) : Ready → Prop
  | arrived kind name _ => ∀ answer, l.definitions.get? name = some answer →
      answer = c.define kind name
  | _ => True

namespace State

/-- What happens at a poll are turns, or nothing. -/
theorem steps_poll {s : State} {r : Ready} (h : r.Settled c s.lookups) :
    Steps c (s.poolWith r.task) (s.poll c r).pool := by
  cases r with
  | start job =>
      rw [poll]
      split
      · rw [pool, tasks_concat_queued]
        exact .refl
      · exact steps_advance c job { s with free := s.free - 1 }
  | resume job => exact steps_advance c job s
  | arrived kind name next =>
      have hget : (s.lookups.definitions.complete name (c.define kind name)).get? name =
          some (c.define kind name) := by
        cases hknown : s.lookups.definitions.get? name with
        | none => exact OnceMap.get?_complete_self _ hknown
        | some answer =>
            rw [OnceMap.complete_of_some _ hknown, hknown, h answer hknown]
      rw [poll]
      exact .head (.turn .arrive) ((steps_store hget _).trans (steps_advance c _ _))

/-! ## The whole schedule -/

variable {jobs : Multiset (Inquiry Finding)}

theorem pool_take {next : Ready} {rest : List Ready} (hready : s.ready = next :: rest) :
    ({ s with ready := rest } : State).poolWith next.task = s.pool := by
  have htasks : s.tasks = next.task ::ₘ ({ s with ready := rest } : State).tasks := by
    simp only [tasks, underWay, hready, List.cons_append, List.map_cons, ← Multiset.cons_coe,
      Multiset.cons_add]
  exact congrArg (Pool.mk · s.lookups s.findings) htasks.symm

theorem task_mem (t : Task Finding) (s : State) : t ∈ (s.poolWith t).tasks :=
  Multiset.mem_cons_self t s.tasks

theorem settled {r : Ready} (h : Sound c T jobs (s.poolWith r.task)) : r.Settled c s.lookups := by
  cases r with
  | start job => trivial
  | resume job => trivial
  | arrived kind name next =>
      intro answer hget
      have hfits := h.fits _ (task_mem _ s)
      rw [h.agrees name answer hget]
      exact hfits.1.symm

/-- **The schedule is one of the orders** in which the jobs can take their turns. -/
theorem steps_run (h : Sound c T jobs s.pool) (fuel : Nat) :
    Steps c s.pool (s.run c fuel).pool := by
  induction fuel generalizing s with
  | zero => exact .refl
  | succ fuel ih =>
      rw [run]
      split
      · rename_i next rest hready
        have hpool := pool_take hready
        have hpoll := steps_poll (settled (hpool ▸ h))
        rw [hpool] at hpoll
        exact hpoll.trans (ih (h.steps hpoll))
      · split
        · exact .refl
        · rw [← pool_wake] at h ⊢
          exact ih h

end State

/-! ## Its work -/

/-- How many polls it takes at most to bring a job to its end: two for every question, and one more
if it has not got a place yet. -/
def Ready.work (c : Catalog) (T : Answers) : Ready → Nat
  | start job => 2 * job.length c T + 2
  | resume job => 2 * job.length c T + 1
  | arrived _ name next => 2 * (next (T name)).length c T + 1

theorem Ready.work_pos (c : Catalog) (T : Answers) (r : Ready) : 0 < r.work c T := by
  cases r <;> simp [Ready.work]

def Waiting.work (c : Catalog) (T : Answers) (w : Waiting) : Nat :=
  2 * (w.next (T w.name)).length c T + 1

namespace State

/-- How often the schedule polls or moves the clock at most. -/
def work (c : Catalog) (T : Answers) (s : State) : Nat :=
  (s.ready.map (Ready.work c T)).sum + (s.asleep.map fun e => e.2.work c T + 1).sum +
    (s.queued.map fun job => 2 * job.length c T + 1).sum + (s.waiting.map (Waiting.work c T)).sum

variable {jobs : Multiset (Inquiry Finding)}

theorem work_concat_ready (s : State) (r : Ready) :
    ({ s with ready := s.ready ++ [r] } : State).work c T = s.work c T + r.work c T := by
  simp only [work, List.map_append, List.map_cons, List.map_nil, List.sum_append_nat,
    List.sum_cons, List.sum_nil]
  omega

theorem work_concat_asleep (s : State) (time : Nat) (r : Ready) :
    ({ s with asleep := s.asleep ++ [(time, r)] } : State).work c T =
      s.work c T + r.work c T + 1 := by
  simp only [work, List.map_append, List.map_cons, List.map_nil, List.sum_append_nat,
    List.sum_cons, List.sum_nil]
  omega

theorem work_concat_queued (s : State) (job : Inquiry Finding) :
    ({ s with queued := s.queued ++ [job] } : State).work c T =
      s.work c T + 2 * job.length c T + 1 := by
  simp only [work, List.map_append, List.map_cons, List.map_nil, List.sum_append_nat,
    List.sum_cons, List.sum_nil]
  omega

theorem work_concat_waiting (s : State) (w : Waiting) :
    ({ s with waiting := s.waiting ++ [w] } : State).work c T = s.work c T + w.work c T := by
  simp only [work, List.map_append, List.map_cons, List.map_nil, List.sum_append_nat,
    List.sum_cons, List.sum_nil]
  omega

theorem work_release (s : State) : s.release.work c T = s.work c T := by
  unfold release
  split
  · rename_i job rest hqueued
    rw [work_concat_ready { s with queued := rest }]
    simp only [work, hqueued, List.map_cons, List.sum_cons, Ready.work]
    omega
  · rfl

/-- A job leaves two polls for each of its questions at most. -/
theorem work_advance {job : Inquiry Finding} (hl : s.lookups.AgreesWith T) (hi : job.Fits c T) :
    (s.advance c job).work c T ≤ s.work c T + 2 * job.length c T := by
  induction job generalizing s with
  | done finding =>
      rw [advance, work_release]
      exact Nat.le_refl _
  | source package next ih =>
      rw [advance, Inquiry.length]
      split
      · exact (ih _ hl hi).trans (by omega)
      · rw [work_concat_asleep, Ready.work]
        omega
  | define kind name next ih =>
      obtain ⟨hanswer, hnext⟩ := hi
      rw [advance, Inquiry.length]
      split
      · rename_i answer hget
        rw [hl name answer hget]
        exact (ih _ hl hnext).trans (by omega)
      · split
        · rw [work_concat_waiting]
          simp only [Waiting.work]
          omega
        · split
          · have hl' : (s.lookups.define c kind name).2.AgreesWith T := hl.define hanswer
            have hvalue : (s.lookups.define c kind name).1 = T name :=
              hl' name _ (Lookups.get?_define_self c kind name s.lookups)
            have hrest := ih (T name)
              (s := { s with lookups := (s.lookups.define c kind name).2 }) hl' hnext
            rw [← hvalue] at hrest
            refine hrest.trans ?_
            rw [hvalue]
            simp only [work]
            omega
          · rw [work_concat_asleep { s with
              lookups := ⟨s.lookups.definitions.request name, s.lookups.fetches + 1⟩ }, Ready.work]
            simp only [work]
            omega

theorem work_store {name : TypeName} (s : State) :
    (s.store name (T name)).work c T = s.work c T := by
  -- who is woken has as much left as while waiting
  have hwoken : ((s.waiting.filter (·.name == name)).map
      (Ready.work c T ∘ fun w => .resume (w.next (T name)))) =
      (s.waiting.filter (·.name == name)).map (Waiting.work c T) := by
    refine List.map_congr_left fun w hw => ?_
    obtain rfl : w.name = name := by simpa using (List.mem_filter.mp hw).2
    rfl
  have hsum := ((waiting_perm s name).map (Waiting.work c T)).sum_nat
  rw [List.map_append, List.sum_append_nat] at hsum
  simp only [store_eq, work, List.map_append, List.map_map, List.sum_append_nat, hwoken]
  omega

/-- Every poll takes something off the work. -/
theorem work_poll {r : Ready} (h : Sound c T jobs (s.poolWith r.task)) :
    (s.poll c r).work c T < s.work c T + r.work c T := by
  have hfits : r.task.Fits c T := h.fits _ (task_mem _ s)
  cases r with
  | start job =>
      rw [poll, Ready.work]
      split
      · rw [work_concat_queued]
        omega
      · have hrest := work_advance (s := { s with free := s.free - 1 }) h.agrees hfits
        exact hrest.trans_lt (by simp only [work]; omega)
  | resume job =>
      rw [poll, Ready.work]
      exact (work_advance h.agrees hfits).trans_lt (by omega)
  | arrived kind name next =>
      obtain ⟨hanswer, hnext⟩ := hfits
      have hl : (s.store name (T name)).lookups.AgreesWith T := by
        have harrive : Turn c (.fetching kind name next) s.lookups (.running (next (T name)))
            ⟨s.lookups.definitions.complete name (T name), s.lookups.fetches⟩ :=
          hanswer ▸ .arrive
        rw [store_eq]
        exact harrive.agreesWith h.agrees ⟨hanswer, hnext⟩
      rw [poll, Ready.work, hanswer]
      have hrest := work_advance hl hnext
      rw [work_store] at hrest
      omega

theorem sum_map_succ {α : Type} (f : α → Nat) (l : List α) :
    (l.map fun a => f a + 1).sum = (l.map f).sum + l.length := by
  induction l with
  | nil => rfl
  | cons a l ih =>
      simp only [List.map_cons, List.sum_cons, List.length_cons, ih]
      omega

/-- When the clock moves on, somebody wakes up. -/
theorem work_wake (hasleep : s.asleep ≠ []) : s.wake.work c T < s.work c T := by
  obtain ⟨⟨time, first⟩, rest, hasleep⟩ := List.exists_cons_of_ne_nil hasleep
  have hfirst : 0 < (s.asleep.takeWhile (·.1 == time)).length := by simp [hasleep]
  have hsplit : s.asleep.takeWhile (·.1 == time) ++ s.asleep.dropWhile (·.1 == time) =
      s.asleep := List.takeWhile_append_dropWhile
  have hsum := congrArg (fun l => (l.map fun e => e.2.work c T + 1).sum) hsplit
  simp only [List.map_append, List.sum_append_nat] at hsum
  have hwoken := sum_map_succ (fun e => e.2.work c T) (s.asleep.takeWhile (·.1 == time))
  rw [wake_eq hasleep, work, work, List.map_append, List.sum_append_nat, List.map_map, ← hsum]
  simp only [Function.comp_def]
  omega

theorem underWay_eq_nil (hwork : s.work c T = 0) : s.underWay = [] := by
  have hready : s.ready = [] := by
    by_contra hsome
    obtain ⟨r, rest, hready⟩ := List.exists_cons_of_ne_nil hsome
    have hpos := r.work_pos c T
    simp only [work, hready, List.map_cons, List.sum_cons] at hwork
    omega
  have hasleep : s.asleep = [] := by
    by_contra hsome
    have hlt := work_wake (c := c) (T := T) hsome
    omega
  rw [underWay, hready, hasleep]
  rfl

/-- **With fuel for its work the schedule goes on** until no job can. -/
theorem underWay_run (h : Sound c T jobs s.pool) {fuel : Nat} (hfuel : s.work c T ≤ fuel) :
    (s.run c fuel).underWay = [] := by
  induction fuel generalizing s with
  | zero => exact underWay_eq_nil (Nat.le_zero.mp hfuel)
  | succ fuel ih =>
      rw [run]
      split
      · rename_i next rest hready
        have hpool := pool_take hready
        rw [← hpool] at h
        have hpoll := work_poll h
        have hwork : s.work c T = ({ s with ready := rest } : State).work c T + next.work c T := by
          simp only [work, hready, List.map_cons, List.sum_cons]
          omega
        exact ih (h.steps (steps_poll (settled h))) (by omega)
      · rename_i hready
        split
        · rename_i hasleep
          rw [underWay, hready, List.isEmpty_iff.mp hasleep]
          rfl
        · rename_i hasleep
          have hwake := work_wake (c := c) (T := T) (mt List.isEmpty_iff.mpr hasleep)
          exact ih (by rwa [pool_wake]) (by omega)

end State

/-! ## Its places -/

/-- A job has a place from its start to its end, also while it waits. -/
def Ready.placed : Ready → Bool
  | start _ => false
  | resume _ => true
  | arrived .. => true

namespace State

theorem countP_concat_asleep (s : State) (time : Nat) {r : Ready} (hr : r.placed) :
    ({ s with asleep := s.asleep ++ [(time, r)] } : State).underWay.countP Ready.placed =
      s.underWay.countP Ready.placed + 1 := by
  simp [underWay, List.countP_append, hr, Nat.add_assoc]

/-- All places are free, or have a job, `held` of them jobs that are not among the others at the
moment. There is a queue only if no place is free, and nobody waits for what is known. -/
structure Orderly (places held : Nat) (s : State) : Prop where
  placed : s.free + s.underWay.countP Ready.placed + s.waiting.length + held = places
  full : s.queued ≠ [] → s.free = 0
  hung : ∀ w ∈ s.waiting, s.lookups.definitions.requested w.name ∧
    s.lookups.definitions.get? w.name = none

namespace Orderly

variable {places held : Nat}

theorem start (workers : Nat) (jobs : List (Inquiry Finding)) :
    (start workers jobs).Orderly (max workers 1) 0 where
  placed := by
    have hnone : (jobs.map Ready.start).countP Ready.placed = 0 := by
      simp [List.countP_eq_zero, Ready.placed]
    simp [State.start, underWay, hnone]
  full h := absurd rfl h
  hung w hw := by cases hw

theorem release (h : s.Orderly places 1) : s.release.Orderly places 0 := by
  unfold State.release
  split
  · rename_i job rest hqueued
    have hfull := h.full (by simp [hqueued])
    refine ⟨?_, fun _ => hfull, h.hung⟩
    have hplaced := h.placed
    simp only [underWay, List.countP_append, List.countP_cons, List.countP_nil,
      Ready.placed] at hplaced ⊢
    simp only [if_true]
    omega
  · rename_i hqueued
    refine ⟨?_, fun hsome => absurd hqueued hsome, h.hung⟩
    have hplaced := h.placed
    simp only [underWay] at hplaced ⊢
    omega

/-- A job that goes on keeps its place, or gives it to the next one in the queue. -/
theorem advance (c : Catalog) (job : Inquiry Finding) (h : s.Orderly places 1) :
    (s.advance c job).Orderly places 0 := by
  induction job generalizing s with
  | done finding => exact release ⟨h.placed, h.full, h.hung⟩
  | source package next ih =>
      rw [State.advance]
      split
      · exact ih _ h
      · refine ⟨?_, h.full, h.hung⟩
        have hplaced := h.placed
        rw [countP_concat_asleep s _ rfl]
        simp only
        omega
  | define kind name next ih =>
      rw [State.advance]
      split
      · exact ih _ h
      · rename_i hget
        split
        · rename_i hrequested
          refine ⟨?_, h.full, ?_⟩
          · have hplaced := h.placed
            simp only [underWay, List.length_append, List.length_cons, List.length_nil]
              at hplaced ⊢
            omega
          · intro w hw
            rcases List.mem_append.mp hw with hw | hw
            · exact h.hung w hw
            · obtain rfl := List.mem_singleton.mp hw
              exact ⟨hrequested, hget⟩
        · rename_i hnew
          have hnew : s.lookups.definitions.requested name = false := by simpa using hnew
          -- nobody waits for a name that was never asked for
          have hne : ∀ w ∈ s.waiting, w.name ≠ name := by
            rintro w hw rfl
            rw [(h.hung w hw).1] at hnew
            cases hnew
          split
          · refine ih _ (s := { s with lookups := (s.lookups.define c kind name).2 })
              ⟨h.placed, h.full, fun w hw => ?_⟩
            rw [Lookups.requested_define, Lookups.get?_define_of_ne (hne w hw)]
            exact ⟨.inr (h.hung w hw).1, (h.hung w hw).2⟩
          · refine ⟨?_, h.full, fun w hw => ?_⟩
            · have hplaced := h.placed
              rw [countP_concat_asleep { s with
                lookups := ⟨s.lookups.definitions.request name, s.lookups.fetches + 1⟩ } _ rfl]
              simp only [underWay] at hplaced ⊢
              omega
            · rw [OnceMap.requested_request hnew, OnceMap.get?_request hnew]
              exact ⟨.inr (h.hung w hw).1, (h.hung w hw).2⟩

theorem store (name : TypeName) (answer : Except ResolveError Definition)
    (h : s.Orderly places held) : (s.store name answer).Orderly places held := by
  refine ⟨?_, ?_, ?_⟩
  · have hplaced := h.placed
    have hlength := (waiting_perm s name).length_eq
    have hwoken : ((s.waiting.filter (·.name == name)).map fun w =>
        Ready.resume (w.next answer)).countP Ready.placed =
        (s.waiting.filter (·.name == name)).length := by
      rw [List.countP_map]
      exact List.countP_eq_length.mpr fun _ _ => rfl
    rw [(underWay_store s name answer).countP_eq, List.countP_append, hwoken, store_eq]
    rw [List.length_append] at hlength
    simp only
    omega
  · rw [store_eq]
    exact h.full
  · rw [store_eq]
    intro w hw
    obtain ⟨hw, hname⟩ := List.mem_filter.mp hw
    have hne : w.name ≠ name := by simpa using hname
    rw [OnceMap.requested_complete, OnceMap.get?_complete_of_ne _ _ hne]
    exact ⟨.inr (h.hung w hw).1, (h.hung w hw).2⟩

theorem poll (c : Catalog) (r : Ready) (h : s.Orderly places r.placed.toNat) :
    (s.poll c r).Orderly places 0 := by
  cases r with
  | start job =>
      rw [State.poll]
      split
      · rename_i hfree
        exact ⟨h.placed, fun _ => hfree, h.hung⟩
      · rename_i hfree
        have hplaced := h.placed
        refine advance c job ⟨?_, fun hsome => absurd (h.full hsome) hfree, h.hung⟩
        simp only [underWay, Ready.placed, Bool.toNat_false] at hplaced ⊢
        omega
  | resume job => exact advance c job h
  | arrived kind name next => exact advance c _ (store name _ h)

theorem wake (h : s.Orderly places held) : s.wake.Orderly places held := by
  constructor
  · rw [underWay_wake, wake_free, wake_waiting]
    exact h.placed
  · rw [wake_free, wake_queued]
    exact h.full
  · rw [wake_waiting, wake_lookups]
    exact h.hung

theorem run (c : Catalog) (fuel : Nat) (h : s.Orderly places 0) :
    (s.run c fuel).Orderly places 0 := by
  induction fuel generalizing s with
  | zero => exact h
  | succ fuel ih =>
      rw [State.run]
      split
      · rename_i next rest hready
        refine ih (poll c next ⟨?_, h.full, h.hung⟩)
        have hplaced := h.placed
        simp only [underWay, hready, List.cons_append, List.countP_cons] at hplaced ⊢
        cases hnext : next.placed <;> simp [hnext] at hplaced ⊢ <;> omega
      · split
        · exact h
        · exact ih h.wake

end Orderly

/-- **When no job can go on, all are done**: whoever waits does so for a job that can, and a queue
would get the free places. -/
theorem tasks_eq_zero {jobs : Multiset (Inquiry Finding)} {s : State} {places : Nat}
    (hplaces : 0 < places) (horder : s.Orderly places 0) (hsound : Sound c T jobs s.pool)
    (hnone : s.underWay = []) : s.tasks = 0 := by
  have htasks : s.tasks = ↑(s.queued.map Task.running) + ↑(s.waiting.map Waiting.task) := by
    rw [tasks, hnone]
    rfl
  have hwaiting : s.waiting = [] := by
    refine List.eq_nil_iff_forall_not_mem.mpr fun w hw => ?_
    -- some task would be looking up what `w` waits for, but only such as wait are left
    obtain ⟨hrequested, hunknown⟩ := horder.hung w hw
    obtain ⟨kind, next, hmem⟩ := hsound.fetched w.name hrequested hunknown
    have hmem : Task.fetching kind w.name next ∈ s.tasks := hmem
    rw [htasks] at hmem
    simp [Waiting.task] at hmem
  have hqueued : s.queued = [] := by
    by_contra hsome
    have hfull := horder.full hsome
    have hplaced := horder.placed
    simp only [hnone, hwaiting, hfull, List.countP_nil, List.length_nil] at hplaced
    omega
  rw [htasks, hqueued, hwaiting]
  rfl

end State

theorem State.work_start (workers : Nat) (jobs : List (Inquiry Finding)) :
    (State.start workers jobs).work c T = (jobs.map fun i => 2 * i.length c T + 2).sum := by
  simp [State.work, State.start, Function.comp_def, Ready.work]

/-- The fuel is enough for jobs with a question for every member and one more. -/
theorem State.work_start_le {workers : Nat} {jobs : List (Inquiry Finding)}
    (hlength : ∀ i ∈ jobs, i.length c T ≤ c.memberCount + 1) :
    (State.start workers jobs).work c T ≤ fuelFor c jobs.length := by
  have hsum : ∀ n ∈ jobs.map fun i => 2 * i.length c T + 2, n ≤ 2 * (c.memberCount + 2) := by
    intro n hn
    obtain ⟨i, hi, rfl⟩ := List.mem_map.mp hn
    have hle := hlength i hi
    omega
  calc (State.start workers jobs).work c T
      = (jobs.map fun i => 2 * i.length c T + 2).sum := work_start workers jobs
    _ ≤ jobs.length * (2 * (c.memberCount + 2)) := by
        simpa using List.sum_le_card_nsmul _ _ hsum
    _ ≤ (jobs.length + 1) * (2 * (c.memberCount + 4)) :=
        Nat.mul_le_mul (Nat.le_succ _) (by omega)
    _ = fuelFor c jobs.length := by
        rw [fuelFor, Nat.mul_left_comm, Nat.mul_assoc]

/-- **The schedule brings all jobs to their end**, in one of the orders. -/
theorem run_complete (workers : Nat) {jobs : List (Inquiry Finding)}
    (hfits : ∀ i ∈ jobs, i.Fits c T)
    (hlength : ∀ i ∈ jobs, i.length c T ≤ c.memberCount + 1) :
    Steps c (Interleaving.start (jobs : Multiset (Inquiry Finding))) (run c workers jobs).pool ∧
      (run c workers jobs).tasks = 0 := by
  have hsound : Sound c T jobs (State.start workers jobs).pool := by
    rw [State.pool_start]
    exact sound_start fun i hi => hfits i (Multiset.mem_coe.mp hi)
  have hsteps := State.steps_run hsound (fuelFor c jobs.length)
  have hended : (run c workers jobs).underWay = [] :=
    State.underWay_run hsound (State.work_start_le hlength)
  have horder : (run c workers jobs).Orderly (max workers 1) 0 :=
    (State.Orderly.start workers jobs).run c _
  have hdone := State.tasks_eq_zero (by omega) horder (hsound.steps hsteps) hended
  rw [State.pool_start] at hsteps
  exact ⟨hsteps, hdone⟩

end RoutineBridge.Schedule
