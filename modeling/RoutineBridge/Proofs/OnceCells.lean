import Mathlib.Data.List.Basic
import Mathlib.Data.List.Induction

/-!
# Cells that are set once

Several callers ask a cell for its value. One of them computes it, the others wait; if the one that
computes is given up, another one starts over. How a cell decides who is next is not fixed here.
What is asked of it are rules about single steps (`OnceCell.Lawful`): nobody starts in a set cell or
while another one computes, only the end of a computation sets the cell, and a set cell stays as it
is. From these follows what holds after any number of steps in any order: at most one computation
has come to its end, and its result is the value of the cell (`Lawful.tidy_of_runs`); no call is
stuck (`Lawful.exists_leave`). A cell with a queue goes by the rules (`Queue.lawful_cell`).
-/

namespace RoutineBridge

/-- Steps that lead from one state to another, in order. -/
inductive Runs {σ ε : Type} (Step : σ → ε → σ → Prop) (s : σ) : List ε → σ → Prop
  | nil : Runs Step s [] s
  | concat {es : List ε} {t u : σ} {e : ε} (run : Runs Step s es t) (step : Step t e u) :
      Runs Step s (es ++ [e]) u

namespace Runs

variable {σ ε : Type} {Step : σ → ε → σ → Prop} {s t u : σ} {e : ε} {es es' : List ε}

theorem append (h : Runs Step s es t) (h' : Runs Step t es' u) : Runs Step s (es ++ es') u := by
  induction h' with
  | nil => rwa [List.append_nil]
  | concat _ step ih =>
      rw [← List.append_assoc]
      exact .concat ih step

theorem single (step : Step s e t) : Runs Step s [e] t := .concat .nil step

theorem cons (step : Step s e t) (h : Runs Step t es u) : Runs Step s (e :: es) u :=
  (single step).append h

theorem eq_of_nil (h : Runs Step s [] t) : t = s := by
  generalize hes : [] = es at h
  cases h with
  | nil => rfl
  | concat run step => exact absurd hes (by simp)

theorem of_concat (h : Runs Step s (es ++ [e]) u) : ∃ t, Runs Step s es t ∧ Step t e u := by
  generalize hes : es ++ [e] = all at h
  cases h with
  | nil => exact absurd hes (by simp)
  | concat run step =>
      obtain ⟨rfl, he⟩ := List.append_inj' hes rfl
      obtain rfl := List.singleton_inj.mp he
      exact ⟨_, run, step⟩

theorem of_append (h : Runs Step s (es ++ es') u) : ∃ t, Runs Step s es t ∧ Runs Step t es' u := by
  induction es' using List.reverseRecOn generalizing u with
  | nil =>
      rw [List.append_nil] at h
      exact ⟨u, h, .nil⟩
  | append_singleton es' e ih =>
      rw [← List.append_assoc] at h
      obtain ⟨t, hrun, hstep⟩ := h.of_concat
      obtain ⟨r, hfirst, hrest⟩ := ih hrun
      exact ⟨r, hfirst, .concat hrest hstep⟩

/-- A step of a run is made in some state on the way. -/
theorem of_mem (h : Runs Step s es u) (he : e ∈ es) :
    ∃ before after t t', es = before ++ e :: after ∧ Runs Step s before t ∧ Step t e t' ∧
      Runs Step t' after u := by
  obtain ⟨before, after, rfl⟩ := List.append_of_mem he
  rw [← List.singleton_append, ← List.append_assoc] at h
  obtain ⟨t', hbefore, hafter⟩ := h.of_append
  obtain ⟨t, hrun, hstep⟩ := hbefore.of_concat
  exact ⟨before, after, t, t', rfl, hrun, hstep, hafter⟩

end Runs

/-- What happens to a call that asks for the value of a cell. -/
inductive CallEvent (ι ν : Type) where
  /-- The call begins. -/
  | enter (i : ι)
  /-- The call starts to compute the value. -/
  | start (i : ι)
  /-- The computation of the call ends with a value. -/
  | finish (i : ι) (v : ν)
  /-- The call returns with a value. -/
  | leave (i : ι) (v : ν)
  /-- The call is given up before it returns. -/
  | cancel (i : ι)
deriving DecidableEq, Repr

namespace CallEvent

variable {ι ν : Type}

def caller : CallEvent ι ν → ι
  | enter i | start i | finish i _ | leave i _ | cancel i => i

/-- The result of a computation that ends. -/
def finished? : CallEvent ι ν → Option ν
  | finish _ v => some v
  | _ => none

theorem finished?_eq_some_iff {e : CallEvent ι ν} {v : ν} :
    e.finished? = some v ↔ ∃ i, e = finish i v := by
  cases e <;> simp [finished?]

end CallEvent

/-- A kind of cells: their states, what can be seen of a state, and how calls change it. -/
structure OnceCell (ι ν : Type) where
  State : Type
  fresh : State
  value? : State → Option ν
  /-- The call has begun, and has neither returned nor been given up. -/
  Inside : State → ι → Prop
  /-- The call is computing the value. -/
  Computes : State → ι → Prop
  Step : State → CallEvent ι ν → State → Prop

namespace OnceCell

variable {ι ν : Type}

/-- The rules that cells go by. -/
structure Lawful (C : OnceCell ι ν) : Prop where
  value?_fresh : C.value? C.fresh = none
  not_inside_fresh (i : ι) : ¬ C.Inside C.fresh i
  -- calls come and go
  inside_caller {s t e} (step : C.Step s e t) : (∃ i, e = .enter i) ∨ C.Inside s e.caller
  inside_enter {s t i} (step : C.Step s (.enter i) t) : C.Inside t i
  inside_cases {s t e i} (step : C.Step s e t) : C.Inside t i → C.Inside s i ∨ e = .enter i
  inside_stays {s t e i} (step : C.Step s e t) :
    C.Inside s i → C.Inside t i ∨ e = .cancel i ∨ ∃ v, e = .leave i v
  gone_cancel {s t i} (step : C.Step s (.cancel i) t) : ¬ C.Inside t i
  -- at most one computes at a time, and none in a set cell
  start_alone {s t i} (step : C.Step s (.start i) t) : C.value? s = none ∧ ∀ j, ¬ C.Computes s j
  computes_start {s t i} (step : C.Step s (.start i) t) : C.Computes t i
  computes_cases {s t e i} (step : C.Step s e t) : C.Computes t i → C.Computes s i ∨ e = .start i
  computes_inside {s i} : C.Computes s i → C.Inside s i
  computes_finish {s t i v} (step : C.Step s (.finish i v) t) : C.Computes s i ∧ ¬ C.Computes t i
  -- only the end of a computation sets the cell, and what is set stays
  set_finish {s t i v} (step : C.Step s (.finish i v) t) : C.value? s = none → C.value? t = some v
  set_cases {s t e v} (step : C.Step s e t) :
    C.value? s = none → C.value? t = some v → ∃ i, e = .finish i v
  set_once {s t e v} (step : C.Step s e t) : C.value? s = some v → C.value? t = some v
  value_leave {s t i v} (step : C.Step s (.leave i v) t) : C.value? s = some v
  -- what can always happen
  can_enter {s i} : ¬ C.Inside s i → ∃ t, C.Step s (.enter i) t
  can_start {s i} : C.value? s = none → (∀ j, ¬ C.Computes s j) → C.Inside s i →
    ∃ j, C.Inside s j ∧ ∃ t, C.Step s (.start j) t
  can_finish {s i} (v : ν) : C.Computes s i → ∃ t, C.Step s (.finish i v) t
  can_leave {s i v} : C.Inside s i → C.value? s = some v → ∃ t, C.Step s (.leave i v) t

/-- The results of the computations that have come to an end. -/
def finished (es : List (CallEvent ι ν)) : List ν := es.filterMap CallEvent.finished?

theorem mem_finished {es : List (CallEvent ι ν)} {v : ν} :
    v ∈ finished es ↔ ∃ i, .finish i v ∈ es := by
  simp only [finished, List.mem_filterMap, CallEvent.finished?_eq_some_iff]
  constructor
  · rintro ⟨e, he, i, rfl⟩
    exact ⟨i, he⟩
  · rintro ⟨i, he⟩
    exact ⟨_, he, i, rfl⟩

/-- One call computes at most, and only while the cell is empty; the value of the cell is the result
of the one computation that has ended. -/
structure Tidy (C : OnceCell ι ν) (es : List (CallEvent ι ν)) (s : C.State) : Prop where
  alone : ∀ i j, C.Computes s i → C.Computes s j → i = j
  empty : ∀ i, C.Computes s i → C.value? s = none
  finished_eq : finished es = (C.value? s).toList

/-- Every call was given up, and none of them came to the end of a computation. -/
structure GivenUp (es : List (CallEvent ι ν)) : Prop where
  cancelled : ∀ i before after, es = before ++ .enter i :: after → .cancel i ∈ after
  unfinished : finished es = []

namespace Lawful

variable {C : OnceCell ι ν} (hC : C.Lawful) {s t : C.State} {e : CallEvent ι ν}
  {es : List (CallEvent ι ν)} {i : ι} {v : ν}

include hC

theorem value?_eq_of_step (step : C.Step s e t) (h : e.finished? = none) :
    C.value? t = C.value? s := by
  cases hs : C.value? s with
  | some v => exact hC.set_once step hs
  | none =>
      cases ht : C.value? t with
      | none => rfl
      | some v =>
          rw [CallEvent.finished?_eq_some_iff.mpr (hC.set_cases step hs ht)] at h
          cases h

theorem value?_of_runs (h : Runs C.Step s es t) (hs : C.value? s = some v) :
    C.value? t = some v := by
  induction h with
  | nil => exact hs
  | concat run step ih => exact hC.set_once step ih

theorem tidy_fresh : C.Tidy [] C.fresh where
  alone i j hi := absurd (hC.computes_inside hi) (hC.not_inside_fresh i)
  empty i hi := absurd (hC.computes_inside hi) (hC.not_inside_fresh i)
  finished_eq := by
    rw [hC.value?_fresh]
    rfl

theorem tidy_step (h : C.Tidy es s) (step : C.Step s e t) : C.Tidy (es ++ [e]) t where
  alone i j hi hj := by
    rcases hC.computes_cases step hi with hi | rfl
    · rcases hC.computes_cases step hj with hj | rfl
      · exact h.alone i j hi hj
      · exact absurd hi ((hC.start_alone step).2 i)
    · rcases hC.computes_cases step hj with hj | hj
      · exact absurd hj ((hC.start_alone step).2 j)
      · exact (CallEvent.start.inj hj)
  empty i hi := by
    cases hfinished : e.finished? with
    | none =>
        rw [hC.value?_eq_of_step step hfinished]
        rcases hC.computes_cases step hi with hi | rfl
        · exact h.empty i hi
        · exact (hC.start_alone step).1
    | some v =>
        -- whoever computes after an end is the one whose computation has ended
        obtain ⟨j, rfl⟩ := CallEvent.finished?_eq_some_iff.mp hfinished
        obtain ⟨hj, hended⟩ := hC.computes_finish step
        rcases hC.computes_cases step hi with hi' | hi'
        · rw [h.alone i j hi' hj] at hi
          exact absurd hi hended
        · cases hi'
  finished_eq := by
    rw [finished, List.filterMap_append, ← finished, h.finished_eq]
    cases hfinished : e.finished? with
    | none => rw [hC.value?_eq_of_step step hfinished]; simp [hfinished]
    | some v =>
        obtain ⟨j, rfl⟩ := CallEvent.finished?_eq_some_iff.mp hfinished
        have hempty := h.empty j (hC.computes_finish step).1
        rw [hempty, hC.set_finish step hempty]
        rfl

/-- **A cell is set by the only computation that ends in it.** -/
theorem tidy_of_runs (h : Runs C.Step C.fresh es s) : C.Tidy es s := by
  induction h with
  | nil => exact hC.tidy_fresh
  | concat run step ih => exact hC.tidy_step ih step

/-- A computation that ends gives an empty cell its value; in a set cell none ends. -/
theorem finished_of_runs {es' : List (CallEvent ι ν)} (h : Runs C.Step C.fresh es s)
    (h' : Runs C.Step s es' t) : (C.value? s).toList ++ finished es' = (C.value? t).toList := by
  rw [← (hC.tidy_of_runs h).finished_eq, ← (hC.tidy_of_runs (h.append h')).finished_eq, finished,
    finished, finished, List.filterMap_append]

/-- What a call returns is the value of the cell from then on. -/
theorem value?_of_leave (h : Runs C.Step s es t) (hleave : .leave i v ∈ es) :
    C.value? t = some v := by
  obtain ⟨_, _, u, u', -, -, step, hafter⟩ := h.of_mem hleave
  exact hC.value?_of_runs hafter (hC.set_once step (hC.value_leave step))

/-- Whoever is inside was there from the start or has entered. -/
theorem entered_of_inside (h : Runs C.Step s es t) (ht : C.Inside t i) :
    C.Inside s i ∨ .enter i ∈ es := by
  induction h with
  | nil => exact .inl ht
  | concat run step ih =>
      rcases hC.inside_cases step ht with hinside | rfl
      · exact (ih hinside).imp_right (List.mem_append_left _)
      · exact .inr (by simp)

/-- Whoever ends a computation was inside from the start or has entered. -/
theorem entered_of_finish (h : Runs C.Step s es t) (hfinish : .finish i v ∈ es) :
    C.Inside s i ∨ .enter i ∈ es := by
  obtain ⟨before, after, u, u', rfl, hbefore, step, -⟩ := h.of_mem hfinish
  have hinside := hC.computes_inside (hC.computes_finish step).1
  exact (hC.entered_of_inside hbefore hinside).imp_right (List.mem_append_left _)

/-- Whoever is inside has not been given up since. -/
theorem exists_enter_of_inside (h : Runs C.Step C.fresh es s) (hinside : C.Inside s i) :
    ∃ before after, es = before ++ .enter i :: after ∧ .cancel i ∉ after := by
  induction h with
  | nil => exact absurd hinside (hC.not_inside_fresh i)
  | @concat es t u e run step ih =>
      rcases hC.inside_cases step hinside with hbefore | rfl
      · obtain ⟨before, after, rfl, hcancel⟩ := ih hbefore
        refine ⟨before, after ++ [e], by simp, ?_⟩
        rw [List.mem_append, List.mem_singleton]
        rintro (hmem | rfl)
        · exact hcancel hmem
        · exact hC.gone_cancel step hinside
      · exact ⟨es, [], rfl, List.not_mem_nil⟩

theorem idle_of_givenUp (h : Runs C.Step C.fresh es s) (hgivenUp : GivenUp es) (i : ι) :
    ¬ C.Inside s i := by
  intro hinside
  obtain ⟨before, after, hes, hcancel⟩ := hC.exists_enter_of_inside h hinside
  exact hcancel (hgivenUp.cancelled i before after hes)

theorem value?_of_givenUp (h : Runs C.Step C.fresh es s) (hgivenUp : GivenUp es) :
    C.value? s = none := by
  have hfinished := (hC.tidy_of_runs h).finished_eq
  rw [hgivenUp.unfinished] at hfinished
  cases hvalue : C.value? s with
  | none => rfl
  | some v => rw [hvalue] at hfinished; cases hfinished

/-- What is returned after all calls were given up was computed by one that came later. -/
theorem computed_later {es' : List (CallEvent ι ν)} (h : Runs C.Step C.fresh es s)
    (hgivenUp : GivenUp es) (h' : Runs C.Step s es' t) (hleave : .leave i v ∈ es') :
    ∃ j, .enter j ∈ es' ∧ .finish j v ∈ es' := by
  have hfinished := hC.finished_of_runs h h'
  rw [hC.value?_of_givenUp h hgivenUp, hC.value?_of_leave h' hleave] at hfinished
  have hmem : v ∈ finished es' := by
    rw [show finished es' = [v] from hfinished]
    exact List.mem_singleton_self v
  obtain ⟨j, hfinish⟩ := mem_finished.mp hmem
  rcases hC.entered_of_finish h' hfinish with hinside | henter
  · exact absurd hinside (hC.idle_of_givenUp h hgivenUp j)
  · exact ⟨j, henter, hfinish⟩

/-! ### What can come next -/

theorem stays_inside (step : C.Step s e t) (hinside : C.Inside s i) (hcancel : e ≠ .cancel i)
    (hleave : ∀ v, e ≠ .leave i v) : C.Inside t i := by
  rcases hC.inside_stays step hinside with h | h | ⟨v, h⟩
  · exact h
  · exact absurd h hcancel
  · exact absurd h (hleave v)

/-- When a computation ends, whoever is inside can return its result. -/
theorem exists_finish {j : ι} (hvalue : C.value? s = none) (hcomputes : C.Computes s j)
    (hinside : C.Inside s i) (v : ν) : ∃ t, Runs C.Step s [.finish j v, .leave i v] t := by
  obtain ⟨u, hfinish⟩ := hC.can_finish v hcomputes
  have hstays := hC.stays_inside hfinish hinside (by simp) (by simp)
  obtain ⟨t, hleave⟩ := hC.can_leave hstays (hC.set_finish hfinish hvalue)
  exact ⟨t, .cons hfinish (.single hleave)⟩

/-- **No call is stuck.** A call that is inside can be brought to its end without another one: with
the value of the cell, or, if there is none, with whatever a computation has to give. -/
theorem exists_leave (hinside : C.Inside s i) (v : ν) :
    ∃ es t, Runs C.Step s es t ∧ (∀ j, .enter j ∉ es) ∧
      .leave i ((C.value? s).getD v) ∈ es := by
  cases hvalue : C.value? s with
  | some w =>
      obtain ⟨t, hleave⟩ := hC.can_leave hinside hvalue
      exact ⟨_, t, .single hleave, by simp, by simp⟩
  | none =>
      by_cases hcomputes : ∃ j, C.Computes s j
      · obtain ⟨j, hj⟩ := hcomputes
        obtain ⟨t, hrun⟩ := hC.exists_finish hvalue hj hinside v
        exact ⟨_, t, hrun, by simp, by simp⟩
      · -- nobody computes: one of those who wait starts over
        rw [not_exists] at hcomputes
        obtain ⟨j, -, u, hstart⟩ := hC.can_start hvalue hcomputes hinside
        have hempty := (hC.value?_eq_of_step hstart rfl).trans hvalue
        have hstays := hC.stays_inside hstart hinside (by simp) (by simp)
        obtain ⟨t, hrun⟩ := hC.exists_finish hempty (hC.computes_start hstart) hstays v
        exact ⟨_, t, .cons hstart hrun, by simp, by simp⟩

/-- A call that finds an empty cell and nobody there can compute whatever it has to give. -/
theorem exists_compute (hvalue : C.value? s = none) (hidle : ∀ j, ¬ C.Inside s j) (i : ι) (v : ν) :
    ∃ t, Runs C.Step s [.enter i, .start i, .finish i v, .leave i v] t := by
  obtain ⟨u, henter⟩ := hC.can_enter (hidle i)
  have hempty := (hC.value?_eq_of_step henter rfl).trans hvalue
  -- nobody else has come in
  have halone : ∀ j, C.Inside u j → j = i := by
    intro j hj
    rcases hC.inside_cases henter hj with hj | hj
    · exact absurd hj (hidle j)
    · exact (CallEvent.enter.inj hj).symm
  have hquiet : ∀ j, ¬ C.Computes u j := by
    intro j hj
    rcases hC.computes_cases henter hj with hj | hj
    · exact hidle j (hC.computes_inside hj)
    · cases hj
  obtain ⟨j, hj, r, hstart⟩ := hC.can_start hempty hquiet (hC.inside_enter henter)
  obtain rfl := halone j hj
  have hcomputes := hC.computes_start hstart
  obtain ⟨t, hrun⟩ := hC.exists_finish ((hC.value?_eq_of_step hstart rfl).trans hempty) hcomputes
    (hC.computes_inside hcomputes) v
  exact ⟨t, .cons henter (.cons hstart hrun)⟩

end Lawful

end OnceCell

/-! ### Calls that wait in a queue -/

/-- A cell whose calls compute in the order they came. -/
inductive Queue (ι ν : Type) where
  /-- There is no value: the call that computes, if there is one, and those that wait. -/
  | pending (computing : Option ι) (waiting : List ι)
  /-- There is a value, which some calls have yet to return. -/
  | done (value : ν) (leaving : List ι)

namespace Queue

variable {ι ν : Type}

def value? : Queue ι ν → Option ν
  | pending _ _ => none
  | done v _ => some v

def computing? : Queue ι ν → Option ι
  | pending computing _ => computing
  | done _ _ => none

def members : Queue ι ν → List ι
  | pending computing waiting => computing.toList ++ waiting
  | done _ leaving => leaving

def push (i : ι) : Queue ι ν → Queue ι ν
  | pending computing waiting => pending computing (waiting ++ [i])
  | done v leaving => done v (leaving ++ [i])

theorem value?_push (s : Queue ι ν) (i : ι) : (s.push i).value? = s.value? := by cases s <;> rfl

theorem computing?_push (s : Queue ι ν) (i : ι) : (s.push i).computing? = s.computing? := by
  cases s <;> rfl

theorem mem_members_push {s : Queue ι ν} {i j : ι} :
    j ∈ (s.push i).members ↔ j ∈ s.members ∨ j = i := by
  cases s <;> simp [push, members, or_assoc]

theorem mem_members_of_computing? {s : Queue ι ν} {i : ι} (h : s.computing? = some i) :
    i ∈ s.members := by
  cases s with
  | pending computing waiting => simp [members, show computing = some i from h]
  | done => cases h

variable [DecidableEq ι]

def drop (i : ι) : Queue ι ν → Queue ι ν
  | pending computing waiting => pending (computing.filter (· ≠ i)) (waiting.filter (· ≠ i))
  | done v leaving => done v (leaving.filter (· ≠ i))

theorem value?_drop (s : Queue ι ν) (i : ι) : (s.drop i).value? = s.value? := by cases s <;> rfl

theorem computing?_drop {s : Queue ι ν} {i j : ι} :
    (s.drop i).computing? = some j ↔ s.computing? = some j ∧ j ≠ i := by
  cases s <;> simp [drop, computing?]

theorem mem_members_drop {s : Queue ι ν} {i j : ι} :
    j ∈ (s.drop i).members ↔ j ∈ s.members ∧ j ≠ i := by
  cases s <;> simp [drop, members, or_and_right]

inductive Step : Queue ι ν → CallEvent ι ν → Queue ι ν → Prop
  | enter {s : Queue ι ν} {i : ι} (h : i ∉ s.members) : Step s (.enter i) (s.push i)
  | start {i : ι} {waiting : List ι} :
      Step (pending none (i :: waiting)) (.start i) (pending (some i) waiting)
  | finish {i : ι} {v : ν} {waiting : List ι} :
      Step (pending (some i) waiting) (.finish i v) (done v (i :: waiting))
  | leave {i : ι} {v : ν} {leaving : List ι} (h : i ∈ leaving) :
      Step (done v leaving) (.leave i v) ((done v leaving).drop i)
  | cancel {s : Queue ι ν} {i : ι} (h : i ∈ s.members) : Step s (.cancel i) (s.drop i)

variable (ι ν) in
/-- Cells with a queue. -/
def cell : OnceCell ι ν where
  State := Queue ι ν
  fresh := pending none []
  value? := value?
  Inside s i := i ∈ s.members
  Computes s i := s.computing? = some i
  Step := Step

theorem lawful_cell : (cell ι ν).Lawful where
  value?_fresh := rfl
  not_inside_fresh i := List.not_mem_nil
  inside_caller step := by
    cases step with
    | enter h => exact .inl ⟨_, rfl⟩
    | start | finish => exact .inr List.mem_cons_self
    | leave h | cancel h => exact .inr h
  inside_enter step := by
    cases step with
    | enter h => exact mem_members_push.mpr (.inr rfl)
  inside_cases step hinside := by
    cases step with
    | enter h =>
        rcases mem_members_push.mp hinside with hinside | rfl
        · exact .inl hinside
        · exact .inr rfl
    | start | finish => exact .inl hinside
    | leave h | cancel h => exact .inl (mem_members_drop.mp hinside).1
  inside_stays {s t e i} step hinside := by
    cases step with
    | enter h => exact .inl (mem_members_push.mpr (.inl hinside))
    | start | finish => exact .inl hinside
    | @leave j v leaving h =>
        by_cases hi : i = j
        · exact .inr (.inr ⟨v, by rw [hi]⟩)
        · exact .inl (mem_members_drop.mpr ⟨hinside, hi⟩)
    | @cancel s j h =>
        by_cases hi : i = j
        · exact .inr (.inl (by rw [hi]))
        · exact .inl (mem_members_drop.mpr ⟨hinside, hi⟩)
  gone_cancel step hinside := by
    cases step with
    | cancel h => exact (mem_members_drop.mp hinside).2 rfl
  start_alone step := by
    cases step with
    | start => exact ⟨rfl, fun j hj => by cases hj⟩
  computes_start step := by
    cases step with
    | start => rfl
  computes_cases step hcomputes := by
    cases step with
    | enter h => exact .inl ((computing?_push _ _).symm.trans hcomputes)
    | start =>
        obtain rfl := Option.some.inj hcomputes
        exact .inr rfl
    | finish | leave h => cases hcomputes
    | cancel h => exact .inl (computing?_drop.mp hcomputes).1
  computes_inside := mem_members_of_computing?
  computes_finish step := by
    cases step with
    | finish => exact ⟨rfl, fun h => by cases h⟩
  set_finish step _ := by
    cases step with
    | finish => rfl
  set_cases step hempty hset := by
    cases step with
    | enter h => exact absurd (hempty.symm.trans ((value?_push _ _).symm.trans hset)) (by simp)
    | start => cases hset
    | finish =>
        obtain rfl := Option.some.inj hset
        exact ⟨_, rfl⟩
    | leave h => cases hempty
    | cancel h => exact absurd (hempty.symm.trans ((value?_drop _ _).symm.trans hset)) (by simp)
  set_once step hset := by
    cases step with
    | enter h => exact (value?_push _ _).trans hset
    | start | finish => cases hset
    | leave h => exact hset
    | cancel h => exact (value?_drop _ _).trans hset
  value_leave step := by
    cases step with
    | leave h => rfl
  can_enter h := ⟨_, .enter h⟩
  can_start {s i} hempty hquiet hinside := by
    cases s with
    | done v leaving => cases hempty
    | pending computing waiting =>
        cases computing with
        | some j => exact absurd rfl (hquiet j)
        | none =>
            cases waiting with
            | nil => exact absurd hinside List.not_mem_nil
            | cons j waiting => exact ⟨j, List.mem_cons_self, _, .start⟩
  can_finish {s i} v hcomputes := by
    cases s with
    | done w leaving => cases hcomputes
    | pending computing waiting =>
        obtain rfl : computing = some i := hcomputes
        exact ⟨_, .finish⟩
  can_leave {s i v} hinside hset := by
    cases s with
    | pending computing waiting => cases hset
    | done w leaving =>
        obtain rfl := Option.some.inj hset
        exact ⟨_, .leave hinside⟩

end Queue

end RoutineBridge
