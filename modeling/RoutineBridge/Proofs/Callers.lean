import Mathlib.Data.List.Dedup
import RoutineBridge.Proofs.Extensionality
import RoutineBridge.Proofs.OnceCells

/-!
# Calls for the keys of a map

A map that computes each value once holds a cell for every key that was asked for. A call looks up
the cell of its key, or puts a fresh one there, and goes on in that cell; calls for one key and for
many may go on in any order and may be given up at any point. What happens at a key is what happens
in its cell alone (`runs_cellAt`, `exists_runs`), so what is known of a cell after any number of
steps holds of every key. The map as it is seen from outside (`known`) is then write-once
(`calls_writeOnce`), and calls for one key change it as `OnceMap.race` and `OnceMap.request` do.
-/

namespace RoutineBridge

namespace OnceMap

variable {κ ν : Type} [Ord κ] {m : OnceMap κ ν} {k : κ} {v : ν}

theorem completed_eq (m : OnceMap κ ν) : m.completed = (m.cells.filterMap id).entries := rfl

section Racing

variable [Std.TransOrd κ]

/-- Those who ask for a known value get it, and nothing is computed. -/
theorem race_of_get? (h : m.get? k = some v) (vs : List ν) :
    m.race k vs = (m, List.replicate vs.length v, 0) := by
  induction vs with
  | nil => rfl
  | cons w vs ih =>
      simp only [race, run, h, ih, List.length_cons, List.replicate_succ, Bool.toNat_false]

/-- Of several who ask for a value that is not known only the first one computes. -/
theorem race_of_none (h : m.get? k = none) (v : ν) (vs : List ν) :
    m.race k (v :: vs) = (m.complete k v, List.replicate (vs.length + 1) v, 1) := by
  simp only [race, run, h, race_of_get? (get?_complete_self v h), List.replicate_succ,
    Bool.toNat_true]

end Racing

variable [Std.LawfulEqOrd κ]

theorem mem_completed_iff : (k, v) ∈ m.completed ↔ m.get? k = some v := by
  rw [completed_eq, ← SortedMap.get?_eq_some_iff, SortedMap.get?_filterMap, get?,
    Option.join_eq_some_iff]
  simp

theorem nodup_completed (m : OnceMap κ ν) : (m.completed.map Prod.fst).Nodup := by
  rw [completed_eq]
  exact SortedMap.nodup_keys _

variable [Std.TransOrd κ]

/-- A value that is known is not changed by putting it there again. -/
theorem insert_of_get? (h : m.get? k = some v) : ⟨m.cells.insert k (some v)⟩ = m :=
  congrArg mk (SortedMap.insert_of_get? (Option.join_eq_some_iff.mp h))

theorem request_of_none (h : m.get? k = none) : m.request k = ⟨m.cells.insert k none⟩ := by
  cases hrequested : m.requested k with
  | false => exact request_of_not_requested hrequested
  | true =>
      obtain ⟨cell, hcell⟩ := requested_iff.mp hrequested
      rw [get?, hcell] at h
      obtain rfl : cell = none := h
      rw [SortedMap.insert_of_get? hcell, request, SortedMap.insertNew,
        if_pos (show m.cells.contains k from hrequested)]

end OnceMap

namespace OnceCell

variable {κ ι ν : Type}

section Events

variable {k j : κ} {e : CallEvent ι ν} {es es' : List (κ × CallEvent ι ν)}

/-- The keys that are asked for, one for each call. -/
def asked (es : List (κ × CallEvent ι ν)) : List κ :=
  es.filterMap fun e => match e.2 with
    | .enter _ => some e.1
    | _ => none

theorem asked_append : asked (es ++ es') = asked es ++ asked es' := List.filterMap_append

theorem mem_asked : k ∈ asked es ↔ ∃ i, (k, .enter i) ∈ es := by
  rw [asked, List.mem_filterMap]
  constructor
  · rintro ⟨⟨j, e⟩, hmem, he⟩
    cases e with
    | enter i =>
        obtain rfl := Option.some.inj he
        exact ⟨i, hmem⟩
    | start | finish | leave | cancel => cases he
  · rintro ⟨i, hmem⟩
    exact ⟨_, hmem, rfl⟩

variable [DecidableEq κ]

/-- What happens at a key. -/
def eventsAt (k : κ) (es : List (κ × CallEvent ι ν)) : List (CallEvent ι ν) :=
  es.filterMap fun e => if e.1 = k then some e.2 else none

@[simp]
theorem mem_eventsAt : e ∈ eventsAt k es ↔ (k, e) ∈ es := by
  simp only [eventsAt, List.mem_filterMap, Option.ite_none_right_eq_some, Option.some.injEq]
  constructor
  · rintro ⟨⟨j, e⟩, hmem, rfl, rfl⟩
    exact hmem
  · intro hmem
    exact ⟨(k, e), hmem, rfl, rfl⟩

theorem eventsAt_concat_self : eventsAt k (es ++ [(k, e)]) = eventsAt k es ++ [e] := by
  simp [eventsAt]

theorem eventsAt_concat_of_ne (h : j ≠ k) : eventsAt k (es ++ [(j, e)]) = eventsAt k es := by
  simp [eventsAt, h]

theorem eventsAt_map (es : List (CallEvent ι ν)) : eventsAt k (es.map (k, ·)) = es := by
  simp [eventsAt, List.filterMap_map]

theorem eventsAt_map_of_ne (h : j ≠ k) (es : List (CallEvent ι ν)) :
    eventsAt k (es.map (j, ·)) = [] := by
  simp [eventsAt, List.filterMap_map, h]

end Events

variable [Ord κ]

/-- The cell of a key; a key that was never asked for has a fresh one. -/
def cellAt (C : OnceCell ι ν) (m : SortedMap κ C.State) (k : κ) : C.State :=
  (m.get? k).getD C.fresh

/-- What can be seen of the cells of a map. -/
def known (C : OnceCell ι ν) (m : SortedMap κ C.State) : OnceMap κ ν := ⟨m.mapValues C.value?⟩

section Lookup

variable {C : OnceCell ι ν} {m : SortedMap κ C.State} {k : κ} {i : ι}

theorem get?_cells_known :
    (C.known m).cells.get? k = (m.get? k).map C.value? :=
  SortedMap.get?_mapValues C.value? m k

theorem requested_known : (C.known m).requested k = m.contains k := by
  rw [OnceMap.requested, SortedMap.contains, get?_cells_known, Option.isSome_map]
  rfl

theorem get?_of_contains (h : m.contains k) : m.get? k = some (C.cellAt m k) := by
  obtain ⟨s, hget⟩ := Option.isSome_iff_exists.mp h
  rw [cellAt, hget, Option.getD_some]

namespace Lawful

variable (hC : C.Lawful)

include hC

theorem get?_known (m : SortedMap κ C.State) (k : κ) :
    (C.known m).get? k = C.value? (C.cellAt m k) := by
  rw [OnceMap.get?, get?_cells_known, cellAt]
  cases m.get? k with
  | none => exact hC.value?_fresh.symm
  | some s => rfl

theorem contains_of_inside (h : C.Inside (C.cellAt m k) i) : m.contains k := by
  cases hget : m.get? k with
  | none =>
      rw [cellAt, hget] at h
      exact absurd h (hC.not_inside_fresh i)
  | some s => rw [SortedMap.contains, hget]; rfl

end Lawful

end Lookup

variable [Std.TransOrd κ]

/-- A call that begins looks up the cell of its key or adds one, and goes on in that cell. -/
inductive CallStep (C : OnceCell ι ν) (m : SortedMap κ C.State) :
    κ × CallEvent ι ν → SortedMap κ C.State → Prop
  | begin {k : κ} {i : ι} {t : C.State} (step : C.Step (C.cellAt m k) (.enter i) t) :
      CallStep C m (k, .enter i) (m.insert k t)
  | goOn {k : κ} {e : CallEvent ι ν} {s t : C.State} (found : m.get? k = some s)
      (step : C.Step s e t) : CallStep C m (k, e) (m.insert k t)

variable {C : OnceCell ι ν} {m m' : SortedMap κ C.State} {k : κ} {e : CallEvent ι ν}
  {es es' : List (κ × CallEvent ι ν)} {i : ι} {v w : ν}

/-- What happens at a key is a step of its cell. -/
theorem CallStep.exists_step (h : C.CallStep m (k, e) m') :
    ∃ t, C.Step (C.cellAt m k) e t ∧ m' = m.insert k t := by
  cases h with
  | begin step => exact ⟨_, step, rfl⟩
  | goOn found step =>
      refine ⟨_, ?_, rfl⟩
      rwa [cellAt, found]

/-- A step of the cell of a key can happen at the key. -/
theorem Lawful.callStep (hC : C.Lawful) {t : C.State} (step : C.Step (C.cellAt m k) e t) :
    C.CallStep m (k, e) (m.insert k t) := by
  rcases hC.inside_caller step with ⟨i, rfl⟩ | hinside
  · exact .begin step
  · exact .goOn (get?_of_contains (hC.contains_of_inside hinside)) step

theorem cellAt_insert_self (m : SortedMap κ C.State) (k : κ) (t : C.State) :
    C.cellAt (m.insert k t) k = t := by
  rw [cellAt, SortedMap.get?_insert_self, Option.getD_some]

variable [Std.LawfulEqOrd κ] {j : κ}

theorem cellAt_insert_of_ne (m : SortedMap κ C.State) (t : C.State) (h : j ≠ k) :
    C.cellAt (m.insert k t) j = C.cellAt m j := by
  rw [cellAt, SortedMap.get?_insert_of_ne _ _ h, cellAt]

theorem ext_cellAt {m n : SortedMap κ C.State} (hkeys : ∀ k, m.contains k ↔ n.contains k)
    (hcells : ∀ k, C.cellAt m k = C.cellAt n k) : m = n := by
  apply SortedMap.ext_get?
  intro k
  by_cases hm : m.contains k
  · rw [get?_of_contains hm, get?_of_contains ((hkeys k).mp hm), hcells k]
  · have hn : ¬ n.contains k := fun hn => hm ((hkeys k).mpr hn)
    rw [SortedMap.contains, Option.not_isSome_iff_eq_none] at hm hn
    rw [hm, hn]

theorem CallStep.contains_iff {e : κ × CallEvent ι ν} (h : C.CallStep m e m') :
    m'.contains j ↔ m.contains j ∨ j ∈ asked [e] := by
  cases h with
  | begin step =>
      rw [SortedMap.contains_insert, or_comm, mem_asked]
      simp
  | @goOn k e s t found step =>
      have hcontains : m.contains k := Option.isSome_iff_exists.mpr ⟨s, found⟩
      rw [SortedMap.contains_insert, mem_asked]
      constructor
      · rintro (rfl | h)
        · exact .inl hcontains
        · exact .inl h
      · rintro (h | ⟨i, h⟩)
        · exact .inr h
        · exact .inl (Prod.mk.inj (List.mem_singleton.mp h)).1

/-- The keys of the map are the keys that were asked for. -/
theorem contains_of_runs (h : Runs C.CallStep m es m') :
    m'.contains j ↔ m.contains j ∨ j ∈ asked es := by
  induction h with
  | nil => simp [asked]
  | concat run step ih => rw [step.contains_iff, ih, asked_append, List.mem_append, or_assoc]

theorem requested_known_iff (h : Runs C.CallStep .empty es m) :
    (C.known m).requested k ↔ ∃ i, (k, .enter i) ∈ es := by
  rw [requested_known, contains_of_runs h, mem_asked]
  exact or_iff_right Bool.false_ne_true

variable [DecidableEq κ]

/-- **At each key** the map goes on as the cell there does on its own. -/
theorem runs_cellAt (h : Runs C.CallStep m es m') (k : κ) :
    Runs C.Step (C.cellAt m k) (eventsAt k es) (C.cellAt m' k) := by
  induction h with
  | nil => exact .nil
  | @concat es m₁ m₂ e run step ih =>
      obtain ⟨j, e⟩ := e
      obtain ⟨t, hstep, rfl⟩ := step.exists_step
      by_cases hj : j = k
      · subst hj
        rw [eventsAt_concat_self, cellAt_insert_self]
        exact .concat ih hstep
      · rw [eventsAt_concat_of_ne hj, cellAt_insert_of_ne _ _ (Ne.symm hj)]
        exact ih

/-- **Cells that go on on their own** make up a map that does, whatever the order of the steps. -/
theorem Lawful.exists_runs (hC : C.Lawful) {s : κ → C.State}
    (h : ∀ k, Runs C.Step (C.cellAt m k) (eventsAt k es) (s k)) :
    ∃ m', Runs C.CallStep m es m' ∧ ∀ k, C.cellAt m' k = s k := by
  induction es using List.reverseRecOn generalizing s with
  | nil => exact ⟨m, .nil, fun k => (h k).eq_of_nil.symm⟩
  | append_singleton es e ih =>
      obtain ⟨k, e⟩ := e
      have hlast := h k
      rw [eventsAt_concat_self] at hlast
      obtain ⟨t, hrun, hstep⟩ := hlast.of_concat
      -- all other cells have come to their last state before the last step
      have hbefore : ∀ j, Runs C.Step (C.cellAt m j) (eventsAt j es) (Function.update s k t j) := by
        intro j
        by_cases hj : j = k
        · rw [hj, Function.update_self]
          exact hrun
        · rw [Function.update_of_ne hj, ← eventsAt_concat_of_ne (Ne.symm hj)]
          exact h j
      obtain ⟨m', hm', hcells⟩ := ih hbefore
      have hcell := hcells k
      rw [Function.update_self] at hcell
      rw [← hcell] at hstep
      refine ⟨_, .concat hm' (hC.callStep hstep), fun j => ?_⟩
      by_cases hj : j = k
      · rw [hj, cellAt_insert_self]
      · rw [cellAt_insert_of_ne _ _ hj, hcells j, Function.update_of_ne hj]

/-- Steps at different keys may be made in any order. -/
theorem Lawful.runs_congr (hC : C.Lawful) (h : Runs C.CallStep m es m')
    (hevents : ∀ k, eventsAt k es' = eventsAt k es) : Runs C.CallStep m es' m' := by
  have hcells : ∀ k, Runs C.Step (C.cellAt m k) (eventsAt k es') (C.cellAt m' k) := by
    intro k
    rw [hevents k]
    exact runs_cellAt h k
  obtain ⟨m'', hrun, hsame⟩ := hC.exists_runs hcells
  have hasked : ∀ k, k ∈ asked es' ↔ k ∈ asked es := by
    intro k
    simp only [mem_asked, ← mem_eventsAt, hevents k]
  have hkeys : ∀ k, m''.contains k ↔ m'.contains k := by
    intro k
    rw [contains_of_runs hrun, contains_of_runs h, hasked k]
  obtain rfl := ext_cellAt hkeys hsame
  exact hrun

/-! ### Calls for one key -/

/-- Steps at one key leave all others as they are. -/
theorem get?_of_runs (h : Runs C.CallStep m es m') (hkey : eventsAt k es = []) :
    m'.get? k = m.get? k := by
  induction h with
  | nil => rfl
  | @concat es m₁ m₂ e run step ih =>
      obtain ⟨j, e⟩ := e
      obtain ⟨t, -, rfl⟩ := step.exists_step
      by_cases hj : j = k
      · subst hj
        rw [eventsAt_concat_self] at hkey
        exact absurd hkey (by simp)
      · rw [eventsAt_concat_of_ne hj] at hkey
        rw [SortedMap.get?_insert_of_ne _ _ (Ne.symm hj), ih hkey]

/-- A step in the cell of a key can be made at the key. -/
theorem Lawful.exists_runs_at (hC : C.Lawful) {es : List (CallEvent ι ν)} {t : C.State}
    (h : Runs C.Step (C.cellAt m k) es t) :
    ∃ m', Runs C.CallStep m (es.map (k, ·)) m' ∧ C.cellAt m' k = t := by
  have hcells : ∀ j, Runs C.Step (C.cellAt m j) (eventsAt j (es.map (k, ·)))
      (Function.update (C.cellAt m) k t j) := by
    intro j
    by_cases hj : j = k
    · subst hj
      rwa [eventsAt_map, Function.update_self]
    · rw [eventsAt_map_of_ne (Ne.symm hj), Function.update_of_ne hj]
      exact .nil
  obtain ⟨m', hrun, hsame⟩ := hC.exists_runs hcells
  refine ⟨m', hrun, ?_⟩
  rw [hsame k, Function.update_self]

/-- Steps at one key change what is known of that key only. -/
theorem known_of_runs {es : List (CallEvent ι ν)} (h : Runs C.CallStep m (es.map (k, ·)) m')
    (hkey : m'.contains k) :
    C.known m' = ⟨(C.known m).cells.insert k (C.value? (C.cellAt m' k))⟩ := by
  refine congrArg OnceMap.mk (SortedMap.ext_get? fun j => ?_)
  have hcells : (m'.mapValues C.value?).get? j = (m'.get? j).map C.value? := get?_cells_known
  rw [hcells]
  by_cases hj : j = k
  · rw [hj, SortedMap.get?_insert_self, get?_of_contains hkey, Option.map_some]
  · rw [SortedMap.get?_insert_of_ne _ _ hj, get?_cells_known,
      get?_of_runs h (eventsAt_map_of_ne (Ne.symm hj) es)]

/-- Calls for a key of which none computes a value leave behind what a request does. -/
theorem Lawful.request_of_runs (hC : C.Lawful) {es : List (CallEvent ι ν)}
    (h : Runs C.CallStep m (es.map (k, ·)) m') (hes : es ≠ [])
    (hempty : (C.known m').get? k = none) : C.known m' = (C.known m).request k := by
  have hkey : m'.contains k := by
    obtain ⟨es, e, rfl⟩ := (List.eq_nil_or_concat es).resolve_left hes
    rw [List.concat_eq_append, List.map_append] at h
    obtain ⟨m₁, -, step⟩ := h.of_concat
    obtain ⟨t, -, rfl⟩ := step.exists_step
    exact (SortedMap.contains_insert _ _ _ _).mpr (.inl rfl)
  have hbefore : (C.known m).get? k = none := by
    rw [hC.get?_known, Option.eq_none_iff_forall_ne_some]
    intro v hvalue
    rw [hC.get?_known, hC.value?_of_runs (runs_cellAt h k) hvalue] at hempty
    cases hempty
  rw [OnceMap.request_of_none hbefore, known_of_runs h hkey, ← hC.get?_known, hempty]

/-- **Calls for a key**, in whatever order they go on, get what the callers of a race get, and do to
the map what the race does: the first one is the one whose computation ends. -/
theorem Lawful.race_of_runs (hC : C.Lawful) {es₀ : List (κ × CallEvent ι ν)}
    {es : List (CallEvent ι ν)} (h₀ : Runs C.CallStep .empty es₀ m)
    (h : Runs C.CallStep m (es.map (k, ·)) m') (hvalue : (C.known m').get? k = some w)
    (ws : List ν) : (C.known m).race k (w :: ws) =
      (C.known m', List.replicate (ws.length + 1) w, (finished es).length) := by
  have hkey : m'.contains k := by
    rw [← requested_known (C := C)]
    exact OnceMap.requested_of_get? hvalue
  have hfinished := hC.finished_of_runs (runs_cellAt h₀ k) (runs_cellAt h k)
  rw [← hC.get?_known, ← hC.get?_known, hvalue, eventsAt_map] at hfinished
  have hknown := known_of_runs h hkey
  rw [← hC.get?_known, hvalue] at hknown
  cases hbefore : (C.known m).get? k with
  | none =>
      rw [hbefore] at hfinished
      rw [OnceMap.race_of_none hbefore, OnceMap.complete_of_none w hbefore, ← hknown,
        show finished es = [w] from hfinished, List.length_singleton]
  | some u =>
      rw [hbefore] at hfinished
      obtain ⟨rfl, hnone : finished es = []⟩ := List.cons.inj hfinished
      rw [OnceMap.race_of_get? hbefore, hknown, OnceMap.insert_of_get? hbefore, hnone]
      rfl

/-! ### Write-once maps -/

section Reports

variable (h : Runs C.CallStep .empty es m)

include h

theorem size_known : (C.known m).size = (asked es).dedup.length := by
  have hperm : (C.known m).cells.keys.Perm (asked es).dedup := by
    rw [List.perm_ext_iff_of_nodup (SortedMap.nodup_keys _) (List.nodup_dedup _)]
    intro k
    rw [← SortedMap.contains_iff_mem_keys, List.mem_dedup, mem_asked]
    exact requested_known_iff h
  rw [← hperm.length_eq, SortedMap.keys, List.length_map]
  rfl

variable (hC : C.Lawful)

include hC

theorem Lawful.finished_eq (k : κ) : finished (eventsAt k es) = ((C.known m).get? k).toList := by
  rw [hC.get?_known]
  exact (hC.tidy_of_runs (runs_cellAt h k)).finished_eq

theorem Lawful.get?_known_iff : (C.known m).get? k = some v ↔ ∃ i, (k, .finish i v) ∈ es := by
  have hmem : v ∈ finished (eventsAt k es) ↔ ∃ i, .finish i v ∈ eventsAt k es := mem_finished
  rw [hC.finished_eq h, Option.mem_toList] at hmem
  simp only [mem_eventsAt] at hmem
  exact hmem

theorem Lawful.get?_of_leave (hleave : (k, .leave i v) ∈ es) : (C.known m).get? k = some v := by
  rw [hC.get?_known]
  exact hC.value?_of_leave (runs_cellAt h k) (mem_eventsAt.mpr hleave)

end Reports

/-- What a map has to say after the steps that led to it, and what can come next. -/
structure WriteOnce (C : OnceCell ι ν) (es : List (κ × CallEvent ι ν))
    (m : SortedMap κ C.State) : Prop where
  /-- At most one computation for a key comes to its end. -/
  computed_once (k : κ) : (finished (eventsAt k es)).length ≤ 1
  /-- Whoever returns has the value that was computed, be it a failure. -/
  returned (k : κ) (i : ι) (v : ν) : (k, .leave i v) ∈ es → finished (eventsAt k es) = [v]
  get?_iff (k : κ) (v : ν) : (C.known m).get? k = some v ↔ ∃ i, (k, .finish i v) ∈ es
  completed_iff (k : κ) (v : ν) : (k, v) ∈ (C.known m).completed ↔ ∃ i, (k, .finish i v) ∈ es
  completed_nodup : ((C.known m).completed.map Prod.fst).Nodup
  requested_iff (k : κ) : (C.known m).requested k ↔ ∃ i, (k, .enter i) ∈ es
  /-- Keys count from the first call on, whatever becomes of it. -/
  size_eq : (C.known m).size = (asked es).dedup.length
  /-- A value that is set stays. -/
  kept {es' : List (κ × CallEvent ι ν)} {m' : SortedMap κ C.State} (k : κ) (v : ν) :
    Runs C.CallStep m es' m' → (C.known m).get? k = some v → (C.known m').get? k = some v
  /-- Whoever waits can be served without another call. -/
  served (k : κ) (i : ι) (v : ν) : C.Inside (C.cellAt m k) i →
    ∃ (es' : List (CallEvent ι ν)) (m' : _), Runs C.CallStep m (es'.map (k, ·)) m' ∧
      (∀ j, .enter j ∉ es') ∧ .leave i (((C.known m).get? k).getD v) ∈ es'
  /-- A key whose calls were all given up can be computed by whoever asks next … -/
  retried (k : κ) (i : ι) (v : ν) : GivenUp (eventsAt k es) →
    ∃ m', Runs C.CallStep m
      [(k, .enter i), (k, .start i), (k, .finish i v), (k, .leave i v)] m'
  /-- … and what is returned for it is computed by one who asks later. -/
  retaken {es' : List (κ × CallEvent ι ν)} {m' : SortedMap κ C.State} (k : κ) (i : ι) (v : ν) :
    GivenUp (eventsAt k es) → Runs C.CallStep m es' m' → (k, .leave i v) ∈ es' →
      ∃ j, (k, .enter j) ∈ es' ∧ (k, .finish j v) ∈ es'
  /-- Calls for one key do to the map what the callers of a race do … -/
  raced {es' : List (CallEvent ι ν)} {m' : SortedMap κ C.State} (k : κ) (v : ν) (vs : List ν) :
    Runs C.CallStep m (es'.map (k, ·)) m' → (C.known m').get? k = some v →
      (C.known m).race k (v :: vs) =
        (C.known m', List.replicate (vs.length + 1) v, (finished es').length) ∧
      ∀ i w, .leave i w ∈ es' → w = v
  /-- … and, if none of them computes, what a request does. -/
  requested {es' : List (CallEvent ι ν)} {m' : SortedMap κ C.State} (k : κ) :
    Runs C.CallStep m (es'.map (k, ·)) m' → es' ≠ [] → (C.known m').get? k = none →
      C.known m' = (C.known m).request k
  /-- Each key has come to its cell by what has happened there alone. -/
  apart (k : κ) : Runs C.Step C.fresh (eventsAt k es) (C.cellAt m k)
  /-- What can come next is decided at each key by its cell alone. -/
  combined {es' : List (κ × CallEvent ι ν)} {s : κ → C.State} :
    (∀ k, Runs C.Step (C.cellAt m k) (eventsAt k es') (s k)) →
      ∃ m', Runs C.CallStep m es' m' ∧ ∀ k, C.cellAt m' k = s k
  /-- The map does not depend on the order of steps at different keys. -/
  reordered {es' : List (κ × CallEvent ι ν)} :
    (∀ k, eventsAt k es' = eventsAt k es) → Runs C.CallStep .empty es' m
  /-- Steps at other keys change nothing of a key. -/
  untouched {es' : List (κ × CallEvent ι ν)} {m' : SortedMap κ C.State} (k : κ) :
    Runs C.CallStep m es' m' → eventsAt k es' = [] → m'.get? k = m.get? k

/-- **Maps of cells that are set once are write-once**, in whatever order calls for their keys
begin, wait, compute, return or are given up. -/
theorem calls_writeOnce (hC : C.Lawful) (h : Runs C.CallStep .empty es m) : WriteOnce C es m where
  computed_once k := by
    rw [hC.finished_eq h]
    cases (C.known m).get? k <;> simp
  returned k i v hleave := by
    rw [hC.finished_eq h, hC.get?_of_leave h hleave]
    rfl
  get?_iff k v := hC.get?_known_iff h
  completed_iff k v := by rw [OnceMap.mem_completed_iff, hC.get?_known_iff h]
  completed_nodup := OnceMap.nodup_completed _
  requested_iff k := requested_known_iff h
  size_eq := size_known h
  kept k v hrun hvalue := by
    rw [hC.get?_known] at hvalue ⊢
    exact hC.value?_of_runs (runs_cellAt hrun k) hvalue
  served k i v hinside := by
    obtain ⟨es', t, hrun, henter, hleave⟩ := hC.exists_leave hinside v
    obtain ⟨m', hm', -⟩ := hC.exists_runs_at hrun
    rw [hC.get?_known]
    exact ⟨es', m', hm', henter, hleave⟩
  retried k i v hgivenUp := by
    have hrun := runs_cellAt h k
    obtain ⟨t, hcompute⟩ := hC.exists_compute (hC.value?_of_givenUp hrun hgivenUp)
      (hC.idle_of_givenUp hrun hgivenUp) i v
    obtain ⟨m', hm', -⟩ := hC.exists_runs_at hcompute
    exact ⟨m', hm'⟩
  retaken k i v hgivenUp hrun hleave := by
    obtain ⟨j, henter, hfinish⟩ := hC.computed_later (runs_cellAt h k) hgivenUp
      (runs_cellAt hrun k) (mem_eventsAt.mpr hleave)
    exact ⟨j, mem_eventsAt.mp henter, mem_eventsAt.mp hfinish⟩
  raced {es' m'} k v vs hrun hvalue := by
    refine ⟨hC.race_of_runs h hrun hvalue vs, fun i w hleave => ?_⟩
    rw [← eventsAt_map (k := k) es'] at hleave
    rw [hC.get?_known, hC.value?_of_leave (runs_cellAt hrun k) hleave] at hvalue
    exact Option.some.inj hvalue
  requested k hrun hes hempty := hC.request_of_runs hrun hes hempty
  apart k := runs_cellAt h k
  combined hcells := hC.exists_runs hcells
  reordered hevents := hC.runs_congr h hevents
  untouched k hrun hkey := get?_of_runs hrun hkey

/-- Two calls for one key, of which the first is given up while the other one waits, and a call for
another key that is given up as well. The value of the first key is a failure, which a late call
gets too. -/
def sampleCalls : List (Nat × CallEvent Nat (Except String Nat)) :=
  [(7, .enter 1), (7, .start 1), (7, .enter 2), (3, .enter 4), (7, .cancel 1), (3, .cancel 4),
    (7, .start 2), (7, .finish 2 (.error "boom")), (7, .leave 2 (.error "boom")), (7, .enter 3),
    (7, .leave 3 (.error "boom"))]

theorem calls_writeOnce_sample : ∃ m, WriteOnce (Queue.cell Nat (Except String Nat)) sampleCalls m ∧
    GivenUp (eventsAt 3 sampleCalls) ∧ ((Queue.cell _ _).known m).size = 2 := by
  have hrun : ∃ m, Runs (Queue.cell Nat (Except String Nat)).CallStep .empty sampleCalls m ∧
      ((Queue.cell _ _).known m).size = 2 :=
    ⟨_, .cons (.begin (.enter (by decide))) <| .cons (.goOn rfl .start) <|
      .cons (.goOn rfl (.enter (by decide))) <| .cons (.begin (.enter (by decide))) <|
      .cons (.goOn rfl (.cancel (by decide))) <| .cons (.goOn rfl (.cancel (by decide))) <|
      .cons (.goOn rfl .start) <| .cons (.goOn rfl .finish) <|
      .cons (.goOn rfl (.leave (by decide))) <| .cons (.goOn rfl (.enter (by decide))) <|
      .single (.goOn rfl (.leave (by decide))), rfl⟩
  have hgivenUp : GivenUp (eventsAt 3 sampleCalls) := by
    refine ⟨fun i before after h => ?_, rfl⟩
    have hevents : [.enter 4, .cancel 4] = before ++ .enter i :: after := h
    rcases before with _ | ⟨e, _ | ⟨e', before⟩⟩
    · obtain ⟨henter, rfl⟩ := List.cons.inj hevents
      obtain rfl := CallEvent.enter.inj henter
      exact List.mem_singleton_self _
    · cases (List.cons.inj (List.cons.inj hevents).2).1
    · simp at hevents
  obtain ⟨m, hrun, hsize⟩ := hrun
  exact ⟨m, calls_writeOnce Queue.lawful_cell hrun, hgivenUp, hsize⟩

end OnceCell

end RoutineBridge
