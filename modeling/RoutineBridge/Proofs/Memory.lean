import RoutineBridge.Proofs.Walk

/-!
# What a resolver remembers

Every answer of a resolver is a walk from some memory of what earlier calls led to
(`resolve_after`). Definitions are remembered by name alone, so a call may find under a name what an
earlier call was told when it asked for the other kind of entry. This is the only way in which
earlier calls show (`resolve_independent`): without such a clash the result is always the same.
-/

namespace RoutineBridge

open Relation Inquiry

/-- A use that one of the calls leads to. -/
def Catalog.LedTo (c : Catalog) (calls : List Composite.Ref) (u : Composite.Ref) : Prop :=
  ∃ call ∈ calls, c.LeadsTo call u

namespace Resolver

variable {c : Catalog} {past : Composite.Ref → Prop} {m : Resolver} {u : Composite.Ref}

/-- The memory after a sequence of calls. -/
def after (c : Catalog) (calls : List Composite.Ref) : Resolver :=
  calls.foldl (fun m call => (m.resolve c call).2) empty

/-- Look-ups and resolutions go back to uses of `past`. -/
structure Remembers (c : Catalog) (past : Composite.Ref → Prop) (m : Resolver) : Prop where
  lookups : m.lookups.Recalls c past ∅
  resolutions : ∀ u answer, m.resolutions.get? u = some answer →
    ∃ l : Lookups, l.Recalls c past ∅ ∧ answer = ((resolution c.typeCount u).run.run c l).1

theorem remembers_empty : empty.Remembers c past where
  lookups := Lookups.recalls_empty
  resolutions u answer h := by cases h

/-- What a call gives is a walk, now or at the first call of this kind. -/
theorem Remembers.answer (h : m.Remembers c past) (u : Composite.Ref) :
    ∃ l : Lookups, l.Recalls c past ∅ ∧
      (m.resolve c u).1 = ((resolution c.typeCount u).run.run c l).1 := by
  unfold resolve
  split
  · rename_i answer hget
    exact h.resolutions u answer hget
  · exact ⟨m.lookups, h.lookups, rfl⟩

theorem Remembers.resolve (h : m.Remembers c past) (hu : ∀ v, c.LeadsTo u v → past v) :
    (m.resolve c u).2.Remembers c past := by
  unfold Resolver.resolve
  split
  · -- a repeated call adds nothing
    exact h
  · rename_i hnone
    refine ⟨(resolution_ensures le_rfl u).run_recalls h.lookups hu, fun v answer hget => ?_⟩
    by_cases hv : v = u
    · subst hv
      rw [OnceMap.get?_complete_self _ hnone] at hget
      exact ⟨m.lookups, h.lookups, (Option.some.inj hget).symm⟩
    · rw [OnceMap.get?_complete_of_ne _ _ hv] at hget
      exact h.resolutions v answer hget

/-- Calls that lead only to uses of `past` leave nothing else behind. -/
theorem Remembers.foldl_resolve {calls : List Composite.Ref} (h : m.Remembers c past)
    (hcalls : ∀ call ∈ calls, ∀ v, c.LeadsTo call v → past v) :
    (calls.foldl (fun m call => (m.resolve c call).2) m).Remembers c past := by
  induction calls generalizing m with
  | nil => exact h
  | cons call calls ih =>
      obtain ⟨hcall, hcalls⟩ := List.forall_mem_cons.mp hcalls
      exact ih (h.resolve hcall) hcalls

/-- A resolver remembers only what the calls led to. -/
theorem remembers_after (c : Catalog) (calls : List Composite.Ref) :
    (after c calls).Remembers c (c.LedTo calls) :=
  remembers_empty.foldl_resolve fun call hcall _ hv => ⟨call, hcall, hv⟩

/-- What a call gives after others is a walk from a memory of what those led to. -/
theorem resolve_after (c : Catalog) (calls : List Composite.Ref) (u : Composite.Ref) :
    ∃ l : Lookups, l.Recalls c (c.LedTo calls) ∅ ∧
      ((after c calls).resolve c u).1 = ((resolution c.typeCount u).run.run c l).1 :=
  (remembers_after c calls).answer u

/-- A call gives a whole resolution, fails on its own, or was given an answer that it cannot use. -/
theorem resolve_outcome (c : Catalog) (calls : List Composite.Ref) (u : Composite.Ref) :
    (∃ res, ((after c calls).resolve c u).1 = .ok res ∧ Resolution.Complete c u res) ∨
      ∃ e, ((after c calls).resolve c u).1 = .error e ∧
        (c.Fails u e ∨ Refused c (c.LeadsTo u) (c.LedTo calls) e) := by
  obtain ⟨l, hl, hanswer⟩ := resolve_after c calls u
  rw [hanswer]
  rcases (resolution_ensures le_rfl u).run hl with ⟨res, -, hres, hcomplete⟩ | herror
  · exact .inl ⟨res, hres, hcomplete⟩
  · exact .inr herror

theorem complete_of_ok {calls : List Composite.Ref} {res : Resolution}
    (h : ((after c calls).resolve c u).1 = .ok res) : Resolution.Complete c u res := by
  rcases resolve_outcome c calls u with ⟨res', hres, hcomplete⟩ | ⟨e, hres, -⟩
  · obtain rfl := Except.ok.inj (h.symm.trans hres)
    exact hcomplete
  · cases h.symm.trans hres

/-- **Earlier calls show only in clashes.** After any two sequences of calls the same call gives the
same, unless one of them left an error behind: for a name that the call leads to and that an earlier
call first led to as the other kind of entry. Then there was no such entry, or it is of that other
kind, or the look-up for that other kind failed. -/
theorem resolve_independent (c : Catalog) (calls₁ calls₂ : List Composite.Ref)
    (u : Composite.Ref) :
    ((after c calls₁).resolve c u).1 = ((after c calls₂).resolve c u).1 ∨
      (∃ e, ((after c calls₁).resolve c u).1 = .error e ∧
        Clashes c (c.LeadsTo u) (c.LedTo calls₁) e) ∨
      ∃ e, ((after c calls₂).resolve c u).1 = .error e ∧
        Clashes c (c.LeadsTo u) (c.LedTo calls₂) e := by
  obtain ⟨l₁, h₁, hanswer₁⟩ := resolve_after c calls₁ u
  obtain ⟨l₂, h₂, hanswer₂⟩ := resolve_after c calls₂ u
  rw [hanswer₁, hanswer₂]
  exact (resolution_ensures le_rfl u).run_eq_or_clashes h₁ h₂

/-- The failed look-up of a record is what a collection of that name gets afterwards. -/
example :
    let c : Catalog := {
      snapshot :=
        Snapshot.empty.withCollection ⟨"APP", "PKG", "K"⟩ { element := { dataKind := "NUMBER" } }
      outages := { lookups := [(⟨.record, ⟨"APP", "PKG", "K"⟩⟩, .unavailable "K")] } }
    let collection : Composite.Ref := ⟨.collection, ⟨"APP", "PKG", "K"⟩⟩
    ((after c []).resolve c collection).1.isOk ∧
      ((after c [⟨.record, ⟨"APP", "PKG", "K"⟩⟩]).resolve c collection).1 =
        .error (.catalog (.unavailable "K")) :=
  ⟨by decide +kernel, rfl⟩

/-- A record and nothing else. -/
def sampleRecord : Catalog where
  snapshot := Snapshot.empty.withRecord ⟨"APP", "PKG", "K"⟩ [{ name := "ID", dataKind := "NUMBER" }]

/-- A record is not found any more after it was asked for as a collection. -/
theorem resolve_clash_sample :
    ((after sampleRecord []).resolve sampleRecord ⟨.record, ⟨"APP", "PKG", "K"⟩⟩).1 ≠
      ((after sampleRecord [⟨.collection, ⟨"APP", "PKG", "K"⟩⟩]).resolve sampleRecord
        ⟨.record, ⟨"APP", "PKG", "K"⟩⟩).1 := by
  intro h
  have hfresh : ((after sampleRecord []).resolve sampleRecord
      ⟨.record, ⟨"APP", "PKG", "K"⟩⟩).1.isOk := by decide +kernel
  have hclash : ((after sampleRecord [⟨.collection, ⟨"APP", "PKG", "K"⟩⟩]).resolve sampleRecord
      ⟨.record, ⟨"APP", "PKG", "K"⟩⟩).1 = .error (.notFound ⟨"APP", "PKG", "K"⟩) := rfl
  rw [h, hclash] at hfresh
  cases hfresh

end Resolver

end RoutineBridge
