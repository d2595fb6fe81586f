import Mathlib.Data.Set.Insert
import RoutineBridge.Proofs.References

/-!
# What inquiries come to

An inquiry is a tree of questions, and what it comes to depends on who answers: a catalog, or the
memory of earlier inquiries. `Ensures` says what holds at the ends of the tree whoever answers, as
long as every answer is an entry of the catalog; `Ensures.run` carries it over to runs.

No name is asked for twice within one inquiry, so memory makes a difference only where an earlier
inquiry asked for the same name with a different kind (`Ensures.run_eq_or_clashes`).
-/

namespace RoutineBridge

open Relation

/-! ## Memory -/

namespace Lookups

variable {c : Catalog} {past past' : Composite.Ref → Prop} {seen seen' : Set TypeName}
  {l : Lookups}

/-- What is remembered about the names outside `seen` was answered to a use of `past`. -/
def Recalls (c : Catalog) (past : Composite.Ref → Prop) (seen : Set TypeName) (l : Lookups) :
    Prop :=
  ∀ n ∉ seen, ∀ answer, l.definitions.get? n = some answer →
    ∃ u, past u ∧ u.name = n ∧ answer = c.define u.kind.stored n

theorem recalls_empty : Recalls c past seen empty := by
  intro n _ answer h
  cases h

theorem Recalls.mono (h : l.Recalls c past seen) (hpast : ∀ u, past u → past' u)
    (hseen : seen ⊆ seen') : l.Recalls c past' seen' := by
  intro n hn answer hget
  obtain ⟨u, hu, hname, hanswer⟩ := h n (fun hmem => hn (hseen hmem)) answer hget
  exact ⟨u, hpast u hu, hname, hanswer⟩

/-- An answer to a use is the answer of the catalog to this use or to one of `past`. -/
theorem Recalls.answer (h : l.Recalls c past seen) {u : Composite.Ref} (hu : u.name ∉ seen) :
    ∃ v, (v = u ∨ past v) ∧ v.name = u.name ∧
      (l.define c u.kind.stored u.name).1 = c.define v.kind.stored u.name := by
  unfold define
  split
  · rename_i answer hget
    obtain ⟨v, hv, hname, hanswer⟩ := h u.name hu answer hget
    exact ⟨v, .inr hv, hname, hanswer⟩
  · exact ⟨u, .inl rfl, rfl, rfl⟩

theorem Recalls.define (h : l.Recalls c past seen) {u : Composite.Ref}
    (hu : u.name ∈ seen ∨ past u) : (l.define c u.kind.stored u.name).2.Recalls c past seen := by
  unfold Lookups.define
  split
  · exact h
  · rename_i hnone
    intro n hn answer hget
    -- nothing but the name that was asked for is new
    by_cases hname : n = u.name
    · subst hname
      rw [OnceMap.get?_complete_self _ hnone] at hget
      exact ⟨u, hu.resolve_left hn, rfl, (Option.some.inj hget).symm⟩
    · rw [OnceMap.get?_complete_of_ne _ _ hname] at hget
      exact h n hn answer hget

theorem Recalls.define_insert (h : l.Recalls c past seen) (u : Composite.Ref) :
    (l.define c u.kind.stored u.name).2.Recalls c past (insert u.name seen) :=
  (h.mono (fun _ hu => hu) (Set.subset_insert _ _)).define (.inl (Set.mem_insert _ _))

end Lookups

namespace Inquiry

variable {α β : Type} {c : Catalog} {asks past past₁ past₂ : Composite.Ref → Prop}
  {fails : ResolveError → Prop} {seen : Set TypeName}

/-! ## Promises -/

/-- A promise about the ends of an inquiry: an error is one of `fails`, or what an answer was worth
to a use of `asks`, and a result is one that `gives` admits. It asks for none of the names in
`seen` and for no name twice. -/
inductive Ensures (c : Catalog) (asks : Composite.Ref → Prop) (fails : ResolveError → Prop)
    (gives : Set TypeName → α → Prop) : Set TypeName → Inquiry (Except ResolveError α) → Prop
  | ok {seen : Set TypeName} {a : α} : gives seen a →
      Ensures c asks fails gives seen (done (.ok a))
  | error {seen : Set TypeName} {e : ResolveError} : fails e →
      Ensures c asks fails gives seen (done (.error e))
  | define {seen : Set TypeName} {u : Composite.Ref}
      {next : Except ResolveError Definition → Inquiry (Except ResolveError α)}
      (unseen : u.name ∉ seen) (asked : asks u)
      (refused : ∀ answer e, expectKind u.kind.stored u.name answer = .error e →
        next answer = done (.error e))
      (continued : ∀ d, c.Holds u.name d → d.kind = u.kind.stored →
        Ensures c asks fails gives (insert u.name seen) (next (.ok d))) :
      Ensures c asks fails gives seen (define u.kind.stored u.name next)

namespace Ensures

variable {gives : Set TypeName → α → Prop} {gives' : Set TypeName → β → Prop}

/-- One inquiry after the other. -/
theorem bind {x : ExceptT ResolveError Inquiry α} {f : α → ExceptT ResolveError Inquiry β}
    (hx : Ensures c asks fails gives seen x.run)
    (hf : ∀ seen a, gives seen a → Ensures c asks fails gives' seen (f a).run) :
    Ensures c asks fails gives' seen (x >>= f).run := by
  show Ensures c asks fails gives' seen (x.run.bind (ExceptT.bindCont f))
  generalize x.run = i at hx
  induction hx with
  | ok h => exact hf _ _ h
  | error h => exact .error h
  | define unseen asked refused continued ih =>
      refine .define unseen asked ?_ ih
      intro answer e h
      rw [refused answer e h]
      rfl

/-- A question gives an entry of the right kind. -/
theorem askDefinition {u : Composite.Ref} (unseen : u.name ∉ seen) (asked : asks u) :
    Ensures c asks fails
      (fun seen' d => seen' = insert u.name seen ∧ c.Holds u.name d ∧ d.kind = u.kind.stored)
      seen (RoutineBridge.askDefinition u.kind.stored u.name).run := by
  refine .define unseen asked ?_ ?_
  · intro answer e hrefused
    rw [hrefused]
  · intro d hheld hkind
    rw [expectKind_eq_ok.mpr ⟨rfl, hkind⟩]
    exact .ok ⟨rfl, hheld, hkind⟩

end Ensures

/-! ## Runs -/

/-- An answer that a use of `asks` may get is worth an error to it. -/
def Refused (c : Catalog) (asks past : Composite.Ref → Prop) (e : ResolveError) : Prop :=
  ∃ u v, asks u ∧ (v = u ∨ past v) ∧ v.name = u.name ∧
    expectKind u.kind.stored u.name (c.define v.kind.stored u.name) = .error e

/-- A use of `asks` gets an error because a use of `past` was the first to ask for its name, and
asked for the other kind of entry: there was none, or it is of that other kind, or the look-up for
that kind fails. -/
def Clashes (c : Catalog) (asks past : Composite.Ref → Prop) (e : ResolveError) : Prop :=
  ∃ u v, asks u ∧ past v ∧ v.name = u.name ∧ v.kind.stored ≠ u.kind.stored ∧
    (e = .notFound u.name ∨ e = .kindMismatch u.name u.kind.stored v.kind.stored ∨
      ∃ f, c.outages.error? v.kind u.name = some f ∧ e = .catalog f)

/-- What is worth an error to a use: no entry of its kind, an entry of another kind, or a look-up
of its name that fails, be it for another kind. -/
theorem Refused.cases {e : ResolveError} (h : Refused c asks past e) :
    ∃ v, asks v ∧ (e = .notFound v.name ∨ (∃ found, e = .kindMismatch v.name v.kind.stored found) ∨
      ∃ kind f, c.outages.error? kind v.name = some f ∧ e = .catalog f) := by
  obtain ⟨v, w, hv, -, -, hworth⟩ := h
  refine ⟨v, hv, ?_⟩
  cases hanswer : c.define w.kind.stored v.name with
  | ok d =>
      rw [hanswer, expectKind] at hworth
      split at hworth
      · cases hworth
      · exact .inr (.inl ⟨d.kind, (Except.error.inj hworth).symm⟩)
  | error e' =>
      rw [hanswer] at hworth
      obtain rfl := Except.error.inj hworth
      rcases Catalog.define_error hanswer with houtage | ⟨-, hnone⟩
      · exact .inr (.inr ⟨_, houtage⟩)
      · exact .inl hnone

namespace Ensures

variable {gives : Set TypeName → α → Prop} {i : Inquiry (Except ResolveError α)}
  {l l₁ l₂ : Lookups}

/-- A question whose answer is one of the catalog ends in an error or goes on with an entry of the
right kind. -/
theorem run_question {u v : Composite.Ref}
    {next : Except ResolveError Definition → Inquiry (Except ResolveError α)}
    (refused : ∀ answer e, expectKind u.kind.stored u.name answer = .error e →
      next answer = done (.error e))
    (hanswer : (l.define c u.kind.stored u.name).1 = c.define v.kind.stored u.name) :
    (∃ e, expectKind u.kind.stored u.name (c.define v.kind.stored u.name) = .error e ∧
      (Inquiry.define u.kind.stored u.name next).run c l =
        (.error e, (l.define c u.kind.stored u.name).2)) ∨
    ∃ d, c.Holds u.name d ∧ d.kind = u.kind.stored ∧ c.define v.kind.stored u.name = .ok d ∧
      (Inquiry.define u.kind.stored u.name next).run c l =
        (next (.ok d)).run c (l.define c u.kind.stored u.name).2 := by
  rw [run_define, hanswer]
  cases hworth : expectKind u.kind.stored u.name (c.define v.kind.stored u.name) with
  | error e =>
      rw [refused _ e hworth]
      exact .inl ⟨e, rfl, rfl⟩
  | ok d =>
      obtain ⟨hd, hkind⟩ := expectKind_eq_ok.mp hworth
      rw [hd]
      exact .inr ⟨d, (Catalog.define_ok hd).1, hkind, rfl, rfl⟩

/-- **Promises are kept.** A run from any memory ends as promised. -/
theorem run (h : Ensures c asks fails gives seen i) (hl : l.Recalls c past seen) :
    (∃ a seen', (i.run c l).1 = .ok a ∧ gives seen' a) ∨
      ∃ e, (i.run c l).1 = .error e ∧ (fails e ∨ Refused c asks past e) := by
  induction h generalizing l with
  | @ok seen a h => exact .inl ⟨a, seen, rfl, h⟩
  | @error seen e h => exact .inr ⟨e, rfl, .inl h⟩
  | @define seen u next unseen asked refused _ ih =>
      obtain ⟨v, hv, hname, hanswer⟩ := hl.answer unseen
      rcases run_question refused hanswer with ⟨e, hworth, hrun⟩ | ⟨d, hheld, hkind, -, hrun⟩
      · rw [hrun]
        exact .inr ⟨e, rfl, .inr ⟨u, v, asked, hv, hname, hworth⟩⟩
      · -- the answer is new in memory, but its name is not asked for again
        rw [hrun]
        exact ih d hheld hkind (hl.define_insert u)

/-- A run remembers only what it asked itself. -/
theorem run_recalls (h : Ensures c asks fails gives seen i) (hl : l.Recalls c past ∅)
    (hasks : ∀ u, asks u → past u) : (i.run c l).2.Recalls c past ∅ := by
  induction h generalizing l with
  | ok => exact hl
  | error => exact hl
  | @define seen u next unseen asked refused _ ih =>
      obtain ⟨v, hv, hname, hanswer⟩ := hl.answer (u := u) (Set.notMem_empty _)
      have hl' := hl.define (.inr (hasks u asked))
      rcases run_question refused hanswer with ⟨e, -, hrun⟩ | ⟨d, hheld, hkind, -, hrun⟩
      · rw [hrun]
        exact hl'
      · rw [hrun]
        exact ih d hheld hkind hl'

/-- Two answers of the catalog differ only if they are for different kinds of entries, and then the
one for the other kind is worth an error. -/
theorem clashes_of_ne {u v : Composite.Ref} (hasks : asks u) (hpast : v = u ∨ past v)
    (hname : v.name = u.name)
    (hne : c.define v.kind.stored u.name ≠ c.define u.kind.stored u.name) :
    ∃ e, expectKind u.kind.stored u.name (c.define v.kind.stored u.name) = .error e ∧
      Clashes c asks past e := by
  have hkinds : v.kind.stored ≠ u.kind.stored := fun h => hne (by rw [h])
  -- the use itself asks for its own kind, so the other answer comes from before
  have hv : past v := by
    rcases hpast with rfl | hv
    · exact absurd rfl hkinds
    · exact hv
  cases hanswer : c.define v.kind.stored u.name with
  | ok d =>
      obtain ⟨-, hkind⟩ := Catalog.define_ok hanswer
      rw [Composite.Kind.stored_stored] at hkind
      refine ⟨.kindMismatch u.name u.kind.stored v.kind.stored, ?_, ?_⟩
      · rw [expectKind, hkind, if_neg hkinds]
      · exact ⟨u, v, hasks, hv, hname, hkinds, .inr (.inl rfl)⟩
  | error e =>
      refine ⟨e, rfl, u, v, hasks, hv, hname, hkinds, ?_⟩
      rcases Catalog.define_error hanswer with ⟨f, hout, rfl⟩ | ⟨-, rfl⟩
      · rw [Outages.error?_stored] at hout
        exact .inr (.inr ⟨f, hout, rfl⟩)
      · exact .inl rfl

/-- **Memory shows only in clashes.** Runs from two memories come to the same, or one of them ends
in an error that its memory has for a name first asked for with the other kind. -/
theorem run_eq_or_clashes (h : Ensures c asks fails gives seen i)
    (h₁ : l₁.Recalls c past₁ seen) (h₂ : l₂.Recalls c past₂ seen) :
    (i.run c l₁).1 = (i.run c l₂).1 ∨
      (∃ e, (i.run c l₁).1 = .error e ∧ Clashes c asks past₁ e) ∨
      ∃ e, (i.run c l₂).1 = .error e ∧ Clashes c asks past₂ e := by
  induction h generalizing l₁ l₂ with
  | ok => exact .inl rfl
  | error => exact .inl rfl
  | @define seen u next unseen asked refused _ ih =>
      obtain ⟨v₁, hv₁, hname₁, hanswer₁⟩ := h₁.answer unseen
      obtain ⟨v₂, hv₂, hname₂, hanswer₂⟩ := h₂.answer unseen
      by_cases heq₁ : c.define v₁.kind.stored u.name = c.define u.kind.stored u.name
      · by_cases heq₂ : c.define v₂.kind.stored u.name = c.define u.kind.stored u.name
        · -- both runs get the answer of the catalog and stay together
          rw [heq₁] at hanswer₁
          rw [heq₂] at hanswer₂
          rcases run_question refused hanswer₁ with ⟨e, hworth, hrun⟩ | ⟨d, hheld, hkind, hd, hrun⟩
          · refine .inl ?_
            rw [hrun, run_define, refused _ e (hanswer₂ ▸ hworth)]
            rfl
          · rw [hrun, run_define, hanswer₂, hd]
            exact ih d hheld hkind (h₁.define_insert u) (h₂.define_insert u)
        · obtain ⟨e, hworth, hclash⟩ := clashes_of_ne asked hv₂ hname₂ heq₂
          refine .inr (.inr ⟨e, ?_, hclash⟩)
          rw [run_define, refused _ e (hanswer₂ ▸ hworth)]
          rfl
      · obtain ⟨e, hworth, hclash⟩ := clashes_of_ne asked hv₁ hname₁ heq₁
        refine .inr (.inl ⟨e, ?_, hclash⟩)
        rw [run_define, refused _ e (hanswer₁ ▸ hworth)]
        rfl

end Ensures

/-! ## Equal inquiries -/

/-- Two inquiries ask the same and come to the same, as long as every answer is an entry of the
catalog. -/
inductive Agree (c : Catalog) : Inquiry α → Inquiry α → Prop
  | done (a : α) : Agree c (done a) (done a)
  | define {u : Composite.Ref} {next next' : Except ResolveError Definition → Inquiry α}
      (continued : ∀ answer, (∀ d, answer = .ok d → c.Holds u.name d) →
        Agree c (next answer) (next' answer)) :
      Agree c (define u.kind.stored u.name next) (define u.kind.stored u.name next')

namespace Agree

theorem bind {x y : ExceptT ResolveError Inquiry α} {f g : α → ExceptT ResolveError Inquiry β}
    (hxy : Agree c x.run y.run) (hfg : ∀ a, Agree c (f a).run (g a).run) :
    Agree c (x >>= f).run (y >>= g).run := by
  show Agree c (x.run.bind (ExceptT.bindCont f)) (y.run.bind (ExceptT.bindCont g))
  generalize x.run = i at hxy
  generalize y.run = j at hxy
  induction hxy with
  | done a =>
      cases a with
      | ok a => exact hfg a
      | error e => exact .done _
  | define _ ih => exact .define ih

/-- Inquiries that go on with a definition need to agree only about entries of the catalog. -/
theorem askDefinition_bind {u : Composite.Ref} {f g : Definition → ExceptT ResolveError Inquiry α}
    (h : ∀ d, c.Holds u.name d → Agree c (f d).run (g d).run) :
    Agree c (askDefinition u.kind.stored u.name >>= f).run
      (askDefinition u.kind.stored u.name >>= g).run := by
  refine .define fun answer hanswer => ?_
  show Agree c (ExceptT.bindCont f (expectKind u.kind.stored u.name answer))
    (ExceptT.bindCont g (expectKind u.kind.stored u.name answer))
  cases hworth : expectKind u.kind.stored u.name answer with
  | error e => exact .done _
  | ok d => exact h d (hanswer d (expectKind_eq_ok.mp hworth).1)

/-- Inquiries that agree have the same runs. -/
theorem run_eq {i j : Inquiry α} (h : Agree c i j) {l : Lookups} (hl : l.Recalls c past ∅) :
    i.run c l = j.run c l := by
  replace hl : l.Recalls c (fun _ => True) ∅ := hl.mono (fun _ _ => trivial) subset_rfl
  induction h generalizing l with
  | done a => rfl
  | @define u next next' _ ih =>
      obtain ⟨v, -, -, hanswer⟩ := hl.answer (u := u) (Set.notMem_empty _)
      rw [run_define, run_define]
      refine ih _ (fun d hd => ?_) (hl.define (.inr trivial))
      exact (Catalog.define_ok (hanswer.symm.trans hd)).1

end Agree

end Inquiry

end RoutineBridge
