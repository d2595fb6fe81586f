import RoutineBridge.Proofs.Extensionality
import RoutineBridge.Proofs.Inquiry

/-!
# Inquiries put to a table of answers

A table of answers says one thing about every name, whatever the kind it is asked for with and
whenever it is asked. What an inquiry comes to with such a table (`answered`) and the names it asks
for on the way (`asked`) depend on nothing else. A run with memory comes to the same as the table,
as long as what it remembers in the end is what the table says (`run_eq_answered`).
-/

namespace RoutineBridge

/-- One answer for every name. -/
abbrev Answers := TypeName → Except ResolveError Definition

/-! ## Memory and tables -/

namespace Lookups

variable {c : Catalog} {kind : Composite.Kind} {name n : TypeName} {l l' : Lookups}
  {answer : Except ResolveError Definition} {T : Answers}

/-- What is remembered is what the table says. -/
def AgreesWith (l : Lookups) (T : Answers) : Prop :=
  ∀ n answer, l.definitions.get? n = some answer → answer = T n

theorem agreesWith_empty (T : Answers) : empty.AgreesWith T := by
  intro n answer h
  cases h

/-- What was remembered stays. -/
theorem get?_define_of_some (h : l.definitions.get? n = some answer) :
    (l.define c kind name).2.definitions.get? n = some answer := by
  unfold define
  split
  · exact h
  · rename_i hnone
    have hne : n ≠ name := by
      rintro rfl
      rw [h] at hnone
      cases hnone
    exact (OnceMap.get?_complete_of_ne _ _ hne).trans h

/-- What was answered is remembered. -/
theorem get?_define_self (c : Catalog) (kind : Composite.Kind) (name : TypeName) (l : Lookups) :
    (l.define c kind name).2.definitions.get? name = some (l.define c kind name).1 := by
  unfold define
  split
  · rename_i hget
    exact hget
  · rename_i hnone
    exact OnceMap.get?_complete_self _ hnone

theorem get?_define_of_ne (h : n ≠ name) :
    (l.define c kind name).2.definitions.get? n = l.definitions.get? n := by
  unfold define
  split
  · rfl
  · exact OnceMap.get?_complete_of_ne _ _ h

theorem requested_define :
    (l.define c kind name).2.definitions.requested n ↔ n = name ∨ l.definitions.requested n := by
  unfold define
  split
  · rename_i hget
    have hname : n = name → l.definitions.requested n := fun hn =>
      hn ▸ OnceMap.requested_of_get? hget
    exact (or_iff_right_of_imp hname).symm
  · exact OnceMap.requested_complete _ _ _

theorem AgreesWith.define (h : l.AgreesWith T) (hanswer : c.define kind name = T name) :
    (l.define c kind name).2.AgreesWith T := by
  intro n answer hget
  by_cases hn : n = name
  · subst hn
    rw [get?_define_self] at hget
    obtain rfl := Option.some.inj hget
    unfold Lookups.define
    split
    · rename_i hget
      exact h n _ hget
    · exact hanswer
  · rw [get?_define_of_ne hn] at hget
    exact h n answer hget

end Lookups

namespace Inquiry

variable {α β : Type} {c : Catalog} {T : Answers} {l : Lookups} {n : TypeName}
  {answer : Except ResolveError Definition}

/-! ## Answers from a table -/

/-- What an inquiry comes to when the table answers. -/
def answered (c : Catalog) (T : Answers) : Inquiry α → α
  | done a => a
  | define _ name next => (next (T name)).answered c T
  | source package next => (next (c.source package)).answered c T

/-- The names it asks for when the table answers, in order. -/
def asked (c : Catalog) (T : Answers) : Inquiry α → List TypeName
  | done _ => []
  | define _ name next => name :: (next (T name)).asked c T
  | source package next => (next (c.source package)).asked c T

/-- How many questions it asks when the table answers. -/
def length (c : Catalog) (T : Answers) : Inquiry α → Nat
  | done _ => 0
  | define _ name next => (next (T name)).length c T + 1
  | source package next => (next (c.source package)).length c T + 1

/-- On its way through the table the catalog would give the same answers. -/
def Fits (c : Catalog) (T : Answers) : Inquiry α → Prop
  | done _ => True
  | define kind name next => c.define kind name = T name ∧ (next (T name)).Fits c T
  | source package next => (next (c.source package)).Fits c T

theorem answered_bind (i : Inquiry α) (f : α → Inquiry β) :
    (i.bind f).answered c T = (f (i.answered c T)).answered c T := by
  induction i with
  | done a => rfl
  | define kind name next ih => exact ih (T name)
  | source package next ih => exact ih (c.source package)

theorem length_bind (i : Inquiry α) (f : α → Inquiry β) :
    (i.bind f).length c T = i.length c T + (f (i.answered c T)).length c T := by
  induction i with
  | done a => simp [Inquiry.bind, length, answered]
  | define kind name next ih =>
      simp only [Inquiry.bind, length, answered, ih]
      omega
  | source package next ih =>
      simp only [Inquiry.bind, length, answered, ih]
      omega

theorem fits_bind {i : Inquiry α} {f : α → Inquiry β} (hi : i.Fits c T)
    (hf : (f (i.answered c T)).Fits c T) : (i.bind f).Fits c T := by
  induction i with
  | done a => exact hf
  | define kind name next ih => exact ⟨hi.1, ih (T name) hi.2 hf⟩
  | source package next ih => exact ih (c.source package) hi hf

/-! ## Runs with memory -/

theorem run_bind (i : Inquiry α) (f : α → Inquiry β) (l : Lookups) :
    (i.bind f).run c l = (f (i.run c l).1).run c (i.run c l).2 := by
  induction i generalizing l with
  | done a => rfl
  | define kind name next ih => exact ih _ _
  | source package next ih => exact ih _ _

/-- What was remembered before a run is remembered after it. -/
theorem get?_run_of_some (i : Inquiry α) (h : l.definitions.get? n = some answer) :
    (i.run c l).2.definitions.get? n = some answer := by
  induction i generalizing l with
  | done a => exact h
  | define kind name next ih =>
      rw [run_define]
      exact ih _ (Lookups.get?_define_of_some h)
  | source package next ih => exact ih _ h

/-- The answer to the first question of a run is what the table says, if the run remembers nothing
else in the end. -/
theorem define_eq_of_agreesWith {kind : Composite.Kind} {name : TypeName}
    {next : Except ResolveError Definition → Inquiry α}
    (h : ((define kind name next).run c l).2.AgreesWith T) :
    (l.define c kind name).1 = T name := by
  rw [run_define] at h
  exact h name _ (get?_run_of_some _ (Lookups.get?_define_self c kind name l))

/-- **A run with memory comes to what the table says**, if it remembers nothing else in the end. -/
theorem run_eq_answered (i : Inquiry α) (h : (i.run c l).2.AgreesWith T) :
    (i.run c l).1 = i.answered c T := by
  induction i generalizing l with
  | done a => rfl
  | define kind name next ih =>
      have hanswer := define_eq_of_agreesWith h
      rw [run_define] at h ⊢
      rw [answered, ← hanswer]
      exact ih _ h
  | source package next ih => exact ih _ h

/-! ## Promises -/

namespace Ensures

variable {c' : Catalog} {asks : Composite.Ref → Prop} {fails : ResolveError → Prop}
  {gives : Set TypeName → α → Prop} {seen : Set TypeName} {i : Inquiry (Except ResolveError α)}

/-- A table of entries of a catalog leads to what is promised for this catalog. -/
theorem answered (h : Ensures c' asks fails gives seen i)
    (hT : ∀ n d, T n = .ok d → c'.Holds n d) {a : α} (ha : i.answered c T = .ok a) :
    ∃ seen', gives seen' a := by
  induction h with
  | @ok seen b hgives =>
      obtain rfl := Except.ok.inj ha
      exact ⟨seen, hgives⟩
  | error => cases ha
  | @define seen u next unseen asked refused continued ih =>
      rw [Inquiry.answered] at ha
      cases hworth : expectKind u.kind.stored u.name (T u.name) with
      | error e =>
          rw [refused _ e hworth] at ha
          cases ha
      | ok d =>
          obtain ⟨hd, hkind⟩ := expectKind_eq_ok.mp hworth
          rw [hd] at ha
          exact ih d (hT _ d hd) hkind ha

section Fitting

variable (hT : ∀ u, asks u → c.define u.kind.stored u.name = T u.name)

include hT

/-- What the table says about a use that is asked for is refused, or an entry of the right kind. -/
theorem table_cases {u : Composite.Ref} (hu : asks u) :
    (∃ e, expectKind u.kind.stored u.name (T u.name) = .error e) ∨
      ∃ d, T u.name = .ok d ∧ c.Holds u.name d ∧ d.kind = u.kind.stored := by
  cases hworth : expectKind u.kind.stored u.name (T u.name) with
  | error e => exact .inl ⟨e, rfl⟩
  | ok d =>
      obtain ⟨hd, hkind⟩ := expectKind_eq_ok.mp hworth
      exact .inr ⟨d, hd, (Catalog.define_ok ((hT u hu).trans hd)).1, hkind⟩

theorem fits (h : Ensures c asks fails gives seen i) : i.Fits c T := by
  induction h with
  | ok => trivial
  | error => trivial
  | @define seen u next unseen asked refused continued ih =>
      refine ⟨hT u asked, ?_⟩
      rcases table_cases hT asked with ⟨e, hworth⟩ | ⟨d, hd, hheld, hkind⟩
      · rw [refused _ e hworth]
        trivial
      · rw [hd]
        exact ih d hheld hkind

/-- No name is asked for twice, and there are no other questions. -/
theorem asked_nodup (h : Ensures c asks fails gives seen i) :
    (i.asked c T).Nodup ∧ (∀ n ∈ i.asked c T, n ∉ seen ∧ ∃ u, asks u ∧ u.name = n) ∧
      i.length c T = (i.asked c T).length := by
  induction h with
  | ok => simp [Inquiry.asked, Inquiry.length]
  | error => simp [Inquiry.asked, Inquiry.length]
  | @define seen u next unseen asked refused continued ih =>
      rw [Inquiry.asked, Inquiry.length]
      rcases table_cases hT asked with ⟨e, hworth⟩ | ⟨d, hd, hheld, hkind⟩
      · rw [refused _ e hworth]
        refine ⟨by simp [Inquiry.asked], ?_, by simp [Inquiry.asked, Inquiry.length]⟩
        intro n hn
        obtain rfl : n = u.name := by simpa [Inquiry.asked] using hn
        exact ⟨unseen, u, asked, rfl⟩
      · obtain ⟨hnodup, hnames, hlength⟩ := ih d hheld hkind
        rw [hd, hlength, List.length_cons]
        refine ⟨List.nodup_cons.mpr ⟨?_, hnodup⟩, ?_, rfl⟩
        · exact fun hmem => (hnames _ hmem).1 (Set.mem_insert _ _)
        · intro n hn
          rcases List.mem_cons.mp hn with rfl | hn
          · exact ⟨unseen, u, asked, rfl⟩
          · obtain ⟨hnew, hasks⟩ := hnames n hn
            exact ⟨fun hmem => hnew (Set.mem_insert_of_mem _ hmem), hasks⟩

end Fitting

end Ensures

end Inquiry

end RoutineBridge
