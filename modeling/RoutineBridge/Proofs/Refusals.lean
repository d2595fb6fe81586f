import RoutineBridge.Proofs.RowListing

/-!
# Which rows are refused

Grouping sees the rows before a row only through the parameters that are still open, and these get
their children late. All the same, whether a row breaks its run can be told from the rows before it
(`Grouping.Breaks`): the parameter at the top of the stack is the nearest row one level up
(`Grouping.exists_above`), and it has children exactly if a row of their level came behind it. So a
row is refused if it breaks its run, and for that reason (`Grouping.push_eq_error_iff`). Main
statement: rows are refused exactly if one of them breaks its run, and the first one that does says
why (`Grouping.signatures_refused`).
-/

namespace RoutineBridge

/-- A fold fails at the first element that is refused. -/
theorem foldlM_eq_error_iff {α σ ε : Type} {f : σ → α → Except ε σ} {xs : List α} {s : σ} {e : ε} :
    xs.foldlM f s = .error e ↔ ∃ before x after s', xs = before ++ x :: after ∧
      before.foldlM f s = .ok s' ∧ f s' x = .error e := by
  induction xs generalizing s with
  | nil => simp [pure, Except.pure]
  | cons y ys ih =>
      rw [List.foldlM_cons]
      constructor
      · intro h
        cases hy : f s y with
        | error e' =>
            rw [hy] at h
            obtain rfl : e' = e := Except.error.inj h
            exact ⟨[], y, ys, s, rfl, rfl, hy⟩
        | ok s₁ =>
            rw [hy] at h
            obtain ⟨before, x, after, s', rfl, hbefore, hx⟩ := ih.mp h
            refine ⟨y :: before, x, after, s', rfl, ?_, hx⟩
            rw [List.foldlM_cons, hy]
            exact hbefore
      · rintro ⟨before, x, after, s', hsplit, hbefore, hx⟩
        cases before with
        | nil =>
            obtain ⟨rfl, rfl⟩ := List.cons.inj hsplit
            obtain rfl : s = s' := Except.ok.inj hbefore
            rw [hx]
            rfl
        | cons z before =>
            obtain ⟨rfl, rfl⟩ := List.cons.inj hsplit
            rw [List.foldlM_cons] at hbefore
            cases hy : f s y with
            | error e' =>
                rw [hy] at hbefore
                cases hbefore
            | ok s₁ =>
                rw [hy] at hbefore
                exact ih.mpr ⟨before, x, after, s', rfl, hbefore, hx⟩

section Both

variable {α β γ ε : Type} {x : Except ε α} {y : Except ε β} {f : α → β → γ}

/-- Two results are there if each of them is. -/
theorem exists_both_iff : (∃ c, (do let a ← x; let b ← y; pure (f a b)) = Except.ok c) ↔
    (∃ a, x = .ok a) ∧ ∃ b, y = .ok b := by
  cases x with
  | error e => simp [bind, Except.bind]
  | ok a => cases y <;> simp [bind, Except.bind, pure, Except.pure]

/-- The first of two that fails says why. -/
theorem both_eq_error_iff {e : ε} : (do let a ← x; let b ← y; pure (f a b)) = Except.error e ↔
    x = .error e ∨ (∃ a, x = .ok a) ∧ y = .error e := by
  cases x with
  | error e' => simp [bind, Except.bind]
  | ok a => cases y <;> simp [bind, Except.bind, pure, Except.pure]

end Both

theorem ParamTree.le_of_mem_rows {t : ParamTree} {depth : Nat} {e : ParamTree × Nat}
    (h : e ∈ t.rows depth) : depth ≤ e.2 := by
  induction t using ParamTree.induction generalizing depth with
  | node t ih =>
      rw [rows_eq] at h
      rcases List.mem_cons.mp h with rfl | h
      · exact Nat.le_refl depth
      · obtain ⟨child, hchild, h⟩ := mem_rowsBelow.mp h
        exact Nat.le_of_succ_le (ih child hchild h)

namespace Grouping

/-! ## Breaking a run -/

/-- The rows that describe parameters. -/
def described (rows : List ArgumentRow) : List ArgumentRow := rows.filter (!·.isPlaceholder)

/-- The row comes behind the one before it. -/
def Follows (before : List ArgumentRow) (r : ArgumentRow) : Prop :=
  ∀ previous ∈ before.getLast?, previous.sequence < r.sequence

/-- No parameter comes before the row, or the last one is too far up to have it below it. -/
def Detached (before : List ArgumentRow) (r : ArgumentRow) : Prop :=
  ∀ previous ∈ (described before).getLast?, previous.level < r.level - 1

/-- Of the parameters that are one level above `level`, `parent` is the last one; those behind it
are `back`. -/
structure Above (before : List ArgumentRow) (level : Nat) (parent : ArgumentRow)
    (back : List ArgumentRow) : Prop where
  split : ∃ front, described before = front ++ parent :: back
  level_eq : parent.level + 1 = level
  nearest : ∀ x ∈ back, x.level + 1 ≠ level

/-- Why a row cannot be taken up behind the rows `before` of its run. -/
inductive Breaks (before : List ArgumentRow) (r : ArgumentRow) : RowError → Prop
  | outOfOrder {previous : ArgumentRow} (last : before.getLast? = some previous)
      (order : r.sequence ≤ previous.sequence) :
      Breaks before r (.outOfOrder r.routineName r.sequence previous.sequence)
  | detached (follows : Follows before r) (parameter : r.isPlaceholder = false)
      (nested : 0 < r.level) (alone : Detached before r) :
      Breaks before r (.orphanLevel r.routineName r.sequence r.level (r.level - 1))
  | scalar {parent : ArgumentRow} {back : List ArgumentRow} (follows : Follows before r)
      (parameter : r.isPlaceholder = false) (nested : 0 < r.level)
      (above : Above before r.level parent back) (kind : parent.spec.compositeKind? = none) :
      Breaks before r (.orphanLevel r.routineName r.sequence r.level (r.level - 1))
  | full {parent : ArgumentRow} {back : List ArgumentRow} (follows : Follows before r)
      (parameter : r.isPlaceholder = false) (nested : 0 < r.level) (attached : ¬ Detached before r)
      (above : Above before r.level parent back)
      (kind : parent.spec.compositeKind? = some .collection ∨
        parent.spec.compositeKind? = some .cursor)
      (taken : ∃ x ∈ back, x.level = r.level) :
      Breaks before r (.collectionArity r.routineName parent.argumentName r.sequence)

/-- No row of the run breaks it. -/
def Unbroken (run : List ArgumentRow) : Prop :=
  ∀ before r after, run = before ++ r :: after → ∀ e, ¬ Breaks before r e

theorem Above.unique {before back back' : List ArgumentRow} {level : Nat}
    {parent parent' : ArgumentRow} (h : Above before level parent back)
    (h' : Above before level parent' back') : parent = parent' ∧ back = back' := by
  obtain ⟨front, hsplit⟩ := h.split
  obtain ⟨front', hsplit'⟩ := h'.split
  -- a parent further up would have the other one behind it
  rcases List.append_eq_append_iff.mp (hsplit.symm.trans hsplit') with
    ⟨middle, -, hback⟩ | ⟨middle, -, hback⟩
  · cases middle with
    | nil => exact List.cons.inj hback
    | cons x middle =>
        obtain ⟨-, rfl⟩ := List.cons.inj hback
        exact absurd h'.level_eq (h.nearest parent' (by simp))
  · cases middle with
    | nil =>
        obtain ⟨rfl, rfl⟩ := List.cons.inj hback
        exact ⟨rfl, rfl⟩
    | cons x middle =>
        obtain ⟨-, rfl⟩ := List.cons.inj hback
        exact absurd h.level_eq (h'.nearest parent (by simp))

/-! ## What is open -/

section Open

variable {before : List ArgumentRow} {r r₀ : ArgumentRow} {run : Run} {o : Outline} {e : RowError}

/-- The deepest open parameter is the nearest one above the next level, and its children are those
that came behind it. -/
theorem exists_above {p : OpenParam} {rest : List OpenParam} (hlisting : o.listing = nodes before)
    (hstack : o.stack = p :: rest) :
    ∃ parent back, Above before (rest.length + 1) parent back ∧
      parent.argumentName = p.tree.name ∧ parent.spec = p.tree.spec ∧
      ((∃ x ∈ back, x.level = rest.length + 1) ↔ p.tree.children ≠ []) := by
  have hnodes : (described before).map (fun r => (ParamTree.ofRow r, r.level)) =
      (o.signature.rows ++ Outline.stackRows rest) ++
        (p.tree.bare, rest.length) :: ParamTree.rowsBelow (rest.length + 1) p.tree.children := by
    show nodes before = _
    rw [← hlisting, Outline.listing, hstack, Outline.stackRows, ParamTree.rows_eq,
      List.append_assoc]
  -- at the end of the listing are the row of the deepest parameter and those of its children
  obtain ⟨front, behind, hsplit, -, hbehind⟩ := List.map_eq_append_iff.mp hnodes
  obtain ⟨parent, back, rfl, hparent, hback⟩ := List.map_eq_cons_iff.mp hbehind
  obtain ⟨hbare, hlevel⟩ := Prod.mk.inj hparent
  have hmem : ∀ x ∈ back, ∃ child ∈ p.tree.children,
      (ParamTree.ofRow x, x.level) ∈ child.rows (rest.length + 1) := by
    intro x hx
    refine ParamTree.mem_rowsBelow.mp ?_
    rw [← hback]
    exact List.mem_map_of_mem hx
  have hdeep : ∀ x ∈ back, rest.length + 1 ≤ x.level := by
    intro x hx
    obtain ⟨child, -, hrow⟩ := hmem x hx
    exact ParamTree.le_of_mem_rows hrow
  refine ⟨parent, back, ⟨⟨front, hsplit⟩, congrArg (· + 1) hlevel, fun x hx heq => ?_⟩,
    congrArg ParamTree.name hbare, congrArg ParamTree.spec hbare, ?_⟩
  · have := hdeep x hx
    omega
  · constructor
    · rintro ⟨x, hx, -⟩ hnone
      obtain ⟨child, hchild, -⟩ := hmem x hx
      rw [hnone] at hchild
      exact List.not_mem_nil hchild
    · intro hsome
      obtain ⟨child, hchild⟩ := List.exists_mem_of_ne_nil _ hsome
      have hrow : (child.bare, rest.length + 1) ∈
          ParamTree.rowsBelow (rest.length + 1) p.tree.children :=
        ParamTree.bare_mem_rowsBelow hchild
      rw [← hback] at hrow
      obtain ⟨x, hx, heq⟩ := List.mem_map.mp hrow
      exact ⟨x, hx, (Prod.mk.inj heq).2⟩

/-- The rows `before` of a subprogram were taken up, and nothing else. -/
structure Taken (r₀ : ArgumentRow) (before : List ArgumentRow) (run : Run) : Prop where
  subprogram_eq : run.signature.subprogram = r₀.subprogram
  last : run.lastSequence = before.getLast?.map (·.sequence)
  sound : run.toOutline.Sound
  listing : run.toOutline.listing = nodes before
  open_eq : run.stack.length = ((described before).getLast?.map (·.level + 1)).getD 0

theorem lastSequence_foldlM (h : before.foldlM Run.push (Run.start r₀) = .ok run) :
    run.lastSequence = before.getLast?.map (·.sequence) := by
  rcases List.eq_nil_or_concat' before with rfl | ⟨front, r, rfl⟩
  · obtain rfl : Run.start r₀ = run := Except.ok.inj h
    rfl
  · rw [List.foldlM_append] at h
    cases hfront : front.foldlM Run.push (Run.start r₀) with
    | error e' =>
        rw [hfront] at h
        cases h
    | ok run₁ =>
        rw [hfront] at h
        have hpush : (run₁.push r >>= pure) = .ok run := h
        rw [bind_pure] at hpush
        rw [(push_eq_ok_iff.mp hpush).2.2, List.getLast?_concat]
        rfl

/-- The levels down to that of the last parameter are open. -/
theorem length_stack_graftAll {ns : List (ParamTree × Nat)} {o' : Outline} (hempty : o.stack = [])
    (h : o.graftAll ns = some o') : o'.stack.length = (ns.getLast?.map (·.2 + 1)).getD 0 := by
  rcases List.eq_nil_or_concat' ns with rfl | ⟨front, n, rfl⟩
  · obtain rfl := Option.some.inj h
    rw [hempty]
    rfl
  · rw [Outline.graftAll_append] at h
    obtain ⟨o₁, -, hlast⟩ := Option.bind_eq_some_iff.mp h
    have hgraft : o₁.graft n.1 n.2 = some o' := by simpa [Outline.graftAll] using hlast
    rw [Outline.graft] at hgraft
    split at hgraft
    · rename_i hroom
      obtain rfl := Option.some.inj hgraft
      rw [List.getLast?_concat]
      simp [Outline.openParam, Outline.length_stack_of_hasRoomAt hroom]
    · cases hgraft

theorem taken_of_foldlM (h : before.foldlM Run.push (Run.start r₀) = .ok run) :
    Taken r₀ before run := by
  obtain ⟨hchain, hgraft⟩ := foldlM_push_iff.mp ⟨run, h, rfl⟩
  have hordered : (before.map (·.sequence)).Pairwise (· < ·) := List.isChain_iff_pairwise.mp hchain
  obtain ⟨hstart, hempty⟩ := start_sound r₀
  obtain ⟨hsound, hlisting⟩ := hstart.graftAll (fun _ => leaf_of_mem_nodes)
    (fun _ => not_blank_of_mem_nodes) (by rw [hempty]; exact ordered_nodes hordered) hgraft
  refine ⟨subprogram_graftAll hgraft, lastSequence_foldlM h, hsound, ?_, ?_⟩
  · rw [hlisting, hempty, List.nil_append]
  · rw [length_stack_graftAll rfl hgraft]
    simp [nodes, described, List.getLast?_map, Function.comp_def]

/-- A row that is not behind the last one is refused for that. -/
theorem checkOrder_eq_error_iff : run.checkOrder r = .error e ↔
    ∃ previous ∈ run.lastSequence, r.sequence ≤ previous ∧
      .outOfOrder run.signature.displayName r.sequence previous = e := by
  rw [Run.checkOrder]
  cases run.lastSequence with
  | none => simp
  | some previous =>
      by_cases h : r.sequence ≤ previous
      · simp [h]
      · simp [h]

/-- A nested row is refused if the level above it is not open, or no composite is open there, or a
collection or cursor that has its element. -/
theorem checkParent_eq_error_iff : o.checkParent r = .error e ↔ 0 < r.level ∧
    (((o.stack.length ≠ r.level ∨
          ∃ p rest, o.stack = p :: rest ∧ p.tree.compositeKind? = none) ∧
        .orphanLevel o.signature.displayName r.sequence r.level (r.level - 1) = e) ∨
      ∃ p rest, o.stack = p :: rest ∧ o.stack.length = r.level ∧
        (p.tree.compositeKind? = some .collection ∨ p.tree.compositeKind? = some .cursor) ∧
        p.tree.children ≠ [] ∧
        .collectionArity o.signature.displayName p.tree.name r.sequence = e) := by
  rw [Outline.checkParent]
  by_cases hlevel : r.level = 0
  · simp [hlevel]
  rw [if_neg hlevel]
  cases hstack : o.stack with
  | nil => simp [Nat.pos_of_ne_zero hlevel, Ne.symm hlevel]
  | cons p rest =>
      by_cases hlength : rest.length + 1 = r.level
      · cases hkind : p.tree.compositeKind? with
        | none => simp [← hlength, hkind]
        | some kind =>
            cases kind <;> cases hchildren : p.tree.children <;>
              simp [← hlength, hkind, hchildren]
      · simp [hlength, Nat.pos_of_ne_zero hlevel]

theorem push_eq_error_iff_check : run.push r = .error e ↔ run.checkOrder r = .error e ∨
    run.checkOrder r = .ok () ∧ r.isPlaceholder = false ∧
      (run.toOutline.closeTo r.level).checkParent r = .error e := by
  rw [Run.push]
  cases run.checkOrder r with
  | error e' => simp [bind, Except.bind]
  | ok u =>
      cases r.isPlaceholder with
      | true => simp [bind, Except.bind, pure, Except.pure]
      | false =>
          cases hcheck : (run.toOutline.closeTo r.level).checkParent r with
          | error e' => simp [hcheck, bind, Except.bind]
          | ok u => simp [hcheck, bind, Except.bind, pure, Except.pure]

theorem displayName_eq {s : Signature} (h : r.subprogram = s.subprogram) :
    s.displayName = r.routineName := by
  simp only [ArgumentRow.subprogram, Signature.subprogram, Prod.mk.injEq] at h
  obtain ⟨-, hpackage, hobject, -⟩ := h
  simp only [Signature.displayName, ArgumentRow.routineName, hpackage, hobject]

namespace Taken

variable (h : Taken r₀ before run)
include h

theorem follows_iff : Follows before r ↔ run.checkOrder r = .ok () := by
  rw [checkOrder_eq_ok_iff, h.last, Follows]
  simp

theorem detached_iff (hlevel : 0 < r.level) :
    Detached before r ↔ (run.toOutline.closeTo r.level).stack.length ≠ r.level := by
  rw [Outline.length_stack_closeTo, h.open_eq, Detached]
  cases (described before).getLast? with
  | none => simpa using Nat.ne_of_lt hlevel
  | some previous =>
      simp only [Option.mem_some_iff, forall_eq', Option.map_some, Option.getD_some]
      omega

/-- With the level above the row open, its parent is on top. -/
theorem exists_top (hlevel : 0 < r.level)
    (hopen : (run.toOutline.closeTo r.level).stack.length = r.level) :
    ∃ p rest parent back, (run.toOutline.closeTo r.level).stack = p :: rest ∧
      Above before r.level parent back ∧ parent.argumentName = p.tree.name ∧
      parent.spec.compositeKind? = p.tree.compositeKind? ∧
      ((∃ x ∈ back, x.level = r.level) ↔ p.tree.children ≠ []) := by
  have hlisting := (h.sound.closeTo r.level).2.trans h.listing
  obtain ⟨p, rest, hstack⟩ := List.exists_cons_of_length_pos (hopen ▸ hlevel)
  obtain ⟨parent, back, habove, hname, hspec, htaken⟩ := exists_above hlisting hstack
  rw [hstack, List.length_cons] at hopen
  rw [hopen] at habove htaken
  have hkind : parent.spec.compositeKind? = p.tree.compositeKind? := by
    rw [ParamTree.compositeKind?, hspec]
  exact ⟨p, rest, parent, back, hstack, habove, hname, hkind, htaken⟩

/-- The level above the row has no composite open: the row is cut off, or its parent is scalar. -/
theorem orphan_iff (hlevel : 0 < r.level) :
    ((run.toOutline.closeTo r.level).stack.length ≠ r.level ∨
      ∃ p rest, (run.toOutline.closeTo r.level).stack = p :: rest ∧
        p.tree.compositeKind? = none) ↔
    Detached before r ∨
      ∃ parent back, Above before r.level parent back ∧ parent.spec.compositeKind? = none := by
  have htop := h.exists_top hlevel
  rw [h.detached_iff hlevel]
  generalize run.toOutline.closeTo r.level = o at htop ⊢
  by_cases hopen : o.stack.length = r.level
  · obtain ⟨p, rest, parent, back, hstack, habove, -, hkind, -⟩ := htop hopen
    simp only [hopen, ne_eq, not_true_eq_false, false_or]
    constructor
    · rintro ⟨q, rest', hq, hnone⟩
      rw [hstack, List.cons.injEq] at hq
      rw [← hq.1, ← hkind] at hnone
      exact ⟨parent, back, habove, hnone⟩
    · rintro ⟨parent', back', habove', hnone⟩
      rw [← (habove.unique habove').1, hkind] at hnone
      exact ⟨p, rest, hstack, hnone⟩
  · simp [hopen]

/-- The collection or cursor that is open above the row has its element. -/
theorem full_iff (hlevel : 0 < r.level) :
    (∃ p rest, (run.toOutline.closeTo r.level).stack = p :: rest ∧
      (run.toOutline.closeTo r.level).stack.length = r.level ∧
      (p.tree.compositeKind? = some .collection ∨ p.tree.compositeKind? = some .cursor) ∧
      p.tree.children ≠ [] ∧
      .collectionArity r.routineName p.tree.name r.sequence = e) ↔
    ¬ Detached before r ∧ ∃ parent back, Above before r.level parent back ∧
      (parent.spec.compositeKind? = some .collection ∨
        parent.spec.compositeKind? = some .cursor) ∧
      (∃ x ∈ back, x.level = r.level) ∧
      .collectionArity r.routineName parent.argumentName r.sequence = e := by
  have htop := h.exists_top hlevel
  rw [h.detached_iff hlevel]
  generalize run.toOutline.closeTo r.level = o at htop ⊢
  by_cases hopen : o.stack.length = r.level
  · obtain ⟨p, rest, parent, back, hstack, habove, hargument, hkind, htaken⟩ := htop hopen
    simp only [hopen, ne_eq, not_true_eq_false, not_false_eq_true, true_and]
    constructor
    · rintro ⟨q, rest', hq, hsome, hchildren, he⟩
      rw [hstack, List.cons.injEq] at hq
      rw [← hq.1] at hsome hchildren he
      rw [← hkind] at hsome
      rw [← hargument] at he
      exact ⟨parent, back, habove, hsome, htaken.mpr hchildren, he⟩
    · rintro ⟨parent', back', habove', hsome, htaken', he⟩
      obtain ⟨hparent, hback⟩ := habove.unique habove'
      rw [← hparent, hkind] at hsome
      rw [← hback] at htaken'
      rw [← hparent, hargument] at he
      exact ⟨p, rest, hstack, hsome, htaken.mp htaken', he⟩
  · simp [hopen]

end Taken

/-- **A row is refused exactly if it breaks its run**, and for the reason that it does. -/
theorem push_eq_error_iff (h : Taken r₀ before run) (hr : r.subprogram = r₀.subprogram) :
    run.push r = .error e ↔ Breaks before r e := by
  have hname : run.signature.displayName = r.routineName :=
    displayName_eq (hr.trans h.subprogram_eq.symm)
  have hname' : (run.toOutline.closeTo r.level).signature.displayName = r.routineName :=
    displayName_eq ((hr.trans h.subprogram_eq.symm).trans (subprogram_closeTo _ _).symm)
  rw [push_eq_error_iff_check, checkOrder_eq_error_iff, checkParent_eq_error_iff, ← h.follows_iff,
    h.last, hname, hname']
  -- each side of the equivalence lists the same four reasons
  constructor
  · rintro (⟨_, hlast, horder, rfl⟩ | ⟨hfollows, hparameter, hlevel, ⟨horphan, rfl⟩ | hfull⟩)
    · obtain ⟨previous, hprevious, rfl⟩ := Option.map_eq_some_iff.mp hlast
      exact .outOfOrder hprevious horder
    · rcases (h.orphan_iff hlevel).mp horphan with hdetached | ⟨parent, back, habove, hnone⟩
      · exact .detached hfollows hparameter hlevel hdetached
      · exact .scalar hfollows hparameter hlevel habove hnone
    · obtain ⟨hattached, parent, back, habove, hsome, htaken, rfl⟩ := (h.full_iff hlevel).mp hfull
      exact .full hfollows hparameter hlevel hattached habove hsome htaken
  · rintro (⟨hlast, horder⟩ | ⟨hfollows, hparameter, hlevel, hdetached⟩ |
      ⟨hfollows, hparameter, hlevel, habove, hnone⟩ |
      ⟨hfollows, hparameter, hlevel, hattached, habove, hsome, htaken⟩)
    · exact .inl ⟨_, Option.mem_map_of_mem _ hlast, horder, rfl⟩
    · have horphan := (h.orphan_iff hlevel).mpr (.inl hdetached)
      exact .inr ⟨hfollows, hparameter, hlevel, .inl ⟨horphan, rfl⟩⟩
    · have horphan := (h.orphan_iff hlevel).mpr (.inr ⟨_, _, habove, hnone⟩)
      exact .inr ⟨hfollows, hparameter, hlevel, .inl ⟨horphan, rfl⟩⟩
    · have hfull := (h.full_iff hlevel).mpr ⟨hattached, _, _, habove, hsome, htaken, rfl⟩
      exact .inr ⟨hfollows, hparameter, hlevel, .inr hfull⟩

/-! ## A run -/

/-- The run is taken up exactly if no row breaks it. -/
theorem exists_foldlM_push_iff (hsame : ∀ a ∈ before, a.subprogram = r₀.subprogram) :
    (∃ run, before.foldlM Run.push (Run.start r₀) = .ok run) ↔ Unbroken before := by
  constructor
  · rintro ⟨run, hrun⟩ front r back rfl e hbreaks
    rw [List.foldlM_append] at hrun
    cases hfront : front.foldlM Run.push (Run.start r₀) with
    | error e' =>
        rw [hfront] at hrun
        cases hrun
    | ok run₁ =>
        rw [hfront] at hrun
        have hpush := (push_eq_error_iff (taken_of_foldlM hfront) (hsame r (by simp))).mpr hbreaks
        simp [bind, Except.bind, hpush] at hrun
  · intro hunbroken
    cases hfold : before.foldlM Run.push (Run.start r₀) with
    | ok run => exact ⟨run, rfl⟩
    | error e =>
        obtain ⟨front, r, back, run₁, rfl, hfront, hpush⟩ := foldlM_eq_error_iff.mp hfold
        have hbreaks := (push_eq_error_iff (taken_of_foldlM hfront) (hsame r (by simp))).mp hpush
        exact absurd hbreaks (hunbroken front r back rfl e)

/-- A run is refused for the first row that breaks it. -/
theorem foldlM_push_eq_error_iff {rows : List ArgumentRow}
    (hsame : ∀ a ∈ rows, a.subprogram = r₀.subprogram) :
    rows.foldlM Run.push (Run.start r₀) = .error e ↔
      ∃ before r after, rows = before ++ r :: after ∧ Unbroken before ∧ Breaks before r e := by
  rw [foldlM_eq_error_iff]
  constructor
  · rintro ⟨before, r, after, run, rfl, hbefore, hpush⟩
    have hfront : ∀ a ∈ before, a.subprogram = r₀.subprogram := fun a ha => hsame a (by simp [ha])
    have hunbroken := (exists_foldlM_push_iff hfront).mp ⟨run, hbefore⟩
    have hbreaks := (push_eq_error_iff (taken_of_foldlM hbefore) (hsame r (by simp))).mp hpush
    exact ⟨before, r, after, rfl, hunbroken, hbreaks⟩
  · rintro ⟨before, r, after, rfl, hunbroken, hbreaks⟩
    have hfront : ∀ a ∈ before, a.subprogram = r₀.subprogram := fun a ha => hsame a (by simp [ha])
    obtain ⟨run, hbefore⟩ := (exists_foldlM_push_iff hfront).mpr hunbroken
    have hpush := (push_eq_error_iff (taken_of_foldlM hbefore) (hsame r (by simp))).mpr hbreaks
    exact ⟨before, r, after, run, rfl, hbefore, hpush⟩

end Open

/-! ## All runs -/

/-- The first row that breaks its run does so for the reason `e`. -/
def FirstBreak (runs : List (List ArgumentRow)) (e : RowError) : Prop :=
  ∃ earlier before r after later, runs = earlier ++ (before ++ r :: after) :: later ∧
    (∀ run ∈ earlier, Unbroken run) ∧ Unbroken before ∧ Breaks before r e

theorem firstBreak_cons_iff {run : List ArgumentRow} {runs : List (List ArgumentRow)}
    {e : RowError} : FirstBreak (run :: runs) e ↔
      (∃ before r after, run = before ++ r :: after ∧ Unbroken before ∧ Breaks before r e) ∨
        Unbroken run ∧ FirstBreak runs e := by
  constructor
  · rintro ⟨earlier, before, r, after, later, hsplit, hearlier, hbefore, hbreaks⟩
    cases earlier with
    | nil => exact .inl ⟨before, r, after, (List.cons.inj hsplit).1, hbefore, hbreaks⟩
    | cons first earlier =>
        obtain ⟨rfl, rfl⟩ := List.cons.inj hsplit
        obtain ⟨hfirst, hearlier⟩ := List.forall_mem_cons.mp hearlier
        exact .inr ⟨hfirst, earlier, before, r, after, later, rfl, hearlier, hbefore, hbreaks⟩
  · rintro (⟨before, r, after, rfl, hbefore, hbreaks⟩ |
      ⟨hrun, earlier, before, r, after, later, rfl, hearlier, hbefore, hbreaks⟩)
    · exact ⟨[], before, r, after, runs, rfl, by simp, hbefore, hbreaks⟩
    · exact ⟨run :: earlier, before, r, after, later, rfl,
        List.forall_mem_cons.mpr ⟨hrun, hearlier⟩, hbefore, hbreaks⟩

theorem length_dropWhile_lt (r : ArgumentRow) (rs : List ArgumentRow) :
    (rs.dropWhile (sameSubprogram r)).length < (r :: rs).length :=
  Nat.lt_succ_of_le (List.dropWhile_sublist (sameSubprogram r)).length_le

theorem signaturesFrom_none_refused (rows : List ArgumentRow) :
    ((∃ ss, signaturesFrom none rows = .ok ss) ↔
        ∀ run ∈ rows.splitBy sameSubprogram, Unbroken run) ∧
      ∀ e, signaturesFrom none rows = .error e ↔ FirstBreak (rows.splitBy sameSubprogram) e := by
  match rows with
  | [] => simp [signaturesFrom, FirstBreak]
  | r :: rs =>
      -- one run at a time: the rows behind the first run are fewer
      obtain ⟨ihok, iherror⟩ := signaturesFrom_none_refused (rs.dropWhile (sameSubprogram r))
      have hsame : ∀ a ∈ r :: rs.takeWhile (sameSubprogram r), a.subprogram = r.subprogram :=
        fun a ha => subprogram_of_mem_takeWhile ha
      have hok := exists_foldlM_push_iff hsame
      rw [signaturesFrom_none_cons, splitBy_cons]
      constructor
      · rw [exists_both_iff, List.forall_mem_cons, hok, ihok]
      · intro e
        rw [both_eq_error_iff, firstBreak_cons_iff, foldlM_push_eq_error_iff hsame, hok, iherror]
termination_by rows.length
decreasing_by exact length_dropWhile_lt r rs

/-- **Exactly the rows that break a run are refused.** Rows make signatures if no row breaks its
run. Otherwise they make an error, that of the first row that does. -/
theorem signatures_refused (keep : String → Bool) (rows : List ArgumentRow) :
    ((∃ ss, signatures keep rows = .ok ss) ↔ ∀ run ∈ runs keep rows, Unbroken run) ∧
      ∀ e, signatures keep rows = .error e ↔
        ∃ earlier before r after later,
          runs keep rows = earlier ++ (before ++ r :: after) :: later ∧
          (∀ run ∈ earlier, Unbroken run) ∧ Unbroken before ∧ Breaks before r e :=
  signaturesFrom_none_refused (rows.filter (accepts keep))

end Grouping

end RoutineBridge
