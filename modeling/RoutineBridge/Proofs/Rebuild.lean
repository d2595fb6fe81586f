import RoutineBridge.Proofs.Outline

/-!
# Rows rebuild their tree

The rows of a well-formed tree, taken up one after the other, always find a place, and once they are
closed the tree stands below whatever is open above it (`graftAll_rows`). So the rows of a
well-formed signature rebuild it (`Signature.WellFormed.rebuild`): the first unnamed parameter at
the top becomes its result, the others become its arguments.
-/

namespace RoutineBridge

namespace Grouping.Outline

/-- Puts a finished tree below the deepest open parameter, or into the signature. -/
def receive (o : Outline) (t : ParamTree) : Outline :=
  match o.stack with
  | [] => ⟨attach o.signature ⟨t, t.name.isEmpty && o.signature.returns.isNone⟩, []⟩
  | parent :: rest =>
    ⟨o.signature, { parent with tree := parent.tree.adopt t } :: rest⟩

theorem closeTop_openParam {o : Outline} {t : ParamTree} {level : Nat}
    (h : o.stack.length = level) : (o.openParam t level).closeTop = o.receive t := by
  obtain ⟨s, stack⟩ := o
  subst h
  cases stack <;> simp [openParam, closeTop, receive]

theorem length_stack_receive (o : Outline) (t : ParamTree) :
    (o.receive t).stack.length = o.stack.length := by
  obtain ⟨s, stack⟩ := o
  cases stack <;> rfl

/-- Trees that an open parameter receives become its children in order. -/
theorem foldl_receive_cons (s : Signature) (p : OpenParam) (rest : List OpenParam)
    (ts : List ParamTree) :
    ts.foldl receive ⟨s, p :: rest⟩ =
      ⟨s, { p with tree := { p.tree with children := p.tree.children ++ ts } } :: rest⟩ := by
  induction ts generalizing p with
  | nil =>
      obtain ⟨⟨name, direction, sequence, spec, children⟩, isResult⟩ := p
      simp
  | cons t ts ih =>
      rw [List.foldl_cons]
      show ts.foldl receive ⟨s, { p with tree := p.tree.adopt t } :: rest⟩ = _
      rw [ih]
      simp [ParamTree.adopt]

/-- The rows of a forest are taken up if each tree in it can be and finds room. -/
theorem graftAll_rowsBelow {depth : Nat} {ts : List ParamTree}
    (htree : ∀ t ∈ ts, ∀ o : Outline, (o.closeTo depth).hasRoomAt depth →
      ∃ o', o.graftAll (t.rows depth) = some o' ∧
        o'.closeTo depth = (o.closeTo depth).receive t)
    {o : Outline}
    (hroom : ∀ before t after, ts = before ++ t :: after →
      (before.foldl receive (o.closeTo depth)).hasRoomAt depth) :
    ∃ o', o.graftAll (ParamTree.rowsBelow depth ts) = some o' ∧
      o'.closeTo depth = ts.foldl receive (o.closeTo depth) := by
  induction ts generalizing o with
  | nil => exact ⟨o, rfl, rfl⟩
  | cons t ts ih =>
      obtain ⟨o₁, hfirst, hclosed⟩ := htree t List.mem_cons_self o (hroom [] t ts rfl)
      have hrest : ∀ before u after, ts = before ++ u :: after →
          (before.foldl receive (o₁.closeTo depth)).hasRoomAt depth := by
        intro before u after hts
        rw [hclosed]
        exact hroom (t :: before) u after (by rw [hts]; rfl)
      obtain ⟨o', hgraft, hclosed'⟩ :=
        ih (fun u hu => htree u (List.mem_cons_of_mem _ hu)) hrest
      refine ⟨o', ?_, ?_⟩
      · rw [ParamTree.rowsBelow, graftAll_append, hfirst]
        exact hgraft
      · rw [hclosed', hclosed]
        rfl

/-- The rows of a well-formed tree are taken up wherever there is room for its first one, and
rebuild the tree there. -/
theorem graftAll_rows {t : ParamTree} (h : t.WellFormed) (o : Outline) (depth : Nat)
    (hroom : (o.closeTo depth).hasRoomAt depth) :
    ∃ o', o.graftAll (t.rows depth) = some o' ∧
      o'.closeTo depth = (o.closeTo depth).receive t := by
  induction h generalizing o depth with
  | @node t composite single below ih =>
      have hlength := length_stack_of_hasRoomAt hroom
      -- the tree's own row opens it; its children then arrive one level deeper
      have hgraft : o.graft t.bare depth = some ((o.closeTo depth).openParam t.bare depth) := by
        rw [graft, if_pos hroom]
      generalize o.closeTo depth = closed at *
      obtain ⟨s, stack⟩ := closed
      simp only at hlength
      have hopen : ((Outline.mk s stack).openParam t.bare depth).closeTo (depth + 1) =
          (Outline.mk s stack).openParam t.bare depth := by
        apply closeTo_of_le
        simp [openParam, hlength]
      have hchildren : ∀ before u after, t.children = before ++ u :: after →
          (before.foldl receive (((Outline.mk s stack).openParam t.bare depth).closeTo
            (depth + 1))).hasRoomAt (depth + 1) := by
        intro before u after hsplit
        have hkind : t.compositeKind? ≠ none := composite (by simp [hsplit])
        -- a collection or cursor has one child, so nothing came before it
        have hfew : t.compositeKind? = some .collection ∨ t.compositeKind? = some .cursor →
            before = [] := by
          intro hkind
          have hcount := single hkind
          rw [hsplit, List.length_append, List.length_cons] at hcount
          exact List.eq_nil_of_length_eq_zero (by omega)
        rw [hopen, openParam, foldl_receive_cons, hasRoomAt, Bool.and_eq_true]
        exact ⟨by simp [hlength], ParamTree.hasRoom_iff.mpr
          ⟨hkind, fun hkind => by simp [ParamTree.bare, hfew hkind]⟩⟩
      obtain ⟨o', hbelow, hclosed'⟩ := graftAll_rowsBelow
        (fun c hc o hroom => ih c hc o (depth + 1) hroom) hchildren
      refine ⟨o', ?_, ?_⟩
      · rw [ParamTree.rows_eq, graftAll_cons, hgraft]
        exact hbelow
      · have hwhole : t.children.foldl receive ((Outline.mk s stack).openParam t.bare depth) =
            (Outline.mk s stack).openParam t depth := by
          rw [openParam, foldl_receive_cons]
          cases t
          rfl
        rw [← closeTo_closeTo o' (Nat.le_succ depth), hclosed', hopen, hwhole,
          closeTo_of_lt (by simp [openParam, hlength]), closeTop_openParam hlength,
          closeTo_of_le (by rw [length_stack_receive]; exact hlength.le)]

/-! ## Whole signatures -/

/-- Behind a result everything that a signature receives is an argument. -/
theorem foldl_receive_of_isSome (s : Signature) (ts : List ParamTree) (h : s.returns.isSome) :
    ts.foldl receive ⟨s, []⟩ = ⟨{ s with arguments := s.arguments ++ ts }, []⟩ := by
  induction ts generalizing s with
  | nil => simp
  | cons t ts ih =>
      have hreceive : receive ⟨s, []⟩ t = ⟨{ s with arguments := s.arguments ++ [t] }, []⟩ := by
        simp [receive, attach, Option.isNone_eq_false_iff.mpr h]
      rw [List.foldl_cons, hreceive, ih { s with arguments := s.arguments ++ [t] } h]
      simp

/-- Of the trees that a signature without a result receives, the first unnamed one becomes the
result and the others become arguments. -/
theorem foldl_receive_of_isNone (s : Signature) (ts : List ParamTree) (h : s.returns = none) :
    ts.foldl receive ⟨s, []⟩ =
      ⟨{ s with
          arguments := s.arguments ++ ts.eraseP (·.name.isEmpty)
          returns := ts.find? (·.name.isEmpty) }, []⟩ := by
  induction ts generalizing s with
  | nil => simp [← h]
  | cons t ts ih =>
      rw [List.foldl_cons]
      cases hname : t.name.isEmpty with
      | false =>
          have hreceive : receive ⟨s, []⟩ t =
              ⟨{ s with arguments := s.arguments ++ [t] }, []⟩ := by
            simp [receive, attach, hname]
          rw [hreceive, ih { s with arguments := s.arguments ++ [t] } h]
          simp [hname]
      | true =>
          have hreceive : receive ⟨s, []⟩ t = ⟨{ s with returns := some t }, []⟩ := by
            simp [receive, attach, hname, h]
          rw [hreceive, foldl_receive_of_isSome _ _ rfl]
          simp [hname]

/-- The rows of all top-level parameters are taken up, and closing them gives the signature that
received the parameters. -/
theorem graftAll_topLevel {ts : List ParamTree} (h : ∀ t ∈ ts, t.WellFormed) (s : Signature) :
    ∃ o, (Outline.mk s []).graftAll (ParamTree.rowsBelow 0 ts) = some o ∧
      o.closeTo 0 = ts.foldl receive ⟨s, []⟩ :=
  graftAll_rowsBelow (fun t ht o hroom => graftAll_rows (h t ht) o 0 hroom) fun _ _ _ _ => rfl

end Grouping.Outline

/-- The arguments are what is left at the top without the result. -/
theorem Signature.arguments_eq_eraseP {s : Signature}
    (h : s.returns = s.topLevel.find? (·.name.isEmpty)) :
    s.arguments = s.topLevel.eraseP (·.name.isEmpty) := by
  cases hreturns : s.returns with
  | none =>
      have htop : s.topLevel = s.arguments := by rw [Signature.topLevel, hreturns]
      rw [htop, hreturns, eq_comm, List.find?_eq_none] at h
      rw [htop, List.eraseP_of_forall_not h]
  | some result =>
      rw [hreturns, eq_comm] at h
      have hunnamed := List.find?_some h
      rw [Signature.topLevel, hreturns] at h ⊢
      simp only at h ⊢
      -- an unnamed argument before the result would have been found instead of it
      have hnamed : ∀ t ∈ s.arguments.takeWhile (·.sequence < result.sequence),
          ¬ t.name.isEmpty := by
        intro t ht hempty
        rw [List.find?_append] at h
        cases hfind : (s.arguments.takeWhile (·.sequence < result.sequence)).find?
            (·.name.isEmpty) with
        | none => exact List.find?_eq_none.mp hfind t ht hempty
        | some u =>
            rw [hfind] at h
            obtain rfl : u = result := Option.some.inj h
            have hlt := List.mem_takeWhile_imp (List.mem_of_find?_eq_some hfind)
            simp at hlt
      rw [List.eraseP_append_right _ hnamed,
        List.eraseP_cons_of_pos (p := fun t : ParamTree => t.name.isEmpty) hunnamed,
        List.takeWhile_append_dropWhile]

/-- A well-formed signature is rebuilt from its rows, starting from its bare name. -/
theorem Signature.WellFormed.rebuild {s : Signature} (h : s.WellFormed) :
    ∃ o, (Grouping.Outline.mk { s with arguments := [], returns := none } []).graftAll s.rows =
      some o ∧ (o.closeTo 0).signature = s := by
  obtain ⟨o, hgraft, hclosed⟩ :=
    Grouping.Outline.graftAll_topLevel h.trees { s with arguments := [], returns := none }
  refine ⟨o, hgraft, ?_⟩
  rw [hclosed, Grouping.Outline.foldl_receive_of_isNone _ _ rfl, ← h.result, List.nil_append,
    ← Signature.arguments_eq_eraseP h.result]

end RoutineBridge
