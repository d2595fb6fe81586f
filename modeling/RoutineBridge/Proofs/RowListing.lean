import Mathlib.Data.List.Forall2
import Mathlib.Data.List.SplitBy
import RoutineBridge.Proofs.Rebuild
import RoutineBridge.Proofs.Trimming

/-!
# Rows and signatures are inverse to each other

The accepted rows fall into maximal runs of one subprogram. Grouping gives one signature for each
run, and listing the signature gives back the rows of its run (`Grouping.signatures_iff_lists`). The
same statement read backwards says that the rows of well-formed signatures are grouped into exactly
these signatures.
-/

namespace RoutineBridge

/-- What tells one subprogram from another. -/
def ArgumentRow.subprogram (r : ArgumentRow) : String × String × String × Nat :=
  (r.owner, r.package, r.object, r.subprogramId)

def Signature.subprogram (s : Signature) : String × String × String × Nat :=
  (s.owner, s.package, s.name, s.subprogramId)

theorem Signature.owns_iff {s : Signature} {r : ArgumentRow} :
    s.owns r ↔ s.subprogram = r.subprogram := by
  simp [Signature.owns, Signature.subprogram, ArgumentRow.subprogram, and_assoc]

namespace Grouping

/-- The two rows belong to one subprogram. -/
def sameSubprogram (a b : ArgumentRow) : Bool := a.subprogram == b.subprogram

/-- The maximal runs of consecutive accepted rows that belong to one subprogram. -/
def runs (keep : String → Bool) (rows : List ArgumentRow) : List (List ArgumentRow) :=
  (rows.filter (accepts keep)).splitBy sameSubprogram

/-- What rows say about their parameters, with their levels. A placeholder says nothing. -/
def nodes (rows : List ArgumentRow) : List (ParamTree × Nat) :=
  (rows.filter (!·.isPlaceholder)).map fun r => (.ofRow r, r.level)

/-- The rows are those of the signature: they name it, their sequence numbers increase, and apart
from placeholders they are the listing of its parameters, each row once and in order. -/
structure Lists (s : Signature) (run : List ArgumentRow) : Prop where
  owned : ∀ r ∈ run, r.subprogram = s.subprogram
  ordered : (run.map (·.sequence)).Pairwise (· < ·)
  rows : s.rows = nodes run

/-! ## One run -/

theorem checkOrder_eq_ok_iff {run : Run} {r : ArgumentRow} :
    run.checkOrder r = .ok () ↔ ∀ previous ∈ run.lastSequence, previous < r.sequence := by
  rw [Run.checkOrder]
  cases run.lastSequence with
  | none => simp
  | some previous =>
      by_cases h : r.sequence ≤ previous
      · simp [h]
      · simp [h]
        omega

theorem checkParent_eq_ok_iff {o : Outline} {r : ArgumentRow} :
    o.checkParent r = .ok () ↔ o.hasRoomAt r.level := by
  rw [Outline.checkParent]
  cases hlevel : r.level with
  | zero => simp [Outline.hasRoomAt]
  | succ level =>
      cases hstack : o.stack with
      | nil => simp [Outline.hasRoomAt, hstack]
      | cons parent rest =>
          by_cases hlength : rest.length = level
          · simp only [Outline.hasRoomAt, hstack, ParamTree.hasRoom, List.length_cons, hlength]
            cases parent.tree.compositeKind? with
            | none => simp
            | some kind =>
                cases kind <;> cases parent.tree.children.isEmpty <;> simp
          · simp [Outline.hasRoomAt, hstack, hlength]

/-- A row is taken up if it follows the row before it and its parameter, if it has one, finds a
place. -/
theorem push_eq_ok_iff {run run' : Run} {r : ArgumentRow} :
    run.push r = .ok run' ↔
      (∀ previous ∈ run.lastSequence, previous < r.sequence) ∧
        run.toOutline.graftAll (nodes [r]) = some run'.toOutline ∧
          run'.lastSequence = some r.sequence := by
  obtain ⟨o', last'⟩ := run'
  rw [← checkOrder_eq_ok_iff, Run.push]
  cases horder : run.checkOrder r with
  | error e => simp [bind, Except.bind]
  | ok u =>
      cases hplaceholder : r.isPlaceholder with
      | true =>
          -- a placeholder moves the sequence number on and nothing else
          simp [nodes, hplaceholder, Outline.graftAll, bind, Except.bind, pure, Except.pure,
            eq_comm]
      | false =>
          have hnodes : nodes [r] = [(.ofRow r, r.level)] := by simp [nodes, hplaceholder]
          have hparent := checkParent_eq_ok_iff (o := run.toOutline.closeTo r.level) (r := r)
          rw [hnodes, Outline.graftAll_cons, Outline.graft]
          cases hcheck : (run.toOutline.closeTo r.level).checkParent r with
          | error e =>
              have hfull : (run.toOutline.closeTo r.level).hasRoomAt r.level = false := by
                simpa [hcheck] using hparent
              simp [hcheck, hfull, bind, Except.bind]
          | ok u =>
              have hroom : (run.toOutline.closeTo r.level).hasRoomAt r.level = true :=
                hparent.mp hcheck
              simp [hcheck, hroom, Outline.graftAll, bind, Except.bind, pure, Except.pure, eq_comm]

/-- Rows are taken up if their sequence numbers increase and all their parameters find a place. -/
theorem foldlM_push_iff {run : Run} {rows : List ArgumentRow} {o : Outline} :
    (∃ run', rows.foldlM Run.push run = .ok run' ∧ run'.toOutline = o) ↔
      (run.lastSequence.toList ++ rows.map (·.sequence)).IsChain (· < ·) ∧
        run.toOutline.graftAll (nodes rows) = some o := by
  induction rows generalizing run with
  | nil =>
      have hchain : run.lastSequence.toList.IsChain (· < ·) := by
        cases run.lastSequence <;> simp
      simp [nodes, Outline.graftAll, hchain, pure, Except.pure]
  | cons r rs ih =>
      have hnodes : nodes (r :: rs) = nodes [r] ++ nodes rs := by
        simp [nodes, List.filter_cons]
        split <;> simp
      have hchain : (run.lastSequence.toList ++ (r :: rs).map (·.sequence)).IsChain (· < ·) ↔
          (∀ previous ∈ run.lastSequence, previous < r.sequence) ∧
            (r.sequence :: rs.map (·.sequence)).IsChain (· < ·) := by
        cases run.lastSequence <;> simp
      rw [hnodes, Outline.graftAll_append, hchain]
      constructor
      · rintro ⟨run', hrun, hrun'⟩
        rw [List.foldlM_cons] at hrun
        cases hpush : run.push r with
        | error e => simp [hpush, bind, Except.bind] at hrun
        | ok run₁ =>
            rw [hpush] at hrun
            obtain ⟨hfollows, hgraft, hlast⟩ := push_eq_ok_iff.mp hpush
            obtain ⟨hrest, hgraft'⟩ := ih.mp ⟨run', hrun, hrun'⟩
            rw [hlast] at hrest
            exact ⟨⟨hfollows, hrest⟩, Option.bind_eq_some_iff.mpr ⟨_, hgraft, hgraft'⟩⟩
      · rintro ⟨⟨hfollows, hrest⟩, hgraft⟩
        obtain ⟨o₁, hfirst, hgraft'⟩ := Option.bind_eq_some_iff.mp hgraft
        have hpush : run.push r = .ok ⟨o₁, some r.sequence⟩ :=
          push_eq_ok_iff.mpr ⟨hfollows, hfirst, rfl⟩
        obtain ⟨run', hrun, hrun'⟩ := (@ih ⟨o₁, some r.sequence⟩).mpr ⟨hrest, hgraft'⟩
        refine ⟨run', ?_, hrun'⟩
        rw [List.foldlM_cons, hpush]
        exact hrun

theorem subprogram_closeTo (o : Outline) (depth : Nat) :
    (o.closeTo depth).signature.subprogram = o.signature.subprogram := by
  refine Outline.closeTo_induction
    (P := fun o' => o'.signature.subprogram = o.signature.subprogram) ?_ depth rfl
  intro o' ho
  rw [← ho, Outline.closeTop]
  split
  · rfl
  · rw [Outline.attach]
    split <;> rfl
  · rfl

theorem subprogram_graftAll {o o' : Outline} {ns : List (ParamTree × Nat)}
    (h : o.graftAll ns = some o') : o'.signature.subprogram = o.signature.subprogram := by
  induction ns generalizing o with
  | nil =>
      obtain rfl := Option.some.inj h
      rfl
  | cons n ns ih =>
      obtain ⟨o₁, hfirst, hrest⟩ := Option.bind_eq_some_iff.mp h
      rw [ih hrest]
      simp only [Outline.graft] at hfirst
      split at hfirst
      · obtain rfl := Option.some.inj hfirst
        exact subprogram_closeTo o n.2
      · contradiction

/-- Nothing is listed before the first row. -/
theorem start_sound (r : ArgumentRow) :
    (Run.start r).toOutline.Sound ∧ (Run.start r).toOutline.listing = [] := by
  have hlisting : (Run.start r).toOutline.listing = [] := rfl
  refine ⟨⟨?_, rfl, ?_, trivial, ?_⟩, hlisting⟩
  · intro t ht
    cases ht
  · intro t ht
    cases ht
  · rw [hlisting]
    exact .nil

theorem leaf_of_mem_nodes {rows : List ArgumentRow} {n : ParamTree × Nat} (h : n ∈ nodes rows) :
    n.1.children = [] := by
  obtain ⟨r, -, rfl⟩ := List.mem_map.mp h
  rfl

theorem not_blank_of_mem_nodes {rows : List ArgumentRow} {n : ParamTree × Nat} (h : n ∈ nodes rows)
    (hlevel : n.2 = 0) : n.1.isBlank = false := by
  obtain ⟨r, hr, rfl⟩ := List.mem_map.mp h
  have hplaceholder : r.isPlaceholder = false := by simpa using (List.mem_filter.mp hr).2
  have hzero : r.level = 0 := hlevel
  simpa [ArgumentRow.isPlaceholder, hzero, ParamTree.isBlank, ParamTree.ofRow, ArgumentRow.spec]
    using hplaceholder

/-- The sequence numbers of parameters are those of their rows. -/
theorem ordered_nodes {rows : List ArgumentRow} (h : (rows.map (·.sequence)).Pairwise (· < ·)) :
    ((nodes rows).map (·.1.sequence)).Pairwise (· < ·) := by
  have hmap : (nodes rows).map (·.1.sequence) =
      (rows.filter (!·.isPlaceholder)).map (·.sequence) := by
    simp [nodes, Function.comp_def, ParamTree.ofRow]
  rw [hmap]
  exact h.sublist (List.filter_sublist.map _)

/-- A run of one subprogram is taken up as the signature `s` exactly if `s` is well formed and the
rows list it. -/
theorem foldlM_push_start_iff {r : ArgumentRow} {rs : List ArgumentRow} {s : Signature}
    (hsame : ∀ r' ∈ rs, r'.subprogram = r.subprogram) :
    (∃ run, (r :: rs).foldlM Run.push (Run.start r) = .ok run ∧ run.finish = s) ↔
      Lists s (r :: rs) ∧ s.WellFormed := by
  constructor
  · rintro ⟨run, hrun, rfl⟩
    obtain ⟨hchain, hgraft⟩ := foldlM_push_iff.mp ⟨run, hrun, rfl⟩
    have hordered : ((r :: rs).map (·.sequence)).Pairwise (· < ·) :=
      List.isChain_iff_pairwise.mp hchain
    obtain ⟨hstart, hempty⟩ := start_sound r
    obtain ⟨hsound, hlisting⟩ := hstart.graftAll (fun _ => leaf_of_mem_nodes)
      (fun _ => not_blank_of_mem_nodes) (by rw [hempty]; exact ordered_nodes hordered) hgraft
    obtain ⟨hclosed, hlisting'⟩ := hsound.closeTo 0
    -- nothing is open at the end, so the listing is the signature's own
    have hstack : (run.toOutline.closeTo 0).stack = [] := by
      apply List.eq_nil_of_length_eq_zero
      rw [Outline.length_stack_closeTo]
      omega
    have hrows : (run.toOutline.closeTo 0).listing = run.finish.rows := by
      rw [Outline.listing, hstack, Outline.stackRows, List.append_nil]
      rfl
    refine ⟨⟨?_, hordered, ?_⟩, ⟨hclosed.trees, hclosed.result, hclosed.named, ?_⟩⟩
    · intro r' hr'
      have hfinish : run.finish.subprogram = r.subprogram :=
        (subprogram_closeTo _ _).trans (subprogram_graftAll hgraft)
      rw [hfinish]
      rcases List.mem_cons.mp hr' with rfl | hr'
      · rfl
      · exact hsame r' hr'
    · rw [← hrows, hlisting', hlisting, hempty]
      rfl
    · have hclosedOrdered := hclosed.ordered
      rwa [hrows] at hclosedOrdered
  · rintro ⟨hlists, hwf⟩
    obtain ⟨o, hgraft, hclosed⟩ := hwf.rebuild
    -- a run starts from the bare name, and so does rebuilding
    have hstart : (Run.start r).toOutline = ⟨{ s with arguments := [], returns := none }, []⟩ := by
      have howned := hlists.owned r List.mem_cons_self
      simp only [ArgumentRow.subprogram, Signature.subprogram, Prod.mk.injEq] at howned
      obtain ⟨howner, hpackage, hobject, hid⟩ := howned
      simp [Run.start, Signature.ofRow, howner, hpackage, hobject, hid]
    rw [hlists.rows, ← hstart] at hgraft
    have hchain : ((Run.start r).lastSequence.toList ++
        (r :: rs).map (·.sequence)).IsChain (· < ·) :=
      List.isChain_iff_pairwise.mpr hlists.ordered
    obtain ⟨run, hrun, rfl⟩ := foldlM_push_iff.mpr ⟨hchain, hgraft⟩
    exact ⟨run, hrun, hclosed⟩

/-! ## All runs -/

theorem owns_push {run run' : Run} {r : ArgumentRow} (h : run.push r = .ok run') :
    run'.signature.owns = run.signature.owns := by
  have hsame : run'.signature.subprogram = run.signature.subprogram :=
    subprogram_graftAll (push_eq_ok_iff.mp h).2.1
  funext r'
  rw [Bool.eq_iff_iff, Signature.owns_iff, Signature.owns_iff, hsame]

/-- A run takes up rows as long as they are its own; the rows behind them start anew. -/
theorem signaturesFrom_some (run : Run) (rows : List ArgumentRow) :
    signaturesFrom (some run) rows = (do
      let run' ← (rows.takeWhile run.signature.owns).foldlM Run.push run
      let rest ← signaturesFrom none (rows.dropWhile run.signature.owns)
      pure (run'.finish :: rest)) := by
  induction rows generalizing run with
  | nil => rfl
  | cons r rs ih =>
      rw [signaturesFrom, step, List.takeWhile_cons, List.dropWhile_cons]
      cases howns : run.signature.owns r with
      | true =>
          simp only [if_true]
          rw [List.foldlM_cons]
          cases hpush : run.push r with
          | error e => rfl
          | ok run₁ =>
              rw [← owns_push hpush]
              show (signaturesFrom (some run₁) rs >>= fun rest => pure ([] ++ rest)) = _
              simp only [List.nil_append, bind_pure]
              exact ih run₁
      | false =>
          -- the row is of another subprogram: the run ends before it
          simp only [Bool.false_eq_true, if_false]
          rw [List.foldlM_nil, signaturesFrom, step]
          cases hpush : (Run.start r).push r with
          | error e => rfl
          | ok run₁ =>
              show (signaturesFrom (some run₁) rs >>= fun rest => pure ([run.finish] ++ rest)) =
                ((signaturesFrom (some run₁) rs >>= fun rest => pure ([] ++ rest)) >>=
                  fun rest => pure (run.finish :: rest))
              simp

/-- The rows of the first row's subprogram make the first signature. -/
theorem signaturesFrom_none_cons (r : ArgumentRow) (rs : List ArgumentRow) :
    signaturesFrom none (r :: rs) = (do
      let run ← (r :: rs.takeWhile (sameSubprogram r)).foldlM Run.push (Run.start r)
      let rest ← signaturesFrom none (rs.dropWhile (sameSubprogram r))
      pure (run.finish :: rest)) := by
  rw [signaturesFrom, step, List.foldlM_cons]
  cases hpush : (Run.start r).push r with
  | error e => rfl
  | ok run =>
      have howns : run.signature.owns = sameSubprogram r := by
        rw [owns_push hpush]
        funext r'
        rw [Bool.eq_iff_iff, Signature.owns_iff, sameSubprogram, beq_iff_eq]
        rfl
      show (signaturesFrom (some run) rs >>= fun rest => pure ([] ++ rest)) = _
      simp only [List.nil_append, bind_pure]
      rw [signaturesFrom_some, howns]
      rfl

theorem isChain_of_uniform {run : List ArgumentRow} {id : String × String × String × Nat}
    (h : ∀ r ∈ run, r.subprogram = id) :
    run.IsChain fun a b => sameSubprogram a b = true := by
  apply List.Pairwise.isChain
  apply List.pairwise_of_forall_mem_list
  intro a ha b hb
  rw [sameSubprogram, beq_iff_eq, h a ha, h b hb]

theorem subprogram_of_mem_takeWhile {r a : ArgumentRow} {rs : List ArgumentRow}
    (h : a ∈ r :: rs.takeWhile (sameSubprogram r)) : a.subprogram = r.subprogram := by
  rcases List.mem_cons.mp h with rfl | h
  · rfl
  · have hsame := List.mem_takeWhile_imp h
    rw [sameSubprogram, beq_iff_eq] at hsame
    exact hsame.symm

/-- The first run goes as far as the first row's subprogram. -/
theorem splitBy_cons (r : ArgumentRow) (rs : List ArgumentRow) :
    (r :: rs).splitBy sameSubprogram =
      (r :: rs.takeWhile (sameSubprogram r)) ::
        (rs.dropWhile (sameSubprogram r)).splitBy sameSubprogram := by
  -- all rows of the run are of one subprogram, so what fails against the first fails against the last
  have hbreak : ∀ a ∈ (r :: rs.takeWhile (sameSubprogram r)).getLast?,
      ∀ b ∈ (rs.dropWhile (sameSubprogram r)).head?, sameSubprogram a b = false := by
    intro a ha b hb
    have hfirst := subprogram_of_mem_takeWhile (List.mem_of_mem_getLast? ha)
    have hnot := List.head?_dropWhile_not (sameSubprogram r) rs
    rw [Option.mem_def.mp hb] at hnot
    rwa [sameSubprogram, hfirst]
  calc (r :: rs).splitBy sameSubprogram
      = ((r :: rs.takeWhile (sameSubprogram r)) ++
          rs.dropWhile (sameSubprogram r)).splitBy sameSubprogram := by
        rw [List.cons_append, List.takeWhile_append_dropWhile]
    _ = _ := by
        rw [List.splitBy_append hbreak, List.splitBy_of_isChain (List.cons_ne_nil _ _)
          (isChain_of_uniform fun _ => subprogram_of_mem_takeWhile)]
        rfl

/-- Signatures come out of rows exactly if they are well formed and list the maximal runs. -/
theorem signaturesFrom_none_iff (rows : List ArgumentRow) (ss : List Signature) :
    signaturesFrom none rows = .ok ss ↔
      List.Forall₂ Lists ss (rows.splitBy sameSubprogram) ∧ ∀ s ∈ ss, s.WellFormed := by
  match rows with
  | [] =>
      constructor
      · intro h
        obtain rfl : [] = ss := Except.ok.inj h
        simp
      · rintro ⟨h, -⟩
        rw [List.splitBy_nil, List.forall₂_nil_right_iff] at h
        rw [h]
        rfl
  | r :: rs =>
      -- one run at a time: the rows behind the first run are fewer
      have ih := fun ss => signaturesFrom_none_iff (rs.dropWhile (sameSubprogram r)) ss
      have hsame : ∀ a ∈ rs.takeWhile (sameSubprogram r), a.subprogram = r.subprogram :=
        fun a ha => subprogram_of_mem_takeWhile (List.mem_cons_of_mem r ha)
      rw [signaturesFrom_none_cons, splitBy_cons]
      constructor
      · intro h
        cases hrun : (r :: rs.takeWhile (sameSubprogram r)).foldlM Run.push (Run.start r) with
        | error e => simp [hrun, bind, Except.bind] at h
        | ok run =>
            cases hrest : signaturesFrom none (rs.dropWhile (sameSubprogram r)) with
            | error e => simp [hrun, hrest, bind, Except.bind] at h
            | ok rest =>
                rw [hrun, hrest] at h
                obtain rfl : run.finish :: rest = ss := Except.ok.inj h
                obtain ⟨hlists, hwf⟩ := (foldlM_push_start_iff hsame).mp ⟨run, hrun, rfl⟩
                obtain ⟨hlists', hwf'⟩ := (ih rest).mp hrest
                exact ⟨.cons hlists hlists', List.forall_mem_cons.mpr ⟨hwf, hwf'⟩⟩
      · rintro ⟨h, hwf⟩
        obtain ⟨s, rest, hlists, hlists', rfl⟩ := List.forall₂_cons_right_iff.mp h
        obtain ⟨hs, hrest⟩ := List.forall_mem_cons.mp hwf
        obtain ⟨run, hrun, rfl⟩ := (foldlM_push_start_iff hsame).mpr ⟨hlists, hs⟩
        rw [hrun, (ih rest).mpr ⟨hlists', hrest⟩]
        rfl
termination_by rows.length
decreasing_by
  have := (List.dropWhile_sublist (sameSubprogram r) (l := rs)).length_le
  simp
  omega

/-- **Grouping is listing read backwards.** Rows give some signatures exactly if these are well
formed and list, one after the other, the maximal runs of accepted rows. -/
theorem signatures_iff_lists (keep : String → Bool) (rows : List ArgumentRow)
    (ss : List Signature) :
    signatures keep rows = .ok ss ↔
      List.Forall₂ Lists ss (runs keep rows) ∧ ∀ s ∈ ss, s.WellFormed :=
  signaturesFrom_none_iff _ _

end Grouping

/-! ## Writing a signature as rows -/

theorem Direction.ofCatalog_display (d : Direction) : Direction.ofCatalog d.display = d := by
  cases d <;> decide

namespace Signature

/-- The row of a parameter at its level. -/
def rowOf (s : Signature) (e : ParamTree × Nat) : ArgumentRow where
  owner := s.owner
  package := s.package
  object := s.name
  subprogramId := s.subprogramId
  sequence := e.1.sequence
  level := e.2
  argumentName := e.1.name
  direction := e.1.direction.display
  dataKind := e.1.spec.dataKind
  precision := e.1.spec.precision
  scale := e.1.spec.scale
  length := e.1.spec.length
  charset := e.1.spec.charset
  typeOwner := (e.1.spec.typeRef.map (·.owner)).getD ""
  typePackage := (e.1.spec.typeRef.map (·.package)).getD ""
  typeName := (e.1.spec.typeRef.map (·.name)).getD ""

/-- The row that stands for a routine without parameters. -/
def placeholder (s : Signature) : ArgumentRow where
  owner := s.owner
  package := s.package
  object := s.name
  subprogramId := s.subprogramId

/-- The rows of a signature: one for each parameter, or a placeholder. -/
def listing (s : Signature) : List ArgumentRow :=
  if s.rows.isEmpty then [s.placeholder] else s.rows.map s.rowOf

/-- Every type in the signature is one that some row gives. -/
def Writable (s : Signature) : Prop := ∀ e ∈ s.rows, ∃ r : ArgumentRow, r.spec = e.1.spec

/-- The routine takes part: it is not hidden, and its name passes. -/
def isAccepted (keep : String → Bool) (s : Signature) : Bool :=
  !(s.name.toList.getLast? == some '#') && keep s.displayName

theorem accepts_eq_isAccepted (keep : String → Bool) {s : Signature} {r : ArgumentRow}
    (h : r.subprogram = s.subprogram) : Grouping.accepts keep r = s.isAccepted keep := by
  simp only [ArgumentRow.subprogram, subprogram, Prod.mk.injEq] at h
  obtain ⟨-, hpackage, hobject, -⟩ := h
  simp only [Grouping.accepts, ArgumentRow.isHidden, ArgumentRow.routineName, isAccepted,
    displayName, hpackage, hobject]

end Signature

theorem ParamTree.mem_rowsBelow {depth : Nat} {ts : List ParamTree} {e : ParamTree × Nat} :
    e ∈ ParamTree.rowsBelow depth ts ↔ ∃ t ∈ ts, e ∈ t.rows depth := by
  induction ts with
  | nil => simp [ParamTree.rowsBelow]
  | cons t ts ih => simp [ParamTree.rowsBelow, ih]

/-- Everything listed of a tree is bare; what is not the tree itself is listed deeper. -/
theorem ParamTree.WellFormed.mem_rows {t : ParamTree} (h : t.WellFormed) {depth : Nat}
    {e : ParamTree × Nat} (he : e ∈ t.rows depth) :
    e.1.children = [] ∧ (e = (t.bare, depth) ∨ depth < e.2) := by
  induction h generalizing depth with
  | node _ _ _ ih =>
      rw [ParamTree.rows_eq] at he
      rcases List.mem_cons.mp he with rfl | he
      · exact ⟨rfl, .inl rfl⟩
      · obtain ⟨c, hc, he⟩ := ParamTree.mem_rowsBelow.mp he
        obtain ⟨hleaf, hdepth⟩ := ih c hc he
        refine ⟨hleaf, .inr ?_⟩
        rcases hdepth with rfl | hdepth
        · exact Nat.lt_succ_self depth
        · omega

namespace Grouping

theorem ofRow_rowOf {s : Signature} {e : ParamTree × Nat} (hleaf : e.1.children = [])
    (hspec : ∃ r : ArgumentRow, r.spec = e.1.spec) : ParamTree.ofRow (s.rowOf e) = e.1 := by
  obtain ⟨⟨name, direction, sequence, spec, children⟩, level⟩ := e
  obtain ⟨r, hr⟩ := hspec
  have hspec : r.spec = spec := hr
  obtain rfl : children = [] := hleaf
  have href : typeRef? ((spec.typeRef.map (·.owner)).getD "")
      ((spec.typeRef.map (·.package)).getD "") ((spec.typeRef.map (·.name)).getD "") =
        spec.typeRef := by
    cases h : spec.typeRef with
    | none => decide
    | some n =>
        have hrow : typeRef? r.typeOwner r.typePackage r.typeName = some n := by
          rw [← h, ← hspec]
          rfl
        exact typeRef?_eq_self hrow
  simp [ParamTree.ofRow, Signature.rowOf, ArgumentRow.way, ArgumentRow.spec,
    Direction.ofCatalog_display, href]

/-- Types that were read from rows can be written into rows. -/
theorem Lists.writable {s : Signature} {rows : List ArgumentRow} (h : Lists s rows) :
    s.Writable := by
  intro e he
  rw [h.rows] at he
  obtain ⟨r, -, rfl⟩ := List.mem_map.mp he
  exact ⟨r, rfl⟩

/-- The listing of a well-formed signature lists it. -/
theorem lists_listing {s : Signature} (hwf : s.WellFormed) (hwritable : s.Writable) :
    s.listing ≠ [] ∧ Lists s s.listing := by
  rw [Signature.listing]
  cases hempty : s.rows.isEmpty with
  | true =>
      have hrows := List.isEmpty_iff.mp hempty
      refine ⟨by simp, ⟨?_, by simp, ?_⟩⟩
      · intro r hr
        rw [List.mem_singleton.mp hr]
        rfl
      · rw [hrows]
        rfl
  | false =>
      have hnonempty : s.rows ≠ [] := by simpa using hempty
      have hentry : ∀ e ∈ s.rows, (s.rowOf e).isPlaceholder = false ∧
          (ParamTree.ofRow (s.rowOf e), (s.rowOf e).level) = e := by
        intro e he
        obtain ⟨t, ht, het⟩ := ParamTree.mem_rowsBelow.mp he
        obtain ⟨hleaf, hdepth⟩ := (hwf.trees t ht).mem_rows het
        refine ⟨?_, by rw [ofRow_rowOf hleaf (hwritable e he)]; rfl⟩
        rcases hdepth with rfl | hdepth
        · exact hwf.named t ht
        · have hne : e.2 ≠ 0 := by omega
          simp [ArgumentRow.isPlaceholder, Signature.rowOf, hne]
      rw [if_neg Bool.false_ne_true]
      refine ⟨by simpa using hnonempty, ⟨?_, ?_, ?_⟩⟩
      · intro r hr
        obtain ⟨e, -, rfl⟩ := List.mem_map.mp hr
        rfl
      · have hordered := hwf.ordered
        simpa [Function.comp_def, Signature.rowOf] using hordered
      · have hfilter : (s.rows.map s.rowOf).filter (!·.isPlaceholder) = s.rows.map s.rowOf := by
          rw [List.filter_eq_self]
          intro r hr
          obtain ⟨e, he, rfl⟩ := List.mem_map.mp hr
          simp [(hentry e he).1]
        calc s.rows = s.rows.map id := (List.map_id _).symm
          _ = s.rows.map fun e => (ParamTree.ofRow (s.rowOf e), (s.rowOf e).level) :=
            List.map_congr_left fun e he => (hentry e he).2.symm
          _ = nodes (s.rows.map s.rowOf) := by
            rw [nodes, hfilter, List.map_map]
            rfl

theorem exists_of_mem_right {α β : Type} {R : α → β → Prop} {as : List α} {bs : List β}
    (h : List.Forall₂ R as bs) {b : β} (hb : b ∈ bs) : ∃ a ∈ as, R a b := by
  induction h with
  | nil => cases hb
  | @cons a b' as bs hab _ ih =>
      rcases List.mem_cons.mp hb with rfl | hb
      · exact ⟨a, List.mem_cons_self, hab⟩
      · obtain ⟨a', ha', hab'⟩ := ih hb
        exact ⟨a', List.mem_cons_of_mem a ha', hab'⟩

/-- Between the listings of different subprograms one run ends and the next begins. -/
theorem isChain_listings {ss : List Signature} {listings : List (List ArgumentRow)}
    (hapart : ss.IsChain fun a b => a.subprogram ≠ b.subprogram)
    (hlists : List.Forall₂ (fun s rows => rows ≠ [] ∧ Lists s rows) ss listings) :
    listings.IsChain fun a b =>
      ∃ ha hb, sameSubprogram (a.getLast ha) (b.head hb) = false := by
  induction hlists with
  | nil => exact .nil
  | cons hfirst hrest ih =>
      cases hrest with
      | nil => exact List.isChain_singleton _
      | cons hsecond _ =>
          obtain ⟨hne, hapart⟩ := List.isChain_cons_cons.mp hapart
          refine List.isChain_cons_cons.mpr ⟨⟨hfirst.1, hsecond.1, ?_⟩, ih hapart⟩
          rw [sameSubprogram, beq_eq_false_iff_ne, hfirst.2.owned _ (List.getLast_mem _),
            hsecond.2.owned _ (List.head_mem _)]
          exact hne

/-- The listings of signatures whose neighbours differ are the runs of all their rows. -/
theorem runs_flatten {keep : String → Bool} {ss : List Signature}
    {listings : List (List ArgumentRow)} (haccepted : ∀ s ∈ ss, s.isAccepted keep)
    (hapart : ss.IsChain fun a b => a.subprogram ≠ b.subprogram)
    (hlists : List.Forall₂ (fun s rows => rows ≠ [] ∧ Lists s rows) ss listings) :
    runs keep listings.flatten = listings := by
  have hfilter : listings.flatten.filter (accepts keep) = listings.flatten := by
    rw [List.filter_eq_self]
    intro r hr
    obtain ⟨rows, hrows, hr⟩ := List.mem_flatten.mp hr
    obtain ⟨s, hs, -, hsrows⟩ := exists_of_mem_right hlists hrows
    rw [Signature.accepts_eq_isAccepted keep (hsrows.owned r hr)]
    exact haccepted s hs
  rw [runs, hfilter]
  refine List.splitBy_flatten ?_ ?_ (isChain_listings hapart hlists)
  · intro hnil
    obtain ⟨s, -, hne, -⟩ := exists_of_mem_right hlists hnil
    exact hne rfl
  · intro rows hrows
    obtain ⟨s, -, -, hsrows⟩ := exists_of_mem_right hlists hrows
    exact isChain_of_uniform hsrows.owned

/-- Signatures come back from any rows that list them. -/
theorem signatures_of_lists {keep : String → Bool} {ss : List Signature}
    {listings : List (List ArgumentRow)} (hwf : ∀ s ∈ ss, s.WellFormed)
    (haccepted : ∀ s ∈ ss, s.isAccepted keep)
    (hapart : ss.IsChain fun a b => a.subprogram ≠ b.subprogram)
    (hlists : List.Forall₂ (fun s rows => rows ≠ [] ∧ Lists s rows) ss listings) :
    signatures keep listings.flatten = .ok ss := by
  rw [signatures_iff_lists, runs_flatten haccepted hapart hlists]
  exact ⟨hlists.imp fun _ _ h => h.2, hwf⟩

/-- **Rows and signatures are inverse to each other.** Whenever rows are grouped into signatures,
these list the maximal runs of accepted rows, each row once and in order. And well-formed signatures
that take part and differ from their neighbours come back from any rows that list them; if rows can
give their types, their own listings are such rows. -/
theorem signatures_inverse (keep : String → Bool) :
    (∀ rows ss, signatures keep rows = .ok ss → List.Forall₂ Lists ss (runs keep rows)) ∧
    ∀ ss : List Signature, (∀ s ∈ ss, s.WellFormed) → (∀ s ∈ ss, s.isAccepted keep) →
      ss.IsChain (fun a b => a.subprogram ≠ b.subprogram) →
        (∀ listings, List.Forall₂ (fun s rows => rows ≠ [] ∧ Lists s rows) ss listings →
          signatures keep listings.flatten = .ok ss) ∧
        ((∀ s ∈ ss, s.Writable) → signatures keep (ss.flatMap Signature.listing) = .ok ss) := by
  refine ⟨fun rows ss h => ((signatures_iff_lists keep rows ss).mp h).1, ?_⟩
  intro ss hwf haccepted hapart
  refine ⟨fun listings => signatures_of_lists hwf haccepted hapart, fun hwritable => ?_⟩
  rw [List.flatMap_def]
  apply signatures_of_lists hwf haccepted hapart
  rw [List.forall₂_map_right_iff, List.forall₂_same]
  exact fun s hs => lists_listing (hwf s hs) (hwritable s hs)

/-- The rows of a routine that returns a table of records between its two arguments, and of one
without parameters. -/
def sampleRows : List ArgumentRow :=
  [{ owner := "APP", package := "PKG", object := "FOO", sequence := 1, argumentName := "P_ID"
     direction := "IN", dataKind := "NUMBER" },
   { owner := "APP", package := "PKG", object := "FOO", sequence := 2, direction := "OUT"
     dataKind := "PL/SQL TABLE" },
   { owner := "APP", package := "PKG", object := "FOO", sequence := 3, level := 1
     direction := "OUT", dataKind := "PL/SQL RECORD", typeOwner := "APP", typePackage := "PKG"
     typeName := "T_REC" },
   { owner := "APP", package := "PKG", object := "FOO", sequence := 4, level := 2
     argumentName := "F_NAME", direction := "OUT", dataKind := "VARCHAR2" },
   { owner := "APP", package := "PKG", object := "FOO", sequence := 5, argumentName := "P_LAST"
     direction := "IN/OUT", dataKind := "DATE" },
   { owner := "APP", package := "PKG", object := "PING", sequence := 1 }]

/-- What `sampleRows` describe. -/
def sampleSignatures : List Signature :=
  [{ owner := "APP", package := "PKG", name := "FOO", subprogramId := 0
     arguments :=
       [⟨"P_ID", .input, 1, ⟨"NUMBER", 0, 0, 0, "", none⟩, []⟩,
        ⟨"P_LAST", .both, 5, ⟨"DATE", 0, 0, 0, "", none⟩, []⟩]
     returns := some ⟨"", .output, 2, ⟨"PL/SQL TABLE", 0, 0, 0, "", none⟩,
       [⟨"", .output, 3, ⟨"PL/SQL RECORD", 0, 0, 0, "", some ⟨"APP", "PKG", "T_REC"⟩⟩,
         [⟨"F_NAME", .output, 4, ⟨"VARCHAR2", 0, 0, 0, "", none⟩, []⟩]⟩]⟩ },
   { owner := "APP", package := "PKG", name := "PING", subprogramId := 0, arguments := []
     returns := none }]

theorem signatures_inverse_sample :
    signatures (fun _ => true) sampleRows = .ok sampleSignatures ∧
    List.Forall₂ Lists sampleSignatures (runs (fun _ => true) sampleRows) ∧
    (∀ s ∈ sampleSignatures, s.WellFormed ∧ s.isAccepted (fun _ => true) ∧ s.Writable) ∧
    sampleSignatures.IsChain (fun a b => a.subprogram ≠ b.subprogram) ∧
    (∃ listings, List.Forall₂ (fun s rows => rows ≠ [] ∧ Lists s rows) sampleSignatures listings ∧
      signatures (fun _ => true) listings.flatten = .ok sampleSignatures) ∧
    signatures (fun _ => true) (sampleSignatures.flatMap Signature.listing) =
      .ok sampleSignatures := by
  have hrows : signatures (fun _ => true) sampleRows = .ok sampleSignatures := rfl
  have hlists := (signatures_inverse fun _ => true).1 sampleRows sampleSignatures hrows
  have hwf := ((signatures_iff_lists _ _ _).mp hrows).2
  have haccepted : ∀ s ∈ sampleSignatures, s.isAccepted (fun _ => true) := by decide
  have hwritable : ∀ s ∈ sampleSignatures, s.Writable := by
    intro s hs
    obtain ⟨rows, -, hrows⟩ := exists_of_mem_right hlists.flip hs
    exact hrows.writable
  have hapart : sampleSignatures.IsChain (fun a b => a.subprogram ≠ b.subprogram) := by decide
  have hlistings : List.Forall₂ (fun s rows => rows ≠ [] ∧ Lists s rows) sampleSignatures
      (sampleSignatures.map Signature.listing) := by
    rw [List.forall₂_map_right_iff, List.forall₂_same]
    exact fun s hs => lists_listing (hwf s hs) (hwritable s hs)
  obtain ⟨hany, hown⟩ := (signatures_inverse fun _ => true).2 sampleSignatures hwf haccepted hapart
  exact ⟨hrows, hlists, fun s hs => ⟨hwf s hs, haccepted s hs, hwritable s hs⟩, hapart,
    ⟨_, hlistings, hany _ hlistings⟩, hown hwritable⟩

end Grouping

end RoutineBridge
