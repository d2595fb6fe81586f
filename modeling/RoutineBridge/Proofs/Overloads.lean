import Mathlib.Data.Prod.Lex
import Mathlib.Data.String.Basic
import RoutineBridge.Proofs.Refusals

/-!
# Overloads in catalog order

Catalog order goes by owner, package, object and sequence, and leaves open how the rows of the
overloads of one object lie among each other. Grouping only compares a row with the one before it:
each of its signatures is one group of neighbouring rows (`Grouping.Groups`). So a subprogram has
more than one signature if a row of another subprogram comes between two of its rows
(`Grouping.Groups.one_lt_iff`), and in catalog order only the rows of another overload can. Main
statement: the signatures of a subprogram hold all its top-level rows, and it is one signature
exactly if no overload comes in between (`Grouping.signatures_of_catalogOrder`).
-/

namespace RoutineBridge

/-! ## Catalog order -/

namespace ArgumentRow

/-- Where the row stands in the argument listing: by owner, package, object and sequence. -/
def place (r : ArgumentRow) : String ×ₗ String ×ₗ String ×ₗ ℕ :=
  toLex (r.owner, toLex (r.package, toLex (r.object, r.sequence)))

/-- The rows may follow each other in the argument listing. -/
def CatalogOrder (a b : ArgumentRow) : Prop := a.place ≤ b.place

/-- The rows are of two overloads of one object. -/
structure Overloads (a b : ArgumentRow) : Prop where
  owner_eq : a.owner = b.owner
  package_eq : a.package = b.package
  object_eq : a.object = b.object
  ne : a.subprogramId ≠ b.subprogramId

theorem catalogOrder_iff {a b : ArgumentRow} : CatalogOrder a b ↔ a.owner ≤ b.owner ∧
    (a.owner = b.owner → a.package ≤ b.package ∧
      (a.package = b.package → a.object ≤ b.object ∧
        (a.object = b.object → a.sequence ≤ b.sequence))) := by
  simp only [CatalogOrder, place, Prod.Lex.toLex_le_toLex']

/-- Between two rows of an object are only rows of that object. -/
theorem CatalogOrder.overloads {a b c : ArgumentRow} (hab : CatalogOrder a b)
    (hbc : CatalogOrder b c) (hac : a.subprogram = c.subprogram)
    (hne : b.subprogram ≠ a.subprogram) : Overloads a b := by
  simp only [ArgumentRow.subprogram, Prod.mk.injEq] at hac
  obtain ⟨howner, hpackage, hobject, -⟩ := hac
  obtain ⟨howner₁, hab⟩ := catalogOrder_iff.mp hab
  obtain ⟨howner₂, hbc⟩ := catalogOrder_iff.mp hbc
  have howner' : a.owner = b.owner := le_antisymm howner₁ (howner ▸ howner₂)
  obtain ⟨hpackage₁, hab⟩ := hab howner'
  obtain ⟨hpackage₂, hbc⟩ := hbc (howner'.symm.trans howner)
  have hpackage' : a.package = b.package := le_antisymm hpackage₁ (hpackage ▸ hpackage₂)
  obtain ⟨hobject₁, -⟩ := hab hpackage'
  obtain ⟨hobject₂, -⟩ := hbc (hpackage'.symm.trans hpackage)
  have hobject' : a.object = b.object := le_antisymm hobject₁ (hobject ▸ hobject₂)
  refine ⟨howner', hpackage', hobject', fun hid => hne ?_⟩
  rw [ArgumentRow.subprogram, ArgumentRow.subprogram, howner', hpackage', hobject', hid]

end ArgumentRow

/-- The rows at the top level are those of the parameters there. -/
theorem ParamTree.filter_rowsBelow (depth : Nat) (ts : List ParamTree) :
    (rowsBelow depth ts).filter (·.2 = depth) = ts.map fun t => (t.bare, depth) := by
  induction ts with
  | nil => rfl
  | cons t ts ih =>
      have hbelow : (rowsBelow (depth + 1) t.children).filter (·.2 = depth) = [] := by
        refine List.filter_eq_nil_iff.mpr fun e he => ?_
        obtain ⟨child, -, he⟩ := mem_rowsBelow.mp he
        have := le_of_mem_rows he
        simp only [decide_eq_true_eq]
        omega
      rw [← List.singleton_append, rowsBelow_append, List.filter_append, ih, rowsBelow_singleton,
        rows_eq, List.filter_cons_of_pos (by simp), hbelow]
      rfl

/-- What is in both parts put together, but not in the first one, is in the second one. -/
theorem sublist_of_append {α : Type} {x : α} {l xs ys : List α} (h : (x :: l).Sublist (xs ++ ys))
    (hx : x ∉ xs) : (x :: l).Sublist ys := by
  obtain ⟨front, back, hsplit, hfront, hback⟩ := List.sublist_append_iff.mp h
  cases front with
  | nil => rwa [hsplit]
  | cons y front =>
      obtain ⟨rfl, -⟩ := List.cons.inj hsplit
      exact absurd (hfront.subset (List.mem_cons_self ..)) hx

namespace Grouping

/-! ## Groups of rows -/

/-- The accepted rows. -/
def accepted (keep : String → Bool) (rows : List ArgumentRow) : List ArgumentRow :=
  rows.filter (accepts keep)

/-- The signatures of one subprogram. -/
def signaturesOf (ss : List Signature) (id : String × String × String × Nat) : List Signature :=
  ss.filter (·.subprogram = id)

theorem signaturesOf_cons_self (s : Signature) (ss : List Signature) :
    signaturesOf (s :: ss) s.subprogram = s :: signaturesOf ss s.subprogram :=
  List.filter_cons_of_pos (by simp)

theorem signaturesOf_cons_of_ne {s : Signature} {id : String × String × String × Nat}
    (h : s.subprogram ≠ id) (ss : List Signature) :
    signaturesOf (s :: ss) id = signaturesOf ss id :=
  List.filter_cons_of_neg (by simpa using h)

theorem signaturesOf_ne_nil_iff {ss : List Signature} {id : String × String × String × Nat} :
    signaturesOf ss id ≠ [] ↔ ∃ s ∈ ss, s.subprogram = id := by
  simp [signaturesOf]

/-- A row that describes a parameter at the top level. -/
def atTop (r : ArgumentRow) : Bool := r.level = 0 && !r.isPlaceholder

/-- The rows fall into groups, each with a signature that lists it. The row behind a group is of
another subprogram. -/
inductive Groups : List ArgumentRow → List Signature → Prop
  | nil : Groups [] []
  | cons {s : Signature} {run rows : List ArgumentRow} {ss : List Signature} (lists : Lists s run)
      (nonempty : run ≠ []) (ends : ∀ b ∈ rows.head?, b.subprogram ≠ s.subprogram)
      (rest : Groups rows ss) : Groups (run ++ rows) (s :: ss)

/-- A row of another subprogram comes between two rows of the subprogram. -/
def Split (rows : List ArgumentRow) (id : String × String × String × Nat) : Prop :=
  ∃ a b c, [a, b, c].Sublist rows ∧ a.subprogram = id ∧ b.subprogram ≠ id ∧ c.subprogram = id

/-- A row of another overload comes between two rows of the subprogram. -/
def Interleaved (rows : List ArgumentRow) (id : String × String × String × Nat) : Prop :=
  ∃ a b c, [a, b, c].Sublist rows ∧ a.subprogram = id ∧ a.Overloads b ∧ c.subprogram = id

theorem groups_of_forall₂ {rows : List ArgumentRow} {ss : List Signature}
    (h : List.Forall₂ Lists ss (rows.splitBy sameSubprogram)) : Groups rows ss := by
  match rows with
  | [] =>
      rw [List.splitBy_nil, List.forall₂_nil_right_iff] at h
      rw [h]
      exact .nil
  | r :: rs =>
      rw [splitBy_cons] at h
      obtain ⟨s, rest, hlists, hrest, rfl⟩ := List.forall₂_cons_right_iff.mp h
      have hends : ∀ b ∈ (rs.dropWhile (sameSubprogram r)).head?,
          b.subprogram ≠ s.subprogram := by
        intro b hb heq
        have hnot := List.head?_dropWhile_not (sameSubprogram r) rs
        rw [Option.mem_def.mp hb] at hnot
        rw [← hlists.owned r (List.mem_cons_self ..)] at heq
        simp [sameSubprogram, heq] at hnot
      have hgroups : Groups ((r :: rs.takeWhile (sameSubprogram r)) ++
          rs.dropWhile (sameSubprogram r)) (s :: rest) :=
        .cons hlists (List.cons_ne_nil _ _) hends (groups_of_forall₂ hrest)
      rwa [List.cons_append, List.takeWhile_append_dropWhile] at hgroups
termination_by rows.length
decreasing_by exact length_dropWhile_lt r rs

namespace Groups

variable {rows : List ArgumentRow} {ss : List Signature} (h : Groups rows ss)
  (id : String × String × String × Nat)
include h

/-- Each subprogram has a signature, and there is none besides. -/
theorem exists_iff :
    (∃ s ∈ ss, s.subprogram = id) ↔ ∃ r ∈ rows, r.subprogram = id := by
  induction h with
  | nil => simp
  | @cons s run rows ss hlists hnonempty _ _ ih =>
      have hrun : (∃ r ∈ run, r.subprogram = id) ↔ s.subprogram = id := by
        constructor
        · rintro ⟨r, hr, rfl⟩
          exact (hlists.owned r hr).symm
        · rintro rfl
          obtain ⟨r, hr⟩ := List.exists_mem_of_ne_nil run hnonempty
          exact ⟨r, hr, hlists.owned r hr⟩
      simp only [List.mem_cons, List.mem_append, or_and_right, exists_or, exists_eq_left, ih, hrun]

/-- The signatures of a subprogram hold all its top-level rows. -/
theorem topLevel_eq :
    (signaturesOf ss id).flatMap (·.topLevel.map ParamTree.bare) =
      (rows.filter fun r => r.subprogram = id ∧ atTop r).map ParamTree.ofRow := by
  induction h with
  | nil => rfl
  | @cons s run rows ss hlists _ _ _ ih =>
      rw [List.filter_append, List.map_append, ← ih]
      -- the rows of a group are all of the subprogram, or none is
      by_cases hs : s.subprogram = id
      · subst hs
        have hrun : run.filter (fun r => r.subprogram = s.subprogram ∧ atTop r) =
            run.filter atTop :=
          List.filter_congr fun r hr => by simp [hlists.owned r hr]
        have htop : s.topLevel.map ParamTree.bare = (run.filter atTop).map ParamTree.ofRow := by
          have hrows := congrArg (List.map Prod.fst) (congrArg (List.filter (·.2 = 0)) hlists.rows)
          rw [Signature.rows, ParamTree.filter_rowsBelow, nodes, List.filter_map,
            List.filter_filter, List.map_map, List.map_map] at hrows
          exact hrows
        rw [signaturesOf_cons_self, List.flatMap_cons, htop, hrun]
      · have hrun : run.filter (fun r => r.subprogram = id ∧ atTop r) = [] :=
          List.filter_eq_nil_iff.mpr fun r hr => by simp [hlists.owned r hr, hs]
        rw [signaturesOf_cons_of_ne hs, hrun]
        rfl

/-- A subprogram has several signatures exactly if another one comes in between. -/
theorem one_lt_iff : 1 < (signaturesOf ss id).length ↔ Split rows id := by
  induction h with
  | nil => simp [Split, signaturesOf]
  | @cons s run rows ss hlists hnonempty hends hrest ih =>
      by_cases hs : s.subprogram = id
      · -- this is the first signature: another one needs a row behind the group
        subst hs
        rw [signaturesOf_cons_self, List.length_cons, Nat.lt_add_left_iff_pos,
          List.length_pos_iff, signaturesOf_ne_nil_iff, hrest.exists_iff]
        constructor
        · rintro ⟨c, hc, hcs⟩
          obtain ⟨a, ha⟩ := List.exists_mem_of_ne_nil run hnonempty
          cases rows with
          | nil => cases hc
          | cons b rows =>
              have hb : b.subprogram ≠ s.subprogram := hends b rfl
              have hc : c ∈ rows :=
                (List.mem_cons.mp hc).resolve_left fun heq => hb (heq ▸ hcs)
              refine ⟨a, b, c, ?_, hlists.owned a ha, hb, hcs⟩
              exact (List.singleton_sublist.mpr ha).append
                ((List.singleton_sublist.mpr hc).cons_cons b)
        · rintro ⟨a, b, c, hsub, -, hb, hc⟩
          have hbrun : b ∉ run := fun hmem => hb (hlists.owned b hmem)
          have hbc := sublist_of_append ((List.sublist_cons_self a [b, c]).trans hsub) hbrun
          exact ⟨c, hbc.subset (by simp), hc⟩
      · rw [signaturesOf_cons_of_ne hs, ih]
        constructor
        · rintro ⟨a, b, c, hsub, habc⟩
          exact ⟨a, b, c, hsub.trans (List.sublist_append_right run rows), habc⟩
        · rintro ⟨a, b, c, hsub, ha, hbc⟩
          have harun : a ∉ run := fun hmem => hs ((hlists.owned a hmem).symm.trans ha)
          exact ⟨a, b, c, sublist_of_append hsub harun, ha, hbc⟩

end Groups

/-- In catalog order, only another overload comes between two rows of a subprogram. -/
theorem split_iff_interleaved {rows : List ArgumentRow}
    (hsorted : rows.Pairwise ArgumentRow.CatalogOrder) (id : String × String × String × Nat) :
    Split rows id ↔ Interleaved rows id := by
  constructor
  · rintro ⟨a, b, c, hsub, ha, hb, hc⟩
    have hthree := hsorted.sublist hsub
    simp only [List.pairwise_cons, List.mem_cons, List.not_mem_nil, or_false, forall_eq_or_imp,
      forall_eq] at hthree
    obtain ⟨⟨hab, -⟩, hbc, -⟩ := hthree
    exact ⟨a, b, c, hsub, ha, hab.overloads hbc (ha.trans hc.symm) (ha ▸ hb), hc⟩
  · rintro ⟨a, b, c, hsub, ha, hab, hc⟩
    refine ⟨a, b, c, hsub, ha, fun hb => hab.ne ?_, hc⟩
    have hsame := ha.trans hb.symm
    simp only [ArgumentRow.subprogram, Prod.mk.injEq] at hsame
    exact hsame.2.2.2

/-- **In catalog order, only interleaved overloads come apart.** Every signature is of a subprogram
that has accepted rows. Each such subprogram has signatures, which together hold its top-level rows
in order, placeholders apart. It has one of them, unless rows of another overload of its object come
between its own. -/
theorem signatures_of_catalogOrder (keep : String → Bool) {rows : List ArgumentRow}
    {ss : List Signature} (hsorted : rows.Pairwise ArgumentRow.CatalogOrder)
    (h : signatures keep rows = .ok ss) :
    (∀ s ∈ ss, ∃ r ∈ accepted keep rows, r.subprogram = s.subprogram) ∧
    ∀ id, (∃ r ∈ accepted keep rows, r.subprogram = id) → signaturesOf ss id ≠ [] ∧
      (signaturesOf ss id).flatMap (·.topLevel.map ParamTree.bare) =
        ((accepted keep rows).filter fun r => r.subprogram = id ∧ atTop r).map ParamTree.ofRow ∧
      ((∃ s, signaturesOf ss id = [s]) ↔ ¬ Interleaved (accepted keep rows) id) := by
  have hgroups : Groups (accepted keep rows) ss :=
    groups_of_forall₂ ((signatures_iff_lists _ _ _).mp h).1
  refine ⟨fun s hs => (hgroups.exists_iff _).mp ⟨s, hs, rfl⟩, fun id hid => ?_⟩
  have hsome : signaturesOf ss id ≠ [] :=
    signaturesOf_ne_nil_iff.mpr ((hgroups.exists_iff id).mpr hid)
  have hsplit : 1 < (signaturesOf ss id).length ↔ Interleaved (accepted keep rows) id :=
    (hgroups.one_lt_iff id).trans (split_iff_interleaved (hsorted.filter _) id)
  refine ⟨hsome, hgroups.topLevel_eq id, ?_⟩
  rw [← List.length_eq_one_iff, ← hsplit]
  have := List.length_pos_iff.mpr hsome
  omega

/-- Two overloads of one object, with the row of the second one between the rows of the first. -/
def sampleOverloads : List ArgumentRow :=
  [{ owner := "APP", package := "PKG", object := "FOO", subprogramId := 1, sequence := 1
     argumentName := "X", direction := "IN", dataKind := "NUMBER" },
   { owner := "APP", package := "PKG", object := "FOO", subprogramId := 2, sequence := 1
     argumentName := "Y", direction := "IN", dataKind := "NUMBER" },
   { owner := "APP", package := "PKG", object := "FOO", subprogramId := 1, sequence := 2
     argumentName := "Z", direction := "IN", dataKind := "NUMBER" }]

/-- What grouping makes of `sampleOverloads`. -/
def sampleSplit : List Signature :=
  [{ owner := "APP", package := "PKG", name := "FOO", subprogramId := 1
     arguments := [⟨"X", .input, 1, ⟨"NUMBER", 0, 0, 0, "", none⟩, []⟩], returns := none },
   { owner := "APP", package := "PKG", name := "FOO", subprogramId := 2
     arguments := [⟨"Y", .input, 1, ⟨"NUMBER", 0, 0, 0, "", none⟩, []⟩], returns := none },
   { owner := "APP", package := "PKG", name := "FOO", subprogramId := 1
     arguments := [⟨"Z", .input, 2, ⟨"NUMBER", 0, 0, 0, "", none⟩, []⟩], returns := none }]

theorem sorted_sampleOverloads : sampleOverloads.Pairwise ArgumentRow.CatalogOrder := by
  simp [sampleOverloads, ArgumentRow.catalogOrder_iff]

theorem signatures_sampleOverloads : signatures (fun _ => true) sampleOverloads = .ok sampleSplit :=
  rfl

theorem signatures_of_catalogOrder_sample :
    sampleOverloads.Pairwise ArgumentRow.CatalogOrder ∧
    signatures (fun _ => true) sampleOverloads = .ok sampleSplit ∧
    (signaturesOf sampleSplit ("APP", "PKG", "FOO", 1)).flatMap
        (·.topLevel.map (·.name)) = ["X", "Z"] ∧
    Interleaved (accepted (fun _ => true) sampleOverloads) ("APP", "PKG", "FOO", 1) ∧
    ¬ Interleaved (accepted (fun _ => true) sampleOverloads) ("APP", "PKG", "FOO", 2) := by
  obtain ⟨-, hall⟩ := signatures_of_catalogOrder (fun _ => true) sorted_sampleOverloads
    signatures_sampleOverloads
  obtain ⟨-, -, hfirst⟩ := hall ("APP", "PKG", "FOO", 1) (by decide)
  obtain ⟨-, -, hsecond⟩ := hall ("APP", "PKG", "FOO", 2) (by decide)
  refine ⟨sorted_sampleOverloads, signatures_sampleOverloads, rfl, ?_, hsecond.mp ⟨_, rfl⟩⟩
  refine not_not.mp fun hapart => ?_
  obtain ⟨s, hs⟩ := hfirst.mpr hapart
  have hone : (signaturesOf sampleSplit ("APP", "PKG", "FOO", 1)).length = 1 :=
    congrArg List.length hs
  exact absurd hone (by decide)

/-- The rows are in catalog order, and grouping accepts them, but one subprogram comes apart: no
signature of it holds both its arguments. -/
theorem catalogOrder_splits_overload :
    sampleOverloads.Pairwise ArgumentRow.CatalogOrder ∧
    signatures (fun _ => true) sampleOverloads = .ok sampleSplit ∧
    (signaturesOf sampleSplit ("APP", "PKG", "FOO", 1)).map (·.arguments.map (·.name)) =
      [["X"], ["Z"]] :=
  ⟨sorted_sampleOverloads, rfl, rfl⟩

end Grouping

end RoutineBridge
