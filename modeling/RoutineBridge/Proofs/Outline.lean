import Mathlib.Data.List.TakeWhile
import RoutineBridge.Catalog.Grouping

/-!
# Outlines keep their listing

Parameters are put below their parents late, when a shallower row closes them. The listing of an
outline does not see this: it lists the finished part of the signature and behind it the open
parameters from the outermost to the deepest, so closing leaves it as it is (`Sound.closeTo`), and
a new parameter goes to its end (`Sound.graft`).
-/

namespace RoutineBridge

namespace ParamTree

/-- The parameter without its children. -/
def bare (t : ParamTree) : ParamTree := { t with children := [] }

/-- There is room below the parameter for one more child. -/
def hasRoom (t : ParamTree) : Bool :=
  match t.compositeKind? with
  | none => false
  | some .record => true
  | some .collection | some .cursor => t.children.isEmpty

/-- At the top such a parameter would be a placeholder. -/
def isBlank (t : ParamTree) : Bool := t.name.isEmpty && Text.isBlankText t.spec.dataKind.toList

/-- What holds of a parameter if it holds of its children holds of all parameters. -/
theorem induction {motive : ParamTree → Prop}
    (node : ∀ t, (∀ child ∈ t.children, motive child) → motive t) : ∀ t, motive t
  | ⟨_, _, _, _, children⟩ => node _ fun child _ => induction node child
termination_by t => sizeOf t
decreasing_by
  have hchild := List.sizeOf_lt_of_mem ‹child ∈ children›
  simp only [mk.sizeOf_spec]
  omega

/-- Only composite parameters have children, and a collection or cursor has at most one, here and
everywhere below. -/
inductive WellFormed : ParamTree → Prop
  | node {t : ParamTree} (composite : t.children ≠ [] → t.compositeKind? ≠ none)
      (single : t.compositeKind? = some .collection ∨ t.compositeKind? = some .cursor →
        t.children.length ≤ 1)
      (below : ∀ child ∈ t.children, WellFormed child) : WellFormed t

theorem rows_eq (depth : Nat) (t : ParamTree) :
    t.rows depth = (t.bare, depth) :: rowsBelow (depth + 1) t.children := by
  cases t
  rw [rows]
  rfl

theorem rowsBelow_append (depth : Nat) (ts us : List ParamTree) :
    rowsBelow depth (ts ++ us) = rowsBelow depth ts ++ rowsBelow depth us := by
  induction ts with
  | nil => simp [rowsBelow]
  | cons t ts ih => simp [rowsBelow, ih]

@[simp]
theorem rowsBelow_singleton (depth : Nat) (t : ParamTree) :
    rowsBelow depth [t] = t.rows depth := by
  simp [rowsBelow]

theorem rows_of_leaf (depth : Nat) {t : ParamTree} (h : t.children = []) :
    t.rows depth = [(t, depth)] := by
  obtain ⟨name, direction, sequence, spec, children⟩ := t
  obtain rfl : children = [] := h
  simp [rows, rowsBelow]

/-- An adopted child is listed last and one level deeper. -/
theorem rows_adopt (depth : Nat) (t child : ParamTree) :
    (t.adopt child).rows depth = t.rows depth ++ child.rows (depth + 1) := by
  rw [rows_eq, rows_eq depth t]
  simp [adopt, bare, rowsBelow_append]

theorem bare_mem_rowsBelow {depth : Nat} {ts : List ParamTree} {t : ParamTree} (h : t ∈ ts) :
    (t.bare, depth) ∈ rowsBelow depth ts := by
  induction ts with
  | nil => cases h
  | cons u us ih =>
      rw [rowsBelow, List.mem_append]
      rcases List.mem_cons.mp h with rfl | h
      · rw [rows_eq]
        exact .inl List.mem_cons_self
      · exact .inr (ih h)

theorem wellFormed_of_leaf {t : ParamTree} (h : t.children = []) : t.WellFormed :=
  .node (fun hne => absurd h hne) (fun _ => by simp [h]) (by simp [h])

theorem hasRoom_iff {t : ParamTree} :
    t.hasRoom ↔ t.compositeKind? ≠ none ∧
      (t.compositeKind? = some .collection ∨ t.compositeKind? = some .cursor →
        t.children = []) := by
  rw [hasRoom]
  split <;> simp_all

theorem WellFormed.adopt {t child : ParamTree} (h : t.WellFormed) (hroom : t.hasRoom)
    (hchild : child.WellFormed) : (t.adopt child).WellFormed := by
  obtain ⟨hkind, hempty⟩ := hasRoom_iff.mp hroom
  obtain ⟨-, -, below⟩ := h
  refine .node (fun _ => hkind) (fun hsingle => ?_) (fun c hc => ?_)
  · show (t.children ++ [child]).length ≤ 1
    rw [hempty hsingle]
    simp
  · rcases List.mem_append.mp hc with hc | hc
    · exact below c hc
    · rw [List.mem_singleton.mp hc]
      exact hchild

end ParamTree

namespace Signature

/-- The trees are well formed, the result is the first unnamed parameter at the top, no parameter at
the top is blank, and sequence numbers increase. -/
structure WellFormed (s : Signature) : Prop where
  trees : ∀ t ∈ s.topLevel, t.WellFormed
  result : s.returns = s.topLevel.find? (·.name.isEmpty)
  named : ∀ t ∈ s.topLevel, t.isBlank = false
  ordered : (s.rows.map (·.1.sequence)).Pairwise (· < ·)

end Signature

namespace Grouping.Outline

/-- The open parameters and what is below them so far, from the outermost to the deepest. -/
def stackRows : List OpenParam → List (ParamTree × Nat)
  | [] => []
  | p :: rest => stackRows rest ++ p.tree.rows rest.length

/-- Everything that was taken up, with its depth. -/
def listing (o : Outline) : List (ParamTree × Nat) := o.signature.rows ++ stackRows o.stack

/-- The open parameters fit together: each but the deepest has room for the one above it, and the
outermost is marked as the result if it is the first unnamed one. -/
def StackSound (s : Signature) : List OpenParam → Prop
  | [] => True
  | [p] =>
    p.tree.WellFormed ∧ p.tree.isBlank = false ∧
      p.isResult = (p.tree.name.isEmpty && s.returns.isNone)
  | p :: parent :: rest =>
    p.tree.WellFormed ∧ parent.tree.hasRoom ∧ StackSound s (parent :: rest)

/-- What holds of an outline while rows arrive. -/
structure Sound (o : Outline) : Prop where
  trees : ∀ t ∈ o.signature.topLevel, t.WellFormed
  result : o.signature.returns = o.signature.topLevel.find? (·.name.isEmpty)
  named : ∀ t ∈ o.signature.topLevel, t.isBlank = false
  stack : StackSound o.signature o.stack
  ordered : (o.listing.map (·.1.sequence)).Pairwise (· < ·)

/-! ## Closing -/

/-- A top-level parameter that is attached comes last if its sequence number is the highest. -/
theorem topLevel_attach {s : Signature} {p : OpenParam}
    (hlast : ∀ t ∈ s.topLevel, t.sequence < p.tree.sequence)
    (hresult : p.isResult → s.returns = none) :
    (attach s p).topLevel = s.topLevel ++ [p.tree] := by
  unfold attach
  split
  · rename_i h
    have hnone := hresult h
    have hargs : ∀ t ∈ s.arguments, decide (t.sequence < p.tree.sequence) = true := by
      simpa [Signature.topLevel, hnone] using hlast
    simp only [Signature.topLevel, hnone]
    rw [List.takeWhile_eq_self_iff.mpr hargs, List.dropWhile_eq_nil_iff.mpr hargs]
  · cases hreturns : s.returns with
    | none => simp [Signature.topLevel, hreturns]
    | some result =>
        -- the result is among the parameters before `p`, so it does not move behind `p`
        have hlt : result.sequence < p.tree.sequence :=
          hlast result (by simp [Signature.topLevel, hreturns])
        have hnot : ¬ p.tree.sequence < result.sequence := by omega
        simp only [Signature.topLevel, hreturns]
        rw [List.takeWhile_append, List.dropWhile_append]
        by_cases hall : ∀ t ∈ s.arguments, decide (t.sequence < result.sequence) = true
        · simp [List.takeWhile_eq_self_iff.mpr hall, List.dropWhile_eq_nil_iff.mpr hall, hnot]
        · have hdrop : s.arguments.dropWhile (·.sequence < result.sequence) ≠ [] :=
            fun h => hall (List.dropWhile_eq_nil_iff.mp h)
          have htake : (s.arguments.takeWhile (·.sequence < result.sequence)).length ≠
              s.arguments.length := by
            intro h
            exact hall (List.takeWhile_eq_self_iff.mp
              ((List.takeWhile_prefix _).eq_of_length h))
          simp [htake, hdrop]

/-- The order of the listing puts an open parameter behind everything that is finished. -/
theorem Sound.finished_before {o : Outline} {p : OpenParam} {rest : List OpenParam} (h : o.Sound)
    (hstack : o.stack = p :: rest) :
    ∀ t ∈ o.signature.topLevel, t.sequence < p.tree.sequence := by
  intro t ht
  have hordered := h.ordered
  rw [listing, hstack, stackRows, List.map_append, List.map_append, List.pairwise_append]
    at hordered
  refine hordered.2.2 _ ?_ _ ?_
  · exact List.mem_map.mpr ⟨(t.bare, 0), ParamTree.bare_mem_rowsBelow ht, rfl⟩
  · rw [ParamTree.rows_eq]
    simp [ParamTree.bare]

/-- Nothing is listed twice or elsewhere when the deepest open parameter is closed. -/
theorem Sound.listing_closeTop {o : Outline} (h : o.Sound) : o.closeTop.listing = o.listing := by
  obtain ⟨s, stack⟩ := o
  match stack with
  | [] => rfl
  | [p] =>
      have hbefore := h.finished_before rfl
      obtain ⟨-, -, hp⟩ := h.stack
      have hattach : (attach s p).topLevel = s.topLevel ++ [p.tree] := by
        apply topLevel_attach hbefore
        intro hresult
        rw [hp] at hresult
        simp_all
      show (attach s p).rows ++ [] = s.rows ++ ([] ++ p.tree.rows 0)
      simp [Signature.rows, hattach, ParamTree.rowsBelow_append]
  | p :: parent :: rest =>
      simp [closeTop, listing, stackRows, ParamTree.rows_adopt]

/-- Adopting a child changes neither what a parameter is nor what is below it in the stack. -/
theorem StackSound.adopt {s : Signature} {parent : OpenParam} {rest : List OpenParam}
    (h : StackSound s (parent :: rest)) {child : ParamTree} (hroom : parent.tree.hasRoom)
    (hchild : child.WellFormed) :
    StackSound s ({ parent with tree := parent.tree.adopt child } :: rest) := by
  cases rest with
  | nil =>
      obtain ⟨hwf, hblank, hresult⟩ := h
      exact ⟨hwf.adopt hroom hchild, hblank, hresult⟩
  | cons grandparent rest =>
      obtain ⟨hwf, hgrand, hrest⟩ := h
      exact ⟨hwf.adopt hroom hchild, hgrand, hrest⟩

theorem Sound.closeTop {o : Outline} (h : o.Sound) : o.closeTop.Sound := by
  have hlisting := h.listing_closeTop
  have hordered := h.ordered
  rw [← hlisting] at hordered
  obtain ⟨s, stack⟩ := o
  match stack with
  | [] => exact h
  | [p] =>
      have hbefore := h.finished_before rfl
      obtain ⟨hwf, hblank, hp⟩ := h.stack
      have hattach : (attach s p).topLevel = s.topLevel ++ [p.tree] := by
        apply topLevel_attach hbefore
        intro hresult
        rw [hp] at hresult
        simp_all
      refine ⟨?_, ?_, ?_, trivial, hordered⟩
      · intro t ht
        rcases List.mem_append.mp (hattach ▸ ht : t ∈ s.topLevel ++ [p.tree]) with ht | ht
        · exact h.trees t ht
        · exact List.mem_singleton.mp ht ▸ hwf
      · show (attach s p).returns = (attach s p).topLevel.find? (·.name.isEmpty)
        rw [hattach, List.find?_append, ← h.result, attach, hp]
        cases hname : p.tree.name.isEmpty <;> cases s.returns <;> simp [hname]
      · intro t ht
        rcases List.mem_append.mp (hattach ▸ ht : t ∈ s.topLevel ++ [p.tree]) with ht | ht
        · exact h.named t ht
        · exact List.mem_singleton.mp ht ▸ hblank
  | p :: parent :: rest =>
      obtain ⟨hwf, hroom, hrest⟩ := h.stack
      exact ⟨h.trees, h.result, h.named, hrest.adopt hroom hwf, hordered⟩

theorem repeat_closeTop_succ (n : Nat) (o : Outline) :
    Nat.repeat Outline.closeTop (n + 1) o = Nat.repeat Outline.closeTop n o.closeTop := by
  induction n with
  | zero => rfl
  | succ n ih =>
      show (Nat.repeat Outline.closeTop (n + 1) o).closeTop = _
      rw [ih]
      rfl

theorem length_stack_closeTop (o : Outline) : o.closeTop.stack.length = o.stack.length - 1 := by
  obtain ⟨s, stack⟩ := o
  match stack with
  | [] => rfl
  | [_] => rfl
  | _ :: _ :: _ => rfl

theorem closeTo_of_le {o : Outline} {depth : Nat} (h : o.stack.length ≤ depth) :
    o.closeTo depth = o := by
  rw [closeTo, Nat.sub_eq_zero_of_le h]
  rfl

theorem closeTo_of_lt {o : Outline} {depth : Nat} (h : depth < o.stack.length) :
    o.closeTo depth = o.closeTop.closeTo depth := by
  have hlength : o.stack.length - depth = (o.stack.length - 1 - depth) + 1 := by omega
  rw [closeTo, closeTo, hlength, repeat_closeTop_succ, length_stack_closeTop]

/-- What closing one parameter keeps, closing several keeps. -/
theorem closeTo_induction {P : Outline → Prop} (hstep : ∀ o, P o → P o.closeTop) {o : Outline}
    (depth : Nat) (h : P o) : P (o.closeTo depth) := by
  unfold closeTo
  induction o.stack.length - depth with
  | zero => exact h
  | succ n ih => exact hstep _ ih

theorem length_stack_closeTo (o : Outline) (depth : Nat) :
    (o.closeTo depth).stack.length = min o.stack.length depth := by
  by_cases h : depth < o.stack.length
  · rw [closeTo_of_lt h, length_stack_closeTo, length_stack_closeTop]
    omega
  · rw [closeTo_of_le (by omega)]
    omega
termination_by o.stack.length
decreasing_by
  rw [length_stack_closeTop]
  omega

/-- Closing in two stages is closing at once. -/
theorem closeTo_closeTo (o : Outline) {depth deeper : Nat} (h : depth ≤ deeper) :
    (o.closeTo deeper).closeTo depth = o.closeTo depth := by
  by_cases hlt : deeper < o.stack.length
  · rw [closeTo_of_lt hlt, closeTo_closeTo o.closeTop h, ← closeTo_of_lt (by omega)]
  · have hle : o.stack.length ≤ deeper := by omega
    rw [closeTo_of_le hle]
termination_by o.stack.length
decreasing_by
  rw [length_stack_closeTop]
  omega

/-- Closing keeps an outline sound and lists the same. -/
theorem Sound.closeTo {o : Outline} (h : o.Sound) (depth : Nat) :
    (o.closeTo depth).Sound ∧ (o.closeTo depth).listing = o.listing :=
  closeTo_induction (P := fun o' => o'.Sound ∧ o'.listing = o.listing)
    (fun _ ho => ⟨ho.1.closeTop, ho.1.listing_closeTop.trans ho.2⟩) depth ⟨h, rfl⟩

/-! ## Taking up a parameter -/

/-- A parameter at this level has a place below the open parameters. -/
def hasRoomAt (o : Outline) : Nat → Bool
  | 0 => true
  | level + 1 =>
    match o.stack with
    | [] => false
    | parent :: rest => rest.length == level && parent.tree.hasRoom

/-- Opens a parameter at a level after closing what is open there; none if it has no place. -/
def graft (o : Outline) (node : ParamTree) (level : Nat) : Option Outline :=
  if (o.closeTo level).hasRoomAt level then some ((o.closeTo level).openParam node level) else none

/-- Takes up parameters one after the other. -/
def graftAll (o : Outline) (nodes : List (ParamTree × Nat)) : Option Outline :=
  nodes.foldlM (fun o n => o.graft n.1 n.2) o

theorem graftAll_cons (o : Outline) (n : ParamTree × Nat) (ns : List (ParamTree × Nat)) :
    o.graftAll (n :: ns) = (o.graft n.1 n.2).bind fun o => o.graftAll ns := rfl

theorem graftAll_append (o : Outline) (ns ms : List (ParamTree × Nat)) :
    o.graftAll (ns ++ ms) = (o.graftAll ns).bind fun o => o.graftAll ms := by
  unfold graftAll
  rw [List.foldlM_append]
  rfl

/-- With room at a level, exactly the levels above it are open. -/
theorem length_stack_of_hasRoomAt {o : Outline} {level : Nat}
    (h : (o.closeTo level).hasRoomAt level) : (o.closeTo level).stack.length = level := by
  cases level with
  | zero => rw [length_stack_closeTo]; omega
  | succ level =>
      rw [hasRoomAt] at h
      split at h
      · contradiction
      · rename_i hstack
        simp_all

/-- A new parameter goes to the end of the listing, at its level. -/
theorem Sound.graft {o o' : Outline} {node : ParamTree} {level : Nat} (h : o.Sound)
    (hleaf : node.children = []) (hlast : ∀ e ∈ o.listing, e.1.sequence < node.sequence)
    (hblank : level = 0 → node.isBlank = false) (hgraft : o.graft node level = some o') :
    o'.Sound ∧ o'.listing = o.listing ++ [(node, level)] := by
  obtain ⟨hclosed, hlisting⟩ := h.closeTo level
  rw [Outline.graft] at hgraft
  split at hgraft
  · rename_i hroom
    obtain rfl := Option.some.inj hgraft
    have hlength := length_stack_of_hasRoomAt hroom
    generalize o.closeTo level = closed at *
    have hnew : (closed.openParam node level).listing = o.listing ++ [(node, level)] := by
      rw [← hlisting]
      simp [openParam, listing, stackRows, hlength, ParamTree.rows_of_leaf _ hleaf]
    refine ⟨⟨hclosed.trees, hclosed.result, hclosed.named, ?_, ?_⟩, hnew⟩
    · cases level with
      | zero =>
          have hnil := List.eq_nil_of_length_eq_zero hlength
          simp only [openParam, hnil]
          exact ⟨ParamTree.wellFormed_of_leaf hleaf, hblank rfl, by simp⟩
      | succ level =>
          rw [hasRoomAt] at hroom
          split at hroom
          · contradiction
          · rename_i parent rest hstack
            have hstackSound := hclosed.stack
            rw [hstack] at hstackSound
            simp only [openParam, hstack]
            exact ⟨ParamTree.wellFormed_of_leaf hleaf, (Bool.and_eq_true _ _ ▸ hroom).2,
              hstackSound⟩
    · rw [hnew, List.map_append, List.pairwise_append]
      refine ⟨h.ordered, by simp, ?_⟩
      intro a ha b hb
      obtain ⟨e, he, rfl⟩ := List.mem_map.mp ha
      simp only [List.map_cons, List.map_nil, List.mem_singleton] at hb
      exact hb ▸ hlast e he
  · contradiction

/-- Taking up parameters in order keeps an outline sound and lists them behind the others. -/
theorem Sound.graftAll {o o' : Outline} {nodes : List (ParamTree × Nat)} (h : o.Sound)
    (hleaf : ∀ n ∈ nodes, n.1.children = [])
    (hblank : ∀ n ∈ nodes, n.2 = 0 → n.1.isBlank = false)
    (hordered : ((o.listing ++ nodes).map (·.1.sequence)).Pairwise (· < ·))
    (hgraft : o.graftAll nodes = some o') :
    o'.Sound ∧ o'.listing = o.listing ++ nodes := by
  induction nodes generalizing o with
  | nil =>
      obtain rfl := Option.some.inj hgraft
      exact ⟨h, by simp⟩
  | cons n ns ih =>
      rw [graftAll_cons] at hgraft
      obtain ⟨o₁, hfirst, hrest⟩ := Option.bind_eq_some_iff.mp hgraft
      have hlast : ∀ e ∈ o.listing, e.1.sequence < n.1.sequence := by
        intro e he
        rw [List.map_append, List.pairwise_append] at hordered
        exact hordered.2.2 _ (List.mem_map_of_mem he) _ (by simp)
      obtain ⟨hsound, hlisting⟩ := h.graft (hleaf n List.mem_cons_self) hlast
        (hblank n List.mem_cons_self) hfirst
      obtain ⟨hsound', hlisting'⟩ := ih hsound
        (fun m hm => hleaf m (List.mem_cons_of_mem _ hm))
        (fun m hm => hblank m (List.mem_cons_of_mem _ hm))
        (by rw [hlisting]; simpa using hordered) hrest
      refine ⟨hsound', ?_⟩
      rw [hlisting', hlisting]
      simp

end Grouping.Outline

end RoutineBridge
