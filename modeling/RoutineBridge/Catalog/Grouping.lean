import RoutineBridge.Catalog.Signature

/-!
# Rows to signatures

Rows arrive in catalog order. A run of rows that belong to one subprogram makes one signature: a
row at some level closes everything that is open at that level or deeper, and goes below the
parameter that is open one level up.
-/

namespace RoutineBridge

/-- Why a list of rows describes no signatures. -/
inductive RowError where
  | orphanLevel (routine : String) (sequence level parent : Nat)
  | collectionArity (routine collection : String) (sequence : Nat)
  | outOfOrder (routine : String) (sequence previous : Nat)
deriving DecidableEq, Repr

def RowError.message : RowError → String
  | .orphanLevel routine sequence level parent =>
    s!"{routine}: row {sequence} at level {level} has no composite parent at level {parent}"
  | .collectionArity routine collection sequence =>
    let collection := Text.quoted collection
    s!"{routine}: collection {collection} already has an element (row {sequence})"
  | .outOfOrder routine sequence previous =>
    s!"{routine}: sequence {sequence} does not follow {previous}"

namespace Grouping

/-- A parameter that may still get children. -/
structure OpenParam where
  tree : ParamTree
  /-- It is the result of the routine. -/
  isResult : Bool

/-- A signature with the parameters that may still get children. -/
structure Outline where
  signature : Signature
  /-- The open parameters, the deepest first. -/
  stack : List OpenParam

namespace Outline

/-- Puts a finished top-level parameter into a signature. -/
def attach (s : Signature) (p : OpenParam) : Signature :=
  if p.isResult then { s with returns := some p.tree }
  else { s with arguments := s.arguments ++ [p.tree] }

/-- Closes the deepest open parameter. -/
def closeTop (o : Outline) : Outline :=
  match o.stack with
  | [] => o
  | [p] => { o with stack := [], signature := attach o.signature p }
  | p :: parent :: rest =>
    { o with stack := { parent with tree := parent.tree.adopt p.tree } :: rest }

/-- Closes open parameters until only `depth` are left. -/
def closeTo (o : Outline) (depth : Nat) : Outline := Nat.repeat closeTop (o.stack.length - depth) o

/-- The row may stand below the open parameters. -/
def checkParent (o : Outline) (r : ArgumentRow) : Except RowError Unit :=
  if r.level = 0 then .ok ()
  else
    let orphan : RowError :=
      .orphanLevel o.signature.displayName r.sequence r.level (r.level - 1)
    match o.stack with
    | parent :: _ =>
      if o.stack.length ≠ r.level then .error orphan
      else
        match parent.tree.compositeKind? with
        | none => .error orphan
        | some .record => .ok ()
        | some .collection | some .cursor =>
          if parent.tree.children.isEmpty then .ok ()
          else .error (.collectionArity o.signature.displayName parent.tree.name r.sequence)
    | [] => .error orphan

/-- Opens a parameter at a level. The first unnamed one at the top is the result. -/
def openParam (o : Outline) (t : ParamTree) (level : Nat) : Outline :=
  let isResult := level == 0 && t.name.isEmpty && o.signature.returns.isNone
  { o with stack := ⟨t, isResult⟩ :: o.stack }

end Outline

/-- A signature whose rows are still arriving. -/
structure Run extends Outline where
  lastSequence : Option Nat

namespace Run

def start (r : ArgumentRow) : Run := ⟨⟨.ofRow r, []⟩, none⟩

/-- The row follows the row before it. -/
def checkOrder (run : Run) (r : ArgumentRow) : Except RowError Unit :=
  match run.lastSequence with
  | some previous =>
    if r.sequence ≤ previous then
      .error (.outOfOrder run.signature.displayName r.sequence previous)
    else .ok ()
  | none => .ok ()

def push (run : Run) (r : ArgumentRow) : Except RowError Run := do
  run.checkOrder r
  if r.isPlaceholder then pure ⟨run.toOutline, some r.sequence⟩
  else
    let outline := run.toOutline.closeTo r.level
    outline.checkParent r
    pure ⟨outline.openParam (.ofRow r) r.level, some r.sequence⟩

/-- The signature, with everything closed. -/
def finish (run : Run) : Signature := (run.toOutline.closeTo 0).signature

end Run

/-- The row takes part: its object is not hidden, and its name passes. -/
def accepts (keep : String → Bool) (r : ArgumentRow) : Bool := !r.isHidden && keep r.routineName

/-- Takes up an accepted row. A row of another subprogram ends the run before it. -/
def step (current : Option Run) (r : ArgumentRow) :
    Except RowError (Option Run × Option Signature) :=
  match current with
  | some run =>
    if run.signature.owns r then (run.push r).map fun run => (some run, none)
    else ((Run.start r).push r).map fun next => (some next, some run.finish)
  | none => ((Run.start r).push r).map fun next => (some next, none)

/-- The signatures of accepted rows, behind a run that is under way. -/
def signaturesFrom (current : Option Run) : List ArgumentRow → Except RowError (List Signature)
  | [] => .ok (current.toList.map Run.finish)
  | r :: rs => do
    let (current, finished) ← step current r
    let rest ← signaturesFrom current rs
    pure (finished.toList ++ rest)

/-- The signatures that a list of rows describes, as far as the rows take part. -/
def signatures (keep : String → Bool) (rows : List ArgumentRow) :
    Except RowError (List Signature) :=
  signaturesFrom none (rows.filter (accepts keep))

end Grouping

end RoutineBridge
