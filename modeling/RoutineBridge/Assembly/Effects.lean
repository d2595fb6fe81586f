import RoutineBridge.Routine.Directive

/-!
# Effects of directives

Directives take effect verb by verb, and in the order given within a verb. Each names its routines
by catalog name, so a rename never changes what a later directive is about. A directive that cannot
take effect is refused and changes nothing.
-/

namespace RoutineBridge

/-- Why a directive has no effect. -/
inductive Refusal where
  | noSuchRoutine
  | missingAlias
  /-- The new name is taken. -/
  | nameTaken (key : String)
  | missingReplacement
  | replacesItself
  | noSuchReplacement
  | missingSize
deriving DecidableEq, Repr

def Refusal.message : Refusal → String
  | noSuchRoutine => "no such function"
  | missingAlias => "missing alias"
  | nameTaken key => key ++ " already exists"
  | missingReplacement => "missing replacement"
  | replacesItself => "function cannot replace itself"
  | noSuchReplacement => "no such replacement"
  | missingSize => "missing size"

/-- A change to the routines that can be refused. What was done before it was refused stays done. -/
abbrev Edit := ExceptT Refusal (StateM (List Routine))

/-- What an edit gives or why it is refused, and the routines that are there afterwards. -/
def Edit.outcome {α : Type} (x : Edit α) (rs : List Routine) : Except Refusal α × List Routine :=
  x.run.run rs

namespace Effects

/-- Changes the first routine of a catalog name. -/
def change (key : String) (f : Routine → Routine) : List Routine → Option (List Routine)
  | [] => none
  | r :: rs => if r.catalogKey = key then some (f r :: rs) else (change key f rs).map (r :: ·)

/-- Takes the first routine of a catalog name out. -/
def takeOut (key : String) : List Routine → Option (Routine × List Routine)
  | [] => none
  | r :: rs =>
    if r.catalogKey = key then some (r, rs)
    else (takeOut key rs).map fun (taken, rest) => (taken, r :: rest)

/-- Some routine has the catalog name. -/
def isKnown (key : String) (rs : List Routine) : Bool := rs.any (·.catalogKey == key)

def changeRoutine (key : String) (f : Routine → Routine) : Edit Unit := do
  match change key f (← get) with
  | some rs => set rs
  | none => throw .noSuchRoutine

def takeRoutine (key : String) (refusal : Refusal) : Edit Routine := do
  match takeOut key (← get) with
  | some (taken, rest) =>
    set rest
    pure taken
  | none => throw refusal

def addHandler (handler : String) (r : Routine) : Routine :=
  if r.handlers.contains handler then r else { r with handlers := r.handlers ++ [handler] }

/-- Raises the cap of a routine; a cap never shrinks. -/
def raiseCap (size : Nat) (r : Routine) : Routine :=
  { r with maxTableSize := some (r.maxTableSize.elim size (max · size)) }

/-- Puts the routine of one catalog name in place of another. It is taken out before the one that it
replaces is changed. -/
def replace (target other : String) (json : Bool) : Edit Unit := do
  if other = target then throw .replacesItself
  else if !isKnown target (← get) then throw .noSuchRoutine
  else
    let replacement ← takeRoutine other .noSuchReplacement
    changeRoutine target (·.replaceBy replacement json)

/-- Carries a directive out. -/
def perform (d : Directive) : Edit Unit :=
  match d.verb with
  | .hide => do
    let _ ← takeRoutine d.targetKey .noSuchRoutine
    pure ()
  | .rename => do
    match d.other with
    | none => throw .missingAlias
    | some other =>
      let key := qualify d.package other
      if (← get).any (·.qualifiedName == key) then throw (.nameTaken key)
      else changeRoutine d.targetKey fun r => { r with exposedAs := some other }
  | .replace | .replaceJson =>
    match d.otherKey? with
    | none => throw .missingReplacement
    | some other => replace d.targetKey other (d.verb == .replaceJson)
  | .handle =>
    let handler := Text.asciiUpper d.name
    modify (·.map fun r =>
      if Text.sameIgnoringCase r.package d.package then addHandler handler r else r)
  | .maxTableSize =>
    match d.size with
    | none => throw .missingSize
    | some size => changeRoutine d.targetKey (raiseCap size)

/-- All verbs in the order they take effect. -/
def verbs : List Directive.Verb :=
  [.hide, .rename, .replace, .replaceJson, .handle, .maxTableSize]

/-- Directives in the order they take effect. -/
def inOrder (ds : List Directive) : List Directive :=
  verbs.flatMap fun v => ds.filter (·.verb == v)

/-- What a refused directive says. -/
def warning (d : Directive) (refusal : Refusal) : String := d.display ++ ": " ++ refusal.message

/-- The effects of directives one after the other, with warnings for those that are refused. -/
def applyEach : List Directive → List Routine → List Routine × List String
  | [], rs => (rs, [])
  | d :: ds, rs =>
    match (perform d).outcome rs with
    | (.ok (), rs) => applyEach ds rs
    | (.error refusal, rs) =>
      let (rs, warnings) := applyEach ds rs
      (rs, warning d refusal :: warnings)

/-- The effects of a set of directives. -/
def applyAll (ds : List Directive) (rs : List Routine) : List Routine × List String :=
  applyEach (inOrder ds) rs

end Effects

end RoutineBridge
