import RoutineBridge.Layout.Basic

/-!
# Models

A model is what artifacts are made from: routines, the types they reach, and the layout of their
messages.
-/

namespace RoutineBridge

/-- Routines with their types and messages. -/
structure Model where
  routines : List Routine
  types : TypeTable
  layout : Layout
deriving Inhabited

namespace Model

/-- Freezes a set of routines: types that no routine reaches are left out, and the layout is
decided. -/
def freeze (routines : List Routine) (types : TypeTable) (options : Options) : Model :=
  let types := types.reachableFrom (routines.flatMap Routine.dataTypes)
  ⟨routines, types, Layout.build routines types options⟩

/-- The packages that are not yet among `seen`, up to case, in order. -/
def distinctPackages (seen : List String) : List String → List String
  | [] => []
  | p :: ps =>
    if seen.any (Text.sameIgnoringCase · p) then distinctPackages seen ps
    else p :: distinctPackages (p :: seen) ps

/-- The packages of the routines, each once, in the order of the routines. -/
def packages (m : Model) : List String := distinctPackages [] (m.routines.map (·.package))

def routinesIn (m : Model) (package : String) : List Routine :=
  m.routines.filter (Text.sameIgnoringCase ·.package package)

end Model

end RoutineBridge
