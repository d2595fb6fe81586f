/-!
# JSON values

A value as a document holds it. Members of an object keep their order, and a number that is no
integer keeps its text.
-/

namespace RoutineBridge

inductive Json where
  | null
  | bool (b : Bool)
  | int (i : Int)
  /-- A number with a fraction or an exponent, as it is written. -/
  | decimal (text : String)
  | str (s : String)
  | arr (items : List Json)
  | obj (members : List (String × Json))
deriving BEq, Inhabited, Repr

namespace Json

def nat (n : Nat) : Json := .int n

/-- A value that may be missing. -/
def ofOption {α : Type} (f : α → Json) : Option α → Json
  | some a => f a
  | none => .null

def strings (ss : List String) : Json := .arr (ss.map .str)

end Json

end RoutineBridge
