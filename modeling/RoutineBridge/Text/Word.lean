import RoutineBridge.Text.Word.Table

/-!
# Word characters

A word starts where a word character stands after none.
-/

namespace RoutineBridge.Text

/-- Letters, marks, digits and connectors. -/
def isWord (c : Char) : Bool :=
  if c.toNat < 128 then c.isAlphanum || c == '_' else wordSet.contains c

end RoutineBridge.Text
