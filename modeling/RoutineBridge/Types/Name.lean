/-!
# Names of composite types

A composite type of the catalog is known by its owner, its package and its own name. A type that
belongs to the schema itself has no package.
-/

namespace RoutineBridge

structure TypeName where
  owner : String
  package : String
  name : String
deriving DecidableEq, Repr, Inhabited

namespace TypeName

/-- Names are ordered by owner, then package, then own name. -/
protected def compare : TypeName → TypeName → Ordering :=
  compareLex (compareOn owner) (compareLex (compareOn package) (compareOn name))

instance : Ord TypeName := ⟨TypeName.compare⟩

instance : Std.TransOrd TypeName :=
  inferInstanceAs (Std.TransCmp
    (compareLex (compareOn owner) (compareLex (compareOn package) (compareOn name))))

instance : Std.LawfulEqOrd TypeName where
  eq_of_compare {a b} h := by
    have h' : compareLex (compareOn owner)
        (compareLex (compareOn package) (compareOn name)) a b = .eq := h
    simp only [compareLex_eq_eq, compareOn, Std.compare_eq_iff_eq] at h'
    cases a
    cases b
    simp_all

/-- The parts that are there, outermost first. -/
def parts (n : TypeName) : List String := [n.owner, n.package, n.name].filter (· ≠ "")

/-- The parts with dots between them. -/
def display (n : TypeName) : String := ".".intercalate n.parts

instance : ToString TypeName := ⟨display⟩

end TypeName

end RoutineBridge
