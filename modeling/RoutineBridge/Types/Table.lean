import RoutineBridge.SortedMap
import RoutineBridge.Types.Composite

/-!
# Tables of composite types

A table holds definitions of records and collections by name. The first definition given for a
name stays. A cursor is never stored: its rows are the record of the same name.
-/

namespace RoutineBridge

/-- Definitions by the name they define. -/
structure TypeTable where
  definitions : SortedMap TypeName Composite
deriving Inhabited

namespace TypeTable

def empty : TypeTable := ⟨.empty⟩

def get? (t : TypeTable) (n : TypeName) : Option Composite := t.definitions.get? n

def contains (t : TypeTable) (n : TypeName) : Bool := t.definitions.contains n

def size (t : TypeTable) : Nat := t.definitions.size

/-- The definitions in the order of their names. -/
def toList (t : TypeTable) : List Composite := t.definitions.values

/-- Adds a definition and says whether it was taken up. -/
def add (t : TypeTable) : Composite → TypeTable × Bool
  | .cursor _ => (t, false)
  | c => if t.contains c.name then (t, false) else (⟨t.definitions.insert c.name c⟩, true)

/-- Adds a definition unless its name has one already. -/
def insert (t : TypeTable) (c : Composite) : TypeTable := (t.add c).1

theorem contains_iff {t : TypeTable} {n : TypeName} : t.contains n ↔ ∃ c, t.get? n = some c :=
  Option.isSome_iff_exists

theorem contains_of_get? {t : TypeTable} {n : TypeName} {c : Composite} (h : t.get? n = some c) :
    t.contains n :=
  contains_iff.mpr ⟨c, h⟩

theorem get?_insert_of_ne (t : TypeTable) {c : Composite} {n : TypeName} (h : n ≠ c.name) :
    (t.insert c).get? n = t.get? n := by
  cases c with
  | cursor => rfl
  | record m attributes =>
      simp only [insert, add]
      split
      · rfl
      · exact SortedMap.get?_insert_of_ne _ _ h
  | collection m element indexing =>
      simp only [insert, add]
      split
      · rfl
      · exact SortedMap.get?_insert_of_ne _ _ h

theorem contains_insert_of_ne (t : TypeTable) {c : Composite} {n : TypeName} (h : n ≠ c.name) :
    (t.insert c).contains n = t.contains n :=
  congrArg Option.isSome (get?_insert_of_ne t h)

theorem get?_insert_self {t : TypeTable} {c : Composite} (hkind : c.kind ≠ .cursor)
    (hfresh : t.contains c.name = false) : (t.insert c).get? c.name = some c := by
  cases c with
  | cursor => exact absurd rfl hkind
  | record n attributes =>
      simp only [insert, add, hfresh]
      exact SortedMap.get?_insert_self _ _ _
  | collection n element indexing =>
      simp only [insert, add, hfresh]
      exact SortedMap.get?_insert_self _ _ _

/-- Adds the definitions of a list one after the other. -/
def insertAll (t : TypeTable) (cs : List Composite) : TypeTable := cs.foldl insert t

/-- Adds the definitions of another table. -/
def extend (t other : TypeTable) : TypeTable := t.insertAll other.toList

def ofList (cs : List Composite) : TypeTable := empty.insertAll cs

/-- The attributes of the records, by name. -/
def records (t : TypeTable) : List (TypeName × List Attribute) :=
  t.definitions.entries.filterMap fun
    | (n, .record _ attributes) => some (n, attributes)
    | _ => none

/-- What a collection holds, or the row of a cursor. -/
def element? (t : TypeTable) (r : Composite.Ref) : Option DataType :=
  match r.kind with
  | .cursor => some (.composite ⟨.record, r.name⟩)
  | .collection =>
    match t.get? r.name with
    | some (.collection _ element _) => some element
    | _ => none
  | .record => none

/-! ## Reachable definitions -/

/-- The names that a list of types uses. -/
def roots (types : List DataType) : List TypeName := types.filterMap fun d => d.ref?.map (·.name)

/-- Collects the definitions that the pending names lead to. `unseen` are the names with a
definition that have not been met; a name without one leads nowhere. -/
def collect (t : TypeTable) (unseen : List TypeName) :
    List TypeName → TypeTable → TypeTable
  | [], found => found
  | n :: pending, found =>
    if _h : n ∈ unseen then
      match t.get? n with
      | some c => collect t (unseen.erase n) (c.references.map (·.name) ++ pending) (found.insert c)
      | none => collect t (unseen.erase n) pending found
    else collect t unseen pending found
termination_by pending => (unseen.length, pending.length)
decreasing_by
  · rw [List.length_erase_of_mem ‹_›]
    have := List.length_pos_of_mem ‹n ∈ unseen›
    exact Prod.Lex.left _ _ (by omega)
  · rw [List.length_erase_of_mem ‹_›]
    have := List.length_pos_of_mem ‹n ∈ unseen›
    exact Prod.Lex.left _ _ (by omega)
  · exact Prod.Lex.right _ (by simp)

/-- The definitions that a list of types leads to, directly or through other definitions. -/
def reachableFrom (t : TypeTable) (types : List DataType) : TypeTable :=
  collect t t.definitions.keys (roots types) empty

end TypeTable

end RoutineBridge
