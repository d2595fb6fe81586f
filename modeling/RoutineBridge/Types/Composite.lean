import RoutineBridge.Types.Name
import RoutineBridge.Types.Scalar

/-!
# Composite types

Records, collections and cursors. Wherever a composite type is used only its kind and its name are
held, so definitions never contain one another.
-/

namespace RoutineBridge

inductive Composite.Kind where
  | record
  | collection
  /-- A stream of rows; a row is the record of the same name. -/
  | cursor
deriving DecidableEq, Repr, Inhabited

namespace Composite.Kind

def ofCatalog? (dataKind : String) : Option Composite.Kind :=
  let name := Text.asciiUpper (Text.trimmed dataKind)
  if ["PL/SQL RECORD", "OBJECT", "RECORD"].contains name then some .record
  else if ["PL/SQL TABLE", "PL/SQL INDEX TABLE", "TABLE", "VARRAY", "VARYING ARRAY",
      "COLLECTION"].contains name then some .collection
  else if ["REF CURSOR", "CURSOR"].contains name then some .cursor
  else none

def display : Composite.Kind → String
  | record => "record"
  | collection => "collection"
  | cursor => "cursor"

instance : ToString Composite.Kind := ⟨display⟩

/-- The kind of definition that stands behind a kind: the rows of a cursor are a record. -/
def stored : Composite.Kind → Composite.Kind
  | cursor => record
  | k => k

@[simp]
theorem stored_stored (k : Composite.Kind) : k.stored.stored = k.stored := by
  cases k <;> rfl

/-- Position in the order record, collection, cursor. -/
def rank : Composite.Kind → Nat
  | record => 0
  | collection => 1
  | cursor => 2

end Composite.Kind

/-- How the elements of a collection are found. -/
inductive Indexing where
  | dense
  /-- By a key of their own. -/
  | associative
deriving DecidableEq, Repr, Inhabited

/-- A use of a composite type. -/
structure Composite.Ref where
  kind : Composite.Kind
  name : TypeName
deriving DecidableEq, Repr, Inhabited

/-- The type of an argument, a member or an element. -/
inductive DataType where
  | scalar (s : Scalar)
  | composite (r : Composite.Ref)
deriving DecidableEq, Repr, Inhabited

namespace DataType

/-- The composite type that is used, if it is one. -/
def ref? : DataType → Option Composite.Ref
  | scalar _ => none
  | composite r => some r

def isCursor : DataType → Bool
  | composite r => r.kind == .cursor
  | scalar _ => false

end DataType

/-- A named member of a record, or what a routine returns. -/
structure Attribute where
  name : String
  dataType : DataType
deriving DecidableEq, Repr, Inhabited

inductive Composite where
  | record (name : TypeName) (attributes : List Attribute)
  | collection (name : TypeName) (element : DataType) (indexing : Indexing)
  | cursor (name : TypeName)
deriving DecidableEq, Repr, Inhabited

namespace Composite

def name : Composite → TypeName
  | record n _ => n
  | collection n _ _ => n
  | cursor n => n

def kind : Composite → Kind
  | record .. => .record
  | collection .. => .collection
  | cursor .. => .cursor

/-- The uses of other composite types in a definition, in the order they stand there. -/
def references : Composite → List Ref
  | record _ attributes => attributes.filterMap (·.dataType.ref?)
  | collection _ element _ => element.ref?.toList
  | cursor n => [⟨.record, n⟩]

end Composite

end RoutineBridge
