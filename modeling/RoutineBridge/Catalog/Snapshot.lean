import RoutineBridge.Catalog.Row

/-!
# Catalog snapshots

A snapshot holds what a catalog would answer: the argument listing, the attributes of records, the
elements of collections and the sources of packages. Packages are found in upper case.
-/

namespace RoutineBridge

structure Snapshot where
  arguments : List ArgumentRow
  records : SortedMap TypeName (List MemberRow)
  collections : SortedMap TypeName CollectionRow
  sources : SortedMap String String
deriving Inhabited

namespace Snapshot

def empty : Snapshot := ⟨[], .empty, .empty, .empty⟩

def withRecord (s : Snapshot) (name : TypeName) (attributes : List MemberRow) : Snapshot :=
  { s with records := s.records.insert name attributes }

def withCollection (s : Snapshot) (name : TypeName) (row : CollectionRow) : Snapshot :=
  { s with collections := s.collections.insert name row }

def withSource (s : Snapshot) (package text : String) : Snapshot :=
  { s with sources := s.sources.insert (Text.asciiUpper package) text }

/-- The attributes of a record; none when it is not known. -/
def recordAttributes (s : Snapshot) (name : TypeName) : List MemberRow :=
  (s.records.get? name).getD []

def collectionElement? (s : Snapshot) (name : TypeName) : Option CollectionRow :=
  s.collections.get? name

def source? (s : Snapshot) (package : String) : Option String :=
  s.sources.get? (Text.asciiUpper package)

/-! ## Reading snapshots -/

open Json

/-- The depth that is left for a value inside an entry of the document. -/
def entryDepth : Nat := depthLimit - 3

/-- A member of an entry that is looked at as a whole before it is read. -/
def buffered {α : Type} (read : Decoder α) : Decoder α := fun d => do
  let _ ← valueWithin entryDepth d
  read d

/-- The look at a member of an entry that nobody asks for. -/
def bufferOther (d : Draft) : Except Problem Unit := (valueWithin entryDepth d).map fun _ => ()

def recordFields : List (Member (TypeName × List MemberRow)) :=
  [.required "owner" (buffered string) fun v e => ({ e.1 with owner := v }, e.2),
   .required "package" (buffered string) fun v e => ({ e.1 with package := v }, e.2),
   .required "name" (buffered string) fun v e => ({ e.1 with name := v }, e.2),
   .required "attributes" (list MemberRow.read) fun v e => (e.1, v)]

def collectionFields : List (Member (TypeName × CollectionRow)) :=
  [.required "owner" (buffered string) fun v e => ({ e.1 with owner := v }, e.2),
   .required "package" (buffered string) fun v e => ({ e.1 with package := v }, e.2),
   .required "name" (buffered string) fun v e => ({ e.1 with name := v }, e.2),
   .required "element" (buffered MemberRow.read) fun v e => (e.1, { e.2 with element := v }),
   .withDefault "indexed" (buffered boolean) fun v e => (e.1, { e.2 with indexed := v })]

/-- The document of a snapshot, before its entries are sorted by name. -/
structure Document where
  arguments : List ArgumentRow := []
  records : List (TypeName × List MemberRow) := []
  collections : List (TypeName × CollectionRow) := []
  sources : SortedMap String String := .empty

def documentFields : List (Member Document) :=
  [.withDefault "arguments" (list ArgumentRow.read) fun v d => { d with arguments := v },
   .withDefault "records"
     (list (objectWith recordFields bufferOther (default, []))) fun v d => { d with records := v },
   .withDefault "collections"
     (list (objectWith collectionFields bufferOther (default, { element := {} })))
     fun v d => { d with collections := v },
   .withDefault "sources" (table string) fun v d => { d with sources := v }]

/-- The snapshot of a document. Of two entries with one name the later one counts; of two packages
that are the same in upper case, the one later in order of names. -/
def ofDocument (d : Document) : Snapshot where
  arguments := d.arguments
  records := .ofList d.records
  collections := .ofList d.collections
  sources := .ofList (d.sources.entries.map fun e => (Text.asciiUpper e.1, e.2))

def ofJson (text : String) : Except Problem Snapshot :=
  (decode (record documentFields {}) text).map ofDocument

end Snapshot

end RoutineBridge
