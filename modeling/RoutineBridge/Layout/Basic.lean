import RoutineBridge.Layout.Wire

/-!
# The layout of messages

The one place where message names, field names, field numbers and wires are decided. Every
artifact reads them from here.
-/

namespace RoutineBridge

/-- Where the value of a field comes from. -/
inductive Source where
  | parameter (name : String) (position : Nat) (direction : Direction)
  | result
  | attribute (name : String)
  /-- The elements of a collection inside a collection. -/
  | items
deriving DecidableEq, Repr, Inhabited

/-- A field of a message. -/
structure Slot where
  field : String
  ordinal : Nat
  source : Source
  dataType : DataType
  shape : FieldShape
  doc : Option String
deriving DecidableEq, Repr, Inhabited

/-- A message and its fields. -/
structure MessageTable where
  message : String
  /-- The composite type the message belongs to; requests and responses belong to none. -/
  type : Option TypeName
  slots : List Slot
deriving DecidableEq, Repr, Inhabited

structure CallLayout where
  /-- The qualified name of the routine. -/
  routine : String
  request : MessageTable
  response : MessageTable
  streaming : Bool
deriving DecidableEq, Repr, Inhabited

/-- The messages of all routines, by qualified name, and of all composite types, by message. -/
structure Layout where
  calls : SortedMap String CallLayout
  messages : SortedMap String MessageTable
deriving Inhabited

/-! ## Field names -/

/-- The name with as many underscores behind it as make it differ from the names that are taken.
At most one underscore per taken name is ever needed. -/
def freshName (taken : List String) : Nat → String → String
  | 0, name => name
  | tries + 1, name => if taken.contains name then freshName taken tries (name ++ "_") else name

/-- Field names for a list of wishes: a wish that is taken already gets underscores. -/
def distinctNames (taken : List String) : List String → List String
  | [] => []
  | wish :: wishes =>
    let name := freshName taken taken.length wish
    name :: distinctNames (name :: taken) wishes

namespace Layout

/-- The field of a return value. -/
def resultField : String := "ret"

/-- The field of a message that stands for an inner collection. -/
def itemsField : String := "items"

/-! ## Calls -/

/-- The field names of a routine: one for each argument, and one for the result behind them. -/
def fieldNames (r : Routine) : List String :=
  distinctNames []
    (r.arguments.map (fun a => Identifier.field a.name) ++
      r.returns.toList.map fun _ => resultField)

/-- The slot of an argument, described for one direction. -/
def argumentSlot (r : Routine) (types : TypeTable) (options : Options) (direction : Direction)
    (field : String) (a : Argument) : Slot where
  field := field
  ordinal := a.position
  source := .parameter a.name a.position a.direction
  dataType := a.dataType
  shape := .ofDataType types options.numberAsString a.dataType
  doc := r.doc.describe a.name direction

/-- The slot of the result. Its number follows those of the arguments. -/
def resultSlot (r : Routine) (types : TypeTable) (options : Options) (field : String)
    (a : Attribute) : Slot where
  field := field
  ordinal := r.arguments.length + 1
  source := .result
  dataType := a.dataType
  shape := .ofDataType types options.numberAsString a.dataType
  doc := r.doc.describe resultField .output

/-- The messages of a routine. An argument that goes both ways has one name and number in both. -/
def call (r : Routine) (types : TypeTable) (options : Options) : CallLayout :=
  let names := fieldNames r
  let arguments := names.zip r.arguments
  let inputs := arguments.filter (·.2.direction.isInput)
  let outputs := arguments.filter (·.2.direction.isOutput)
  let results := (names.drop r.arguments.length).zip r.returns.toList
  { routine := r.qualifiedName
    request :=
      { message := Identifier.requestMessage r
        type := none
        slots := inputs.map fun (field, a) => argumentSlot r types options .input field a }
    response :=
      { message := Identifier.responseMessage r
        type := none
        slots :=
          outputs.map (fun (field, a) => argumentSlot r types options .output field a) ++
            results.map fun (field, a) => resultSlot r types options field a }
    streaming := r.isStreaming }

/-! ## Composite types -/

def attributeSlot (types : TypeTable) (options : Options) (field : String) (ordinal : Nat)
    (a : Attribute) : Slot where
  field := field
  ordinal := ordinal
  source := .attribute a.name
  dataType := a.dataType
  shape := .ofDataType types options.numberAsString a.dataType
  doc := none

/-- The message of a record: its attributes, numbered from one. -/
def record (types : TypeTable) (options : Options) (name : TypeName) (attributes : List Attribute) :
    MessageTable where
  message := Identifier.typeMessage name
  type := some name
  slots :=
    let names := distinctNames [] (attributes.map fun a => Identifier.field a.name)
    (names.zip attributes).zipIdx.map fun ((field, a), i) =>
      attributeSlot types options field (i + 1) a

/-- The collections that stand inside another collection, by name. -/
def innerCollections (types : TypeTable) : SortedMap TypeName Unit :=
  .ofList <| types.toList.filterMap fun
    | .collection _ (.composite ⟨.collection, inner⟩) _ => some (inner, ())
    | _ => none

/-- The message that stands for an inner collection: a single list. -/
def wrapper (types : TypeTable) (options : Options) (name : TypeName) : MessageTable where
  message := Identifier.typeMessage name
  type := some name
  slots :=
    let dataType : DataType := .composite ⟨.collection, name⟩
    [{ field := itemsField
       ordinal := 1
       source := .items
       dataType
       shape := .ofDataType types options.numberAsString dataType
       doc := none }]

/-- All messages of composite types: records first, then the inner collections. -/
def typeMessages (types : TypeTable) (options : Options) : List MessageTable :=
  types.records.map (fun (name, attributes) => record types options name attributes) ++
    (innerCollections types).keys.map (wrapper types options)

/-- The layout of a set of routines over a table of types. Of two messages with one name the later
one counts. -/
def build (routines : List Routine) (types : TypeTable) (options : Options) : Layout where
  calls := .ofList (routines.map fun r => (r.qualifiedName, call r types options))
  messages := .ofList ((typeMessages types options).map fun m => (m.message, m))

def call? (l : Layout) (r : Routine) : Option CallLayout := l.calls.get? r.qualifiedName

def message? (l : Layout) (name : String) : Option MessageTable := l.messages.get? name

end Layout

/-- The first slot with a field name. -/
def MessageTable.slot? (t : MessageTable) (field : String) : Option Slot :=
  t.slots.find? (·.field == field)

end RoutineBridge
