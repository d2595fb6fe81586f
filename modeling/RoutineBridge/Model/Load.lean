import RoutineBridge.Json.Decode
import RoutineBridge.Model

/-!
# Models from JSON

Readers for the JSON form of a model and of everything in it: they take back what is written of
it. A value that may be missing may also be null, and members that nobody knows are skipped.
-/

namespace RoutineBridge

open Json

/-- A variant with members of its own, which stand in an object. -/
def Json.variant {σ : Type} (fields : List (Member σ)) (start : σ) : Decoder σ :=
  objectWith fields skip start

def TypeName.read : Decoder TypeName :=
  record
    [.required "owner" string fun v n => { n with owner := v },
     .required "package" string fun v n => { n with package := v },
     .required "name" string fun v n => { n with name := v }] default

def Scalar.Kind.read : Decoder Scalar.Kind :=
  choice
    [("Text", .text), ("Integer", .integer), ("Number", .number), ("Float", .float),
     ("DateTime", .dateTime), ("Raw", .raw), ("Clob", .clob), ("Blob", .blob),
     ("Boolean", .boolean)]

def Scalar.read : Decoder Scalar :=
  record
    [.required "kind" Scalar.Kind.read fun v s => { s with kind := v },
     .required "catalog_name" string fun v s => { s with catalogName := v },
     .required "precision" word fun v s => { s with precision := v },
     .required "scale" signedWord fun v s => { s with scale := v },
     .required "length" word fun v s => { s with length := v },
     .required "charset" string fun v s => { s with charset := v }] default

def Composite.Kind.read : Decoder Composite.Kind :=
  choice [("Record", .record), ("Collection", .collection), ("Cursor", .cursor)]

def Composite.Ref.read : Decoder Composite.Ref :=
  Json.record
    [.required "kind" Composite.Kind.read fun v r => { r with kind := v },
     .required "key" TypeName.read fun v r => { r with name := v }] default

def DataType.read : Decoder DataType :=
  tagged
    [("Scalar", fun d => (Scalar.read d).map .scalar),
     ("Composite", fun d => (Composite.Ref.read d).map .composite)]

def Attribute.read : Decoder Attribute :=
  record
    [.required "name" string fun v a => { a with name := v },
     .required "data_type" DataType.read fun v a => { a with dataType := v }] default

def Indexing.read : Decoder Indexing :=
  choice [("Dense", .dense), ("Associative", .associative)]

namespace Composite

def readRecord : Decoder Composite := fun d =>
  (variant
    [.required "key" TypeName.read fun v (s : TypeName × List Attribute) => (v, s.2),
     .required "attributes" (list Attribute.read) fun v s => (s.1, v)] (default, []) d).map
    fun (n, attributes) => .record n attributes

def readCollection : Decoder Composite := fun d =>
  (variant
    [.required "key" TypeName.read fun v (s : TypeName × DataType × Indexing) => (v, s.2),
     .required "element" DataType.read fun v s => (s.1, v, s.2.2),
     .required "indexing" Indexing.read fun v s => (s.1, s.2.1, v)] default d).map
    fun (n, element, indexing) => .collection n element indexing

def readCursor : Decoder Composite := fun d =>
  (variant [.required "key" TypeName.read fun v _ => v] default d).map .cursor

def read : Decoder Composite :=
  tagged [("Record", readRecord), ("Collection", readCollection), ("Cursor", readCursor)]

end Composite

def TypeTable.read : Decoder TypeTable := fun d => (list Composite.read d).map .ofList

def Direction.read : Decoder Direction :=
  choice [("In", .input), ("Out", .output), ("InOut", .both)]

def Argument.read : Decoder Argument :=
  record
    [.required "name" string fun v a => { a with name := v },
     .required "data_type" DataType.read fun v a => { a with dataType := v },
     .required "direction" Direction.read fun v a => { a with direction := v },
     .required "position" word fun v a => { a with position := v }] default

def DocBlock.read : Decoder DocBlock :=
  record
    [.required "raw" string fun v b => { b with raw := v },
     .required "common" string fun v b => { b with common := v },
     .required "input" (table string) fun v b => { b with input := v },
     .required "output" (table string) fun v b => { b with output := v }] .empty

namespace Routine

/-- The routine that stands in for another one, as the member of a routine. -/
def readStandIn (routine : Decoder Routine) : Decoder (Routine × Bool) :=
  record
    [.required "function" routine fun v s => (v, s.2),
     .required "json" boolean fun v s => (s.1, v)] default

def withStandIn (r : Routine) : Option (Routine × Bool) → Routine
  | some (target, json) => r.replaceBy target json
  | none => r

/-- A routine with at most so many stand-ins inside one another. -/
def readWithin : Nat → Decoder Routine
  | 0 => fun _ => .error .malformed
  | depth + 1 =>
    record
      [.required "owner" string fun v r => { r with owner := v },
       .required "package" string fun v r => { r with package := v },
       .required "name" string fun v r => { r with name := v },
       .optional "alias" string fun v r => { r with exposedAs := v },
       .required "arguments" (list Argument.read) fun v r => { r with arguments := v },
       .optional "returns" Attribute.read fun v r => { r with returns := v },
       .required "doc" DocBlock.read fun v r => { r with doc := v },
       .optional "replacement" (readStandIn (readWithin depth)) fun v r => r.withStandIn v,
       .required "handlers" (list string) fun v r => { r with handlers := v },
       .optional "max_table_size" word fun v r => { r with maxTableSize := v }] default

/-- A routine. Containers can only stand so deep inside one another, and stand-ins with them. -/
def read : Decoder Routine := readWithin depthLimit

end Routine

def Wire.read : Decoder Wire :=
  choice
    [("String", .string), ("Int32", .int32), ("Int64", .int64), ("Double", .double),
     ("Bool", .bool), ("Bytes", .bytes), ("Timestamp", .timestamp)]

namespace Element

def readScalar : Decoder Element := fun d =>
  (variant
    [.required "wire" Wire.read fun v (s : Wire × Scalar) => (v, s.2),
     .required "scalar" Scalar.read fun v s => (s.1, v)] default d).map fun (w, s) => .scalar w s

def readMessage : Decoder Element := fun d =>
  (variant
    [.required "name" string fun v (s : String × TypeName) => (v, s.2),
     .required "key" TypeName.read fun v s => (s.1, v)] default d).map
    fun (name, n) => .message name n

def read : Decoder Element := tagged [("Scalar", readScalar), ("Message", readMessage)]

end Element

def FieldShape.read : Decoder FieldShape :=
  record
    [.required "repeated" boolean fun v f => { f with repeated := v },
     .required "element" Element.read fun v f => { f with element := v }] default

namespace Source

def readParameter : Decoder Source := fun d =>
  (variant
    [.required "name" string fun v (s : String × Nat × Direction) => (v, s.2),
     .required "position" word fun v s => (s.1, v, s.2.2),
     .required "direction" Direction.read fun v s => (s.1, s.2.1, v)] default d).map
    fun (name, position, direction) => .parameter name position direction

def readAttribute : Decoder Source := fun d =>
  (variant [.required "name" string fun v _ => v] "" d).map .attribute

/-- A source that is known by its word alone, or one with members. -/
def read : Decoder Source := fun d =>
  match choice [("Return", Source.result), ("Items", .items)] d with
  | .ok s => .ok s
  | .error _ => tagged [("Parameter", readParameter), ("Attribute", readAttribute)] d

end Source

def Slot.read : Decoder Slot :=
  record
    [.required "field" string fun v s => { s with field := v },
     .required "ordinal" word fun v s => { s with ordinal := v },
     .required "source" Source.read fun v s => { s with source := v },
     .required "data_type" DataType.read fun v s => { s with dataType := v },
     .required "spec" FieldShape.read fun v s => { s with shape := v },
     .optional "doc" string fun v s => { s with doc := v }] default

def MessageTable.read : Decoder MessageTable :=
  record
    [.required "message" string fun v t => { t with message := v },
     .optional "key" TypeName.read fun v t => { t with type := v },
     .required "slots" (list Slot.read) fun v t => { t with slots := v }] default

def CallLayout.read : Decoder CallLayout :=
  record
    [.required "function" string fun v c => { c with routine := v },
     .required "request" MessageTable.read fun v c => { c with request := v },
     .required "response" MessageTable.read fun v c => { c with response := v },
     .required "streaming" boolean fun v c => { c with streaming := v }] default

def Layout.read : Decoder Layout :=
  Json.record
    [.required "calls" (table CallLayout.read) fun v l => { l with calls := v },
     .required "messages" (table MessageTable.read) fun v l => { l with messages := v }] default

def Model.read : Decoder Model :=
  record
    [.required "functions" (list Routine.read) fun v m => { m with routines := v },
     .required "types" TypeTable.read fun v m => { m with types := v },
     .required "layout" Layout.read fun v m => { m with layout := v }] default

end RoutineBridge
