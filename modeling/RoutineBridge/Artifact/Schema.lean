import RoutineBridge.Artifact.Basic

/-!
# The proto3 schema

One request and one response message for every routine, one message for every composite type, and
one service for every package. A routine with a cursor among its outputs answers with a stream.
-/

namespace RoutineBridge.Schema

def wireType : Wire → String
  | .string => "string"
  | .int32 => "int32"
  | .int64 => "int64"
  | .double => "double"
  | .bool => "bool"
  | .bytes => "bytes"
  | .timestamp => "google.protobuf.Timestamp"

def fieldType (shape : FieldShape) : String :=
  let element := match shape.element with
    | .scalar wire _ => wireType wire
    | .message name _ => name
  if shape.repeated then "repeated " ++ element else element

/-- Some field of some message is a point in time. -/
def usesTimestamp (m : Model) : Bool :=
  let tables :=
    m.layout.calls.values.flatMap (fun c => [c.request, c.response]) ++ m.layout.messages.values
  tables.any fun t => t.slots.any fun s =>
    match s.shape.element with
    | .scalar .timestamp _ => true
    | _ => false

/-- The documentation of a field, and its type in the catalog. -/
def fieldComment (s : Slot) : String :=
  let type := match s.dataType with
    | .scalar t => t.describe
    | .composite r => s!"{r.kind} {r.name}"
  match s.doc with
  | some doc => if Text.isBlankText doc.toList then type else doc ++ "\n" ++ type
  | none => type

def field (s : Slot) : List Piece :=
  let type := fieldType s.shape
  [.doc "  // " (fieldComment s), .text s!"  {type} {s.field} = {s.ordinal};\n"]

def message (t : MessageTable) (doc : String) : List Piece :=
  [.text "\n", .doc "// " doc, .text ("message " ++ t.message ++ " \x7b\n")] ++
    t.slots.flatMap field ++ [.text "\x7d\n"]

def callMessages (r : Routine) (c : CallLayout) : List Piece :=
  message c.request r.doc.common ++ message c.response r.doc.common

def rpc (r : Routine) (c : CallLayout) : List Piece :=
  let name := Identifier.rpc r
  let stream := if c.streaming then "stream " else ""
  let messages := s!"({c.request.message}) returns ({stream}{c.response.message})"
  [.doc "  // " r.doc.common, .text ("  rpc " ++ name ++ " " ++ messages ++ " \x7b\x7d\n")]

def service (package : String) (calls : List (Routine × CallLayout)) : List Piece :=
  [.text ("\nservice " ++ Identifier.service package ++ " \x7b\n")] ++
    calls.flatMap (fun (r, c) => rpc r c) ++ [.text "\x7d\n"]

def callsIn (calls : List (Routine × CallLayout)) (package : String) :
    List (Routine × CallLayout) :=
  calls.filter fun (r, _) => Text.sameIgnoringCase r.package package

/-- The lines in front of the messages. -/
def header (m : Model) (options : Options) : List Piece :=
  [.text "// Code generated by procgen. DO NOT EDIT.\nsyntax = \"proto3\";\n\n",
   .text s!"package {options.schemaPackage};\n"] ++
    if usesTimestamp m then [.text "\nimport \"google/protobuf/timestamp.proto\";\n"] else []

def pieces (m : Model) (options : Options) (calls : List (Routine × CallLayout)) : List Piece :=
  header m options ++ calls.flatMap (fun (r, c) => callMessages r c) ++
    m.layout.messages.values.flatMap (message · "") ++
    m.packages.flatMap fun p => service p (callsIn calls p)

def render (m : Model) (options : Options) : Except EmitError String :=
  m.calls.map fun calls => Piece.renderAll (pieces m options calls)

def artifacts (m : Model) (options : Options) : Except EmitError (List Artifact) :=
  (render m options).map fun text => [⟨options.schemaPackage ++ ".proto", text⟩]

end RoutineBridge.Schema
