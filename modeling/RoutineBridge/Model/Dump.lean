import RoutineBridge.Model

/-!
# Models as JSON

The JSON form of a model and of everything in it. Members stand in a fixed order, maps are ordered
by key, and what is missing is null.
-/

namespace RoutineBridge

def TypeName.toJson (n : TypeName) : Json :=
  .obj [("owner", .str n.owner), ("package", .str n.package), ("name", .str n.name)]

def Scalar.Kind.display : Scalar.Kind → String
  | .text => "Text"
  | .integer => "Integer"
  | .number => "Number"
  | .float => "Float"
  | .dateTime => "DateTime"
  | .raw => "Raw"
  | .clob => "Clob"
  | .blob => "Blob"
  | .boolean => "Boolean"

def Scalar.toJson (s : Scalar) : Json :=
  .obj
    [("kind", .str s.kind.display), ("catalog_name", .str s.catalogName),
     ("precision", .nat s.precision), ("scale", .int s.scale), ("length", .nat s.length),
     ("charset", .str s.charset)]

/-- The name of a kind where it is a value of its own. -/
def Composite.Kind.toJson : Composite.Kind → Json
  | .record => .str "Record"
  | .collection => .str "Collection"
  | .cursor => .str "Cursor"

def Composite.Ref.toJson (r : Composite.Ref) : Json :=
  .obj [("kind", r.kind.toJson), ("key", r.name.toJson)]

def DataType.toJson : DataType → Json
  | .scalar s => .obj [("Scalar", s.toJson)]
  | .composite r => .obj [("Composite", r.toJson)]

def Attribute.toJson (a : Attribute) : Json :=
  .obj [("name", .str a.name), ("data_type", a.dataType.toJson)]

def Indexing.toJson : Indexing → Json
  | .dense => .str "Dense"
  | .associative => .str "Associative"

def Composite.toJson : Composite → Json
  | .record n attributes =>
    .obj [("Record",
      .obj [("key", n.toJson), ("attributes", .arr (attributes.map Attribute.toJson))])]
  | .collection n element indexing =>
    .obj [("Collection",
      .obj [("key", n.toJson), ("element", element.toJson), ("indexing", indexing.toJson)])]
  | .cursor n => .obj [("Cursor", .obj [("key", n.toJson)])]

def TypeTable.toJson (t : TypeTable) : Json := .arr (t.toList.map Composite.toJson)

def Direction.toJson : Direction → Json
  | .input => .str "In"
  | .output => .str "Out"
  | .both => .str "InOut"

def Argument.toJson (a : Argument) : Json :=
  .obj
    [("name", .str a.name), ("data_type", a.dataType.toJson), ("direction", a.direction.toJson),
     ("position", .nat a.position)]

/-- A map from strings, in order of keys. -/
def Json.ofMap {α : Type} (f : α → Json) (m : SortedMap String α) : Json :=
  .obj (m.entries.map fun e => (e.1, f e.2))

def DocBlock.toJson (d : DocBlock) : Json :=
  .obj
    [("raw", .str d.raw), ("common", .str d.common), ("input", .ofMap .str d.input),
     ("output", .ofMap .str d.output)]

/-- A routine body together with what stands in for it. -/
def Routine.Body.toJson (b : Routine.Body) (replacement : Json) : Json :=
  .obj
    [("owner", .str b.owner), ("package", .str b.package), ("name", .str b.name),
     ("alias", .ofOption .str b.exposedAs), ("arguments", .arr (b.arguments.map Argument.toJson)),
     ("returns", .ofOption Attribute.toJson b.returns), ("doc", b.doc.toJson),
     ("replacement", replacement), ("handlers", .strings b.handlers),
     ("max_table_size", .ofOption .nat b.maxTableSize)]

/-- A chain of stand-ins: each holds the one behind it. -/
def Routine.chainToJson : List Routine.StandIn → Json
  | [] => .null
  | s :: rest => .obj [("function", s.body.toJson (chainToJson rest)), ("json", .bool s.json)]

def Routine.toJson (r : Routine) : Json := r.toBody.toJson (Routine.chainToJson r.standIns)

def Element.toJson : Element → Json
  | .scalar wire s =>
    .obj [("Scalar", .obj [("wire", .str wire.display), ("scalar", s.toJson)])]
  | .message name n => .obj [("Message", .obj [("name", .str name), ("key", n.toJson)])]

def FieldShape.toJson (f : FieldShape) : Json :=
  .obj [("repeated", .bool f.repeated), ("element", f.element.toJson)]

def Source.toJson : Source → Json
  | .parameter name position direction =>
    .obj [("Parameter",
      .obj [("name", .str name), ("position", .nat position), ("direction", direction.toJson)])]
  | .result => .str "Return"
  | .attribute name => .obj [("Attribute", .obj [("name", .str name)])]
  | .items => .str "Items"

def Slot.toJson (s : Slot) : Json :=
  .obj
    [("field", .str s.field), ("ordinal", .nat s.ordinal), ("source", s.source.toJson),
     ("data_type", s.dataType.toJson), ("spec", s.shape.toJson), ("doc", .ofOption .str s.doc)]

def MessageTable.toJson (t : MessageTable) : Json :=
  .obj
    [("message", .str t.message), ("key", .ofOption TypeName.toJson t.type),
     ("slots", .arr (t.slots.map Slot.toJson))]

def CallLayout.toJson (c : CallLayout) : Json :=
  .obj
    [("function", .str c.routine), ("request", c.request.toJson), ("response", c.response.toJson),
     ("streaming", .bool c.streaming)]

def Layout.toJson (l : Layout) : Json :=
  .obj
    [("calls", .ofMap CallLayout.toJson l.calls),
     ("messages", .ofMap MessageTable.toJson l.messages)]

def Model.toJson (m : Model) : Json :=
  .obj
    [("functions", .arr (m.routines.map Routine.toJson)), ("types", m.types.toJson),
     ("layout", m.layout.toJson)]

end RoutineBridge
