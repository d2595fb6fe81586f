import RoutineBridge.Artifact.Basic

/-!
# The Rust wrapper

Rust source with a structure for every message, a call description and a typed function for every
routine, and a table of the functions by name.
-/

namespace RoutineBridge.Wrapper

/-- The lines that all wrappers start with: the types that describe calls and sessions. -/
def preambleLines : List String :=
  ["#![allow(non_camel_case_types, non_snake_case, dead_code, clippy::all)]",
   "",
   "use serde::\x7bde::DeserializeOwned, Deserialize, Serialize\x7d;",
   "use std::collections::BTreeMap;",
   "",
   "#[derive(Debug, Clone, Copy, PartialEq, Eq)]",
   "pub enum Direction \x7b",
   "    In,",
   "    Out,",
   "    InOut,",
   "\x7d",
   "",
   "/// A bound parameter of a call.",
   "#[derive(Debug, Clone, Copy)]",
   "pub struct Param \x7b",
   "    /// Database parameter name.",
   "    pub name: &'static str,",
   "    /// Field in the request/response message.",
   "    pub field: &'static str,",
   "    /// Field number, shared with the IDL schema.",
   "    pub ordinal: u32,",
   "    pub direction: Direction,",
   "    pub catalog_type: &'static str,",
   "\x7d",
   "",
   "/// Everything needed to execute one function.",
   "#[derive(Debug, Clone, Copy)]",
   "pub struct CallSpec \x7b",
   "    /// Lower-cased `package.name`, as exposed.",
   "    pub function: &'static str,",
   "    /// Database object actually called.",
   "    pub target: &'static str,",
   "    pub plsql: &'static str,",
   "    pub params: &'static [Param],",
   "    pub streaming: bool,",
   "    pub json_replacement: bool,",
   "    pub handlers: &'static [&'static str],",
   "    pub max_table_size: u32,",
   "\x7d",
   "",
   "/// Executes calls against a database connection.",
   "pub trait Session \x7b",
   "    type Error;",
   "",
   "    fn call<Req, Resp>(&mut self, spec: &'static CallSpec, request: &Req) -> Result<Resp, Self::Error>",
   "    where",
   "        Req: Serialize,",
   "        Resp: DeserializeOwned;",
   "",
   "    fn call_stream<Req, Resp>(",
   "        &mut self,",
   "        spec: &'static CallSpec,",
   "        request: &Req,",
   "    ) -> Result<Vec<Resp>, Self::Error>",
   "    where",
   "        Req: Serialize,",
   "        Resp: DeserializeOwned;",
   "\x7d",
   "",
   "#[derive(Debug)]",
   "pub enum DispatchError<E> \x7b",
   "    Json(serde_json::Error),",
   "    Call(E),",
   "\x7d",
   "",
   "pub type Handler<S> =",
   "    fn(&mut S, serde_json::Value) -> Result<serde_json::Value, DispatchError<<S as Session>::Error>>;"]

def preamble : String := String.join (preambleLines.map (· ++ "\n"))

/-! ## Structures -/

def rustType (shape : FieldShape) : String :=
  let element := match shape.element with
    | .scalar .string _ => "String"
    | .scalar .int32 _ => "i32"
    | .scalar .int64 _ => "i64"
    | .scalar .double _ => "f64"
    | .scalar .bool _ => "bool"
    | .scalar .bytes _ => "Vec<u8>"
    | .scalar .timestamp _ => "chrono::NaiveDateTime"
    | .message name _ => name
  if shape.repeated then s!"Vec<{element}>" else s!"Option<{element}>"

def field (s : Slot) : List Piece :=
  let name := Identifier.rust s.field
  let type := rustType s.shape
  (s.doc.toList.map fun doc => .doc "    /// " doc) ++ [.text s!"    pub {name}: {type},\n"]

def messageStruct (t : MessageTable) (doc : String) : List Piece :=
  [.text "\n", .doc "/// " doc,
   .text "#[derive(Debug, Clone, Default, PartialEq, Serialize, Deserialize)]\n",
   .text "#[serde(default)]\n", .text ("pub struct " ++ t.message ++ " \x7b\n")] ++
    t.slots.flatMap field ++ [.text "\x7d\n"]

/-! ## Call descriptions -/

/-- The anonymous block that runs a routine, with one bind for every argument and the result. -/
def block (r : Routine) : String :=
  let target := r.callTarget
  if r.isJson then s!"BEGIN :ret := {target}(:request); END;"
  else
    let binds := ", ".intercalate (r.arguments.map fun a => s!"{a.name} => :{a.position}")
    let call := s!"{target}({binds})"
    match r.returns with
    | some _ =>
      let number := r.arguments.length + 1
      s!"BEGIN :{number} := {call}; END;"
    | none => s!"BEGIN {call}; END;"

/-- A type as the call description names it. -/
def catalogType : DataType → String
  | .scalar s => s.describe
  | .composite r => r.name.display

def direction : Direction → String
  | .input => "Direction::In"
  | .output => "Direction::Out"
  | .both => "Direction::InOut"

/-- The field of the argument at a position; an argument that goes both ways has one field. -/
def argumentField (c : CallLayout) (position : Nat) : String :=
  let isSlot (s : Slot) := match s.source with
    | .parameter _ p _ => p == position
    | _ => false
  (((c.request.slots ++ c.response.slots).find? isSlot).map (·.field)).getD ""

def resultField (c : CallLayout) : String :=
  ((c.response.slots.find? (·.source == .result)).map (·.field)).getD ""

/-- A bound parameter. -/
def param (name field : String) (ordinal : Nat) (way : Direction) (type : DataType) : String :=
  "        Param \x7b name: " ++ Text.quoted name ++ ", field: " ++ Text.quoted field ++
    ", ordinal: " ++ toString ordinal ++ ", direction: " ++ direction way ++
    ", catalog_type: " ++ Text.quoted (catalogType type) ++ " \x7d,\n"

def params (r : Routine) (c : CallLayout) : String :=
  String.join (r.arguments.map fun a =>
    param a.name (argumentField c a.position) a.position a.direction a.dataType) ++
  String.join (r.returns.toList.map fun a =>
    param "" (resultField c) (r.arguments.length + 1) .output a.dataType)

/-- A truth value in Rust. -/
def truth (b : Bool) : String := if b then "true" else "false"

def callSpec (r : Routine) (c : CallLayout) (options : Options) : List Piece :=
  [.text ("\npub static " ++ Identifier.constant r ++ ": CallSpec = CallSpec \x7b\n"),
   .text ("    function: " ++ Text.quoted c.routine ++ ",\n"),
   .text ("    target: " ++ Text.quoted r.callTarget ++ ",\n"),
   .text ("    plsql: " ++ Text.quoted (block r) ++ ",\n"),
   .text ("    params: &[\n" ++ params r c ++ "    ],\n"),
   .text ("    streaming: " ++ truth c.streaming ++ ",\n"),
   .text ("    json_replacement: " ++ truth r.isJson ++ ",\n"),
   .text ("    handlers: &[" ++ ", ".intercalate (r.handlers.map Text.quoted) ++ "],\n"),
   .text ("    max_table_size: " ++ toString (r.tableCap options.maxTableSize) ++ ",\n"),
   .text "\x7d;\n"]

/-! ## Functions -/

def function (r : Routine) (c : CallLayout) : List Piece :=
  let response := c.response.message
  let result := if c.streaming then s!"Vec<{response}>" else response
  let method := if c.streaming then "call_stream" else "call"
  let head := "pub fn " ++ Identifier.call r ++ "<S: Session>(session: &mut S, request: &" ++
    c.request.message ++ ") -> Result<" ++ result ++ ", S::Error> \x7b\n"
  [.text "\n", .doc "/// " r.doc.common, .text head,
   .text ("    session." ++ method ++ "(&" ++ Identifier.constant r ++ ", request)\n"),
   .text "\x7d\n"]

def dispatchEntry (r : Routine) (c : CallLayout) : List Piece :=
  [.text ("    table.insert(" ++ Text.quoted c.routine ++ ", |session, input| \x7b\n"),
   .text ("        let request: " ++ c.request.message ++
     " = serde_json::from_value(input).map_err(DispatchError::Json)?;\n"),
   .text ("        let response = " ++ Identifier.call r ++
     "(session, &request).map_err(DispatchError::Call)?;\n"),
   .text "        serde_json::to_value(response).map_err(DispatchError::Json)\n",
   .text "    \x7d);\n"]

def dispatch (calls : List (Routine × CallLayout)) : List Piece :=
  [.text "\n/// Wrappers by lower-cased `package.name`, over JSON messages.\n",
   .text "pub fn handlers<S: Session>() -> BTreeMap<&'static str, Handler<S>> \x7b\n",
   .text "    let mut table: BTreeMap<&'static str, Handler<S>> = BTreeMap::new();\n"] ++
    calls.flatMap (fun (r, c) => dispatchEntry r c) ++ [.text "    table\n\x7d\n"]

/-! ## The whole source -/

def callStructures (r : Routine) (c : CallLayout) : List Piece :=
  messageStruct c.request r.doc.common ++ messageStruct c.response r.doc.common

def pieces (m : Model) (options : Options) (calls : List (Routine × CallLayout)) : List Piece :=
  [.text "//! Code generated by procgen. DO NOT EDIT.\n", .text preamble] ++
    calls.flatMap (fun (r, c) => callStructures r c) ++
    m.layout.messages.values.flatMap (messageStruct · "") ++
    calls.flatMap (fun (r, c) => callSpec r c options ++ function r c) ++ dispatch calls

def render (m : Model) (options : Options) : Except EmitError String :=
  m.calls.map fun calls => Piece.renderAll (pieces m options calls)

def artifacts (m : Model) (options : Options) : Except EmitError (List Artifact) :=
  (render m options).map fun text => [⟨options.schemaPackage ++ ".rs", text⟩]

end RoutineBridge.Wrapper
