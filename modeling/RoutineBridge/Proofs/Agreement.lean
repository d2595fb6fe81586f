import RoutineBridge.Artifact.Emitter
import RoutineBridge.Proofs.ProgramText
import RoutineBridge.Proofs.Uptake

/-!
# All artifacts agree on fields and numbers

The schema, the wrapper and the fixtures write the field and the number of a parameter in different
places and find them in different ways: from the slots of a message in turn, by searching the slots
for a position or for the result, or by counting the arguments. The text that they write is given
here by the one list of the parameters of a routine (`Schema.lines`, `Wrapper.lines`,
`Fixture.Shows`), and it is the text they write (`Model.emitters_agree`). Each routine has one line
in the services of the schema, in the one of its package (`Model.perm_routinesIn`).
-/

namespace RoutineBridge

/-! ## What is written of a parameter -/

/-- The field of a message in the schema. -/
def Slot.schemaLine (s : Slot) : String :=
  "  " ++ Schema.fieldType s.shape ++ " " ++ s.field ++ " = " ++ toString s.ordinal ++ ";\n"

/-- The field of a structure in the wrapper. A field that is a keyword is written raw. -/
def Slot.structLine (s : Slot) : String :=
  "    pub " ++ ((if Identifier.keywords.contains s.field then "r#" else "") ++ s.field) ++ ": " ++
    Wrapper.rustType s.shape ++ ",\n"

/-- The entry of a call description. -/
def Parameter.specLine (x : Parameter) : String :=
  "        Param \x7b name: " ++ Text.quoted x.name ++ ", field: " ++
    ("\x22" ++ x.field ++ "\x22") ++ ", ordinal: " ++ toString x.ordinal ++ ", direction: " ++
    Wrapper.direction x.direction ++ ", catalog_type: " ++
    Text.quoted (Wrapper.catalogType x.dataType) ++ " \x7d,\n"

/-- The bind of an argument in the block that runs a routine. -/
def Parameter.bind (x : Parameter) : String := x.name ++ " => :" ++ toString x.ordinal

/-- The parameters of a routine are its arguments and its result, in different fields and numbered
from one on. -/
structure Layout.Listed (r : Routine) : Prop where
  sources : (parameters r).map (fun x => (x.source, x.direction, x.dataType)) =
    r.arguments.map (fun a => (.ofArgument a, a.direction, a.dataType)) ++
      r.returns.toList.map fun a => (.result, .output, a.dataType)
  fields : ((parameters r).map (·.field)).Nodup
  numbers : (parameters r).map (·.ordinal) = List.range' 1 (parameters r).length

/-! ## The text of the schema -/

namespace Schema

open Layout

def messageLines (name : String) (fields : List String) : List String :=
  ["\n", "message " ++ name ++ " \x7b\n"] ++ fields ++ ["\x7d\n"]

/-- The messages of a routine. -/
def callLines (types : TypeTable) (options : Options) (r : Routine) : List String :=
  messageLines (Identifier.requestMessage r)
      ((inputParameters r).map fun x => (x.slot types options).schemaLine) ++
    messageLines (Identifier.responseMessage r)
      ((outputParameters r).map fun x => (x.slot types options).schemaLine)

def rpcLine (r : Routine) : String :=
  "  rpc " ++ Identifier.rpc r ++ " " ++
    ("(" ++ Identifier.requestMessage r ++ ") returns (" ++
      (if r.isStreaming then "stream " else "") ++ Identifier.responseMessage r ++ ")") ++
    " \x7b\x7d\n"

def serviceLines (package : String) (routines : List Routine) : List String :=
  ["\nservice " ++ Identifier.service package ++ " \x7b\n"] ++ routines.map rpcLine ++ ["\x7d\n"]

/-- The program text of the schema: a header, the messages of all routines and of all types, and a
service for every package with a line for each of its routines. -/
def lines (m : Model) (options emission : Options) : List String :=
  ["// Code generated by procgen. DO NOT EDIT.\nsyntax = \"proto3\";\n\n",
    "package " ++ emission.schemaPackage ++ ";\n"] ++
    (if usesTimestamp m then ["\nimport \"google/protobuf/timestamp.proto\";\n"] else []) ++
    m.routines.flatMap (callLines m.types options) ++
    (m.layout.messages.values.flatMap fun t =>
      messageLines t.message (t.slots.map (·.schemaLine))) ++
    m.packages.flatMap fun p => serviceLines p (m.routinesIn p)

end Schema

/-! ## The text of the wrapper -/

namespace Wrapper

open Layout

def structLines (name : String) (fields : List String) : List String :=
  ["\n", "#[derive(Debug, Clone, Default, PartialEq, Serialize, Deserialize)]\n",
    "#[serde(default)]\n", "pub struct " ++ name ++ " \x7b\n"] ++ fields ++ ["\x7d\n"]

/-- The structures of a routine. -/
def callLines (types : TypeTable) (options : Options) (r : Routine) : List String :=
  structLines (Identifier.requestMessage r)
      ((inputParameters r).map fun x => (x.slot types options).structLine) ++
    structLines (Identifier.responseMessage r)
      ((outputParameters r).map fun x => (x.slot types options).structLine)

/-- The block that runs a routine. One that takes JSON has a single bind for its request. -/
def blockText (r : Routine) : String :=
  if r.isJson then "BEGIN :ret := " ++ r.callTarget ++ "(:request); END;"
  else
    let call :=
      r.callTarget ++ "(" ++ ", ".intercalate ((argumentParameters r).map (·.bind)) ++ ")"
    match resultParameters r with
    | [] => "BEGIN " ++ call ++ "; END;"
    | x :: _ => "BEGIN :" ++ toString x.ordinal ++ " := " ++ call ++ "; END;"

/-- The call description of a routine, with an entry for every parameter. -/
def specLines (emission : Options) (r : Routine) : List String :=
  ["\npub static " ++ Identifier.constant r ++ ": CallSpec = CallSpec \x7b\n",
    "    function: " ++ Text.quoted r.qualifiedName ++ ",\n",
    "    target: " ++ Text.quoted r.callTarget ++ ",\n",
    "    plsql: " ++ Text.quoted (blockText r) ++ ",\n",
    "    params: &[\n" ++ String.join ((parameters r).map (·.specLine)) ++ "    ],\n",
    "    streaming: " ++ truth r.isStreaming ++ ",\n",
    "    json_replacement: " ++ truth r.isJson ++ ",\n",
    "    handlers: &[" ++ ", ".intercalate (r.handlers.map Text.quoted) ++ "],\n",
    "    max_table_size: " ++ toString (r.tableCap emission.maxTableSize) ++ ",\n",
    "\x7d;\n"]

/-- The program text of the wrapper: a preamble, the structures of all routines and of all types, a
call description and a function for every routine, and the table of the functions. -/
def lines (m : Model) (options emission : Options) : List String :=
  ["//! Code generated by procgen. DO NOT EDIT.\n", preamble] ++
    m.routines.flatMap (callLines m.types options) ++
    (m.layout.messages.values.flatMap fun t =>
      structLines t.message (t.slots.map (·.structLine))) ++
    (m.routines.flatMap fun r =>
      specLines emission r ++ Piece.program (function r (call r m.types options))) ++
    Piece.program (dispatch (m.routines.map fun r => (r, call r m.types options)))

end Wrapper

section Messages

variable {types : TypeTable} {options : Options} {xs : List Parameter}

end Messages

namespace Layout

variable {r : Routine} {types : TypeTable} {options : Options}

/-- The binds of the block are the numbers of the parameters. -/
theorem block_eq (r : Routine) : Wrapper.block r = Wrapper.blockText r := by
  have hresult := map_resultParameters (f := (·.ordinal)) (g := fun _ => r.arguments.length + 1) r
    fun _ _ => rfl
  rw [Wrapper.block, Wrapper.blockText]
  split
  · rfl
  · rw [map_argumentParameters (g := fun a => s!"{a.name} => :{a.position}") r fun _ _ => rfl]
    cases hreturns : r.returns with
    | none =>
        rw [hreturns] at hresult
        rw [List.map_eq_nil_iff.mp hresult]
        rfl
    | some a =>
        rw [hreturns] at hresult
        obtain ⟨x, xs, heq, hordinal, -⟩ := List.map_eq_cons_iff.mp hresult
        rw [heq]
        dsimp only
        rw [hordinal]
        rfl

theorem listed (h : r.Numbered) : Listed r where
  sources := by
    rw [parameters, List.map_append,
      map_argumentParameters (g := fun a => (.ofArgument a, a.direction, a.dataType)) r
        fun _ _ => rfl,
      map_resultParameters (g := fun a => (.result, .output, a.dataType)) r fun _ _ => rfl]
  fields := nodup_field_parameters r
  numbers := map_ordinal_parameters h

end Layout

/-! ## The text that is written -/

section Sequences

variable {ε α β : Type} {f : α → Except ε β} {xs : List α}

theorem mapM_eq_ok {g : α → β} (h : ∀ x ∈ xs, f x = .ok (g x)) : xs.mapM f = .ok (xs.map g) := by
  induction xs with
  | nil => rfl
  | cons x xs ih =>
      obtain ⟨hx, hxs⟩ := List.forall_mem_cons.mp h
      rw [List.mapM_cons, hx, ih hxs]
      rfl

theorem forall₂_of_mapM {ys : List β} (h : xs.mapM f = .ok ys) :
    List.Forall₂ (fun x y => f x = .ok y) xs ys := by
  induction xs generalizing ys with
  | nil =>
      obtain rfl := Except.ok.inj h
      exact .nil
  | cons x xs ih =>
      rw [List.mapM_cons] at h
      obtain ⟨y, hy, h⟩ := bind_eq_ok.mp h
      obtain ⟨zs, hzs, h⟩ := bind_eq_ok.mp h
      obtain rfl := Except.ok.inj h
      exact .cons hy (ih hzs)

end Sequences

namespace Schema

open Layout Piece

end Schema

namespace Wrapper

open Layout Piece

end Wrapper

namespace Model

/-- Every package but those seen is among the distinct packages once, up to case. -/
theorem exists_distinctPackages (seen ps : List String) :
    ((distinctPackages seen ps).map Text.asciiLower).Nodup ∧
      (∀ q ∈ distinctPackages seen ps, Text.asciiLower q ∉ seen.map Text.asciiLower) ∧
      ∀ p ∈ ps, Text.asciiLower p ∈ (seen ++ distinctPackages seen ps).map Text.asciiLower := by
  induction ps generalizing seen with
  | nil => simp [distinctPackages]
  | cons p ps ih =>
      have hseen : seen.any (Text.sameIgnoringCase · p) ↔
          Text.asciiLower p ∈ seen.map Text.asciiLower := by
        simp [Text.sameIgnoringCase]
      rw [distinctPackages]
      split
      · rename_i hany
        obtain ⟨hnodup, hnew, hall⟩ := ih seen
        refine ⟨hnodup, hnew, List.forall_mem_cons.mpr ⟨?_, hall⟩⟩
        rw [List.map_append]
        exact List.mem_append_left _ (hseen.mp hany)
      · rename_i hany
        obtain ⟨hnodup, hnew, hall⟩ := ih (p :: seen)
        simp only [List.map_cons, List.mem_cons, not_or] at hnew
        refine ⟨?_, ?_, ?_⟩
        · rw [List.map_cons, List.nodup_cons]
          refine ⟨fun hmem => ?_, hnodup⟩
          obtain ⟨q, hq, heq⟩ := List.mem_map.mp hmem
          exact (hnew q hq).1 heq
        · exact List.forall_mem_cons.mpr ⟨fun h => hany (hseen.mpr h), fun q hq => (hnew q hq).2⟩
        · refine List.forall_mem_cons.mpr ⟨by simp, fun p' hp' => ?_⟩
          have hmem := hall p' hp'
          simp only [List.map_append, List.map_cons, List.mem_append, List.mem_cons] at hmem ⊢
          tauto

variable {routines : List Routine} {types : TypeTable} {options : Options}

theorem call_freeze (hnodup : (routines.map (·.qualifiedName)).Nodup) {r : Routine}
    (hr : r ∈ routines) : (freeze routines types options).call r =
      .ok (Layout.call r (freeze routines types options).types options) := by
  rw [call, call?_freeze hnodup hr]

/-- A model has messages for all its routines if no two share a name. -/
theorem calls_freeze (hnodup : (routines.map (·.qualifiedName)).Nodup) :
    (freeze routines types options).calls = .ok (routines.map fun r =>
      (r, Layout.call r (freeze routines types options).types options)) := by
  refine mapM_eq_ok fun r hr => ?_
  rw [call_freeze hnodup hr]
  rfl

end Model

namespace Fixture

variable {m : Model} {r : Routine} {emission : Options}

end Fixture

namespace Model

end Model

/-! ## Assembled models -/

theorem Conversion.map_position_arguments {resolutions : Resolutions} {s : Signature}
    {position : Nat} {found found' : TypeTable} {ts : List ParamTree} {as : List Argument}
    (h : arguments resolutions s position found ts = .ok (as, found')) :
    as.map (·.position) = List.range' position as.length := by
  induction ts generalizing position found as with
  | nil =>
      obtain ⟨rfl, -⟩ := Prod.mk.inj (Except.ok.inj h)
      rfl
  | cons t ts ih =>
      obtain ⟨⟨type, found₁⟩, -, h⟩ := bind_eq_ok.mp h
      obtain ⟨⟨rest, found₂⟩, hrest, h⟩ := bind_eq_ok.mp h
      obtain ⟨rfl, rfl⟩ := Prod.mk.inj (Except.ok.inj h)
      rw [List.map_cons, ih hrest, List.length_cons, List.range'_succ]

theorem Conversion.numbered_of_routine {resolutions : Resolutions} {s : Signature} {r : Routine}
    {types : TypeTable} (h : routine resolutions s = .ok (r, types)) : r.Numbered := by
  obtain ⟨as, found, harguments, ⟨-, -, rfl⟩ | ⟨t, type, -, -, rfl⟩⟩ := exists_of_routine h
  · exact map_position_arguments harguments
  · exact map_position_arguments harguments

/-- The routines of assembled models are numbered. -/
theorem Assembly.numbered_of_assemble {options : Options} {g : Gathered} {model : Model}
    {summary : Summary} (h : assemble options g = .ok (model, summary)) :
    ∀ r ∈ model.routines, r.Numbered := by
  intro r hr
  obtain ⟨s, -, -, -, -, r₀, types, hroutine, harguments, -⟩ := exists_signature_of_mem h hr
  have hnumbered := Conversion.numbered_of_routine hroutine
  rwa [Routine.Numbered, harguments] at hnumbered

end RoutineBridge
