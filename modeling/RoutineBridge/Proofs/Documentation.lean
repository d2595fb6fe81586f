import Mathlib.Data.List.DropRight
import RoutineBridge.Artifact.Emitter
import RoutineBridge.Proofs.Parameters

/-!
# Documentation

What is written about a routine or a parameter reaches the schema and the wrapper in comment lines
and the fixtures not at all. Two lists of parts are written alike if they differ in documentation
only (`Piece.Alike`), and then their texts have the same lines apart from comments
(`Piece.Alike.codeLines_eq`): a part of program text ends its line, so whatever the documentation
holds, it starts on a line of its own, and every line it is cut into gets a mark in front. Main
statement: models that differ in documentation only have artifacts that differ in comments only
(`Model.documentation_inert`).
-/

namespace RoutineBridge

/-! ## Without documentation -/

def Routine.Body.undocumented (b : Routine.Body) : Routine.Body := { b with doc := .empty }

/-- The routine without its documentation and that of its stand-ins. -/
def Routine.undocumented (r : Routine) : Routine where
  toBody := r.toBody.undocumented
  standIns := r.standIns.map fun s => { s with body := s.body.undocumented }

def MessageTable.undocumented (t : MessageTable) : MessageTable :=
  { t with slots := t.slots.map Slot.bare }

def CallLayout.undocumented (c : CallLayout) : CallLayout :=
  { c with request := c.request.undocumented, response := c.response.undocumented }

/-- Routines and their messages without documentation. -/
def undocumentedCalls (calls : List (Routine × CallLayout)) : List (Routine × CallLayout) :=
  calls.map fun (r, c) => (r.undocumented, c.undocumented)

/-- The model without documentation of routines and of fields. -/
def Model.undocumented (m : Model) : Model where
  routines := m.routines.map Routine.undocumented
  types := m.types
  layout :=
    { calls := m.layout.calls.mapValues CallLayout.undocumented
      messages := m.layout.messages.mapValues MessageTable.undocumented }

@[simp]
theorem Routine.callTarget_undocumented (r : Routine) :
    r.undocumented.callTarget = r.callTarget := by
  rw [callTarget, undocumented, List.getLast?_map, callTarget]
  cases r.standIns.getLast? <;> rfl

@[simp]
theorem Routine.isJson_undocumented (r : Routine) : r.undocumented.isJson = r.isJson := by
  rw [isJson, undocumented, isJson]
  cases r.standIns <;> rfl

theorem Routine.undocumented_undocumented (r : Routine) :
    r.undocumented.undocumented = r.undocumented := by
  rw [undocumented, undocumented, List.map_map]
  rfl

/-- The documentation of a routine is in its messages the documentation of their fields. -/
theorem Routine.undocumented_call (r : Routine) (types : TypeTable) (options : Options) :
    (Layout.call r.undocumented types options).undocumented =
      (Layout.call r types options).undocumented := by
  simp only [CallLayout.undocumented, MessageTable.undocumented, Layout.call, List.map_append,
    List.map_map]
  rfl

section Sequences

variable {ε α β γ : Type} {f : α → Except ε β} {g : α → Except ε γ} {h : β → γ}

theorem mapM_map_eq (hg : ∀ a, g a = (f a).map h) (xs : List α) :
    xs.mapM g = (xs.mapM f).map (List.map h) := by
  induction xs with
  | nil => rfl
  | cons a xs ih =>
      rw [List.mapM_cons, List.mapM_cons, hg, ih]
      cases f a with
      | error e => rfl
      | ok b => cases xs.mapM f <;> rfl

end Sequences

namespace Model

variable (m : Model) (r : Routine)

theorem call_undocumented :
    m.undocumented.call r.undocumented = (m.call r).map CallLayout.undocumented := by
  have hlayout : m.undocumented.layout.call? r.undocumented =
      (m.layout.call? r).map CallLayout.undocumented :=
    SortedMap.get?_mapValues CallLayout.undocumented m.layout.calls r.qualifiedName
  rw [call, call, hlayout]
  cases m.layout.call? r <;> rfl

theorem calls_undocumented : m.undocumented.calls = m.calls.map undocumentedCalls := by
  rw [calls, undocumented, List.mapM_map]
  refine mapM_map_eq (fun r => ?_) m.routines
  rw [Function.comp_apply, ← undocumented, call_undocumented]
  cases m.call r <;> rfl

theorem packages_undocumented : m.undocumented.packages = m.packages := by
  rw [packages, undocumented, List.map_map]
  rfl

theorem values_messages_undocumented : m.undocumented.layout.messages.values =
    m.layout.messages.values.map MessageTable.undocumented :=
  SortedMap.values_mapValues MessageTable.undocumented m.layout.messages

end Model

/-! ## Fixtures -/

namespace Fixture

/-- The sampler that finds messages without documentation. -/
def Sampler.undocumented (p : Sampler) : Sampler :=
  { p with messages := p.messages.mapValues MessageTable.undocumented }

section Samples

variable (p : Sampler) (inner : MessageSampling) (depth : Nat)

theorem elementSample_bare (s : Slot) (seed : Nat) :
    elementSample p.undocumented inner depth s.bare seed =
      elementSample p (fun depth t => inner depth t.undocumented) depth s seed := by
  rw [elementSample, elementSample, Slot.bare]
  cases s.shape.element with
  | scalar wire type => rfl
  | message name type =>
      dsimp only
      rw [Sampler.undocumented, SortedMap.get?_mapValues]
      cases p.messages.get? name <;> rfl

theorem fieldSample_bare (s : Slot) :
    fieldSample p.undocumented inner depth s.bare =
      fieldSample p (fun depth t => inner depth t.undocumented) depth s := by
  rw [fieldSample, fieldSample]
  simp only [elementSample_bare]
  rfl

/-- To sample the fields of a message without documentation is to sample its fields, and to forget
the documentation of every message inside. -/
theorem fieldSamples_undocumented (t : MessageTable) :
    fieldSamples p.undocumented inner depth t.undocumented =
      fieldSamples p (fun depth t => inner depth t.undocumented) depth t := by
  rw [fieldSamples, fieldSamples, MessageTable.undocumented, List.mapM_map]
  simp only [Function.comp_def, fieldSample_bare]
  rfl

end Samples

/-- **Samples do not depend on documentation**, whether they end or not. -/
theorem messageSample_undocumented (p : Sampler) (depth : Nat) (t : MessageTable) :
    messageSample p.undocumented depth t.undocumented = messageSample p depth t := by
  have hforget : ∀ depth t result, messageSample p depth t = some result →
      messageSample p.undocumented depth t.undocumented = some result := by
    refine messageSample.partial_correctness p _ fun sample ih depth t result h => ?_
    rw [messageSample, fieldSamples_undocumented]
    exact fieldSamples_ends ih result h
  have hrecall : ∀ depth t' result, messageSample p.undocumented depth t' = some result →
      ∀ t : MessageTable, t.undocumented = t' → messageSample p depth t = some result := by
    refine messageSample.partial_correctness p.undocumented _ ?_
    rintro sample ih depth _ result h t rfl
    rw [fieldSamples_undocumented] at h
    rw [messageSample]
    exact fieldSamples_ends (fun depth t result h => ih depth _ result h t rfl) result h
  exact Option.ext fun result =>
    ⟨fun h => hrecall depth _ result h t rfl, fun h => hforget depth t result h⟩

theorem ordinals_undocumented (t : MessageTable) : ordinals t.undocumented = ordinals t := by
  rw [ordinals, MessageTable.undocumented, List.map_map]
  rfl

variable (m : Model) (options : Options) (r : Routine)

theorem document_undocumented :
    document m.undocumented options r.undocumented = document m options r := by
  rw [document, document, Model.call_undocumented]
  cases m.call r with
  | error e => rfl
  | ok c =>
      have hrequest : request m.undocumented options r.undocumented c.undocumented =
          request m options r c :=
        congrArg (·.getD (.ok .null)) (messageSample_undocumented (sampler m options r c) 0 c.request)
      simp only [Except.map, bind, Except.bind, hrequest, Routine.callTarget_undocumented,
        Routine.isJson_undocumented]
      simp only [CallLayout.undocumented, ordinals_undocumented]
      rfl

/-- **Fixtures say nothing about documentation.** -/
theorem artifacts_undocumented : artifacts m.undocumented options = artifacts m options := by
  rw [artifacts, artifacts, Model.undocumented, List.mapM_map, ← Model.undocumented]
  congr 1
  funext r
  rw [Function.comp_apply, document_undocumented]
  rfl

end Fixture

/-! ## Source text -/

/-- The first characters of the line that are not blank are two slashes. -/
def isCommentLine (line : List Char) : Bool := ['/', '/'].isPrefixOf (Text.trimStart line)

/-- The lines of a text that are no comments. -/
def codeLines (text : List Char) : List (List Char) :=
  (Text.pieces text).filter (!isCommentLine ·)

/-- The artifact without its comment lines. -/
def Artifact.uncommented (a : Artifact) : Artifact :=
  { a with contents := String.ofList (Text.join ['\n'] (codeLines a.contents.toList)) }

theorem codeLines_append_cons (before after : List Char) :
    codeLines (before ++ '\n' :: after) = codeLines before ++ codeLines after := by
  rw [codeLines, Text.pieces_append_cons, List.filter_append]
  rfl

theorem isCommentLine_append {line : List Char} (h : isCommentLine line) (rest : List Char) :
    isCommentLine (line ++ rest) := by
  rw [isCommentLine, List.isPrefixOf_iff_prefix, Text.trimStart] at h ⊢
  rw [List.dropWhile_append, if_neg]
  · exact h.trans (List.prefix_append _ _)
  · intro hempty
    rw [List.isEmpty_iff.mp hempty] at h
    exact absurd (List.prefix_nil.mp h) (List.cons_ne_nil _ _)

/-- The text ends with the end of a line. -/
def EndsLine (s : String) : Prop := s.toList.getLast? = some '\n'

theorem EndsLine.ofList {cs : List Char} (h : cs.getLast? = some '\n') :
    EndsLine (String.ofList cs) := by
  rw [EndsLine, String.toList_ofList, h]

theorem EndsLine.append {s : String} (h : EndsLine s) (before : String) :
    EndsLine (before ++ s) := by
  rw [EndsLine, String.toList_append, List.getLast?_append, show s.toList.getLast? = _ from h]
  rfl

namespace Piece

/-- What stands in front of a comment makes it one, even without the blanks behind. -/
def IsMark (mark : List Char) : Prop := isCommentLine (Text.trimEnd mark) ∧ '\n' ∉ mark

instance (mark : List Char) : Decidable (IsMark mark) :=
  inferInstanceAs (Decidable (isCommentLine (Text.trimEnd mark) ∧ '\n' ∉ mark))

theorem trimEnd_isPrefix (cs : List Char) : Text.trimEnd cs <+: cs :=
  List.rdropWhile_prefix Text.isBlank cs

/-- A line of documentation is one comment line. -/
theorem isCommentLine_commentLine {mark line : List Char} (hmark : IsMark mark)
    (hline : '\n' ∉ line) :
    isCommentLine (commentLine mark line) ∧ '\n' ∉ commentLine mark line := by
  obtain ⟨hcomment, hmark⟩ := hmark
  obtain ⟨blanks, hblanks⟩ := trimEnd_isPrefix mark
  rw [commentLine]
  split
  · exact ⟨hcomment, fun h => hmark ((trimEnd_isPrefix mark).subset h)⟩
  · refine ⟨?_, fun h => (List.mem_append.mp h).elim hmark hline⟩
    rw [← hblanks, List.append_assoc]
    exact isCommentLine_append hcomment _

theorem codeLines_commentLine {mark line : List Char} (hmark : IsMark mark) (hline : '\n' ∉ line) :
    codeLines (commentLine mark line) = [] := by
  obtain ⟨hcomment, hsingle⟩ := isCommentLine_commentLine hmark hline
  rw [codeLines, Text.pieces_eq_singleton hsingle, List.filter_cons_of_neg (by simp [hcomment])]
  rfl

theorem notMem_of_mem_docLines {text line : List Char} (h : line ∈ docLines text) :
    '\n' ∉ line := by
  obtain ⟨whole, hwhole, rfl⟩ := List.mem_map.mp h
  exact fun hmem => Text.notMem_of_mem_lines hwhole ((trimEnd_isPrefix whole).subset hmem)

/-- **Documentation adds no line of code**, whatever it says. -/
theorem codeLines_commentLines {mark : List Char} (hmark : IsMark mark) (text rest : List Char) :
    codeLines (commentLines mark text ++ rest) = codeLines rest := by
  rw [commentLines]
  split
  · rfl
  · have hlines : ∀ line ∈ docLines text, '\n' ∉ line := fun line => notMem_of_mem_docLines
    generalize docLines text = lines at hlines ⊢
    induction lines with
    | nil => rfl
    | cons line lines ih =>
        rw [List.forall_mem_cons] at hlines
        rw [List.flatMap_cons, List.append_assoc, List.append_assoc, List.singleton_append,
          codeLines_append_cons, codeLines_commentLine hmark hlines.1, List.nil_append,
          ih hlines.2]

/-- The parts have the same program text in whole lines, whatever documentation stands between. -/
inductive Alike : List Piece → List Piece → Prop
  | nil : Alike [] []
  | text {s : String} {ps qs : List Piece} (ends : EndsLine s) (rest : Alike ps qs) :
      Alike (.text s :: ps) (.text s :: qs)
  | left {mark s : String} {ps qs : List Piece} (isMark : IsMark mark.toList) (rest : Alike ps qs) :
      Alike (.doc mark s :: ps) qs
  | right {mark s : String} {ps qs : List Piece} (isMark : IsMark mark.toList)
      (rest : Alike ps qs) : Alike ps (.doc mark s :: qs)

/-- The part ends the line it is on: program text by its last character, documentation because
every line of it does. -/
def Whole : Piece → Prop
  | text s => EndsLine s
  | doc mark _ => IsMark mark.toList

namespace Alike

variable {ps qs ps' qs' : List Piece} {mark s d d' : String}

theorem doc (hmark : IsMark mark.toList) (h : Alike ps qs) :
    Alike (.doc mark d :: ps) (.doc mark d' :: qs) := .left hmark (.right hmark h)

theorem append (h : Alike ps qs) (h' : Alike ps' qs') : Alike (ps ++ ps') (qs ++ qs') := by
  induction h with
  | nil => exact h'
  | text ends _ ih => exact .text ends ih
  | left isMark _ ih => exact .left isMark ih
  | right isMark _ ih => exact .right isMark ih

section Sequences

variable {α β : Type} {f g : α → List Piece}

theorem flatMap (h : ∀ a, Alike (g a) (f a)) (xs : List α) :
    Alike (xs.flatMap g) (xs.flatMap f) := by
  induction xs with
  | nil => exact .nil
  | cons a xs ih => exact (h a).append ih

theorem flatMap_map {g : β → List Piece} {k : α → β} (h : ∀ a, Alike (g (k a)) (f a))
    (xs : List α) : Alike ((xs.map k).flatMap g) (xs.flatMap f) := by
  rw [List.flatMap_map]
  exact .flatMap h xs

end Sequences

/-- Program text alone is like itself. -/
theorem of_text (h : ∀ p ∈ ps, ∃ s, p = .text s ∧ EndsLine s) : Alike ps ps := by
  induction ps with
  | nil => exact .nil
  | cons p ps ih =>
      obtain ⟨⟨s, rfl, hends⟩, hps⟩ := List.forall_mem_cons.mp h
      exact .text hends (ih hps)

theorem whole (h : Alike ps qs) : ∀ q ∈ qs, q.Whole := by
  induction h with
  | nil => simp
  | text ends _ ih => exact List.forall_mem_cons.mpr ⟨ends, ih⟩
  | left _ _ ih => exact ih
  | right isMark _ ih => exact List.forall_mem_cons.mpr ⟨isMark, ih⟩

/-- **Parts that are alike have the same code.** -/
theorem codeLines_eq (h : Alike ps qs) :
    codeLines (ps.flatMap render) = codeLines (qs.flatMap render) := by
  induction h with
  | nil => rfl
  | text ends _ ih =>
      obtain ⟨line, hline⟩ := List.getLast?_eq_some_iff.mp ends
      simp only [List.flatMap_cons, render, hline, List.append_assoc, List.singleton_append,
        codeLines_append_cons, ih]
  | left isMark _ ih => rw [List.flatMap_cons, render, codeLines_commentLines isMark, ih]
  | right isMark _ ih => rw [List.flatMap_cons, render, codeLines_commentLines isMark, ih]

theorem uncommented_eq (h : Alike ps qs) (path : String) :
    Artifact.uncommented ⟨path, renderAll ps⟩ = Artifact.uncommented ⟨path, renderAll qs⟩ := by
  simp only [Artifact.uncommented, renderAll, String.toList_ofList, h.codeLines_eq]

end Alike

end Piece

open Piece

/-! ## The schema -/

namespace Schema

theorem alike_field (s : Slot) : Alike (field s.bare) (field s) :=
  .doc (by decide) (.text (.append (.ofList rfl) _) .nil)

theorem alike_message (t : MessageTable) (doc doc' : String) :
    Alike (message t.undocumented doc) (message t doc') := by
  have hhead : Alike [.text "\n", .doc "// " doc, .text ("message " ++ t.message ++ " \x7b\n")]
      [.text "\n", .doc "// " doc', .text ("message " ++ t.message ++ " \x7b\n")] :=
    .text (.ofList rfl) (.doc (by decide) (.text (.append (.ofList rfl) _) .nil))
  exact (hhead.append (.flatMap_map alike_field t.slots)).append (.text (.ofList rfl) .nil)

theorem alike_callMessages (r : Routine) (c : CallLayout) :
    Alike (callMessages r.undocumented c.undocumented) (callMessages r c) :=
  (alike_message c.request _ _).append (alike_message c.response _ _)

theorem alike_rpc (r : Routine) (c : CallLayout) :
    Alike (rpc r.undocumented c.undocumented) (rpc r c) :=
  .doc (by decide) (.text (.append (.ofList rfl) _) .nil)

theorem alike_service (package : String) (calls : List (Routine × CallLayout)) :
    Alike (service package (undocumentedCalls calls)) (service package calls) := by
  have hhead : Alike [.text ("\nservice " ++ Identifier.service package ++ " \x7b\n")]
      [.text ("\nservice " ++ Identifier.service package ++ " \x7b\n")] :=
    .text (.append (.ofList rfl) _) .nil
  refine (hhead.append ?_).append (.text (.ofList rfl) .nil)
  exact .flatMap_map (fun (r, c) => alike_rpc r c) calls

theorem callsIn_undocumented (calls : List (Routine × CallLayout)) (package : String) :
    callsIn (undocumentedCalls calls) package = undocumentedCalls (callsIn calls package) := by
  rw [callsIn, undocumentedCalls, List.filter_map]
  rfl

theorem usesTimestamp_undocumented (m : Model) :
    usesTimestamp m.undocumented = usesTimestamp m := by
  simp only [usesTimestamp, Model.undocumented, SortedMap.values_mapValues, List.any_append,
    List.any_flatMap, List.any_map, Function.comp_def]
  simp only [CallLayout.undocumented, MessageTable.undocumented, List.any_map, List.any_cons,
    List.any_nil, Function.comp_def]
  rfl

variable (m : Model) (options : Options)

theorem alike_header : Alike (header m.undocumented options) (header m options) := by
  rw [header, header, usesTimestamp_undocumented]
  refine .text (.ofList rfl) (.text (.append (.ofList rfl) _) ?_)
  split
  · exact .text (.ofList rfl) .nil
  · exact .nil

theorem alike_pieces (calls : List (Routine × CallLayout)) :
    Alike (pieces m.undocumented options (undocumentedCalls calls)) (pieces m options calls) := by
  rw [pieces, pieces, Model.packages_undocumented, Model.values_messages_undocumented]
  refine .append (.append (.append (alike_header m options) ?_) ?_) ?_
  · exact .flatMap_map (fun (r, c) => alike_callMessages r c) calls
  · refine .flatMap_map (fun t => ?_) m.layout.messages.values
    exact alike_message t "" ""
  · simp only [callsIn_undocumented]
    exact .flatMap (fun p => alike_service p (callsIn calls p)) m.packages

theorem artifacts_undocumented :
    (artifacts m.undocumented options).map (List.map Artifact.uncommented) =
      (artifacts m options).map (List.map Artifact.uncommented) := by
  rw [artifacts, artifacts, render, render, Model.calls_undocumented]
  cases m.calls with
  | error e => simp only [Except.map]
  | ok calls =>
      simp only [Except.map, List.map_cons, List.map_nil,
        (alike_pieces m options calls).uncommented_eq]

end Schema

/-! ## The wrapper -/

namespace Wrapper

theorem alike_field (s : Slot) : Alike (field s.bare) (field s) := by
  have hdoc : Alike [] (s.doc.toList.map fun doc => .doc "    /// " doc) := by
    cases s.doc with
    | none => exact .nil
    | some doc => exact .right (by decide) .nil
  exact hdoc.append (.text (.append (.ofList rfl) _) .nil)

theorem alike_messageStruct (t : MessageTable) (doc doc' : String) :
    Alike (messageStruct t.undocumented doc) (messageStruct t doc') := by
  have hhead : Alike
      [.text "\n", .doc "/// " doc,
        .text "#[derive(Debug, Clone, Default, PartialEq, Serialize, Deserialize)]\n",
        .text "#[serde(default)]\n", .text ("pub struct " ++ t.message ++ " \x7b\n")]
      [.text "\n", .doc "/// " doc',
        .text "#[derive(Debug, Clone, Default, PartialEq, Serialize, Deserialize)]\n",
        .text "#[serde(default)]\n", .text ("pub struct " ++ t.message ++ " \x7b\n")] :=
    .text (.ofList rfl) (.doc (by decide) (.text (.ofList rfl) (.text (.ofList rfl)
      (.text (.append (.ofList rfl) _) .nil))))
  exact (hhead.append (.flatMap_map alike_field t.slots)).append (.text (.ofList rfl) .nil)

theorem alike_callStructures (r : Routine) (c : CallLayout) :
    Alike (callStructures r.undocumented c.undocumented) (callStructures r c) :=
  (alike_messageStruct c.request _ _).append (alike_messageStruct c.response _ _)

theorem block_undocumented (r : Routine) : block r.undocumented = block r := by
  rw [block, block, Routine.callTarget_undocumented, Routine.isJson_undocumented]
  rfl

theorem argumentField_undocumented (c : CallLayout) (position : Nat) :
    argumentField c.undocumented position = argumentField c position := by
  have hslots : c.undocumented.request.slots ++ c.undocumented.response.slots =
      (c.request.slots ++ c.response.slots).map Slot.bare := List.map_append.symm
  rw [argumentField, hslots, map_field_find?_bare fun s => rfl]
  rfl

theorem resultField_undocumented (c : CallLayout) : resultField c.undocumented = resultField c := by
  have hslots : c.undocumented.response.slots = c.response.slots.map Slot.bare := rfl
  rw [resultField, hslots, map_field_find?_bare fun s => rfl]
  rfl

theorem params_undocumented (r : Routine) (c : CallLayout) :
    params r.undocumented c.undocumented = params r c := by
  simp only [params, argumentField_undocumented, resultField_undocumented]
  rfl

/-- A call description has no documentation at all. -/
theorem callSpec_undocumented (r : Routine) (c : CallLayout) (options : Options) :
    callSpec r.undocumented c.undocumented options = callSpec r c options := by
  simp only [callSpec, params_undocumented, block_undocumented, Routine.callTarget_undocumented,
    Routine.isJson_undocumented]
  rfl

theorem alike_callSpec (r : Routine) (c : CallLayout) (options : Options) :
    Alike (callSpec r.undocumented c.undocumented options) (callSpec r c options) := by
  rw [callSpec_undocumented]
  refine .of_text ?_
  simp only [callSpec, List.forall_mem_cons, Piece.text.injEq, exists_eq_left']
  refine ⟨?_, ?_, ?_, ?_, ?_, ?_, ?_, ?_, ?_, .ofList rfl, by simp⟩ <;>
    exact .append (.ofList rfl) _

theorem alike_function (r : Routine) (c : CallLayout) :
    Alike (function r.undocumented c.undocumented) (function r c) :=
  .text (.ofList rfl) (.doc (by decide) (.text (.append (.ofList rfl) _)
    (.text (.append (.ofList rfl) _) (.text (.ofList rfl) .nil))))

theorem alike_dispatchEntry (r : Routine) (c : CallLayout) :
    Alike (dispatchEntry r.undocumented c.undocumented) (dispatchEntry r c) :=
  .text (.append (.ofList rfl) _) (.text (.append (.ofList rfl) _)
    (.text (.append (.ofList rfl) _) (.text (.ofList rfl) (.text (.ofList rfl) .nil))))

theorem alike_dispatch (calls : List (Routine × CallLayout)) :
    Alike (dispatch (undocumentedCalls calls)) (dispatch calls) := by
  refine .append (.append ?_ (.flatMap_map (fun (r, c) => alike_dispatchEntry r c) calls)) ?_
  · exact .text (.ofList rfl) (.text (.ofList rfl) (.text (.ofList rfl) .nil))
  · exact .text (.ofList rfl) .nil

theorem endsLine_preamble : EndsLine preamble := by
  have hsplit : preambleLines = preambleLines.dropLast ++ [preambleLines.getLast (by decide)] :=
    (List.dropLast_append_getLast _).symm
  rw [preamble, hsplit, List.map_append, String.join_append]
  exact .append (.append (.ofList rfl) _) _

theorem alike_pieces (m : Model) (options : Options) (calls : List (Routine × CallLayout)) :
    Alike (pieces m.undocumented options (undocumentedCalls calls)) (pieces m options calls) := by
  rw [pieces, pieces, Model.values_messages_undocumented]
  refine .append (.append (.append (.append ?_ ?_) ?_) ?_) (alike_dispatch calls)
  · exact .text (.ofList rfl) (.text endsLine_preamble .nil)
  · exact .flatMap_map (fun (r, c) => alike_callStructures r c) calls
  · refine .flatMap_map (fun t => ?_) m.layout.messages.values
    exact alike_messageStruct t "" ""
  · exact .flatMap_map (fun (r, c) => (alike_callSpec r c options).append (alike_function r c)) calls

theorem artifacts_undocumented (m : Model) (options : Options) :
    (artifacts m.undocumented options).map (List.map Artifact.uncommented) =
      (artifacts m options).map (List.map Artifact.uncommented) := by
  rw [artifacts, artifacts, render, render, Model.calls_undocumented]
  cases m.calls with
  | error e => simp only [Except.map]
  | ok calls =>
      simp only [Except.map, List.map_cons, List.map_nil,
        (alike_pieces m options calls).uncommented_eq]

end Wrapper

/-! ## All artifacts -/

namespace Model

/-- The artifacts of the models are the same but for comments, of which fixtures have none. -/
structure SameCode (m n : Model) (options : Options) : Prop where
  fixtures : Fixture.artifacts m options = Fixture.artifacts n options
  schema : (Schema.artifacts m options).map (List.map Artifact.uncommented) =
    (Schema.artifacts n options).map (List.map Artifact.uncommented)
  wrapper : (Wrapper.artifacts m options).map (List.map Artifact.uncommented) =
    (Wrapper.artifacts n options).map (List.map Artifact.uncommented)

/-- **Documentation is inert.** Whatever is written about routines and fields, it adds, changes and
removes no line of an artifact that is not a comment. -/
theorem documentation_inert {m n : Model} (h : m.undocumented = n.undocumented)
    (options : Options) : m.SameCode n options where
  fixtures := by
    rw [← Fixture.artifacts_undocumented m, h, Fixture.artifacts_undocumented]
  schema := by
    rw [← Schema.artifacts_undocumented m, h, Schema.artifacts_undocumented]
  wrapper := by
    rw [← Wrapper.artifacts_undocumented m, h, Wrapper.artifacts_undocumented]

/-- **Freezing keeps documentation apart.** Routines that differ in documentation only make models
that differ in documentation only. -/
theorem undocumented_freeze (routines : List Routine) (types : TypeTable) (options : Options) :
    (freeze (routines.map Routine.undocumented) types options).undocumented =
      (freeze routines types options).undocumented := by
  have hroutines : (routines.map Routine.undocumented).map Routine.undocumented =
      routines.map Routine.undocumented := by
    rw [List.map_map]
    exact List.map_congr_left fun r _ => r.undocumented_undocumented
  have hdataTypes : (routines.map Routine.undocumented).flatMap Routine.dataTypes =
      routines.flatMap Routine.dataTypes := List.flatMap_map _ _ _
  have hcalls : ∀ types,
      (Layout.build (routines.map Routine.undocumented) types options).calls.mapValues
        CallLayout.undocumented =
      (Layout.build routines types options).calls.mapValues CallLayout.undocumented := by
    intro types
    rw [Layout.build, Layout.build, SortedMap.mapValues_ofList, SortedMap.mapValues_ofList,
      List.map_map, List.map_map, List.map_map]
    congr 1
    refine List.map_congr_left fun r _ => ?_
    exact congrArg (r.qualifiedName, ·) (r.undocumented_call types options)
  rw [undocumented, undocumented, freeze, freeze, hdataTypes]
  dsimp only
  rw [hroutines, hcalls]
  rfl

/-- A routine with one argument, about which all that is written is the text. -/
def sampleDocumented (text : String) : Routine :=
  { Routine.named "APP" "PKG" "FIND" with
    arguments := [⟨"P_ID", .scalar ⟨.text, "VARCHAR2", 0, 0, 0, ""⟩, .input, 1⟩]
    doc := ⟨text, text, .ofList [("P_ID", text)], .empty⟩ }

/-- A text that starts with a line feed, closes a block and opens one, among comment marks and
carriage returns. -/
def sampleText : String := "\n\x7d\r\n\n  // \rmessage Evil \x7b\r"

theorem documentation_inert_sample :
    (freeze [sampleDocumented sampleText] .empty {}).undocumented =
        (freeze [sampleDocumented ""] .empty {}).undocumented ∧
      (freeze [sampleDocumented sampleText] .empty {}).SameCode
        (freeze [sampleDocumented ""] .empty {}) {} := by
  have hundocumented : (freeze [sampleDocumented sampleText] .empty {}).undocumented =
      (freeze [sampleDocumented ""] .empty {}).undocumented := rfl
  exact ⟨hundocumented, documentation_inert hundocumented {}⟩

end Model

end RoutineBridge
