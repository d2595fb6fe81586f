import RoutineBridge.Json.Draft
import RoutineBridge.SortedMap

/-!
# Meaning of JSON drafts

Readers that turn a draft into a value of the domain. They go through the draft from front to
back and report the first problem they meet. Members that nobody asks for are skipped: only
their form is looked at.
-/

namespace RoutineBridge.Json

/-- Why a text has no meaning as a value. -/
inductive Problem where
  /-- The text is no JSON. -/
  | malformed
  /-- The text is JSON of the wrong shape. -/
  | mismatch
  /-- The text ends too early. -/
  | ended
deriving DecidableEq, Repr, Inhabited

/-- How a break of the text shows. -/
def Break.problem : Break → Problem
  | .malformed => .malformed
  | .ended => .ended
  | .endedAfterComma => .ended

abbrev Decoder (α : Type) := Draft → Except Problem α

/-- The end of a container: it was closed, or the text broke off. -/
def closed : Option Fault → Except Problem Unit
  | none => .ok ()
  | some f => .error f.asked.problem

/-- The end of a container that is passed over. -/
def passed : Option Fault → Except Problem Unit
  | none => .ok ()
  | some f => .error f.passed.problem

mutual

/-- Looks at the form of a value only. -/
def skip : Draft → Except Problem Unit
  | .broken f => .error f.passed.problem
  | .arr items cut => do
    skipItems items
    passed cut
  | .obj members cut => do
    skipMembers members
    passed cut
  | _ => .ok ()

def skipItems : List Draft → Except Problem Unit
  | [] => .ok ()
  | d :: ds => do
    skip d
    skipItems ds

def skipMembers : List (Option String × Draft) → Except Problem Unit
  | [] => .ok ()
  | (_, d) :: ms => do
    skip d
    skipMembers ms

end

/-- The problem of a value that is not of the expected kind: what cannot be held at all is no
JSON, everything else merely has another shape. -/
def unexpected : Draft → Problem
  | .broken f => f.asked.problem
  | .str none => .malformed
  | .real _ false => .malformed
  | _ => .mismatch

def boolean : Decoder Bool
  | .bool b => .ok b
  | d => .error (unexpected d)

/-- An integer of a range. -/
def integer (low high : Int) : Decoder Int
  | .int i => if low ≤ i && i ≤ high then .ok i else .error .mismatch
  | d => .error (unexpected d)

/-- A number of so many bits without a sign. -/
def natural (bits : Nat) : Decoder Nat := fun d =>
  (integer 0 (Nat.pow 2 bits - 1 : Nat) d).map Int.toNat

/-- A number of 32 bits without a sign. -/
def word : Decoder Nat := natural 32

/-- A number of 32 bits with a sign. -/
def signedWord : Decoder Int := integer (-2147483648) 2147483647

def string : Decoder String
  | .str (some s) => .ok s
  | d => .error (unexpected d)

/-- Nothing for null. -/
def optional {α : Type} (read : Decoder α) : Decoder (Option α)
  | .null => .ok none
  | d => (read d).map some

def readAll {α : Type} (read : Decoder α) : List Draft → Except Problem (List α)
  | [] => .ok []
  | d :: ds => do
    let a ← read d
    let as ← readAll read ds
    pure (a :: as)

/-- An array of values of one kind. -/
def list {α : Type} (read : Decoder α) : Decoder (List α)
  | .arr items cut => do
    let as ← readAll read items
    closed cut
    pure as
  | d => .error (unexpected d)

def memberName : Option String → Except Problem String
  | some name => .ok name
  | none => .error .malformed

def readEntries {α : Type} (read : Decoder α) :
    List (Option String × Draft) → Except Problem (List (String × α))
  | [] => .ok []
  | (name, d) :: ms => do
    let name ← memberName name
    let a ← read d
    let rest ← readEntries read ms
    pure ((name, a) :: rest)

/-- An object used as a map. Of two members with one name the later one counts. -/
def table {α : Type} (read : Decoder α) : Decoder (SortedMap String α)
  | .obj members cut => do
    let es ← readEntries read members
    closed cut
    pure (SortedMap.ofList es)
  | d => .error (unexpected d)

/-- A pair, written as an array of two. -/
def pair {α β : Type} (first : Decoder α) (second : Decoder β) : Decoder (α × β)
  | .arr [a, b] none => do
    let a ← first a
    let b ← second b
    pure (a, b)
  | d => do
    skip d
    .error .mismatch

/-! ## Records -/

/-- A member of a record under construction. -/
structure Member (σ : Type) where
  name : String
  /-- An object may leave the member out. -/
  mayOmit : Bool
  /-- An array of the members may end before this one. -/
  mayEnd : Bool
  read : Draft → σ → Except Problem σ

def Member.withDefault {σ α : Type} (name : String) (read : Decoder α) (set : α → σ → σ) :
    Member σ :=
  ⟨name, true, true, fun d s => (read d).map (set · s)⟩

/-- A member that has to be there. -/
def Member.required {σ α : Type} (name : String) (read : Decoder α) (set : α → σ → σ) : Member σ :=
  ⟨name, false, false, fun d s => (read d).map (set · s)⟩

/-- A member that an object may leave out or set to null. -/
def Member.optional {σ α : Type} (name : String) (read : Decoder α) (set : Option α → σ → σ) :
    Member σ :=
  ⟨name, true, false, fun d s => (Json.optional read d).map (set · s)⟩

/-- Goes through the members of an object. A member given twice is a mismatch, before its second
value is looked at. -/
def readMemberFields {σ : Type} (fields : List (Member σ)) (other : Draft → Except Problem Unit) :
    List (Option String × Draft) → List String → σ → Except Problem (List String × σ)
  | [], seen, s => .ok (seen, s)
  | (name, d) :: ms, seen, s => do
    let name ← memberName name
    match fields.find? (·.name == name) with
    | none =>
      other d
      readMemberFields fields other ms seen s
    | some field =>
      if seen.contains name then .error .mismatch
      else
        let s ← field.read d s
        readMemberFields fields other ms (name :: seen) s

/-- Every member that has to be there was there. -/
def complete {σ : Type} (fields : List (Member σ)) (seen : List String) : Bool :=
  fields.all fun f => f.mayOmit || seen.contains f.name

/-- A record given as an object; `other` looks at the members that are no fields. -/
def objectWith {σ : Type} (fields : List (Member σ)) (other : Draft → Except Problem Unit)
    (start : σ) : Decoder σ
  | .obj members cut => do
    let (seen, s) ← readMemberFields fields other members [] start
    closed cut
    if complete fields seen then pure s else .error .mismatch
  | d => .error (unexpected d)

/-- Goes through the fields of a record given as an array of its members in order. -/
def readPositions {σ : Type} (cut : Option Fault) :
    List (Member σ) → List Draft → σ → Except Problem σ
  | [], [], s =>
    match cut with
    | none => .ok s
    | some f => .error (if f.asked = .endedAfterComma then .malformed else f.asked.problem)
  | [], _ :: _, _ => .error .malformed
  | f :: fs, [], s => do
    closed cut
    if (f :: fs).all (·.mayEnd) then pure s else .error .mismatch
  | f :: fs, d :: ds, s => do
    let s ← f.read d s
    readPositions cut fs ds s

/-- A record, given as an object or as an array of its members in order. -/
def record {σ : Type} (fields : List (Member σ)) (start : σ) : Decoder σ
  | .arr items cut => readPositions cut fields items start
  | d => objectWith fields skip start d

/-- One of a list of names. A name may also stand as the only member of an object, with null. -/
def choice {α : Type} (names : List (String × α)) (d : Draft) : Except Problem α :=
  match d with
  | .str (some s) =>
    match names.lookup s with
    | some a => .ok a
    | none => .error .mismatch
  | .obj [(some s, .null)] none =>
    match names.lookup s with
    | some a => .ok a
    | none => .error .mismatch
  | d => .error (unexpected d)

/-- A value tagged by the only member of an object. -/
def tagged {α : Type} (cases : List (String × Decoder α)) : Decoder α
  | .obj [(some s, d)] none =>
    match cases.lookup s with
    | some read => read d
    | none => .error .mismatch
  | d => .error (unexpected d)

/-- The meaning of a whole text. -/
def decode {α : Type} (read : Decoder α) (text : String) : Except Problem α := do
  let document := Document.read text
  let a ← read document.root
  if document.trailing then .error .malformed else pure a

/-! ## Values as they are -/

/-- How many containers may stand inside one another. -/
def depthLimit : Nat := 127

mutual

/-- The value of a draft, with at most so many containers around one another. Of two members
with one name the later one counts, and members are ordered by name. -/
def valueWithin (depth : Nat) : Decoder Json
  | .null => .ok .null
  | .bool b => .ok (.bool b)
  | .int i => .ok (.int i)
  | .real text true => .ok (.decimal text)
  | .real _ false => .error .malformed
  | .str (some s) => .ok (.str s)
  | .str none => .error .malformed
  | .broken f => .error f.asked.problem
  | .arr items cut =>
    match depth with
    | 0 => .error .malformed
    | depth + 1 => do
      let items ← valueItems depth items
      closed cut
      pure (.arr items)
  | .obj members cut =>
    match depth with
    | 0 => .error .malformed
    | depth + 1 => do
      let members ← valueMembers depth members
      closed cut
      pure (.obj (SortedMap.ofList members).entries)

def valueItems (depth : Nat) : List Draft → Except Problem (List Json)
  | [] => .ok []
  | d :: ds => do
    let j ← valueWithin depth d
    let js ← valueItems depth ds
    pure (j :: js)

def valueMembers (depth : Nat) :
    List (Option String × Draft) → Except Problem (List (String × Json))
  | [] => .ok []
  | (name, d) :: ms => do
    let name ← memberName name
    let j ← valueWithin depth d
    let js ← valueMembers depth ms
    pure ((name, j) :: js)

end

def value (text : String) : Except Problem Json := decode (valueWithin depthLimit) text

mutual

/-- The draft of a value, as its text would give it. -/
def toDraft : Json → Draft
  | .null => .null
  | .bool b => .bool b
  | .int i => .int i
  | .decimal text => .real text true
  | .str s => .str (some s)
  | .arr items => .arr (draftItems items) none
  | .obj members => .obj (draftMembers members) none

def draftItems : List Json → List Draft
  | [] => []
  | j :: js => toDraft j :: draftItems js

def draftMembers : List (String × Json) → List (Option String × Draft)
  | [] => []
  | (name, j) :: js => (some name, toDraft j) :: draftMembers js

end

end RoutineBridge.Json
