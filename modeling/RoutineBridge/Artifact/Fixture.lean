import RoutineBridge.Artifact.Basic
import RoutineBridge.Json.Printer

/-!
# Fixtures

One JSON document for every routine: what a call needs to know, the field numbers of both
messages, and a sample request. The sample is made from field numbers alone, so it is the same in
every run, and a number in it fits the type it is a sample of.
-/

namespace RoutineBridge.Fixture

/-! ## Samples of numbers -/

/-- A sample number: a whole part, and so many fives behind the point. -/
structure NumericSample where
  whole : Nat
  places : Nat
deriving DecidableEq, Repr

namespace NumericSample

/-- How many digits the whole part may have: at most four. -/
def wholeDigits (s : Scalar) : Nat :=
  if s.kind = .number ∧ s.precision > 0 then min (s.precision - max s.scale 0).toNat 4 else 4

/-- How many digits stand behind the point: at most two. A number that has no scale gets one where
its wire or its type would show a fraction. -/
def placeDigits (s : Scalar) (wire : Wire) : Nat :=
  if s.scale > 0 then min s.scale.toNat 2
  else if wire = .double ∨ (wire = .string ∧ !s.isIntegral) then
    if s.kind = .number ∧ s.precision > 0 then 0 else 1
  else 0

def make (s : Scalar) (wire : Wire) (seed : Nat) : NumericSample :=
  let digits := wholeDigits s
  ⟨if digits = 0 then 0 else seed % Nat.pow 10 digits, placeDigits s wire⟩

/-- The digits behind the point. -/
def fives (n : Nat) : String := String.ofList (List.replicate n '5')

def text (n : NumericSample) : String :=
  let whole := toString n.whole
  if n.places = 0 then whole else whole ++ "." ++ fives n.places

/-- The sample as a JSON value of its wire. An integer wire takes no fraction. -/
def json? (n : NumericSample) : Wire → Option Json
  | .int32 | .int64 => if n.places = 0 then some (.nat n.whole) else none
  | .double => some (.decimal (if n.places = 0 then n.text ++ ".0" else n.text))
  | _ => some (.str n.text)

end NumericSample

/-! ## Other samples -/

/-- The field name, cut to the length of the type. -/
def textSample (field : String) (length : Nat) : String :=
  if length = 0 then field else String.ofList (field.toList.take length)

def twoDigits (n : Nat) : String := if n < 10 then "0" ++ toString n else toString n

/-- A minute of a day in January 2020. -/
def timeSample (seed : Nat) : String :=
  "2020-01-" ++ twoDigits (1 + seed % 28) ++ "T12:" ++ twoDigits (seed % 60) ++ ":00"

/-- Up to four bytes. -/
def byteSample (length seed : Nat) : Json :=
  let count := if length = 0 then 4 else min length 4
  .arr ((List.range count).map fun i => .nat ((seed + i) % 256))

/-- The type holds numbers. -/
def isNumeric (s : Scalar) : Bool := s.kind == .number || s.kind == .integer || s.kind == .float

def scalarSample (routine field : String) (wire : Wire) (s : Scalar) (seed : Nat) :
    Except EmitError Json :=
  if isNumeric s then
    let sample := NumericSample.make s wire seed
    let checked :=
      if s.kind = .float then .ok () else Digits.check sample.text s.precision s.scale
    match checked with
    | .error e => .error (.fixture routine field e)
    | .ok () =>
      match sample.json? wire with
      | some j => .ok j
      | none => .error (.sample routine field sample.text wire)
  else
    match wire with
    | .bool => .ok (.bool (seed % 2 == 1))
    | .bytes => .ok (byteSample s.length seed)
    | .timestamp => .ok (.str (timeSample seed))
    | _ => .ok (.str (textSample field s.length))

/-! ## Samples of messages -/

/-- What a sample is made for. -/
structure Sampler where
  messages : SortedMap String MessageTable
  /-- The routine, as failures name it. -/
  routine : String
  /-- How many items a list gets. -/
  items : Nat

/-- Sampling gives a value or a failure; it gives nothing where messages lead back to themselves, and
so it has no end. -/
abbrev Sampling := ExceptT EmitError Option

/-- A way to sample messages, given how deep they lie. -/
abbrev MessageSampling := Nat → MessageTable → Option (Except EmitError Json)

/-- A sample of an element of a field. No trace is kept of the messages under way. -/
def elementSample (p : Sampler) (inner : MessageSampling) (depth : Nat) (s : Slot) (seed : Nat) :
    Option (Except EmitError Json) :=
  match s.shape.element with
  | .scalar wire type => some (scalarSample p.routine s.field wire type seed)
  | .message name _ =>
    match p.messages.get? name with
    | some t => inner (depth + 1) t
    | none => some (.error (.missingMessage name))

/-- A sample of a field: one element, or a list whose seeds follow one another. -/
def fieldSample (p : Sampler) (inner : MessageSampling) (depth : Nat) (s : Slot) :
    Option (Except EmitError Json) :=
  let seed := s.ordinal + 10 * depth
  if s.shape.repeated then
    ExceptT.run do
      let items ← (List.range p.items).mapM fun i =>
        (elementSample p inner depth s (seed + i) : Sampling Json)
      pure (.arr items)
  else elementSample p inner depth s seed

/-- A sample of every field of a message. -/
def fieldSamples (p : Sampler) (inner : MessageSampling) (depth : Nat) (t : MessageTable) :
    Option (Except EmitError Json) :=
  ExceptT.run do
    let members ← t.slots.mapM fun s => do
      let value ← (fieldSample p inner depth s : Sampling Json)
      pure (s.field, value)
    pure (.obj (SortedMap.ofList members).entries)

/-! ### Samples that end

What ends goes on to end in the same way if messages inside are sampled in a way that ends more
often. So there is a least way to sample messages that goes on to those inside as it began. -/

section Sequences

variable {α β : Type} {f g : α → Sampling β} {x y : Sampling α} {xs : List α}

theorem bind_ends (hx : ∀ a, x.run = some a → y.run = some a)
    (hf : ∀ a b, (f a).run = some b → (g a).run = some b) (b : Except EmitError β)
    (h : (x >>= f).run = some b) : (y >>= g).run = some b := by
  rw [ExceptT.run_bind] at h ⊢
  rcases hrun : x.run with - | (e | a)
  · simp [hrun] at h
  · simpa [hrun, hx _ hrun] using h
  · rw [hrun] at h
    rw [hx _ hrun]
    exact hf a b h

theorem mapM_ends (hf : ∀ a b, (f a).run = some b → (g a).run = some b)
    (bs : Except EmitError (List β)) (h : (xs.mapM f).run = some bs) :
    (xs.mapM g).run = some bs := by
  induction xs generalizing bs with
  | nil => exact h
  | cons a xs ih =>
      rw [List.mapM_cons] at h ⊢
      exact bind_ends (hf a) (fun b => bind_ends ih fun bs _ => id) bs h

end Sequences

section Ends

variable {p : Sampler} {f g : MessageSampling}
variable (hfg : ∀ depth t j, f depth t = some j → g depth t = some j)

include hfg

theorem elementSample_ends (depth : Nat) (s : Slot) (seed : Nat) (j : Except EmitError Json)
    (h : elementSample p f depth s seed = some j) : elementSample p g depth s seed = some j := by
  unfold elementSample at h ⊢
  split at h
  · exact h
  · split at h
    · exact hfg _ _ _ h
    · exact h

theorem fieldSample_ends (depth : Nat) (s : Slot) (j : Except EmitError Json)
    (h : fieldSample p f depth s = some j) : fieldSample p g depth s = some j := by
  unfold fieldSample at h ⊢
  cases hrepeated : s.shape.repeated with
  | true =>
      rw [hrepeated] at h
      exact bind_ends (mapM_ends fun i => elementSample_ends hfg depth s _) (fun _ _ => id) j h
  | false =>
      rw [hrepeated] at h
      exact elementSample_ends hfg depth s _ j h

theorem fieldSamples_ends {depth : Nat} {t : MessageTable} (j : Except EmitError Json)
    (h : fieldSamples p f depth t = some j) : fieldSamples p g depth t = some j := by
  refine bind_ends (mapM_ends fun s => ?_) (fun _ _ => id) j h
  exact bind_ends (fieldSample_ends hfg depth s) fun _ _ => id

end Ends

/-- In an order that puts nothing below everything, what ends is below whatever ends in the same
way. -/
theorem below_of_ends {β : Type} {R : Option β → Option β → Prop} (x y : Option β)
    (hnone : ∀ y, R none y) (hrefl : ∀ x, R x x) (h : ∀ b, x = some b → y = some b) : R x y := by
  cases x with
  | none => exact hnone y
  | some b => exact h b rfl ▸ hrefl (some b)

/-- A sample of a message that lies `depth` messages deep. -/
def messageSample (p : Sampler) (depth : Nat) (t : MessageTable) :
    Option (Except EmitError Json) :=
  fieldSamples p (messageSample p) depth t
partial_fixpoint monotonicity fun f g hfg depth t =>
  below_of_ends (fieldSamples p f depth t) (fieldSamples p g depth t) (fun _ => .bot)
    (fun _ => .refl) <| fieldSamples_ends fun depth t j hj => by
      have hbelow := hfg depth t
      rw [hj] at hbelow
      generalize g depth t = result at hbelow ⊢
      cases hbelow
      rfl

/-! ## Documents -/

/-- A list in a sample holds at most this many items. -/
def sampleItems : Nat := 2

def ordinals (t : MessageTable) : Json :=
  .obj ((SortedMap.ofList (t.slots.map fun s => (s.field, Json.nat s.ordinal))).entries)

/-- What samples for a routine are made with. -/
def sampler (m : Model) (options : Options) (r : Routine) (c : CallLayout) : Sampler where
  messages := m.layout.messages
  routine := c.routine
  items := min sampleItems (r.tableCap options.maxTableSize)

/-- The sample request. A sampling without end never gives one; null stands for it only because
there has to be a value. -/
def request (m : Model) (options : Options) (r : Routine) (c : CallLayout) :
    Except EmitError Json :=
  (messageSample (sampler m options r c) 0 c.request).getD (.ok .null)

def document (m : Model) (options : Options) (r : Routine) : Except EmitError Json := do
  let c ← m.call r
  let sample ← request m options r c
  pure <| .obj
    [("function", .str c.routine),
     ("target", .str r.callTarget),
     ("request_message", .str c.request.message),
     ("response_message", .str c.response.message),
     ("streaming", .bool c.streaming),
     ("json_replacement", .bool r.isJson),
     ("handlers", .strings r.handlers),
     ("max_table_size", .nat (r.tableCap options.maxTableSize)),
     ("ordinals", .obj [("request", ordinals c.request), ("response", ordinals c.response)]),
     ("request", sample)]

def path (r : Routine) : String := "fixtures/" ++ Identifier.call r ++ ".json"

def artifacts (m : Model) (options : Options) : Except EmitError (List Artifact) :=
  m.routines.mapM fun r =>
    (document m options r).map fun j => ⟨path r, j.pretty ++ "\n"⟩

end RoutineBridge.Fixture
