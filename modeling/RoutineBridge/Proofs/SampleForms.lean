import Mathlib.Algebra.Group.Int.Defs
import RoutineBridge.Proofs.Sampling

/-!
# Samples have the form of their messages

What a schema says about a value: a message is an object with a member for every field and no other,
a repeated field is a list, and a scalar has the form of its wire and is no longer than its type
declares (`Wire.Form`, `Scalar.Fits`, `MessageForm`). Samples are made from the slots of messages,
so all there is to see is that the fields of a message differ, and that a scalar has the wire of its
type (`MessageTable.Proper`), which is so in every layout. Main statement: the sample request of a
fixture has the form of the request (`Model.fixture_conforms`).
-/

namespace RoutineBridge

/-! ## Forms of values -/

/-- The last digits of a number. -/
def padded : Nat → Nat → List Char
  | 0, _ => []
  | width + 1, n => padded width (n / 10) ++ [Nat.digitChar (n % 10)]

/-- A second of a day, by the clock and the calendar. -/
structure DateTime where
  year : Nat
  month : Nat
  day : Nat
  hour : Nat
  minute : Nat
  second : Nat

namespace DateTime

def isLeapYear (year : Nat) : Bool := year % 4 == 0 && (year % 100 != 0 || year % 400 == 0)

/-- How many days a month has. -/
def daysIn (year month : Nat) : Nat :=
  if month = 2 then if isLeapYear year then 29 else 28
  else if month ∈ [4, 6, 9, 11] then 30
  else 31

/-- The calendar has this day, and the clock this second. -/
structure Valid (t : DateTime) : Prop where
  year : t.year < 10000
  month : 1 ≤ t.month ∧ t.month ≤ 12
  day : 1 ≤ t.day ∧ t.day ≤ daysIn t.year t.month
  hour : t.hour < 24
  minute : t.minute < 60
  second : t.second < 60

/-- The date and the time of day, from the year down. -/
def text (t : DateTime) : String :=
  String.ofList (padded 4 t.year ++ '-' :: padded 2 t.month ++ '-' :: padded 2 t.day ++
    'T' :: padded 2 t.hour ++ ':' :: padded 2 t.minute ++ ':' :: padded 2 t.second)

end DateTime

/-- The value has the form in which scalars of the wire are written. -/
inductive Wire.Form : Wire → Json → Prop
  | string (s : String) : Form .string (.str s)
  | int32 {i : Int} (lower : -2 ^ 31 ≤ i) (upper : i < 2 ^ 31) : Form .int32 (.int i)
  | int64 {i : Int} (lower : -2 ^ 63 ≤ i) (upper : i < 2 ^ 63) : Form .int64 (.int i)
  | double (whole : Nat) {places : List Char} (given : places ≠ [])
      (digits : ∀ c ∈ places, c.isDigit) :
      Form .double (.decimal (toString whole ++ "." ++ String.ofList places))
  | bool (b : Bool) : Form .bool (.bool b)
  | bytes {ns : List Nat} (bounded : ∀ n ∈ ns, n < 256) : Form .bytes (.arr (ns.map .nat))
  | timestamp {t : DateTime} (valid : t.Valid) : Form .timestamp (.str t.text)

/-- How many characters a text has, or a list items. -/
def Json.extent : Json → Nat
  | .str s => s.length
  | .arr items => items.length
  | _ => 0

/-- The value is no longer than character data and raw bytes of the type may be, if the type
declares a length. -/
def Scalar.Fits (s : Scalar) (j : Json) : Prop :=
  s.kind ∈ [.text, .clob, .raw] → 0 < s.length → j.extent ≤ s.length

mutual

/-- The value is an object with a member of its form for every field of the message, and no
other. -/
inductive MessageForm (messages : SortedMap String MessageTable) (items : Nat) :
    MessageTable → Json → Prop
  | object {t : MessageTable} {members : List (String × Json)}
      (nodup : (members.map (·.1)).Nodup)
      (exact : ∀ field, field ∈ members.map (·.1) ↔ field ∈ t.slots.map (·.field))
      (forms : ∀ s ∈ t.slots, ∀ value, (s.field, value) ∈ members →
        FieldForm messages items s.shape value) :
      MessageForm messages items t (.obj members)

/-- The value is one element, or a list of so many. -/
inductive FieldForm (messages : SortedMap String MessageTable) (items : Nat) :
    FieldShape → Json → Prop
  | single {e : Element} {value : Json} (form : ElementForm messages items e value) :
      FieldForm messages items ⟨false, e⟩ value
  | repeated {e : Element} {values : List Json} (length : values.length = items)
      (forms : ∀ value ∈ values, ElementForm messages items e value) :
      FieldForm messages items ⟨true, e⟩ (.arr values)

inductive ElementForm (messages : SortedMap String MessageTable) (items : Nat) :
    Element → Json → Prop
  | scalar {wire : Wire} {type : Scalar} {value : Json} (form : wire.Form value)
      (fits : type.Fits value) : ElementForm messages items (.scalar wire type) value
  | message {name : String} {type : TypeName} {t : MessageTable} {value : Json}
      (found : messages.get? name = some t) (form : MessageForm messages items t value) :
      ElementForm messages items (.message name type) value

end

/-! ## Samples of scalars -/

namespace Fixture

/-- The whole part has no more digits than it may have. -/
theorem NumericSample.whole_lt_pow (s : Scalar) (wire : Wire) (seed : Nat) :
    (make s wire seed).whole < 10 ^ wholeDigits s := by
  rw [make]
  dsimp only
  split
  · exact Nat.pow_pos (by decide)
  · exact Nat.mod_lt _ (Nat.pow_pos (by decide))

theorem NumericSample.whole_lt (s : Scalar) (wire : Wire) (seed : Nat) :
    (make s wire seed).whole < 10 ^ 4 := by
  have hdigits : wholeDigits s ≤ 4 := by
    rw [wholeDigits]
    split
    · exact Nat.min_le_right _ _
    · exact Nat.le_refl 4
  exact (whole_lt_pow s wire seed).trans_le (Nat.pow_le_pow_right (by decide) hdigits)

/-- A sample number has the form of every wire that numbers travel on. -/
theorem NumericSample.form_of_json? {n : NumericSample} (hwhole : n.whole < 10 ^ 4) {wire : Wire}
    (hwire : wire ∈ [.string, .int32, .int64, .double]) {j : Json} (h : n.json? wire = some j) :
    wire.Form j := by
  cases wire with
  | string =>
      cases h
      exact .string _
  | int32 =>
      rw [json?] at h
      split at h
      · cases h
        exact .int32 (by omega) (by omega)
      · cases h
  | int64 =>
      rw [json?] at h
      split at h
      · cases h
        exact .int64 (by omega) (by omega)
      · cases h
  | double =>
      cases h
      rw [text]
      split
      · have hform : Wire.double.Form (.decimal (toString n.whole ++ "." ++ String.ofList ['0'])) :=
          .double n.whole (by simp) (by simp)
        rwa [String.append_assoc] at hform
      · rename_i hplaces
        refine .double n.whole (fun hnil => hplaces ?_) fun c hc => ?_
        · exact (List.replicate_eq_nil_iff _).mp hnil
        · rw [List.eq_of_mem_replicate hc]
          rfl
  | bool | bytes | timestamp => simp at hwire

theorem extent_textSample (field : String) {length : Nat} (h : 0 < length) :
    (textSample field length).length ≤ length := by
  rw [textSample, if_neg h.ne', String.length_ofList]
  exact List.length_take_le _ _

theorem form_byteSample (length seed : Nat) : Wire.bytes.Form (byteSample length seed) := by
  have hbounded : ∀ b ∈ (List.range (if length = 0 then 4 else min length 4)).map
      fun i => (seed + i) % 256, b < 256 := by
    intro b hb
    obtain ⟨i, -, rfl⟩ := List.mem_map.mp hb
    exact Nat.mod_lt _ (by decide)
  have hform := Wire.Form.bytes hbounded
  rwa [List.map_map] at hform

theorem extent_byteSample {length : Nat} (h : 0 < length) (seed : Nat) :
    (byteSample length seed).extent ≤ length := by
  rw [byteSample, if_neg h.ne', Json.extent, List.length_map, List.length_range]
  exact Nat.min_le_left _ _

/-- Any minute of an hour in January is one. -/
theorem valid_sampleTime {day minute : Nat} (hday : 1 ≤ day ∧ day ≤ 31) (hminute : minute < 60) :
    DateTime.Valid ⟨2020, 1, day, 12, minute, 0⟩ where
  year := (by decide : 2020 < 10000)
  month := (by decide : 1 ≤ 1 ∧ 1 ≤ 12)
  day := hday
  hour := (by decide : 12 < 24)
  minute := hminute
  second := (by decide : 0 < 60)

theorem form_timeSample (seed : Nat) : Wire.timestamp.Form (.str (timeSample seed)) := by
  have hdigits : ∀ n < 60, twoDigits n = String.ofList (padded 2 n) := by decide
  have hday : seed % 28 < 28 := Nat.mod_lt _ (by decide)
  have hminute : seed % 60 < 60 := Nat.mod_lt _ (by decide)
  have htext : timeSample seed = DateTime.text ⟨2020, 1, 1 + seed % 28, 12, seed % 60, 0⟩ := by
    rw [timeSample, hdigits _ (by omega), hdigits _ hminute, ← String.toList_inj, DateTime.text]
    simp [padded]
  rw [htext]
  exact .timestamp (valid_sampleTime (by omega) hminute)

/-- **A sample of a scalar has the form of its wire**, and fits its type. -/
theorem scalarSample_form {routine field : String} {s : Scalar} {numberAsString : Bool} {seed : Nat}
    {j : Json} (h : scalarSample routine field (.ofScalar s numberAsString) s seed = .ok j) :
    (Wire.ofScalar s numberAsString).Form j ∧ s.Fits j := by
  unfold scalarSample at h
  split at h
  · rename_i hnumeric
    have hkind : s.kind ∉ [.text, .clob, .raw] ∧
        Wire.ofScalar s numberAsString ∈ [.string, .int32, .int64, .double] := by
      rw [isNumeric] at hnumeric
      rw [Wire.ofScalar]
      cases hkind : s.kind <;> simp [hkind] at hnumeric ⊢ <;> grind
    dsimp only at h
    split at h
    · cases h
    · split at h
      · rename_i value hjson
        obtain rfl := Except.ok.inj h
        exact ⟨NumericSample.form_of_json? (NumericSample.whole_lt s _ seed) hkind.2 hjson,
          fun hcharacters => absurd hcharacters hkind.1⟩
      · cases h
  · rename_i hnumeric
    obtain ⟨kind, catalogName, precision, scale, length, charset⟩ := s
    cases kind with
    | text | clob =>
        obtain rfl := Except.ok.inj h
        exact ⟨.string _, fun _ => extent_textSample field⟩
    | raw =>
        obtain rfl := Except.ok.inj h
        exact ⟨form_byteSample length seed, fun _ hlength => extent_byteSample hlength seed⟩
    | blob =>
        obtain rfl := Except.ok.inj h
        exact ⟨form_byteSample length seed, fun hkind => absurd hkind (by simp)⟩
    | dateTime =>
        obtain rfl := Except.ok.inj h
        exact ⟨form_timeSample seed, fun hkind => absurd hkind (by simp)⟩
    | boolean =>
        obtain rfl := Except.ok.inj h
        exact ⟨.bool _, fun hkind => absurd hkind (by simp)⟩
    | integer | number | float => exact absurd rfl hnumeric

end Fixture

/-! ## Messages -/

/-- A scalar in the slot has the wire of its type. -/
def Slot.Wired (s : Slot) : Prop :=
  ∀ wire type, s.shape.element = .scalar wire type →
    ∃ numberAsString, wire = Wire.ofScalar type numberAsString

/-- The fields of the message differ, and scalars have the wires of their types. -/
structure MessageTable.Proper (t : MessageTable) : Prop where
  fields : (t.slots.map (·.field)).Nodup
  wired : ∀ s ∈ t.slots, s.Wired

namespace Layout

variable {types : TypeTable} {options : Options} {routines : List Routine} {t : MessageTable}

theorem wired_ofDataType {s : Slot} {numberAsString : Bool}
    (h : s.shape = .ofDataType types numberAsString s.dataType) : s.Wired := by
  have hscalar : ∀ (d : DataType) {wire : Wire} {type : Scalar},
      Element.ofDataType numberAsString d = .scalar wire type →
      wire = Wire.ofScalar type numberAsString := by
    intro d wire type hd
    cases d with
    | scalar s =>
        obtain ⟨rfl, rfl⟩ := Element.scalar.inj hd
        rfl
    | composite r => cases hd
  intro wire type helement
  refine ⟨numberAsString, ?_⟩
  rw [h] at helement
  unfold FieldShape.ofDataType at helement
  split at helement
  · exact hscalar (.scalar _) helement
  · split at helement
    · cases helement
    · split at helement
      · exact hscalar _ helement
      · cases helement
    · split at helement
      · exact hscalar _ helement
      · cases helement

theorem proper_request (r : Routine) (types : TypeTable) (options : Options) :
    (call r types options).request.Proper := by
  have hfields : (call r types options).request.slots.map (·.field) =
      (inputParameters r).map (·.field) :=
    map_slots_of_bare (map_bare_request r types options) (fun _ => rfl) fun _ => rfl
  refine ⟨?_, fun s hs => ?_⟩
  · rw [hfields]
    exact (nodup_field_parameters r).sublist (List.filter_sublist.map _)
  · obtain ⟨x, -, hx⟩ := exists_parameter (List.mem_append_left _ hs)
    have hshape : s.bare.shape = .ofDataType types options.numberAsString s.bare.dataType :=
      hx ▸ rfl
    exact wired_ofDataType hshape

theorem proper_record (types : TypeTable) (options : Options) (n : TypeName)
    (attributes : List Attribute) : (record types options n attributes).Proper where
  fields := by
    rw [map_field_record]
    exact nodup_distinctNames _ _
  wired s hs := by
    obtain ⟨field, ordinal, a, -, rfl⟩ := exists_attribute hs
    exact wired_ofDataType rfl

theorem proper_wrapper (types : TypeTable) (options : Options) (n : TypeName) :
    (wrapper types options n).Proper where
  fields := List.nodup_singleton _
  wired s hs := by
    obtain rfl := List.mem_singleton.mp hs
    exact wired_ofDataType rfl

/-- **Every message of a layout is proper**, of requests and of types. -/
theorem proper_of_message? {name : String}
    (h : (build routines types options).message? name = some t) : t.Proper := by
  obtain ⟨t', ht', hentry⟩ := List.mem_map.mp (SortedMap.mem_of_get?_ofList h)
  obtain ⟨rfl, rfl⟩ := Prod.mk.inj hentry
  rcases List.mem_append.mp ht' with ht' | ht'
  · obtain ⟨⟨n, attributes⟩, -, rfl⟩ := List.mem_map.mp ht'
    exact proper_record types options n attributes
  · obtain ⟨n, -, rfl⟩ := List.mem_map.mp ht'
    exact proper_wrapper types options n

theorem proper_of_call? {r : Routine} {c : CallLayout}
    (h : (build routines types options).call? r = some c) : c.request.Proper := by
  obtain ⟨r', -, rfl⟩ := exists_routine_of_get? h
  exact proper_request r' types options

end Layout

/-! ## Samples of messages -/

namespace Fixture

section Sequences

variable {α β : Type} {f : α → Sampling β} {x : Sampling α} {xs : List α} {ys : List β}

theorem run_bind_eq_ok {g : α → Sampling β} {b : β} :
    (x >>= g).run = some (.ok b) ↔ ∃ a, x.run = some (.ok a) ∧ (g a).run = some (.ok b) := by
  rw [ExceptT.run_bind]
  rcases hx : x.run with - | (e | a)
  · simp
  · simp
  · simp

theorem forall₂_of_mapM_eq_ok (h : (xs.mapM f).run = some (.ok ys)) :
    List.Forall₂ (fun x y => (f x).run = some (.ok y)) xs ys := by
  induction xs generalizing ys with
  | nil =>
      cases h
      exact .nil
  | cons x xs ih =>
      rw [List.mapM_cons] at h
      obtain ⟨y, hy, h⟩ := run_bind_eq_ok.mp h
      obtain ⟨zs, hzs, h⟩ := run_bind_eq_ok.mp h
      cases h
      exact .cons hy (ih hzs)

end Sequences

variable {p : Sampler} {inner : MessageSampling} {depth : Nat} {s : Slot} {t : MessageTable}
  {j : Json}

/-- A sample of a field has its form, if samples of the messages inside do. -/
theorem fieldSample_form (hs : s.Wired)
    (hinner : ∀ name t depth value, p.messages.get? name = some t →
      inner depth t = some (.ok value) → MessageForm p.messages p.items t value)
    (h : fieldSample p inner depth s = some (.ok j)) :
    FieldForm p.messages p.items s.shape j := by
  have helement : ∀ seed value, elementSample p inner depth s seed = some (.ok value) →
      ElementForm p.messages p.items s.shape.element value := by
    intro seed value hvalue
    unfold elementSample at hvalue
    split at hvalue
    · rename_i wire type hscalar
      obtain ⟨numberAsString, rfl⟩ := hs wire type hscalar
      obtain ⟨hform, hfits⟩ := scalarSample_form (Option.some.inj hvalue)
      rw [hscalar]
      exact .scalar hform hfits
    · rename_i name type hmessage
      rw [hmessage]
      split at hvalue
      · rename_i t hfound
        exact .message hfound (hinner name t _ value hfound hvalue)
      · cases hvalue
  rw [fieldSample] at h
  generalize s.shape = shape at h helement ⊢
  obtain ⟨repeated, e⟩ := shape
  cases repeated with
  | false => exact .single (helement _ j h)
  | true =>
      obtain ⟨values, hvalues, h⟩ := run_bind_eq_ok.mp h
      cases h
      have hall := forall₂_of_mapM_eq_ok hvalues
      refine .repeated ?_ fun value hvalue => ?_
      · rw [← hall.length_eq, List.length_range]
      · obtain ⟨i, -, hi⟩ := Grouping.exists_of_mem_right hall hvalue
        exact helement _ value hi

theorem fieldSamples_form (ht : t.Proper)
    (hinner : ∀ name t depth value, p.messages.get? name = some t →
      inner depth t = some (.ok value) → MessageForm p.messages p.items t value)
    (h : fieldSamples p inner depth t = some (.ok j)) : MessageForm p.messages p.items t j := by
  obtain ⟨members, hmembers, h⟩ := run_bind_eq_ok.mp h
  cases h
  have hall : List.Forall₂ (fun s e => s.field = e.1 ∧ fieldSample p inner depth s = some (.ok e.2))
      t.slots members := by
    refine (forall₂_of_mapM_eq_ok hmembers).imp fun s e he => ?_
    obtain ⟨value, hvalue, he⟩ := run_bind_eq_ok.mp he
    cases he
    exact ⟨rfl, hvalue⟩
  have hkeys : members.map (·.1) = t.slots.map (·.field) := by
    have hsame : List.Forall₂ (· = ·) (t.slots.map (·.field)) (members.map (·.1)) :=
      List.forall₂_map_left_iff.mpr (List.forall₂_map_right_iff.mpr (hall.imp fun _ _ he => he.1))
    rw [List.forall₂_eq_eq_eq] at hsame
    exact hsame.symm
  have hnodup : (members.map (·.1)).Nodup := hkeys ▸ ht.fields
  have hentries : ∀ field value, (field, value) ∈ (SortedMap.ofList members).entries ↔
      (field, value) ∈ members := fun field value => by
    rw [← SortedMap.get?_eq_some_iff, SortedMap.get?_ofList hnodup]
  refine .object (SortedMap.nodup_keys _) (fun field => ?_) fun s hs value hvalue => ?_
  · rw [← hkeys]
    simp only [List.mem_map, Prod.exists, hentries]
  · obtain ⟨s', hs', hfield, hsample⟩ := Grouping.exists_of_mem_right hall ((hentries _ _).mp hvalue)
    obtain rfl := List.inj_on_of_nodup_map ht.fields hs' hs hfield
    exact fieldSample_form (ht.wired s' hs') hinner hsample

/-- **A sample of a message has its form.** -/
theorem messageSample_form (hmessages : ∀ name t, p.messages.get? name = some t → t.Proper)
    (ht : t.Proper) (h : messageSample p depth t = some (.ok j)) :
    MessageForm p.messages p.items t j := by
  refine messageSample.partial_correctness p
    (fun _ t result => t.Proper → ∀ j, result = .ok j → MessageForm p.messages p.items t j)
    ?_ depth t _ h ht j rfl
  rintro inner ih depth t _ hsample ht j rfl
  exact fieldSamples_form ht
    (fun name t depth value hfound hvalue => ih depth t _ hvalue (hmessages name t hfound) value rfl)
    hsample

/-- What ends where messages lie no more than two deep. -/
theorem messageSample_of_shallow {result : Except EmitError Json}
    (h : fieldSamples p (fieldSamples p fun _ _ => none) depth t = some result) :
    messageSample p depth t = some result := by
  rw [messageSample]
  refine fieldSamples_ends (fun depth t inner hinner => ?_) result h
  rw [messageSample]
  exact fieldSamples_ends (fun _ _ _ hnone => by cases hnone) inner hinner

end Fixture

namespace Model

/-- **A fixture's request has the form of the request message**: whenever a fixture is made, which
takes that the sampling ends, it holds a sample request that is a value of its message. -/
theorem fixture_conforms (routines : List Routine) (types : TypeTable) (options emission : Options)
    {r : Routine} {j : Json}
    (hends : ∀ c, (freeze routines types options).call r = .ok c →
      (Fixture.messageSample (Fixture.sampler (freeze routines types options) emission r c) 0
        c.request).isSome)
    (hdocument : Fixture.document (freeze routines types options) emission r = .ok j) :
    ∃ c members sample, (freeze routines types options).call r = .ok c ∧ j = .obj members ∧
      members.lookup "request" = some sample ∧
      MessageForm (freeze routines types options).layout.messages
        (min 2 (r.tableCap emission.maxTableSize)) c.request sample := by
  obtain ⟨c, hcall, hdocument⟩ := bind_eq_ok.mp hdocument
  obtain ⟨sample, hrequest, hdocument⟩ := bind_eq_ok.mp hdocument
  obtain rfl := Except.ok.inj hdocument
  have hsample : Fixture.messageSample
      (Fixture.sampler (freeze routines types options) emission r c) 0 c.request =
        some (.ok sample) := by
    obtain ⟨outcome, houtcome⟩ := Option.isSome_iff_exists.mp (hends c hcall)
    rw [Fixture.request, houtcome, Option.getD_some] at hrequest
    rw [houtcome, hrequest]
  have hproper : c.request.Proper := by
    rw [call] at hcall
    split at hcall
    · rename_i c' hlayout
      obtain rfl := Except.ok.inj hcall
      exact Layout.proper_of_call? hlayout
    · cases hcall
  have hmessages : ∀ name t, (freeze routines types options).layout.messages.get? name = some t →
      t.Proper := fun name t => Layout.proper_of_message?
  exact ⟨c, _, sample, hcall, rfl, rfl, Fixture.messageSample_form hmessages hproper hsample⟩

/-- A record and a list of it. -/
def sampleLines : TypeTable :=
  .ofList
    [.record ⟨"APP", "PKG", "LINE"⟩ [⟨"SKU", .scalar ⟨.text, "VARCHAR2", 0, 0, 2, ""⟩⟩],
     .collection ⟨"APP", "PKG", "LINES"⟩ (.composite ⟨.record, ⟨"APP", "PKG", "LINE"⟩⟩) .dense]

/-- A routine that takes lines, a single line, the first bytes of a picture, a day and an amount. -/
def sampleSave : Routine :=
  { Routine.named "APP" "PKG" "SAVE" with
      arguments :=
        [⟨"P_LINES", .composite ⟨.collection, ⟨"APP", "PKG", "LINES"⟩⟩, .input, 1⟩,
         ⟨"P_FIRST", .composite ⟨.record, ⟨"APP", "PKG", "LINE"⟩⟩, .input, 2⟩,
         ⟨"P_PICTURE", .scalar ⟨.raw, "RAW", 0, 0, 2, ""⟩, .input, 3⟩,
         ⟨"P_DAY", .scalar ⟨.dateTime, "DATE", 0, 0, 0, ""⟩, .both, 4⟩,
         ⟨"P_AMOUNT", .scalar ⟨.number, "NUMBER", 5, 2, 0, ""⟩, .input, 5⟩] }

theorem freeze_sampleSave : freeze [sampleSave] sampleLines {} =
    ⟨[sampleSave], sampleLines, Layout.build [sampleSave] sampleLines {}⟩ := by
  have hroot : ∀ n ∈ sampleLines.definitions.keys,
      n ∈ TypeTable.roots ([sampleSave].flatMap Routine.dataTypes) := by decide
  have hkept : sampleLines.reachableFrom ([sampleSave].flatMap Routine.dataTypes) = sampleLines :=
    TypeTable.reachableFrom_eq_self (TypeTable.proper_empty.insertAll _) fun n hn =>
      ⟨n, hroot n (SortedMap.contains_iff_mem_keys.mp hn), .refl⟩
  rw [freeze, hkept]

theorem fixture_conforms_sample :
    (∀ c, (freeze [sampleSave] sampleLines {}).call sampleSave = .ok c →
      (Fixture.messageSample (Fixture.sampler (freeze [sampleSave] sampleLines {}) {} sampleSave c) 0
        c.request).isSome) ∧
      ∃ j, Fixture.document (freeze [sampleSave] sampleLines {}) {} sampleSave = .ok j ∧
        ∃ c members sample, (freeze [sampleSave] sampleLines {}).call sampleSave = .ok c ∧
          j = .obj members ∧ members.lookup "request" = some sample ∧
          MessageForm (freeze [sampleSave] sampleLines {}).layout.messages
            (min 2 (sampleSave.tableCap 1000)) c.request sample := by
  have hcall : (freeze [sampleSave] sampleLines {}).call sampleSave =
      .ok (Layout.call sampleSave sampleLines {}) := by
    rw [freeze_sampleSave]
    rfl
  have hsample : Fixture.messageSample (Fixture.sampler (freeze [sampleSave] sampleLines {}) {}
      sampleSave (Layout.call sampleSave sampleLines {})) 0
      (Layout.call sampleSave sampleLines {}).request =
        some (.ok (.obj
          [("p_amount", .decimal "5.55"), ("p_day", .str "2020-01-05T12:04:00"),
            ("p_first", .obj [("sku", .str "sk")]),
            ("p_lines", .arr [.obj [("sku", .str "sk")], .obj [("sku", .str "sk")]]),
            ("p_picture", .arr [.nat 3, .nat 4])])) := by
    rw [freeze_sampleSave]
    exact Fixture.messageSample_of_shallow rfl
  have hends : ∀ c, (freeze [sampleSave] sampleLines {}).call sampleSave = .ok c →
      (Fixture.messageSample (Fixture.sampler (freeze [sampleSave] sampleLines {}) {} sampleSave c) 0
        c.request).isSome := by
    intro c hc
    rw [hcall] at hc
    obtain rfl := Except.ok.inj hc
    rw [hsample]
    rfl
  obtain ⟨j, hdocument⟩ : ∃ j,
      Fixture.document (freeze [sampleSave] sampleLines {}) {} sampleSave = .ok j := by
    rw [Fixture.document, hcall]
    simp only [bind, Except.bind, Fixture.request, hsample, Option.getD_some]
    exact ⟨_, rfl⟩
  exact ⟨hends, j, hdocument, fixture_conforms [sampleSave] sampleLines {} {} hends hdocument⟩

end Model

end RoutineBridge
