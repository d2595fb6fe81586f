import RoutineBridge.Proofs.Messages

/-!
# Field names and numbers

The catalog may name an argument or an attribute by any text. What a field wishes for is made from
it in three steps: characters are replaced, something goes in front of a digit, and something behind
a reserved word (`Identifier.isSnake_field`). The underscores that tell fields apart leave an
identifier one (`Identifier.IsSnake.append_underscore`), so whatever the names are, every field is
an identifier. Main statement: in every message the fields are identifiers that differ, and the
numbers increase from one on (`Layout.messages_regular`).
-/

namespace RoutineBridge

/-! ## Identifiers in snake case -/

namespace Identifier

/-- Lower case letters, digits and underscores, the first of which is no digit, that are no reserved
word. -/
structure IsSnake (name : String) : Prop where
  chars : ∀ c ∈ name.toList, c.isLower ∨ c.isDigit ∨ c = '_'
  start : name.toList.head?.any (!·.isDigit)
  free : name ∉ ["crate", "self", "super", "_"]

theorem classes_snakeChar (c : Char) :
    (snakeChar c).isLower ∨ (snakeChar c).isDigit ∨ snakeChar c = '_' := by
  rw [snakeChar]
  split
  · rename_i halnum
    exact Text.of_isAlphanum
      (p := fun c => c.isAlphanum → c.toLower.isLower ∨ c.toLower.isDigit ∨ c.toLower = '_')
      (by decide) halnum halnum
  · exact .inr (.inr rfl)

theorem mem_of_mem_startIdent {cs : List Char} {c : Char} (h : c ∈ startIdent cs) :
    c ∈ cs ∨ c ∈ ['f', '_'] := by
  cases cs with
  | nil => exact .inr h
  | cons d ds =>
      rw [startIdent] at h
      split at h
      · simp only [List.mem_cons] at h ⊢
        tauto
      · exact .inl h

theorem head?_startIdent (cs : List Char) : (startIdent cs).head?.any (!·.isDigit) := by
  cases cs with
  | nil => rfl
  | cons d ds =>
      rw [startIdent]
      split
      · rfl
      · rename_i hdigit
        simpa using hdigit

/-- No reserved word becomes another one by an underscore. -/
theorem avoidReserved_notMem (cs : List Char) : avoidReserved cs ∉ reserved := by
  have hwords : ∀ word ∈ reserved, word ++ ['_'] ∉ reserved := by decide
  rw [avoidReserved]
  split
  · rename_i hreserved
    exact hwords cs (List.contains_iff_mem.mp hreserved)
  · rename_i hfree
    exact fun hmem => hfree (List.contains_iff_mem.mpr hmem)

/-- A text of the right characters is made an identifier by its last step. -/
theorem isSnake_avoidReserved {cs : List Char} (hchars : ∀ c ∈ cs, c.isLower ∨ c.isDigit ∨ c = '_')
    (hstart : cs.head?.any (!·.isDigit)) : IsSnake (String.ofList (avoidReserved cs)) where
  chars := by
    rw [String.toList_ofList, avoidReserved]
    split
    · simpa [or_imp, forall_and] using hchars
    · exact hchars
  start := by
    rw [String.toList_ofList, avoidReserved]
    split
    · cases cs with
      | nil => cases hstart
      | cons c cs => exact hstart
    · exact hstart
  free hmem := by
    have hreserved := List.mem_map_of_mem (f := String.toList) hmem
    rw [String.toList_ofList] at hreserved
    exact avoidReserved_notMem cs hreserved

/-- **What a field wishes for is an identifier**, whatever the name is. -/
theorem isSnake_field (name : String) : IsSnake (field name) := by
  have hmarks : ∀ c ∈ "_hidden".toList ++ ['f', '_'], c.isLower ∨ c.isDigit ∨ c = '_' := by simp
  refine isSnake_avoidReserved (fun c hc => ?_) (head?_startIdent _)
  rcases mem_of_mem_startIdent hc with hc | hc
  · rcases List.mem_append.mp hc with hc | hc
    · obtain ⟨d, -, rfl⟩ := List.mem_map.mp hc
      exact classes_snakeChar d
    · split at hc
      · exact hmarks c (List.mem_append_left _ hc)
      · cases hc
  · exact hmarks c (List.mem_append_right _ hc)

/-- Of the reserved words only the underscore ends with one, and nothing stands in front of it. -/
theorem IsSnake.append_underscore {name : String} (h : IsSnake name) : IsSnake (name ++ "_") := by
  obtain ⟨hchars, hstart, -⟩ := h
  obtain ⟨c, cs, hname⟩ : ∃ c cs, name.toList = c :: cs := by
    cases hcs : name.toList with
    | nil => rw [hcs] at hstart; cases hstart
    | cons c cs => exact ⟨c, cs, rfl⟩
  have hlist : (name ++ "_").toList = c :: (cs ++ ['_']) := by
    rw [String.toList_append, hname]
    rfl
  refine ⟨?_, ?_, fun hmem => ?_⟩
  · rw [String.toList_append]
    simpa [or_imp, forall_and] using hchars
  · rw [hlist]
    rw [hname] at hstart
    exact hstart
  · have hwords : ∀ word ∈ ["crate", "self", "super", "_"],
        word.toList.getLast? = some '_' → word.toList.length = 1 := by decide
    have hlength := hwords _ hmem (by rw [hlist, ← List.cons_append, List.getLast?_concat])
    rw [hlist] at hlength
    simp at hlength

end Identifier

open Identifier

theorem isSnake_freshName {wish : String} (h : IsSnake wish) (taken : List String) (tries : Nat) :
    IsSnake (freshName taken tries wish) := by
  induction tries generalizing wish with
  | zero => exact h
  | succ tries ih =>
      rw [freshName]
      split
      · exact ih h.append_underscore
      · exact h

theorem isSnake_distinctNames {wishes : List String} (h : ∀ wish ∈ wishes, IsSnake wish)
    (taken : List String) : ∀ name ∈ distinctNames taken wishes, IsSnake name := by
  induction wishes generalizing taken with
  | nil => simp [distinctNames]
  | cons wish wishes ih =>
      obtain ⟨hwish, hwishes⟩ := List.forall_mem_cons.mp h
      rw [distinctNames]
      exact List.forall_mem_cons.mpr ⟨isSnake_freshName hwish taken _, ih hwishes _⟩

/-! ## Messages -/

/-- The fields of the message are identifiers that differ, and its numbers increase from one on. -/
structure MessageTable.Regular (t : MessageTable) : Prop where
  fields : (t.slots.map (·.field)).Nodup
  snake : ∀ s ∈ t.slots, IsSnake s.field
  increasing : (t.slots.map (·.ordinal)).Pairwise (· < ·)
  positive : ∀ s ∈ t.slots, 1 ≤ s.ordinal

/-- The messages of the routine are regular, and fit each other and the routine. -/
structure CallLayout.Regular (c : CallLayout) (r : Routine) : Prop where
  request : c.request.Regular
  response : c.response.Regular
  /-- No number is higher than that of a result. -/
  bounded : ∀ s ∈ c.request.slots ++ c.response.slots, s.ordinal ≤ r.arguments.length + 1
  /-- An argument that goes both ways is in both messages, and has one field and one number. -/
  both : ∀ a ∈ r.arguments, a.direction = .both → ∃ field, ∀ t ∈ [c.request, c.response],
    (∃ s ∈ t.slots, s.source = .ofArgument a) ∧
      ∀ s ∈ t.slots, s.source = .ofArgument a → s.field = field ∧ s.ordinal = a.position
  /-- The result comes last. -/
  result : ∀ a, r.returns = some a → ∃ s, c.response.slots.getLast? = some s ∧
    s.source = .result ∧ s.dataType = a.dataType ∧ s.ordinal = r.arguments.length + 1

namespace Layout

variable {r : Routine} {types : TypeTable} {options : Options}

theorem isSnake_fieldNames (r : Routine) : ∀ name ∈ fieldNames r, IsSnake name := by
  refine isSnake_distinctNames (fun wish hwish => ?_) []
  rcases List.mem_append.mp hwish with hwish | hwish
  · obtain ⟨a, -, rfl⟩ := List.mem_map.mp hwish
    exact isSnake_field a.name
  · obtain ⟨a, -, rfl⟩ := List.mem_map.mp hwish
    exact ⟨by simp [resultField], by decide, by decide⟩

/-- Some of the parameters of a routine, in order, make a regular message. -/
theorem regular_of_parameters (h : r.Numbered) {t : MessageTable} {xs : List Parameter}
    (hslots : t.slots.map Slot.bare = xs.map (Parameter.slot types options))
    (hsub : xs.Sublist (parameters r)) : t.Regular := by
  have hfields : t.slots.map (·.field) = xs.map (·.field) :=
    map_slots_of_bare hslots (fun _ => rfl) fun _ => rfl
  have hnumbers : t.slots.map (·.ordinal) = xs.map (·.ordinal) :=
    map_slots_of_bare hslots (fun _ => rfl) fun _ => rfl
  have hordinals := map_ordinal_parameters h
  refine ⟨?_, fun s hs => ?_, ?_, fun s hs => ?_⟩
  · rw [hfields]
    exact (nodup_field_parameters r).sublist (hsub.map _)
  · have hmem := List.mem_map_of_mem (f := (·.field)) hs
    rw [hfields] at hmem
    refine isSnake_fieldNames r _ ?_
    rw [← map_field_parameters]
    exact (hsub.map _).subset hmem
  · rw [hnumbers]
    refine List.Pairwise.sublist (hsub.map (·.ordinal)) ?_
    rw [hordinals]
    exact List.pairwise_lt_range'
  · have hmem := List.mem_map_of_mem (f := (·.ordinal)) hs
    rw [hnumbers] at hmem
    have hrange := (hsub.map (·.ordinal)).subset hmem
    rw [hordinals] at hrange
    exact (List.mem_range'_1.mp hrange).1

theorem regular_request (h : r.Numbered) (types : TypeTable) (options : Options) :
    (call r types options).request.Regular :=
  regular_of_parameters h (map_bare_request r types options) List.filter_sublist

theorem regular_response (h : r.Numbered) (types : TypeTable) (options : Options) :
    (call r types options).response.Regular :=
  regular_of_parameters h (map_bare_response r types options) List.filter_sublist

theorem bounded_call (h : r.Numbered) {s : Slot}
    (hs : s ∈ (call r types options).request.slots ++ (call r types options).response.slots) :
    s.ordinal ≤ r.arguments.length + 1 := by
  obtain ⟨x, hx, hslot⟩ := exists_parameter hs
  have hordinal : s.ordinal = x.ordinal := congrArg Slot.ordinal hslot
  have hrange := List.mem_map_of_mem (f := (·.ordinal)) hx
  rw [map_ordinal_parameters h, length_parameters, List.mem_range'_1] at hrange
  have hresults : r.returns.toList.length ≤ 1 := by cases r.returns <;> simp
  omega

/-- **An argument that goes both ways** is one parameter, which both messages have. -/
theorem both_call (h : r.Numbered) {a : Argument} (ha : a ∈ r.arguments)
    (hboth : a.direction = .both) :
    ∃ field, ∀ t ∈ [(call r types options).request, (call r types options).response],
      (∃ s ∈ t.slots, s.source = .ofArgument a) ∧
        ∀ s ∈ t.slots, s.source = .ofArgument a → s.field = field ∧ s.ordinal = a.position := by
  have hsources := map_argumentParameters (f := (·.source)) (g := .ofArgument) r fun _ _ => rfl
  obtain ⟨x, hx, hsource⟩ := List.mem_map.mp (hsources ▸ List.mem_map_of_mem ha)
  obtain ⟨⟨field, a'⟩, -, rfl⟩ := List.mem_map.mp hx
  obtain ⟨hname, hposition, hdirection⟩ := Source.parameter.inj hsource
  have hparameter := List.mem_append_left (resultParameters r) hx
  have hslots : ∀ {slots : List Slot} {xs : List Parameter},
      slots.map Slot.bare = xs.map (Parameter.slot types options) → .ofArgument field a' ∈ xs →
      ∃ s ∈ slots, s.source = .ofArgument a := by
    intro slots xs hbare hmem
    obtain ⟨s, hs, heq⟩ := List.mem_map.mp (hbare ▸ List.mem_map_of_mem hmem)
    exact ⟨s, hs, (congrArg Slot.source heq).trans hsource⟩
  have hunique : ∀ s ∈ (call r types options).request.slots ++
      (call r types options).response.slots, s.source = .ofArgument a →
        s.field = field ∧ s.ordinal = a.position := by
    intro s hs hsame
    obtain ⟨y, hy, hslot⟩ := exists_parameter hs
    have hysource : y.source = .ofArgument a := (congrArg Slot.source hslot).symm.trans hsame
    -- the position tells arguments apart, and the result has none
    obtain rfl : y = .ofArgument field a' := by
      refine eq_of_ordinal_eq h hy hparameter ?_
      rcases List.mem_append.mp hy with hy | hy
      · obtain ⟨⟨field', b⟩, -, rfl⟩ := List.mem_map.mp hy
        exact (Source.parameter.inj hysource).2.1.trans hposition.symm
      · obtain ⟨⟨field', b⟩, -, rfl⟩ := List.mem_map.mp hy
        cases hysource
    exact ⟨congrArg Slot.field hslot, (congrArg Slot.ordinal hslot).trans hposition⟩
  refine ⟨field, List.forall_mem_cons.mpr ⟨?_, List.forall_mem_singleton.mpr ?_⟩⟩
  · refine ⟨hslots (map_bare_request r types options) (List.mem_filter.mpr ⟨hparameter, ?_⟩),
      fun s hs => hunique s (List.mem_append_left _ hs)⟩
    exact (congrArg Direction.isInput (hdirection.trans hboth) :)
  · refine ⟨hslots (map_bare_response r types options) (List.mem_filter.mpr ⟨hparameter, ?_⟩),
      fun s hs => hunique s (List.mem_append_right _ hs)⟩
    exact (congrArg Direction.isOutput (hdirection.trans hboth) :)

/-- **The result comes last**, behind all arguments. -/
theorem result_call {a : Attribute} (ha : r.returns = some a) :
    ∃ s, (call r types options).response.slots.getLast? = some s ∧
      s.source = .result ∧ s.dataType = a.dataType ∧ s.ordinal = r.arguments.length + 1 := by
  have hlength : ((fieldNames r).drop r.arguments.length).length = 1 := by
    rw [List.length_drop, length_fieldNames, ha]
    simp
  obtain ⟨field, hfield⟩ := List.length_eq_one_iff.mp hlength
  refine ⟨resultSlot r types options field a, ?_, rfl, rfl, rfl⟩
  simp only [call, hfield, ha, Option.toList_some, List.zip_cons_cons, List.zip_nil_right,
    List.map_cons, List.map_nil, List.getLast?_concat]

theorem map_ordinal_record (types : TypeTable) (options : Options) (n : TypeName)
    (attributes : List Attribute) :
    (record types options n attributes).slots.map (·.ordinal) =
      List.range' 1 attributes.length := by
  have hzip : ((distinctNames [] (attributes.map fun a => Identifier.field a.name)).zip
      attributes).length = attributes.length := by
    simp
  rw [record, List.map_map]
  refine List.ext_getElem (by simp) fun i hi hi' => ?_
  simp [attributeSlot, Nat.add_comm]

theorem regular_record (types : TypeTable) (options : Options) (n : TypeName)
    (attributes : List Attribute) : (record types options n attributes).Regular := by
  have hfields := map_field_record types options n attributes
  have hordinals := map_ordinal_record types options n attributes
  refine ⟨?_, fun s hs => ?_, ?_, fun s hs => ?_⟩
  · rw [hfields]
    exact nodup_distinctNames _ _
  · have hmem := List.mem_map_of_mem (f := (·.field)) hs
    rw [hfields] at hmem
    refine isSnake_distinctNames (fun wish hwish => ?_) [] _ hmem
    obtain ⟨a, -, rfl⟩ := List.mem_map.mp hwish
    exact isSnake_field a.name
  · rw [hordinals]
    exact List.pairwise_lt_range'
  · have hmem := List.mem_map_of_mem (f := (·.ordinal)) hs
    rw [hordinals] at hmem
    exact (List.mem_range'_1.mp hmem).1

/-- **Messages are regular**: the fields of a request, of a response and of a record are identifiers
that differ, and their numbers increase from one on. What goes both ways has one field and number,
and a result comes behind everything else. -/
theorem messages_regular (r : Routine) (h : r.Numbered) (types : TypeTable) (options : Options) :
    (call r types options).Regular r ∧
      ∀ (n : TypeName) (attributes : List Attribute),
        (record types options n attributes).Regular ∧
          (record types options n attributes).slots.map (·.ordinal) =
            List.range' 1 attributes.length := by
  refine ⟨⟨regular_request h types options, regular_response h types options, ?_, ?_, ?_⟩, ?_⟩
  · exact fun s => bounded_call h
  · exact fun a => both_call h
  · exact fun a => result_call
  · exact fun n attributes =>
      ⟨regular_record types options n attributes, map_ordinal_record types options n attributes⟩

/-- Arguments with reserved, hidden and missing names, that clash with each other, with underscores
that a clash has added, and with the result. -/
def sampleClashes : Routine :=
  let type : DataType := .scalar ⟨.number, "NUMBER", 9, 0, 0, ""⟩
  { Routine.named "APP" "PKG" "FIND" with
    arguments := [⟨"SELF", type, .both, 1⟩, ⟨"self", type, .input, 2⟩, ⟨"self__", type, .both, 3⟩,
      ⟨"", type, .output, 4⟩, ⟨"1#", type, .input, 5⟩, ⟨"Ret", type, .both, 6⟩]
    returns := some ⟨"", type⟩ }

theorem messages_regular_sample :
    sampleClashes.Numbered ∧ (call sampleClashes .empty {}).Regular sampleClashes ∧
      ∀ (n : TypeName) (attributes : List Attribute),
        (record .empty {} n attributes).Regular ∧
          (record .empty {} n attributes).slots.map (·.ordinal) =
            List.range' 1 attributes.length := by
  have hnumbered : sampleClashes.Numbered := by decide
  exact ⟨hnumbered, messages_regular sampleClashes hnumbered .empty {}⟩

example : fieldNames sampleClashes =
    ["self_", "self__", "self___", "f_", "f_1_hidden", "ret", "ret_"] := by
  decide

end Layout

end RoutineBridge
