import Mathlib.Data.List.Nodup
import Mathlib.Data.List.Perm.Subperm
import RoutineBridge.Model
import RoutineBridge.Proofs.Extensionality

/-!
# The parameters of a call

The arguments of a routine and its result, each with the one field name and the one number it has
(`Layout.parameters`). Both messages of a call are cut out of this list: what goes in makes the
request, what comes out makes the response (`map_bare_request`, `map_bare_response`). No two
parameters have the same field, since a wish that is taken gets underscores until it is not
(`freshName_notMem`).
-/

namespace RoutineBridge

/-! ## Fresh names -/

/-- The name with so many underscores behind it. -/
def underscored (name : String) (n : Nat) : String :=
  String.ofList (name.toList ++ List.replicate n '_')

theorem underscored_zero (name : String) : underscored name 0 = name := by
  simp [underscored]

theorem underscored_underscore (name : String) (n : Nat) :
    underscored (name ++ "_") n = underscored name (n + 1) := by
  rw [underscored, underscored, String.toList_append, List.append_assoc]
  rfl

theorem underscored_injective (name : String) : Function.Injective (underscored name) := by
  intro m n h
  have hlists := List.append_cancel_left (String.ofList_injective h)
  simpa using congrArg List.length hlists

/-- If the search ends with a name that is taken, all the names it has tried are taken. -/
theorem underscored_mem_of_freshName_mem {taken : List String} {tries : Nat} {name : String}
    (h : freshName taken tries name ∈ taken) : ∀ n ≤ tries, underscored name n ∈ taken := by
  induction tries generalizing name with
  | zero =>
      intro n hn
      obtain rfl := Nat.le_zero.mp hn
      rwa [underscored_zero]
  | succ tries ih =>
      rw [freshName] at h
      split at h
      · rename_i htaken
        intro n hn
        cases n with
        | zero =>
            rw [underscored_zero]
            exact List.contains_iff_mem.mp htaken
        | succ n =>
            rw [← underscored_underscore]
            exact ih h n (Nat.le_of_succ_le_succ hn)
      · rename_i hfree
        exact absurd (List.contains_iff_mem.mpr h) hfree

/-- There are more names to try than names that are taken. -/
theorem freshName_notMem (taken : List String) (wish : String) :
    freshName taken taken.length wish ∉ taken := by
  intro hmem
  have htried : (List.range (taken.length + 1)).map (underscored wish) ⊆ taken := by
    intro name hname
    obtain ⟨n, hn, rfl⟩ := List.mem_map.mp hname
    exact underscored_mem_of_freshName_mem hmem n (Nat.le_of_lt_succ (List.mem_range.mp hn))
  have hnodup : ((List.range (taken.length + 1)).map (underscored wish)).Nodup :=
    List.nodup_range.map (underscored_injective wish)
  have hlength := (hnodup.subperm htried).length_le
  rw [List.length_map, List.length_range] at hlength
  omega

@[simp]
theorem length_distinctNames (taken wishes : List String) :
    (distinctNames taken wishes).length = wishes.length := by
  induction wishes generalizing taken with
  | nil => rfl
  | cons wish wishes ih => rw [distinctNames, List.length_cons, List.length_cons, ih]

theorem notMem_of_mem_distinctNames {taken wishes : List String} :
    ∀ name ∈ distinctNames taken wishes, name ∉ taken := by
  induction wishes generalizing taken with
  | nil => simp [distinctNames]
  | cons wish wishes ih =>
      rw [distinctNames]
      refine List.forall_mem_cons.mpr ⟨freshName_notMem taken wish, fun name hname hmem => ?_⟩
      exact ih name hname (List.mem_cons_of_mem _ hmem)

theorem nodup_distinctNames (taken wishes : List String) : (distinctNames taken wishes).Nodup := by
  induction wishes generalizing taken with
  | nil => exact .nil
  | cons wish wishes ih =>
      rw [distinctNames]
      refine List.nodup_cons.mpr ⟨fun hmem => ?_, ih _⟩
      exact notMem_of_mem_distinctNames _ hmem List.mem_cons_self

example : distinctNames [] ["p_id", "p_id", "ret", "ret"] = ["p_id", "p_id_", "ret", "ret_"] := by
  decide

/-! ## Parameters -/

/-- The arguments are numbered from one on. -/
def Routine.Numbered (r : Routine) : Prop :=
  r.arguments.map (·.position) = List.range' 1 r.arguments.length

instance (r : Routine) : Decidable r.Numbered :=
  inferInstanceAs (Decidable (r.arguments.map (·.position) = List.range' 1 r.arguments.length))

/-- An argument or a result as the messages of a call have it. -/
structure Parameter where
  source : Source
  field : String
  ordinal : Nat
  direction : Direction
  dataType : DataType
deriving DecidableEq

/-- The value comes from the argument. -/
def Source.ofArgument (a : Argument) : Source := .parameter a.name a.position a.direction

namespace Parameter

/-- The name in the database; a result has none. -/
def name (x : Parameter) : String :=
  match x.source with
  | .parameter name _ _ => name
  | _ => ""

def ofArgument (field : String) (a : Argument) : Parameter :=
  ⟨.ofArgument a, field, a.position, a.direction, a.dataType⟩

/-- The result, behind so many arguments. -/
def ofResult (arguments : Nat) (field : String) (a : Attribute) : Parameter :=
  ⟨.result, field, arguments + 1, .output, a.dataType⟩

/-- The slot of the parameter, without documentation. -/
def slot (types : TypeTable) (options : Options) (x : Parameter) : Slot where
  field := x.field
  ordinal := x.ordinal
  source := x.source
  dataType := x.dataType
  shape := .ofDataType types options.numberAsString x.dataType
  doc := none

end Parameter

/-- The slot without its documentation. -/
def Slot.bare (s : Slot) : Slot := { s with doc := none }

/-- A search that does not look at the documentation finds the same field without it. -/
theorem map_field_find?_bare {p : Slot → Bool} (hp : ∀ s, p s.bare = p s) (slots : List Slot) :
    ((slots.map Slot.bare).find? p).map (·.field) = (slots.find? p).map (·.field) := by
  rw [List.find?_map, Option.map_map, show p ∘ Slot.bare = p from funext hp]
  rfl

namespace Layout

variable (r : Routine) (types : TypeTable) (options : Options)

/-- The arguments of a routine with their fields. -/
def argumentParameters : List Parameter :=
  ((fieldNames r).zip r.arguments).map fun (field, a) => .ofArgument field a

/-- The result of a routine, if it has one, with its field. -/
def resultParameters : List Parameter :=
  (((fieldNames r).drop r.arguments.length).zip r.returns.toList).map fun (field, a) =>
    .ofResult r.arguments.length field a

/-- The arguments of a routine and its result. -/
def parameters : List Parameter := argumentParameters r ++ resultParameters r

/-- What goes in. -/
def inputParameters : List Parameter := (parameters r).filter (·.direction.isInput)

/-- What comes out. -/
def outputParameters : List Parameter := (parameters r).filter (·.direction.isOutput)

@[simp]
theorem length_fieldNames :
    (fieldNames r).length = r.arguments.length + r.returns.toList.length := by
  simp [fieldNames]

theorem map_field_parameters : (parameters r).map (·.field) = fieldNames r := by
  have harguments :
      (argumentParameters r).map (·.field) = (fieldNames r).take r.arguments.length := by
    rw [argumentParameters, List.map_map, List.zip_eq_zip_take_min, length_fieldNames,
      Nat.min_eq_right (Nat.le_add_right _ _), List.take_length]
    exact List.map_fst_zip (by simp)
  have hresults : (resultParameters r).map (·.field) = (fieldNames r).drop r.arguments.length := by
    rw [resultParameters, List.map_map]
    exact List.map_fst_zip (by simp)
  rw [parameters, List.map_append, harguments, hresults, List.take_append_drop]

/-- **No two parameters of a routine share a field.** -/
theorem nodup_field_parameters : ((parameters r).map (·.field)).Nodup := by
  rw [map_field_parameters]
  exact nodup_distinctNames _ _

theorem length_parameters :
    (parameters r).length = r.arguments.length + r.returns.toList.length := by
  rw [← length_fieldNames, ← map_field_parameters, List.length_map]

theorem direction_resultParameters : ∀ x ∈ resultParameters r, x.direction = .output := by
  intro x hx
  obtain ⟨⟨field, a⟩, -, rfl⟩ := List.mem_map.mp hx
  rfl

theorem filter_isInput_resultParameters :
    (resultParameters r).filter (·.direction.isInput) = [] := by
  rw [List.filter_eq_nil_iff]
  intro x hx
  rw [direction_resultParameters r x hx]
  exact Bool.false_ne_true

theorem filter_isOutput_resultParameters :
    (resultParameters r).filter (·.direction.isOutput) = resultParameters r := by
  rw [List.filter_eq_self]
  intro x hx
  rw [direction_resultParameters r x hx]
  rfl

/-- **The request has the parameters that go in.** -/
theorem map_bare_request :
    (call r types options).request.slots.map Slot.bare =
      (inputParameters r).map (Parameter.slot types options) := by
  rw [inputParameters, parameters, List.filter_append, filter_isInput_resultParameters,
    List.append_nil, argumentParameters, List.filter_map, List.map_map, call, List.map_map]
  rfl

/-- **The response has the parameters that come out.** -/
theorem map_bare_response :
    (call r types options).response.slots.map Slot.bare =
      (outputParameters r).map (Parameter.slot types options) := by
  rw [outputParameters, parameters, List.filter_append, filter_isOutput_resultParameters,
    List.map_append, argumentParameters, List.filter_map, List.map_map, resultParameters,
    List.map_map, call, List.map_append, List.map_map, List.map_map]
  rfl

section Slots

variable {r : Routine} {types : TypeTable} {options : Options}

/-- What slots show of parameters they show without documentation. -/
theorem map_slots_of_bare {β : Type} {f : Slot → β} {g : Parameter → β} {slots : List Slot}
    {xs : List Parameter} (h : slots.map Slot.bare = xs.map (Parameter.slot types options))
    (hf : ∀ s, f s.bare = f s) (hg : ∀ x, f (Parameter.slot types options x) = g x) :
    slots.map f = xs.map g := by
  have hbare := congrArg (List.map f) h
  rw [List.map_map, List.map_map] at hbare
  rwa [← funext hf, ← funext hg]

/-- Every slot of a call is one of a parameter. -/
theorem exists_parameter {s : Slot}
    (hs : s ∈ (call r types options).request.slots ++ (call r types options).response.slots) :
    ∃ x ∈ parameters r, s.bare = x.slot types options := by
  have hslots : ∀ {slots : List Slot} {xs : List Parameter},
      slots.map Slot.bare = xs.map (Parameter.slot types options) → (∀ x ∈ xs, x ∈ parameters r) →
      s ∈ slots → ∃ x ∈ parameters r, s.bare = x.slot types options := by
    intro slots xs h hxs hs
    obtain ⟨x, hx, heq⟩ := List.mem_map.mp (h ▸ List.mem_map_of_mem (f := Slot.bare) hs)
    exact ⟨x, hxs x hx, heq.symm⟩
  rcases List.mem_append.mp hs with hs | hs
  · exact hslots (map_bare_request r types options) (fun _ hx => (List.mem_filter.mp hx).1) hs
  · exact hslots (map_bare_response r types options) (fun _ hx => (List.mem_filter.mp hx).1) hs

end Slots

/-! ### Parameters and arguments -/

section Correspondence

variable {β : Type} {f : Parameter → β}

/-- What is true of parameters by their arguments, of the arguments that go some way. -/
theorem map_filter_argumentParameters {g : Argument → β}
    (hf : ∀ field a, f (.ofArgument field a) = g a) (p : Direction → Bool) :
    ((argumentParameters r).filter (p ·.direction)).map f =
      (r.arguments.filter (p ·.direction)).map g := by
  have hzip : ((fieldNames r).zip r.arguments).map (·.2) = r.arguments :=
    List.map_snd_zip (by simp)
  conv_rhs => rw [← hzip, List.filter_map, List.map_map]
  rw [argumentParameters, List.filter_map, List.map_map]
  exact List.map_congr_left fun x _ => hf x.1 x.2

theorem map_argumentParameters {g : Argument → β} (hf : ∀ field a, f (.ofArgument field a) = g a) :
    (argumentParameters r).map f = r.arguments.map g := by
  simpa using map_filter_argumentParameters r hf fun _ => true

theorem map_resultParameters {g : Attribute → β}
    (hf : ∀ field a, f (.ofResult r.arguments.length field a) = g a) :
    (resultParameters r).map f = r.returns.toList.map g := by
  have hzip : (((fieldNames r).drop r.arguments.length).zip r.returns.toList).map (·.2) =
      r.returns.toList := List.map_snd_zip (by simp)
  conv_rhs => rw [← hzip, List.map_map]
  rw [resultParameters, List.map_map]
  exact List.map_congr_left fun x _ => hf x.1 x.2

end Correspondence

variable {r} in
/-- **Parameters are numbered from one on**, the result last. -/
theorem map_ordinal_parameters (h : r.Numbered) :
    (parameters r).map (·.ordinal) = List.range' 1 (parameters r).length := by
  rw [length_parameters, parameters, List.map_append,
    map_argumentParameters (g := (·.position)) r fun _ _ => rfl,
    map_resultParameters (g := fun _ => r.arguments.length + 1) r fun _ _ => rfl, h,
    ← List.range'_append_1]
  cases r.returns with
  | none => rfl
  | some a => simp [Nat.add_comm]

variable {r} in
theorem eq_of_ordinal_eq (h : r.Numbered) {x y : Parameter} (hx : x ∈ parameters r)
    (hy : y ∈ parameters r) (heq : x.ordinal = y.ordinal) : x = y := by
  have hnodup : ((parameters r).map (·.ordinal)).Nodup := by
    rw [map_ordinal_parameters h]
    exact List.nodup_range'
  exact List.inj_on_of_nodup_map hnodup hx hy heq

theorem map_dataType_parameters : (parameters r).map (·.dataType) = r.dataTypes := by
  rw [parameters, List.map_append, map_argumentParameters r fun _ _ => rfl,
    map_resultParameters r fun _ _ => rfl]
  rfl

theorem map_source_inputParameters :
    (inputParameters r).map (·.source) = r.inputs.map .ofArgument := by
  rw [inputParameters, parameters, List.filter_append, filter_isInput_resultParameters,
    List.append_nil, map_filter_argumentParameters (g := .ofArgument) r fun _ _ => rfl]
  rfl

theorem map_source_outputParameters :
    (outputParameters r).map (·.source) =
      r.outputs.map .ofArgument ++ r.returns.toList.map fun _ => .result := by
  rw [outputParameters, parameters, List.filter_append, filter_isOutput_resultParameters,
    List.map_append, map_filter_argumentParameters (g := .ofArgument) r fun _ _ => rfl,
    map_resultParameters (g := fun _ => .result) r fun _ _ => rfl]
  rfl

end Layout

/-- The messages are those of the routine: its own name, and its own parameters on both sides. -/
structure CallLayout.IsFor (c : CallLayout) (r : Routine) : Prop where
  routine : c.routine = r.qualifiedName
  request : c.request.slots.map (·.source) = r.inputs.map .ofArgument
  response : c.response.slots.map (·.source) =
    r.outputs.map .ofArgument ++ r.returns.toList.map fun _ => .result

theorem Layout.isFor_call (r : Routine) (types : TypeTable) (options : Options) :
    (call r types options).IsFor r where
  routine := rfl
  request := by
    rw [← map_source_inputParameters]
    exact map_slots_of_bare (map_bare_request r types options) (fun _ => rfl) fun _ => rfl
  response := by
    rw [← map_source_outputParameters]
    exact map_slots_of_bare (map_bare_response r types options) (fun _ => rfl) fun _ => rfl

variable {routines : List Routine} {types : TypeTable} {options : Options}

/-- Every routine finds the messages that are made from it if no two share a name. -/
theorem Model.call?_freeze (hnodup : (routines.map (·.qualifiedName)).Nodup) {r : Routine}
    (hr : r ∈ routines) :
    (freeze routines types options).layout.call? r =
      some (Layout.call r (freeze routines types options).types options) := by
  refine (SortedMap.get?_ofList ?_).mpr (List.mem_map.mpr ⟨r, hr, rfl⟩)
  rwa [List.map_map]

end RoutineBridge
