import RoutineBridge.Proofs.Agreement
import RoutineBridge.Proofs.MessageNames

/-!
# Sampling

A sample request is made by going from message to message, by name and without a record of the
messages under way. Two things could go wrong. A name could lead nowhere: it never does in a model
whose routines are supported by its types, so whatever fails while artifacts are made, no message is
missing (`Model.freeze_resolves`). And messages could lead back to themselves: they only do if types
do, or if two types share a name and the message of the one is found in place of the other's
(`Model.freeze_sampling_ends`, `Model.sampling_endless_clash`).
-/

namespace RoutineBridge

open Relation

section Failures

variable {ε α β : Type} {x : Except ε α} {f : α → Except ε β} {xs : List α} {e : ε}

theorem bind_eq_error :
    x >>= f = .error e ↔ x = .error e ∨ ∃ a, x = .ok a ∧ f a = .error e := by
  cases x with
  | error e' => simp [bind, Except.bind]
  | ok a => simp [bind, Except.bind]

theorem map_eq_error {g : α → β} : x.map g = .error e ↔ x = .error e := by
  cases x with
  | error e' => simp [Except.map]
  | ok a => simp [Except.map]

theorem exists_of_mapM_eq_error (h : xs.mapM f = .error e) : ∃ x ∈ xs, f x = .error e := by
  induction xs with
  | nil => cases h
  | cons x xs ih =>
      rw [List.mapM_cons] at h
      rcases bind_eq_error.mp h with h | ⟨y, -, h⟩
      · exact ⟨x, List.mem_cons_self, h⟩
      · rcases bind_eq_error.mp h with h | ⟨ys, -, h⟩
        · obtain ⟨z, hz, h⟩ := ih h
          exact ⟨z, List.mem_cons_of_mem _ hz, h⟩
        · cases h

end Failures

namespace EmitError

/-- The layout lacks a message. -/
def isMissing : EmitError → Bool
  | missingLayout _ | missingMessage _ => true
  | fixture .. | sample .. => false

end EmitError

namespace Fixture

/-! ## One after the other -/

section Sequences

variable {α β : Type} {f g : α → Sampling β} {x : Sampling α} {xs : List α} {e : EmitError}

theorem run_bind_eq_error :
    (x >>= g).run = some (.error e) ↔
      x.run = some (.error e) ∨ ∃ a, x.run = some (.ok a) ∧ (g a).run = some (.error e) := by
  rw [ExceptT.run_bind]
  rcases hx : x.run with - | (e' | a)
  · simp
  · simp
  · simp

theorem exists_of_run_bind {result : Except EmitError β} (h : (x >>= g).run = some result) :
    ∃ first, x.run = some first := by
  rw [ExceptT.run_bind] at h
  cases hx : x.run with
  | none => simp [hx] at h
  | some first => exact ⟨first, rfl⟩

theorem isSome_bind (hx : x.run.isSome) (hg : ∀ a, (g a).run.isSome) : (x >>= g).run.isSome := by
  rw [ExceptT.run_bind]
  rcases h : x.run with - | (e' | a)
  · simp [h] at hx
  · simp
  · simpa using hg a

theorem exists_of_mapM_eq_error (h : (xs.mapM f).run = some (.error e)) :
    ∃ x ∈ xs, (f x).run = some (.error e) := by
  induction xs with
  | nil => cases h
  | cons x xs ih =>
      rw [List.mapM_cons] at h
      rcases run_bind_eq_error.mp h with h | ⟨a, -, h⟩
      · exact ⟨x, List.mem_cons_self, h⟩
      · rcases run_bind_eq_error.mp h with h | ⟨as, -, h⟩
        · obtain ⟨y, hy, h⟩ := ih h
          exact ⟨y, List.mem_cons_of_mem _ hy, h⟩
        · cases h

theorem isSome_mapM (h : ∀ x ∈ xs, (f x).run.isSome) : (xs.mapM f).run.isSome := by
  induction xs with
  | nil => rfl
  | cons x xs ih =>
      obtain ⟨hx, hxs⟩ := List.forall_mem_cons.mp h
      rw [List.mapM_cons]
      exact isSome_bind hx fun a => isSome_bind (ih hxs) fun as => rfl

end Sequences

/-! ## Failures -/

/-- Every message that the slots refer to is there. -/
def Resolves (messages : SortedMap String MessageTable) (slots : List Slot) : Prop :=
  ∀ s ∈ slots, ∀ name key, s.shape.element = .message name key →
    ∃ inner, messages.get? name = some inner

theorem scalarSample_error {routine field : String} {wire : Wire} {s : Scalar} {seed : Nat}
    {e : EmitError} (h : scalarSample routine field wire s seed = .error e) :
    e.isMissing = false := by
  unfold scalarSample at h
  split at h
  · dsimp only at h
    split at h
    · cases h
      rfl
    · split at h
      · cases h
      · cases h
        rfl
  · split at h <;> cases h

/-- What fails to be sampled is an element of some field. -/
theorem exists_element_of_error {p : Sampler} {inner : MessageSampling} {depth : Nat}
    {t : MessageTable} {e : EmitError} (h : fieldSamples p inner depth t = some (.error e)) :
    ∃ s ∈ t.slots, ∃ seed, elementSample p inner depth s seed = some (.error e) := by
  rcases run_bind_eq_error.mp h with hmember | ⟨members, -, hnone⟩
  · obtain ⟨s, hs, hmember⟩ := exists_of_mapM_eq_error hmember
    refine ⟨s, hs, ?_⟩
    rcases run_bind_eq_error.mp hmember with hfield | ⟨value, -, hnone⟩
    · unfold fieldSample at hfield
      dsimp only at hfield
      split at hfield
      · rcases run_bind_eq_error.mp hfield with hitem | ⟨items, -, hnone⟩
        · obtain ⟨i, -, hitem⟩ := exists_of_mapM_eq_error hitem
          exact ⟨_, hitem⟩
        · cases hnone
      · exact ⟨_, hfield⟩
    · cases hnone
  · cases hnone

/-- **Sampling misses no message** if every message that is referred to is there, whether or not the
messages lead back to themselves. -/
theorem messageSample_error {p : Sampler}
    (hmessages : ∀ name inner, p.messages.get? name = some inner →
      Resolves p.messages inner.slots)
    {depth : Nat} {t : MessageTable} (ht : Resolves p.messages t.slots) {e : EmitError}
    (h : messageSample p depth t = some (.error e)) : e.isMissing = false := by
  refine messageSample.partial_correctness p
    (fun _ t result => Resolves p.messages t.slots → ∀ e, result = .error e → e.isMissing = false)
    ?_ depth t _ h ht e rfl
  rintro sample ih depth t _ hsample ht e rfl
  obtain ⟨s, hs, seed, helement⟩ := exists_element_of_error hsample
  unfold elementSample at helement
  split at helement
  · exact scalarSample_error (Option.some.inj helement)
  · rename_i name key hmessage
    obtain ⟨inner, hget⟩ := ht s hs name key hmessage
    rw [hget] at helement
    exact ih (depth + 1) inner _ helement (hmessages name inner hget) e rfl

/-! ## Ends -/

/-- A sample of a message ends if samples of all messages it refers to do. -/
theorem isSome_messageSample {p : Sampler} {t : MessageTable}
    (h : ∀ s ∈ t.slots, ∀ name key inner, s.shape.element = .message name key →
      p.messages.get? name = some inner → ∀ depth, (messageSample p depth inner).isSome)
    (depth : Nat) : (messageSample p depth t).isSome := by
  have helement : ∀ s ∈ t.slots, ∀ seed,
      (elementSample p (messageSample p) depth s seed).isSome := by
    intro s hs seed
    rw [elementSample]
    split
    · rfl
    · rename_i name key helement
      split
      · rename_i inner hget
        exact h s hs name key inner helement hget (depth + 1)
      · rfl
  have hfield : ∀ s ∈ t.slots, (fieldSample p (messageSample p) depth s).isSome := by
    intro s hs
    rw [fieldSample]
    split
    · exact isSome_bind (isSome_mapM fun i _ => helement s hs _) fun items => rfl
    · exact helement s hs _
  rw [messageSample, fieldSamples]
  exact isSome_bind (isSome_mapM fun s hs => isSome_bind (hfield s hs) fun value => rfl)
    fun members => rfl

section Endless

variable {p : Sampler} {t inner : MessageTable} {s : Slot} {rest : List Slot} {name : String}
variable {key : TypeName}

/-- Without a sample of the message that its first field holds, there is none of a message. -/
theorem exists_of_first {sample : MessageSampling} {depth : Nat} {result : Except EmitError Json}
    (hslots : t.slots = s :: rest) (hsingle : s.shape.repeated = false)
    (helement : s.shape.element = .message name key) (hget : p.messages.get? name = some inner)
    (h : fieldSamples p sample depth t = some result) :
    ∃ value, sample (depth + 1) inner = some value := by
  obtain ⟨members, hmembers⟩ := exists_of_run_bind h
  rw [hslots, List.mapM_cons] at hmembers
  obtain ⟨member, hmember⟩ := exists_of_run_bind hmembers
  obtain ⟨value, hvalue⟩ := exists_of_run_bind hmember
  have hfield : fieldSample p sample depth s = sample (depth + 1) inner := by
    simp only [fieldSample, hsingle, Bool.false_eq_true, if_false, elementSample, helement, hget]
  exact ⟨value, hfield ▸ hvalue⟩

/-- A sample of a message whose first field holds the message itself never ends. -/
theorem messageSample_of_self (hslots : t.slots = s :: rest) (hsingle : s.shape.repeated = false)
    (helement : s.shape.element = .message name key) (hget : p.messages.get? name = some t)
    (depth : Nat) : messageSample p depth t = none := by
  have hnever : ∀ depth t' result, messageSample p depth t' = some result → t' ≠ t := by
    refine messageSample.partial_correctness p (fun _ t' _ => t' ≠ t) ?_
    rintro sample ih depth t' result hsample rfl
    obtain ⟨value, hvalue⟩ := exists_of_first hslots hsingle helement hget hsample
    exact ih (depth + 1) _ value hvalue rfl
  exact Option.eq_none_iff_forall_ne_some.mpr fun result hsome => hnever depth t result hsome rfl

/-- Nor does one of a message whose first field holds a message of which there is no sample. -/
theorem messageSample_of_inner {depth : Nat} (hinner : messageSample p (depth + 1) inner = none)
    (hslots : t.slots = s :: rest) (hsingle : s.shape.repeated = false)
    (helement : s.shape.element = .message name key) (hget : p.messages.get? name = some inner) :
    messageSample p depth t = none := by
  refine Option.eq_none_iff_forall_ne_some.mpr fun result hsample => ?_
  rw [messageSample] at hsample
  obtain ⟨value, hvalue⟩ := exists_of_first hslots hsingle helement hget hsample
  rw [hinner] at hvalue
  cases hvalue

end Endless

end Fixture

/-! ## Messages that lead to one another -/

namespace Layout

variable {types : TypeTable} {options : Options} {routines : List Routine}
variable {key n : TypeName} {name : String} {t : MessageTable} {s : Slot} {l : Layout}

/-- A slot of the one message refers to the other. -/
def Leads (l : Layout) (a b : String) : Prop :=
  ∃ t, l.message? a = some t ∧ ∃ s ∈ t.slots, ∃ key, s.shape.element = .message b key

/-- **Sampling ends** whatever the message, if no message of the layout leads back to itself. -/
theorem isSome_messageSample (hacyclic : ∀ name, ¬ TransGen l.Leads name name)
    {p : Fixture.Sampler} (hp : p.messages = l.messages) (depth : Nat) (t : MessageTable) :
    (Fixture.messageSample p depth t).isSome := by
  have hwf : WellFounded fun b a => l.Leads a b := by
    have hstarts : ∀ a b, l.Leads a b → a ∈ l.messages.keys := by
      rintro a b ⟨t, hget, -⟩
      exact SortedMap.contains_iff_mem_keys.mp (Option.isSome_iff_exists.mpr ⟨t, hget⟩)
    exact wellFounded_of_acyclic hstarts hacyclic
  have hnamed : ∀ name t, l.message? name = some t → ∀ depth,
      (Fixture.messageSample p depth t).isSome := by
    intro name
    induction name using hwf.induction with
    | _ name ih =>
    intro t hget depth
    refine Fixture.isSome_messageSample (fun s hs name' key inner helement hinner => ?_) depth
    rw [hp] at hinner
    exact ih name' ⟨t, hget, s, hs, key, helement⟩ inner hinner
  refine Fixture.isSome_messageSample (fun s hs name key inner helement hinner => ?_) depth
  rw [hp] at hinner
  exact hnamed name inner hinner

/-- A type leads to whatever its own message refers to. -/
theorem Own.transGen_refers (ht : types.Proper) (hc : types.Consistent)
    (h : Own types options n t) (hs : s ∈ t.slots) (he : s.shape.element = .message name key) :
    TransGen types.Refers n key := by
  have hsound := h.sound hc hs
  rw [hsound.shape] at he
  cases htype : s.dataType with
  | scalar type =>
      rw [htype] at he
      cases he
  | composite r =>
      rw [htype] at he
      have hcases := (element_composite ht (hsound.defined r htype) he).2
      cases h with
      | record definition =>
          obtain ⟨field, ordinal, a, ha, rfl⟩ := exists_attribute hs
          have hrefers : types.Refers n r.name := by
            refine ⟨_, definition, r, ?_, rfl⟩
            exact Conversion.mem_references_record.mpr (List.mem_map.mpr ⟨a, ha, htype⟩)
          rcases hcases with ⟨-, rfl⟩ | ⟨-, kind, indexing, hget⟩
          · exact .single hrefers
          · exact .tail (.single hrefers) ⟨_, hget, _, List.mem_singleton_self _, rfl⟩
      | wrapper inside =>
          obtain rfl := List.mem_singleton.mp hs
          obtain rfl := DataType.composite.inj htype
          rcases hcases with ⟨hkind, -⟩ | ⟨-, kind, indexing, hget⟩
          · exact absurd rfl hkind
          · exact .single ⟨_, hget, _, List.mem_singleton_self _, rfl⟩

/-- Behind a way from one message to another: two types of these names that have messages of their
own, and the one leads to the other. -/
def Backed (types : TypeTable) (options : Options) (a b : String) : Prop :=
  ∃ n key, Identifier.typeMessage n = a ∧ Identifier.typeMessage key = b ∧
    (∃ t, Own types options n t) ∧ (∃ t, Own types options key t) ∧ TransGen types.Refers n key

theorem Leads.backed (ht : types.Proper) (hc : types.Consistent) {a b : String}
    (h : (build routines types options).Leads a b) : Backed types options a b := by
  obtain ⟨t, hget, s, hs, key, he⟩ := h
  obtain ⟨n, rfl, hown⟩ := own_of_message? ht hget
  obtain ⟨rfl, hkey⟩ := (hown.sound hc hs).exists_own ht hc he
  exact ⟨n, key, rfl, rfl, ⟨t, hown⟩, hkey, hown.transGen_refers ht hc hs he⟩

section Distinct

variable (hdistinct : ∀ n t, Own types options n t → Alone types options n)

include hdistinct

theorem Backed.trans {a b c : String} (h : Backed types options a b)
    (h' : Backed types options b c) : Backed types options a c := by
  obtain ⟨n, m, hn, hm, hown, ⟨t, hinner⟩, hbefore⟩ := h
  obtain ⟨m', key, hm', hkey, ⟨t', hinner'⟩, hlast, hafter⟩ := h'
  -- the type that the first way comes to is the one that the second goes on from
  obtain rfl := hdistinct m t hinner m' t' hinner' (hm'.trans hm.symm)
  exact ⟨n, key, hn, hkey, hown, hlast, hbefore.trans hafter⟩

theorem backed_of_transGen (ht : types.Proper) (hc : types.Consistent) {a b : String}
    (h : TransGen (build routines types options).Leads a b) : Backed types options a b := by
  induction h with
  | single hlead => exact hlead.backed ht hc
  | tail _ hlead ih => exact ih.trans hdistinct (hlead.backed ht hc)

/-- **Messages lead nowhere that types do not lead**, if no two types share a name. -/
theorem acyclic_build (ht : types.Proper) (hc : types.Consistent)
    (hacyclic : ∀ n, ¬ TransGen types.Refers n n) (name : String) :
    ¬ TransGen (build routines types options).Leads name name := by
  intro hcycle
  obtain ⟨n, key, hn, hkey, ⟨t, hown⟩, ⟨t', hown'⟩, hrefers⟩ :=
    backed_of_transGen hdistinct ht hc hcycle
  obtain rfl := hdistinct n t hown key t' hown' (hkey.trans hn.symm)
  exact hacyclic _ hrefers

end Distinct

end Layout

/-! ## Models -/

namespace Model

variable {routines : List Routine} {types : TypeTable} {options : Options}

/-- The layout has the messages of every routine, and every message that some slot refers to. -/
structure Resolved (m : Model) (options : Options) : Prop where
  calls : ∀ r ∈ m.routines, m.layout.call? r = some (Layout.call r m.types options)
  messages : ∀ t ∈ m.tables, ∀ s ∈ t.slots, ∀ name key, s.shape.element = .message name key →
    ∃ inner, m.layout.message? name = some inner

theorem resolved_freeze (hnodup : (routines.map (·.qualifiedName)).Nodup)
    (h : types.Supports routines) : (freeze routines types options).Resolved options where
  calls _ hr := call?_freeze hnodup hr
  messages t ht s hs name key he := by
    have hproper := proper_freeze h options
    obtain ⟨rfl, own, hown⟩ :=
      (sound_of_mem_tables h ht hs).exists_own hproper (consistent_freeze h options) he
    exact Layout.exists_message? hproper routines hown

namespace Resolved

variable {m : Model} {emission : Options} {e : EmitError} {r : Routine}

theorem call_eq (h : m.Resolved options) (hr : r ∈ m.routines) :
    m.call r = .ok (Layout.call r m.types options) := by
  rw [call, h.calls r hr]

theorem calls_eq (h : m.Resolved options) :
    m.calls = .ok (m.routines.map fun r => (r, Layout.call r m.types options)) :=
  mapM_eq_ok fun r hr => by
    rw [h.call_eq hr]
    rfl

theorem request_mem_tables (h : m.Resolved options) (hr : r ∈ m.routines) :
    (Layout.call r m.types options).request ∈ m.tables := by
  refine List.mem_append_left _ (List.mem_flatMap.mpr ⟨_, ?_, List.mem_cons_self⟩)
  exact List.mem_map.mpr ⟨_, SortedMap.mem_entries_of_get? (h.calls r hr), rfl⟩

/-- The sample request of a routine misses no message. -/
theorem request_error (h : m.Resolved options) (hr : r ∈ m.routines)
    (hrequest : Fixture.request m emission r (Layout.call r m.types options) = .error e) :
    e.isMissing = false := by
  rw [Fixture.request] at hrequest
  cases hsample : Fixture.messageSample
      (Fixture.sampler m emission r (Layout.call r m.types options)) 0
      (Layout.call r m.types options).request with
  | none =>
      rw [hsample] at hrequest
      cases hrequest
  | some outcome =>
      rw [hsample, Option.getD_some] at hrequest
      subst hrequest
      have hmessages : ∀ name inner, m.layout.messages.get? name = some inner →
          Fixture.Resolves m.layout.messages inner.slots := fun name inner hget =>
        h.messages inner (List.mem_append_right _
          (List.mem_map.mpr ⟨_, SortedMap.mem_entries_of_get? hget, rfl⟩))
      have hslots : Fixture.Resolves m.layout.messages
          (Layout.call r m.types options).request.slots := h.messages _ (h.request_mem_tables hr)
      exact Fixture.messageSample_error hmessages hslots hsample

theorem document_error (h : m.Resolved options) (hr : r ∈ m.routines)
    (hdocument : Fixture.document m emission r = .error e) : e.isMissing = false := by
  rcases bind_eq_error.mp hdocument with hcall | ⟨c, hcall, hdocument⟩
  · rw [h.call_eq hr] at hcall
    cases hcall
  · rw [h.call_eq hr] at hcall
    obtain rfl := Except.ok.inj hcall
    rcases bind_eq_error.mp hdocument with hrequest | ⟨sample, -, hnone⟩
    · exact h.request_error hr hrequest
    · cases hnone

end Resolved

/-- The schema and the wrapper are made whenever everything is there, and a fixture that cannot be
made does not lack a message. -/
theorem Resolved.emit_error {m : Model} (h : m.Resolved options) {emitter : Emitter}
    {emission : Options} {e : EmitError} (hemit : emitter.emit m emission = .error e) :
    emitter = .fixtures ∧ e.isMissing = false := by
  cases emitter with
  | schema =>
      simp only [Emitter.emit, Schema.artifacts, Schema.render, h.calls_eq] at hemit
      cases hemit
  | wrapper =>
      simp only [Emitter.emit, Wrapper.artifacts, Wrapper.render, h.calls_eq] at hemit
      cases hemit
  | fixtures =>
      obtain ⟨r, hr, hfile⟩ := exists_of_mapM_eq_error hemit
      exact ⟨rfl, h.document_error hr (map_eq_error.mp hfile)⟩

/-- **Every message is there.** The layout of a frozen model has the messages of every routine and
every message that a slot refers to, so no artifact fails for want of one. -/
theorem freeze_resolves (routines : List Routine) (types : TypeTable) (options : Options)
    (hnodup : (routines.map (·.qualifiedName)).Nodup) (h : types.Supports routines) :
    (freeze routines types options).Resolved options ∧
      ∀ (emission : Options) (emitter : Emitter) (e : EmitError),
        emitter.emit (freeze routines types options) emission = .error e →
          emitter = .fixtures ∧ e.isMissing = false := by
  have hresolved : (freeze routines types options).Resolved options := resolved_freeze hnodup h
  exact ⟨hresolved, fun emission emitter e hemit => hresolved.emit_error hemit⟩

theorem freeze_resolves_sample :
    (freeze sampleOrders sampleTypes {}).Resolved {} ∧
      ∀ (emission : Options) (emitter : Emitter) (e : EmitError),
        emitter.emit (freeze sampleOrders sampleTypes {}) emission = .error e →
          emitter = .fixtures ∧ e.isMissing = false :=
  freeze_resolves sampleOrders sampleTypes {} (by decide) supports_sampleTypes

/-- A layout has messages for every routine, if not always its own. -/
theorem exists_call_freeze (types : TypeTable) (options : Options) {r : Routine}
    (hr : r ∈ routines) : ∃ c, (freeze routines types options).call r = .ok c := by
  obtain ⟨c, hc⟩ := SortedMap.exists_get?_ofList (List.mem_map_of_mem (f := fun r =>
    (r.qualifiedName, Layout.call r (freeze routines types options).types options)) hr)
  have hcall : (freeze routines types options).layout.call? r = some c := hc
  exact ⟨c, by rw [call, hcall]⟩

/-- **Sampling ends** for every routine of a frozen model if no type leads back to itself and no two
types that have messages share the name of their message. -/
theorem freeze_sampling_ends (routines : List Routine) (types : TypeTable) (options : Options)
    (h : types.Supports routines) (hacyclic : ∀ n, ¬ TransGen types.Refers n n)
    (hdistinct : ∀ n t, Layout.Own (freeze routines types options).types options n t →
      Layout.Alone (freeze routines types options).types options n) :
    (∀ name, ¬ TransGen (freeze routines types options).layout.Leads name name) ∧
      ∀ r ∈ routines, ∃ c, (freeze routines types options).call r = .ok c ∧
        ∀ emission : Options, Fixture.messageSample
          (Fixture.sampler (freeze routines types options) emission r c) 0 c.request =
            some (Fixture.request (freeze routines types options) emission r c) := by
  have hkept : ∀ n, ¬ TransGen (freeze routines types options).types.Refers n n := fun n hcycle =>
    hacyclic n (hcycle.lift id fun _ _ => TypeTable.Refers.of_reachableFrom h.proper)
  have hmessages : ∀ name, ¬ TransGen (freeze routines types options).layout.Leads name name :=
    Layout.acyclic_build hdistinct (proper_freeze h options) (consistent_freeze h options) hkept
  refine ⟨hmessages, fun r hr => ?_⟩
  obtain ⟨c, hc⟩ := exists_call_freeze types options hr
  refine ⟨c, hc, fun emission => ?_⟩
  have hends := Layout.isSome_messageSample hmessages
    (p := Fixture.sampler (freeze routines types options) emission r c) rfl 0 c.request
  obtain ⟨outcome, hsample⟩ := Option.isSome_iff_exists.mp hends
  rw [Fixture.request, hsample, Option.getD_some]

theorem freeze_sampling_ends_sample :
    (∀ name, ¬ TransGen (freeze sampleOrders sampleTypes {}).layout.Leads name name) ∧
      ∀ r ∈ sampleOrders, ∃ c, (freeze sampleOrders sampleTypes {}).call r = .ok c ∧
        ∀ emission : Options, Fixture.messageSample
          (Fixture.sampler (freeze sampleOrders sampleTypes {}) emission r c) 0 c.request =
            some (Fixture.request (freeze sampleOrders sampleTypes {}) emission r c) := by
  refine freeze_sampling_ends sampleOrders sampleTypes {} supports_sampleTypes acyclic_sampleTypes
    fun n t hown => Layout.alone_of_namesApart (consistent_freeze supports_sampleTypes {}) ?_ ?_
  · exact namesApart_sampleTypes.reachableFrom proper_sampleTypes _
  · exact hown.contains (consistent_freeze supports_sampleTypes {})

/-- The message of `A_B` is found in place of that of `A$B`, and so leads back to itself. -/
theorem sampling_endless_clash :
    clashingTypes.Supports [clashingRoutine] ∧ (∀ n ∈ clashingTypes.definitions.keys, n.Catalog) ∧
      (∀ n, ¬ TransGen clashingTypes.Refers n n) ∧
      (freeze [clashingRoutine] clashingTypes {}).layout.Leads "App__Pkg__AB" "App__Pkg__AB" ∧
      ∃ c, (freeze [clashingRoutine] clashingTypes {}).call clashingRoutine = .ok c ∧
        ∀ emission : Options, Fixture.messageSample
          (Fixture.sampler (freeze [clashingRoutine] clashingTypes {}) emission clashingRoutine c) 0
            c.request = none := by
  refine ⟨supports_clashingTypes, by decide, TypeTable.acyclic_of_rank proper_clashingTypes
    (fun n => if n.name = "A_B" then 1 else 0) (by decide), ?_⟩
  rw [freeze_clashingTypes]
  -- the second record, and so the one that counts, is `A_B`
  obtain ⟨t, s, hget, hslots, hsingle, helement⟩ : ∃ t s,
      clashingModel.layout.message? "App__Pkg__AB" = some t ∧ t.slots = [s] ∧
      s.shape.repeated = false ∧
      s.shape.element = .message "App__Pkg__AB" ⟨"APP", "PKG", "A$B"⟩ :=
    ⟨_, _, rfl, rfl, rfl, rfl⟩
  refine ⟨⟨t, hget, s, hslots ▸ List.mem_singleton_self s, _, helement⟩,
    Layout.call clashingRoutine clashingTypes {}, rfl, fun emission => ?_⟩
  have hinner := Fixture.messageSample_of_self (p := Fixture.sampler clashingModel emission
    clashingRoutine (Layout.call clashingRoutine clashingTypes {})) hslots hsingle helement hget
  exact Fixture.messageSample_of_inner (hinner 1) rfl rfl rfl hget

end Model

end RoutineBridge
