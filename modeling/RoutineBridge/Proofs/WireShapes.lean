import RoutineBridge.Proofs.MessageNames
import RoutineBridge.Proofs.Unfolding

/-!
# Layouts have the shape of their types

A type is unfolded by looking its names up in a table (`Unfolds`), a field by looking message names
up in a layout (`FieldShows`). The two go out of step: a field holds one list itself, and any deeper
list is a message with a single field for its items. In a table whose definitions are there, come to
an end, and have message names of their own, both come to the same shape, with every level of lists
(`Layout.build_faithful`). A collection of cursors is the exception: the list that a cursor is gets
lost there (`FieldShape.ofDataType_cursors`).
-/

namespace RoutineBridge

open Relation

/-! ## Shapes of values that travel -/

/-- What a value looks like when it travels. -/
inductive WireShape where
  | scalar (wire : Wire) (type : Scalar)
  | list (element : WireShape)
  | struct (members : List (String × WireShape))

mutual

/-- What values of a type look like when they travel. -/
def Shape.wired (numberAsString : Bool) : Shape → WireShape
  | .scalar s => .scalar (Wire.ofScalar s numberAsString) s
  | .record members => .struct (wiredAll numberAsString members)
  | .collection element _ => .list (element.wired numberAsString)
  | .cursor members => .list (.struct (wiredAll numberAsString members))

def wiredAll (numberAsString : Bool) : List (String × Shape) → List (String × WireShape)
  | [] => []
  | m :: members => (m.1, m.2.wired numberAsString) :: wiredAll numberAsString members

end

mutual

/-- Looking up the message of a field, and the messages of its slots, and so on, comes to an end
with this shape. -/
inductive FieldShows (l : Layout) : FieldShape → WireShape → Prop
  | single {e : Element} {w : WireShape} (element : ElementShows l e w) : FieldShows l ⟨false, e⟩ w
  | repeated {e : Element} {w : WireShape} (element : ElementShows l e w) :
      FieldShows l ⟨true, e⟩ (.list w)

inductive ElementShows (l : Layout) : Element → WireShape → Prop
  | scalar {wire : Wire} {s : Scalar} : ElementShows l (.scalar wire s) (.scalar wire s)
  /-- A message of items stands for the list of these. -/
  | items {name : String} {n : TypeName} {t : MessageTable} {s : Slot} {w : WireShape}
      (found : l.message? name = some t) (only : t.slots = [s]) (source : s.source = .items)
      (below : FieldShows l s.shape w) : ElementShows l (.message name n) w
  | struct {name : String} {n : TypeName} {t : MessageTable} {members : List (String × WireShape)}
      (found : l.message? name = some t) (below : SlotsShow l t.slots members) :
      ElementShows l (.message name n) (.struct members)

inductive SlotsShow (l : Layout) : List Slot → List (String × WireShape) → Prop
  | nil : SlotsShow l [] []
  | cons {s : Slot} {slots : List Slot} {name : String} {w : WireShape}
      {rest : List (String × WireShape)} (source : s.source = .attribute name)
      (first : FieldShows l s.shape w) (below : SlotsShow l slots rest) :
      SlotsShow l (s :: slots) ((name, w) :: rest)

end

section Uniqueness

variable {l : Layout}

/-- The slot of a message of items is no attribute. -/
theorem SlotsShow.source_ne_items {slots : List Slot} {s : Slot}
    {members : List (String × WireShape)} (h : SlotsShow l slots members) (only : slots = [s]) :
    s.source ≠ .items := by
  subst only
  cases h with
  | cons source first below =>
      rw [source]
      exact Source.noConfusion

mutual

/-- A field comes to one shape at most. -/
theorem FieldShows.unique {f : FieldShape} {w w' : WireShape} :
    FieldShows l f w → FieldShows l f w' → w = w'
  | .single element, .single element' => element.unique element'
  | .repeated element, .repeated element' => by rw [element.unique element']

theorem ElementShows.unique {e : Element} {w w' : WireShape} :
    ElementShows l e w → ElementShows l e w' → w = w'
  | .scalar, .scalar => rfl
  | .items found only source below, .items found' only' source' below' => by
      obtain rfl := Option.some.inj (found.symm.trans found')
      obtain ⟨rfl, -⟩ := List.cons.inj (only.symm.trans only')
      exact below.unique below'
  | .items found only source _, .struct found' below' => by
      obtain rfl := Option.some.inj (found.symm.trans found')
      exact absurd source (below'.source_ne_items only)
  | .struct found below, .items found' only' source' _ => by
      obtain rfl := Option.some.inj (found.symm.trans found')
      exact absurd source' (below.source_ne_items only')
  | .struct found below, .struct found' below' => by
      obtain rfl := Option.some.inj (found.symm.trans found')
      rw [below.unique below']

theorem SlotsShow.unique {slots : List Slot} {members members' : List (String × WireShape)} :
    SlotsShow l slots members → SlotsShow l slots members' → members = members'
  | .nil, .nil => rfl
  | .cons source first below, .cons source' first' below' => by
      obtain rfl := Source.attribute.inj (source.symm.trans source')
      rw [first.unique first', below.unique below']

end

end Uniqueness

/-! ## Tables whose layouts show everything -/

/-- A table where all that is referred to is there and comes to an end, no message name belongs to
two types, and no collection holds cursors. -/
structure TypeTable.Plain (t : TypeTable) : Prop where
  proper : t.Proper
  consistent : t.Consistent
  acyclic : ∀ n, ¬ TransGen t.Refers n n
  namesApart : t.NamesApart
  elements : ∀ n m element indexing, t.get? n = some (.collection m element indexing) →
    element.isCursor = false

/-- A collection of cursors has the field of a single cursor, which is one list short. -/
theorem FieldShape.ofDataType_cursors {types : TypeTable} {n row : TypeName} {indexing : Indexing}
    (definition : types.get? n = some (.collection n (.composite ⟨.cursor, row⟩) indexing))
    (numberAsString : Bool) :
    ofDataType types numberAsString (.composite ⟨.collection, n⟩) =
      ofDataType types numberAsString (.composite ⟨.cursor, row⟩) := by
  simp only [ofDataType, TypeTable.element?, definition]
  rfl

namespace Model

theorem plain_sampleTypes : sampleTypes.Plain where
  proper := proper_sampleTypes
  consistent := consistent_sampleTypes
  acyclic := acyclic_sampleTypes
  namesApart := namesApart_sampleTypes
  elements n m element indexing hget := by
    have hall : ∀ d ∈ sampleTypes.toList, ∀ r ∈ d.references, d.kind = .collection →
        r.kind ≠ .cursor := by decide
    obtain ⟨rfl, -⟩ := proper_sampleTypes n _ hget
    cases element with
    | scalar s => rfl
    | composite r =>
        have hr := hall _ ((sampleTypes.mem_toList proper_sampleTypes).mpr hget) r
          (List.mem_singleton_self r) rfl
        exact beq_eq_false_iff_ne.mpr hr

end Model

namespace TypeTable

variable {t : TypeTable} {n : TypeName} {d : DataType} {attributes : List Attribute}

theorem exists_unfoldsAll (h : ∀ a ∈ attributes, ∃ shape, Unfolds t a.dataType shape) :
    ∃ members, UnfoldsAll t attributes members := by
  induction attributes with
  | nil => exact ⟨[], .nil⟩
  | cons a attributes ih =>
      obtain ⟨⟨shape, hfirst⟩, hrest⟩ := List.forall_mem_cons.mp h
      obtain ⟨members, hbelow⟩ := ih hrest
      exact ⟨_, .cons hfirst hbelow⟩

theorem wellFounded_refers (hacyclic : ∀ n, ¬ TransGen t.Refers n n) :
    WellFounded fun b a => t.Refers a b := by
  have hstarts : ∀ a b, t.Refers a b → a ∈ t.definitions.keys := by
    rintro a b ⟨d, hget, -⟩
    exact SortedMap.contains_iff_mem_keys.mp (contains_of_get? hget)
  exact wellFounded_of_acyclic hstarts hacyclic

/-- What is defined and never leads back to itself has a shape. -/
theorem exists_unfolds (ht : t.Proper) (hc : t.Consistent) (hacyclic : ∀ n, ¬ TransGen t.Refers n n)
    (hd : ∀ r, d = .composite r → t.Defines r) : ∃ shape, Unfolds t d shape := by
  have hname : ∀ n kind, t.Defines ⟨kind, n⟩ → ∃ shape, Unfolds t (.composite ⟨kind, n⟩) shape := by
    intro n
    induction n using (wellFounded_refers hacyclic).induction with
    | _ n ih =>
    intro kind hdefines
    have hbelow : ∀ definition, t.get? n = some definition → ∀ d,
        (∀ r, d = .composite r → r ∈ definition.references) → ∃ shape, Unfolds t d shape := by
      intro definition hget d hd
      cases d with
      | scalar s => exact ⟨_, .scalar⟩
      | composite r =>
          have hr := hd r rfl
          exact ih r.name ⟨definition, hget, r, hr, rfl⟩ r.kind (hc n definition hget r hr)
    rcases hdefines.cases ht with ⟨hkind, attributes, hget⟩ | ⟨rfl, element, indexing, hget⟩
    · have hattributes : ∀ a ∈ attributes, ∃ shape, Unfolds t a.dataType shape := fun a ha =>
        hbelow _ hget a.dataType fun r hr =>
          Conversion.mem_references_record.mpr (List.mem_map.mpr ⟨a, ha, hr⟩)
      obtain ⟨members, hmembers⟩ := exists_unfoldsAll hattributes
      cases kind with
      | record => exact ⟨_, .record hget hmembers⟩
      | cursor => exact ⟨_, .cursor hget hmembers⟩
      | collection => exact absurd rfl hkind
    · obtain ⟨shape, hshape⟩ := hbelow _ hget element fun r hr => by
        subst hr
        exact List.mem_singleton_self r
      exact ⟨_, .collection hget hshape⟩
  cases d with
  | scalar s => exact ⟨_, .scalar⟩
  | composite r => exact hname r.name r.kind (hd r rfl)

end TypeTable

/-! ## The layout of a table -/

namespace Layout

variable {types : TypeTable} {options : Options} {routines : List Routine}
variable {n : TypeName} {attributes : List Attribute} {members : List (String × WireShape)}

/-- The message of a record is a structure of what its slots show. -/
theorem shows_record (h : types.Plain) (definition : types.get? n = some (.record n attributes))
    (hslots : SlotsShow (build routines types options) (record types options n attributes).slots
      members) :
    ElementShows (build routines types options) (.ofType n) (.struct members) := by
  have halone : Alone types options n :=
    alone_of_namesApart h.consistent h.namesApart (TypeTable.contains_of_get? definition)
  have hfound := message?_of_alone h.proper h.consistent routines (.record definition) halone
  exact .struct hfound hslots

/-- The element of a collection shows what a field of its type does. If it is a collection itself,
its message of items stands for the list that the field holds. -/
theorem shows_element (h : types.Plain) {element : DataType} {indexing : Indexing}
    (definition : types.get? n = some (.collection n element indexing)) {w : WireShape}
    (hfield : FieldShows (build routines types options)
      (.ofDataType types options.numberAsString element) w) :
    ElementShows (build routines types options)
      (.ofDataType options.numberAsString element) w := by
  cases element with
  | scalar s =>
      cases hfield with
      | single hshows => exact hshows
  | composite r =>
      obtain ⟨kind, inner⟩ := r
      cases kind with
      | record =>
          cases hfield with
          | single hshows => exact hshows
      | collection =>
          have hown : Own types options inner (wrapper types options inner) := .wrapper definition
          have halone : Alone types options inner :=
            alone_of_namesApart h.consistent h.namesApart (hown.contains h.consistent)
          have hfound := message?_of_alone h.proper h.consistent routines hown halone
          exact .items hfound rfl rfl hfield
      | cursor => cases h.elements n n _ _ definition

mutual

/-- What a type unfolds to is what a field of it shows. -/
theorem shows_of_unfolds (h : types.Plain) (routines : List Routine) (options : Options)
    {d : DataType} {shape : Shape} : Unfolds types d shape →
      FieldShows (build routines types options) (.ofDataType types options.numberAsString d)
        (shape.wired options.numberAsString)
  | .scalar => .single .scalar
  | .record definition below =>
      have hslots := slotsShow_of_unfoldsAll h routines options
        (map_slots_record (fun _ _ _ => rfl) _) below
      .single (shows_record h definition hslots)
  | .collection definition below => by
      have hfield := shows_of_unfolds h routines options below
      rw [FieldShape.ofDataType, Shape.wired]
      simp only [TypeTable.element?, definition]
      exact .repeated (shows_element h definition hfield)
  | .cursor definition below =>
      have hslots := slotsShow_of_unfoldsAll h routines options
        (map_slots_record (fun _ _ _ => rfl) _) below
      .repeated (shows_record h definition hslots)

theorem slotsShow_of_unfoldsAll (h : types.Plain) (routines : List Routine) (options : Options)
    {attributes : List Attribute} {members : List (String × Shape)} {slots : List Slot}
    (hslots : slots.map (fun s => (s.source, s.shape)) = attributes.map fun a =>
      (.attribute a.name, .ofDataType types options.numberAsString a.dataType)) :
    UnfoldsAll types attributes members →
      SlotsShow (build routines types options) slots (wiredAll options.numberAsString members)
  | .nil => by
      rw [List.map_eq_nil_iff.mp hslots]
      exact .nil
  | .cons first below => by
      obtain ⟨s, rest, rfl, hslot, hrest⟩ := List.map_eq_cons_iff.mp hslots
      obtain ⟨hsource, hshape⟩ := Prod.mk.inj hslot
      have hfield := shows_of_unfolds h routines options first
      rw [← hshape] at hfield
      exact .cons hsource hfield (slotsShow_of_unfoldsAll h routines options hrest below)

end

/-- **A layout is a faithful image of its types.** Whatever is defined has one shape, and a field of
it shows this shape and no other. -/
theorem build_faithful (routines : List Routine) (types : TypeTable) (options : Options)
    (h : types.Plain) (d : DataType) (hd : ∀ r, d = .composite r → types.Defines r) :
    ∃ shape, (∀ other, Unfolds types d other ↔ other = shape) ∧
      ∀ w, FieldShows (build routines types options)
          (.ofDataType types options.numberAsString d) w ↔
        w = shape.wired options.numberAsString := by
  obtain ⟨shape, hunfolds⟩ := TypeTable.exists_unfolds h.proper h.consistent h.acyclic hd
  have hshows := shows_of_unfolds h routines options hunfolds
  refine ⟨shape, fun other => ⟨fun hother => hother.unique hunfolds, ?_⟩,
    fun w => ⟨fun hw => hw.unique hshows, ?_⟩⟩
  · rintro rfl
    exact hunfolds
  · rintro rfl
    exact hshows

/-- An order on the wire. -/
def sampleOrder : WireShape :=
  let line : WireShape := .struct [("SKU", .scalar .string ⟨.text, "VARCHAR2", 0, 0, 20, ""⟩)]
  .struct [("ID", .scalar .int64 ⟨.number, "NUMBER", 9, 0, 0, ""⟩), ("GROUPS", .list (.list line))]

/-- A cursor on orders. -/
def sampleCursor : DataType := .composite ⟨.cursor, ⟨"APP", "PKG", "ORDER_ROW"⟩⟩

/-- A cursor on orders shows a list of orders, in which groups of lines are lists of lists. -/
theorem build_faithful_sample :
    FieldShows (build Model.sampleOrders Model.sampleTypes {})
        (.ofDataType Model.sampleTypes false sampleCursor) (.list sampleOrder) ∧
      ∀ w, FieldShows (build Model.sampleOrders Model.sampleTypes {})
        (.ofDataType Model.sampleTypes false sampleCursor) w → w = .list sampleOrder := by
  have hdefined : ∀ r, sampleCursor = .composite r → Model.sampleTypes.Defines r := by
    rintro r ⟨⟩
    decide
  obtain ⟨shape, hunfolds, hshows⟩ := build_faithful Model.sampleOrders Model.sampleTypes {}
    Model.plain_sampleTypes sampleCursor hdefined
  have hlines : Unfolds Model.sampleTypes (.composite ⟨.collection, ⟨"APP", "PKG", "GROUPS"⟩⟩)
      (.collection (.collection (.record [("SKU", .scalar ⟨.text, "VARCHAR2", 0, 0, 20, ""⟩)])
        .dense) .associative) :=
    .collection rfl (.collection rfl (.record rfl (.cons .scalar .nil)))
  obtain rfl := (hunfolds _).mp (.cursor rfl (.cons .scalar (.cons hlines .nil)))
  exact ⟨(hshows _).mpr rfl, fun w => (hshows w).mp⟩

end Layout

end RoutineBridge
