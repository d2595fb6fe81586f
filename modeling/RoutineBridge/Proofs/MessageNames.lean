import RoutineBridge.Proofs.Messages

/-!
# Whose message is found

Messages are found by name, and the name of a type loses characters on its way into a message: any
mark of the catalog starts a new word and disappears. So the names of two types may come to the same
(`Model.message_of_another_type`), and then the message of the one takes the place of the other's.
Names of plain words, with an owner and single underscores, can be read back from their messages
(`Identifier.parts_joined`) and never come to the same. A type that has its message name
to itself finds its own message under it (`Model.freeze_messages_belong`).
-/

namespace RoutineBridge

/-! ## Names that can be told apart -/

namespace Identifier

/-- Every underscore has something else than an underscore behind it. -/
def unbroken : List Char → Bool
  | [] => true
  | c :: cs => (c != '_' || cs.head?.any (· != '_')) && unbroken cs

/-- An identifier as the catalog spells it. -/
def isCatalog (cs : List Char) : Bool :=
  cs.head?.any Char.isUpper &&
    cs.all fun c => c.isUpper || c.isDigit || ['_', '$', '#'].contains c

/-- Words of capital letters and digits, the first of which starts with a letter, with single
underscores between them. -/
def isRegular (cs : List Char) : Bool :=
  cs.head?.any Char.isUpper && cs.all (fun c => c.isUpper || c.isDigit || c == '_') && unbroken cs

/-- Words of letters and digits in any case, the first of which starts with a letter, with single
underscores between them. -/
def isWorded (cs : List Char) : Bool :=
  cs.head?.any Char.isAlpha && cs.all (fun c => c.isAlphanum || c == '_') && unbroken cs

/-- Reads the words back that Pascal case has joined, with an underscore in front of each. -/
def splitWords : List Char → List Char
  | [] => []
  | c :: cs => if c.isUpper then '_' :: c :: splitWords cs else c.toUpper :: splitWords cs

section Characters

variable {c : Char}

theorem classes_of_isUpper (h : c.isUpper) : c.isAlphanum ∧ ¬ c.isDigit ∧ ¬ c.isLower ∧
    c.toUpper = c ∧ c.toLower.toUpper = c ∧ ¬ c.toLower.isUpper := by
  have halpha : c.isAlpha := Bool.or_eq_true_iff.mpr (.inl h)
  have halnum : c.isAlphanum := Bool.or_eq_true_iff.mpr (.inl halpha)
  exact Text.of_isAlphanum (p := fun c => c.isUpper → c.isAlphanum ∧ ¬ c.isDigit ∧ ¬ c.isLower ∧
    c.toUpper = c ∧ c.toLower.toUpper = c ∧ ¬ c.toLower.isUpper) (by decide) halnum h

theorem classes_of_isDigit (h : c.isDigit) : c.isAlphanum ∧ ¬ c.isUpper ∧ ¬ c.isLower ∧
    c.toUpper = c ∧ c.toLower = c := by
  have halnum : c.isAlphanum := Bool.or_eq_true_iff.mpr (.inr h)
  exact Text.of_isAlphanum (p := fun c => c.isDigit → c.isAlphanum ∧ ¬ c.isUpper ∧ ¬ c.isLower ∧
    c.toUpper = c ∧ c.toLower = c) (by decide) halnum h

theorem ne_underscore (h : c.isAlphanum) : c ≠ '_' ∧ c.toUpper ≠ '_' ∧ c.toLower ≠ '_' :=
  Text.of_isAlphanum (p := fun c => c.isAlphanum → c ≠ '_' ∧ c.toUpper ≠ '_' ∧ c.toLower ≠ '_')
    (by decide) h h

end Characters

theorem joinWords_cons {c : Char} (h : c.isAlphanum) (keepCase upperNext : Bool) (cs : List Char) :
    joinWords keepCase upperNext (c :: cs) =
      (if upperNext then c.toUpper else if keepCase then c else c.toLower) ::
        joinWords keepCase false cs := by
  rw [joinWords, h]
  rfl

theorem joinWords_underscore (keepCase upperNext : Bool) (cs : List Char) :
    joinWords keepCase upperNext ('_' :: cs) =
      (if cs.head?.any Char.isDigit then ['_'] else []) ++ joinWords keepCase true cs := rfl

/-- Words are read back from what they are joined to, in the middle of a word and at the beginning
of one. A word that starts with a digit comes with its underscore. -/
theorem splitWords_joinWords {cs : List Char}
    (hchars : ∀ c ∈ cs, c.isUpper ∨ c.isDigit ∨ c = '_') (hunbroken : unbroken cs) :
    splitWords (joinWords false false cs) = cs ∧
      (cs.head?.any (· != '_') → splitWords (joinWords false true cs) =
        if cs.head?.any Char.isDigit then cs else '_' :: cs) := by
  induction cs with
  | nil => exact ⟨rfl, fun h => by cases h⟩
  | cons c cs ih =>
      obtain ⟨hc, hcs⟩ := List.forall_mem_cons.mp hchars
      rw [unbroken, Bool.and_eq_true, Bool.or_eq_true, bne_iff_ne] at hunbroken
      obtain ⟨hmiddle, hstart⟩ := ih hcs hunbroken.2
      rcases hc with hupper | hdigit | rfl
      · obtain ⟨halnum, hdigit, -, hsame, hback, hlower⟩ := classes_of_isUpper hupper
        constructor
        · rw [joinWords_cons halnum]
          simp [splitWords, hmiddle, hback, hlower]
        · intro _
          rw [joinWords_cons halnum]
          simp [splitWords, hmiddle, hsame, hupper, hdigit]
      · obtain ⟨halnum, hupper, -, hsame, hsame'⟩ := classes_of_isDigit hdigit
        constructor
        · rw [joinWords_cons halnum]
          simp [splitWords, hmiddle, hsame, hsame', hupper]
        · intro _
          rw [joinWords_cons halnum]
          simp [splitWords, hmiddle, hsame, hupper, hdigit]
      · refine ⟨?_, fun h => by cases h⟩
        have hword := hstart (hunbroken.1.resolve_left (absurd rfl))
        rw [joinWords_underscore]
        split at hword
        · rename_i hdigit
          rw [if_pos hdigit, List.singleton_append, splitWords, if_neg (by decide), hword]
          rfl
        · rename_i hdigit
          rw [if_neg hdigit, List.nil_append, hword]

/-- An underscore in joined words has a digit behind it. -/
theorem unbroken_joinWords (keepCase upperNext : Bool) (cs : List Char) :
    unbroken (joinWords keepCase upperNext cs) := by
  induction cs generalizing upperNext with
  | nil => rfl
  | cons c cs ih =>
      by_cases halnum : c.isAlphanum
      · obtain ⟨hsame, hupper, hlower⟩ := ne_underscore halnum
        rw [joinWords_cons halnum, unbroken, ih, Bool.and_true, Bool.or_eq_true, bne_iff_ne]
        left
        split
        · exact hupper
        · split
          · exact hsame
          · exact hlower
      · rw [joinWords, if_pos (by simpa using halnum)]
        split
        · rename_i hdigit
          cases cs with
          | nil => cases hdigit
          | cons d ds =>
              obtain ⟨halnum', -, -, hupper, -⟩ := classes_of_isDigit hdigit
              have hne := (ne_underscore halnum').1
              have hbelow := ih true
              rw [joinWords_cons halnum', if_pos rfl, hupper] at hbelow ⊢
              simp [unbroken, hne] at hbelow ⊢
              exact hbelow
        · exact ih true

/-! ## Reading names back -/

/-- A piece that is unbroken is a part if the rest begins behind it. -/
theorem parts_append {xs rest : List Char} {ps : List (List Char)} (h : unbroken xs)
    (hrest : parts rest = [] :: ps) : parts (xs ++ rest) = xs :: ps := by
  induction xs with
  | nil => exact hrest
  | cons c cs ih =>
      rw [unbroken, Bool.and_eq_true, Bool.or_eq_true, bne_iff_ne] at h
      have hbelow := ih h.2
      rw [List.cons_append, parts.eq_2, hbelow]
      rintro ds rfl heq
      cases cs with
      | nil => simp at h
      | cons d ds =>
          obtain ⟨rfl, -⟩ := List.cons.inj heq
          simp at h

theorem parts_of_unbroken {xs : List Char} (h : unbroken xs) : parts xs = [xs] := by
  have hparts : parts (xs ++ []) = [xs] := parts_append h rfl
  rwa [List.append_nil] at hparts

theorem parts_intercalate {ps : List (List Char)} (hne : ps ≠ []) (h : ∀ p ∈ ps, unbroken p) :
    parts (List.intercalate ['_', '_'] ps) = ps := by
  induction ps with
  | nil => exact absurd rfl hne
  | cons p ps ih =>
      obtain ⟨hp, hps⟩ := List.forall_mem_cons.mp h
      cases ps with
      | nil =>
          rw [List.intercalate_singleton]
          exact parts_of_unbroken hp
      | cons q qs =>
          rw [List.intercalate_cons_cons, List.append_assoc]
          refine parts_append hp ?_
          rw [List.cons_append, List.singleton_append, parts, ih (List.cons_ne_nil q qs) hps]

theorem isRegular_iff {cs : List Char} : isRegular cs ↔ cs.head?.any Char.isUpper ∧
    (∀ c ∈ cs, c.isUpper ∨ c.isDigit ∨ c = '_') ∧ unbroken cs := by
  simp [isRegular, and_assoc, or_assoc]

theorem isWorded_iff {cs : List Char} : isWorded cs ↔ cs.head?.any Char.isAlpha ∧
    (∀ c ∈ cs, c.isAlphanum ∨ c = '_') ∧ unbroken cs := by
  simp [isWorded, and_assoc]

theorem isWorded_of_isRegular {cs : List Char} (h : isRegular cs) : isWorded cs := by
  obtain ⟨hstart, hchars, hunbroken⟩ := isRegular_iff.mp h
  refine isWorded_iff.mpr ⟨?_, fun c hc => ?_, hunbroken⟩
  · obtain ⟨c, hc, hupper⟩ := (Option.any_eq_true ..).mp hstart
    exact (Option.any_eq_true ..).mpr ⟨c, hc, Bool.or_eq_true_iff.mpr (.inl hupper)⟩
  · rcases hchars c hc with hupper | hdigit | hunderscore
    · exact .inl (classes_of_isUpper hupper).1
    · exact .inl (classes_of_isDigit hdigit).1
    · exact .inr hunderscore

theorem exists_cons_of_isRegular {cs : List Char} (h : isRegular cs) :
    ∃ c rest, cs = c :: rest ∧ c.isUpper := by
  cases cs with
  | nil => cases h
  | cons c rest => exact ⟨c, rest, rfl, (isRegular_iff.mp h).1⟩

section Regular

variable {s : String}

theorem ne_empty_of_isRegular (h : isRegular s.toList) : s ≠ "" := by
  rintro rfl
  cases h

/-- A name of words is one piece without a mark. -/
theorem pascal_of_isWorded (h : isWorded s.toList) :
    pascal s = String.ofList (joinWords (s.toList.any Char.isLower) true s.toList) := by
  obtain ⟨hstart, hchars, hunbroken⟩ := isWorded_iff.mp h
  have hhidden : splitHidden s.toList = (s.toList, false) := by
    rw [splitHidden, if_neg]
    intro hlast
    exact absurd (hchars '#' (List.mem_of_getLast? hlast)) (by decide)
  have hpart : pascalPart s.toList = joinWords (s.toList.any Char.isLower) true s.toList := by
    rw [pascalPart, hhidden]
    simp
  have hnonempty : (joinWords (s.toList.any Char.isLower) true s.toList).isEmpty = false := by
    generalize s.toList.any Char.isLower = keepCase
    cases hs : s.toList with
    | nil =>
        rw [hs] at hstart
        cases hstart
    | cons c rest =>
        rw [hs] at hstart
        rw [joinWords_cons (Bool.or_eq_true_iff.mpr (.inl hstart))]
        rfl
  rw [pascal, parts_of_unbroken hunbroken, List.map_singleton, hpart,
    List.filter_cons_of_pos (by simp [hnonempty]), List.filter_nil, Text.join]

/-- A regular part has no lower case letters. -/
theorem pascal_of_isRegular (h : isRegular s.toList) :
    pascal s = String.ofList (joinWords false true s.toList) := by
  obtain ⟨-, hchars, -⟩ := isRegular_iff.mp h
  have hkeep : s.toList.any Char.isLower = false := by
    rw [List.any_eq_false]
    intro c hc
    rcases hchars c hc with hupper | hdigit | rfl
    · exact (classes_of_isUpper hupper).2.2.1
    · exact (classes_of_isDigit hdigit).2.2.1
    · decide
  rw [pascal_of_isWorded (isWorded_of_isRegular h), hkeep]

/-- The words of a regular part can be read in its Pascal case. -/
theorem splitWords_pascal (h : isRegular s.toList) :
    splitWords (pascal s).toList = '_' :: s.toList := by
  obtain ⟨-, hchars, hunbroken⟩ := isRegular_iff.mp h
  obtain ⟨c, rest, hs, hupper⟩ := exists_cons_of_isRegular h
  obtain ⟨halnum, hdigit, -⟩ := classes_of_isUpper hupper
  have hread := (splitWords_joinWords hchars hunbroken).2
  rw [hs, List.head?_cons, Option.any_some, Option.any_some, if_neg hdigit, ← hs] at hread
  rw [pascal_of_isRegular h, String.toList_ofList]
  exact hread (bne_iff_ne.mpr (ne_underscore halnum).1)

end Regular

/-- The parts of a name in Pascal case, joined as in the name of a message. -/
def joined (ps : List String) : String := "__".intercalate (ps.map pascal)

section Joined

variable {ps qs : List String}

/-- Regular parts can be read in the name that they are joined to. -/
theorem parts_joined (hne : ps ≠ []) (h : ∀ p ∈ ps, isRegular p.toList) :
    (parts (joined ps).toList).map splitWords = ps.map fun p => '_' :: p.toList := by
  have hpieces : (joined ps).toList =
      List.intercalate ['_', '_'] (ps.map fun p => (pascal p).toList) := by
    rw [joined, String.toList_intercalate, List.map_map]
    rfl
  rw [hpieces, parts_intercalate, List.map_map]
  · refine List.map_congr_left fun p hp => ?_
    rw [Function.comp_apply, splitWords_pascal (h p hp)]
  · simpa using hne
  · intro q hq
    obtain ⟨p, hp, rfl⟩ := List.mem_map.mp hq
    rw [pascal_of_isRegular (h p hp), String.toList_ofList]
    exact unbroken_joinWords _ _ _

/-- **Regular parts keep names apart.** -/
theorem joined_inj (hps : ps ≠ []) (hqs : qs ≠ []) (h : ∀ p ∈ ps, isRegular p.toList)
    (h' : ∀ q ∈ qs, isRegular q.toList) (heq : joined ps = joined qs) : ps = qs := by
  have hread : (ps.map fun p => '_' :: p.toList) = qs.map fun q => '_' :: q.toList := by
    rw [← parts_joined hps h, ← parts_joined hqs h', heq]
  refine List.map_injective_iff.mpr (fun p q hpq => ?_) hread
  exact String.toList_inj.mp (List.cons.inj hpq).2

end Joined

end Identifier

namespace TypeName

variable {n m : TypeName}

/-- All parts that are there are regular, and the owner is there. -/
def Regular (n : TypeName) : Prop :=
  Identifier.isRegular n.owner.toList ∧ (n.package = "" ∨ Identifier.isRegular n.package.toList) ∧
    Identifier.isRegular n.name.toList

instance (n : TypeName) : Decidable n.Regular := inferInstanceAs (Decidable (_ ∧ _ ∧ _))

/-- All parts that are there are identifiers of the catalog, and the type has a name. -/
def Catalog (n : TypeName) : Prop :=
  (n.owner = "" ∨ Identifier.isCatalog n.owner.toList) ∧
    (n.package = "" ∨ Identifier.isCatalog n.package.toList) ∧ Identifier.isCatalog n.name.toList

instance (n : TypeName) : Decidable n.Catalog := inferInstanceAs (Decidable (_ ∧ _ ∧ _))

theorem Regular.isRegular_of_mem (h : n.Regular) {p : String} (hp : p ∈ n.parts) :
    Identifier.isRegular p.toList := by
  obtain ⟨howner, hpackage, hname⟩ := h
  obtain ⟨hp, hne⟩ := List.mem_filter.mp hp
  simp only [List.mem_cons, List.not_mem_nil, or_false] at hp
  rcases hp with rfl | rfl | rfl
  · exact howner
  · exact hpackage.resolve_left (of_decide_eq_true hne)
  · exact hname

/-- The parts tell whether there is a package. -/
theorem Regular.parts_eq (h : n.Regular) : n.parts =
    if n.package = "" then [n.owner, n.name] else [n.owner, n.package, n.name] := by
  have howner := Identifier.ne_empty_of_isRegular h.1
  have hname := Identifier.ne_empty_of_isRegular h.2.2
  split
  · rename_i hpackage
    simp [parts, howner, hname, hpackage]
  · rename_i hpackage
    simp [parts, howner, hname, hpackage]

theorem Regular.parts_ne_nil (h : n.Regular) : n.parts ≠ [] := by
  rw [h.parts_eq]
  split <;> simp

/-- **Regular names keep their messages apart.** -/
theorem Regular.eq_of_typeMessage_eq (hn : n.Regular) (hm : m.Regular)
    (h : Identifier.typeMessage n = Identifier.typeMessage m) : n = m := by
  have hparts : n.parts = m.parts := Identifier.joined_inj hn.parts_ne_nil hm.parts_ne_nil
    (fun _ => hn.isRegular_of_mem) (fun _ => hm.isRegular_of_mem) h
  obtain ⟨owner, package, name⟩ := n
  obtain ⟨owner', package', name'⟩ := m
  rw [hn.parts_eq, hm.parts_eq] at hparts
  split at hparts <;> split at hparts <;> simp_all

end TypeName

/-- Types with regular names have messages with names of their own. -/
theorem TypeTable.namesApart_of_regular {t : TypeTable} (h : ∀ n, t.contains n → n.Regular) :
    t.NamesApart := fun n m hn hm heq => (h n hn).eq_of_typeMessage_eq (h m hm) heq

/-! ## Messages and the types they belong to -/

/-- The message is the one of a type: it says so, and its slots are the attributes of the record, or
the one list of what the collection holds. -/
inductive MessageTable.Describes (types : TypeTable) (n : TypeName) (t : MessageTable) : Prop
  | record {attributes : List Attribute} (type : t.type = some n)
      (definition : types.get? n = some (.record n attributes))
      (slots : t.slots.map (fun s => (s.source, s.dataType)) =
        attributes.map fun a => (.attribute a.name, a.dataType))
  | collection {element : DataType} {indexing : Indexing} (type : t.type = some n)
      (definition : types.get? n = some (.collection n element indexing))
      (slots : t.slots.map (fun s => (s.source, s.dataType)) =
        [(.items, .composite ⟨.collection, n⟩)])

theorem Layout.Own.describes {types : TypeTable} {options : Options} {n : TypeName}
    {t : MessageTable} (ht : types.Proper) (hc : types.Consistent) (h : Own types options n t) :
    t.Describes types n := by
  cases h with
  | record definition => exact .record rfl definition (map_slots_record (fun _ _ _ => rfl) _)
  | wrapper inside =>
      rcases (hc _ _ inside _ (List.mem_singleton_self _)).cases ht with
        ⟨hkind, -⟩ | ⟨-, element, indexing, definition⟩
      · exact absurd rfl hkind
      · exact .collection rfl definition rfl

namespace Model

/-- Whatever a slot refers to is found, and is the message of some type of this name: of the type
that is meant, if no other type has the name. -/
structure MessagesBelong (m : Model) (options : Options) : Prop where
  found : ∀ t ∈ m.tables, ∀ s ∈ t.slots, ∀ name key, s.shape.element = .message name key →
    name = Identifier.typeMessage key ∧ ∃ found n, m.layout.message? name = some found ∧
      found.Describes m.types n ∧ Identifier.typeMessage n = name ∧
      (Layout.Alone m.types options key → n = key)
  /-- Only a message of the same name takes the place of a message. -/
  kept : ∀ n t, Layout.Own m.types options n t → Layout.Alone m.types options n →
    m.layout.message? t.message = some t

/-- **Messages belong to the types that refer to them**, as far as names tell types apart; and
names that are regular do. -/
theorem freeze_messages_belong (routines : List Routine) (types : TypeTable) (options : Options)
    (h : types.Supports routines) :
    (freeze routines types options).MessagesBelong options ∧
      ∀ n m : TypeName, n.Regular → m.Regular →
        Identifier.typeMessage n = Identifier.typeMessage m → n = m := by
  have hproper := proper_freeze h options
  have hconsistent := consistent_freeze h options
  refine ⟨⟨fun t ht s hs name key he => ?_, fun n t hown halone => ?_⟩, fun n m hn hm heq => ?_⟩
  · obtain ⟨rfl, own, hown⟩ := (sound_of_mem_tables h ht hs).exists_own hproper hconsistent he
    obtain ⟨found, hfound⟩ := Layout.exists_message? hproper routines hown
    obtain ⟨n, hname, hown'⟩ := Layout.own_of_message? hproper hfound
    exact ⟨rfl, found, n, hfound, hown'.describes hproper hconsistent, hname,
      fun halone => halone n found hown' hname⟩
  · rw [hown.message_eq]
    exact Layout.message?_of_alone hproper hconsistent routines hown halone
  · exact hn.eq_of_typeMessage_eq hm heq

theorem freeze_messages_belong_sample :
    (freeze sampleOrders sampleTypes {}).MessagesBelong {} ∧
      ∀ n m : TypeName, n.Regular → m.Regular →
        Identifier.typeMessage n = Identifier.typeMessage m → n = m :=
  freeze_messages_belong sampleOrders sampleTypes {} supports_sampleTypes

theorem namesApart_sampleTypes : sampleTypes.NamesApart := by
  have hregular : ∀ n ∈ sampleTypes.definitions.keys, n.Regular := by decide
  exact TypeTable.namesApart_of_regular fun n hn =>
    hregular n (SortedMap.contains_iff_mem_keys.mp hn)

/-- The record `A_B` holds the record `A$B`; both go by the same message name. -/
def clashingTypes : TypeTable :=
  .ofList
    [.record ⟨"APP", "PKG", "A_B"⟩ [⟨"X", .composite ⟨.record, ⟨"APP", "PKG", "A$B"⟩⟩⟩],
     .record ⟨"APP", "PKG", "A$B"⟩ [⟨"Y", .scalar ⟨.text, "VARCHAR2", 0, 0, 20, ""⟩⟩]]

/-- A routine that takes the one record and gives the other. -/
def clashingRoutine : Routine :=
  { Routine.named "APP" "PKG" "FIND" with
    arguments := [⟨"P", .composite ⟨.record, ⟨"APP", "PKG", "A_B"⟩⟩, .input, 1⟩]
    returns := some ⟨"ret", .composite ⟨.record, ⟨"APP", "PKG", "A$B"⟩⟩⟩ }

/-- What they are frozen to: both types are used. -/
def clashingModel : Model :=
  ⟨[clashingRoutine], clashingTypes, Layout.build [clashingRoutine] clashingTypes {}⟩

theorem proper_clashingTypes : clashingTypes.Proper := TypeTable.proper_empty.insertAll _

theorem supports_clashingTypes : clashingTypes.Supports [clashingRoutine] :=
  ((TypeTable.consistent_iff proper_clashingTypes).mpr (by decide)).supports proper_clashingTypes
    (by decide)

theorem freeze_clashingTypes : freeze [clashingRoutine] clashingTypes {} = clashingModel := by
  have hroot : ∀ n ∈ clashingTypes.definitions.keys,
      n ∈ TypeTable.roots ([clashingRoutine].flatMap Routine.dataTypes) := by decide
  have hkept : clashingTypes.reachableFrom ([clashingRoutine].flatMap Routine.dataTypes) =
      clashingTypes := TypeTable.reachableFrom_eq_self proper_clashingTypes fun n hn =>
    ⟨n, hroot n (SortedMap.contains_iff_mem_keys.mp hn), .refl⟩
  rw [freeze, hkept]
  rfl

/-- The result refers to the message of `A$B` and finds that of `A_B`. -/
theorem message_of_another_type :
    clashingTypes.Supports [clashingRoutine] ∧
      (∀ n ∈ clashingTypes.definitions.keys, n.Catalog) ∧
      ∃ t ∈ (freeze [clashingRoutine] clashingTypes {}).tables, ∃ s ∈ t.slots, ∃ found,
        s.shape.element = .message "App__Pkg__AB" ⟨"APP", "PKG", "A$B"⟩ ∧
        (freeze [clashingRoutine] clashingTypes {}).layout.message? "App__Pkg__AB" = some found ∧
        found.type = some ⟨"APP", "PKG", "A_B"⟩ ∧
        found.slots.map (·.source) = [.attribute "X"] := by
  refine ⟨supports_clashingTypes, by decide, ?_⟩
  rw [freeze_clashingTypes]
  have hresponse :
      (Layout.call clashingRoutine clashingTypes {}).response ∈ clashingModel.tables := by decide
  obtain ⟨s, hs, helement⟩ : ∃ s ∈ (Layout.call clashingRoutine clashingTypes {}).response.slots,
      s.shape.element = .message "App__Pkg__AB" ⟨"APP", "PKG", "A$B"⟩ := ⟨_, .head _, rfl⟩
  obtain ⟨found, hfound, hother⟩ : ∃ found,
      clashingModel.layout.message? "App__Pkg__AB" = some found ∧
      found.type = some ⟨"APP", "PKG", "A_B"⟩ ∧
      found.slots.map (·.source) = [.attribute "X"] := ⟨_, rfl, rfl, rfl⟩
  exact ⟨_, hresponse, s, hs, found, helement, hfound, hother⟩

end Model

end RoutineBridge
