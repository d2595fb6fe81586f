import RoutineBridge.Proofs.FieldNames
import RoutineBridge.Proofs.GeneratedNames
import RoutineBridge.Proofs.RustWords

/-!
# Which names of a wrapper are legal

Names come into a wrapper on four ways. Fields are in snake case and written raw where they are
keywords (`Identifier.IsSnake.isLegal_rust`). Constants are calls in capital letters, which no
reserved word is made of (`Identifier.isLegal_constant`), and messages have an underscore, which no
reserved word has (`Identifier.isLegal_message`). Calls are in snake case too, but nothing writes
them raw: with a package in front they have underscores, and without one they may be keywords
(`Identifier.isLegal_call_iff`). Main statement: where names start with letters, as in the catalog,
such calls are the only identifiers of a wrapper that are not legal (`Model.wrapper_identifiers`).
-/

namespace RoutineBridge

open Rust

/-! ## Legal identifiers -/

namespace Rust

theorem isIdentifier_iff {w : List Char} : isIdentifier w ↔
    (∃ c, w.head? = some c ∧ (c.isAlpha ∨ c = '_')) ∧ (∀ c ∈ w, c.isAlphanum ∨ c = '_') ∧
      w ≠ ['_'] := by
  simp [isIdentifier, Option.any_eq_true, and_assoc]

/-- An identifier is no raw one. -/
theorem isLegal_iff {w : List Char} (h : isIdentifier w) : isLegal w ↔ w ∉ reserved := by
  rw [isLegal.eq_def]
  split
  · exact absurd ((isIdentifier_iff.mp h).2.1 '#' (by simp)) (by decide)
  · simp [h]

theorem isLegal_raw {w : List Char} (h : isIdentifier w) (hraw : w ∉ neverRaw) :
    isLegal ('r' :: '#' :: w) := by
  simp [isLegal, h, hraw]

/-- No reserved word has an underscore. -/
theorem isLegal_of_underscore {w : List Char} (h : isIdentifier w) (hmem : '_' ∈ w) :
    isLegal w := by
  have hwords : ∀ w ∈ reserved, '_' ∉ w := by decide +kernel
  exact (isLegal_iff h).mpr fun hreserved => hwords w hreserved hmem

end Rust

theorem Text.join_eq_intercalate (sep : List Char) (ps : List (List Char)) :
    Text.join sep ps = List.intercalate sep ps := by
  induction ps with
  | nil => rfl
  | cons p ps ih =>
      cases ps with
      | nil => rw [Text.join, List.intercalate_singleton]
      | cons q qs => rw [Text.join, ih, List.intercalate_cons_cons]

namespace Identifier

/-! ## Snake case -/

section Characters

variable {c : Char}

theorem isAlphanum_of_isLower (h : c.isLower) : c.isAlphanum :=
  Bool.or_eq_true_iff.mpr (.inl (Bool.or_eq_true_iff.mpr (.inr h)))

/-- What names in snake case are made of, in capital letters. -/
theorem classes_toUpper (h : c.isLower ∨ c.isDigit ∨ c = '_') :
    (c.toUpper.isAlphanum ∨ c.toUpper = '_') ∧ ¬ c.toUpper.isLower ∧
      (¬ c.isDigit → c.toUpper.isAlpha ∨ c.toUpper = '_') ∧ (c.toUpper = '_' → c = '_') := by
  have hclasses : c.isAlphanum ∨ c = '_' := by
    exact h.elim (fun hlower => .inl (isAlphanum_of_isLower hlower))
      (.imp_left fun hdigit => (classes_of_isDigit hdigit).1)
  rcases hclasses with halnum | rfl
  · exact Text.of_isAlphanum (p := fun c => c.isAlphanum →
      (c.toUpper.isAlphanum ∨ c.toUpper = '_') ∧ ¬ c.toUpper.isLower ∧
        (¬ c.isDigit → c.toUpper.isAlpha ∨ c.toUpper = '_') ∧ (c.toUpper = '_' → c = '_'))
      (by decide) halnum halnum
  · decide

end Characters

namespace IsSnake

variable {name other : String}

theorem isIdentifier (h : IsSnake name) : isIdentifier name.toList := by
  obtain ⟨hchars, hstart, hfree⟩ := h
  obtain ⟨c, hc, hdigit⟩ := (Option.any_eq_true ..).mp hstart
  refine isIdentifier_iff.mpr ⟨⟨c, hc, ?_⟩, fun d hd => ?_, fun hlist => ?_⟩
  · rcases hchars c (List.mem_of_head? hc) with hlower | hdigit' | hunderscore
    · exact .inl (Bool.or_eq_true_iff.mpr (.inr hlower))
    · simp [hdigit'] at hdigit
    · exact .inr hunderscore
  · exact (hchars d hd).elim (fun hlower => .inl (isAlphanum_of_isLower hlower))
      (.imp_left fun hdigit => (classes_of_isDigit hdigit).1)
  · obtain rfl : name = "_" := String.toList_inj.mp hlist
    simp at hfree

theorem mem_map_toList {names : List String} :
    name.toList ∈ names.map String.toList ↔ name ∈ names :=
  List.mem_map_of_injective fun _ _ h => String.toList_inj.mp h

/-- The words that cannot be written raw are those that no field is named by, and one in capital
letters. -/
theorem notMem_neverRaw (h : IsSnake name) : name.toList ∉ neverRaw := by
  intro hmem
  have hwords : ∀ w ∈ neverRaw, w ∈ ["crate", "self", "super", "_"].map String.toList ∨
      w.any Char.isUpper := by decide
  rcases hwords _ hmem with hmem | hupper
  · exact h.free (mem_map_toList.mp hmem)
  · obtain ⟨c, hc, hupper⟩ := List.any_eq_true.mp hupper
    obtain ⟨-, hdigit, hlower, -⟩ := classes_of_isUpper hupper
    rcases h.chars c hc with hclass | hclass | rfl
    · exact hlower hclass
    · exact hdigit hclass
    · cases hupper

/-- In snake case only keywords are reserved. -/
theorem isLegal_iff (h : IsSnake name) : isLegal name.toList ↔ name ∉ keywords := by
  have hwords : Rust.reserved ⊆ keywords.map String.toList ++ neverRaw := by decide +kernel
  have hkeywords : keywords.map String.toList ⊆ Rust.reserved := by decide +kernel
  rw [Rust.isLegal_iff h.isIdentifier, not_iff_not,
    ← mem_map_toList]
  refine ⟨fun hmem => ?_, fun hmem => hkeywords hmem⟩
  exact (List.mem_append.mp (hwords hmem)).resolve_right h.notMem_neverRaw

/-- **A name in snake case is legal** as Rust source writes it. -/
theorem isLegal_rust (h : IsSnake name) : isLegal (rust name).toList := by
  rw [rust]
  split
  · rw [String.toList_append]
    exact isLegal_raw h.isIdentifier h.notMem_neverRaw
  · rename_i hkeyword
    exact h.isLegal_iff.mpr fun hmem => hkeyword (List.contains_iff_mem.mpr hmem)

/-- Names with underscores between them: of the reserved words only one has any, and no more than
that. -/
theorem append (h : IsSnake name) (h' : IsSnake other) : IsSnake (name ++ "__" ++ other) := by
  obtain ⟨c, cs, hname⟩ : ∃ c cs, name.toList = c :: cs := by
    cases hcs : name.toList with
    | nil => have hstart := h.start; rw [hcs] at hstart; cases hstart
    | cons c cs => exact ⟨c, cs, rfl⟩
  have hlist : (name ++ "__" ++ other).toList = name.toList ++ '_' :: '_' :: other.toList := by
    simp [String.toList_append]
  refine ⟨?_, ?_, fun hmem => ?_⟩
  · rw [hlist]
    simp only [List.mem_append, List.mem_cons]
    rintro d (hd | rfl | rfl | hd)
    · exact h.chars d hd
    · decide
    · decide
    · exact h'.chars d hd
  · have hstart := h.start
    rw [hname] at hstart
    rw [hlist, hname]
    exact hstart
  · have hwords : ∀ word ∈ ["crate", "self", "super", "_"],
        '_' ∈ word.toList → word.toList.length = 1 := by decide
    have hlength := hwords _ hmem (by rw [hlist]; simp)
    rw [hlist, hname] at hlength
    simp at hlength

end IsSnake

/-! ## Calls and constants -/

/-- A call is in snake case, whatever the routine is named. -/
theorem isSnake_call (r : Routine) : IsSnake (call r) := by
  rw [call]
  split
  · exact isSnake_field _
  · exact (isSnake_field _).append (isSnake_field _)

/-- **A call is legal** unless it stands alone and is a keyword. -/
theorem isLegal_call_iff (r : Routine) :
    isLegal (call r).toList ↔ (r.package.isEmpty → field r.exposedName ∉ keywords) := by
  rw [(isSnake_call r).isLegal_iff, call]
  split
  · rename_i hpackage
    simp [hpackage]
  · rename_i hpackage
    have hwords : ∀ word ∈ keywords, '_' ∉ word.toList := by decide +kernel
    refine ⟨fun _ h => absurd h hpackage, fun _ hmem => hwords _ hmem ?_⟩
    simp [String.toList_append]

/-- Every reserved word has a lower case letter, and no constant has one. -/
theorem isLegal_constant (r : Routine) : isLegal (constant r).toList := by
  obtain ⟨hchars, hstart, hfree⟩ := isSnake_call r
  have hlist : (constant r).toList = (call r).toList.map Char.toUpper := by
    rw [constant, Text.asciiUpper, String.toList_ofList]
  rw [hlist]
  have hidentifier : Rust.isIdentifier ((call r).toList.map Char.toUpper) := by
    obtain ⟨c, hc, hdigit⟩ := (Option.any_eq_true ..).mp hstart
    refine isIdentifier_iff.mpr ⟨⟨c.toUpper, by rw [List.head?_map, hc]; rfl, ?_⟩, fun d hd => ?_,
      fun hone => ?_⟩
    · exact (classes_toUpper (hchars c (List.mem_of_head? hc))).2.2.1 (by simpa using hdigit)
    · obtain ⟨c, hc, rfl⟩ := List.mem_map.mp hd
      exact (classes_toUpper (hchars c hc)).1
    · obtain ⟨d, hd, hupper⟩ := List.map_eq_singleton_iff.mp hone
      obtain rfl := (classes_toUpper (hchars d (hd ▸ List.mem_singleton_self d))).2.2.2 hupper
      have hsingle : call r = "_" := String.toList_inj.mp hd
      simp [hsingle] at hfree
  have hwords : ∀ w ∈ Rust.reserved, w.any Char.isLower := by decide +kernel
  refine (Rust.isLegal_iff hidentifier).mpr fun hmem => ?_
  obtain ⟨d, hd, hlower⟩ := List.any_eq_true.mp (hwords _ hmem)
  obtain ⟨c, hc, rfl⟩ := List.mem_map.mp hd
  exact (classes_toUpper (hchars c hc)).2.1 hlower

/-! ## Pascal case -/

/-- The name starts with a letter, as all identifiers of the catalog do. -/
def isLettered (cs : List Char) : Bool := cs.head?.any Char.isAlpha

theorem isLettered_of_isCatalog {cs : List Char} (h : isCatalog cs) : isLettered cs := by
  obtain ⟨c, hc, hupper⟩ := (Option.any_eq_true ..).mp (Bool.and_eq_true_iff.mp h).1
  exact (Option.any_eq_true ..).mpr ⟨c, hc, Bool.or_eq_true_iff.mpr (.inl hupper)⟩

theorem mem_joinWords {keepCase upperNext : Bool} {cs : List Char} {c : Char}
    (h : c ∈ joinWords keepCase upperNext cs) : c.isAlphanum ∨ c = '_' := by
  induction cs generalizing upperNext with
  | nil => cases h
  | cons d ds ih =>
      by_cases halnum : d.isAlphanum
      · have hcases := Text.of_isAlphanum (p := fun c => c.isAlphanum →
          c.toUpper.isAlphanum ∧ c.toLower.isAlphanum) (by decide) halnum halnum
        rw [joinWords_cons halnum, List.mem_cons] at h
        rcases h with rfl | h
        · split
          · exact .inl hcases.1
          · split
            · exact .inl halnum
            · exact .inl hcases.2
        · exact ih h
      · rw [joinWords, if_pos (by simpa using halnum), List.mem_append] at h
        rcases h with h | h
        · split at h
          · exact .inr (List.mem_singleton.mp h)
          · cases h
        · exact ih h

theorem mem_pascal {s : String} {c : Char} (h : c ∈ (pascal s).toList) :
    c.isAlphanum ∨ c = '_' := by
  rw [pascal, String.toList_ofList, Text.join_eq_intercalate] at h
  rcases of_mem_intercalate h with h | ⟨q, hq, hc⟩
  · right
    simpa using h
  · obtain ⟨p, -, rfl⟩ := List.mem_map.mp (List.mem_filter.mp hq).1
    rw [pascalPart] at hc
    rcases List.mem_append.mp hc with hc | hc
    · exact mem_joinWords hc
    · have hhidden : ∀ d ∈ "Hidden".toList, d.isAlphanum := by simp
      split at hc
      · exact .inl (hhidden c hc)
      · cases hc

/-- The mark of hidden names stands behind the first letter. -/
theorem splitHidden_cons {c : Char} (hc : c ≠ '#') (cs : List Char) :
    ∃ rest hidden, splitHidden (c :: cs) = (c :: rest, hidden) := by
  rw [splitHidden]
  split
  · rename_i hlast
    cases cs with
    | nil => exact absurd (Option.some.inj hlast) hc
    | cons d ds => exact ⟨(d :: ds).dropLast, true, rfl⟩
  · exact ⟨cs, false, rfl⟩

theorem parts_cons {c : Char} (hc : c ≠ '_') (cs : List Char) :
    ∃ p ps, parts (c :: cs) = (c :: p) :: ps := by
  rw [parts.eq_2]
  · cases parts cs with
    | nil => exact ⟨[], [], rfl⟩
    | cons p ps => exact ⟨p, ps, rfl⟩
  · rintro ds rfl
    exact absurd rfl hc

/-- Pascal case of a name that starts with a letter starts with it in capitals. -/
theorem head?_pascal {s : String} (h : isLettered s.toList) :
    ∃ c, (pascal s).toList.head? = some c ∧ c.isUpper := by
  obtain ⟨c, cs, hs, halpha⟩ : ∃ c cs, s.toList = c :: cs ∧ c.isAlpha := by
    cases hs : s.toList with
    | nil => rw [hs] at h; cases h
    | cons c cs => exact ⟨c, cs, rfl, by rw [hs] at h; exact h⟩
  obtain ⟨halnum, hupper, -⟩ := classes_of_isAlpha halpha
  have hmark : c ≠ '#' := by
    rintro rfl
    cases halnum
  obtain ⟨p, ps, hparts⟩ := parts_cons (ne_underscore halnum).1 cs
  obtain ⟨rest, hidden, hsplit⟩ := splitHidden_cons hmark p
  obtain ⟨word, hword⟩ : ∃ word, pascalPart (c :: p) = c.toUpper :: word := by
    rw [pascalPart, hsplit]
    dsimp only
    rw [joinWords_cons halnum, if_pos rfl, List.cons_append]
    exact ⟨_, rfl⟩
  refine ⟨c.toUpper, ?_, hupper⟩
  rw [pascal, hs, hparts, List.map_cons, hword, List.filter_cons_of_pos (by simp),
    String.toList_ofList]
  cases (ps.map pascalPart).filter (!·.isEmpty) <;> rfl

/-! ## Messages -/

/-- **Names in Pascal case are legal** if something is joined to them by an underscore. -/
theorem isLegal_pascal {s : String} (h : isLettered s.toList) {rest : List Char}
    (hrest : ∀ c ∈ rest, c.isAlphanum ∨ c = '_') (hmem : '_' ∈ rest) :
    isLegal ((pascal s).toList ++ rest) := by
  obtain ⟨c, hc, hupper⟩ := head?_pascal h
  obtain ⟨cs, hcs⟩ := List.head?_eq_some_iff.mp hc
  have hidentifier : isIdentifier ((pascal s).toList ++ rest) := by
    refine isIdentifier_iff.mpr ⟨⟨c, by rw [hcs]; rfl, ?_⟩, fun d hd => ?_, fun hone => ?_⟩
    · exact .inl (Bool.or_eq_true_iff.mpr (.inl hupper))
    · exact (List.mem_append.mp hd).elim mem_pascal (hrest d)
    · rw [hcs] at hone
      obtain ⟨rfl, -⟩ := List.cons.inj hone
      cases hupper
  exact isLegal_of_underscore hidentifier (List.mem_append_right _ hmem)

/-- **The messages of a routine** are legal. -/
theorem isLegal_message {r : Routine} (h : ∀ p ∈ r.nameParts, isLettered p.toList) {tail : String}
    (htail : (∀ c ∈ tail.toList, c.isAlphanum ∨ c = '_') ∧ '_' ∈ tail.toList) :
    isLegal (base r ++ tail).toList := by
  rw [base]
  split
  · rw [String.toList_append]
    exact isLegal_pascal (h _ r.exposedName_mem_nameParts) htail.1 htail.2
  · rename_i hpackage
    have hmiddle : ∀ c ∈ "__".toList, c.isAlphanum ∨ c = '_' := by simp
    simp only [String.toList_append, List.append_assoc]
    refine isLegal_pascal (h _ (Routine.package_mem_nameParts hpackage)) (fun c hc => ?_) (by simp)
    rcases List.mem_append.mp hc with hc | hc
    · exact hmiddle c hc
    · exact (List.mem_append.mp hc).elim mem_pascal (htail.1 c)

end Identifier

open Identifier

/-- The type belongs to a schema whose name starts with a letter, and has a name. -/
def TypeName.Lettered (n : TypeName) : Prop := isLettered n.owner.toList ∧ n.name ≠ ""

instance (n : TypeName) : Decidable n.Lettered := inferInstanceAs (Decidable (_ ∧ _))

/-- **The message of a type** is legal. -/
theorem TypeName.Lettered.isLegal_typeMessage {n : TypeName} (h : n.Lettered) :
    isLegal (typeMessage n).toList := by
  obtain ⟨howner, hname⟩ := h
  have hne : n.owner ≠ "" := by
    intro heq
    rw [heq] at howner
    cases howner
  obtain ⟨p, ps, hparts⟩ : ∃ p ps, n.parts = n.owner :: p :: ps := by
    rw [parts, List.filter_cons_of_pos (by simpa using hne)]
    cases hrest : [n.package, n.name].filter (· ≠ "") with
    | nil => exact absurd (List.filter_eq_nil_iff.mp hrest n.name (by simp)) (by simpa using hname)
    | cons p ps => exact ⟨p, ps, rfl⟩
  have hlist : (typeMessage n).toList = (pascal n.owner).toList ++
      ("__".toList ++ List.intercalate "__".toList ((p :: ps).map fun p => (pascal p).toList)) := by
    rw [typeMessage, hparts, String.toList_intercalate]
    simp [List.intercalate_cons_cons, Function.comp_def]
  rw [hlist]
  refine isLegal_pascal howner (fun c hc => ?_) (by simp)
  have hmark : ∀ c ∈ "__".toList, c.isAlphanum ∨ c = '_' := by simp
  rcases List.mem_append.mp hc with hc | hc
  · exact hmark c hc
  · rcases of_mem_intercalate hc with hc | ⟨q, hq, hc⟩
    · exact hmark c hc
    · obtain ⟨p, -, rfl⟩ := List.mem_map.mp hq
      exact mem_pascal hc

/-! ## Layouts -/

/-- Whatever composite type is used belongs to a schema whose name starts with a letter. -/
def DataType.Lettered (d : DataType) : Prop := ∀ r ∈ d.ref?, r.name.Lettered

instance (d : DataType) : Decidable d.Lettered := inferInstanceAs (Decidable (∀ r ∈ d.ref?, _))

/-- All definitions of the table are of such types, and refer to such types only. -/
def TypeTable.Lettered (t : TypeTable) : Prop :=
  ∀ c ∈ t.toList, c.name.Lettered ∧ ∀ r ∈ c.references, r.name.Lettered

instance (t : TypeTable) : Decidable t.Lettered := inferInstanceAs (Decidable (∀ c ∈ t.toList, _))

namespace TypeTable

variable {t : TypeTable}

theorem Lettered.of_get? (h : t.Lettered) (ht : t.Proper) {n : TypeName} {c : Composite}
    (hget : t.get? n = some c) : c.name.Lettered ∧ ∀ r ∈ c.references, r.name.Lettered := by
  refine h c ((t.mem_toList ht).mpr ?_)
  rwa [(ht n c hget).1]

theorem Lettered.reachableFrom (h : t.Lettered) (ht : t.Proper) (types : List DataType) :
    (t.reachableFrom types).Lettered := by
  intro c hc
  have hget := (mem_toList _ (ht.reachableFrom types)).mp hc
  exact h.of_get? ht ((get?_reachableFrom ht types).mp hget).1

end TypeTable

namespace Layout

open Wrapper

variable {r : Routine} {types : TypeTable} {options : Options}

/-- A field of such a type refers to messages of such types. -/
theorem refers_ofDataType (h : types.Lettered) (ht : types.Proper) {d : DataType}
    (hd : d.Lettered) : Refers (.ofDataType types options.numberAsString d) := by
  have htype : ∀ {n : TypeName}, n.Lettered → ∀ {name key}, Element.ofType n = .message name key →
      isLegal name.toList := by
    intro n hn name key heq
    obtain ⟨rfl, rfl⟩ := Element.message.inj heq
    exact hn.isLegal_typeMessage
  intro name key helement
  cases d with
  | scalar s => cases helement
  | composite r =>
      obtain ⟨kind, n⟩ := r
      have hname : n.Lettered := hd ⟨kind, n⟩ rfl
      cases kind with
      | record | cursor => exact htype hname helement
      | collection =>
          cases hget : types.get? n with
          | none =>
              simp only [FieldShape.ofDataType, TypeTable.element?, hget] at helement
              exact htype hname helement
          | some c =>
              simp only [FieldShape.ofDataType, TypeTable.element?, hget] at helement
              cases c with
              | record | cursor => exact htype hname helement
              | collection m e indexing =>
                  cases e with
                  | scalar e => cases helement
                  | composite inner =>
                      have hinner := (h.of_get? ht hget).2 inner (List.mem_singleton_self _)
                      exact htype hinner helement

/-- A message with fields in snake case that refer to legal names is legal by its own name. -/
theorem legal_of_slots {t : MessageTable} (hmessage : isLegal t.message.toList)
    (hslots : ∀ s ∈ t.slots, IsSnake s.field ∧ Refers s.shape) : Legal t where
  names := by
    refine List.forall_mem_cons.mpr ⟨hmessage, fun name hname => ?_⟩
    obtain ⟨s, hs, rfl⟩ := List.mem_map.mp hname
    exact (hslots s hs).1.isLegal_rust
  refers s hs := (hslots s hs).2

/-- **The messages of a call are legal.** -/
theorem legal_call (h : types.Lettered) (ht : types.Proper)
    (hnames : ∀ p ∈ r.nameParts, isLettered p.toList) (huses : ∀ d ∈ r.dataTypes, d.Lettered) :
    Legal (call r types options).request ∧ Legal (call r types options).response := by
  have hslots : ∀ s ∈ (call r types options).request.slots ++ (call r types options).response.slots,
      IsSnake s.field ∧ Refers s.shape := by
    intro s hs
    obtain ⟨x, hx, hslot⟩ := exists_parameter hs
    have hfield : s.field = x.field := congrArg Slot.field hslot
    have hshape : s.shape = .ofDataType types options.numberAsString x.dataType :=
      congrArg Slot.shape hslot
    rw [hfield, hshape]
    constructor
    · refine isSnake_fieldNames r _ ?_
      rw [← map_field_parameters]
      exact List.mem_map_of_mem hx
    · refine refers_ofDataType h ht (huses _ ?_)
      rw [← map_dataType_parameters]
      exact List.mem_map_of_mem hx
  exact ⟨legal_of_slots (isLegal_message hnames ⟨by simp, by simp⟩) fun s hs =>
      hslots s (List.mem_append_left _ hs),
    legal_of_slots (isLegal_message hnames ⟨by simp, by simp⟩) fun s hs =>
      hslots s (List.mem_append_right _ hs)⟩

/-- **The messages of types are legal.** -/
theorem legal_own (h : types.Lettered) (ht : types.Proper) {n : TypeName} {t : MessageTable}
    (hown : Own types options n t) : Legal t := by
  cases hown with
  | record definition =>
      rename_i attributes
      obtain ⟨hname, hreferences⟩ := h.of_get? ht definition
      refine legal_of_slots hname.isLegal_typeMessage fun s hs =>
        ⟨(regular_record types options n attributes).snake s hs, ?_⟩
      obtain ⟨field, ordinal, a, ha, rfl⟩ := exists_attribute hs
      exact refers_ofDataType h ht fun r hr => hreferences r (List.mem_filterMap.mpr ⟨a, ha, hr⟩)
  | wrapper inside =>
      have hname : n.Lettered :=
        (h.of_get? ht inside).2 ⟨.collection, n⟩ (List.mem_singleton_self _)
      refine legal_of_slots hname.isLegal_typeMessage fun s hs => ?_
      obtain rfl := List.mem_singleton.mp hs
      have hitems : IsSnake itemsField := ⟨by simp [itemsField], by decide, by decide⟩
      refine ⟨hitems, refers_ofDataType h ht fun r hr => ?_⟩
      obtain rfl := Option.some.inj hr
      exact hname

end Layout

/-! ## Models -/

namespace Model

open Wrapper

variable {routines : List Routine} {types : TypeTable} {options : Options}

/-- Names start with letters, wherever routines and the definitions that they use mention any. -/
structure Lettered (routines : List Routine) (types : TypeTable) : Prop where
  names : ∀ r ∈ routines, ∀ p ∈ r.nameParts, isLettered p.toList
  uses : ∀ r ∈ routines, ∀ d ∈ r.dataTypes, d.Lettered
  definitions : types.Lettered

/-- A frozen model has messages for all its routines: of two with one name, those of the later. -/
theorem exists_calls_freeze (routines : List Routine) (types : TypeTable) (options : Options) :
    ∃ c : Routine → CallLayout,
      (freeze routines types options).calls = .ok (routines.map fun r => (r, c r)) ∧
        ∀ r ∈ routines, ∃ r' ∈ routines,
          c r = Layout.call r' (freeze routines types options).types options := by
  have hcall : ∀ r ∈ routines, ∃ c, (freeze routines types options).call r = .ok c ∧
      ∃ r' ∈ routines, c = Layout.call r' (freeze routines types options).types options := by
    intro r hr
    obtain ⟨c, hc⟩ : ∃ c, (freeze routines types options).layout.call? r = some c :=
      SortedMap.exists_get?_ofList (List.mem_map_of_mem hr)
    refine ⟨c, ?_, Layout.exists_routine_of_get? hc⟩
    rw [call, hc]
  choose! c hc using hcall
  refine ⟨c, mapM_eq_ok fun r hr => ?_, fun r hr => (hc r hr).2⟩
  rw [(hc r hr).1]
  rfl

theorem readable_freeze (htypes : types.Proper) (hnames : Lettered routines types)
    {c : Routine → CallLayout} (hlayouts : ∀ r ∈ routines, ∃ r' ∈ routines,
      c r = Layout.call r' (freeze routines types options).types options) :
    Readable (freeze routines types options) (routines.map fun r => (r, c r)) := by
  have hproper : (freeze routines types options).types.Proper := htypes.reachableFrom _
  have htable : (freeze routines types options).types.Lettered :=
    hnames.definitions.reachableFrom htypes _
  have hlegal : ∀ r ∈ routines, Legal (c r).request ∧ Legal (c r).response := by
    intro r hr
    obtain ⟨r', hr', heq⟩ := hlayouts r hr
    rw [heq]
    exact Layout.legal_call htable hproper (hnames.names r' hr') (hnames.uses r' hr')
  refine ⟨?_, ?_, ?_, ?_, fun t ht => ?_⟩
  · exact List.forall_mem_map.mpr fun r _ => isWord_of_isIdentifier (isSnake_call r).isIdentifier
  · exact List.forall_mem_map.mpr fun r _ => (isWord_of_isLegal (isLegal_constant r)).1
  · exact List.forall_mem_map.mpr fun r hr => (hlegal r hr).1
  · exact List.forall_mem_map.mpr fun r hr => (hlegal r hr).2
  · obtain ⟨⟨name, t⟩, hentry, rfl⟩ := List.mem_map.mp ht
    obtain ⟨n, -, hown⟩ := Layout.own_of_message? hproper (SortedMap.get?_eq_some_iff.mpr hentry)
    exact Layout.legal_own htable hproper hown

/-- Of the declared names only calls may be illegal. -/
theorem legal_of_mem_declared {m : Model} {calls : List (Routine × CallLayout)}
    (h : Readable m calls) {name : String} (hname : name ∈ declared m calls) :
    isLegal name.toList ∨ ∃ rc ∈ calls, name = Identifier.call rc.1 := by
  rcases List.mem_append.mp hname with hname | hname
  · obtain ⟨t, ht, hmem⟩ := List.mem_flatMap.mp hname
    left
    rcases List.mem_append.mp ht with ht | ht
    · obtain ⟨rc, hrc, ht⟩ := List.mem_flatMap.mp ht
      simp only [List.mem_cons, List.not_mem_nil, or_false] at ht
      rcases ht with rfl | rfl
      · exact (h.request rc hrc).names name hmem
      · exact (h.response rc hrc).names name hmem
    · exact (h.messages t ht).names name hmem
  · obtain ⟨rc, hrc, hmem⟩ := List.mem_flatMap.mp hname
    simp only [List.mem_cons, List.not_mem_nil, or_false] at hmem
    rcases hmem with rfl | rfl
    · exact .inl (isLegal_constant rc.1)
    · exact .inr ⟨rc, hrc, rfl⟩

/-- **The identifiers of a wrapper.** Its structures and fields, its constants and functions stand
in it by their names, and whatever stands in the place of an identifier is legal, but for one kind
of names: a routine without a package is called by a keyword if it is named so. -/
theorem wrapper_identifiers (routines : List Routine) (types : TypeTable)
    (options emission : Options) (htypes : types.Proper) (hnames : Lettered routines types) :
    ∃ text calls, render (freeze routines types options) emission = .ok text ∧
      (freeze routines types options).calls = .ok calls ∧
      (∀ name ∈ declared (freeze routines types options) calls,
        name.toList ∈ words text.toList) ∧
      (∀ w ∈ words text.toList, isLegal w ∨ ∃ r ∈ routines, r.package.isEmpty ∧
        field r.exposedName ∈ keywords ∧ w = (Identifier.call r).toList) ∧
      ((∀ w ∈ words text.toList, isLegal w) ↔
        ∀ r ∈ routines, r.package.isEmpty → field r.exposedName ∉ keywords) := by
  obtain ⟨c, hcalls, hlayouts⟩ := exists_calls_freeze routines types options
  have hreadable := readable_freeze htypes hnames hlayouts
  obtain ⟨text, htext, hwords⟩ := words_render hcalls emission
  obtain ⟨hfound, hothers⟩ := reads_pieces hreadable emission
  rw [← hwords] at hfound hothers
  have hcall : ∀ w ∈ words text.toList,
      isLegal w ∨ ∃ r ∈ routines, w = (Identifier.call r).toList := by
    intro w hw
    rcases hothers w hw with hmem | hlegal
    · obtain ⟨name, hname, rfl⟩ := List.mem_map.mp hmem
      refine (legal_of_mem_declared hreadable hname).imp_right ?_
      rintro ⟨rc, hrc, rfl⟩
      obtain ⟨r, hr, rfl⟩ := List.mem_map.mp hrc
      exact ⟨r, hr, rfl⟩
    · exact .inl hlegal
  have hpresent : ∀ r ∈ routines, (Identifier.call r).toList ∈ words text.toList := by
    intro r hr
    refine hfound _ (List.mem_append_right _ (List.mem_flatMap.mpr ⟨_, List.mem_map_of_mem hr, ?_⟩))
    simp
  refine ⟨text, _, htext, hcalls, hfound, fun w hw => ?_, ?_, fun hfree w hw => ?_⟩
  · rcases hcall w hw with hlegal | ⟨r, hr, rfl⟩
    · exact .inl hlegal
    · rw [isLegal_call_iff]
      by_cases hkeyword : r.package.isEmpty ∧ field r.exposedName ∈ keywords
      · exact .inr ⟨r, hr, hkeyword.1, hkeyword.2, rfl⟩
      · exact .inl fun hpackage hmem => hkeyword ⟨hpackage, hmem⟩
  · exact fun hlegal r hr => (isLegal_call_iff r).mp (hlegal _ (hpresent r hr))
  · rcases hcall w hw with hlegal | ⟨r, hr, rfl⟩
    · exact hlegal
    · exact (isLegal_call_iff r).mpr (hfree r hr)

/-- A routine of a package, and one that stands alone and is named like a keyword. -/
def sampleKeyword : List Routine := sampleOrders ++ [Routine.named "APP" "" "TYPE"]

theorem wrapper_identifiers_sample :
    sampleTypes.Proper ∧ Lettered sampleKeyword sampleTypes ∧
      ∃ text calls, render (freeze sampleKeyword sampleTypes {}) {} = .ok text ∧
        (freeze sampleKeyword sampleTypes {}).calls = .ok calls ∧
        (∀ name ∈ declared (freeze sampleKeyword sampleTypes {}) calls,
          name.toList ∈ words text.toList) ∧
        (∀ w ∈ words text.toList, isLegal w ∨ ∃ r ∈ sampleKeyword, r.package.isEmpty ∧
          field r.exposedName ∈ keywords ∧ w = (Identifier.call r).toList) ∧
        ((∀ w ∈ words text.toList, isLegal w) ↔
          ∀ r ∈ sampleKeyword, r.package.isEmpty → field r.exposedName ∉ keywords) := by
  have hnames : Lettered sampleKeyword sampleTypes := ⟨by decide, by decide, by decide⟩
  exact ⟨proper_sampleTypes, hnames,
    wrapper_identifiers sampleKeyword sampleTypes {} {} proper_sampleTypes hnames⟩

/-- The catalog may name a routine without a package by a keyword. The wrapper then declares and
calls a function by the bare keyword. -/
theorem wrapper_identifiers_keyword :
    let r := Routine.named "APP" "" "TYPE"
    (∀ p ∈ r.nameParts, isCatalog p.toList) ∧
      ∃ text, render (freeze [r] .empty {}) {} = .ok text ∧
        ∃ w ∈ words text.toList, w = "type".toList ∧ ¬ isLegal w := by
  have hcatalog : ∀ p ∈ (Routine.named "APP" "" "TYPE").nameParts, isCatalog p.toList := by decide
  have hnames : Lettered [Routine.named "APP" "" "TYPE"] .empty := by
    refine ⟨List.forall_mem_singleton.mpr fun p hp => ?_, by decide, by decide⟩
    exact isLettered_of_isCatalog (hcatalog p hp)
  obtain ⟨c, hcalls, hlayouts⟩ := exists_calls_freeze [Routine.named "APP" "" "TYPE"] .empty {}
  obtain ⟨text, htext, hwords⟩ := words_render hcalls {}
  have hread := reads_pieces (readable_freeze TypeTable.proper_empty hnames hlayouts) {}
  have hcall : Identifier.call (Routine.named "APP" "" "TYPE") = "type" := by decide
  refine ⟨hcatalog, text, htext, _, ?_, rfl, by decide⟩
  rw [hwords]
  refine hread.found "type" (List.mem_append_right _ ?_)
  simp [hcall]

end Model

end RoutineBridge
