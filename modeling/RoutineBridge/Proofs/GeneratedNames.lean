import RoutineBridge.Proofs.Agreement
import RoutineBridge.Proofs.MessageNames

/-!
# Generated names of routines

Artifacts name a routine in two ways: messages in Pascal case, where case and underscores come to
the same, and calls, constants and fixtures in snake case, where every mark comes to an underscore.
Routines that differ may share all these names (`Model.names_shared`). Names of words can be read
back from both: a call backwards, since a word that is reserved has an underscore behind it
(`Routine.Worded.readCall_call`), a message if capital letters do not tell words apart that
underscores do not (`Routine.Cased`). Main statement: routines with such names share no generated
name, so no artifact is made twice and nothing in it is declared twice
(`Model.freeze_declares_once`).
-/

namespace RoutineBridge

/-! ## Letter case -/

namespace Identifier

section Characters

variable {c : Char}

theorem isUpper_or_isDigit_toUpper (h : c.isAlphanum) : c.toUpper.isUpper ∨ c.toUpper.isDigit :=
  Text.of_isAlphanum (p := fun c => c.isAlphanum → c.toUpper.isUpper ∨ c.toUpper.isDigit)
    (by decide) h h

theorem isDigit_toUpper (h : c.isAlphanum) : c.toUpper.isDigit = c.isDigit :=
  Text.of_isAlphanum (p := fun c => c.toUpper.isDigit = c.isDigit) (by decide) h

theorem toUpper_toUpper (h : c.isAlphanum) : c.toUpper.toUpper = c.toUpper :=
  Text.of_isAlphanum (p := fun c => c.toUpper.toUpper = c.toUpper) (by decide) h

theorem toLower_toUpper (h : c.isAlphanum) : c.toUpper.toLower = c.toLower :=
  Text.of_isAlphanum (p := fun c => c.toUpper.toLower = c.toLower) (by decide) h

theorem toLower_toUpper_toLower (h : c.isAlphanum) : c.toLower.toUpper.toLower = c.toLower :=
  Text.of_isAlphanum (p := fun c => c.toLower.toUpper.toLower = c.toLower) (by decide) h

theorem toLower_eq_self (h : c.isAlphanum) (hupper : ¬ c.isUpper) : c.toLower = c :=
  Text.of_isAlphanum (p := fun c => ¬ c.isUpper → c.toLower = c) (by decide) h hupper

theorem classes_of_isAlpha (h : c.isAlpha) : c.isAlphanum ∧ c.toUpper.isUpper ∧
    c.toLower.isLower ∧ ¬ c.toLower.isDigit := by
  have halnum : c.isAlphanum := Bool.or_eq_true_iff.mpr (.inl h)
  exact Text.of_isAlphanum (p := fun c => c.isAlpha → c.isAlphanum ∧ c.toUpper.isUpper ∧
    c.toLower.isLower ∧ ¬ c.toLower.isDigit) (by decide) halnum h

theorem classes_of_isLower (h : c.isLower) : c.toLower = c ∧ ¬ c.toUpper.isLower := by
  have halpha : c.isAlpha := Bool.or_eq_true_iff.mpr (.inr h)
  have halnum : c.isAlphanum := Bool.or_eq_true_iff.mpr (.inl halpha)
  exact Text.of_isAlphanum (p := fun c => c.isLower → c.toLower = c ∧ ¬ c.toUpper.isLower)
    (by decide) halnum h

end Characters

/-- No underscore stands next to another, and none at the end. -/
theorem unbroken_iff {cs : List Char} :
    unbroken cs ↔ ¬ ['_', '_'] <:+: cs ∧ cs.getLast? ≠ some '_' := by
  induction cs with
  | nil => simp [unbroken]
  | cons c cs ih =>
      rw [unbroken, Bool.and_eq_true, ih, Bool.or_eq_true, bne_iff_ne, List.infix_cons_iff]
      cases cs with
      | nil => simp
      | cons d ds =>
          rw [List.getLast?_cons_cons, List.head?_cons, Option.any_some, bne_iff_ne,
            List.cons_prefix_cons, List.cons_prefix_cons]
          have hnil : ([] : List Char) <+: ds := List.nil_prefix
          grind

/-- A text that starts with something else than an underscore may be read backwards. -/
theorem unbroken_reverse {cs : List Char} (h : unbroken cs) (hstart : cs.head? ≠ some '_') :
    unbroken cs.reverse := by
  refine unbroken_iff.mpr ⟨fun hinfix => (unbroken_iff.mp h).1 ?_, ?_⟩
  · exact List.reverse_infix.mp hinfix
  · rwa [List.getLast?_reverse]

theorem unbroken_map {f : Char → Char} {cs : List Char} (hf : ∀ c ∈ cs, f c = '_' → c = '_')
    (h : unbroken cs) : unbroken (cs.map f) := by
  induction cs with
  | nil => rfl
  | cons c cs ih =>
      obtain ⟨hc, hcs⟩ := List.forall_mem_cons.mp hf
      rw [unbroken, Bool.and_eq_true, Bool.or_eq_true, bne_iff_ne] at h
      rw [List.map_cons, unbroken, ih hcs h.2, Bool.and_true, Bool.or_eq_true, bne_iff_ne]
      refine h.1.imp (fun hne heq => hne (hc heq)) fun hnext => ?_
      cases cs with
      | nil => cases hnext
      | cons d ds =>
          have hd : f d = '_' → d = '_' := hcs d List.mem_cons_self
          exact bne_iff_ne.mpr fun heq => bne_iff_ne.mp hnext (hd heq)

section Words

variable {s t : String}

/-- Words start with a letter. -/
theorem exists_cons_of_isWorded {cs : List Char} (h : isWorded cs) :
    ∃ c ds, cs = c :: ds ∧ c.isAlpha := by
  obtain ⟨hstart, -⟩ := isWorded_iff.mp h
  cases cs with
  | nil => cases hstart
  | cons c ds => exact ⟨c, ds, rfl, hstart⟩

theorem eq_underscore_of_isWorded {cs : List Char} (h : isWorded cs) {f : Char → Char}
    (hf : ∀ c, c.isAlphanum → f c ≠ '_') : ∀ c ∈ cs, f c = '_' → c = '_' := fun c hc heq =>
  ((isWorded_iff.mp h).2.1 c hc).resolve_left fun halnum => hf c halnum heq

/-- Words in capital letters are regular. -/
theorem isRegular_asciiUpper (h : isWorded s.toList) : isRegular (Text.asciiUpper s).toList := by
  obtain ⟨-, hchars, hunbroken⟩ := isWorded_iff.mp h
  obtain ⟨first, cs, hs, halpha⟩ := exists_cons_of_isWorded h
  rw [Text.asciiUpper, String.toList_ofList]
  refine isRegular_iff.mpr ⟨?_, fun d hd => ?_, ?_⟩
  · obtain ⟨-, hupper, -⟩ := classes_of_isAlpha halpha
    rwa [hs]
  · obtain ⟨c, hc, rfl⟩ := List.mem_map.mp hd
    rcases hchars c hc with halnum | rfl
    · exact (isUpper_or_isDigit_toUpper halnum).imp_right .inl
    · exact .inr (.inr rfl)
  · exact unbroken_map (eq_underscore_of_isWorded h fun c hc => (ne_underscore hc).2.1) hunbroken

/-- The lower case form of words can be read in their capital letters. -/
theorem lower_eq_of_isWorded (h : isWorded s.toList) :
    Text.lower s = Text.asciiLower (Text.asciiUpper s) := by
  have hascii : ∀ c ∈ s.toList, c.toNat < 128 ∧ c.toUpper.toLower = c.toLower := by
    intro c hc
    rcases (isWorded_iff.mp h).2.1 c hc with halnum | rfl
    · exact ⟨Text.toNat_lt_of_isAlphanum halnum, toLower_toUpper halnum⟩
    · decide
  have hlower : ∀ before cs, (∀ c ∈ cs, c.toNat < 128 ∧ c.toUpper.toLower = c.toLower) →
      Text.lowerAfter before cs = (cs.map Char.toUpper).map Char.toLower := by
    intro before cs hcs
    induction cs generalizing before with
    | nil => rfl
    | cons c cs ih =>
        obtain ⟨⟨hlt, hcase⟩, hcs⟩ := List.forall_mem_cons.mp hcs
        rw [Text.lowerAfter, Text.lowerChar, if_pos hlt, ih _ hcs, List.map_cons, List.map_cons,
          hcase]
        rfl
  rw [Text.lower, hlower [] _ hascii, Text.asciiLower, Text.asciiUpper, String.toList_ofList]

end Words

/-! ### Capital letters -/

/-- No capital letter stands behind a letter or digit. -/
def capitalsFirst : List Char → Bool
  | c :: d :: cs => !(c.isAlphanum && d.isUpper) && capitalsFirst (d :: cs)
  | _ => true

/-- The case of letters does not tell words apart: all letters are capital, or no capital letter
stands inside a word. -/
def isCased (cs : List Char) : Bool := !cs.any Char.isLower || capitalsFirst cs

theorem joinWords_map_toUpper {cs : List Char} (h : ∀ c ∈ cs, c.isAlphanum ∨ c = '_')
    (upperNext : Bool) :
    joinWords false upperNext (cs.map Char.toUpper) = joinWords false upperNext cs := by
  induction cs generalizing upperNext with
  | nil => rfl
  | cons c cs ih =>
      obtain ⟨hc, hcs⟩ := List.forall_mem_cons.mp h
      rw [List.map_cons]
      rcases hc with halnum | rfl
      · have halnum' : c.toUpper.isAlphanum := by
          rcases isUpper_or_isDigit_toUpper halnum with hupper | hdigit
          · exact (classes_of_isUpper hupper).1
          · exact (classes_of_isDigit hdigit).1
        rw [joinWords_cons halnum', joinWords_cons halnum, ih hcs, toLower_toUpper halnum,
          toUpper_toUpper halnum]
        rfl
      · have hdigit : (cs.map Char.toUpper).head?.any Char.isDigit = cs.head?.any Char.isDigit := by
          cases cs with
          | nil => rfl
          | cons d ds =>
              rcases hcs d List.mem_cons_self with halnum | rfl
              · exact isDigit_toUpper halnum
              · rfl
        rw [show ('_' : Char).toUpper = '_' from rfl, joinWords_underscore, joinWords_underscore,
          ih hcs, hdigit]

/-- Where no capital letter stands inside a word, it does not matter whether case is kept. -/
theorem joinWords_keepCase {cs : List Char} (h : ∀ c ∈ cs, c.isAlphanum ∨ c = '_')
    (hcapitals : capitalsFirst cs) {upperNext : Bool}
    (hstart : upperNext = false → ¬ cs.head?.any Char.isUpper) :
    joinWords true upperNext cs = joinWords false upperNext cs := by
  induction cs generalizing upperNext with
  | nil => rfl
  | cons c cs ih =>
      obtain ⟨hc, hcs⟩ := List.forall_mem_cons.mp h
      have hbelow : capitalsFirst cs ∧ (c.isAlphanum → ¬ cs.head?.any Char.isUpper) := by
        cases cs with
        | nil => exact ⟨rfl, fun _ => nofun⟩
        | cons d ds =>
            rw [capitalsFirst, Bool.and_eq_true, Bool.not_eq_true',
              Bool.and_eq_false_iff] at hcapitals
            refine ⟨hcapitals.2, fun halnum => ?_⟩
            rw [List.head?_cons, Option.any_some, hcapitals.1.resolve_left (by simp [halnum])]
            exact Bool.false_ne_true
      rcases hc with halnum | rfl
      · rw [joinWords_cons halnum, joinWords_cons halnum,
          ih hcs hbelow.1 fun _ => hbelow.2 halnum]
        cases upperNext with
        | true => rfl
        | false =>
            have hsame : c.toLower = c := toLower_eq_self halnum (hstart rfl)
            simp [hsame]
      · rw [joinWords_underscore, joinWords_underscore, ih hcs hbelow.1 (by simp)]

theorem pascal_asciiUpper {s : String} (h : isWorded s.toList) (hcased : isCased s.toList) :
    pascal (Text.asciiUpper s) = pascal s := by
  have hchars := (isWorded_iff.mp h).2.1
  rw [pascal_of_isRegular (isRegular_asciiUpper h), pascal_of_isWorded h, Text.asciiUpper,
    String.toList_ofList, joinWords_map_toUpper hchars]
  cases hlower : s.toList.any Char.isLower with
  | false => rfl
  | true =>
      rw [isCased, hlower, Bool.not_true, Bool.false_or] at hcased
      rw [joinWords_keepCase hchars hcased (by simp)]

theorem asciiUpper_eq_of_pascal_eq {s t : String} (hs : isWorded s.toList) (hs' : isCased s.toList)
    (ht : isWorded t.toList) (ht' : isCased t.toList) (heq : pascal s = pascal t) :
    Text.asciiUpper s = Text.asciiUpper t := by
  rw [← pascal_asciiUpper hs hs', ← pascal_asciiUpper ht ht'] at heq
  refine List.singleton_inj.mp (joined_inj (by simp) (by simp) ?_ ?_ heq)
  · simpa using isRegular_asciiUpper hs
  · simpa using isRegular_asciiUpper ht

/-- The word that a service is named by. -/
def serviceWord (package : String) : String :=
  if package.isEmpty then "PROCEDURES" else Text.asciiUpper package

theorem service_eq {package : String}
    (h : ¬ package.isEmpty → isWorded package.toList ∧ isCased package.toList) :
    service package = joined [serviceWord package] ∧ isRegular (serviceWord package).toList := by
  rw [service, serviceWord]
  split
  · decide
  · rename_i hpresent
    obtain ⟨hworded, hcased⟩ := h hpresent
    exact ⟨(pascal_asciiUpper hworded hcased).symm, isRegular_asciiUpper hworded⟩

/-! ### Snake case -/

section Snake

variable {s : String}

theorem toList_lower (h : isWorded s.toList) :
    (Text.lower s).toList = s.toList.map Char.toLower := by
  rw [lower_eq_of_isWorded h, Text.asciiLower, Text.asciiUpper, String.toList_ofList,
    String.toList_ofList, List.map_map]
  refine List.map_congr_left fun c hc => ?_
  rcases (isWorded_iff.mp h).2.1 c hc with halnum | rfl
  · exact toLower_toUpper halnum
  · rfl

theorem asciiLower_eq_of_isWorded (h : isWorded s.toList) : Text.asciiLower s = Text.lower s := by
  rw [← String.toList_inj, toList_lower h, Text.asciiLower, String.toList_ofList]

/-- Only the service without package is named otherwise than its package. -/
theorem asciiLower_serviceWord {package : String}
    (h : ¬ package.isEmpty → isWorded package.toList) : Text.asciiLower (serviceWord package) =
      if package.isEmpty then "procedures" else Text.asciiLower package := by
  rw [serviceWord]
  split
  · decide
  · rename_i hpresent
    rw [← lower_eq_of_isWorded (h hpresent), asciiLower_eq_of_isWorded (h hpresent)]

theorem unbroken_lower (h : isWorded s.toList) :
    unbroken (Text.lower s).toList ∧ unbroken (Text.lower s).toList.reverse := by
  obtain ⟨-, -, hunbroken⟩ := isWorded_iff.mp h
  have hforward : unbroken (s.toList.map Char.toLower) :=
    unbroken_map (eq_underscore_of_isWorded h fun c hc => (ne_underscore hc).2.2) hunbroken
  rw [toList_lower h]
  refine ⟨hforward, unbroken_reverse hforward ?_⟩
  obtain ⟨c, cs, hs, halpha⟩ := exists_cons_of_isWorded h
  obtain ⟨halnum, -⟩ := classes_of_isAlpha halpha
  rw [hs, List.map_cons, List.head?_cons]
  exact fun heq => (ne_underscore halnum).2.2 (Option.some.inj heq)

/-- Words in snake case are words in lower case, up to an underscore behind a reserved word. -/
theorem field_of_isWorded (h : isWorded s.toList) :
    field s = String.ofList (avoidReserved (Text.lower s).toList) := by
  obtain ⟨-, hchars, -⟩ := isWorded_iff.mp h
  have hplain : ∀ c ∈ s.toList, ¬ Text.isBlank c ∧ c ≠ '#' ∧ snakeChar c = c.toLower := by
    intro c hc
    rcases hchars c hc with halnum | rfl
    · refine ⟨?_, ?_, if_pos halnum⟩
      · exact Text.of_isAlphanum (p := fun c => c.isAlphanum → ¬ Text.isBlank c) (by decide) halnum
          halnum
      · rintro rfl
        cases halnum
    · decide
  have hhidden : splitHidden s.toList = (s.toList, false) := by
    rw [splitHidden, if_neg]
    exact fun hlast => (hplain '#' (List.mem_of_getLast? hlast)).2.1 rfl
  have hident : startIdent (s.toList.map Char.toLower) = s.toList.map Char.toLower := by
    obtain ⟨c, cs, hs, halpha⟩ := exists_cons_of_isWorded h
    obtain ⟨-, -, -, hdigit⟩ := classes_of_isAlpha halpha
    rw [hs]
    exact if_neg hdigit
  have hvisible : s.toList.all (!Text.isBlank ·) :=
    List.all_eq_true.mpr fun c hc => by simpa using (hplain c hc).1
  rw [field, Text.trim_eq_self hvisible, hhidden]
  simp only [Bool.false_eq_true, if_false, List.append_nil]
  rw [List.map_congr_left fun c hc => (hplain c hc).2.2, hident, toList_lower h]

/-- The text without the underscore at its end. -/
def withoutMark (cs : List Char) : List Char :=
  if cs.getLast? = some '_' then cs.dropLast else cs

/-- Words can be read in snake case, and snake case can be read backwards. -/
theorem withoutMark_field (h : isWorded s.toList) :
    withoutMark (field s).toList = (Text.lower s).toList ∧ unbroken (field s).toList.reverse := by
  obtain ⟨hforward, hbackward⟩ := unbroken_lower h
  have hlast := (unbroken_iff.mp hforward).2
  rw [field_of_isWorded h, String.toList_ofList, avoidReserved]
  split
  · rename_i hreserved
    refine ⟨by rw [withoutMark, if_pos List.getLast?_concat, List.dropLast_concat], ?_⟩
    have hwords : ∀ word ∈ reserved, word.getLast? ≠ some '_' →
        unbroken (word ++ ['_']).reverse := by decide
    exact hwords _ (List.contains_iff_mem.mp hreserved) hlast
  · exact ⟨if_neg hlast, hbackward⟩

theorem exists_isLower_field (h : isWorded s.toList) : ∃ c ∈ (field s).toList, c.isLower := by
  obtain ⟨c, cs, hs, halpha⟩ := exists_cons_of_isWorded h
  obtain ⟨-, -, hlower, -⟩ := classes_of_isAlpha halpha
  have hmem : c.toLower ∈ (Text.lower s).toList := by
    rw [toList_lower h, hs]
    exact .head _
  refine ⟨c.toLower, ?_, hlower⟩
  rw [field_of_isWorded h, String.toList_ofList, avoidReserved]
  split
  · exact List.mem_append_left _ hmem
  · exact hmem

/-- Snake case has no capital letters. -/
theorem toLower_toUpper_field (name : String) :
    ∀ c ∈ (field name).toList, c.toUpper.toLower = c := by
  have hsnake : ∀ c, (snakeChar c).toUpper.toLower = snakeChar c := by
    intro c
    rw [snakeChar]
    split
    · rename_i halnum
      exact toLower_toUpper_toLower halnum
    · rfl
  intro c hc
  have hmem : ∀ cs, c ∈ avoidReserved (startIdent cs) → c ∈ cs ∨ c ∈ ['f', '_'] := by
    intro cs hcs
    rw [avoidReserved] at hcs
    cases cs <;> simp only [startIdent] at hcs <;> grind
  rw [field, String.toList_ofList] at hc
  rcases hmem _ hc with hc | hc
  · rcases List.mem_append.mp hc with hc | hc
    · obtain ⟨d, -, rfl⟩ := List.mem_map.mp hc
      exact hsnake d
    · split at hc
      · have hhidden : ∀ d ∈ "_hidden".toList, d.toUpper.toLower = d := by simp
        exact hhidden c hc
      · cases hc
  · have hmarks : ∀ d ∈ ['f', '_'], d.toUpper.toLower = d := by simp
    exact hmarks c hc

end Snake

end Identifier

/-! ## Routines -/

open Identifier

namespace Routine

/-- The package, if there is one, and the name. -/
def nameParts (r : Routine) : List String :=
  if r.package.isEmpty then [r.exposedName] else [r.package, r.exposedName]

/-- The routine is named by words, in any letter case. -/
def Worded (r : Routine) : Prop := ∀ p ∈ r.nameParts, isWorded p.toList

/-- The case of letters does not tell the words of the routine apart. -/
def Cased (r : Routine) : Prop := ∀ p ∈ r.nameParts, isCased p.toList

instance (r : Routine) : Decidable r.Worded := inferInstanceAs (Decidable (∀ p ∈ r.nameParts, _))

instance (r : Routine) : Decidable r.Cased := inferInstanceAs (Decidable (∀ p ∈ r.nameParts, _))

/-- The names in capital letters. -/
def words (r : Routine) : List String := r.nameParts.map Text.asciiUpper

variable {r r' : Routine}

theorem exposedName_mem_nameParts (r : Routine) : r.exposedName ∈ r.nameParts := by
  rw [nameParts]
  split <;> simp

theorem package_mem_nameParts (h : ¬ r.package.isEmpty) : r.package ∈ r.nameParts := by
  rw [nameParts, if_neg h]
  exact List.mem_cons_self

theorem qualifiedName_eq (r : Routine) :
    r.qualifiedName = ".".intercalate (r.nameParts.map Text.lower) := by
  rw [qualifiedName, qualify, nameParts]
  split <;> rfl

/-- Reads the names back from a call, the last one first. -/
def readCall (ident : String) : List String :=
  ((parts ident.toList.reverse).map fun p => String.ofList (withoutMark p.reverse)).reverse

theorem Worded.readCall_call (h : r.Worded) : readCall (call r) = r.nameParts.map Text.lower := by
  have hread : ∀ p ∈ r.nameParts, String.ofList (withoutMark (field p).toList) = Text.lower p ∧
      unbroken (field p).toList.reverse := by
    intro p hp
    obtain ⟨hlower, hbackward⟩ := withoutMark_field (h p hp)
    exact ⟨by rw [hlower, String.ofList_toList], hbackward⟩
  rw [readCall, call]
  rw [nameParts] at hread ⊢
  split
  · rename_i hpackage
    rw [if_pos hpackage] at hread
    obtain ⟨hname, hbackward⟩ := hread r.exposedName (.head _)
    rw [parts_of_unbroken hbackward, List.map_singleton, List.reverse_reverse, hname]
    rfl
  · rename_i hpackage
    rw [if_neg hpackage] at hread
    obtain ⟨hfirst, hbackward⟩ := hread r.package (.head _)
    obtain ⟨hname, hbackward'⟩ := hread r.exposedName (.tail _ (.head _))
    have hparts : parts ('_' :: '_' :: (field r.package).toList.reverse) =
        [[], (field r.package).toList.reverse] := by
      rw [parts, parts_of_unbroken hbackward]
    rw [String.toList_append, String.toList_append, List.reverse_append, List.reverse_append,
      show "__".toList.reverse = ['_', '_'] from rfl, List.cons_append, List.cons_append,
      List.nil_append, parts_append hbackward' hparts]
    simp [hfirst, hname]

/-- **Calls tell routines apart.** -/
theorem Worded.qualifiedName_eq_of_call (h : r.Worded) (h' : r'.Worded) (heq : call r = call r') :
    r.qualifiedName = r'.qualifiedName := by
  rw [qualifiedName_eq, qualifiedName_eq, ← h.readCall_call, ← h'.readCall_call, heq]

theorem toLower_toUpper_call (r : Routine) : ∀ c ∈ (call r).toList, c.toUpper.toLower = c := by
  intro c hc
  rw [call] at hc
  split at hc
  · exact toLower_toUpper_field _ c hc
  · simp only [String.toList_append, List.mem_append] at hc
    rcases hc with (hc | hc) | hc
    · exact toLower_toUpper_field _ c hc
    · have hmark : ∀ d ∈ "__".toList, d.toUpper.toLower = d := by simp
      exact hmark c hc
    · exact toLower_toUpper_field _ c hc

/-- A call can be read in its constant, whatever the routine is named. -/
theorem asciiLower_constant (r : Routine) : Text.asciiLower (constant r) = call r := by
  have hsame : (call r).toList.map (Char.toLower ∘ Char.toUpper) = (call r).toList :=
    (List.map_congr_left (toLower_toUpper_call r)).trans (List.map_id _)
  rw [Text.asciiLower, constant, Text.asciiUpper, String.toList_ofList, List.map_map, hsame,
    String.ofList_toList]

/-- A call has a lower case letter, which no constant has. -/
theorem Worded.call_ne_constant (h : r.Worded) (r' : Routine) : call r ≠ constant r' := by
  obtain ⟨c, hc, hlower⟩ : ∃ c ∈ (call r).toList, c.isLower := by
    obtain ⟨c, hc, hlower⟩ := exists_isLower_field (h _ r.exposedName_mem_nameParts)
    refine ⟨c, ?_, hlower⟩
    rw [call]
    split
    · exact hc
    · rw [String.toList_append]
      exact List.mem_append_right _ hc
  intro heq
  rw [heq, constant, Text.asciiUpper, String.toList_ofList] at hc
  obtain ⟨d, hd, rfl⟩ := List.mem_map.mp hc
  -- the lower case letter is one of the call of the other routine, in capital letters
  have hsame := toLower_toUpper_call r' d hd
  obtain ⟨hself, hupper⟩ := classes_of_isLower hlower
  rw [hself] at hsame
  rw [hsame, hsame] at hupper
  exact hupper (hsame ▸ hlower)

/-- The path of a fixture holds the call, whatever the routine is named. -/
theorem call_eq_of_path_eq (heq : Fixture.path r = Fixture.path r') : call r = call r' := by
  have hlists := congrArg String.toList heq
  simp only [Fixture.path, String.toList_append] at hlists
  exact String.toList_inj.mp (List.append_cancel_left (List.append_cancel_right hlists))

/-! ### Messages -/

theorem Worded.isRegular_of_mem (h : r.Worded) : ∀ p ∈ r.words, isRegular p.toList := by
  intro p hp
  obtain ⟨q, hq, rfl⟩ := List.mem_map.mp hp
  exact isRegular_asciiUpper (h q hq)

theorem Worded.qualifiedName_eq_of_words (h : r.Worded) (h' : r'.Worded)
    (heq : r.words = r'.words) : r.qualifiedName = r'.qualifiedName := by
  have hlower : ∀ {f : Routine}, f.Worded → f.nameParts.map Text.lower =
      f.words.map Text.asciiLower := by
    intro f hf
    rw [words, List.map_map]
    exact List.map_congr_left fun p hp => lower_eq_of_isWorded (hf p hp)
  rw [qualifiedName_eq, qualifiedName_eq, hlower h, hlower h', heq]

/-- In a package, the name in capital letters is enough. -/
theorem Worded.qualifiedName_eq_of_package (h : r.Worded) (h' : r'.Worded)
    (hpackage : Text.asciiLower r.package = Text.asciiLower r'.package)
    (hname : Text.asciiUpper r.exposedName = Text.asciiUpper r'.exposedName) :
    r.qualifiedName = r'.qualifiedName := by
  have hempty : r.package.isEmpty = r'.package.isEmpty := by
    have hlength := congrArg String.length hpackage
    simp only [Text.asciiLower, String.length_ofList, List.length_map,
      String.length_toList] at hlength
    rw [Bool.eq_iff_iff, String.isEmpty_iff, String.isEmpty_iff, ← String.length_eq_zero_iff,
      ← String.length_eq_zero_iff, hlength]
  rw [qualifiedName, qualifiedName, qualify, qualify,
    lower_eq_of_isWorded (h _ r.exposedName_mem_nameParts),
    lower_eq_of_isWorded (h' _ r'.exposedName_mem_nameParts), hname, hempty]
  split
  · rfl
  · rename_i hpresent
    rw [← asciiLower_eq_of_isWorded (h _ (package_mem_nameParts (by rwa [hempty]))),
      ← asciiLower_eq_of_isWorded (h' _ (package_mem_nameParts hpresent)), hpackage]

theorem words_ne_nil (r : Routine) : r.words ≠ [] := by
  rw [words, nameParts]
  split <;> simp

/-- The messages of a call are named by its words and one more. -/
theorem Worded.joined_words (h : r.Worded) (hc : r.Cased) (word : String) :
    joined (r.words ++ [word]) = base r ++ "__" ++ pascal word := by
  have hpascal : r.words.map pascal = r.nameParts.map pascal := by
    rw [words, List.map_map]
    exact List.map_congr_left fun p hp => pascal_asciiUpper (h p hp) (hc p hp)
  rw [joined, List.map_append, hpascal, base, nameParts]
  split <;> rfl

theorem Worded.requestMessage_eq (h : r.Worded) (hc : r.Cased) :
    requestMessage r = joined (r.words ++ ["REQUEST"]) := by
  rw [h.joined_words hc, show pascal "REQUEST" = "Request" by decide, String.append_assoc]
  rfl

theorem Worded.responseMessage_eq (h : r.Worded) (hc : r.Cased) :
    responseMessage r = joined (r.words ++ ["RESPONSE"]) := by
  rw [h.joined_words hc, show pascal "RESPONSE" = "Response" by decide, String.append_assoc]
  rfl

/-- The last words of messages of calls. -/
def messageWords : List String := ["REQUEST", "RESPONSE"]

theorem Worded.exists_of_mem_messages (h : r.Worded) (hc : r.Cased) {message : String}
    (hmem : message ∈ [requestMessage r, responseMessage r]) :
    ∃ word ∈ messageWords, message = joined (r.words ++ [word]) := by
  rw [h.requestMessage_eq hc, h.responseMessage_eq hc, List.mem_pair] at hmem
  rcases hmem with rfl | rfl
  · exact ⟨_, .head _, rfl⟩
  · exact ⟨_, .tail _ (.head _), rfl⟩

theorem Worded.isRegular_of_mem_append (h : r.Worded) {word : String}
    (hword : word ∈ messageWords) : ∀ p ∈ r.words ++ [word], isRegular p.toList := by
  have hwords : ∀ w ∈ messageWords, isRegular w.toList := by decide
  intro p hp
  rcases List.mem_append.mp hp with hp | hp
  · exact h.isRegular_of_mem p hp
  · exact List.mem_singleton.mp hp ▸ hwords word hword

/-- **Messages tell calls apart**, and requests from responses. -/
theorem Worded.words_eq_of_joined (h : r.Worded) (h' : r'.Worded) {word word' : String}
    (hword : word ∈ messageWords) (hword' : word' ∈ messageWords)
    (heq : joined (r.words ++ [word]) = joined (r'.words ++ [word'])) :
    r.words = r'.words ∧ word = word' := by
  have hlists := joined_inj (by simp) (by simp) (h.isRegular_of_mem_append hword)
    (h'.isRegular_of_mem_append hword') heq
  obtain ⟨hwords, hlast⟩ := List.append_inj' hlists rfl
  exact ⟨hwords, List.singleton_inj.mp hlast⟩

/-- A type shares the message of a call only if it is named by the words of the call and the one
that messages end with. -/
theorem Worded.joined_ne_typeMessage (h : r.Worded) {word : String} (hword : word ∈ messageWords)
    {n : TypeName} (hn : n.Regular) (hname : n.name ∉ messageWords) :
    joined (r.words ++ [word]) ≠ typeMessage n := by
  intro heq
  have hlists : r.words ++ [word] = n.parts := joined_inj (by simp) hn.parts_ne_nil
    (h.isRegular_of_mem_append hword) (fun _ => hn.isRegular_of_mem) heq
  have hlast : n.parts.getLast? = some n.name := by
    rw [hn.parts_eq]
    split <;> rfl
  rw [← hlists, List.getLast?_concat] at hlast
  exact hname (Option.some.inj hlast ▸ hword)

end Routine

/-! ## Layouts -/

namespace Layout

variable {routines : List Routine} {types : TypeTable} {options : Options}

/-- A message is named by the type it belongs to, and found under this name. -/
theorem exists_type_of_mem_entries {key : String} {t : MessageTable}
    (h : (key, t) ∈ (build routines types options).messages.entries) :
    key = t.message ∧ ∃ n, t.type = some n ∧ t.message = typeMessage n := by
  have hfound := SortedMap.get?_eq_some_iff.mpr h
  obtain ⟨t', ht', hentry⟩ := List.mem_map.mp (SortedMap.mem_of_get?_ofList hfound)
  obtain ⟨rfl, rfl⟩ := Prod.mk.inj hentry
  refine ⟨rfl, ?_⟩
  rcases List.mem_append.mp ht' with ht' | ht'
  · obtain ⟨⟨n, attributes⟩, -, rfl⟩ := List.mem_map.mp ht'
    exact ⟨n, rfl, rfl⟩
  · obtain ⟨n, -, rfl⟩ := List.mem_map.mp ht'
    exact ⟨n, rfl, rfl⟩

theorem exists_type_of_mem_values {t : MessageTable}
    (h : t ∈ (build routines types options).messages.values) :
    ∃ n, t.type = some n ∧ t.message = typeMessage n := by
  obtain ⟨⟨key, t⟩, hentry, rfl⟩ := List.mem_map.mp h
  exact (exists_type_of_mem_entries hentry).2

theorem nodup_message_values :
    ((build routines types options).messages.values.map (·.message)).Nodup := by
  have hkeys : (build routines types options).messages.values.map (·.message) =
      (build routines types options).messages.keys := by
    rw [SortedMap.values, SortedMap.keys, List.map_map]
    exact List.map_congr_left fun e he => (exists_type_of_mem_entries he).1.symm
  rw [hkeys]
  exact SortedMap.nodup_keys _

end Layout

/-! ## Models -/

theorem map_of_mapM_eq_ok {ε α β γ : Type} {f : α → Except ε β} {g : β → γ} {k : α → γ}
    (hf : ∀ a b, f a = .ok b → g b = k a) {xs : List α} {ys : List β} (h : xs.mapM f = .ok ys) :
    ys.map g = xs.map k := by
  have hall := forall₂_of_mapM h
  clear h
  induction hall with
  | nil => rfl
  | cons hy _ ih => rw [List.map_cons, List.map_cons, hf _ _ hy, ih]

/-- What tells things apart whose names differ, differs. -/
theorem nodup_map_of_name {α β γ : Type} {name : α → β} {f : α → γ} {xs : List α}
    (hnodup : (xs.map name).Nodup) (hf : ∀ x ∈ xs, ∀ y ∈ xs, f x = f y → name x = name y) :
    (xs.map f).Nodup := by
  rw [List.Nodup, List.pairwise_map] at hnodup ⊢
  exact hnodup.imp_of_mem fun hx hy hne heq => hne (hf _ hx _ hy heq)

namespace Model

theorem mem_of_mem_distinctPackages {seen ps : List String} {p : String}
    (h : p ∈ distinctPackages seen ps) : p ∈ ps := by
  induction ps generalizing seen with
  | nil => cases h
  | cons q qs ih =>
      rw [distinctPackages] at h
      split at h
      · exact List.mem_cons_of_mem q (ih h)
      · rcases List.mem_cons.mp h with rfl | h
        · exact List.mem_cons_self
        · exact List.mem_cons_of_mem q (ih h)

/-- The names of all messages: those of calls, and those of types. -/
def messageNames (m : Model) : List String :=
  m.routines.flatMap (fun r => [requestMessage r, responseMessage r]) ++
    m.layout.messages.values.map (·.message)

/-- No two routines of the model share a function or a constant of the wrapper, or a fixture. -/
structure CallsApart (m : Model) : Prop where
  /-- Functions and call descriptions of the wrapper have names of their own. -/
  values : (m.routines.map Identifier.call ++ m.routines.map constant).Nodup
  /-- The table of functions shares its name with a routine only if that has no package and is named
  like the table. -/
  table : ∀ r ∈ m.routines, Identifier.call r = "handlers" → r.qualifiedName = "handlers"
  /-- No fixture is written over another. -/
  fixtures : ∀ (emission : Options) (files : List Artifact),
    Fixture.artifacts m emission = .ok files → (files.map (·.path)).Nodup

/-- No two messages or services of the model share a name. -/
structure MessagesApart (m : Model) : Prop where
  /-- What the schema declares as messages, and the wrapper as structures, has these names. -/
  declared : ∃ calls, m.calls = .ok calls ∧
    (calls.flatMap (fun x => [x.2.request, x.2.response]) ++ m.layout.messages.values).map
      (·.message) = m.messageNames
  messages : m.messageNames.Nodup
  /-- The calls of a service have names of their own. -/
  methods : ∀ package, ((m.routinesIn package).map rpc).Nodup
  /-- The service without package is named like a package would be. -/
  services : (∀ p ∈ m.packages, Text.asciiLower p ≠ "procedures") → (m.packages.map service).Nodup
  apart : ∀ p ∈ m.packages, service p ∉ m.messageNames

variable {routines : List Routine} {types : TypeTable} {options : Options}

theorem callsApart_freeze (hworded : ∀ r ∈ routines, r.Worded)
    (hnodup : (routines.map (·.qualifiedName)).Nodup) :
    (freeze routines types options).CallsApart where
  values := by
    refine List.nodup_append.mpr ⟨?_, ?_, ?_⟩
    · exact nodup_map_of_name hnodup fun r hr r' hr' heq =>
        (hworded r hr).qualifiedName_eq_of_call (hworded r' hr') heq
    · refine nodup_map_of_name hnodup fun r hr r' hr' heq => ?_
      have hcalls : Identifier.call r = Identifier.call r' := by
        rw [← Routine.asciiLower_constant r, heq, Routine.asciiLower_constant]
      exact (hworded r hr).qualifiedName_eq_of_call (hworded r' hr') hcalls
    · intro name hname name' hname' heq
      obtain ⟨r, hr, rfl⟩ := List.mem_map.mp hname
      obtain ⟨r', -, rfl⟩ := List.mem_map.mp hname'
      exact (hworded r hr).call_ne_constant r' heq
  table r hr heq := by
    have htable : (Routine.named "" "" "handlers").Worded := by decide
    rw [(hworded r hr).qualifiedName_eq_of_call htable (heq.trans (by decide))]
    decide
  fixtures emission files hfiles := by
    have hpaths : files.map (·.path) = routines.map Fixture.path := by
      refine map_of_mapM_eq_ok (fun r file hfile => ?_) hfiles
      cases hdocument : Fixture.document (freeze routines types options) emission r with
      | error e =>
          rw [hdocument] at hfile
          cases hfile
      | ok j =>
          rw [hdocument] at hfile
          obtain rfl := Except.ok.inj hfile
          rfl
    rw [hpaths]
    exact nodup_map_of_name hnodup fun r hr r' hr' heq =>
      (hworded r hr).qualifiedName_eq_of_call (hworded r' hr') (Routine.call_eq_of_path_eq heq)

/-- Every package is the package of some routine, and named by words if it is there. -/
theorem named_package (hworded : ∀ r ∈ routines, r.Worded) (hcased : ∀ r ∈ routines, r.Cased)
    {p : String} (hp : p ∈ (freeze routines types options).packages) (hpresent : ¬ p.isEmpty) :
    isWorded p.toList ∧ isCased p.toList := by
  obtain ⟨r, hr, rfl⟩ := List.mem_map.mp (mem_of_mem_distinctPackages hp)
  have hmem := Routine.package_mem_nameParts hpresent
  exact ⟨hworded r hr _ hmem, hcased r hr _ hmem⟩

section Messages

variable (hworded : ∀ r ∈ routines, r.Worded) (hcased : ∀ r ∈ routines, r.Cased)

include hworded hcased

theorem exists_word_of_mem_messages {message : String} (h : message ∈
    routines.flatMap fun r => [requestMessage r, responseMessage r]) :
    ∃ r ∈ routines, ∃ word ∈ Routine.messageWords, message = joined (r.words ++ [word]) := by
  obtain ⟨r, hr, hmem⟩ := List.mem_flatMap.mp h
  exact ⟨r, hr, (hworded r hr).exists_of_mem_messages (hcased r hr) hmem⟩

/-- Calls have messages of their own, one to ask and one to answer. -/
theorem nodup_messages (hnodup : (routines.map (·.qualifiedName)).Nodup) :
    (routines.flatMap fun r => [requestMessage r, responseMessage r]).Nodup := by
  rw [List.nodup_flatMap]
  constructor
  · intro r hr
    have h := hworded r hr
    rw [h.requestMessage_eq (hcased r hr), h.responseMessage_eq (hcased r hr), List.nodup_cons]
    refine ⟨fun hmem => ?_, List.nodup_singleton _⟩
    obtain ⟨-, hwords⟩ :=
      h.words_eq_of_joined h (.head _) (.tail _ (.head _)) (List.mem_singleton.mp hmem)
    exact absurd hwords (by decide)
  · rw [List.Nodup, List.pairwise_map] at hnodup
    refine hnodup.imp_of_mem fun {r r'} hr hr' hne message hmem hmem' => hne ?_
    obtain ⟨word, hword, rfl⟩ := (hworded r hr).exists_of_mem_messages (hcased r hr) hmem
    obtain ⟨word', hword', heq⟩ := (hworded r' hr').exists_of_mem_messages (hcased r' hr') hmem'
    have hwords := ((hworded r hr).words_eq_of_joined (hworded r' hr') hword hword' heq).1
    exact (hworded r hr).qualifiedName_eq_of_words (hworded r' hr') hwords

theorem messagesApart_freeze (hnodup : (routines.map (·.qualifiedName)).Nodup)
    (htypes : ∀ t ∈ (freeze routines types options).layout.messages.values, ∀ n,
      t.type = some n → n.Regular ∧ n.name ∉ Routine.messageWords) :
    (freeze routines types options).MessagesApart where
  declared := by
    refine ⟨_, calls_freeze hnodup, ?_⟩
    rw [messageNames, List.map_append, List.flatMap_map, List.map_flatMap]
    rfl
  messages := by
    refine List.nodup_append.mpr ⟨nodup_messages hworded hcased hnodup,
      Layout.nodup_message_values, fun message hmessage message' hmessage' heq => ?_⟩
    obtain ⟨r, hr, word, hword, rfl⟩ := exists_word_of_mem_messages hworded hcased hmessage
    obtain ⟨t, ht, rfl⟩ := List.mem_map.mp hmessage'
    obtain ⟨n, htype, hname⟩ := Layout.exists_type_of_mem_values ht
    obtain ⟨hregular, hlast⟩ := htypes t ht n htype
    exact (hworded r hr).joined_ne_typeMessage hword hregular hlast (heq.trans hname)
  methods package := by
    refine nodup_map_of_name (hnodup.sublist (List.filter_sublist.map _))
      fun r hr r' hr' heq => ?_
    obtain ⟨hr, hsame⟩ := List.mem_filter.mp hr
    obtain ⟨hr', hsame'⟩ := List.mem_filter.mp hr'
    have hpackage := (beq_iff_eq.mp hsame).trans (beq_iff_eq.mp hsame').symm
    refine (hworded r hr).qualifiedName_eq_of_package (hworded r' hr') hpackage ?_
    have hname := r.exposedName_mem_nameParts
    have hname' := r'.exposedName_mem_nameParts
    exact asciiUpper_eq_of_pascal_eq (hworded r hr _ hname) (hcased r hr _ hname)
      (hworded r' hr' _ hname') (hcased r' hr' _ hname') heq
  services hpackages := by
    have hnodup : ((freeze routines types options).packages.map Text.asciiLower).Nodup :=
      (exists_distinctPackages [] _).1
    refine nodup_map_of_name hnodup fun p hp q hq heq => ?_
    obtain ⟨hservice, hregular⟩ := service_eq (named_package hworded hcased hp)
    obtain ⟨hservice', hregular'⟩ := service_eq (named_package hworded hcased hq)
    rw [hservice, hservice'] at heq
    have hwords : serviceWord p = serviceWord q := List.singleton_inj.mp <|
      joined_inj (by simp) (by simp) (by simpa using hregular) (by simpa using hregular') heq
    have hlower := congrArg Text.asciiLower hwords
    rw [asciiLower_serviceWord fun h => (named_package hworded hcased hp h).1,
      asciiLower_serviceWord fun h => (named_package hworded hcased hq h).1] at hlower
    split at hlower
    · rename_i hempty
      split at hlower
      · rename_i hempty'
        rw [String.isEmpty_iff.mp hempty, String.isEmpty_iff.mp hempty']
      · exact absurd hlower.symm (hpackages q hq)
    · split at hlower
      · exact absurd hlower (hpackages p hp)
      · exact hlower
  apart p hp hmem := by
    obtain ⟨hservice, hregular⟩ := service_eq (named_package hworded hcased hp)
    rw [hservice] at hmem
    rcases List.mem_append.mp hmem with hmem | hmem
    · obtain ⟨r, hr, word, hword, heq⟩ := exists_word_of_mem_messages hworded hcased hmem
      have hlists := joined_inj (by simp) (by simp) (by simpa using hregular)
        ((hworded r hr).isRegular_of_mem_append hword) heq
      have hlength := congrArg List.length hlists
      have hpositive := List.length_pos_of_ne_nil r.words_ne_nil
      simp only [List.length_append, List.length_singleton] at hlength
      omega
    · obtain ⟨t, ht, heq⟩ := List.mem_map.mp hmem
      obtain ⟨n, htype, hname⟩ := Layout.exists_type_of_mem_values ht
      obtain ⟨hn, -⟩ := htypes t ht n htype
      have hlists : n.parts = [serviceWord p] := joined_inj hn.parts_ne_nil (by simp)
        (fun _ => hn.isRegular_of_mem) (by simpa using hregular) (hname.symm.trans heq)
      have hlength := congrArg List.length hlists
      rw [hn.parts_eq] at hlength
      split at hlength <;> simp at hlength

end Messages

/-- **Nothing is made or declared twice.** Routines that are named by words and differ in their
qualified names differ in their functions, constants and fixtures. If the case of letters does not
tell words apart either, they differ in their messages, and share none with a type that is regular
and not itself named like a request or a response. -/
theorem freeze_declares_once (routines : List Routine) (types : TypeTable) (options : Options)
    (hworded : ∀ r ∈ routines, r.Worded) (hnodup : (routines.map (·.qualifiedName)).Nodup) :
    (freeze routines types options).CallsApart ∧
      ((∀ r ∈ routines, r.Cased) →
        (∀ t ∈ (freeze routines types options).layout.messages.values, ∀ n, t.type = some n →
          n.Regular ∧ n.name ∉ Routine.messageWords) →
        (freeze routines types options).MessagesApart) :=
  ⟨callsApart_freeze hworded hnodup, fun hcased htypes =>
    messagesApart_freeze hworded hcased hnodup htypes⟩

/-- Routines with and without a package, by a word that is reserved, an alias in mixed case, and the
name of the table. -/
def sampleNames : List Routine :=
  sampleOrders ++
    [{ Routine.named "APP" "SELF" "GET_USR" with exposedAs := some "get_User" },
     Routine.named "APP" "SELF" "HANDLERS", Routine.named "APP" "" "SELF",
     Routine.named "APP" "" "GET_USER"]

theorem supports_sampleNames : sampleTypes.Supports sampleNames :=
  consistent_sampleTypes.supports proper_sampleTypes (by decide)

theorem freeze_declares_once_sample :
    (freeze sampleNames sampleTypes {}).CallsApart ∧
      (freeze sampleNames sampleTypes {}).MessagesApart := by
  obtain ⟨hcalls, hmessages⟩ :=
    freeze_declares_once sampleNames sampleTypes {} (by decide) (by decide)
  refine ⟨hcalls, hmessages (by decide) fun t ht n htype => ?_⟩
  have hnames : ∀ n ∈ sampleTypes.definitions.keys, n.Regular ∧ n.name ∉ Routine.messageWords := by
    decide
  obtain ⟨⟨key, t⟩, hentry, rfl⟩ := List.mem_map.mp ht
  obtain ⟨n', -, hown⟩ := Layout.own_of_message? (proper_freeze supports_sampleNames {})
    (SortedMap.get?_eq_some_iff.mpr hentry)
  obtain rfl : n' = n := Option.some.inj (hown.type_eq.symm.trans htype)
  have hkept := hown.contains (consistent_freeze supports_sampleNames {})
  have hdefined := ((TypeTable.contains_reachableFrom proper_sampleTypes _).mp hkept).1
  exact hnames n' (SortedMap.contains_iff_mem_keys.mp hdefined)

/-- Two routines whose names differ in a mark. -/
def sampleWords : Routine := Routine.named "APP" "PKG" "A_B"

@[inherit_doc sampleWords]
def sampleMark : Routine := Routine.named "APP" "PKG" "A$B"

theorem document_sample {r : Routine} {c : CallLayout}
    (hcall : (freeze [sampleWords, sampleMark] .empty {}).call r = .ok c)
    (hslots : c.request.slots = []) :
    ∃ j, Fixture.document (freeze [sampleWords, sampleMark] .empty {}) {} r = .ok j := by
  have hsample : ∀ p : Fixture.Sampler,
      Fixture.messageSample p 0 c.request = some (.ok (.obj [])) := by
    intro p
    rw [Fixture.messageSample, Fixture.fieldSamples, hslots]
    rfl
  rw [Fixture.document, hcall]
  simp only [bind, Except.bind, Fixture.request, hsample, Option.getD_some]
  exact ⟨_, rfl⟩

/-- **Names may be shared**: two routines that differ in a mark, and so in their qualified names,
share all other names, and the fixture of the one is written over that of the other. -/
theorem names_shared :
    ((∀ p ∈ sampleWords.nameParts ++ sampleMark.nameParts, isCatalog p.toList) ∧
      sampleWords.qualifiedName ≠ sampleMark.qualifiedName) ∧
    requestMessage sampleWords = requestMessage sampleMark ∧
    responseMessage sampleWords = responseMessage sampleMark ∧
    Identifier.call sampleWords = Identifier.call sampleMark ∧
    constant sampleWords = constant sampleMark ∧
    ∃ files, Fixture.artifacts (freeze [sampleWords, sampleMark] .empty {}) {} = .ok files ∧
      files.map (·.path) = ["fixtures/pkg__a_b.json", "fixtures/pkg__a_b.json"] := by
  refine ⟨by decide, by decide, by decide, by decide, by decide, ?_⟩
  obtain ⟨j, hj⟩ := document_sample (r := sampleWords) rfl rfl
  obtain ⟨j', hj'⟩ := document_sample (r := sampleMark) rfl rfl
  have hpath : Fixture.path sampleWords = "fixtures/pkg__a_b.json" ∧
      Fixture.path sampleMark = "fixtures/pkg__a_b.json" := by decide
  refine ⟨[⟨Fixture.path sampleWords, j.pretty ++ "\n"⟩,
    ⟨Fixture.path sampleMark, j'.pretty ++ "\n"⟩], ?_, by rw [List.map_cons, List.map_singleton, hpath.1, hpath.2]⟩
  rw [Fixture.artifacts, show (freeze [sampleWords, sampleMark] .empty {}).routines =
    [sampleWords, sampleMark] from rfl, List.mapM_cons, List.mapM_cons, hj, hj']
  rfl

end Model

end RoutineBridge
