import Mathlib.Data.List.DropRight
import Mathlib.Data.List.TakeWhile
import RoutineBridge.Catalog.TypeSpec
import RoutineBridge.Text.Lines

/-!
# Trimming

A trimmed text has nothing left to trim (`trimmed_trimmed`), so the name of a type that a row refers
to can be written into a row again (`typeRef?_eq_self`). A text that begins and ends with something
visible comes back when it is trimmed with blanks around it (`Text.Solid.trim_append`).
-/

namespace RoutineBridge

namespace Text

/-- Taking blanks off the end uncovers none at the start. -/
theorem trimStart_trim (cs : List Char) : trimStart (trim cs) = trim cs := by
  have hinitial : trim cs <+: trimStart cs := List.rdropWhile_prefix isBlank (trimStart cs)
  rw [trimStart, List.dropWhile_eq_self_iff]
  intro hpos
  have hstart : ∀ h : 0 < (trimStart cs).length, ¬ isBlank (trimStart cs)[0] :=
    List.dropWhile_eq_self_iff.mp (List.dropWhile_idempotent isBlank cs)
  rw [hinitial.getElem hpos]
  exact hstart _

theorem trim_trim (cs : List Char) : trim (trim cs) = trim cs := by
  rw [trim, trimStart_trim]
  exact List.rdropWhile_idempotent isBlank (trimStart cs)

theorem trimmed_trimmed (s : String) : trimmed (trimmed s) = trimmed s := by
  simp [trimmed, trim_trim]

/-- A text is blank if its lines are. -/
theorem isBlankText_join_iff {ls : List (List Char)} :
    isBlankText (join ['\n'] ls) ↔ ∀ l ∈ ls, isBlankText l := by
  induction ls with
  | nil => simp [join, isBlankText]
  | cons l ls ih =>
      rw [List.forall_mem_cons, ← ih]
      cases ls with
      | nil => simp [join, isBlankText]
      | cons m ms =>
          have hnewline : isBlank '\n' := by decide
          simp [join_cons, isBlankText, hnewline]

theorem isBlankText_of_mem_pieces {cs p : List Char} (h : isBlankText cs) (hp : p ∈ pieces cs) :
    isBlankText p := by
  rw [← join_pieces cs] at h
  exact isBlankText_join_iff.mp h p hp

/-! ## Texts with blanks around them -/

/-- The text begins and ends with a character that is not blank. -/
structure Solid (cs : List Char) : Prop where
  head : ∃ c rest, cs = c :: rest ∧ ¬ isBlank c
  last : ∃ front c, cs = front ++ [c] ∧ ¬ isBlank c

theorem trimStart_cons {c : Char} (h : ¬ isBlank c) (cs : List Char) :
    trimStart (c :: cs) = c :: cs :=
  List.dropWhile_cons_of_neg h

theorem trimStart_append {before : List Char} (h : isBlankText before) (cs : List Char) :
    trimStart (before ++ cs) = trimStart cs := by
  rw [trimStart, List.dropWhile_append, if_pos (by simpa [isBlankText] using h)]
  rfl

theorem trimEnd_concat {c : Char} (h : ¬ isBlank c) (cs : List Char) :
    trimEnd (cs ++ [c]) = cs ++ [c] := by
  rw [trimEnd, List.reverse_concat, List.dropWhile_cons_of_neg h, List.reverse_cons,
    List.reverse_reverse]

theorem trimEnd_append {after : List Char} (h : isBlankText after) (cs : List Char) :
    trimEnd (cs ++ after) = trimEnd cs := by
  have hafter : isBlankText after.reverse := by simpa [isBlankText] using h
  rw [trimEnd, List.reverse_append]
  exact congrArg List.reverse (trimStart_append hafter cs.reverse)

theorem trimEnd_trimEnd (cs : List Char) : trimEnd (trimEnd cs) = trimEnd cs :=
  List.rdropWhile_idempotent isBlank cs

theorem exists_trimEnd_append (cs : List Char) :
    ∃ after, isBlankText after ∧ cs = trimEnd cs ++ after := by
  refine ⟨(cs.reverse.takeWhile isBlank).reverse, ?_, ?_⟩
  · exact List.all_eq_true.mpr fun c hc => List.mem_takeWhile_imp (List.mem_reverse.mp hc)
  · rw [trimEnd, ← List.reverse_append, List.takeWhile_append_dropWhile, List.reverse_reverse]

theorem not_isBlank_of_trimEnd_eq {cs : List Char} (h : trimEnd cs = cs) {c : Char}
    (hlast : cs.getLast? = some c) : ¬ isBlank c := by
  obtain ⟨front, rfl⟩ := List.getLast?_eq_some_iff.mp hlast
  simpa using List.rdropWhile_eq_self_iff.mp h (by simp)

theorem solid_of_all {cs : List Char} (hnonempty : cs ≠ []) (hvisible : cs.all (!isBlank ·)) :
    Solid cs := by
  have h : ∀ c ∈ cs, ¬ isBlank c := by simpa using hvisible
  obtain ⟨c, rest, rfl⟩ := List.exists_cons_of_ne_nil hnonempty
  refine ⟨⟨c, rest, rfl, h c List.mem_cons_self⟩, ?_⟩
  obtain ⟨front, d, hlast⟩ := (List.eq_nil_or_concat' (c :: rest)).resolve_left hnonempty
  exact ⟨front, d, hlast, h d (by simp [hlast])⟩

/-- What is left after trimming is empty or solid. -/
theorem solid_of_trim {cs : List Char} (h : trim cs = cs) (hnonempty : cs ≠ []) : Solid cs := by
  have hstart : trimStart cs = cs := by rw [← h, trimStart_trim]
  have hend : trimEnd cs = cs := by rw [← hstart]; exact h.trans hstart.symm
  constructor
  · obtain ⟨c, rest, rfl⟩ := List.exists_cons_of_ne_nil hnonempty
    refine ⟨c, rest, rfl, fun hblank => ?_⟩
    have hlength := congrArg List.length hstart
    rw [trimStart, List.dropWhile_cons_of_pos hblank, List.length_cons] at hlength
    have := (List.dropWhile_sublist isBlank (l := rest)).length_le
    omega
  · obtain ⟨front, d, rfl⟩ := (List.eq_nil_or_concat' cs).resolve_left hnonempty
    refine ⟨front, d, rfl, fun hblank => ?_⟩
    have hlength := congrArg List.length hend
    rw [trimEnd_append (by simp [isBlankText, hblank]), trimEnd, List.length_reverse,
      List.length_append, List.length_singleton] at hlength
    have := (List.dropWhile_sublist isBlank (l := front.reverse)).length_le
    rw [List.length_reverse] at this
    omega

namespace Solid

variable {xs ys cs : List Char}

theorem append (hx : Solid xs) (middle : List Char) (hy : Solid ys) :
    Solid (xs ++ (middle ++ ys)) := by
  obtain ⟨c, rest, rfl, hc⟩ := hx.head
  obtain ⟨front, d, rfl, hd⟩ := hy.last
  exact ⟨⟨c, _, rfl, hc⟩, ⟨c :: rest ++ (middle ++ front), d, by simp, hd⟩⟩

theorem not_isBlankText (h : Solid cs) : ¬ isBlankText cs := by
  obtain ⟨c, rest, rfl, hc⟩ := h.head
  simp [isBlankText, hc]

theorem trimStart_append (h : Solid cs) {before : List Char} (hbefore : isBlankText before)
    (after : List Char) : trimStart (before ++ (cs ++ after)) = cs ++ after := by
  obtain ⟨c, rest, rfl, hc⟩ := h.head
  rw [Text.trimStart_append hbefore]
  exact trimStart_cons hc _

theorem trimEnd_append (h : Solid cs) {after : List Char} (hafter : isBlankText after)
    (before : List Char) : trimEnd (before ++ cs ++ after) = before ++ cs := by
  obtain ⟨front, d, rfl, hd⟩ := h.last
  rw [Text.trimEnd_append hafter, ← List.append_assoc, trimEnd_concat hd]

/-- A solid text is not blank down to its first line feed, whatever follows it. -/
theorem exists_pieces_append (h : Solid cs) (after : List Char) :
    ∃ p ps, pieces (cs ++ after) = p :: ps ∧ ¬ isBlankText p := by
  obtain ⟨c, rest, rfl, hc⟩ := h.head
  have hnewline : c ≠ '\n' := by
    rintro rfl
    exact hc (by decide)
  rw [List.cons_append, pieces, if_neg hnewline]
  cases pieces (rest ++ after) with
  | nil => exact ⟨_, _, rfl, by simp [isBlankText, hc]⟩
  | cons p ps => exact ⟨_, _, rfl, by simp [isBlankText, hc]⟩

/-- Blanks on either side go, and nothing else. -/
theorem trim_append (h : Solid cs) {before after : List Char} (hbefore : isBlankText before)
    (hafter : isBlankText after) : trim (before ++ (cs ++ after)) = cs := by
  rw [trim, h.trimStart_append hbefore]
  exact h.trimEnd_append hafter []

theorem trim_eq (h : Solid cs) : trim cs = cs := by
  have hnil : isBlankText [] := rfl
  simpa using h.trim_append hnil hnil

end Solid

/-- Nothing is trimmed where nothing is blank. -/
theorem trim_eq_self {cs : List Char} (h : cs.all (!isBlank ·)) : trim cs = cs := by
  by_cases hempty : cs = []
  · rw [hempty]
    rfl
  · exact (solid_of_all hempty h).trim_eq

end Text

/-- The parts of a name that a row refers to, written into a row, refer to the same name. -/
theorem typeRef?_eq_self {owner package name : String} {n : TypeName}
    (h : typeRef? owner package name = some n) : typeRef? n.owner n.package n.name = some n := by
  have hempty : Text.trimmed "" = "" := by decide
  simp only [typeRef?] at h ⊢
  split at h
  · split at h
    · contradiction
    · rename_i hpackage
      obtain rfl := Option.some.inj h
      simp [Text.trimmed_trimmed, hempty, hpackage]
  · rename_i hname
    obtain rfl := Option.some.inj h
    simp [Text.trimmed_trimmed, hname]

end RoutineBridge
