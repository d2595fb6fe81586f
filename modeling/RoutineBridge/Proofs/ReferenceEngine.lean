import RoutineBridge.Proofs.RegularExpressions

/-!
# An engine for regular expressions

Whether atoms are found in a text can be decided by trying every cut (`Regex.found_iff`). What is
read from the writing of atoms are these atoms again (`Regex.Engine.read_source`), because a
character that means something in an expression has a backslash in front when it stands for itself.
So the engine that reads the atoms and tries every cut is a standard one, and it takes whatever
atoms are written (`Regex.Engine.reference_standard`, `Regex.Engine.compile_reference`).
-/

namespace RoutineBridge.Regex

open Like (isOpen)

/-! ## Search -/

/-- A character of a class comes next, and from there on the rest is found. -/
def ahead (ok : Char → Bool) (later : List Char → List Char → Bool) (before : List Char) :
    List Char → Bool
  | [] => false
  | c :: rest => ok c && later (before ++ [c]) rest

/-- The atoms span the beginning of `rest`, in front of which `before` stands. -/
def spansNext : List Atom → (before rest : List Char) → Bool
  | [], _, _ => true
  | .start :: atoms, before, rest => before.isEmpty && spansNext atoms before rest
  | .finish :: atoms, before, rest => rest.isEmpty && spansNext atoms before rest
  | .any :: atoms, before, rest => ahead isOpen (spansNext atoms) before rest
  | .literal a :: atoms, before, rest => ahead (Text.sameLetter a) (spansNext atoms) before rest
  | .anyRun :: atoms, before, rest =>
    (List.range (rest.length + 1)).any fun n =>
      (rest.take n).all isOpen && spansNext atoms (before ++ rest.take n) (rest.drop n)

theorem ahead_iff {ok : Char → Bool} {later : List Char → List Char → Bool}
    {before rest : List Char} :
    ahead ok later before rest ↔ ∃ c cs, rest = c :: cs ∧ ok c ∧ later (before ++ [c]) cs := by
  cases rest <;> simp [ahead]

/-- The cuts of a text into two are those at its places. -/
theorem exists_append_iff {cs : List Char} {p : List Char → List Char → Prop} :
    (∃ front back, cs = front ++ back ∧ p front back) ↔
      ∃ n ∈ List.range (cs.length + 1), p (cs.take n) (cs.drop n) := by
  constructor
  · rintro ⟨front, back, rfl, h⟩
    refine ⟨front.length, ?_, by simpa using h⟩
    rw [List.mem_range, List.length_append]
    omega
  · rintro ⟨n, -, h⟩
    exact ⟨cs.take n, cs.drop n, (List.take_append_drop n cs).symm, h⟩

theorem spansNext_iff {atoms : List Atom} {before rest : List Char} :
    spansNext atoms before rest ↔
      ∃ piece after, rest = piece ++ after ∧ Spans atoms before piece after := by
  induction atoms generalizing before rest with
  | nil => exact ⟨fun _ => ⟨[], rest, rfl, .nil before rest⟩, fun _ => rfl⟩
  | cons atom atoms ih =>
      cases atom with
      | start =>
          rw [spansNext, Bool.and_eq_true, List.isEmpty_iff, ih]
          constructor
          · rintro ⟨rfl, piece, after, rfl, h⟩
            exact ⟨piece, after, rfl, .start h⟩
          · rintro ⟨piece, after, rfl, hspans⟩
            cases hspans with
            | start h => exact ⟨rfl, piece, after, rfl, h⟩
      | finish =>
          rw [spansNext, Bool.and_eq_true, List.isEmpty_iff, ih]
          constructor
          · rintro ⟨rfl, piece, after, hnil, h⟩
            obtain ⟨rfl, rfl⟩ := List.append_eq_nil_iff.mp hnil.symm
            exact ⟨[], [], rfl, .finish h⟩
          · rintro ⟨piece, after, rfl, hspans⟩
            cases hspans with
            | finish h => exact ⟨rfl, [], [], rfl, h⟩
      | any =>
          simp only [spansNext, ahead_iff, ih]
          constructor
          · rintro ⟨c, _, rfl, hc, piece, after, rfl, h⟩
            exact ⟨c :: piece, after, rfl, .any hc h⟩
          · rintro ⟨_, after, rfl, hspans⟩
            cases hspans with
            | any hc h => exact ⟨_, _, rfl, hc, _, after, rfl, h⟩
      | literal a =>
          simp only [spansNext, ahead_iff, ih]
          constructor
          · rintro ⟨c, _, rfl, hc, piece, after, rfl, h⟩
            exact ⟨c :: piece, after, rfl, .literal hc h⟩
          · rintro ⟨_, after, rfl, hspans⟩
            cases hspans with
            | literal hc h => exact ⟨_, _, rfl, hc, _, after, rfl, h⟩
      | anyRun =>
          simp only [spansNext, List.any_eq_true, Bool.and_eq_true, List.all_eq_true, ih]
          rw [← exists_append_iff (p := fun run later => (∀ c ∈ run, isOpen c) ∧
            ∃ piece after, later = piece ++ after ∧ Spans atoms (before ++ run) piece after)]
          constructor
          · rintro ⟨run, _, rfl, hrun, piece, after, rfl, h⟩
            exact ⟨run ++ piece, after, (List.append_assoc ..).symm, .anyRun hrun h⟩
          · rintro ⟨_, after, rfl, hspans⟩
            cases hspans with
            | anyRun hrun h => exact ⟨_, _, List.append_assoc .., hrun, _, after, rfl, h⟩

/-- **What can be found** is found by trying every place of the text. -/
theorem found_iff {atoms : List Atom} {text : List Char} :
    Found atoms text ↔
      ∃ n ∈ List.range (text.length + 1), spansNext atoms (text.take n) (text.drop n) := by
  simp only [spansNext_iff]
  rw [← exists_append_iff (p := fun before rest =>
    ∃ piece after, rest = piece ++ after ∧ Spans atoms before piece after)]
  constructor
  · rintro ⟨before, piece, after, rfl, h⟩
    exact ⟨before, _, rfl, piece, after, rfl, h⟩
  · rintro ⟨before, _, rfl, piece, after, rfl, h⟩
    exact ⟨before, piece, after, rfl, h⟩

instance Found.decidable (atoms : List Atom) (text : List Char) : Decidable (Found atoms text) :=
  decidable_of_iff _ found_iff.symm

/-! ## Reading -/

namespace Engine

/-- The characters that have a backslash in front when they stand for themselves. -/
def specials : List Char := "\\.+*?()|[]\x7b\x7d^$#&-~".toList

def escaped (c : Char) : List Char := if c ∈ specials then ['\\', c] else [c]

/-- The atoms of an expression, if it is made of nothing else. -/
def read : List Char → Option (List Atom)
  | [] => some []
  | '^' :: cs => (read cs).map (.start :: ·)
  | '$' :: cs => (read cs).map (.finish :: ·)
  | '.' :: '*' :: cs => (read cs).map (.anyRun :: ·)
  | '.' :: cs => (read cs).map (.any :: ·)
  | '\\' :: c :: cs => if c ∈ specials then (read cs).map (.literal c :: ·) else none
  | c :: cs => if c ∈ specials then none else (read cs).map (.literal c :: ·)

/-- The engine that reads the atoms and tries every place of a text. -/
def reference : Engine where
  escape := escaped
  compile expression :=
    if expression.take 4 = ['(', '?', 'i', ')'] then
      (read (expression.drop 4)).map fun atoms text => decide (Found atoms text)
    else none

/-- No atom begins with what makes a run of the one in front. -/
theorem head?_flatMap_source_ne (atoms : List Atom) :
    (atoms.flatMap reference.source).head? ≠ some '*' := by
  cases atoms with
  | nil => nofun
  | cons atom atoms =>
      cases atom with
      | literal c =>
          change ((escaped c ++ atoms.flatMap reference.source).head? ≠ some '*')
          rw [escaped]
          split
          · simp
          · rename_i hplain
            simp only [List.singleton_append, List.head?_cons, ne_eq, Option.some.injEq]
            exact fun heq => hplain (heq ▸ by decide)
      | _ => simp [source]

theorem read_escaped_append (c : Char) (cs : List Char) :
    read (escaped c ++ cs) = (read cs).map (.literal c :: ·) := by
  rw [escaped]
  split
  · rename_i hspecial
    exact if_pos hspecial
  · rename_i hplain
    have hne : ∀ d ∈ specials, c ≠ d := fun d hd heq => hplain (heq ▸ hd)
    rw [List.singleton_append, read, if_neg hplain]
    -- the rows of `read` above the last are about special characters
    · exact hne '^' (by decide)
    · exact hne '$' (by decide)
    · exact fun _ heq _ => hne '.' (by decide) heq
    · exact hne '.' (by decide)
    · exact fun _ _ heq _ => hne '\\' (by decide) heq

/-- **Atoms are read back.** -/
theorem read_source (atoms : List Atom) : read (atoms.flatMap reference.source) = some atoms := by
  induction atoms with
  | nil => rfl
  | cons atom atoms ih =>
      rw [List.flatMap_cons]
      cases atom with
      | start => simp [source, read, ih]
      | finish => simp [source, read, ih]
      | anyRun => simp [source, read, ih]
      | any =>
          change read ('.' :: atoms.flatMap reference.source) = _
          rw [read, ih]
          · rfl
          · intro cs heq
            exact head?_flatMap_source_ne atoms (heq ▸ rfl)
      | literal c => exact (read_escaped_append c _).trans (by rw [ih]; rfl)

theorem compile_reference (atoms : List Atom) :
    reference.compile (reference.caseless atoms) = some fun text => decide (Found atoms text) := by
  change (read (atoms.flatMap reference.source)).map _ = _
  rw [read_source]
  rfl

theorem reference_standard : reference.Standard := by
  intro atoms run hrun text
  rw [compile_reference, Option.some.injEq] at hrun
  simp [← hrun]

end Engine

end RoutineBridge.Regex
