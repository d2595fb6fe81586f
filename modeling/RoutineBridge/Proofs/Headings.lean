import RoutineBridge.Proofs.Trimming
import RoutineBridge.Source.Declaration

/-!
# Headings of declarations

What a heading is, said without the search for it: a keyword, blanks, and a name between quotes or
as far as its characters go (`Declaration.Heading`). One place of a text holds at most one heading,
and cutting finds it (`Declaration.cut?_eq_some_iff`). Main statement: the first name that a stretch
of code declares is that of the first heading in it that does not begin inside a word
(`Declaration.mem_head?_names`).
-/

namespace RoutineBridge

namespace Text

/-- The code points of the blanks. -/
def blanks : List Nat :=
  [9, 10, 11, 12, 13, 32, 0x85, 0xA0, 0x1680, 0x2000, 0x2001, 0x2002, 0x2003, 0x2004, 0x2005,
    0x2006, 0x2007, 0x2008, 0x2009, 0x200A, 0x2028, 0x2029, 0x202F, 0x205F, 0x3000]

theorem toNat_mem_blanks {c : Char} (h : isBlank c) : c.toNat ∈ blanks := by
  simp only [isBlank, Bool.or_eq_true, Bool.and_eq_true, decide_eq_true_eq, beq_iff_eq] at h
  simp only [blanks, List.mem_cons, List.not_mem_nil, or_false]
  omega

end Text

namespace Declaration

/-! ## The parts of a heading -/

/-- The letters of a word, each in either case. -/
def Spells (word letters : List Char) : Prop :=
  List.Forall₂ (fun w c => Text.sameLetter w c) word letters

/-- How a name is written where `rest` follows: between quotes, or from a letter on as far as the
characters of names go. -/
inductive Named (rest : List Char) : List Char → List Char → Prop
  | quoted {name : List Char} (nonempty : name ≠ []) (unquoted : '\x22' ∉ name) :
      Named rest ('\x22' :: (name ++ ['\x22'])) name
  | plain {c : Char} {cs : List Char} (letter : isLetter c) (chars : ∀ d ∈ cs, isNameChar d)
      (ends : ∀ d ∈ rest.head?, ¬ isNameChar d) : Named rest (c :: cs) (c :: cs)

/-- A heading stands at the front: a keyword, blanks, and a name. -/
def Heading (cs name rest : List Char) : Prop :=
  ∃ keyword gap written, cs = keyword ++ (gap ++ (written ++ rest)) ∧
    (Spells "FUNCTION".toList keyword ∨ Spells "PROCEDURE".toList keyword) ∧
    gap ≠ [] ∧ Text.isBlankText gap ∧ Named rest written name

theorem not_isBlank_of_isLetter {c : Char} (h : isLetter c) : ¬ Text.isBlank c := by
  intro hblank
  have hnone : ∀ n ∈ Text.blanks, ¬ isLetter (Char.ofNat n) := by decide
  exact hnone c.toNat (Text.toNat_mem_blanks hblank) (by rwa [Char.ofNat_toNat])

section Parts

variable {word cs name rest : List Char}

theorem dropWord?_eq_some_iff :
    dropWord? word cs = some rest ↔ ∃ letters, Spells word letters ∧ cs = letters ++ rest := by
  induction word generalizing cs with
  | nil =>
      rw [dropWord?, Option.some.injEq]
      constructor
      · rintro rfl
        exact ⟨[], .nil, rfl⟩
      · rintro ⟨letters, hspells, rfl⟩
        cases hspells
        rfl
  | cons w word ih =>
      cases cs with
      | nil =>
          simp only [dropWord?, reduceCtorEq, false_iff]
          rintro ⟨letters, hspells, hempty⟩
          cases hspells
          cases hempty
      | cons c cs =>
          rw [dropWord?]
          constructor
          · intro h
            split at h
            · rename_i hsame
              obtain ⟨letters, hspells, rfl⟩ := ih.mp h
              exact ⟨c :: letters, .cons hsame hspells, rfl⟩
            · cases h
          · rintro ⟨letters, hspells, heq⟩
            cases hspells with
            | cons hsame hspells =>
                obtain ⟨rfl, rfl⟩ := List.cons.inj heq
                rw [if_pos hsame]
                exact ih.mpr ⟨_, hspells, rfl⟩

/-- The keywords begin with different letters. -/
theorem dropKeyword?_eq_some_iff :
    dropKeyword? cs = some rest ↔ ∃ keyword,
      (Spells "FUNCTION".toList keyword ∨ Spells "PROCEDURE".toList keyword) ∧
        cs = keyword ++ rest := by
  have hsome : dropKeyword? cs = some rest ↔ dropWord? "FUNCTION".toList cs = some rest ∨
      dropWord? "FUNCTION".toList cs = none ∧ dropWord? "PROCEDURE".toList cs = some rest := by
    rw [dropKeyword?]
    cases dropWord? "FUNCTION".toList cs <;> simp
  rw [hsome]
  constructor
  · rintro (h | ⟨-, h⟩)
    all_goals obtain ⟨keyword, hspells, rfl⟩ := dropWord?_eq_some_iff.mp h
    · exact ⟨keyword, .inl hspells, rfl⟩
    · exact ⟨keyword, .inr hspells, rfl⟩
  · -- a function is looked for first, so a procedure must not be taken for one
    rintro ⟨keyword, hspells | hspells, rfl⟩
    · exact .inl (dropWord?_eq_some_iff.mpr ⟨keyword, hspells, rfl⟩)
    · refine .inr ⟨?_, dropWord?_eq_some_iff.mpr ⟨keyword, hspells, rfl⟩⟩
      cases hspells with
      | @cons _ c _ keyword hsame hspells =>
          have hother : ¬ Text.sameLetter 'F' c := by
            intro hF
            have hfold : Text.fold 'F' = Text.fold 'P' :=
              (beq_iff_eq.mp hF).trans (beq_iff_eq.mp hsame).symm
            exact absurd hfold (by decide)
          show dropWord? ('F' :: "UNCTION".toList) (c :: (keyword ++ rest)) = none
          rw [dropWord?, if_neg hother]

/-- What is cut off is a name as it is written. -/
theorem exists_named_of_cutName? (h : cutName? cs = some (name, rest)) :
    ∃ written, Named rest written name ∧ cs = written ++ rest := by
  cases cs with
  | nil => cases h
  | cons c cs =>
      rw [cutName?] at h
      split at h
      · rename_i hquote
        subst hquote
        have hparts := List.takeWhile_append_dropWhile (p := (· != '\x22')) (l := cs)
        have hend := List.head?_dropWhile_not (· != '\x22') cs
        cases hdrop : cs.dropWhile (· != '\x22') with
        | nil => simp [hdrop] at h
        | cons d after =>
            rw [hdrop] at h hparts hend
            obtain rfl : d = '\x22' := by simpa using hend
            dsimp only at h
            split at h
            · cases h
            · rename_i hnonempty
              obtain ⟨hname, hafter⟩ := Prod.mk.inj (Option.some.inj h)
              subst hname hafter
              refine ⟨_, .quoted (by simpa using hnonempty) fun hmem => ?_, ?_⟩
              · simpa using List.mem_takeWhile_imp hmem
              · simpa using hparts.symm
      · split at h
        · rename_i hletter
          obtain ⟨hname, hafter⟩ := Prod.mk.inj (Option.some.inj h)
          subst hname hafter
          refine ⟨_, .plain hletter (fun d hd => List.mem_takeWhile_imp hd) fun d hd => ?_, ?_⟩
          · have hend := List.head?_dropWhile_not isNameChar cs
            rw [Option.mem_def.mp hd] at hend
            simpa using hend
          · rw [List.cons_append, List.takeWhile_append_dropWhile]
        · cases h

/-- A name is cut off where it ends. -/
theorem Named.cutName?_append {written : List Char} (h : Named rest written name) :
    cutName? (written ++ rest) = some (name, rest) := by
  cases h with
  | quoted hnonempty hunquoted =>
      have hinside : ∀ c ∈ name, (c != '\x22') := fun c hc =>
        bne_iff_ne.mpr fun heq => hunquoted (heq ▸ hc)
      have htake : (name ++ '\x22' :: rest).takeWhile (· != '\x22') = name := by
        simp [List.takeWhile_append_of_pos hinside]
      have hdrop : (name ++ '\x22' :: rest).dropWhile (· != '\x22') = '\x22' :: rest := by
        simp [List.dropWhile_append_of_pos hinside]
      have hshape : '\x22' :: (name ++ ['\x22']) ++ rest = '\x22' :: (name ++ '\x22' :: rest) := by
        simp
      rw [hshape, cutName?, if_pos rfl, hdrop, htake]
      simp [hnonempty]
  | @plain c cs hletter hchars hends =>
      have hquote : c ≠ '\x22' := by rintro rfl; exact absurd hletter (by decide)
      have htake : (cs ++ rest).takeWhile isNameChar = cs := by
        rw [List.takeWhile_append_of_pos hchars]
        cases rest <;> simp_all
      have hdrop : (cs ++ rest).dropWhile isNameChar = rest := by
        rw [List.dropWhile_append_of_pos hchars]
        cases rest <;> simp_all
      rw [List.cons_append, cutName?, if_neg hquote, if_pos hletter, htake, hdrop]

theorem Named.not_isBlank {written : List Char} (h : Named rest written name) :
    ∃ c cs, written = c :: cs ∧ ¬ Text.isBlank c := by
  cases h with
  | quoted => exact ⟨_, _, rfl, by decide⟩
  | plain letter => exact ⟨_, _, rfl, not_isBlank_of_isLetter letter⟩

/-- Cutting finds the heading at the front. -/
theorem cut?_eq_some_iff : cut? cs = some (name, rest) ↔ Heading cs name rest := by
  constructor
  · intro h
    rw [cut?.eq_def] at h
    split at h
    · rename_i c after hkeyword
      split at h
      · rename_i hblank
        obtain ⟨keyword, hspells, rfl⟩ := dropKeyword?_eq_some_iff.mp hkeyword
        obtain ⟨written, hnamed, htrim⟩ := exists_named_of_cutName? h
        refine ⟨keyword, c :: after.takeWhile Text.isBlank, written, ?_, hspells,
          List.cons_ne_nil _ _, ?_, hnamed⟩
        · rw [← htrim, Text.trimStart, List.cons_append, List.takeWhile_append_dropWhile]
        · rw [Text.isBlankText, List.all_cons, hblank, Bool.true_and, List.all_eq_true]
          exact fun d hd => List.mem_takeWhile_imp hd
      · cases h
    · cases h
  · rintro ⟨keyword, gap, written, rfl, hspells, hgap, hblank, hnamed⟩
    obtain ⟨c, gap, rfl⟩ := List.exists_cons_of_ne_nil hgap
    rw [Text.isBlankText, List.all_cons, Bool.and_eq_true] at hblank
    have hkeyword : dropKeyword? (keyword ++ (c :: gap ++ (written ++ rest))) =
        some (c :: (gap ++ (written ++ rest))) :=
      dropKeyword?_eq_some_iff.mpr ⟨keyword, hspells, rfl⟩
    have htrim : Text.trimStart (gap ++ (written ++ rest)) = written ++ rest := by
      obtain ⟨d, ds, rfl, hd⟩ := hnamed.not_isBlank
      rw [Text.trimStart_append hblank.2]
      exact Text.trimStart_cons hd _
    rw [cut?, hkeyword]
    dsimp only
    rw [if_pos hblank.1, htrim]
    exact hnamed.cutName?_append

/-- What is cut off is not empty. -/
theorem Heading.exists_letter (h : Heading cs name rest) : ∃ c ∈ cs, ¬ Text.isBlank c := by
  obtain ⟨keyword, gap, written, rfl, -, -, -, hnamed⟩ := h
  obtain ⟨c, cs, rfl, hc⟩ := hnamed.not_isBlank
  exact ⟨c, by simp, hc⟩

end Parts

/-! ## The first heading of a text -/

/-- A heading begins behind `front`, and not inside a word. -/
def Begins (front heading name rest : List Char) : Prop :=
  ¬ front.getLast?.any Text.isWord ∧ Heading heading name rest

/-- The first heading of the code stands behind `front` and is one of `name`. -/
structure First (code front name : List Char) : Prop where
  begins : ∃ heading rest, code = front ++ heading ∧ Begins front heading name rest
  earliest : ∀ earlier later other rest, code = earlier ++ later →
    earlier.length < front.length → ¬ Begins earlier later other rest

section Search

variable {code front name : List Char}

theorem First.unique {front' name' : List Char} (h : First code front name)
    (h' : First code front' name') : front = front' ∧ name = name' := by
  obtain ⟨heading, rest, hcode, hbegins⟩ := h.begins
  obtain ⟨heading', rest', hcode', hbegins'⟩ := h'.begins
  have hle : front'.length ≤ front.length := by
    by_contra hlt
    exact h'.earliest front heading name rest hcode (Nat.lt_of_not_le hlt) hbegins
  have hge : front.length ≤ front'.length := by
    by_contra hlt
    exact h.earliest front' heading' name' rest' hcode' (Nat.lt_of_not_le hlt) hbegins'
  obtain ⟨rfl, rfl⟩ := List.append_inj (hcode.symm.trans hcode') (Nat.le_antisymm hge hle)
  have hcut := (cut?_eq_some_iff.mpr hbegins.2).symm.trans (cut?_eq_some_iff.mpr hbegins'.2)
  exact ⟨rfl, congrArg Prod.fst (Option.some.inj hcut)⟩

/-- Code with a heading is not blank. -/
theorem First.not_isBlankText (h : First code front name) : ¬ Text.isBlankText code := by
  obtain ⟨heading, rest, rfl, -, hheading⟩ := h.begins
  obtain ⟨c, hc, hvisible⟩ := hheading.exists_letter
  intro hblank
  exact hvisible (List.all_eq_true.mp hblank c (List.mem_append_right front hc))

/-- The first heading stands where cutting finds it, if it finds none before. -/
theorem First.of_cut? {heading rest : List Char} (hcut : cut? heading = some (name, rest))
    (hword : ¬ front.getLast?.any Text.isWord)
    (hbefore : ∀ i < front.length, (front.take i).getLast?.any Text.isWord ∨
      cut? ((front ++ heading).drop i) = none) : First (front ++ heading) front name where
  begins := ⟨heading, rest, rfl, hword, cut?_eq_some_iff.mp hcut⟩
  earliest := by
    rintro earlier later other rest hsplit hlt ⟨hstart, hheading⟩
    have hearlier : earlier = front.take earlier.length := by
      rw [← List.take_append_of_le_length hlt.le, hsplit, List.take_left]
    have hlater : later = (front ++ heading).drop earlier.length := by
      rw [hsplit, List.drop_left]
    rcases hbefore earlier.length hlt with hinside | hnone
    · exact hstart (hearlier ▸ hinside)
    · rw [← hlater, cut?_eq_some_iff.mpr hheading] at hnone
      cases hnone

/-- No heading begins in the first part of a text, which `ahead` goes on with. -/
def Passed (past ahead : List Char) : Prop :=
  ∀ earlier later other rest, past ++ ahead = earlier ++ later →
    earlier.length < past.length → ¬ Begins earlier later other rest

theorem Passed.next {past ahead : List Char} {c : Char} (h : Passed past (c :: ahead))
    (hhere : ∀ other rest, ¬ Begins past (c :: ahead) other rest) : Passed (past ++ [c]) ahead := by
  intro earlier later other rest hsplit hlt
  rw [List.append_assoc, List.singleton_append] at hsplit
  rw [List.length_append, List.length_singleton] at hlt
  rcases Nat.lt_or_eq_of_le (Nat.lt_succ_iff.mp hlt) with hbefore | hsame
  · exact h earlier later other rest hsplit hbefore
  · obtain ⟨rfl, rfl⟩ := List.append_inj hsplit hsame.symm
    exact hhere other rest

/-- A heading takes up characters, so none begins at the end. -/
theorem Passed.not_first {past : List Char} (h : Passed past []) : ¬ First past front name := by
  rintro ⟨⟨heading, rest, hcode, hbegins⟩, -⟩
  obtain ⟨c, hc, -⟩ := hbegins.2.exists_letter
  have hlength := congrArg List.length hcode
  have hpositive := List.length_pos_of_mem hc
  rw [List.length_append] at hlength
  exact h front heading name rest (by rw [List.append_nil, hcode]) (by omega) hbegins

/-- The search goes on behind a text in which no heading begins. -/
theorem mem_head?_namesFrom {fuel : Nat} {past ahead : List Char} (hfuel : ahead.length ≤ fuel)
    (hpast : Passed past ahead) :
    name ∈ (namesFrom fuel (past.getLast?.any Text.isWord) ahead).head? ↔
      ∃ front, First (past ++ ahead) front name := by
  induction fuel generalizing past ahead with
  | zero =>
      obtain rfl := List.eq_nil_of_length_eq_zero (Nat.le_zero.mp hfuel)
      simpa [namesFrom] using fun front => hpast.not_first
  | succ fuel ih =>
      cases ahead with
      | nil => simpa [namesFrom] using fun front => hpast.not_first
      | cons c ahead =>
          by_cases hbegins : ∃ other rest, Begins past (c :: ahead) other rest
          · obtain ⟨other, rest, hword, hheading⟩ := hbegins
            have hfirst : First (past ++ c :: ahead) past other :=
              ⟨⟨c :: ahead, rest, rfl, hword, hheading⟩, hpast⟩
            rw [namesFrom, if_neg hword, cut?_eq_some_iff.mpr hheading]
            dsimp only
            rw [List.head?_cons, Option.mem_some_iff]
            constructor
            · rintro rfl
              exact ⟨past, hfirst⟩
            · rintro ⟨front, hother⟩
              exact (hfirst.unique hother).2
          · -- the search and the text that is passed both go on by one character
            have hhere : ∀ other rest, ¬ Begins past (c :: ahead) other rest :=
              fun other rest h => hbegins ⟨other, rest, h⟩
            have hnone : (if past.getLast?.any Text.isWord then none
                else cut? (c :: ahead)) = none := by
              by_cases hword : past.getLast?.any Text.isWord
              · rw [if_pos hword]
              · rw [if_neg hword, Option.eq_none_iff_forall_ne_some]
                rintro ⟨other, rest⟩ hcut
                exact hhere other rest ⟨hword, cut?_eq_some_iff.mp hcut⟩
            have hlater := ih (Nat.le_of_succ_le_succ hfuel) (hpast.next hhere)
            rw [List.getLast?_concat, Option.any_some, List.append_assoc] at hlater
            rw [namesFrom, hnone]
            exact hlater

/-- The names begin with that of the first heading, if there is one. -/
theorem mem_head?_names : name ∈ (names code).head? ↔ ∃ front, First code front name := by
  have hpast : Passed [] code := fun earlier later other rest _ hlt =>
    absurd hlt (Nat.not_lt_zero _)
  exact mem_head?_namesFrom (Nat.le_refl code.length) hpast

end Search

end Declaration

end RoutineBridge
