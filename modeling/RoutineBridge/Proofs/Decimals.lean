import Mathlib.Algebra.Order.Field.Power
import Mathlib.Algebra.Order.Ring.Rat
import Mathlib.Tactic.FieldSimp
import Mathlib.Tactic.Linarith
import Mathlib.Tactic.NormNum
import Mathlib.Tactic.Ring
import RoutineBridge.Proofs.Trimming
import RoutineBridge.Types.Digits

/-!
# Decimal literals and the values of number types

A text that is checked against a number type spells a decimal, and a decimal has a value. The digits
in front of the point are counted without leading zeros, which is to say that the number they stand
for is bounded (`Digits.length_dropWhile_le_iff`); behind the point every digit counts. So the check
bounds the value and its places (`Digits.check_iff_spells`), and within the precision it finds
exactly the values of the type. With a scale beyond the precision the bound on the digits in front
of the point stays at none, so whatever is less than one passes with that many places, also where
the values of the type are smaller still (`Digits.check_scale_beyond_precision`).
-/

namespace RoutineBridge

namespace Text

theorem mem_trimStart {cs : List Char} {c : Char} (h : c ∈ cs) (hc : ¬ isBlank c) :
    c ∈ trimStart cs := by
  rw [← List.takeWhile_append_dropWhile (p := isBlank) (l := cs), List.mem_append] at h
  exact h.resolve_left fun hblank => hc (List.mem_takeWhile_imp hblank)

/-- Only blanks are trimmed. -/
theorem mem_trim {cs : List Char} {c : Char} (h : c ∈ cs) (hc : ¬ isBlank c) : c ∈ trim cs := by
  have hstart := List.mem_reverse.mpr (mem_trimStart h hc)
  exact List.mem_reverse.mpr (mem_trimStart hstart hc)

theorem toNat_of_isDigit {c : Char} (h : c.isDigit) : 48 ≤ c.toNat ∧ c.toNat ≤ 57 := by
  simpa [Char.isDigit, UInt32.le_iff_toNat_le] using h

theorem not_isBlank_of_isDigit {c : Char} (h : c.isDigit) : ¬ isBlank c := by
  have := toNat_of_isDigit h
  simp [isBlank]
  omega

end Text

namespace Digits

/-! ## The number that digits stand for -/

def numeral (ds : List Char) : Nat := Nat.ofDigitChars 10 ds 0

variable {ds es : List Char}

theorem numeral_append (ds es : List Char) :
    numeral (ds ++ es) = 10 ^ es.length * numeral ds + numeral es := by
  rw [numeral, Nat.ofDigitChars_append, Nat.ofDigitChars_eq_ofDigitChars_zero]
  rfl

theorem numeral_cons (c : Char) (ds : List Char) :
    numeral (c :: ds) = 10 ^ ds.length * (c.toNat - '0'.toNat) + numeral ds := by
  rw [← List.singleton_append, numeral_append, numeral, Nat.ofDigitChars_cons]
  simp

theorem numeral_lt (h : ∀ c ∈ ds, c.isDigit) : numeral ds < 10 ^ ds.length := by
  induction ds with
  | nil => decide
  | cons c ds ih =>
      obtain ⟨hc, hds⟩ := List.forall_mem_cons.mp h
      have hdigit : c.toNat - '0'.toNat ≤ 9 := by
        have := Text.toNat_of_isDigit hc
        have : '0'.toNat = 48 := rfl
        omega
      rw [numeral_cons, List.length_cons, pow_succ]
      calc 10 ^ ds.length * (c.toNat - '0'.toNat) + numeral ds
          < 10 ^ ds.length * (c.toNat - '0'.toNat) + 10 ^ ds.length :=
            Nat.add_lt_add_left (ih hds) _
        _ = 10 ^ ds.length * (c.toNat - '0'.toNat + 1) := by ring
        _ ≤ 10 ^ ds.length * 10 := Nat.mul_le_mul_left _ (by omega)

/-- Behind the leading zeros so many digits are left as the number has. -/
theorem length_dropWhile_le_iff (h : ∀ c ∈ ds, c.isDigit) (k : Nat) :
    (ds.dropWhile (· == '0')).length ≤ k ↔ numeral ds < 10 ^ k := by
  induction ds with
  | nil => simp [numeral]
  | cons c ds ih =>
      obtain ⟨hc, hds⟩ := List.forall_mem_cons.mp h
      by_cases hzero : c = '0'
      · have hvalue : numeral ('0' :: ds) = numeral ds := by
          rw [numeral_cons, Nat.sub_self, Nat.mul_zero, Nat.zero_add]
        rw [hzero, List.dropWhile_cons_of_pos (by rfl), hvalue]
        exact ih hds
      · rw [List.dropWhile_cons_of_neg (by simpa using hzero)]
        have hdigit : 1 ≤ c.toNat - '0'.toNat := by
          have := Text.toNat_of_isDigit hc
          have hne : c.toNat ≠ '0'.toNat := fun heq => hzero (Char.toNat_inj.mp heq)
          have : '0'.toNat = 48 := rfl
          omega
        have hlower : 10 ^ ds.length ≤ numeral (c :: ds) := by
          rw [numeral_cons]
          exact Nat.le_add_right_of_le (Nat.le_mul_of_pos_right _ hdigit)
        constructor
        · intro hlength
          exact (numeral_lt h).trans_le (Nat.pow_le_pow_right (by decide) hlength)
        · intro hbound
          exact (Nat.pow_lt_pow_iff_right (by decide)).mp (hlower.trans_lt hbound)

end Digits

/-! ## Decimals -/

/-- A decimal literal: its sign, and the digits on either side of the point, of which there is at
least one. -/
structure Decimal where
  negative : Bool
  whole : List Char
  places : List Char
  digits : ∀ c ∈ whole ++ places, c.isDigit
  nonempty : whole ++ places ≠ []

namespace Decimal

variable {n m : Decimal} {cs : List Char}

/-- How the sign may be written. -/
def signs (negative : Bool) : List (List Char) := if negative then [['-']] else [[], ['+']]

/-- The text spells the decimal. The point may be left out where no digit stands behind it. -/
inductive Spells (n : Decimal) : List Char → Prop
  | whole (sign : List Char) (hsign : sign ∈ signs n.negative) (hplaces : n.places = []) :
      Spells n (sign ++ n.whole)
  | point (sign : List Char) (hsign : sign ∈ signs n.negative) :
      Spells n (sign ++ (n.whole ++ '.' :: n.places))

/-- The exact value. -/
def value (n : Decimal) : ℚ :=
  (if n.negative then -1 else 1) * Digits.numeral (n.whole ++ n.places) / 10 ^ n.places.length

theorem isDigit_whole (n : Decimal) : ∀ c ∈ n.whole, c.isDigit :=
  fun c hc => n.digits c (List.mem_append_left _ hc)

theorem isDigit_places (n : Decimal) : ∀ c ∈ n.places, c.isDigit :=
  fun c hc => n.digits c (List.mem_append_right _ hc)

theorem abs_value (n : Decimal) :
    |n.value| = Digits.numeral (n.whole ++ n.places) / 10 ^ n.places.length := by
  have hsign : |(if n.negative then -1 else 1 : ℚ)| = 1 := by
    split <;> simp
  rw [value, mul_div_assoc, abs_mul, hsign, one_mul]
  exact abs_of_nonneg (div_nonneg (Nat.cast_nonneg _) (by positivity))

/-- The digits in front of the point bound the value by a power of ten. -/
theorem abs_value_lt_iff (n : Decimal) (k : Nat) :
    |n.value| < 10 ^ k ↔ Digits.numeral n.whole < 10 ^ k := by
  have hplaces := Digits.numeral_lt n.isDigit_places
  have hpos : (0 : ℚ) < 10 ^ n.places.length := by positivity
  rw [abs_value, div_lt_iff₀ hpos, Digits.numeral_append]
  norm_cast
  constructor
  · intro h
    refine lt_of_mul_lt_mul_left (a := 10 ^ n.places.length) ?_ (Nat.zero_le _)
    linarith [Nat.mul_comm (10 ^ k) (10 ^ n.places.length)]
  · intro h
    calc 10 ^ n.places.length * Digits.numeral n.whole + Digits.numeral n.places
        < 10 ^ n.places.length * (Digits.numeral n.whole + 1) := by linarith
      _ ≤ 10 ^ n.places.length * 10 ^ k := Nat.mul_le_mul_left _ h
      _ = 10 ^ k * 10 ^ n.places.length := Nat.mul_comm _ _

theorem ne_of_isDigit {c : Char} (h : c.isDigit) : c ≠ '-' ∧ c ≠ '+' ∧ c ≠ '.' := by
  refine ⟨?_, ?_, ?_⟩ <;> rintro rfl <;> exact absurd h (by decide)

/-- A sign in front is dropped, and no digit or point is taken for one. -/
theorem dropSign_append {sign : List Char} (hsign : sign ∈ signs n.negative) {rest : List Char}
    (hrest : rest = [] ∨ ∃ ds, rest = '.' :: ds) :
    Digits.dropSign (sign ++ (n.whole ++ rest)) = n.whole ++ rest := by
  have hbare : Digits.dropSign (n.whole ++ rest) = n.whole ++ rest := by
    cases hwhole : n.whole with
    | nil =>
        obtain rfl | ⟨ds, rfl⟩ := hrest
        · rfl
        · rfl
    | cons c ds =>
        have hc := ne_of_isDigit (n.isDigit_whole c (by simp [hwhole]))
        rw [List.cons_append, Digits.dropSign]
        · exact fun cs heq => hc.1 (List.cons.inj heq).1
        · exact fun cs heq => hc.2.1 (List.cons.inj heq).1
  rw [signs] at hsign
  split at hsign
  · obtain rfl := List.mem_singleton.mp hsign
    rfl
  · simp only [List.mem_cons, List.not_mem_nil, or_false] at hsign
    obtain rfl | rfl := hsign
    · exact hbare
    · rfl

/-- **The parts of a spelled decimal are found.** -/
theorem Spells.parts (h : n.Spells cs) :
    Digits.dropSign cs ≠ [] ∧ Digits.splitPoint (Digits.dropSign cs) = (n.whole, n.places) := by
  have hpoint : '.' ∉ n.whole := fun hmem => (ne_of_isDigit (n.isDigit_whole _ hmem)).2.2 rfl
  cases h with
  | whole sign hsign hplaces =>
      have hdrop := dropSign_append hsign (.inl rfl)
      rw [List.append_nil] at hdrop
      rw [hdrop]
      refine ⟨?_, ?_⟩
      · simpa [hplaces] using n.nonempty
      · have hnone : Text.splitAt? ['.'] n.whole = none := by
          rw [Text.splitAt?_eq_none_iff (by simp)]
          exact fun hwithin => hpoint (hwithin.subset (List.mem_singleton_self _))
        rw [Digits.splitPoint, hnone, hplaces]
        rfl
  | point sign hsign =>
      rw [dropSign_append hsign (.inr ⟨_, rfl⟩)]
      refine ⟨by simp, ?_⟩
      have hsome : Text.splitAt? ['.'] (n.whole ++ '.' :: n.places) = some (n.whole, n.places) :=
        Text.splitAt?_append hpoint n.places
      rw [Digits.splitPoint, hsome]
      rfl

/-- A negative decimal is spelled with a minus, and no other is. -/
theorem Spells.negative_iff (h : n.Spells cs) : n.negative ↔ cs.head? = some '-' := by
  have hhead : ∀ sign ∈ signs n.negative, ∀ rest, (rest = [] ∨ ∃ ds, rest = '.' :: ds) →
      (n.negative ↔ (sign ++ (n.whole ++ rest)).head? = some '-') := by
    intro sign hsign rest hrest
    rw [signs] at hsign
    split at hsign
    · rename_i hnegative
      obtain rfl := List.mem_singleton.mp hsign
      simp [hnegative]
    · rename_i hpositive
      have hbare : Digits.dropSign ([] ++ (n.whole ++ rest)) = n.whole ++ rest :=
        dropSign_append (by simp [signs, hpositive]) hrest
      simp only [List.mem_cons, List.not_mem_nil, or_false] at hsign
      obtain rfl | rfl := hsign
      · refine ⟨fun hnegative => absurd hnegative hpositive, fun hminus => ?_⟩
        obtain ⟨tail, htail⟩ := List.head?_eq_some_iff.mp hminus
        rw [htail, Digits.dropSign] at hbare
        have hlength := congrArg List.length htail
        rw [hbare] at hlength
        simp at hlength
      · simp [hpositive]
  cases h with
  | whole sign hsign hplaces =>
      have hbare := hhead sign hsign [] (.inl rfl)
      rwa [List.append_nil] at hbare
  | point sign hsign => exact hhead sign hsign _ (.inr ⟨_, rfl⟩)

/-- A text spells at most one decimal. -/
theorem Spells.unique (hn : n.Spells cs) (hm : m.Spells cs) : n = m := by
  have hparts := hn.parts.2.symm.trans hm.parts.2
  obtain ⟨hwhole, hplaces⟩ := Prod.mk.inj hparts
  have hnegative : n.negative = m.negative :=
    Bool.eq_iff_iff.mpr (hn.negative_iff.trans hm.negative_iff.symm)
  cases n
  cases m
  cases hwhole
  cases hplaces
  cases hnegative
  rfl

/-- A text whose parts are digits, at least one, spells a decimal. -/
theorem exists_spells {whole places : List Char}
    (hparts : Digits.splitPoint (Digits.dropSign cs) = (whole, places))
    (hdigits : ∀ c ∈ whole ++ places, c.isDigit) (hnonempty : whole ++ places ≠ []) :
    ∃ n : Decimal, n.Spells cs := by
  obtain ⟨negative, sign, hsign, hcs⟩ : ∃ negative, ∃ sign ∈ signs negative,
      cs = sign ++ Digits.dropSign cs := by
    fun_cases Digits.dropSign cs with
    | case1 rest => exact ⟨true, ['-'], by decide, rfl⟩
    | case2 rest => exact ⟨false, ['+'], by decide, rfl⟩
    | case3 hminus hplus => exact ⟨false, [], by decide, rfl⟩
  refine ⟨⟨negative, whole, places, hdigits, hnonempty⟩, ?_⟩
  rw [Digits.splitPoint] at hparts
  rw [hcs]
  cases hsplit : Text.splitAt? ['.'] (Digits.dropSign cs) with
  | none =>
      rw [hsplit, Option.getD_none] at hparts
      obtain ⟨hwhole, hplaces⟩ := Prod.mk.inj hparts
      rw [hwhole]
      exact .whole sign hsign hplaces.symm
  | some parts =>
      rw [hsplit, Option.getD_some] at hparts
      rw [hparts] at hsplit
      rw [Text.eq_of_splitAt? hsplit]
      exact .point sign hsign

end Decimal

/-! ## Texts that pass -/

/-- The values of a number type: multiples of its last place, of no more digits than its
precision. -/
def NumberType.Holds (precision : Nat) (scale : Int) (v : ℚ) : Prop :=
  ∃ k : ℤ, v = k * 10 ^ (-scale) ∧ |k| < 10 ^ precision

/-- To bound the digits is to bound the value. -/
theorem NumberType.holds_iff {precision : Nat} {scale : Int} {v : ℚ} :
    Holds precision scale v ↔
      (∃ k : ℤ, v = k * 10 ^ (-scale)) ∧ |v| < 10 ^ ((precision : Int) - scale) := by
  have hbound : ∀ k : ℤ, |(k * 10 ^ (-scale) : ℚ)| < 10 ^ ((precision : Int) - scale) ↔
      |k| < 10 ^ precision := by
    intro k
    have hpos : (0 : ℚ) < 10 ^ (-scale) := by positivity
    rw [abs_mul, abs_of_pos hpos, sub_eq_add_neg, zpow_add₀ (by norm_num), zpow_natCast,
      mul_lt_mul_iff_left₀ hpos]
    norm_cast
  constructor
  · rintro ⟨k, rfl, hk⟩
    exact ⟨⟨k, rfl⟩, (hbound k).mpr hk⟩
  · rintro ⟨⟨k, rfl⟩, hk⟩
    exact ⟨k, rfl, (hbound k).mp hk⟩

/-- A decimal with few places is a multiple of the last place. -/
theorem Decimal.exists_multiple (n : Decimal) {scale : Nat} (h : n.places.length ≤ scale) :
    ∃ k : ℤ, n.value = k * 10 ^ (-(scale : Int)) := by
  obtain ⟨more, rfl⟩ := Nat.exists_eq_add_of_le h
  refine ⟨(if n.negative then -1 else 1) * Digits.numeral (n.whole ++ n.places) * 10 ^ more, ?_⟩
  rw [Decimal.value, zpow_neg, zpow_natCast, pow_add]
  push_cast
  field_simp

namespace Digits

/-- **A spelled decimal passes** if it has no more places and no greater whole part than the type
has digits for. -/
theorem check_iff_of_spells {text : String} {n : Decimal} (h : n.Spells (Text.trim text.toList))
    (precision : Nat) (scale : Int) :
    check text precision scale = .ok () ↔
      (n.places.length : Int) ≤ (budget precision scale).2 ∧
        numeral n.whole < 10 ^ (budget precision scale).1.toNat := by
  obtain ⟨hnonempty, hparts⟩ := h.parts
  have hdigits : (n.whole ++ n.places).find? (!·.isDigit) = none := by
    simpa [or_imp, forall_and] using n.digits
  have hbudget : 0 ≤ (budget precision scale).1 := by
    rw [budget]
    split
    · decide
    · exact Int.le_max_right _ _
  have hlength := length_dropWhile_le_iff n.isDigit_whole (budget precision scale).1.toNat
  unfold check
  simp only [List.isEmpty_iff, if_neg hnonempty, hparts, hdigits]
  rw [← hlength]
  split
  · simp only [reduceCtorEq, false_iff]
    omega
  · simp only [true_iff]
    omega

/-- Every digit of a text is on one side of its point. -/
theorem mem_parts {cs : List Char} {c : Char} (h : c ∈ cs) (hdigit : c.isDigit) :
    c ∈ (splitPoint (dropSign cs)).1 ++ (splitPoint (dropSign cs)).2 := by
  obtain ⟨hminus, hplus, hpoint⟩ := Decimal.ne_of_isDigit hdigit
  have hsigned : c ∈ dropSign cs := by
    fun_cases dropSign cs with
    | case1 rest => exact (List.mem_cons.mp h).resolve_left hminus
    | case2 rest => exact (List.mem_cons.mp h).resolve_left hplus
    | case3 => exact h
  rw [splitPoint]
  cases hsplit : Text.splitAt? ['.'] (dropSign cs) with
  | none => simpa using hsigned
  | some parts =>
      rw [Text.eq_of_splitAt? hsplit] at hsigned
      simpa [hpoint] using hsigned

/-- What passes and holds a digit spells a decimal. -/
theorem exists_spells_of_check {text : String} {precision : Nat} {scale : Int}
    (hdigit : ∃ c ∈ text.toList, c.isDigit) (h : check text precision scale = .ok ()) :
    ∃ n : Decimal, n.Spells (Text.trim text.toList) := by
  obtain ⟨c, hc, hdigit⟩ := hdigit
  have hmem := mem_parts (Text.mem_trim hc (Text.not_isBlank_of_isDigit hdigit)) hdigit
  obtain ⟨whole, places, hparts⟩ : ∃ whole places,
      splitPoint (dropSign (Text.trim text.toList)) = (whole, places) := ⟨_, _, rfl⟩
  rw [hparts] at hmem
  refine Decimal.exists_spells hparts ?_ (List.ne_nil_of_mem hmem)
  have hnonempty : dropSign (Text.trim text.toList) ≠ [] := by
    intro hnil
    rw [hnil] at hparts
    obtain ⟨rfl, rfl⟩ := Prod.mk.inj hparts
    exact List.not_mem_nil hmem
  unfold check at h
  simp only [List.isEmpty_iff, if_neg hnonempty, hparts] at h
  split at h
  · cases h
  · rename_i hfind
    simpa using List.find?_eq_none.mp hfind

/-- Precision minus scale, where that is not negative. -/
theorem toNat_budget {precision : Nat} (hprecision : 0 < precision) (scale : Nat) :
    (budget precision scale).1.toNat = precision - scale ∧ (budget precision scale).2 = scale := by
  rw [budget, if_neg (by omega), if_neg (by omega)]
  dsimp only
  omega

/-- **What passes.** A text that holds a digit passes where it spells a decimal that has no more
places than the scale and is less than the power of ten that precision minus scale leaves for it,
which is one where that would be negative. Within the precision this makes it a value of the
type. -/
theorem check_iff_spells {text : String} {precision scale : Nat} (hprecision : 0 < precision)
    (hdigit : ∃ c ∈ text.toList, c.isDigit) :
    check text precision scale = .ok () ↔
      ∃ n : Decimal, n.Spells (Text.trim text.toList) ∧ n.places.length ≤ scale ∧
        |n.value| < 10 ^ max ((precision : Int) - scale) 0 ∧
        (scale ≤ precision → NumberType.Holds precision scale n.value) := by
  obtain ⟨hwhole, hplaces⟩ := toNat_budget hprecision scale
  have hexponent : max ((precision : Int) - scale) 0 = ((precision - scale : Nat) : Int) := by
    omega
  constructor
  · intro h
    obtain ⟨n, hn⟩ := exists_spells_of_check hdigit h
    have hfits := (check_iff_of_spells hn precision scale).mp h
    rw [hwhole, hplaces, Nat.cast_le] at hfits
    have hvalue : |n.value| < 10 ^ (precision - scale) := (n.abs_value_lt_iff _).mpr hfits.2
    refine ⟨n, hn, hfits.1, by rwa [hexponent, zpow_natCast], fun hscale => ?_⟩
    rw [NumberType.holds_iff, ← Nat.cast_sub hscale, zpow_natCast]
    exact ⟨n.exists_multiple hfits.1, hvalue⟩
  · rintro ⟨n, hn, hfits, hvalue, -⟩
    rw [check_iff_of_spells hn, hwhole, hplaces, Nat.cast_le]
    rw [hexponent, zpow_natCast] at hvalue
    exact ⟨hfits, (n.abs_value_lt_iff _).mp hvalue⟩

theorem check_iff_spells_sample :
    0 < 3 ∧ (∃ c ∈ " -12.3".toList, c.isDigit) ∧
      ∃ n : Decimal, n.Spells "-12.3".toList ∧ n.places.length ≤ 1 ∧
        |n.value| < 10 ^ max ((3 : Int) - 1) 0 ∧
        (1 ≤ 3 → NumberType.Holds 3 1 n.value) := by
  have hdigit : ∃ c ∈ " -12.3".toList, c.isDigit := ⟨'1', by decide, by decide⟩
  have hpasses : check " -12.3" 3 1 = .ok () := by decide
  exact ⟨by decide, hdigit, (check_iff_spells (by decide) hdigit).mp hpasses⟩

/-- **A scale beyond the precision**: one half passes for a type whose values are less than a
thousandth. -/
theorem check_scale_beyond_precision :
    check "0.5" 2 5 = .ok () ∧
      ∀ n : Decimal, n.Spells (Text.trim "0.5".toList) →
        n.value = 1 / 2 ∧ ¬ |n.value| < 10 ^ ((2 : Int) - 5) ∧ ¬ NumberType.Holds 2 5 n.value := by
  refine ⟨by decide, fun n hn => ?_⟩
  have hhalf : (⟨false, ['0'], ['5'], by simp, by simp⟩ : Decimal).Spells
      (Text.trim "0.5".toList) := .point [] (by decide)
  obtain rfl := hn.unique hhalf
  have hvalue : Decimal.value ⟨false, ['0'], ['5'], by simp, by simp⟩ = 1 / 2 := by
    have hnumeral : numeral ['0', '5'] = 5 := rfl
    simp only [Decimal.value, List.singleton_append, hnumeral]
    norm_num
  have hlarge : ¬ |(1 / 2 : ℚ)| < 10 ^ ((2 : Int) - 5) := by norm_num
  rw [hvalue]
  exact ⟨rfl, hlarge, fun hholds => hlarge (NumberType.holds_iff.mp hholds).2⟩

end Digits

end RoutineBridge
