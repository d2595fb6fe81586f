import RoutineBridge.Proofs.Decimals
import RoutineBridge.Proofs.SampleForms

/-!
# Samples of numbers and the types they are made for

A sample number has up to four digits in front of the point and up to two behind it, and then it is
checked against its type. It spells a decimal (`Fixture.NumericSample.spells_text`), so the check
comes down to comparing numbers. Number types that give their precision take every sample that is
made for them. For the others the sample is made with four digits whether or not the type has room
for them, with a place although a negative scale leaves none, and with places that an integer wire
has no form for. Main statement: what a type takes, sample by sample and altogether
(`Fixture.numberSample_taken_iff`).
-/

namespace RoutineBridge.Fixture

namespace NumericSample

/-- The decimal that the sample shows. -/
def decimal (n : NumericSample) : Decimal where
  negative := false
  whole := Nat.toDigits 10 n.whole
  places := List.replicate n.places '5'
  digits c hc := by
    rcases List.mem_append.mp hc with hc | hc
    · exact Nat.isDigit_of_mem_toDigits (by decide) (by decide) hc
    · rw [List.eq_of_mem_replicate hc]
      rfl
  nonempty := List.append_ne_nil_of_left_ne_nil (Nat.toDigits_ne_nil) _

theorem toList_text (n : NumericSample) :
    n.text.toList = n.decimal.whole ++ if n.places = 0 then [] else '.' :: n.decimal.places := by
  have hwhole : (toString n.whole).toList = n.decimal.whole := by
    rw [Nat.toString_eq_ofList_toDigits, String.toList_ofList]
    rfl
  rw [text]
  split
  · rw [hwhole, List.append_nil]
  · simp [fives, decimal]

theorem spells_text (n : NumericSample) : n.decimal.Spells (Text.trim n.text.toList) := by
  have hvisible : n.text.toList.all (!Text.isBlank ·) := by
    rw [List.all_eq_true]
    intro c hc
    have hclass : c = '.' ∨ c ∈ n.decimal.whole ++ n.decimal.places := by
      rw [toList_text] at hc
      split at hc <;> grind
    obtain rfl | hdigit := hclass
    · decide
    · simpa using Text.not_isBlank_of_isDigit (n.decimal.digits c hdigit)
  rw [Text.trim_eq_self hvisible, toList_text]
  split
  · rename_i hplaces
    rw [List.append_nil]
    exact .whole [] (by simp [decimal, Decimal.signs]) (by simp [decimal, hplaces])
  · exact .point [] (by simp [decimal, Decimal.signs])

/-- The check compares numbers. -/
theorem check_text_iff (n : NumericSample) (precision : Nat) (scale : Int) :
    Digits.check n.text precision scale = .ok () ↔
      (n.places : Int) ≤ (Digits.budget precision scale).2 ∧
        n.whole < 10 ^ (Digits.budget precision scale).1.toNat := by
  have hvalue : Digits.numeral n.decimal.whole = n.whole := Nat.ofDigitChars_ten_toDigits
  have hlength : n.decimal.places.length = n.places := List.length_replicate
  rw [Digits.check_iff_of_spells n.spells_text, hvalue, hlength]

/-- Only places keep a sample off a wire. -/
theorem exists_json_iff {n : NumericSample} (hwhole : n.whole < 10 ^ 4) {wire : Wire}
    (hwire : wire ∈ [.string, .int32, .int64, .double]) :
    (∃ j, n.json? wire = some j ∧ wire.Form j) ↔
      (wire = .int32 ∨ wire = .int64 → n.places = 0) := by
  have hform : (∃ j, n.json? wire = some j ∧ wire.Form j) ↔ (n.json? wire).isSome := by
    rw [Option.isSome_iff_exists]
    exact exists_congr fun j => and_iff_left_of_imp fun hj => form_of_json? hwhole hwire hj
  rw [hform]
  cases wire <;> simp [json?] at hwire ⊢

end NumericSample

end Fixture

/-! ## What a type takes -/

/-- The type takes the sample of this seed. A number type that gives its precision takes any. Of the
other types, the whole part has to find room, a number type must not have a negative scale, and an
integer type must not have a positive one unless numbers travel as strings. -/
def Scalar.Takes (s : Scalar) (numberAsString : Bool) (seed : Nat) : Prop :=
  s.kind = .number ∧ 0 < s.precision ∨
    seed % 10 ^ 4 < 10 ^ (Digits.budget s.precision s.scale).1.toNat ∧
      (s.kind = .number → 0 ≤ s.scale) ∧ (s.kind = .integer → s.scale ≤ 0 ∨ numberAsString)

namespace Fixture

variable {s : Scalar}

/-- The whole part is made to fit a number type that gives its precision, and any other type has to
have room for four digits. -/
theorem NumericSample.whole_fits_iff (wire : Wire) (seed : Nat) :
    (make s wire seed).whole < 10 ^ (Digits.budget s.precision s.scale).1.toNat ↔
      s.kind = .number ∧ 0 < s.precision ∨
        seed % 10 ^ 4 < 10 ^ (Digits.budget s.precision s.scale).1.toNat := by
  by_cases hgiven : s.kind = .number ∧ 0 < s.precision
  · have hdigits : wholeDigits s ≤ (Digits.budget s.precision s.scale).1.toNat := by
      rw [wholeDigits, if_pos hgiven, Digits.budget, if_neg (by omega), if_neg (by omega)]
      dsimp only
      omega
    have hwhole := (whole_lt_pow s wire seed).trans_le (Nat.pow_le_pow_right (by decide) hdigits)
    exact iff_of_true hwhole (.inl hgiven)
  · have hdigits : wholeDigits s = 4 := by rw [wholeDigits, if_neg hgiven]
    simp [make, hdigits, hgiven]

/-- The places fit, the type and the wire, unless the type has a place too many or the wire has
none. -/
theorem NumericSample.places_fit_iff (hkind : s.kind ∈ [.number, .integer]) (numberAsString : Bool)
    (seed : Nat) {wire : Wire} (hwire : wire = .ofScalar s numberAsString) :
    ((make s wire seed).places : Int) ≤ (Digits.budget s.precision s.scale).2 ∧
        (wire = .int32 ∨ wire = .int64 → (make s wire seed).places = 0) ↔
      s.kind = .number ∧ 0 < s.precision ∨
        (s.kind = .number → 0 ≤ s.scale) ∧ (s.kind = .integer → s.scale ≤ 0 ∨ numberAsString) := by
  subst hwire
  obtain ⟨kind, catalogName, precision, scale, length, charset⟩ := s
  simp only [List.mem_cons, List.not_mem_nil, or_false] at hkind
  obtain rfl | rfl := hkind
  · rcases Nat.eq_zero_or_pos precision with rfl | hprecision
    -- without a precision no number is integral, and its sample has a place at any scale
    · cases numberAsString <;>
        grind [make, placeDigits, Digits.budget, Wire.ofScalar, Scalar.isIntegral]
    · cases numberAsString <;>
        grind [make, placeDigits, Digits.budget, Wire.ofScalar, Scalar.isIntegral]
  -- an integer is integral at any scale, and so are the wires, but not the sample
  · cases numberAsString <;>
      grind [make, placeDigits, Digits.budget, Wire.ofScalar, Scalar.isIntegral]

/-- A type that takes four digits takes the sample of every seed, and no other type does. -/
theorem takes_forall_iff (s : Scalar) (numberAsString : Bool) :
    (∀ seed, s.Takes numberAsString seed) ↔
      s.kind = .number ∧ 0 < s.precision ∨
        4 ≤ (Digits.budget s.precision s.scale).1.toNat ∧
          (s.kind = .number → 0 ≤ s.scale) ∧
          (s.kind = .integer → s.scale ≤ 0 ∨ numberAsString) := by
  have hroom : ∀ k, (∀ seed, seed % 10 ^ 4 < 10 ^ k) ↔ 4 ≤ k := by
    intro k
    constructor
    · intro h
      by_contra hfew
      have hpow : 10 ^ k ≤ 10 ^ 3 := Nat.pow_le_pow_right (by decide) (by omega)
      have := h 9999
      omega
    · intro h seed
      exact (Nat.mod_lt _ (by decide)).trans_le (Nat.pow_le_pow_right (by decide) h)
  rw [← hroom]
  by_cases hgiven : s.kind = .number ∧ 0 < s.precision
  · simp [Scalar.Takes, hgiven]
  · simp [Scalar.Takes, hgiven, forall_and]

/-- The sample of a number becomes a value where it passes both checks. -/
theorem scalarSample_ok_iff {routine field : String} {wire : Wire} {seed : Nat}
    (hkind : s.kind ∈ [.number, .integer]) :
    (∃ j, scalarSample routine field wire s seed = .ok j) ↔
      Digits.check (NumericSample.make s wire seed).text s.precision s.scale = .ok () ∧
        ∃ j, (NumericSample.make s wire seed).json? wire = some j := by
  have hnumeric : isNumeric s ∧ s.kind ≠ .float := by
    simp only [List.mem_cons, List.not_mem_nil, or_false] at hkind
    rcases hkind with hkind | hkind <;> simp [isNumeric, hkind]
  simp only [scalarSample, if_pos hnumeric.1, if_neg hnumeric.2]
  cases Digits.check (NumericSample.make s wire seed).text s.precision s.scale with
  | error e => simp
  | ok _ =>
      cases (NumericSample.make s wire seed).json? wire with
      | none => simp
      | some j => simp

/-- **What is sampled is taken or refused.** The sample of a type of numbers passes the check and
has the form of its wire exactly if the type takes it; then, and only then, it becomes a value. -/
theorem numberSample_taken_iff (routine field : String) (s : Scalar)
    (hkind : s.kind ∈ [.number, .integer]) (numberAsString : Bool) {wire : Wire}
    (hwire : wire = .ofScalar s numberAsString) :
    (∀ seed, (Digits.check (NumericSample.make s wire seed).text s.precision s.scale = .ok () ∧
        ∃ j, (NumericSample.make s wire seed).json? wire = some j ∧ wire.Form j) ↔
          s.Takes numberAsString seed) ∧
      (∀ seed, (∃ j, scalarSample routine field wire s seed = .ok j) ↔
        s.Takes numberAsString seed) ∧
      ((∀ seed, s.Takes numberAsString seed) ↔
        s.kind = .number ∧ 0 < s.precision ∨
          4 ≤ (Digits.budget s.precision s.scale).1.toNat ∧
            (s.kind = .number → 0 ≤ s.scale) ∧
            (s.kind = .integer → s.scale ≤ 0 ∨ numberAsString)) := by
  have hnumbers : wire ∈ [.string, .int32, .int64, .double] := by
    rw [hwire, Wire.ofScalar]
    simp only [List.mem_cons, List.not_mem_nil, or_false] at hkind
    rcases hkind with hkind | hkind <;> rw [hkind] <;> grind
  have htaken : ∀ seed,
      (Digits.check (NumericSample.make s wire seed).text s.precision s.scale = .ok () ∧
        ∃ j, (NumericSample.make s wire seed).json? wire = some j ∧ wire.Form j) ↔
          s.Takes numberAsString seed := by
    intro seed
    have hplaces := NumericSample.places_fit_iff hkind numberAsString seed hwire
    have hwhole := NumericSample.whole_fits_iff (s := s) wire seed
    rw [NumericSample.check_text_iff,
      NumericSample.exists_json_iff (NumericSample.whole_lt s wire seed) hnumbers,
      and_right_comm, hplaces, hwhole, and_comm, ← or_and_left, Scalar.Takes]
  refine ⟨htaken, fun seed => ?_, takes_forall_iff s numberAsString⟩
  rw [scalarSample_ok_iff hkind, ← htaken seed]
  refine and_congr_right fun _ => exists_congr fun j => (and_iff_left_of_imp fun hj => ?_).symm
  exact NumericSample.form_of_json? (NumericSample.whole_lt s wire seed) hnumbers hj

theorem numberSample_taken_iff_sample :
    Scalar.Kind.number ∈ [Scalar.Kind.number, .integer] ∧
      (Wire.double : Wire) = .ofScalar ⟨.number, "NUMBER", 5, 2, 0, ""⟩ false ∧
      ∀ seed, ∃ j, scalarSample "pkg.find" "p" .double ⟨.number, "NUMBER", 5, 2, 0, ""⟩ seed =
        .ok j := by
  have hkind : (⟨.number, "NUMBER", 5, 2, 0, ""⟩ : Scalar).kind ∈
      [Scalar.Kind.number, .integer] := by decide
  have hwire : (Wire.double : Wire) = .ofScalar ⟨.number, "NUMBER", 5, 2, 0, ""⟩ false := rfl
  have htaken := numberSample_taken_iff "pkg.find" "p" _ hkind false hwire
  have hall := htaken.2.2.mpr (.inl ⟨rfl, by decide⟩)
  exact ⟨by decide, hwire, fun seed => (htaken.2.1 seed).mpr (hall seed)⟩

/-- **A number without a precision that has a negative scale** takes no sample: the sample gets a
place, and the type has none. -/
theorem numberSample_refused :
    ∃ s, Scalar.ofCatalog? "NUMBER" 0 (-2) 0 "" = some s ∧
      (NumericSample.make s (.ofScalar s false) 1).text = "1.5" ∧
      Digits.check "1.5" s.precision s.scale = .error (.tooManyDigits "1.5" 0 (-2)) ∧
      scalarSample "pkg.find" "p" (.ofScalar s false) s 1 =
        .error (.fixture "pkg.find" "p" (.tooManyDigits "1.5" 0 (-2))) :=
  ⟨_, rfl, by decide, by decide, by rfl⟩

end Fixture

end RoutineBridge
