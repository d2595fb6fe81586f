import RoutineBridge.Layout.Wire
import RoutineBridge.Proofs.Decimals

/-!
# Numbers that travel as 64-bit integers

A number type travels as a 64-bit integer if its values have no fraction digits and its precision
is no more than eighteen (`Wire.ofScalar_eq_int64_iff`). The precision counts the digits that count,
and a negative scale puts zeros behind them, so the greatest value has as many digits as precision
and scale say together. Main statement: for which of these types every value finds room on the wire
(`Wire.int64_takes_iff`).
-/

namespace RoutineBridge

namespace NumberType

variable {precision : Nat} {scale : Int} {v : ℚ}

/-- Without a positive scale the values are the integers that end in so many zeros. -/
theorem holds_iff_of_nonpos (hscale : scale ≤ 0) :
    Holds precision scale v ↔
      ∃ k : ℤ, v = (k * 10 ^ (-scale).toNat : ℤ) ∧ |k| ≤ 10 ^ precision - 1 := by
  have hpow : (10 : ℚ) ^ (-scale) = 10 ^ (-scale).toNat := by
    rw [← zpow_natCast, Int.toNat_of_nonneg (by omega)]
  refine exists_congr fun k => ?_
  rw [hpow, Int.le_sub_one_iff]
  push_cast
  rfl

end NumberType

namespace Wire

/-- The value is a 64-bit integer. -/
def IsInt64 (v : ℚ) : Prop := ∃ k : ℤ, v = k ∧ -2 ^ 63 ≤ k ∧ k < 2 ^ 63

theorem isInt64_intCast_iff {k : ℤ} : IsInt64 k ↔ -2 ^ 63 ≤ k ∧ k < 2 ^ 63 := by
  constructor
  · rintro ⟨m, hm, hrange⟩
    rwa [Int.cast_inj.mp hm]
  · exact fun hrange => ⟨k, rfl, hrange⟩

/-- Numbers without fraction digits and with at most eighteen digits that count travel as 64-bit
integers. -/
theorem ofScalar_eq_int64_iff {s : Scalar} :
    ofScalar s false = .int64 ↔
      s.kind = .number ∧ 0 < s.precision ∧ s.precision ≤ 18 ∧ s.scale ≤ 0 := by
  rw [ofScalar]
  cases hkind : s.kind <;> simp [Scalar.isIntegral, hkind]
  omega

/-- The greatest value, so many nines and so many zeros, is less than two to the power of 63 as long
as it has no more than eighteen digits. Of those with nineteen the least is, a nine and zeros. -/
theorem nines_zeros_lt_iff {nines : Nat} (hnines : 0 < nines) (zeros : Nat) :
    (10 ^ nines - 1) * 10 ^ zeros < 2 ^ 63 ↔ nines + zeros ≤ 18 ∨ nines = 1 ∧ zeros = 18 := by
  constructor
  · intro hlt
    by_contra hmany
    by_cases hone : nines = 1
    · have hzeros : 10 ^ 19 ≤ 10 ^ zeros := Nat.pow_le_pow_right (by decide) (by omega)
      rw [hone] at hlt
      omega
    · obtain ⟨more, rfl⟩ := Nat.exists_eq_add_of_le (show 2 ≤ nines by omega)
      have hfront : 99 * 10 ^ more ≤ 10 ^ (2 + more) - 1 := by
        have hpos : 0 < 10 ^ more := by positivity
        rw [pow_add]
        omega
      have hdigits : 10 ^ 17 ≤ 10 ^ (more + zeros) :=
        Nat.pow_le_pow_right (by decide) (by omega)
      have hlarge : 99 * 10 ^ (more + zeros) ≤ (10 ^ (2 + more) - 1) * 10 ^ zeros := by
        rw [pow_add, ← mul_assoc]
        exact Nat.mul_le_mul_right _ hfront
      omega
  · rintro (hfew | ⟨rfl, rfl⟩)
    · calc (10 ^ nines - 1) * 10 ^ zeros
          ≤ 10 ^ nines * 10 ^ zeros := Nat.mul_le_mul_right _ (Nat.sub_le _ _)
        _ = 10 ^ (nines + zeros) := (pow_add _ _ _).symm
        _ ≤ 10 ^ 18 := Nat.pow_le_pow_right (by decide) hfew
        _ < 2 ^ 63 := by norm_num
    · norm_num

/-- The wire has room for all values of a type if it has room for the greatest. -/
theorem int64_takes_iff_greatest {precision : Nat} {scale : Int} (hscale : scale ≤ 0) :
    (∀ v, NumberType.Holds precision scale v → IsInt64 v) ↔
      (10 ^ precision - 1) * 10 ^ (-scale).toNat < 2 ^ 63 := by
  have hnines : ((10 ^ precision - 1 : Nat) : ℤ) = 10 ^ precision - 1 := by
    push_cast [Nat.one_le_pow]
    rfl
  have hgreatest : (((10 ^ precision - 1) * 10 ^ (-scale).toNat : Nat) : ℤ) =
      (10 ^ precision - 1) * 10 ^ (-scale).toNat := by
    rw [Nat.cast_mul, hnines, Nat.cast_pow]
    rfl
  constructor
  · intro htakes
    have hholds : NumberType.Holds precision scale
        (((10 ^ precision - 1) * 10 ^ (-scale).toNat : ℤ) : ℚ) := by
      refine (NumberType.holds_iff_of_nonpos hscale).mpr ⟨10 ^ precision - 1, rfl, ?_⟩
      rw [← hnines, abs_of_nonneg (Nat.cast_nonneg _)]
    have hroom := (isInt64_intCast_iff.mp (htakes _ hholds)).2
    rw [← hgreatest] at hroom
    exact_mod_cast hroom
  · intro hroom v hv
    obtain ⟨k, rfl, hk⟩ := (NumberType.holds_iff_of_nonpos hscale).mp hv
    have hzeros : (0 : ℤ) < 10 ^ (-scale).toNat := by positivity
    have hbound : |k * 10 ^ (-scale).toNat| < 2 ^ 63 := by
      calc |k * 10 ^ (-scale).toNat|
          = |k| * 10 ^ (-scale).toNat := by rw [abs_mul, abs_of_pos hzeros]
        _ ≤ (10 ^ precision - 1) * 10 ^ (-scale).toNat :=
            mul_le_mul_of_nonneg_right hk hzeros.le
        _ < 2 ^ 63 := by rw [← hgreatest]; exact_mod_cast hroom
    rw [isInt64_intCast_iff]
    have := abs_lt.mp hbound
    omega

/-- **The 64-bit wire has room for every value** of a type that travels on it exactly if precision
and scale leave the values no more than eighteen digits; and one digit with eighteen zeros behind it
still finds room. All values are integers in any case. -/
theorem int64_takes_iff {s : Scalar} (hwire : ofScalar s false = .int64) :
    (∀ v, NumberType.Holds s.precision s.scale v → ∃ k : ℤ, v = k) ∧
      ((∀ v, NumberType.Holds s.precision s.scale v → IsInt64 v) ↔
        (s.precision : Int) - s.scale ≤ 18 ∨ s.precision = 1 ∧ s.scale = -18) := by
  obtain ⟨-, hprecision, -, hscale⟩ := ofScalar_eq_int64_iff.mp hwire
  constructor
  · intro v hv
    obtain ⟨k, hvalue, -⟩ := (NumberType.holds_iff_of_nonpos hscale).mp hv
    exact ⟨_, hvalue⟩
  · rw [int64_takes_iff_greatest hscale, nines_zeros_lt_iff hprecision]
    omega

theorem int64_takes_iff_sample :
    ofScalar ⟨.number, "NUMBER", 14, -4, 0, ""⟩ false = .int64 ∧
      ∀ v, NumberType.Holds 14 (-4) v → IsInt64 v := by
  have hwire : ofScalar ⟨.number, "NUMBER", 14, -4, 0, ""⟩ false = .int64 := by decide
  exact ⟨hwire, (int64_takes_iff hwire).2.mpr (.inl (by decide))⟩

/-- **Eighteen digits with zeros behind them** travel as 64-bit integers, and one of the values is
ten to the power of nineteen. -/
theorem int64_overflow :
    ∃ s, Scalar.ofCatalog? "NUMBER" 18 (-2) 0 "" = some s ∧ ofScalar s false = .int64 ∧
      NumberType.Holds s.precision s.scale (10 ^ 19) ∧ ¬ IsInt64 (10 ^ 19) := by
  refine ⟨⟨.number, "NUMBER", 18, -2, 0, ""⟩, by decide, by decide, ?_, ?_⟩
  · refine (NumberType.holds_iff_of_nonpos (by decide)).mpr ⟨10 ^ 17, ?_, by norm_num⟩
    rw [show (-(-2 : Int)).toNat = 2 from rfl]
    norm_num
  · have hcast : (10 ^ 19 : ℚ) = ((10 ^ 19 : ℤ) : ℚ) := by norm_num
    rw [hcast, isInt64_intCast_iff]
    norm_num

end Wire

end RoutineBridge
