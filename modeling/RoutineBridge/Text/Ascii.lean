/-!
# ASCII letters

Catalog names are compared without regard to the case of the twenty-six ASCII letters. Every
other character counts as itself.
-/

namespace RoutineBridge.Text

/-- The string with its ASCII letters in upper case. -/
def asciiUpper (s : String) : String := String.ofList (s.toList.map Char.toUpper)

/-- The string with its ASCII letters in lower case. -/
def asciiLower (s : String) : String := String.ofList (s.toList.map Char.toLower)

/-- Two strings are the same up to the case of ASCII letters. -/
def sameIgnoringCase (a b : String) : Bool := asciiLower a == asciiLower b

theorem toNat_lt_of_isAlphanum {c : Char} (h : c.isAlphanum) : c.toNat < 128 := by
  have hlast : c.val ≤ 'z'.val := by
    rcases Bool.or_eq_true_iff.mp h with halpha | hdigit
    · rcases Bool.or_eq_true_iff.mp halpha with hupper | hlower
      · exact UInt32.le_trans (of_decide_eq_true hupper).2 (by decide)
      · exact of_decide_eq_true (Bool.and_eq_true_iff.mp hlower).2
    · exact UInt32.le_trans (of_decide_eq_true (Bool.and_eq_true_iff.mp hdigit).2) (by decide)
  exact Nat.lt_of_le_of_lt (UInt32.le_iff_toNat_le.mp hlast) (by decide)

/-- What is true of the letters and digits of ASCII is true of all letters and digits. -/
theorem of_isAlphanum {p : Char → Prop} {c : Char} (hall : ∀ n < 128, p (Char.ofNat n))
    (h : c.isAlphanum) : p c :=
  Char.ofNat_toNat c ▸ hall c.toNat (toNat_lt_of_isAlphanum h)

end RoutineBridge.Text
