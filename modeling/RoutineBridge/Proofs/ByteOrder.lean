import Mathlib.Data.String.Basic
import RoutineBridge.Types.Name

/-!
# The order of names is the order of bytes

Strings are compared character by character, and names part by part. The bytes of a greater
character are greater where they first differ, and they do differ before either ends
(`Text.utf8EncodeChar_append_lt`); so strings come in the order of their bytes, and names in that of
the bytes of their parts (`TypeName.bytes_lt_of_compare`).
-/

namespace RoutineBridge

namespace Text

/-- The bytes of a string. -/
def bytes (s : String) : List UInt8 := s.toUTF8.data.toList

theorem bytes_eq_flatMap (s : String) : bytes s = s.toList.flatMap String.utf8EncodeChar := by
  rw [bytes, String.toUTF8, ← String.utf8Encode_toList, List.utf8Encode, List.data_toByteArray]

theorem ofNat_cons_lt_iff {m n : Nat} (hm : m < 256) (hn : n < 256) (as bs : List UInt8) :
    UInt8.ofNat m :: as < UInt8.ofNat n :: bs ↔ m < n ∨ m = n ∧ as < bs := by
  have heq : UInt8.ofNat m = UInt8.ofNat n ↔ m = n := by
    rw [← UInt8.toNat_inj, UInt8.toNat_ofNat_of_lt' hm, UInt8.toNat_ofNat_of_lt' hn]
  rw [List.cons_lt_cons_iff, UInt8.ofNat_lt_iff_lt hm hn, heq]

/-- **A greater character has greater bytes**, whatever follows them. -/
theorem utf8EncodeChar_append_lt {c d : Char} (h : c < d) (as bs : List UInt8) :
    String.utf8EncodeChar c ++ as < String.utf8EncodeChar d ++ bs := by
  have hlt : c.val.toNat < d.val.toNat := UInt32.lt_iff_toNat_lt.mp h
  have hlast : d.val.toNat ≤ 0x10FFFF := by
    have := d.valid
    simp only [UInt32.isValidChar, Nat.isValidChar] at this
    omega
  have hdigits : ∀ v : Nat, v / 4096 = v / 64 / 64 ∧ v / 262144 = v / 64 / 64 / 64 :=
    fun v => by omega
  unfold String.utf8EncodeChar
  -- more bytes begin with a greater byte, and equally many bytes are digits in base 64
  simp only [hdigits]
  split_ifs <;> first
    | omega
    | simp (disch := omega) only [List.cons_append, List.nil_append, ofNat_cons_lt_iff]
      omega

/-- Strings come in the order of their bytes. -/
theorem bytes_lt_of_lt {s t : String} (h : s < t) : bytes s < bytes t := by
  have hlex := String.lt_iff_toList_lt.mp h
  rw [bytes_eq_flatMap, bytes_eq_flatMap]
  generalize s.toList = cs, t.toList = ds at hlex ⊢
  induction hlex with
  | @nil c cs =>
      obtain ⟨b, bs, hbytes⟩ := List.exists_cons_of_ne_nil (String.utf8EncodeChar_ne_nil (c := c))
      rw [List.flatMap_cons, hbytes]
      exact .nil
  | rel hlt => exact utf8EncodeChar_append_lt hlt _ _
  | cons _ ih => exact List.append_left_lt ih

end Text

namespace TypeName

/-- The bytes of the owner, of the package and of the name. -/
def bytes (n : TypeName) : List (List UInt8) := [n.owner, n.package, n.name].map Text.bytes

/-- **Names come in the order of the bytes** of their parts. -/
theorem bytes_lt_of_compare {m n : TypeName} (h : compare m n = .lt) : m.bytes < n.bytes := by
  obtain ⟨owner, package, name⟩ := m
  obtain ⟨owner', package', name'⟩ := n
  have hparts : owner < owner' ∨ owner = owner' ∧
      (package < package' ∨ package = package' ∧ name < name') := by
    have hlex : compareLex (compareOn TypeName.owner)
        (compareLex (compareOn TypeName.package) (compareOn TypeName.name))
        ⟨owner, package, name⟩ ⟨owner', package', name'⟩ = .lt := h
    simpa only [compareLex, compareOn, Ordering.then_eq_lt, compare_lt_iff_lt,
      compare_eq_iff_eq] using hlex
  simp only [bytes, List.map_cons, List.cons_lt_cons_iff]
  obtain howner | ⟨rfl, hpackage | ⟨rfl, hname⟩⟩ := hparts
  · exact .inl (Text.bytes_lt_of_lt howner)
  · exact .inr ⟨rfl, .inl (Text.bytes_lt_of_lt hpackage)⟩
  · exact .inr ⟨rfl, .inr ⟨rfl, .inl (Text.bytes_lt_of_lt hname)⟩⟩

end TypeName

end RoutineBridge
