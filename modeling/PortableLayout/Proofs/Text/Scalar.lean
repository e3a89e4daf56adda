/-!
# Scalar values

A character is a number below 110000 that is no surrogate, and any such number is a character's.
-/

set_option autoImplicit false

namespace PortableLayout.Text

/-- The number of a character is that of a scalar value. -/
theorem isValidChar_toNat (c : Char) : c.toNat.isValidChar :=
  c.valid

/-- The number of a scalar value is the number of its character. -/
theorem toNat_ofNat_of_isValidChar {n : Nat} (h : n.isValidChar) : (Char.ofNat n).toNat = n := by
  rw [Char.ofNat, dif_pos h]
  rfl

end PortableLayout.Text
