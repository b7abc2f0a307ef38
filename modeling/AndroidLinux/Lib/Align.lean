import Mathlib.Tactic

/-!
# Rounding to words

`(x + 3) & ~3` on 32-bit numbers, as arithmetic.
-/

namespace AndroidLinux
namespace Lib

/-- The mask clears the last two bits. -/
theorem land_mask (n : Nat) (h : n < 2 ^ 32) : n &&& 0xFFFFFFFC = n / 4 * 4 := by
  have hmask : (0xFFFFFFFC : Nat) = (2 ^ 30 - 1) <<< 2 := rfl
  have hround : n / 4 * 4 = (n >>> 2) <<< 2 := by
    rw [Nat.shiftRight_eq_div_pow, Nat.shiftLeft_eq]
  rw [hmask, hround]
  apply Nat.eq_of_testBit_eq
  intro i
  rw [Nat.testBit_and, Nat.testBit_shiftLeft, Nat.testBit_shiftLeft, Nat.testBit_shiftRight,
    Nat.testBit_two_pow_sub_one]
  by_cases hlow : 2 ≤ i
  · rw [Nat.add_sub_cancel' hlow]
    by_cases hi : i < 32
    · have : i - 2 < 30 := by omega
      simp [hlow, this]
    · have hbig : n < 2 ^ i := lt_of_lt_of_le h (Nat.pow_le_pow_right (by decide) (by omega))
      simp [Nat.testBit_lt_two_pow hbig]
  · simp [hlow]

theorem toNat_and_mask (x : UInt32) : (x &&& 0xFFFFFFFC).toNat = x.toNat / 4 * 4 := by
  rw [UInt32.toNat_and, show (0xFFFFFFFC : UInt32).toNat = 0xFFFFFFFC from rfl,
    land_mask _ x.toNat_lt]

/-- Rounding up, when the sum does not wrap. -/
theorem toNat_add_three_and_not_three {x : UInt32} (h : x.toNat + 3 < 2 ^ 32) :
    ((x + 3) &&& ~~~3).toNat = (x.toNat + 3) / 4 * 4 := by
  rw [show (~~~3 : UInt32) = 0xFFFFFFFC from rfl, toNat_and_mask, UInt32.toNat_add,
    show (3 : UInt32).toNat = 3 from rfl, Nat.mod_eq_of_lt h]

end Lib
end AndroidLinux
