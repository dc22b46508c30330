/-
Module: KernelHacking.Foundations.Word
Layer: Foundations
Purpose: Masks of machine words as arithmetic. A mask of the low bits is a remainder, a mask of the
  high bits rounds down, a shift is a division. A mask is given by its bits, so the lemmas apply to
  the literals of a program as they stand.
Imports: Mathlib.Data.Nat.Bitwise
Trusted boundary: none (fully proved)
Main exports: LowMask, HighMask, toNat_and_low, toNat_and_high, toNat_shift, toNat_field
Open obligations: none
-/
import Mathlib.Data.Nat.Bitwise

namespace KernelHacking.Word

variable {width : Nat}

/-- The mask keeps exactly the lowest `count` bits. -/
def LowMask (count : Nat) (mask : BitVec width) : Prop :=
  ∀ i < width, mask.getLsbD i = decide (i < count)

/-- The mask keeps exactly the bits from `count` on. -/
def HighMask (count : Nat) (mask : BitVec width) : Prop :=
  ∀ i < width, mask.getLsbD i = decide (count ≤ i)

instance (count : Nat) (mask : BitVec width) : Decidable (LowMask count mask) :=
  inferInstanceAs (Decidable (∀ i < width, _))

instance (count : Nat) (mask : BitVec width) : Decidable (HighMask count mask) :=
  inferInstanceAs (Decidable (∀ i < width, _))

/-- Masking the low bits takes a remainder. -/
theorem toNat_and_low {count : Nat} {mask : BitVec width} (low : LowMask count mask)
    (word : BitVec width) : (word &&& mask).toNat = word.toNat % 2 ^ count := by
  apply Nat.eq_of_testBit_eq
  intro i
  rw [Nat.testBit_mod_two_pow, BitVec.testBit_toNat, BitVec.testBit_toNat, BitVec.getLsbD_and]
  by_cases inside : i < width
  · rw [low i inside, Bool.and_comm]
  · simp [BitVec.getLsbD_of_ge _ _ (Nat.le_of_not_lt inside)]

/-- Masking the high bits rounds down. -/
theorem toNat_and_high {count : Nat} {mask : BitVec width} (high : HighMask count mask)
    (word : BitVec width) : (word &&& mask).toNat = word.toNat / 2 ^ count * 2 ^ count := by
  apply Nat.eq_of_testBit_eq
  intro i
  rw [Nat.testBit_mul_two_pow, Nat.testBit_div_two_pow, BitVec.testBit_toNat, BitVec.getLsbD_and]
  by_cases inside : i < width
  · rw [high i inside, Bool.and_comm]
    by_cases above : count ≤ i
    · simp [above, BitVec.testBit_toNat]
    · simp [above]
  · have outside := Nat.le_of_not_lt inside
    by_cases above : count ≤ i
    · simp [BitVec.getLsbD_of_ge _ _ outside, Nat.sub_add_cancel above, BitVec.testBit_toNat]
    · simp [BitVec.getLsbD_of_ge _ _ outside, above]

/-- A shift to the right is a division. -/
theorem toNat_shift (word : BitVec width) (count : Nat) :
    (word >>> count).toNat = word.toNat / 2 ^ count := by
  rw [BitVec.toNat_ushiftRight, Nat.shiftRight_eq_div_pow]

/-- A field of a word, shifted down and masked. -/
theorem toNat_field {count : Nat} {mask : BitVec width} (low : LowMask count mask)
    (word : BitVec width) (start : Nat) :
    ((word >>> start) &&& mask).toNat = word.toNat / 2 ^ start % 2 ^ count := by
  rw [toNat_and_low low, toNat_shift]

end KernelHacking.Word
