import LosslessJpeg.Block.Magnitude
import Mathlib.Algebra.Ring.Int.Defs
import Mathlib.Algebra.Ring.Nat

set_option autoImplicit false

/-!
A value is written as its size and its bits, and read from them. What is read is the value
written, unless the value needs more than fifteen bits.
-/

namespace LosslessJpeg

def readBack (value : Int) : Int :=
  (extendSign (Magnitude.ofInt value).bits (Magnitude.ofInt value).size).toInt

namespace Magnitude

theorem size_le (value : Int) : (ofInt value).size ≤ 15 :=
  Nat.min_le_right _ _

theorem bits_eq (value : Int) : (ofInt value).bits =
    if value = 0 then 0
    else ((if 0 < value then value else value - 1) % 2 ^ (ofInt value).size).toNat := by
  have power : ((1 <<< (ofInt value).size : Nat) : Int) = 2 ^ (ofInt value).size := by
    rw [Nat.one_shiftLeft]
    exact Int.natCast_pow 2 _
  rw [← power]
  rfl

theorem bits_lt (value : Int) : (ofInt value).bits < 2 ^ (ofInt value).size := by
  rw [bits_eq]
  split
  · exact Nat.two_pow_pos _
  · have positive : (0 : Int) < 2 ^ (ofInt value).size := Int.pow_pos (by decide)
    have lower := Int.emod_nonneg (if 0 < value then value else value - 1)
      (Int.ne_of_gt positive)
    have upper := Int.emod_lt_of_pos (if 0 < value then value else value - 1) positive
    apply (Int.toNat_lt lower).mpr
    rw [Int.natCast_pow]
    exact upper

theorem size_eq_zero_iff (value : Int) : (ofInt value).size = 0 ↔ value = 0 := by
  have size : (ofInt value).size = min (bitLength value.natAbs) 15 := rfl
  rw [size]
  unfold bitLength
  split <;> omega

end Magnitude

theorem extendSign_toInt {bits size : Nat} (some : size ≠ 0) (limited : size ≤ 15)
    (small : bits < 2 ^ size) :
    (extendSign bits size).toInt =
      if bits < 2 ^ (size - 1) then (bits : Int) - 2 ^ size + 1 else bits := by
  have power : 2 ^ size ≤ 2 ^ 15 := Nat.pow_le_pow_right (by decide) limited
  have cast : ((2 ^ size : Nat) : Int) = 2 ^ size := Int.natCast_pow 2 size
  unfold extendSign
  rw [if_neg some, Nat.one_shiftLeft, Nat.one_shiftLeft, cast]
  by_cases negative : bits < 2 ^ (size - 1)
  · rw [if_pos ⟨by omega, negative⟩, if_pos negative]
    refine Int16.toInt_ofInt_of_le ?_ ?_ <;> omega
  · rw [if_neg fun both => negative both.2, if_neg negative]
    refine Int16.toInt_ofInt_of_le ?_ ?_ <;> omega

theorem extendSign_zero (bits : Nat) : (extendSign bits 0).toInt = 0 :=
  rfl

theorem readBack_natAbs_le (value : Int) : (readBack value).natAbs ≤ 32767 := by
  have limited := Magnitude.size_le value
  have small := Magnitude.bits_lt value
  unfold readBack
  by_cases none : (Magnitude.ofInt value).size = 0
  · rw [none, extendSign_zero]
    decide
  · have power : 2 ^ (Magnitude.ofInt value).size ≤ 2 ^ 15 :=
      Nat.pow_le_pow_right (by decide) limited
    have cast : ((2 ^ (Magnitude.ofInt value).size : Nat) : Int) =
      2 ^ (Magnitude.ofInt value).size := Int.natCast_pow 2 _
    rw [extendSign_toInt none limited small]
    split <;> omega

theorem readBack_zero : readBack 0 = 0 :=
  rfl

private theorem readBack_of_ne_zero {value : Int} (different : value ≠ 0)
    (small : value.natAbs ≤ 32767) : readBack value = value := by
  have nonzero : value.natAbs ≠ 0 := Int.natAbs_ne_zero.mpr different
  have atLeast := Nat.log2_self_le nonzero
  have below := Nat.lt_log2_self (n := value.natAbs)
  have digits : value.natAbs.log2 < 15 := (Nat.log2_lt nonzero).mpr (by omega)
  obtain ⟨size, sized⟩ : ∃ size, value.natAbs.log2 + 1 = size := ⟨_, rfl⟩
  have previous : size - 1 = value.natAbs.log2 := by omega
  rw [sized] at below
  rw [← previous] at atLeast
  have halves : 2 ^ size = 2 * 2 ^ (size - 1) := by
    rw [Nat.mul_comm, ← Nat.pow_succ]
    congr 1
    omega
  have cast : ((2 ^ size : Nat) : Int) = 2 ^ size := Int.natCast_pow 2 size
  have coded : (Magnitude.ofInt value).size = size := by
    unfold Magnitude.ofInt bitLength
    dsimp only
    rw [if_neg nonzero, sized]
    exact Nat.min_eq_left (by omega)
  have inside := Magnitude.bits_lt value
  have bits : (Magnitude.ofInt value).bits =
      ((if 0 < value then value else value - 1) % 2 ^ (Magnitude.ofInt value).size).toNat := by
    rw [Magnitude.bits_eq, if_neg different]
  unfold readBack
  rw [extendSign_toInt (by omega) (by omega) inside, coded]
  rw [coded] at bits
  -- A negative value is written as the value below it, modulo the power of two.
  by_cases positive : 0 < value
  · rw [if_pos positive, Int.emod_eq_of_lt (by omega) (by omega)] at bits
    rw [if_neg (by omega)]
    omega
  · have wrapped : (value - 1) % 2 ^ size = value - 1 + 2 ^ size := by
      rw [← Int.add_emod_right, Int.emod_eq_of_lt (by omega) (by omega)]
    rw [if_neg positive, wrapped] at bits
    rw [if_pos (by omega)]
    omega

/-- Exactly the values of at most fifteen bits are read as they were written. -/
theorem readBack_eq_iff (value : Int) : readBack value = value ↔ value.natAbs ≤ 32767 := by
  constructor
  · intro same
    have bounded := readBack_natAbs_le value
    rw [same] at bounded
    exact bounded
  · intro small
    by_cases zero : value = 0
    · rw [zero, readBack_zero]
    · exact readBack_of_ne_zero zero small

end LosslessJpeg
