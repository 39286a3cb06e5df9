import LosslessJpeg.Proofs.Scan.BlockDecoding

set_option autoImplicit false

/-!
Coefficients by bits of their two's complement. A first scan carries a DC coefficient without
its lowest bits, shifted right; each later scan sets one more bit.
-/

namespace LosslessJpeg

open BlockDecoder (bitValue scaled scaled_of_product)

def bitOf (value : Int16) (low : Nat) : Bool :=
  value.toBitVec.getLsbD low

def highPart (value : Int16) (low : Nat) : Int16 :=
  Int16.ofBitVec (value.toBitVec.sshiftRight low <<< low)

theorem highPart_getLsbD (value : Int16) (low place : Nat) :
    (highPart value low).toBitVec.getLsbD place =
      (!decide (place < low) && value.toBitVec.getLsbD place) := by
  have outside : 16 ≤ place → value.toBitVec.getLsbD place = false :=
    BitVec.getLsbD_of_ge _ _
  unfold highPart
  rw [Int16.toBitVec_ofBitVec, BitVec.getLsbD_shiftLeft, BitVec.getLsbD_sshiftRight]
  by_cases below : place < low
  · simp [below]
  · by_cases inside : place < 16
    · rw [if_pos (by omega), Nat.add_sub_cancel' (by omega)]
      simp only [inside, decide_true, Bool.true_and]
      simp only [show ¬ 16 ≤ place - low by omega, decide_false, Bool.not_false, Bool.true_and]
    · simp [inside, outside (by omega)]

theorem bitValue_getLsbD (low place : Nat) :
    (bitValue low).toBitVec.getLsbD place = (decide (place < 16) && decide (low = place)) := by
  unfold bitValue
  rw [Int16.toBitVec_ofInt, BitVec.ofInt_natCast, BitVec.getLsbD_ofNat, Nat.one_shiftLeft,
    Nat.testBit_two_pow]

private theorem ext_bits {first second : Int16}
    (same : ∀ place < 16, first.toBitVec.getLsbD place = second.toBitVec.getLsbD place) :
    first = second :=
  Int16.toBitVec_inj.mp (BitVec.eq_of_getLsbD_eq same)

@[simp]
theorem highPart_zero (value : Int16) : highPart value 0 = value := by
  apply ext_bits
  intro place _
  rw [highPart_getLsbD]
  rfl

theorem highPart_refined {value : Int16} {low : Nat} (set : bitOf value low = true) :
    highPart value (low + 1) ||| bitValue low = highPart value low := by
  apply ext_bits
  intro place inside
  rw [Int16.toBitVec_or, BitVec.getLsbD_or, highPart_getLsbD, highPart_getLsbD,
    bitValue_getLsbD]
  by_cases here : low = place
  · subst here
    have set : value.toBitVec.getLsbD low = true := set
    simp [inside, set]
  · simp [here, show place < low + 1 ↔ place < low by omega]

/-- Setting a bit that is there already changes nothing. -/
theorem highPart_refinedAgain {value : Int16} {low : Nat} (set : bitOf value low = true) :
    highPart value low ||| bitValue low = highPart value low := by
  rw [← highPart_refined set, Int16.or_assoc, Int16.or_self]

theorem highPart_unset {value : Int16} {low : Nat} (unset : bitOf value low = false) :
    highPart value (low + 1) = highPart value low := by
  apply ext_bits
  intro place inside
  rw [highPart_getLsbD, highPart_getLsbD]
  by_cases here : low = place
  · subst here
    have unset : value.toBitVec.getLsbD low = false := unset
    simp [unset]
  · simp [show place < low + 1 ↔ place < low by omega]

theorem shiftRight_inRange (value : Int16) (low : Nat) :
    -32768 ≤ value.toInt >>> low ∧ value.toInt >>> low ≤ 32767 := by
  have shifted : (value.toBitVec.sshiftRight low).toInt = value.toInt >>> low :=
    BitVec.toInt_sshiftRight
  have lower := BitVec.le_toInt (value.toBitVec.sshiftRight low)
  have upper : (value.toBitVec.sshiftRight low).toInt < 2 ^ 15 := BitVec.toInt_lt
  omega

private theorem ofNat_two_pow (low : Nat) : BitVec.ofNat 16 (2 ^ low) = BitVec.twoPow 16 low := by
  apply BitVec.eq_of_getLsbD_eq
  intro place inside
  rw [BitVec.getLsbD_ofNat, Nat.testBit_two_pow, BitVec.getLsbD_twoPow]
  by_cases same : low = place
  · simp [same]
  · simp [same]

private theorem ofInt_shifted (value : Int16) (low : Nat) :
    Int16.ofInt (value.toInt >>> low * 2 ^ low) = highPart value low := by
  have power : (2 : Int) ^ low = ((2 ^ low : Nat) : Int) := (Int.natCast_pow 2 low).symm
  rw [← Int16.toBitVec_inj, Int16.toBitVec_ofInt, power, BitVec.ofInt_mul, highPart,
    Int16.toBitVec_ofBitVec, BitVec.shiftLeft_eq_mul_twoPow, BitVec.ofInt_natCast,
    ofNat_two_pow]
  rfl

/-- What a first scan makes of a shifted coefficient. -/
theorem scaled_shiftRight (value : Int16) {low : Nat} (few : low < 16) :
    scaled (value.toInt >>> low) low = highPart value low := by
  have lower := value.le_toInt
  have upper := value.toInt_lt
  obtain ⟨high, total⟩ : ∃ high, low + high = 15 := ⟨15 - low, by omega⟩
  have most : (2 : Int) ^ high * 2 ^ low = 32768 := by
    rw [← Int.pow_add, Nat.add_comm, total]
    rfl
  have positive : (0 : Int) < 2 ^ low := Int.pow_pos (by decide)
  have shifted : value.toInt >>> low = value.toInt / 2 ^ low := Int.shiftRight_eq_div_pow _ _
  have above : -32768 ≤ value.toInt / 2 ^ low * 2 ^ low := by
    have quotient : -(2 ^ high) ≤ value.toInt / 2 ^ low := by
      rw [Int.le_ediv_iff_mul_le positive, Int.neg_mul, most]
      exact lower
    have product := Int.mul_le_mul_of_nonneg_right quotient (Int.le_of_lt positive)
    rw [Int.neg_mul, most] at product
    exact product
  have below := Int.ediv_mul_le value.toInt (Int.ne_of_gt positive)
  rw [← ofInt_shifted]
  apply scaled_of_product
  · rw [shifted]
    exact above
  · rw [shifted]
    omega

end LosslessJpeg
