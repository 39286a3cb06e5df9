import LosslessJpeg.Proofs.Scan.BandCoding
import LosslessJpeg.Proofs.Scan.BlockDecoding

set_option autoImplicit false

/-!
Coefficients as signs and magnitudes. A first scan carries an AC coefficient without the lowest
bits of its magnitude; each scan after it carries one bit more of the magnitude, and the sign
together with the first bit that is not zero.
-/

namespace LosslessJpeg

open BlockDecoder (bitValue scaled scaled_of_product)

/-- A coefficient without the lowest bits of its magnitude, in units of the bit above them. -/
def pointTransform (value : Int16) (low : Nat) : Int :=
  value.toInt.sign * (value.toInt.natAbs >>> low : Nat)

def truncated (value : Int16) (low : Nat) : Int16 :=
  Int16.ofInt (pointTransform value low * 2 ^ low)

/-- What a first scan tells of a coefficient. -/
def firstCoefficient (value : Int16) (low : Nat) : BandCoefficient :=
  if pointTransform value low = 0 then .zero
  else .fresh (Int16.ofInt (pointTransform value low))

def refinedCoefficient (value : Int16) (low : Nat) : BandCoefficient :=
  let magnitude := value.toInt.natAbs >>> low
  if magnitude = 0 then .zero
  else if magnitude = 1 then .fresh (if 0 ≤ value.toInt then 1 else -1)
  else .known (decide (magnitude % 2 = 1))

def corrected (low : Nat) (bit : Bool) (value : Int16) : Int16 :=
  if bit ∧ value.toInt >>> low % 2 = 0 then
    clampCoefficient
      (if 0 ≤ value.toInt then value.toInt + (bitValue low).toInt
        else value.toInt - (bitValue low).toInt)
  else value

/-- What becomes of a coefficient by what a scan tells of it. -/
inductive Becomes (low : Nat) : Int16 → BandCoefficient → Int16 → Prop
  | zero : Becomes low 0 .zero 0
  | fresh {value : Int16} (nonzero : value ≠ 0) :
      Becomes low 0 (.fresh value) (scaled (readCoefficient value).toInt low)
  | known {value : Int16} {bit : Bool} (nonzero : value ≠ 0) :
      Becomes low value (.known bit) (corrected low bit value)

namespace Becomes

variable {low : Nat} {before value after : Int16} {bit : Bool}

theorem of_zero (becomes : Becomes low before .zero after) : before = 0 ∧ after = 0 := by
  cases becomes
  exact ⟨rfl, rfl⟩

theorem of_fresh (becomes : Becomes low before (.fresh value) after) :
    before = 0 ∧ value ≠ 0 ∧ after = scaled (readCoefficient value).toInt low := by
  cases becomes with
  | fresh nonzero => exact ⟨rfl, nonzero, rfl⟩

theorem of_known (becomes : Becomes low before (.known bit) after) :
    before ≠ 0 ∧ after = corrected low bit before := by
  cases becomes with
  | known nonzero => exact ⟨nonzero, rfl⟩

theorem of_quiet {coefficient : BandCoefficient} (becomes : Becomes low before coefficient after)
    (blank : before = 0) (quiet : coefficient.isFresh = false) :
    coefficient = .zero ∧ after = before := by
  cases becomes with
  | zero => exact ⟨rfl, rfl⟩
  | fresh nonzero => cases quiet
  | known nonzero => exact absurd blank nonzero

end Becomes

/-- In a scan of one more bit, first values are units. -/
theorem eq_of_refinedCoefficient {value first : Int16} {low : Nat}
    (told : refinedCoefficient value low = .fresh first) : first = 1 ∨ first = -1 := by
  unfold refinedCoefficient at told
  dsimp only at told
  split at told
  · cases told
  · split at told
    · rw [← BandCoefficient.fresh.inj told]
      split
      · exact Or.inl rfl
      · exact Or.inr rfl
    · cases told

section Magnitudes

variable (value : Int16) (low : Nat)

private theorem pointTransform_eq :
    pointTransform value low =
      if 0 ≤ value.toInt then ((value.toInt.natAbs / 2 ^ low : Nat) : Int)
      else -((value.toInt.natAbs / 2 ^ low : Nat) : Int) := by
  unfold pointTransform
  rw [Nat.shiftRight_eq_div_pow]
  by_cases negative : value.toInt < 0
  · rw [if_neg (by omega), Int.sign_eq_neg_one_of_neg negative, Int.neg_mul, Int.one_mul]
  · rw [if_pos (by omega)]
    by_cases zero : value.toInt = 0
    · rw [zero, Int.sign_zero, Int.zero_mul, Int.natAbs_zero, Nat.zero_div]
      rfl
    · rw [Int.sign_eq_one_of_pos (by omega), Int.one_mul]

private theorem pointTransform_mul :
    pointTransform value low * 2 ^ low =
      if 0 ≤ value.toInt then ((value.toInt.natAbs / 2 ^ low * 2 ^ low : Nat) : Int)
      else -((value.toInt.natAbs / 2 ^ low * 2 ^ low : Nat) : Int) := by
  rw [pointTransform_eq]
  split
  · push_cast
    rfl
  · rw [Int.neg_mul]
    push_cast
    rfl

private theorem pointTransform_mul_inRange :
    -32768 ≤ pointTransform value low * 2 ^ low ∧ pointTransform value low * 2 ^ low ≤ 32767 := by
  have lower := value.le_toInt
  have upper := value.toInt_lt
  have shorter := Nat.div_mul_le_self value.toInt.natAbs (2 ^ low)
  rw [pointTransform_mul]
  split <;> omega

theorem truncated_toInt : (truncated value low).toInt = pointTransform value low * 2 ^ low :=
  Int16.toInt_ofInt_of_le (pointTransform_mul_inRange value low).1
    (by
      have upper := (pointTransform_mul_inRange value low).2
      omega)

@[simp]
theorem truncated_zero : truncated value 0 = value := by
  rw [← Int16.toInt_inj, truncated_toInt, pointTransform_mul]
  simp only [Nat.pow_zero, Nat.div_one, Nat.mul_one]
  split <;> omega

private theorem pointTransform_bounds :
    -(value.toInt.natAbs : Int) ≤ pointTransform value low ∧
      pointTransform value low ≤ value.toInt.natAbs := by
  have fewer := Nat.div_le_self value.toInt.natAbs (2 ^ low)
  rw [pointTransform_eq]
  generalize value.toInt.natAbs / 2 ^ low = magnitude at fewer ⊢
  split <;> omega

end Magnitudes

section Scans

variable {value : Int16} {low : Nat}

theorem becomes_first (low : Nat) (small : value ≠ -32768) :
    Becomes low 0 (firstCoefficient value low) (truncated value low) := by
  have inRange := pointTransform_mul_inRange value low
  have bounds := pointTransform_bounds value low
  have least : value.toInt ≠ -32768 := fun same => small (Int16.toInt_inj.mp same)
  have lower := value.le_toInt
  have upper := value.toInt_lt
  unfold firstCoefficient
  by_cases zero : pointTransform value low = 0
  · rw [if_pos zero, truncated, zero, Int.zero_mul]
    exact .zero
  · rw [if_neg zero]
    have exact : (Int16.ofInt (pointTransform value low)).toInt = pointTransform value low :=
      Int16.toInt_ofInt_of_le (by omega) (by omega)
    have nonzero : Int16.ofInt (pointTransform value low) ≠ 0 := fun same => by
      rw [same] at exact
      exact zero exact.symm
    have readable : readCoefficient (Int16.ofInt (pointTransform value low)) =
        Int16.ofInt (pointTransform value low) := by
      rw [readCoefficient_eq_iff, Ne, ← Int16.toInt_inj, exact]
      change _ ≠ (-32768 : Int)
      omega
    have becomes : Becomes low 0 _ _ := Becomes.fresh nonzero
    rw [readable, exact, scaled_of_product inRange.1 inRange.2] at becomes
    exact becomes

theorem bitValue_toInt (few : low ≤ 13) : (bitValue low).toInt = 2 ^ low := by
  have power : 2 ^ low ≤ 2 ^ 13 := Nat.pow_le_pow_right (by decide) few
  have positive : (0 : Int) < 2 ^ low := Int.pow_pos (by decide)
  have cast : ((2 ^ low : Nat) : Int) = 2 ^ low := Int.natCast_pow 2 low
  unfold bitValue
  rw [Nat.one_shiftLeft, ← cast]
  exact Int16.toInt_ofInt_of_le (by omega) (by omega)

private theorem truncated_eq (value : Int16) (low : Nat) :
    truncated value low =
      Int16.ofInt (if 0 ≤ value.toInt then ((value.toInt.natAbs / 2 ^ low * 2 ^ low : Nat) : Int)
        else -((value.toInt.natAbs / 2 ^ low * 2 ^ low : Nat) : Int)) := by
  rw [truncated, pointTransform_mul]

private theorem div_two_pow_succ (count low : Nat) :
    count / 2 ^ (low + 1) = count / 2 ^ low / 2 := by
  rw [Nat.pow_succ, Nat.div_div_eq_div_mul]

private theorem truncated_of_small (few : value.toInt.natAbs / 2 ^ low = 0) :
    truncated value low = 0 := by
  rw [truncated_eq, few]
  split <;> simp

private theorem truncated_of_one (one : value.toInt.natAbs / 2 ^ low = 1) :
    truncated value low =
      scaled (readCoefficient (if 0 ≤ value.toInt then 1 else -1)).toInt low := by
  have inRange := pointTransform_mul_inRange value low
  have exact : readCoefficient (if 0 ≤ value.toInt then 1 else -1) =
      if 0 ≤ value.toInt then 1 else -1 := by
    split <;> decide
  have unit : (if 0 ≤ value.toInt then (1 : Int16) else -1).toInt = pointTransform value low := by
    rw [pointTransform_eq, one]
    split <;> rfl
  rw [exact, unit, scaled_of_product inRange.1 inRange.2, truncated]

private theorem truncated_succ_toInt :
    (truncated value (low + 1)).toInt = pointTransform value (low + 1) * 2 * 2 ^ low := by
  rw [truncated_toInt, Int.pow_succ, Int.mul_assoc, Int.mul_comm (2 ^ low) 2, ← Int.mul_assoc]

private theorem truncated_even :
    (truncated value (low + 1)).toInt >>> low % 2 = 0 := by
  have positive : (2 : Int) ^ low ≠ 0 := Int.ne_of_gt (Int.pow_pos (by decide))
  have power : ((2 ^ low : Nat) : Int) = 2 ^ low := Int.natCast_pow 2 low
  rw [truncated_succ_toInt, Int.shiftRight_eq_div_pow, power, Int.mul_ediv_cancel _ positive,
    Int.mul_emod_left]

private theorem next_magnitude (count low : Nat) :
    count / 2 ^ low * 2 ^ low =
      count / 2 ^ (low + 1) * 2 ^ (low + 1) +
        if count / 2 ^ low % 2 = 1 then 2 ^ low else 0 := by
  rw [div_two_pow_succ, Nat.pow_succ, Nat.mul_comm (2 ^ low) 2, ← Nat.mul_assoc]
  generalize count / 2 ^ low = magnitude
  split
  · rw [← Nat.succ_mul]
    congr 1
    omega
  · rw [Nat.add_zero]
    congr 1
    omega

/-- A coefficient of which a higher bit is set gets the next bit of its magnitude. -/
private theorem corrected_truncated (few : low ≤ 13)
    (several : 2 ≤ value.toInt.natAbs / 2 ^ low) :
    truncated value (low + 1) ≠ 0 ∧
      corrected low (decide (value.toInt.natAbs / 2 ^ low % 2 = 1)) (truncated value (low + 1)) =
        truncated value low := by
  have before := truncated_toInt value (low + 1)
  have after := pointTransform_mul value low
  have inRange := pointTransform_mul_inRange value low
  have next := next_magnitude value.toInt.natAbs low
  have positive : 0 < value.toInt.natAbs / 2 ^ (low + 1) * 2 ^ (low + 1) := by
    rw [div_two_pow_succ]
    exact Nat.mul_pos (by omega) (Nat.two_pow_pos _)
  have unit : (bitValue low).toInt = ((2 ^ low : Nat) : Int) :=
    (bitValue_toInt few).trans (Int.natCast_pow 2 low).symm
  have even : (truncated value (low + 1)).toInt >>> low % 2 = 0 := truncated_even
  rw [pointTransform_mul] at before
  rw [next] at after
  generalize value.toInt.natAbs / 2 ^ (low + 1) * 2 ^ (low + 1) = magnitude at *
  constructor
  · intro zero
    rw [zero, Int16.toInt_zero] at before
    split at before <;> omega
  · unfold corrected
    by_cases odd : value.toInt.natAbs / 2 ^ low % 2 = 1
    · rw [decide_eq_true odd, if_pos ⟨rfl, even⟩, unit, before, clampCoefficient]
      rw [if_pos odd] at after
      rw [truncated]
      congr 1
      generalize pointTransform value low * 2 ^ low = target at *
      generalize 2 ^ low = step at after ⊢
      by_cases nonnegative : 0 ≤ value.toInt
      · rw [if_pos nonnegative] at after ⊢
        rw [if_pos (by omega)]
        omega
      · rw [if_neg nonnegative] at after ⊢
        rw [if_neg (by omega)]
        omega
    · rw [if_neg fun both => odd (of_decide_eq_true both.1), ← Int16.toInt_inj, before,
        truncated_toInt, after, if_neg odd, Nat.add_zero]

theorem becomes_refined (few : low ≤ 13) :
    Becomes low (truncated value (low + 1)) (refinedCoefficient value low)
      (truncated value low) := by
  have half := div_two_pow_succ value.toInt.natAbs low
  unfold refinedCoefficient
  rw [Nat.shiftRight_eq_div_pow]
  dsimp only
  by_cases none : value.toInt.natAbs / 2 ^ low = 0
  · rw [if_pos none, truncated_of_small none, truncated_of_small (by omega)]
    exact .zero
  · rw [if_neg none]
    by_cases one : value.toInt.natAbs / 2 ^ low = 1
    · rw [if_pos one, truncated_of_small (by omega), truncated_of_one one]
      apply Becomes.fresh
      split <;> decide
    · rw [if_neg one]
      obtain ⟨nonzero, same⟩ := corrected_truncated few ((Nat.two_le_iff _).mpr ⟨none, one⟩)
      rw [← same]
      exact .known nonzero

end Scans

end LosslessJpeg
