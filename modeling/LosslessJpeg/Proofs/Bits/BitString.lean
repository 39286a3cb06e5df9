import Mathlib.Algebra.Ring.Nat

set_option autoImplicit false

/-!
Bit strings: the binary digits of numbers and bytes, most significant first, and the
numbers that digits stand for.
-/

namespace LosslessJpeg

def binary : Nat → Nat → List Bool
  | 0, _ => []
  | count + 1, value => value.testBit count :: binary count value

def ofBinary (bits : List Bool) : Nat :=
  bits.foldl (fun value bit => 2 * value + bit.toNat) 0

def byteBits (bytes : List UInt8) : List Bool :=
  bytes.flatMap fun byte => binary 8 byte.toNat

@[simp]
theorem binary_length (count value : Nat) : (binary count value).length = count := by
  induction count with
  | zero => rfl
  | succ count inductionHypothesis =>
      rw [binary, List.length_cons, inductionHypothesis]

theorem binary_add (high low value : Nat) :
    binary (high + low) value = binary high (value / 2 ^ low) ++ binary low value := by
  induction high with
  | zero => rw [Nat.zero_add, binary, List.nil_append]
  | succ high inductionHypothesis =>
      rw [Nat.add_right_comm, binary, binary, inductionHypothesis, List.cons_append,
        Nat.testBit_div_two_pow]

theorem binary_eq_of_mod_eq {count first second : Nat}
    (same : first % 2 ^ count = second % 2 ^ count) :
    binary count first = binary count second := by
  have digit : ∀ place < count, first.testBit place = second.testBit place := by
    intro place inside
    have bits := congrArg (Nat.testBit · place) same
    simpa [Nat.testBit_mod_two_pow, inside] using bits
  clear same
  induction count with
  | zero => rfl
  | succ count inductionHypothesis =>
      rw [binary, binary, digit count (Nat.lt_succ_self count),
        inductionHypothesis fun place inside => digit place (Nat.lt_succ_of_lt inside)]

theorem binary_mod (count value : Nat) :
    binary count (value % 2 ^ count) = binary count value :=
  binary_eq_of_mod_eq (Nat.mod_mod _ _)

theorem binary_append_binary (high low front back : Nat) (fits : back < 2 ^ low) :
    binary high front ++ binary low back = binary (high + low) (front * 2 ^ low + back) := by
  have positive : 0 < 2 ^ low := Nat.two_pow_pos low
  have quotient : (front * 2 ^ low + back) / 2 ^ low = front := by
    rw [Nat.mul_comm, Nat.mul_add_div positive, Nat.div_eq_of_lt fits, Nat.add_zero]
  have remainder : (front * 2 ^ low + back) % 2 ^ low = back % 2 ^ low := by
    rw [Nat.mul_comm, Nat.mul_add_mod]
  rw [binary_add, quotient, binary_eq_of_mod_eq remainder]

theorem binary_ones (count : Nat) :
    binary count (2 ^ count - 1) = List.replicate count true := by
  have digits : ∀ total, count ≤ total →
      binary count (2 ^ total - 1) = List.replicate count true := by
    induction count with
    | zero =>
        intro total _
        rfl
    | succ count inductionHypothesis =>
        intro total enough
        rw [binary, inductionHypothesis total (by omega), Nat.testBit_two_pow_sub_one,
          List.replicate_succ, decide_eq_true (by omega : count < total)]
  exact digits count (Nat.le_refl count)

private theorem foldl_binary (start : Nat) (bits : List Bool) :
    bits.foldl (fun value bit => 2 * value + bit.toNat) start =
      start * 2 ^ bits.length + ofBinary bits := by
  induction bits generalizing start with
  | nil =>
      rw [List.foldl_nil, List.length_nil, Nat.pow_zero, Nat.mul_one]
      rfl
  | cons bit rest inductionHypothesis =>
      have first := inductionHypothesis (2 * start + bit.toNat)
      have second := inductionHypothesis (2 * 0 + bit.toNat)
      unfold ofBinary
      rw [List.foldl_cons, first, List.foldl_cons, second, List.length_cons,
        Nat.pow_succ, Nat.add_mul, Nat.mul_zero, Nat.zero_add, Nat.mul_comm 2 start,
        Nat.mul_assoc, Nat.mul_comm 2, Nat.add_assoc]

@[simp]
theorem ofBinary_nil : ofBinary [] = 0 :=
  rfl

theorem ofBinary_cons (bit : Bool) (bits : List Bool) :
    ofBinary (bit :: bits) = bit.toNat * 2 ^ bits.length + ofBinary bits := by
  have folded := foldl_binary (2 * 0 + bit.toNat) bits
  rw [Nat.mul_zero, Nat.zero_add] at folded
  unfold ofBinary
  rw [List.foldl_cons, Nat.mul_zero, Nat.zero_add, folded]
  rfl

theorem ofBinary_append (front back : List Bool) :
    ofBinary (front ++ back) = ofBinary front * 2 ^ back.length + ofBinary back := by
  induction front with
  | nil => rw [List.nil_append, ofBinary_nil, Nat.zero_mul, Nat.zero_add]
  | cons bit rest inductionHypothesis =>
      rw [List.cons_append, ofBinary_cons, inductionHypothesis, ofBinary_cons,
        List.length_append, Nat.pow_add, Nat.add_mul, Nat.mul_assoc, Nat.add_assoc]

theorem ofBinary_lt (bits : List Bool) : ofBinary bits < 2 ^ bits.length := by
  induction bits with
  | nil => exact Nat.one_pos
  | cons bit rest inductionHypothesis =>
      have digit : bit.toNat ≤ 1 := Bool.toNat_le bit
      have shifted : bit.toNat * 2 ^ rest.length ≤ 1 * 2 ^ rest.length :=
        Nat.mul_le_mul_right _ digit
      rw [ofBinary_cons, List.length_cons, Nat.pow_succ]
      omega

theorem ofBinary_binary (count value : Nat) :
    ofBinary (binary count value) = value % 2 ^ count := by
  induction count with
  | zero => rw [binary, ofBinary_nil, Nat.pow_zero, Nat.mod_one]
  | succ count inductionHypothesis =>
      rw [binary, ofBinary_cons, inductionHypothesis, binary_length, Nat.toNat_testBit,
        Nat.mod_pow_succ, Nat.add_comm, Nat.mul_comm]

/-- The digits in front tell the number up to a power of two. -/
theorem ofBinary_take (count : Nat) (bits : List Bool) :
    ofBinary (bits.take count) = ofBinary bits / 2 ^ (bits.length - count) := by
  have split := ofBinary_append (bits.take count) (bits.drop count)
  have small := ofBinary_lt (bits.drop count)
  rw [List.take_append_drop] at split
  rw [List.length_drop] at split small
  rw [split, Nat.mul_comm, Nat.mul_add_div (Nat.two_pow_pos _), Nat.div_eq_of_lt small,
    Nat.add_zero]

@[simp]
theorem byteBits_nil : byteBits [] = [] :=
  rfl

theorem byteBits_cons (byte : UInt8) (bytes : List UInt8) :
    byteBits (byte :: bytes) = binary 8 byte.toNat ++ byteBits bytes := by
  rw [byteBits, List.flatMap_cons]
  rfl

theorem byteBits_append (front back : List UInt8) :
    byteBits (front ++ back) = byteBits front ++ byteBits back := by
  rw [byteBits, List.flatMap_append]
  rfl

theorem byteBits_length (bytes : List UInt8) : (byteBits bytes).length = 8 * bytes.length := by
  induction bytes with
  | nil => rfl
  | cons byte rest inductionHypothesis =>
      rw [byteBits_cons, List.length_append, binary_length, inductionHypothesis,
        List.length_cons]
      omega

end LosslessJpeg
