set_option autoImplicit false

/-!
Coefficients and differences in a file: a size, coded by a Huffman table, and as many
bits that tell the values of this size apart. A negative value has the bits of its
predecessor.
-/

namespace LosslessJpeg

/-- The value with these bits. Below half of the range the value is negative, if the range
is one of fewer than 32 bits. -/
def extendSign (bits size : Nat) : Int16 :=
  if size = 0 then
    0
  else if size < 32 ∧ bits < 1 <<< (size - 1) then
    Int16.ofInt ((bits : Int) - (1 <<< size : Nat) + 1)
  else
    Int16.ofInt bits

structure Magnitude where
  bits : Nat
  size : Nat
  deriving DecidableEq, Repr

def bitLength (value : Nat) : Nat :=
  if value = 0 then 0 else Nat.log2 value + 1

/-- The coded form of a value. No size is above fifteen. -/
def Magnitude.ofInt (value : Int) : Magnitude :=
  let size := min (bitLength value.natAbs) 15
  let shifted := if 0 < value then value else value - 1
  { bits := if value = 0 then 0 else (shifted % (1 <<< size : Nat)).toNat
    size := size }

def clampCoefficient (value : Int) : Int16 :=
  Int16.ofInt (max (-32768) (min value 32767))

end LosslessJpeg
