set_option autoImplicit false

/-!
Sixteen-bit numbers in a file, high byte first.
-/

namespace LosslessJpeg

def word (high low : UInt8) : Nat :=
  high.toNat * 256 + low.toNat

def wordBytes (value : Nat) : List UInt8 :=
  [UInt8.ofNat (value / 256), UInt8.ofNat value]

theorem word_lt (high low : UInt8) : word high low < 65536 := by
  have highBound := high.toNat_lt
  have lowBound := low.toNat_lt
  unfold word
  omega

def nibbles (high low : Nat) : UInt8 :=
  UInt8.ofNat (high * 16 + low % 16)

def highNibble (byte : UInt8) : Nat :=
  byte.toNat / 16

def lowNibble (byte : UInt8) : Nat :=
  byte.toNat % 16

end LosslessJpeg
