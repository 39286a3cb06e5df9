import LosslessJpeg.Bytes
import Mathlib.Algebra.Ring.Nat

set_option autoImplicit false

/-!
What is packed into one or two bytes comes out of them again.
-/

namespace LosslessJpeg

theorem highNibble_nibbles {high low : Nat} (small : high < 16) :
    highNibble (nibbles high low) = high := by
  unfold highNibble nibbles
  rw [UInt8.toNat_ofNat']
  omega

theorem lowNibble_nibbles {high low : Nat} (small : low < 16) :
    lowNibble (nibbles high low) = low := by
  unfold lowNibble nibbles
  rw [UInt8.toNat_ofNat']
  omega

theorem word_wordBytes {value : Nat} (small : value < 65536) :
    word (UInt8.ofNat (value / 256)) (UInt8.ofNat value) = value := by
  unfold word
  rw [UInt8.toNat_ofNat', UInt8.toNat_ofNat']
  omega

end LosslessJpeg
