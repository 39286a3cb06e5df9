set_option autoImplicit false

/-!
One 8×8 block of quantized coefficients in natural order: the coefficient of vertical
frequency `i` and horizontal frequency `j` stands at `8 * i + j`. Transposing and
mirroring the samples of a block are rearrangements and sign changes of its coefficients.
-/

namespace LosslessJpeg

abbrev Block := Vector Int16 64

namespace Block

def zero : Block :=
  Vector.replicate 64 0

/-- Numerals name positions in a block. The zero is the one that numerals ask for. -/
instance : @NeZero Nat Zero.ofOfNat0 64 := ⟨Nat.succ_ne_zero 63⟩

def position (vertical horizontal : Nat) : Nat :=
  vertical * 8 + horizontal

def exchanged (position : Fin 64) : Fin 64 :=
  ⟨position.val % 8 * 8 + position.val / 8, by omega⟩

def transposed (block : Block) : Block :=
  Vector.ofFn fun position => block.get (exchanged position)

/-- Mirror left to right: odd horizontal frequencies change sign. -/
def mirroredAcross (block : Block) : Block :=
  Vector.ofFn fun position =>
    if position.val % 2 = 1 then -block.get position else block.get position

def mirroredDown (block : Block) : Block :=
  Vector.ofFn fun position =>
    if position.val / 8 % 2 = 1 then -block.get position else block.get position

end Block

end LosslessJpeg
