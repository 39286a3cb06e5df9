set_option autoImplicit false

/-!
The canonical code. Codewords of one length are consecutive numbers, and the first
codeword of the next length continues after the last one with a zero bit appended.
-/

namespace LosslessJpeg

structure Codeword where
  length : Nat
  value : Nat
  deriving DecidableEq, Repr

/-- The codewords of `length` bits, the first of which is `next`, and of all longer
lengths. -/
def codewordsFrom (length next : Nat) : List Nat → List Codeword
  | [] => []
  | count :: longer =>
      (List.range' next count).map (Codeword.mk length) ++
        codewordsFrom (length + 1) (2 * (next + count)) longer

def codewords (counts : List Nat) : List Codeword :=
  codewordsFrom 1 0 counts

def Codeword.overflows (codeword : Codeword) : Bool :=
  1 <<< codeword.length ≤ codeword.value

end LosslessJpeg
