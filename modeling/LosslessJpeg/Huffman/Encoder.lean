import LosslessJpeg.Huffman.Codeword
import LosslessJpeg.Huffman.Table

set_option autoImplicit false

/-!
The codeword of each symbol of a table.
-/

namespace LosslessJpeg

structure HuffmanEncoder where
  codes : Vector (Option Codeword) 256

namespace HuffmanEncoder

/-- Enter the codeword of a symbol, of which a code of more than sixteen bits keeps only
the low ones. A symbol that occurs twice keeps its last codeword. -/
def enterCode (codes : Vector (Option Codeword) 256) (entry : Codeword × UInt8) :
    Vector (Option Codeword) 256 :=
  codes.setIfInBounds entry.2.toNat
    (some { entry.1 with value := entry.1.value % 65536 })

def build (counts : List Nat) (symbols : List UInt8) : HuffmanEncoder :=
  { codes := ((codewords counts).zip symbols).foldl enterCode (Vector.replicate 256 none) }

def ofTable (table : HuffmanTable) : HuffmanEncoder :=
  build table.countList table.symbols

def encode (encoder : HuffmanEncoder) (symbol : UInt8) : Except CodecError Codeword :=
  match encoder.codes[symbol.toNat]?.join with
  | some codeword => .ok codeword
  | none => .error (.malformed .symbolWithoutCode)

end HuffmanEncoder

end LosslessJpeg
