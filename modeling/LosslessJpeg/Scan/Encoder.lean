import LosslessJpeg.Bits.Writer
import LosslessJpeg.Huffman.Encoder
import LosslessJpeg.Huffman.Optimal
import LosslessJpeg.Scan.Token

set_option autoImplicit false

/-!
Counting the symbols of a scan, and writing them with the tables in effect.
-/

namespace LosslessJpeg

structure SymbolCounts where
  dc : Array OptimalCode.Frequencies
  ac : Array OptimalCode.Frequencies

namespace SymbolCounts

def zero : SymbolCounts :=
  { dc := Array.replicate 4 (Vector.replicate 256 0)
    ac := Array.replicate 4 (Vector.replicate 256 0) }

def increment (symbol : UInt8) (frequencies : OptimalCode.Frequencies) :
    OptimalCode.Frequencies :=
  frequencies.setIfInBounds symbol.toNat (frequencies[symbol.toNat]?.getD 0 + 1)

def add (counts : SymbolCounts) (token : Token) : SymbolCounts :=
  match token.coefficients with
  | .dc => { counts with dc := counts.dc.modify token.table.val (increment token.symbol) }
  | .ac => { counts with ac := counts.ac.modify token.table.val (increment token.symbol) }

def ofTokens (tokens : Array Token) : SymbolCounts :=
  tokens.foldl add zero

def dcFrequencies (counts : SymbolCounts) (table : Fin 4) : OptimalCode.Frequencies :=
  counts.dc.getD table.val (Vector.replicate 256 0)

def acFrequencies (counts : SymbolCounts) (table : Fin 4) : OptimalCode.Frequencies :=
  counts.ac.getD table.val (Vector.replicate 256 0)

end SymbolCounts

structure ScanEncoder where
  dc : Vector (Option HuffmanEncoder) 4
  ac : Vector (Option HuffmanEncoder) 4

namespace ScanEncoder

def ofSlots (slots : HuffmanSlots) : ScanEncoder :=
  { dc := slots.dc.map (·.map HuffmanEncoder.ofTable)
    ac := slots.ac.map (·.map HuffmanEncoder.ofTable) }

def codeword (encoder : ScanEncoder) (token : Token) : Except CodecError Codeword :=
  let table := match token.coefficients with
    | .dc => encoder.dc.get token.table
    | .ac => encoder.ac.get token.table
  match table with
  | none => .error (.huffmanTableId token.table.val)
  | some encoder => encoder.encode token.symbol

def writeToken (encoder : ScanEncoder) (writer : BitWriter) (token : Token) :
    Except CodecError BitWriter := do
  let codeword ← encoder.codeword token
  pure ((writer.writeBits codeword.value codeword.length).writeBits token.extra
    token.extraCount)

end ScanEncoder

def tokenBytes (slots : HuffmanSlots) (tokens : Array Token) :
    Except CodecError (List UInt8) := do
  let writer ← tokens.foldlM (ScanEncoder.ofSlots slots).writeToken BitWriter.empty
  pure writer.flush

/-- The entropy-coded data of one sequential scan of all components. -/
def encodeScan (frame : Frame) (grids : Array Grid) (tables : List (Fin 4))
    (slots : HuffmanSlots) : Except CodecError (List UInt8) := do
  let tokens ← scanTokens frame grids tables
  tokenBytes slots tokens

end LosslessJpeg
