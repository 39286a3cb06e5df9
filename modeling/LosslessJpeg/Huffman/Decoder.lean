import LosslessJpeg.Bits.Reader
import LosslessJpeg.Huffman.Codeword
import LosslessJpeg.Huffman.Table

set_option autoImplicit false

/-!
Decoding Huffman codes in two levels. The next nine bits look up every code of at most
nine bits. Longer codes are found length by length: the codewords of one length are
consecutive, so comparing with their bound tells whether a code ends here.
-/

namespace LosslessJpeg

/-- The codewords of one length: consecutive from `first`, below `bound`, with the symbol
of the first one at `index`. The bound is zero if there are none. -/
structure CodeRange where
  first : Nat
  bound : Nat
  index : Nat
  deriving DecidableEq, Repr

def codeRangesFrom (next index : Nat) : List Nat → List CodeRange
  | [] => []
  | count :: longer =>
      { first := next
        bound := if count = 0 then 0 else next + count
        index := index } ::
      codeRangesFrom (2 * (next + count)) (index + count) longer

structure ShortCode where
  symbol : UInt8
  length : Nat
  deriving DecidableEq, Repr

abbrev ShortCodeTable := Vector (Option ShortCode) 512

structure HuffmanDecoder where
  /-- The code at the front of each group of nine bits. -/
  short : ShortCodeTable
  long : List CodeRange
  symbols : Array UInt8

namespace HuffmanDecoder

def enterShortCode (table : ShortCodeTable) (entry : Codeword × UInt8) : ShortCodeTable :=
  let (codeword, symbol) := entry
  if codeword.length ≤ 9 then
    let width := 1 <<< (9 - codeword.length)
    (List.range' (codeword.value * width) width).foldl
      (fun entered group =>
        entered.setIfInBounds group (some { symbol := symbol, length := codeword.length }))
      table
  else
    table

/-- The decoder of a table. It fails if symbols are missing, or if the codewords of some
length do not fit this length. -/
def build (counts : List Nat) (symbols : List UInt8) : Except CodecError HuffmanDecoder :=
  let total := counts.foldr (· + ·) 0
  if symbols.length < total ∨ 256 < total then
    .error (.malformed .symbolCountMismatch)
  else
    let code := codewords counts
    if code.any Codeword.overflows then
      .error (.malformed .overfullHuffmanTable)
    else
      .ok
        { short := (code.zip symbols).foldl enterShortCode (Vector.replicate 512 none)
          long := (codeRangesFrom 0 0 counts).drop 9
          symbols := (symbols.take total).toArray }

def ofTable (table : HuffmanTable) : Except CodecError HuffmanDecoder :=
  build table.countList table.symbols

def decodeLong (symbols : Array UInt8) : Nat → List CodeRange → BitDecoder UInt8
  | _, [] => throw .undecodable
  | length, range :: longer => do
      let bits ← BitReader.peekBits length
      -- Bits that lie before the first codeword of this length have been found to be shorter
      -- codes.
      if bits < range.bound then
        BitReader.skipBits length
        match symbols[range.index + (bits - range.first)]? with
        | some symbol => pure symbol
        | none => throw .undecodable
      else
        decodeLong symbols (length + 1) longer

def decode (decoder : HuffmanDecoder) : BitDecoder UInt8 := do
  let group ← BitReader.peekBits 9
  match decoder.short[group]?.join with
  | some code =>
      BitReader.skipBits code.length
      pure code.symbol
  | none => decodeLong decoder.symbols 10 decoder.long

end HuffmanDecoder

end LosslessJpeg
