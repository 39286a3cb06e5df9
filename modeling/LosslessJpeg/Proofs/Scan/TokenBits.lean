import LosslessJpeg.Proofs.Bits.Writing
import LosslessJpeg.Proofs.Huffman.Decoding
import LosslessJpeg.Proofs.Scan.Magnitude
import LosslessJpeg.Proofs.Vectors
import LosslessJpeg.Scan.Encoder

set_option autoImplicit false

/-!
The bits of tokens: each the codeword of its symbol followed by its extra bits. Writing
tokens gives the concatenation of their bits, and a decoder that goes with the encoder
reads their symbols back.
-/

namespace LosslessJpeg

open BitReader (Supplies)

namespace ScanEncoder

def Encodes (encoder : ScanEncoder) (token : Token) : Prop :=
  ∃ codeword, encoder.codeword token = .ok codeword

instance (encoder : ScanEncoder) (token : Token) : Decidable (encoder.Encodes token) :=
  match found : encoder.codeword token with
  | .ok codeword => .isTrue ⟨codeword, found⟩
  | .error failure => .isFalse fun ⟨codeword, other⟩ => by
      rw [found] at other
      cases other

/-- What is written for a token; nothing if its symbol has no codeword. -/
def tokenBits (encoder : ScanEncoder) (token : Token) : List Bool :=
  match encoder.codeword token with
  | .ok codeword => codeword.bits ++ binary token.extraCount token.extra
  | .error _ => []

def bits (encoder : ScanEncoder) (tokens : List Token) : List Bool :=
  tokens.flatMap encoder.tokenBits

variable {encoder : ScanEncoder}

theorem bits_cons (token : Token) (tokens : List Token) :
    encoder.bits (token :: tokens) = encoder.tokenBits token ++ encoder.bits tokens := by
  unfold bits
  rw [List.flatMap_cons]

theorem bits_append (front back : List Token) :
    encoder.bits (front ++ back) = encoder.bits front ++ encoder.bits back := by
  unfold bits
  rw [List.flatMap_append]

theorem tokenBits_of_codeword {token : Token} {codeword : Codeword}
    (found : encoder.codeword token = .ok codeword) :
    encoder.tokenBits token = codeword.bits ++ binary token.extraCount token.extra := by
  unfold tokenBits
  rw [found]

private theorem writeToken_eq_ok {writer written : BitWriter} {token : Token}
    (done : encoder.writeToken writer token = .ok written) : encoder.Encodes token := by
  obtain ⟨codeword, found, -⟩ := bind_eq_ok done
  exact ⟨codeword, found⟩

theorem writeToken_holds {token : Token} (encodes : encoder.Encodes token) (writer : BitWriter)
    (before : List Bool) (holds : writer.Holds before) :
    ∃ written, encoder.writeToken writer token = .ok written ∧
      written.Holds (before ++ encoder.tokenBits token) := by
  obtain ⟨codeword, found⟩ := encodes
  refine ⟨_, bind_of_ok found, ?_⟩
  rw [tokenBits_of_codeword found, ← List.append_assoc]
  exact (holds.writeBits _ _).writeBits _ _

theorem writeTokens_holds {writer : BitWriter} {before : List Bool} {tokens : List Token}
    (holds : writer.Holds before) (encodes : ∀ token ∈ tokens, encoder.Encodes token) :
    ∃ written, tokens.foldlM encoder.writeToken writer = .ok written ∧
      written.Holds (before ++ encoder.bits tokens) :=
  BitWriter.foldlM_holds holds fun token member => writeToken_holds (encodes token member)

theorem encodes_of_writeTokens {writer written : BitWriter} {tokens : List Token}
    (done : tokens.foldlM encoder.writeToken writer = .ok written) :
    ∀ token ∈ tokens, encoder.Encodes token := by
  induction tokens generalizing writer with
  | nil =>
      intro token member
      cases member
  | cons first rest inductionHypothesis =>
      rw [List.foldlM_cons] at done
      obtain ⟨between, writtenFirst, writtenRest⟩ := bind_eq_ok done
      intro token member
      rcases List.mem_cons.mp member with same | later
      · rw [same]
        exact writeToken_eq_ok writtenFirst
      · exact inductionHypothesis writtenRest token later

end ScanEncoder

theorem tokenBytes_of_encodes {slots : HuffmanSlots} {tokens : Array Token}
    (encodes : ∀ token ∈ tokens.toList, (ScanEncoder.ofSlots slots).Encodes token) :
    ∃ bytes, tokenBytes slots tokens = .ok bytes := by
  obtain ⟨written, done, -⟩ := ScanEncoder.writeTokens_holds BitWriter.holds_empty encodes
  rw [Array.foldlM_toList] at done
  exact ⟨written.flush, bind_of_ok done⟩

/-- Entropy-coded data holds the bits of its tokens, filled up with ones and stuffed. -/
theorem tokenBytes_eq_ok {slots : HuffmanSlots} {tokens : Array Token} {bytes : List UInt8}
    (done : tokenBytes slots tokens = .ok bytes) :
    (∀ token ∈ tokens.toList, (ScanEncoder.ofSlots slots).Encodes token) ∧
      ∃ data padding, bytes = stuffed data ∧ padding < 8 ∧
        byteBits data = (ScanEncoder.ofSlots slots).bits tokens.toList ++
          List.replicate padding true := by
  obtain ⟨writer, written, flushed⟩ := bind_eq_ok done
  rw [← Array.foldlM_toList] at written
  have encodes := ScanEncoder.encodes_of_writeTokens written
  obtain ⟨holder, again, holds⟩ := ScanEncoder.writeTokens_holds BitWriter.holds_empty encodes
  rw [written] at again
  cases again
  cases flushed
  exact ⟨encodes, holds.flush⟩

def HuffmanDecoder.Reads (decoder : HuffmanDecoder) (symbol : UInt8) (bits : List Bool) :
    Prop :=
  ∀ (closing : Closing) (reader : BitReader) (rest : List Bool),
    Supplies closing reader (bits ++ rest) →
      ∃ left, decoder.decode reader = .ok symbol left ∧ Supplies closing left rest

def ScanEncoder.ReadWith (encoder : ScanEncoder) (coefficients : CoefficientClass)
    (table : Fin 4) (decoder : HuffmanDecoder) : Prop :=
  ∀ token codeword, token.coefficients = coefficients → token.table = table →
    encoder.codeword token = .ok codeword → decoder.Reads token.symbol codeword.bits

/-- The decoders of one component read what the encoder writes for tokens of a table. -/
structure ScanEncoder.ReadBy (encoder : ScanEncoder) (table : Fin 4)
    (dc ac : HuffmanDecoder) : Prop where
  dc : encoder.ReadWith .dc table dc
  ac : encoder.ReadWith .ac table ac

def HuffmanSlots.ofClass (slots : HuffmanSlots) :
    CoefficientClass → Vector (Option HuffmanTable) 4
  | .dc => slots.dc
  | .ac => slots.ac

theorem ScanEncoder.readWith_ofSlots {slots : HuffmanSlots} {coefficients : CoefficientClass}
    {id : Fin 4} {table : HuffmanTable} {decoder : HuffmanDecoder}
    (slot : (slots.ofClass coefficients).get id = some table)
    (built : HuffmanDecoder.ofTable table = .ok decoder) :
    (ScanEncoder.ofSlots slots).ReadWith coefficients id decoder := by
  intro token codeword ofClass same found closing reader rest supplies
  unfold ScanEncoder.codeword ScanEncoder.ofSlots at found
  rw [ofClass, same] at found
  cases coefficients with
  | dc =>
      have slot : slots.dc.get id = some table := slot
      dsimp only at found
      rw [get_map, slot] at found
      exact HuffmanTable.decode_encode built found supplies
  | ac =>
      have slot : slots.ac.get id = some table := slot
      dsimp only at found
      rw [get_map, slot] at found
      exact HuffmanTable.decode_encode built found supplies

end LosslessJpeg
