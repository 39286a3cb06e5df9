import LosslessJpeg.Proofs.Scan.TokenBits

set_option autoImplicit false

/-!
The entropy-coded data of progressive scans: symbols with the bits that follow their codes,
and bits that stand alone.
-/

namespace LosslessJpeg

open BitReader (Supplies)

inductive ScanPiece
  | token (token : Token)
  | bit (set : Bool)
  deriving DecidableEq, Repr

namespace ScanEncoder

def writePiece (encoder : ScanEncoder) (writer : BitWriter) :
    ScanPiece → Except CodecError BitWriter
  | .token token => encoder.writeToken writer token
  | .bit set => .ok (writer.writeBits set.toNat 1)

def EncodesPiece (encoder : ScanEncoder) : ScanPiece → Prop
  | .token token => encoder.Encodes token
  | .bit _ => True

instance (encoder : ScanEncoder) (piece : ScanPiece) : Decidable (encoder.EncodesPiece piece) :=
  match piece with
  | .token token => inferInstanceAs (Decidable (encoder.Encodes token))
  | .bit _ => .isTrue trivial

def pieceBits (encoder : ScanEncoder) : ScanPiece → List Bool
  | .token token => encoder.tokenBits token
  | .bit set => [set]

def piecesBits (encoder : ScanEncoder) (pieces : List ScanPiece) : List Bool :=
  pieces.flatMap encoder.pieceBits

variable {encoder : ScanEncoder}

theorem piecesBits_cons (piece : ScanPiece) (pieces : List ScanPiece) :
    encoder.piecesBits (piece :: pieces) =
      encoder.pieceBits piece ++ encoder.piecesBits pieces := by
  rw [piecesBits, List.flatMap_cons]
  rfl

theorem piecesBits_append (front back : List ScanPiece) :
    encoder.piecesBits (front ++ back) = encoder.piecesBits front ++ encoder.piecesBits back := by
  rw [piecesBits, List.flatMap_append]
  rfl

theorem piecesBits_tokens (tokens : List Token) :
    encoder.piecesBits (tokens.map ScanPiece.token) = encoder.bits tokens := by
  rw [piecesBits, List.flatMap_map]
  rfl

theorem piecesBits_bits (bits : List Bool) :
    encoder.piecesBits (bits.map ScanPiece.bit) = bits := by
  rw [piecesBits, List.flatMap_map]
  exact List.flatMap_singleton' bits

theorem writePiece_holds {piece : ScanPiece} (encodes : encoder.EncodesPiece piece)
    (writer : BitWriter) (before : List Bool) (holds : writer.Holds before) :
    ∃ written, encoder.writePiece writer piece = .ok written ∧
      written.Holds (before ++ encoder.pieceBits piece) := by
  cases piece with
  | token token => exact writeToken_holds encodes writer before holds
  | bit set =>
      have written := holds.writeBits set.toNat 1
      cases set with
      | true => exact ⟨_, rfl, written⟩
      | false => exact ⟨_, rfl, written⟩

end ScanEncoder

def pieceBytes (slots : HuffmanSlots) (pieces : List ScanPiece) :
    Except CodecError (List UInt8) := do
  let writer ← pieces.foldlM (ScanEncoder.ofSlots slots).writePiece BitWriter.empty
  pure writer.flush

/-- A reader is supplied with what has been written, whatever marker closes it. -/
theorem pieceBytes_supplies {slots : HuffmanSlots} {pieces : List ScanPiece}
    (encodes : ∀ piece ∈ pieces, (ScanEncoder.ofSlots slots).EncodesPiece piece) :
    ∃ bytes, pieceBytes slots pieces = .ok bytes ∧
      ∀ closing : Closing, closing.marker ≠ 0 → closing.marker ≠ 0xFF →
        ∃ padding, Supplies closing
          (BitReader.ofBytes (bytes ++ 0xFF :: closing.marker :: closing.after))
          ((ScanEncoder.ofSlots slots).piecesBits pieces ++ padding) := by
  obtain ⟨writer, written, holds⟩ := BitWriter.foldlM_holds BitWriter.holds_empty
    fun piece member => ScanEncoder.writePiece_holds (encodes piece member)
  have holds : writer.Holds ((ScanEncoder.ofSlots slots).piecesBits pieces) := holds
  obtain ⟨content, padding, stuffedContent, -, held⟩ := holds.flush
  refine ⟨writer.flush, bind_of_ok written, fun closing notStuffing notFill => ?_⟩
  refine ⟨List.replicate padding true, ?_⟩
  rw [stuffedContent, ← held]
  exact BitReader.supplies_ofBytes (carries_stuffed notStuffing notFill content)

end LosslessJpeg
