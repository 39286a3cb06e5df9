import LosslessJpeg.Block.Basic
import LosslessJpeg.Block.Zigzag
import LosslessJpeg.Bytes
import LosslessJpeg.Error

set_option autoImplicit false

/-!
Quantization tables, in natural order, and the segment that defines them. A segment holds
tables back to back, each with a precision of eight or sixteen bits, an identifier below
four and 64 entries in zigzag order.
-/

namespace LosslessJpeg

abbrev QuantizerTable := Vector UInt16 64

abbrev QuantizerSlots := Vector (Option QuantizerTable) 4

namespace QuantizerTable

def transposed (table : QuantizerTable) : QuantizerTable :=
  Vector.ofFn fun position => table.get (Block.exchanged position)

def isNarrow (table : QuantizerTable) : Bool :=
  table.all (· ≤ 255)

def bytes (table : QuantizerTable) : List UInt8 :=
  if table.isNarrow then
    (toZigzag table).map (·.toUInt8)
  else
    (toZigzag table).flatMap fun entry => wordBytes entry.toNat

end QuantizerTable

def words : List UInt8 → List Nat
  | high :: low :: rest => word high low :: words rest
  | _ => []

def takeQuantizers (precision : Nat) (body : List UInt8) :
    Except CodecError (List UInt16 × List UInt8) :=
  match precision with
  | 0 =>
      let entries := body.take 64
      if entries.length < 64 then
        .error .unexpectedEnd
      else
        .ok (entries.map (·.toUInt16), body.drop 64)
  | 1 =>
      let entries := body.take 128
      if entries.length < 128 then
        .error .unexpectedEnd
      else
        .ok ((words entries).map UInt16.ofNat, body.drop 128)
  | _ => .error (.malformed .quantizerPrecision)

private theorem takeQuantizers_length {precision : Nat} {body rest : List UInt8}
    {entries : List UInt16} (taken : takeQuantizers precision body = .ok (entries, rest)) :
    rest.length ≤ body.length := by
  unfold takeQuantizers at taken
  split at taken
  · dsimp only at taken
    split at taken
    · cases taken
    · cases taken
      simp
  · dsimp only at taken
    split at taken
    · cases taken
    · cases taken
      simp
  · cases taken

def quantizersOfBody (body : List UInt8) :
    Except CodecError (List (Fin 4 × QuantizerTable)) :=
  match body with
  | [] => .ok []
  | head :: entries =>
      if inRange : lowNibble head < 4 then
        match _ : takeQuantizers (highNibble head) entries with
        | .error failure => .error failure
        | .ok (values, rest) =>
            if values.contains 0 then
              .error (.malformed .zeroQuantizer)
            else do
              let others ← quantizersOfBody rest
              pure ((⟨lowNibble head, inRange⟩, ofZigzag 0 values) :: others)
      else
        .error (.quantizerId (lowNibble head))
termination_by body.length
decreasing_by
  have shorter := takeQuantizers_length (by assumption)
  simp only [List.length_cons]
  omega

/-- The segment body that defines every table present, with eight bits for the tables
that allow it. -/
def quantizerBody (slots : QuantizerSlots) : List UInt8 :=
  (List.finRange 4).flatMap fun id =>
    match slots.get id with
    | none => []
    | some table => nibbles (if table.isNarrow then 0 else 1) id.val :: table.bytes

end LosslessJpeg
