import LosslessJpeg.Error
import LosslessJpeg.Marker.Basic

set_option autoImplicit false

/-!
Bits of entropy-coded data, most significant first. A 0xFF in the data is followed by a
stuffed zero; any other byte after it is a marker, which ends the data. From a marker on
the reader supplies zero bits, so that a last code can be looked up past its end.
-/

namespace LosslessJpeg

structure BitReader where
  rest : List UInt8
  buffer : Nat
  available : Nat
  /-- The marker that ended the data, if one has been met. -/
  marker : Option UInt8
  deriving DecidableEq, Repr

abbrev BitDecoder := EStateM CodecError BitReader

namespace BitReader

def ofBytes (bytes : List UInt8) : BitReader :=
  { rest := bytes
    buffer := 0
    available := 0
    marker := none }

def push (reader : BitReader) (byte : UInt8) : BitReader :=
  { reader with
    buffer := reader.buffer * 256 + byte.toNat
    available := reader.available + 8 }

/-- Take in one byte. Fill bytes may repeat before the byte that tells stuffing from a
marker. -/
def fillByte : BitDecoder Unit := fun reader =>
  match reader.marker with
  -- Behind a marker there are zeros without end.
  | some _ => .ok () (reader.push 0)
  | none =>
      match reader.rest with
      | [] => .error .unexpectedEnd reader
      | byte :: rest =>
          if byte = 0xFF then
            match rest.dropWhile (· = 0xFF) with
            | [] => .error .unexpectedEnd { reader with rest := [] }
            | next :: rest =>
                if next = 0 then
                  .ok () ({ reader with rest := rest }.push 0xFF)
                else
                  .ok () ({ reader with rest := rest, marker := some next }.push 0)
          else
            .ok () ({ reader with rest := rest }.push byte)

def fillBytes : Nat → BitDecoder Unit
  | 0 => pure ()
  | count + 1 => do
      fillByte
      fillBytes count

def peekBits (count : Nat) : BitDecoder Nat := do
  let reader ← get
  fillBytes ((count - reader.available + 7) / 8)
  let filled ← get
  pure (filled.buffer >>> (filled.available - count))

def skipBits (count : Nat) : BitDecoder Unit :=
  modify fun reader =>
    { reader with
      buffer := reader.buffer % (1 <<< (reader.available - count))
      available := reader.available - count }

def readBits (count : Nat) : BitDecoder Nat := do
  let value ← peekBits count
  skipBits count
  pure value

def readBit : BitDecoder Bool := do
  let value ← readBits 1
  pure (value != 0)

/-- The number of the restart marker at the front of `bytes`, and what remains. Fill
bytes before a marker are passed over in either case. -/
def restartFrom : List UInt8 → Option Nat × List UInt8
  | first :: next :: rest =>
      if first = 0xFF then
        if next = 0xFF then
          restartFrom (next :: rest)
        else
          match Marker.restartNumber? next with
          | some number => (some number, rest)
          | none => (none, first :: next :: rest)
      else
        (none, first :: next :: rest)
  | bytes => (none, bytes)

/-- Give up the bits of the byte in hand and consume a restart marker, which may have
been met already by looking ahead. -/
def takeRestart : BitDecoder (Option Nat) := fun reader =>
  let aligned := { reader with buffer := 0, available := 0 }
  match reader.marker with
  | some marker =>
      match Marker.restartNumber? marker with
      | some number => .ok (some number) { aligned with marker := none }
      -- Another marker stays, and ends the data here as well.
      | none => .ok none aligned
  | none =>
      let (number, rest) := restartFrom reader.rest
      .ok number { aligned with rest := rest }

end BitReader

end LosslessJpeg
