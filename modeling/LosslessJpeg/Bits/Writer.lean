set_option autoImplicit false

/-!
Writing bits as entropy-coded data, most significant first: a zero byte is stuffed after
every 0xFF, and the last byte is filled up with ones.
-/

namespace LosslessJpeg

structure BitWriter where
  bytes : Array UInt8
  pending : Nat
  pendingCount : Nat
  deriving DecidableEq, Repr

namespace BitWriter

def empty : BitWriter :=
  { bytes := #[]
    pending := 0
    pendingCount := 0 }

def emitByte (bytes : Array UInt8) (byte : UInt8) : Array UInt8 :=
  if byte = 0xFF then (bytes.push byte).push 0 else bytes.push byte

def drain : Nat → BitWriter → BitWriter
  | 0, writer => writer
  | count + 1, writer =>
      let left := writer.pendingCount - 8
      drain count
        { bytes := emitByte writer.bytes (UInt8.ofNat (writer.pending >>> left))
          pending := writer.pending % (1 <<< left)
          pendingCount := left }

def writeBits (writer : BitWriter) (value count : Nat) : BitWriter :=
  let total := writer.pendingCount + count
  drain (total / 8)
    { writer with
      pending := (writer.pending <<< count) + value % (1 <<< count)
      pendingCount := total }

/-- The bytes written, the last one filled up with ones. -/
def flush (writer : BitWriter) : List UInt8 :=
  if writer.pendingCount = 0 then
    writer.bytes.toList
  else
    let padding := 8 - writer.pendingCount
    (emitByte writer.bytes
      (UInt8.ofNat ((writer.pending <<< padding) + ((1 <<< padding) - 1)))).toList

end BitWriter

end LosslessJpeg
