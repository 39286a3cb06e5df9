set_option autoImplicit false

/-!
Marker codes: the byte that follows 0xFF and says what comes next in the file.
-/

namespace LosslessJpeg

namespace Marker

def startOfImage : UInt8 := 0xD8
def endOfImage : UInt8 := 0xD9
def baselineFrame : UInt8 := 0xC0
def extendedFrame : UInt8 := 0xC1
def progressiveFrame : UInt8 := 0xC2
def huffmanTables : UInt8 := 0xC4
def quantizerTables : UInt8 := 0xDB
def restartInterval : UInt8 := 0xDD
def startOfScan : UInt8 := 0xDA
def comment : UInt8 := 0xFE

def restartNumber? (marker : UInt8) : Option Nat :=
  if 0xD0 ≤ marker ∧ marker ≤ 0xD7 then some (marker.toNat - 0xD0) else none

def isApplication (marker : UInt8) : Bool :=
  0xE0 ≤ marker && marker ≤ 0xEF

def isMetadata (marker : UInt8) : Bool :=
  isApplication marker || marker == comment

/-- Frames coded in lossless, hierarchical or arithmetic mode, and the segments that
only such files hold. -/
def isUnsupported (marker : UInt8) : Bool :=
  [0xC3, 0xC5, 0xC6, 0xC7, 0xC9, 0xCA, 0xCB, 0xCC, 0xCD, 0xCE, 0xCF, 0xDC, 0xDE].contains marker

def isStandalone (marker : UInt8) : Bool :=
  marker == endOfImage || (restartNumber? marker).isSome

end Marker

/-- What a reader of the file has to do with a marker. -/
inductive MarkerKind
  | frame (progressive : Bool)
  | huffmanTables
  | quantizerTables
  | restartInterval
  | scan
  | endOfImage
  | metadata
  | other
  deriving DecidableEq, Repr

def MarkerKind.of (marker : UInt8) : MarkerKind :=
  if marker = Marker.baselineFrame ∨ marker = Marker.extendedFrame then .frame false
  else if marker = Marker.progressiveFrame then .frame true
  else if marker = Marker.huffmanTables then .huffmanTables
  else if marker = Marker.quantizerTables then .quantizerTables
  else if marker = Marker.restartInterval then .restartInterval
  else if marker = Marker.startOfScan then .scan
  else if marker = Marker.endOfImage then .endOfImage
  else if Marker.isMetadata marker then .metadata
  else .other

/-- A segment by its marker and its body, without the length field. -/
structure Segment where
  marker : UInt8
  body : List UInt8
  deriving DecidableEq, Repr

end LosslessJpeg
