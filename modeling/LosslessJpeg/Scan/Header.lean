import LosslessJpeg.Block.Zigzag
import LosslessJpeg.Frame

set_option autoImplicit false

/-!
The header of a scan: which components it codes with which Huffman tables, which band of
frequencies it covers, and which bits of the coefficients it carries.
-/

namespace LosslessJpeg

structure ScanBand where
  first : Nat
  last : Nat
  /-- The lowest bit that earlier scans have carried, or zero for a first scan. -/
  high : Nat
  low : Nat
  deriving DecidableEq, Repr

namespace ScanBand

def whole : ScanBand :=
  { first := 0
    last := 63
    high := 0
    low := 0 }

def positions (part : ScanBand) : List (Option (Fin 64)) :=
  bandPositions part.first part.last

end ScanBand

structure ScanSelector where
  id : UInt8
  dcTable : Nat
  acTable : Nat
  deriving DecidableEq, Repr

structure ScanHeader where
  selectors : List ScanSelector
  band : ScanBand
  deriving DecidableEq, Repr

def takeSelectors : Nat → List UInt8 → Option (List ScanSelector × List UInt8)
  | 0, rest => some ([], rest)
  | count + 1, id :: tables :: rest => do
      let (others, following) ← takeSelectors count rest
      pure
        ({ id := id
           dcTable := highNibble tables
           acTable := lowNibble tables } :: others, following)
  | _ + 1, _ => none

def ScanHeader.ofBytes : List UInt8 → Except CodecError ScanHeader
  | [] => .error (.malformed .emptyScanHeader)
  | count :: rest =>
      if count = 0 ∨ 4 < count then
        .error (.malformed .scanComponentCount)
      else
        match takeSelectors count.toNat rest with
        | some (selectors, first :: last :: approximation :: _) =>
            if last < first ∨ 63 < last ∨ 13 < lowNibble approximation then
              .error (.malformed .spectralParameters)
            else
              .ok
                { selectors := selectors
                  band :=
                    { first := first.toNat
                      last := last.toNat
                      high := highNibble approximation
                      low := lowNibble approximation } }
        | _ => .error .unexpectedEnd

/-- How many coding units lie between restart markers; zero stands for no restarts. -/
def restartIntervalOfBody : List UInt8 → Except CodecError Nat
  | high :: low :: _ => .ok (word high low)
  | _ => .error .unexpectedEnd

structure ScanComponent where
  index : Nat
  dcTable : Nat
  acTable : Nat
  deriving DecidableEq, Repr

structure Scan where
  components : List ScanComponent
  band : ScanBand
  deriving DecidableEq, Repr

def ScanSelector.resolve (frame : Frame) (selector : ScanSelector) :
    Except CodecError ScanComponent :=
  match frame.components.findIdx? (·.id == selector.id) with
  | some index =>
      .ok
        { index := index
          dcTable := selector.dcTable
          acTable := selector.acTable }
  | none => .error (.unknownComponent selector.id)

def Scan.ofBytes (frame : Frame) (body : List UInt8) : Except CodecError Scan := do
  let header ← ScanHeader.ofBytes body
  let components ← header.selectors.mapM (ScanSelector.resolve frame)
  pure
    { components := components
      band := header.band }

end LosslessJpeg
