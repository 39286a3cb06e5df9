import LosslessJpeg.Block.Grid
import LosslessJpeg.Scan.BlockDecoder
import LosslessJpeg.Scan.Header
import LosslessJpeg.Scan.Layout

set_option autoImplicit false

/-!
Decoding one scan into the coefficient grids of a frame. A scan that fails keeps the
coefficients it has decoded.
-/

namespace LosslessJpeg

inductive ScanKind
  | sequential
  | dcFirst
  | dcRefinement
  | acFirst
  | acRefinement
  deriving DecidableEq, Repr

namespace Scan

/-- What a scan of a frame carries. Progressive scans keep DC and AC coefficients apart,
and code AC coefficients of one component only. -/
def kind (frame : Frame) (scan : Scan) : Except CodecError ScanKind :=
  let band := scan.band
  if !frame.progressive then
    if band = ScanBand.whole then .ok .sequential
    else .error (.malformed .spectralSelectionInSequentialScan)
  else if band.first = 0 then
    if band.last ≠ 0 then .error (.malformed .mixedProgressiveScan)
    else .ok (if band.high = 0 then .dcFirst else .dcRefinement)
  else if scan.components.length ≠ 1 then
    .error (.malformed .interleavedBandScan)
  else
    .ok (if band.high = 0 then .acFirst else .acRefinement)

def decoderAt (tables : Vector (Option HuffmanTable) 4) (id : Nat) :
    Except CodecError HuffmanDecoder :=
  match tables[id]?.join with
  | some table => HuffmanDecoder.ofTable table
  | none => .error (.huffmanTableId id)

def codingOf (kind : ScanKind) (scan : Scan) (slots : HuffmanSlots)
    (component : ScanComponent) : Except CodecError BlockCoding :=
  let positions := scan.band.positions
  match kind with
  | .sequential => do
      let dc ← decoderAt slots.dc component.dcTable
      let ac ← decoderAt slots.ac component.acTable
      pure (.sequential dc ac)
  | .dcFirst => do
      let dc ← decoderAt slots.dc component.dcTable
      pure (.dcFirst dc scan.band.low)
  | .dcRefinement => pure (.dcRefinement scan.band.low)
  | .acFirst => do
      let ac ← decoderAt slots.ac component.acTable
      pure (.acFirst ac positions scan.band.low)
  | .acRefinement => do
      let ac ← decoderAt slots.ac component.acTable
      pure (.acRefinement ac positions scan.band.low)

end Scan

/-- What a frame lacks holds no blocks. -/
def Component.absent : Component :=
  { id := 0
    across := 0
    down := 0
    quantizer := 0 }

structure CodedComponent where
  index : Nat
  component : Component
  coding : BlockCoding

def Scan.codedComponent (frame : Frame) (kind : ScanKind) (scan : Scan)
    (slots : HuffmanSlots) (gridCount : Nat) (component : ScanComponent) :
    Except CodecError CodedComponent :=
  if component.index < gridCount ∧ component.dcTable < 4 ∧ component.acTable < 4 then do
    let coding ← scan.codingOf kind slots component
    pure
      { index := component.index
        component := (frame.components[component.index]?).getD Component.absent
        coding := coding }
  else
    .error (.malformed .scanSelector)

def Scan.codedComponents (frame : Frame) (scan : Scan) (slots : HuffmanSlots)
    (gridCount : Nat) : Except CodecError (List CodedComponent) := do
  let kind ← scan.kind frame
  scan.components.mapM (scan.codedComponent frame kind slots gridCount)

structure ScanState where
  reader : BitReader
  predictors : Array Int
  endOfBandRun : Nat
  grids : Array Grid

abbrev ScanDecoder := EStateM CodecError ScanState

namespace ScanDecoder

def blockState (state : ScanState) (part : CodedComponent) (address : BlockAddress) :
    BlockState :=
  { reader := state.reader
    predictor := state.predictors.getD address.component 0
    endOfBandRun := state.endOfBandRun
    block := ((state.grids[part.index]?).map (·.block address.row address.column)).getD
      Block.zero }

def store (state : ScanState) (part : CodedComponent) (address : BlockAddress)
    (block : BlockState) : ScanState :=
  { reader := block.reader
    predictors := state.predictors.setIfInBounds address.component block.predictor
    endOfBandRun := block.endOfBandRun
    grids := state.grids.modify part.index
      (·.setBlock address.row address.column block.block) }

/-- Decode what the scan carries of one block, and keep it even if it ends in a failure. -/
def decodeBlock (parts : Array CodedComponent) (address : BlockAddress) :
    ScanDecoder Unit := fun state =>
  match parts[address.component]? with
  | none => .ok () state
  | some part =>
      match part.coding.decode (blockState state part address) with
      | .ok () block => .ok () (store state part address block)
      | .error failure block => .error failure (store state part address block)

/-- Between units, at every multiple of the restart interval, a restart marker follows and
decoding starts afresh. A missing marker is not an error, nor is a wrong number. -/
def beginUnit (interval unit : Nat) : ScanDecoder Unit := fun state =>
  if 0 < interval ∧ 0 < unit ∧ unit % interval = 0 then
    match BitReader.takeRestart state.reader with
    | .ok _ reader =>
        .ok ()
          { state with
            reader := reader
            predictors := state.predictors.map fun _ => 0
            endOfBandRun := 0 }
    | .error failure reader => .error failure { state with reader := reader }
  else
    .ok () state

def decodeUnit (parts : Array CodedComponent) (layout : ScanLayout) (interval unit : Nat) :
    ScanDecoder Unit := do
  beginUnit interval unit
  (layout.blocks unit).forM (decodeBlock parts)

def decodeUnits (parts : Array CodedComponent) (layout : ScanLayout) (interval : Nat) :
    Nat → Nat → ScanDecoder Unit
  | 0, _ => pure ()
  | remaining + 1, unit => do
      decodeUnit parts layout interval unit
      decodeUnits parts layout interval remaining (unit + 1)

end ScanDecoder

def Scan.decode (frame : Frame) (scan : Scan) (slots : HuffmanSlots) (interval : Nat)
    (bytes : List UInt8) : EStateM CodecError (Array Grid) Unit := fun grids =>
  match scan.codedComponents frame slots grids.size with
  | .error failure => .error failure grids
  | .ok parts =>
      let layout := ScanLayout.ofComponents frame (parts.map (·.component))
      let start : ScanState :=
        { reader := BitReader.ofBytes bytes
          predictors := Array.replicate parts.length 0
          endOfBandRun := 0
          grids := grids }
      match ScanDecoder.decodeUnits parts.toArray layout interval layout.units 0 start with
      | .ok () state => .ok () state.grids
      -- What has been decoded before the failure stays.
      | .error failure state => .error failure state.grids

end LosslessJpeg
