import LosslessJpeg.Image.Basic
import LosslessJpeg.Scan.Decoder

set_option autoImplicit false

/-!
Reading a file into coefficients. Tables and restart intervals take effect for the scans
that follow them. The quantization table of an identifier is the one in effect when a scan
first codes a component that uses it.
-/

namespace LosslessJpeg

structure FileHeader where
  frame : Frame
  metadata : List Segment

namespace FileHeader

def frameOf (entries : List Entry) : Except CodecError (Option Frame) :=
  entries.foldlM
    (fun found entry =>
      match entry.kind, found with
      | .frame _, some _ => .error (.malformed .severalFrames)
      | .frame progressive, none => (Frame.ofBytes progressive entry.body).map some
      | _, _ => .ok found)
    none

def metadataOf (entries : List Entry) : List Segment :=
  (entries.filter fun entry => entry.kind = .metadata).map Entry.segment

def read (file : List UInt8) : Except CodecError FileHeader := do
  let walk ← walkHeader file
  match ← frameOf walk.entries with
  | none => throw .missingFrame
  | some frame =>
      if walk.entries.any fun entry => entry.kind = .scan then
        pure
          { frame := frame
            metadata := metadataOf walk.entries }
      else
        throw (.malformed .noScan)

end FileHeader

structure ReadState where
  defined : QuantizerSlots
  /-- The quantization tables of the image, as far as they are settled. -/
  settled : QuantizerSlots
  huffman : HuffmanSlots
  restartInterval : Nat
  scanStarts : List Nat
  scanSeen : Bool
  grids : Array Grid
  metadata : List Segment

namespace ReadState

def start (header : FileHeader) (scanStarts : List Nat) : ReadState :=
  { defined := Vector.replicate 4 none
    settled := Vector.replicate 4 none
    huffman := HuffmanSlots.empty
    restartInterval := 0
    scanStarts := scanStarts
    scanSeen := false
    grids := (header.frame.components.map fun component =>
      Grid.zero (header.frame.blocksWide component)
        (header.frame.blocksTall component)).toArray
    metadata := header.metadata }

def define (state : ReadState) (table : Fin 4 × QuantizerTable) : ReadState :=
  { state with defined := state.defined.set table.1.val (some table.2) }

def settle (state : ReadState) (component : Component) : Except CodecError ReadState :=
  let id := component.quantizer
  -- Tables are settled by identifier: components that share one share its first definition in use.
  match state.settled[id]?.join with
  | some _ => .ok state
  | none =>
      match state.defined[id]?.join with
      | some table =>
          .ok { state with settled := state.settled.setIfInBounds id (some table) }
      | none => .error (.quantizerId id)

def decodeScan (file : List UInt8) (frame : Frame) (state : ReadState) (body : List UInt8) :
    Except CodecError ReadState :=
  match state.scanStarts with
  | [] => .error (.malformed .scanWithoutData)
  | scanStart :: later => do
      let scan ← Scan.ofBytes frame body
      let coded := scan.components.filterMap fun component =>
        frame.components[component.index]?
      -- Tables are settled before the data is looked at, so a missing one is what fails first.
      let state ← coded.foldlM settle state
      match scan.decode frame state.huffman state.restartInterval (file.drop scanStart)
          state.grids with
      | .error failure _ => throw failure
      | .ok () grids =>
          pure
            { state with
              scanStarts := later
              scanSeen := true
              grids := grids }

def addEntry (file : List UInt8) (frame : Frame) (state : ReadState) (entry : Entry) :
    Except CodecError ReadState :=
  match entry.kind with
  | .quantizerTables => do
      let tables ← quantizersOfBody entry.body
      pure (tables.foldl define state)
  | .huffmanTables => do
      let tables ← huffmanTablesOfBody entry.body
      pure { state with huffman := tables.foldl HuffmanSlots.install state.huffman }
  | .restartInterval => do
      let interval ← restartIntervalOfBody entry.body
      pure { state with restartInterval := interval }
  | .metadata =>
      -- Metadata ahead of the first scan has been taken from the header.
      if state.scanSeen then
        .ok { state with metadata := state.metadata ++ [entry.segment] }
      else
        .ok state
  | .scan => decodeScan file frame state entry.body
  | _ => .ok state

end ReadState

namespace JpegImage

/-- Decode every scan of a file with a given header. A component that no scan codes gets
the last definition of its table. -/
def ofHeader (file : List UInt8) (header : FileHeader) : Except CodecError JpegImage := do
  let walk ← walkFile file
  let scanned ← walk.entries.foldlM (ReadState.addEntry file header.frame)
    (ReadState.start header walk.scanStarts)
  let state ← header.frame.components.foldlM ReadState.settle scanned
  pure
    { frame := header.frame
      grids := state.grids
      quantizers := state.settled
      metadata := state.metadata }

def ofBytes (file : List UInt8) : Except CodecError JpegImage := do
  let header ← FileHeader.read file
  ofHeader file header

end JpegImage

end LosslessJpeg
