import LosslessJpeg.Image.Basic
import LosslessJpeg.Marker.Walk
import LosslessJpeg.Scan.Encoder

set_option autoImplicit false

/-!
Writing an image as a file with one sequential scan and the best Huffman tables for it.
-/

namespace LosslessJpeg

namespace JpegImage

/-- The first component has tables of its own, and all others share theirs. -/
def tableIds (image : JpegImage) : List (Fin 4) :=
  (List.range image.grids.size).map fun index => if index = 0 then 0 else 1

def optimalSlots (image : JpegImage) (counts : SymbolCounts) : HuffmanSlots :=
  let ids : List (Fin 4) := if image.grids.size < 2 then [0] else [0, 1]
  ids.foldl
    (fun slots id =>
      (slots.install (optimalTable 0 (UInt8.ofNat id.val) (counts.dcFrequencies id))).install
        (optimalTable 1 (UInt8.ofNat id.val) (counts.acFrequencies id)))
    HuffmanSlots.empty

def usedQuantizers (image : JpegImage) : QuantizerSlots :=
  Vector.ofFn fun id =>
    if image.frame.components.any fun component => component.quantizer = id.val then
      image.quantizers.get id
    else
      none

/-- Tables with entries of more than a byte are not allowed in a baseline frame. -/
def frameMarker (image : JpegImage) : UInt8 :=
  if image.usedQuantizers.toList.all fun slot => slot.all QuantizerTable.isNarrow then
    Marker.baselineFrame
  else
    Marker.extendedFrame

def scanHeaderBytes (image : JpegImage) : List UInt8 :=
  UInt8.ofNat image.frame.components.length ::
    ((image.frame.components.zip image.tableIds).flatMap fun entry =>
      [entry.1.id, nibbles entry.2.val entry.2.val]) ++ [0, 63, 0]

def segments (image : JpegImage) (slots : HuffmanSlots) : List Segment :=
  image.metadata ++
    [{ marker := Marker.quantizerTables, body := quantizerBody image.usedQuantizers },
     { marker := image.frameMarker, body := image.frame.bytes },
     { marker := Marker.huffmanTables, body := huffmanBody slots.tables },
     { marker := Marker.startOfScan, body := image.scanHeaderBytes }]

def toBytes (image : JpegImage) : Except CodecError (List UInt8) := do
  -- The best tables depend on the symbols, so that all of them are collected first.
  let tokens ← scanTokens image.frame image.grids image.tableIds
  let slots := image.optimalSlots (SymbolCounts.ofTokens tokens)
  let scan ← tokenBytes slots tokens
  let segments ← (image.segments slots).mapM segmentBytes
  pure
    ([0xFF, Marker.startOfImage] ++ segments.flatten ++ scan ++
      [0xFF, Marker.endOfImage])

end JpegImage

end LosslessJpeg
