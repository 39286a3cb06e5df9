import LosslessJpeg.Block.Grid
import LosslessJpeg.Block.Quantizer
import LosslessJpeg.Frame
import LosslessJpeg.Image.Metadata

set_option autoImplicit false

/-!
An image as quantized coefficients, and the parameters that give them their meaning.
-/

namespace LosslessJpeg

structure CodingParameters where
  quantizers : QuantizerSlots
  components : List Component
  deriving DecidableEq

namespace CodingParameters

def transposed (parameters : CodingParameters) : CodingParameters :=
  { quantizers := parameters.quantizers.map (·.map QuantizerTable.transposed)
    components := parameters.components.map Component.transposed }

def firstOnly (parameters : CodingParameters) : CodingParameters :=
  match parameters.components with
  | [] => parameters
  | first :: _ =>
      { quantizers := Vector.ofFn fun id =>
          if id.val = first.quantizer % 4 then parameters.quantizers.get id else none
        components := [first] }

end CodingParameters

structure JpegImage where
  frame : Frame
  grids : Array Grid
  quantizers : QuantizerSlots
  metadata : List Segment
  deriving DecidableEq

namespace JpegImage

def parameters (image : JpegImage) : CodingParameters :=
  { quantizers := image.quantizers
    components := image.frame.components }

/-- A grid has to fill the MCUs of its component, and the component needs its table. -/
def checkComponent (frame : Frame) (quantizers : QuantizerSlots)
    (entry : Grid × Component) : Except CodecError Unit :=
  let (grid, component) := entry
  if grid.blocksWide ≠ frame.blocksWide component ∨
      grid.blocksTall ≠ frame.blocksTall component then
    .error .invalidDimensions
  else if (quantizers[component.quantizer]?.join).isNone then
    .error (.quantizerId component.quantizer)
  else
    .ok ()

def ofGrids (parameters : CodingParameters) (width height : UInt16) (grids : Array Grid)
    (metadata : List Segment) : Except CodecError JpegImage := do
  let frame ← Frame.build width height parameters.components false
  if grids.size ≠ frame.components.length then
    throw (.malformed .gridCount)
  (grids.toList.zip frame.components).forM (checkComponent frame parameters.quantizers)
  pure
    { frame := frame
      grids := grids
      quantizers := parameters.quantizers
      metadata := metadata }

end JpegImage

end LosslessJpeg
