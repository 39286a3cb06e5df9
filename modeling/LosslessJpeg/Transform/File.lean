import LosslessJpeg.Image.Reading
import LosslessJpeg.Image.Writing
import LosslessJpeg.Transform.Remap

set_option autoImplicit false

/-!
Transforming a file: read its header, plan, read its coefficients, move them, and write
them with the segments to keep.
-/

namespace LosslessJpeg

/-- An edge of the result that is not a whole number of iMCUs was left as it is. -/
structure PartialEdge where
  directive : Directive
  width : Nat
  height : Nat
  imcuWidth : Nat
  imcuHeight : Nat
  deriving DecidableEq, Repr

def PartialEdge.message (edge : PartialEdge) : String :=
  edge.directive.text ++ s!": {edge.width}x{edge.height} is not a whole number of " ++
    s!"{edge.imcuWidth}x{edge.imcuHeight} iMCUs, edge blocks left unmirrored"

structure Transformation where
  grayscale : Bool
  plan : Plan
  placement : Placement
  deriving DecidableEq, Repr

namespace Transformation

def dropsColour (frame : Frame) (options : TransformOptions) :
    Except TransformError Bool :=
  let grayscale := options.grayscale && frame.components.length != 1
  if grayscale && frame.components.length != 3 then
    .error (.invalidRequest (.grayscaleSource frame.components.length))
  else
    .ok grayscale

def make (frame : Frame) (directive : Directive) (options : TransformOptions) :
    Except TransformError Transformation := do
  let grayscale ← dropsColour frame options
  let geometry := Geometry.ofFrame frame grayscale
  let plan ← Plan.make geometry directive options
  let placement ← plan.place geometry options directive
  pure
    { grayscale := grayscale
      plan := plan
      placement := placement }

def partialEdge (transformation : Transformation) (directive : Directive) :
    Option PartialEdge :=
  let plan := transformation.plan
  let placement := transformation.placement
  if plan.leavesPartialEdge placement then
    some
      { directive := directive
        width := placement.width
        height := placement.height
        imcuWidth := plan.imcuWidth
        imcuHeight := plan.imcuHeight }
  else
    none

def parameters (transformation : Transformation) (source : CodingParameters) :
    CodingParameters :=
  let kept := if transformation.grayscale then source.firstOnly else source
  if transformation.plan.mapping.transpose then kept.transposed else kept

/-- The size of the result, if a file can state it. -/
def size (transformation : Transformation) : Except TransformError (UInt16 × UInt16) :=
  let width := transformation.placement.width
  let height := transformation.placement.height
  if width < 65536 ∧ height < 65536 then
    .ok (UInt16.ofNat width, UInt16.ofNat height)
  else
    .error (.encodeFailure (.sizeLimit width height))

def frame (transformation : Transformation) (source : CodingParameters) :
    Except TransformError Frame := do
  let (width, height) ← transformation.size
  writing (Frame.build width height (transformation.parameters source).components false)

def apply (transformation : Transformation) (policy : MetadataPolicy)
    (source : JpegImage) : Except TransformError JpegImage := do
  -- The frame fills up its own MCUs, which may be fewer than those of the source.
  let frame ← transformation.frame source.parameters
  let grids := remap source.grids transformation.plan transformation.placement frame
  writing
    (JpegImage.ofGrids (transformation.parameters source.parameters) frame.width
      frame.height grids (policy.select transformation.grayscale source.metadata))

end Transformation

structure Transformed where
  bytes : List UInt8
  partialEdge : Option PartialEdge
  deriving DecidableEq, Repr

def transform (file : List UInt8) (directive : Directive) (options : TransformOptions) :
    Except TransformError Transformed := do
  let header ← reading (FileHeader.read file)
  -- A request is refused before any scan is decoded.
  let transformation ← Transformation.make header.frame directive options
  let source ← reading (JpegImage.ofHeader file header)
  let result ← transformation.apply options.metadata source
  let bytes ← writing result.toBytes
  pure
    { bytes := bytes
      partialEdge := transformation.partialEdge directive }

end LosslessJpeg
