import LosslessJpeg.Error
import LosslessJpeg.Transform.Directive

set_option autoImplicit false

/-!
Failures of an operation on a file, as causes with their wording.
-/

namespace LosslessJpeg

inductive Axis
  | x
  | y
  deriving DecidableEq, Repr

def Axis.text : Axis → String
  | .x => "x"
  | .y => "y"

/-- A request that is wrong whatever the image. -/
inductive RequestFault
  | rotationAngle (angle : Int)
  | quarterTurn (angle : Int)
  | emptyRegion (width height : Nat)
  | emptyTarget (width height : Nat)
  | grayscaleSource (components : Nat)
  deriving DecidableEq, Repr

def RequestFault.message : RequestFault → String
  | .rotationAngle angle => s!"rotation angle must be 90, 180, 270 or -90, got {angle}"
  | .quarterTurn angle => s!"rotation angle must be 90, 180 or 270, got {angle}"
  | .emptyRegion width height => s!"crop size must be positive, got {width}x{height}"
  | .emptyTarget width height => s!"target size must be positive, got {width}x{height}"
  | .grayscaleSource components =>
      s!"grayscale conversion needs YCbCr input, got {components} components"

inductive GeometryFault
  | imperfect (directive : Directive) (width height imcuWidth imcuHeight : Nat)
  | outside (region : Region) (width height : Nat)
  | misalignedOffset (axis : Axis) (offset imcu : Nat)
  | misalignedExtent (axis : Axis) (extent : Nat)
  | enlargement (targetWidth targetHeight width height : Nat)
  deriving DecidableEq, Repr

def GeometryFault.message : GeometryFault → String
  | .imperfect directive width height imcuWidth imcuHeight =>
      directive.text ++ s!" of a {width}x{height} image is not perfect: " ++
        s!"mirrored edges must be whole {imcuWidth}x{imcuHeight} iMCUs"
  | .outside region width height =>
      s!"crop {region.width}x{region.height}+{region.x}+{region.y} lies outside " ++
        s!"the {width}x{height} image"
  | .misalignedOffset axis offset imcu =>
      "crop " ++ axis.text ++
        s!" offset {offset} is not a multiple of the {imcu}-pixel iMCU"
  | .misalignedExtent axis extent =>
      "crop " ++ axis.text ++
        s!" extent {extent} is neither whole iMCUs nor reaches the image edge"
  | .enlargement targetWidth targetHeight width height =>
      s!"target {targetWidth}x{targetHeight} is larger than the {width}x{height} source"

inductive DecodeFault
  | undecodable
  | samples (text : String)
  deriving DecidableEq, Repr

def DecodeFault.message : DecodeFault → String
  | .undecodable => CodecError.undecodable.message
  | .samples text => text

inductive EncodeFault
  | sizeLimit (width height : Nat)
  | codec (failure : CodecError)
  | samples (text : String)
  deriving DecidableEq, Repr

def EncodeFault.message : EncodeFault → String
  | .sizeLimit width height => s!"destination {width}x{height} exceeds the JPEG size limit"
  | .codec failure => failure.message
  | .samples text => text

inductive TransformError
  | malformedStream (failure : CodecError)
  | unsupportedGeometry (fault : GeometryFault)
  | invalidRequest (fault : RequestFault)
  | decodeFailure (fault : DecodeFault)
  | encodeFailure (fault : EncodeFault)
  | bufferTooSmall (required capacity : Nat)
  deriving DecidableEq, Repr

namespace TransformError

def message : TransformError → String
  | .malformedStream failure => "malformed JPEG stream: " ++ failure.message
  | .unsupportedGeometry fault => "unsupported geometry: " ++ fault.message
  | .invalidRequest fault => "invalid directive: " ++ fault.message
  | .decodeFailure fault => "decode failure: " ++ fault.message
  | .encodeFailure fault => "encode failure: " ++ fault.message
  | .bufferTooSmall required capacity =>
      s!"destination buffer too small: need {required} bytes, have {capacity}"

/-- Failures of the entropy decoder are told apart from those of the file structure. -/
def ofReading : CodecError → TransformError
  | .undecodable => .decodeFailure .undecodable
  | failure => .malformedStream failure

def ofWriting (failure : CodecError) : TransformError :=
  .encodeFailure (.codec failure)

end TransformError

def reading {α : Type} (result : Except CodecError α) : Except TransformError α :=
  result.mapError TransformError.ofReading

def writing {α : Type} (result : Except CodecError α) : Except TransformError α :=
  result.mapError TransformError.ofWriting

end LosslessJpeg
