import LosslessJpeg.Image.Metadata

set_option autoImplicit false

/-!
What to do with an image: turn or mirror it, or cut out a rectangle.
-/

namespace LosslessJpeg

/-- The symmetries of a rectangle and its transpose. Rotations are clockwise. -/
inductive Orientation
  | identity
  | rotate90
  | rotate180
  | rotate270
  | flipHorizontal
  | flipVertical
  | transpose
  | transverse
  deriving DecidableEq, Repr

/-- How places of the result are found in the source: `transpose` exchanges rows and
columns, then `mirrorX` and `mirrorY` reverse the columns and the rows of the result. -/
structure BlockMapping where
  transpose : Bool
  mirrorX : Bool
  mirrorY : Bool
  deriving DecidableEq, Repr

def Orientation.mapping : Orientation → BlockMapping
  | .identity => { transpose := false, mirrorX := false, mirrorY := false }
  | .flipHorizontal => { transpose := false, mirrorX := true, mirrorY := false }
  | .flipVertical => { transpose := false, mirrorX := false, mirrorY := true }
  | .rotate180 => { transpose := false, mirrorX := true, mirrorY := true }
  | .transpose => { transpose := true, mirrorX := false, mirrorY := false }
  | .rotate90 => { transpose := true, mirrorX := true, mirrorY := false }
  | .rotate270 => { transpose := true, mirrorX := false, mirrorY := true }
  | .transverse => { transpose := true, mirrorX := true, mirrorY := true }

structure Region where
  x : Nat
  y : Nat
  width : Nat
  height : Nat
  deriving DecidableEq, Repr

inductive Directive
  | orient (orientation : Orientation)
  | crop (region : Region)
  deriving DecidableEq, Repr

def Directive.mapping : Directive → BlockMapping
  | .orient orientation => orientation.mapping
  | .crop _ => Orientation.identity.mapping

def Orientation.text : Orientation → String
  | .identity => "None"
  | .rotate90 => "Rotate90"
  | .rotate180 => "Rotate180"
  | .rotate270 => "Rotate270"
  | .flipHorizontal => "FlipHorizontal"
  | .flipVertical => "FlipVertical"
  | .transpose => "Transpose"
  | .transverse => "Transverse"

def Directive.text : Directive → String
  | .orient orientation => orientation.text
  | .crop region =>
      s!"Crop(CropRegion \x7b x: {region.x}, y: {region.y}, width: {region.width}, " ++
        s!"height: {region.height} \x7d)"

structure TransformOptions where
  perfect : Bool := false
  trim : Bool := false
  grayscale : Bool := false
  metadata : MetadataPolicy := .all
  deriving DecidableEq, Repr

end LosslessJpeg
