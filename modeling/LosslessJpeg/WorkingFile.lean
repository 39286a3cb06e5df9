import LosslessJpeg.Resize

set_option autoImplicit false

/-!
A file in hand, to which operations are applied one after the other.
-/

namespace LosslessJpeg

structure WorkingFile where
  bytes : List UInt8
  deriving DecidableEq

namespace WorkingFile

/-- A file has to begin with the marker that starts an image. -/
def ofFile (bytes : List UInt8) : Except TransformError WorkingFile := do
  let _ ← reading (afterStart bytes)
  pure { bytes := bytes }

def dimensions (working : WorkingFile) : Except TransformError (Nat × Nat) :=
  LosslessJpeg.dimensions working.bytes

def orient (working : WorkingFile) (orientation : Orientation) :
    Except TransformError WorkingFile := do
  let bytes ← reorient working.bytes orientation
  pure { bytes := bytes }

def rotate (working : WorkingFile) (angle : Int) : Except TransformError WorkingFile := do
  if angle ≠ 90 ∧ angle ≠ 180 ∧ angle ≠ 270 then
    throw (.invalidRequest (.quarterTurn angle))
  let bytes ← LosslessJpeg.rotate working.bytes angle
  pure { bytes := bytes }

def crop (working : WorkingFile) (region : Region) : Except TransformError WorkingFile := do
  let bytes ← LosslessJpeg.crop working.bytes region
  pure { bytes := bytes }

def resize {Samples : SampleLayout → Type} (codec : SampleCodec Samples)
    (working : WorkingFile) (width height : Nat) (options : ResizeOptions) :
    Except TransformError WorkingFile := do
  let bytes ← codec.resize working.bytes width height options
  pure { bytes := bytes }

end WorkingFile

end LosslessJpeg
