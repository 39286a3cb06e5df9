import LosslessJpeg.Transform.File

set_option autoImplicit false

/-!
The operations on a file by name, and writing into a buffer of limited size.
-/

namespace LosslessJpeg

def Orientation.ofFlip (vertical : Bool) : Orientation :=
  if vertical then .flipVertical else .flipHorizontal

namespace Directive

/-- A clockwise rotation. A quarter turn to the left is one of 270 degrees. -/
def ofAngle (angle : Int) : Except TransformError Directive :=
  if angle = 90 then .ok (.orient .rotate90)
  else if angle = 180 then .ok (.orient .rotate180)
  else if angle = 270 ∨ angle = -90 then .ok (.orient .rotate270)
  else .error (.invalidRequest (.rotationAngle angle))

/-- A crop to a rectangle that is not empty. Only the image tells whether it fits. -/
def ofRegion (region : Region) : Except TransformError Directive :=
  if region.width = 0 ∨ region.height = 0 then
    .error (.invalidRequest (.emptyRegion region.width region.height))
  else
    .ok (.crop region)

end Directive

def dimensions (file : List UInt8) : Except TransformError (Nat × Nat) := do
  let frame ← reading (Frame.probe file)
  pure (frame.width.toNat, frame.height.toNat)

def transformBytes (file : List UInt8) (directive : Directive) :
    Except TransformError (List UInt8) := do
  let result ← transform file directive {}
  pure result.bytes

def reorient (file : List UInt8) (orientation : Orientation) :
    Except TransformError (List UInt8) :=
  transformBytes file (.orient orientation)

def rotate (file : List UInt8) (angle : Int) : Except TransformError (List UInt8) := do
  let directive ← Directive.ofAngle angle
  transformBytes file directive

def crop (file : List UInt8) (region : Region) : Except TransformError (List UInt8) := do
  let directive ← Directive.ofRegion region
  transformBytes file directive

def fillBuffer (buffer bytes : List UInt8) : Except TransformError (List UInt8) :=
  if buffer.length < bytes.length then
    .error (.bufferTooSmall bytes.length buffer.length)
  else
    .ok (bytes ++ buffer.drop bytes.length)

def transformInto (file : List UInt8) (directive : Directive) (options : TransformOptions)
    (buffer : List UInt8) : Except TransformError (Nat × List UInt8) := do
  let result ← transform file directive options
  let filled ← fillBuffer buffer result.bytes
  pure (result.bytes.length, filled)

end LosslessJpeg
