import LosslessJpeg.Operations

set_option autoImplicit false

/-!
Resizing an image by way of its samples. Reading, scaling and writing samples is the work
of a codec from outside. What is settled here is when a request is valid, and which steps of
the codec follow one another.
-/

namespace LosslessJpeg

inductive ResampleFilter
  | nearest
  | triangle
  | catmullRom
  | lanczos3
  deriving DecidableEq, Repr

structure ResizeOptions where
  quality : Nat := 75
  filter : ResampleFilter := .lanczos3
  allowEnlargement : Bool := false
  deriving DecidableEq, Repr

inductive SampleLayout
  | luminance
  | colour
  deriving DecidableEq, Repr

structure SampleBuffer (Samples : SampleLayout → Type) where
  layout : SampleLayout
  samples : Samples layout

/-- A codec for files of samples, with a scaler. The layout is an index of the samples, so
that neither of them can change it. -/
structure SampleCodec (Samples : SampleLayout → Type) where
  read : List UInt8 → Except String (SampleBuffer Samples)
  width : {layout : SampleLayout} → Samples layout → Nat
  height : {layout : SampleLayout} → Samples layout → Nat
  scale : {layout : SampleLayout} → Samples layout → Nat → Nat → ResampleFilter → Samples layout
  write : {layout : SampleLayout} → Samples layout → Nat → Except String (List UInt8)

def checkTarget (width height : Nat) : Except TransformError Unit :=
  if width = 0 ∨ height = 0 then
    .error (.invalidRequest (.emptyTarget width height))
  else
    .ok ()

def checkEnlargement (options : ResizeOptions) (width height sourceWidth sourceHeight : Nat) :
    Except TransformError Unit :=
  if (sourceWidth < width ∨ sourceHeight < height) ∧ !options.allowEnlargement then
    .error (.unsupportedGeometry (.enlargement width height sourceWidth sourceHeight))
  else
    .ok ()

namespace SampleCodec

variable {Samples : SampleLayout → Type} (codec : SampleCodec Samples)

def size (buffer : SampleBuffer Samples) : Nat × Nat :=
  (codec.width buffer.samples, codec.height buffer.samples)

def decode (file : List UInt8) : Except TransformError (SampleBuffer Samples) :=
  (codec.read file).mapError fun text => .decodeFailure (.samples text)

def resample (buffer : SampleBuffer Samples) (width height : Nat) (filter : ResampleFilter) :
    Except TransformError (SampleBuffer Samples) := do
  checkTarget width height
  pure
    { layout := buffer.layout
      samples := codec.scale buffer.samples width height filter }

/-- Qualities run from 1 to 100. -/
def encode (buffer : SampleBuffer Samples) (quality : Nat) :
    Except TransformError (List UInt8) :=
  (codec.write buffer.samples (max 1 (min quality 100))).mapError fun text =>
    .encodeFailure (.samples text)

/-- The image resized to exactly the given size. The whole file has to be well formed before
the codec sees it. -/
def resize (file : List UInt8) (width height : Nat) (options : ResizeOptions) :
    Except TransformError (List UInt8) := do
  checkTarget width height
  let frame ← reading (Frame.probe file)
  let _ ← reading (walkFile file)
  checkEnlargement options width height frame.width.toNat frame.height.toNat
  let buffer ← codec.decode file
  let resized ← codec.resample buffer width height options.filter
  codec.encode resized options.quality

def resizeInto (file : List UInt8) (width height : Nat) (options : ResizeOptions)
    (buffer : List UInt8) : Except TransformError (Nat × List UInt8) := do
  let bytes ← codec.resize file width height options
  let filled ← fillBuffer buffer bytes
  pure (bytes.length, filled)

end SampleCodec

end LosslessJpeg
