import LosslessJpeg.Marker.Basic

set_option autoImplicit false

/-!
Segments that accompany an image, and which of them a copy of the image keeps. The JFIF
and the Adobe segment tell how samples are to be read, so that every policy keeps them.
-/

namespace LosslessJpeg

namespace Segment

def isLabelled (segment : Segment) (marker : UInt8) (label : List UInt8) : Bool :=
  segment.marker == marker && label.isPrefixOf segment.body

def isJfif (segment : Segment) : Bool :=
  segment.isLabelled 0xE0 [0x4A, 0x46, 0x49, 0x46, 0]

def isAdobe (segment : Segment) : Bool :=
  segment.isLabelled 0xEE [0x41, 0x64, 0x6F, 0x62, 0x65]

def isProfile (segment : Segment) : Bool :=
  segment.isLabelled 0xE2
    [0x49, 0x43, 0x43, 0x5F, 0x50, 0x52, 0x4F, 0x46, 0x49, 0x4C, 0x45, 0]

def isComment (segment : Segment) : Bool :=
  segment.marker == Marker.comment

end Segment

inductive MetadataPolicy
  | none
  | comments
  | all
  | allExceptProfile
  | profile
  deriving DecidableEq, Repr

def MetadataPolicy.keeps (policy : MetadataPolicy) (segment : Segment) : Bool :=
  segment.isJfif || segment.isAdobe ||
    match policy with
    | .none => false
    | .comments => segment.isComment
    | .all => true
    | .allExceptProfile => !segment.isProfile
    | .profile => segment.isProfile

/-- The segments to keep. An image reduced to grayscale loses the Adobe segment, which
would describe components that are gone. -/
def MetadataPolicy.select (policy : MetadataPolicy) (grayscale : Bool)
    (segments : List Segment) : List Segment :=
  segments.filter fun segment => policy.keeps segment && !(grayscale && segment.isAdobe)

end LosslessJpeg
