import LosslessJpeg.Transform.Error
import LosslessJpeg.Transform.Geometry

set_option autoImplicit false

/-!
Deciding on a transformation before any coefficient is read: whether it is perfect, how
large the result is, and where in the source it begins.
-/

namespace LosslessJpeg

structure Plan where
  mapping : BlockMapping
  transformedWidth : Nat
  transformedHeight : Nat
  imcuWidth : Nat
  imcuHeight : Nat
  perfect : Bool
  separateBuffer : Bool
  deriving DecidableEq, Repr

structure Placement where
  width : Nat
  height : Nat
  xOffset : Nat
  yOffset : Nat
  deriving DecidableEq, Repr

namespace Plan

def leavesPartialEdge (plan : Plan) (placement : Placement) : Bool :=
  (plan.mapping.mirrorX && placement.width % plan.imcuWidth != 0) ||
    (plan.mapping.mirrorY && placement.height % plan.imcuHeight != 0)

def oriented {α : Type} (mapping : BlockMapping) (first second : α) : α :=
  if mapping.transpose then second else first

def isCrop : Directive → Bool
  | .crop _ => true
  | .orient _ => false

def make (geometry : Geometry) (directive : Directive) (options : TransformOptions) :
    Except TransformError Plan :=
  let mapping := directive.mapping
  let width := oriented mapping geometry.width geometry.height
  let height := oriented mapping geometry.height geometry.width
  let imcuWidth := oriented mapping geometry.imcuWidth geometry.imcuHeight
  let imcuHeight := oriented mapping geometry.imcuHeight geometry.imcuWidth
  let tilesX := oriented mapping geometry.tilesAcross geometry.tilesDown
  let tilesY := oriented mapping geometry.tilesDown geometry.tilesAcross
  let perfect :=
    (!mapping.mirrorX || (width % imcuWidth == 0 && tilesX)) &&
      (!mapping.mirrorY || (height % imcuHeight == 0 && tilesY))
  if options.perfect && !perfect then
    .error (.unsupportedGeometry
      (.imperfect directive geometry.width geometry.height imcuWidth imcuHeight))
  else
    .ok
      { mapping := mapping
        transformedWidth := width
        transformedHeight := height
        imcuWidth := imcuWidth
        imcuHeight := imcuHeight
        perfect := perfect
        separateBuffer := mapping.transpose || isCrop directive }

/-- Cut a mirrored axis down to whole iMCUs, unless it is shorter than one. -/
def trimmed (trim mirrored : Bool) (extent imcu : Nat) : Nat :=
  if trim && mirrored && imcu ≤ extent then extent - extent % imcu else extent

/-- One axis of a crop as extent and offset. The offset moves down to an iMCU, and the
extent grows with it, up to whole iMCUs or the edge of the image. -/
def cropAxis (options : TransformOptions) (axis : Axis) (offset extent limit imcu : Nat) :
    Except TransformError (Nat × Nat) :=
  let snapped := offset - offset % imcu
  let span := extent + (offset - snapped)
  let available := limit - snapped
  if options.perfect && snapped != offset then
    .error (.unsupportedGeometry (.misalignedOffset axis offset imcu))
  else if options.perfect && span % imcu != 0 && span != available then
    .error (.unsupportedGeometry (.misalignedExtent axis extent))
  else
    -- Trimming rounds the grown extent down, but leaves one iMCU at least.
    let rounded :=
      if options.trim then max (span - span % imcu) imcu else ceilDiv span imcu * imcu
    .ok (min rounded available, snapped)

def fits (offset extent limit : Nat) : Bool :=
  0 < extent && offset + extent ≤ limit

def placeCrop (plan : Plan) (geometry : Geometry) (options : TransformOptions)
    (region : Region) : Except TransformError Placement :=
  if fits region.x region.width geometry.width &&
      fits region.y region.height geometry.height then do
    let (width, xOffset) ←
      cropAxis options .x region.x region.width geometry.width plan.imcuWidth
    let (height, yOffset) ←
      cropAxis options .y region.y region.height geometry.height plan.imcuHeight
    pure
      { width := width
        height := height
        xOffset := xOffset
        yOffset := yOffset }
  else
    .error (.unsupportedGeometry (.outside region geometry.width geometry.height))

def place (plan : Plan) (geometry : Geometry) (options : TransformOptions) :
    Directive → Except TransformError Placement
  | .crop region => plan.placeCrop geometry options region
  | .orient _ =>
      .ok
        { width :=
            trimmed options.trim plan.mapping.mirrorX plan.transformedWidth plan.imcuWidth
          height :=
            trimmed options.trim plan.mapping.mirrorY plan.transformedHeight plan.imcuHeight
          xOffset := 0
          yOffset := 0 }

end Plan

end LosslessJpeg
