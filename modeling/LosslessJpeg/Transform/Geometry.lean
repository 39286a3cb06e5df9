import LosslessJpeg.Frame

set_option autoImplicit false

/-!
The measures of a source image that decide which transformations it allows. The iMCU is
the smallest part of it that can be moved: an MCU, or a block if one component is written.
-/

namespace LosslessJpeg

structure SamplingFactors where
  across : Nat
  down : Nat
  deriving DecidableEq, Repr

structure Geometry where
  width : Nat
  height : Nat
  sampling : List SamplingFactors
  maxAcross : Nat
  maxDown : Nat
  imcuWidth : Nat
  imcuHeight : Nat
  deriving DecidableEq, Repr

def Component.sampling (component : Component) : SamplingFactors :=
  { across := component.across
    down := component.down }

namespace Geometry

def ofFrame (frame : Frame) (grayscale : Bool) : Geometry :=
  let count := if grayscale then 1 else frame.components.length
  let maxAcross := if count = 1 then 1 else frame.maxAcross
  let maxDown := if count = 1 then 1 else frame.maxDown
  { width := frame.width.toNat
    height := frame.height.toNat
    sampling := (frame.components.take count).map Component.sampling
    maxAcross := maxAcross
    maxDown := maxDown
    imcuWidth := maxAcross * 8
    imcuHeight := maxDown * 8 }

/-- Whether every component divides an iMCU evenly from left to right. A component that
does not cannot be mirrored by whole iMCUs. -/
def tilesAcross (geometry : Geometry) : Bool :=
  geometry.sampling.length == 1 ||
    geometry.sampling.all fun factors => geometry.maxAcross % factors.across == 0

def tilesDown (geometry : Geometry) : Bool :=
  geometry.sampling.length == 1 ||
    geometry.sampling.all fun factors => geometry.maxDown % factors.down == 0

end Geometry

end LosslessJpeg
