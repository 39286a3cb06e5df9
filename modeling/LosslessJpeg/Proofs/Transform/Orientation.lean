import LosslessJpeg.Transform.Directive
import Mathlib.Algebra.Group.TransferInstance
import Mathlib.GroupTheory.SpecificGroups.Dihedral

set_option autoImplicit false

/-!
The eight orientations as the symmetries of a square, and how two mappings of blocks combine
into one.
-/

namespace LosslessJpeg

namespace Orientation

/-- The symmetry of a square that an orientation is. `r 1` is the clockwise quarter turn and
`sr 0` the flip from left to right. -/
def symmetry : Orientation → DihedralGroup 4
  | .identity => .r 0
  | .rotate90 => .r 1
  | .rotate180 => .r 2
  | .rotate270 => .r 3
  | .flipHorizontal => .sr 0
  | .transverse => .sr 1
  | .flipVertical => .sr 2
  | .transpose => .sr 3

def ofSymmetry : DihedralGroup 4 → Orientation
  | .r 0 => .identity
  | .r 1 => .rotate90
  | .r 2 => .rotate180
  | .r 3 => .rotate270
  | .sr 0 => .flipHorizontal
  | .sr 1 => .transverse
  | .sr 2 => .flipVertical
  | .sr 3 => .transpose

def equivDihedral : Orientation ≃ DihedralGroup 4 where
  toFun := symmetry
  invFun := ofSymmetry
  left_inv := by
    intro orientation
    cases orientation <;> rfl
  right_inv := by decide

/-- The product of two orientations is the first one followed by the second one. -/
instance : Group Orientation :=
  equivDihedral.group

def mulEquivDihedral : Orientation ≃* DihedralGroup 4 :=
  equivDihedral.mulEquiv

end Orientation

def BlockMapping.andThen (first second : BlockMapping) : BlockMapping :=
  { transpose := first.transpose ^^ second.transpose
    mirrorX := second.mirrorX ^^ if second.transpose then first.mirrorY else first.mirrorX
    mirrorY := second.mirrorY ^^ if second.transpose then first.mirrorX else first.mirrorY }

namespace Orientation

private theorem ofSymmetry_mul : ∀ first second : DihedralGroup 4,
    (ofSymmetry (first * second)).mapping =
      (ofSymmetry first).mapping.andThen (ofSymmetry second).mapping := by
  decide

theorem mapping_mul (first second : Orientation) :
    (first * second).mapping = first.mapping.andThen second.mapping := by
  have mapping := ofSymmetry_mul (equivDihedral first) (equivDihedral second)
  have firstBack : ofSymmetry (equivDihedral first) = first := equivDihedral.left_inv first
  have secondBack : ofSymmetry (equivDihedral second) = second := equivDihedral.left_inv second
  rw [firstBack, secondBack] at mapping
  exact mapping

end Orientation

end LosslessJpeg
