import LosslessJpeg.Image.Basic
import LosslessJpeg.Transform.Plan

set_option autoImplicit false

/-!
Moving the blocks of an image to their places in the result. Each place of the result says
which block of the source it takes, and which of its axes are mirrored.
-/

namespace LosslessJpeg

structure BlockWindow where
  mapping : BlockMapping
  mirrorColumns : Nat
  mirrorRows : Nat
  columnOffset : Nat
  rowOffset : Nat
  deriving DecidableEq, Repr

structure BlockSource where
  row : Nat
  column : Nat
  mirroredX : Bool
  mirroredY : Bool
  deriving DecidableEq, Repr

namespace BlockWindow

def make (plan : Plan) (placement : Placement) (component : Component) : BlockWindow :=
  { mapping := plan.mapping
    mirrorColumns := plan.transformedWidth / plan.imcuWidth * component.across
    mirrorRows := plan.transformedHeight / plan.imcuHeight * component.down
    columnOffset := placement.xOffset / plan.imcuWidth * component.across
    rowOffset := placement.yOffset / plan.imcuHeight * component.down }

/-- The block that a place of the result takes. Places behind the last whole iMCU stay
where they are on a mirrored axis. -/
def source (window : BlockWindow) (row column : Nat) : BlockSource :=
  let y := row + window.rowOffset
  let x := column + window.columnOffset
  let mirroredY := window.mapping.mirrorY && decide (y < window.mirrorRows)
  let mirroredX := window.mapping.mirrorX && decide (x < window.mirrorColumns)
  let sourceY := if mirroredY then window.mirrorRows - 1 - y else y
  let sourceX := if mirroredX then window.mirrorColumns - 1 - x else x
  { row := if window.mapping.transpose then sourceX else sourceY
    column := if window.mapping.transpose then sourceY else sourceX
    mirroredX := mirroredX
    mirroredY := mirroredY }

def orient (window : BlockWindow) (source : BlockSource) (block : Block) : Block :=
  let turned := if window.mapping.transpose then block.transposed else block
  let across := if source.mirroredX then turned.mirroredAcross else turned
  if source.mirroredY then across.mirroredDown else across

/-- The block at a place of the result; a zero block if the source ends before it. -/
def block (window : BlockWindow) (grid : Grid) (row column : Nat) : Block :=
  let source := window.source row column
  if source.row < grid.blocksTall ∧ source.column < grid.blocksWide then
    window.orient source (grid.block source.row source.column)
  else
    Block.zero

end BlockWindow

def remap (grids : Array Grid) (plan : Plan) (placement : Placement) (result : Frame) :
    Array Grid :=
  ((result.components.zip grids.toList).map fun entry =>
    let window := BlockWindow.make plan placement entry.1
    Grid.ofFn (result.blocksWide entry.1) (result.blocksTall entry.1)
      (window.block entry.2)).toArray

end LosslessJpeg
