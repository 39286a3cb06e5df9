import LosslessJpeg.Block.Basic

set_option autoImplicit false

/-!
The blocks of one image component, row by row.
-/

namespace LosslessJpeg

structure Grid where
  blocksWide : Nat
  blocksTall : Nat
  blocks : Array Block
  blocks_size : blocks.size = blocksTall * blocksWide
  deriving DecidableEq

namespace Grid

def zero (blocksWide blocksTall : Nat) : Grid :=
  { blocksWide := blocksWide
    blocksTall := blocksTall
    blocks := Array.replicate (blocksTall * blocksWide) Block.zero
    blocks_size := Array.size_replicate }

def ofFn (blocksWide blocksTall : Nat) (content : Nat → Nat → Block) : Grid :=
  { blocksWide := blocksWide
    blocksTall := blocksTall
    blocks := Array.ofFn fun index : Fin (blocksTall * blocksWide) =>
      content (index.val / blocksWide) (index.val % blocksWide)
    blocks_size := Array.size_ofFn }

def index (grid : Grid) (row column : Nat) : Nat :=
  row * grid.blocksWide + column

/-- The block at a place; a zero block outside the grid. -/
def block (grid : Grid) (row column : Nat) : Block :=
  grid.blocks.getD (grid.index row column) Block.zero

def setBlock (grid : Grid) (row column : Nat) (content : Block) : Grid :=
  { grid with
    blocks := grid.blocks.setIfInBounds (grid.index row column) content
    blocks_size := by rw [Array.size_setIfInBounds, grid.blocks_size] }

def coefficient (grid : Grid) (row column vertical horizontal : Nat) : Int16 :=
  (grid.block row column).toArray.getD (Block.position vertical horizontal) 0

def setCoefficient (grid : Grid) (row column vertical horizontal : Nat)
    (value : Int16) : Grid :=
  grid.setBlock row column
    ((grid.block row column).setIfInBounds (Block.position vertical horizontal) value)

end Grid

end LosslessJpeg
