import LosslessJpeg.Frame

set_option autoImplicit false

/-!
The order in which a scan codes blocks. A scan of one component codes the blocks that hold
samples of the image, row by row. A scan of several components interleaves them by MCUs;
an MCU holds as many blocks of each component as its sampling factors say.
-/

namespace LosslessJpeg

structure BlockAddress where
  component : Nat
  row : Nat
  column : Nat
  deriving DecidableEq, Repr

/-- The coding units of a scan by number, each with its blocks in order. Restarts come
between units. -/
structure ScanLayout where
  units : Nat
  blocks : Nat → List BlockAddress

namespace ScanLayout

def raster (blocksWide blocksTall : Nat) : ScanLayout :=
  { units := blocksTall * blocksWide
    blocks := fun unit =>
      [{ component := 0
         row := unit / blocksWide
         column := unit % blocksWide }] }

def mcuBlocks (mcuRow mcuColumn index : Nat) (component : Component) : List BlockAddress :=
  (List.range component.down).flatMap fun y =>
    (List.range component.across).map fun x =>
      { component := index
        row := mcuRow * component.down + y
        column := mcuColumn * component.across + x }

def interleaved (frame : Frame) (components : List Component) : ScanLayout :=
  let mcusWide := frame.mcusWide
  { units := frame.mcusTall * mcusWide
    blocks := fun unit =>
      components.zipIdx.flatMap fun entry =>
        mcuBlocks (unit / mcusWide) (unit % mcusWide) entry.2 entry.1 }

def ofComponents (frame : Frame) : List Component → ScanLayout
  | [component] =>
      raster (frame.imageBlocksWide component) (frame.imageBlocksTall component)
  | components => interleaved frame components

def order (layout : ScanLayout) : List BlockAddress :=
  (List.range layout.units).flatMap layout.blocks

end ScanLayout

end LosslessJpeg
