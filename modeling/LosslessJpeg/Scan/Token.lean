import LosslessJpeg.Block.Grid
import LosslessJpeg.Block.Magnitude
import LosslessJpeg.Block.Zigzag
import LosslessJpeg.Bytes
import LosslessJpeg.Huffman.Table
import LosslessJpeg.Scan.Layout

set_option autoImplicit false

/-!
What a sequential scan says of the blocks, before any Huffman table is chosen: symbols,
each with the bits that follow its code. Counting symbols and writing them both go over
the same tokens.
-/

namespace LosslessJpeg

structure Token where
  coefficients : CoefficientClass
  table : Fin 4
  symbol : UInt8
  extra : Nat
  extraCount : Nat
  deriving DecidableEq, Repr

namespace Token

def dc (table : Fin 4) (difference : Int) : Token :=
  let magnitude := Magnitude.ofInt difference
  { coefficients := .dc
    table := table
    symbol := UInt8.ofNat magnitude.size
    extra := magnitude.bits
    extraCount := magnitude.size }

def ac (table : Fin 4) (run : Nat) (value : Int16) : Token :=
  let magnitude := Magnitude.ofInt value.toInt
  { coefficients := .ac
    table := table
    symbol := nibbles run magnitude.size
    extra := magnitude.bits
    extraCount := magnitude.size }

def zeroRun (table : Fin 4) : Token :=
  { coefficients := .ac
    table := table
    symbol := 0xF0
    extra := 0
    extraCount := 0 }

def endOfBlock (table : Fin 4) : Token :=
  { coefficients := .ac
    table := table
    symbol := 0
    extra := 0
    extraCount := 0 }

def acTokens (table : Fin 4) (block : Block) : Nat → List (Fin 64) → List Token
  | run, [] => if run = 0 then [] else [endOfBlock table]
  | run, position :: rest =>
      let value := block.get position
      if value = 0 then
        acTokens table block (run + 1) rest
      else
        List.replicate (run / 16) (zeroRun table) ++
          ac table (run % 16) value :: acTokens table block 0 rest

def blockTokens (table : Fin 4) (predictor : Int) (block : Block) : List Token :=
  dc table ((block.get 0).toInt - predictor) :: acTokens table block 0 acPositions

end Token

structure TokenState where
  predictors : Array Int
  tokens : Array Token

namespace TokenState

def addBlock (grids : Array Grid) (tables : List (Fin 4)) (state : TokenState)
    (address : BlockAddress) : TokenState :=
  match grids[address.component]?, tables[address.component]? with
  | some grid, some table =>
      let block := grid.block address.row address.column
      let predictor := state.predictors.getD address.component 0
      { predictors := state.predictors.setIfInBounds address.component (block.get 0).toInt
        tokens := state.tokens ++ Token.blockTokens table predictor block }
  | _, _ => state

def addUnit (grids : Array Grid) (tables : List (Fin 4)) (layout : ScanLayout)
    (state : TokenState) (unit : Nat) : TokenState :=
  (layout.blocks unit).foldl (addBlock grids tables) state

def addUnits (grids : Array Grid) (tables : List (Fin 4)) (layout : ScanLayout) :
    Nat → Nat → TokenState → TokenState
  | 0, _, state => state
  | remaining + 1, unit, state =>
      addUnits grids tables layout remaining (unit + 1)
        (addUnit grids tables layout state unit)

end TokenState

def checkGrids (frame : Frame) (grids : Array Grid) (tables : List (Fin 4)) :
    Except CodecError Unit :=
  if grids.size ≠ frame.components.length ∨ tables.length ≠ grids.size then
    .error (.malformed .componentCount)
  else if (grids.toList.zip frame.components).any fun entry =>
      entry.1.blocksWide < frame.blocksWide entry.2 ||
        entry.1.blocksTall < frame.blocksTall entry.2 then
    .error .invalidDimensions
  else
    .ok ()

/-- The tokens of one scan of all components, each coded with its tables, interleaved by
MCUs even if the component is alone. -/
def scanTokens (frame : Frame) (grids : Array Grid) (tables : List (Fin 4)) :
    Except CodecError (Array Token) := do
  checkGrids frame grids tables
  let layout := ScanLayout.interleaved frame frame.components
  let start : TokenState :=
    { predictors := Array.replicate grids.size 0
      tokens := #[] }
  pure (TokenState.addUnits grids tables layout layout.units 0 start).tokens

end LosslessJpeg
