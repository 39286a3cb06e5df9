import LosslessJpeg.Block.Basic
import LosslessJpeg.Block.Magnitude
import LosslessJpeg.Block.Zigzag
import LosslessJpeg.Huffman.Decoder

set_option autoImplicit false

/-!
Decoding what one scan carries of one block. A sequential scan carries a whole block. A
progressive scan carries either the DC coefficient or a band of AC coefficients, at first
without their lowest bits, later one more bit at a time.
-/

namespace LosslessJpeg

structure BlockState where
  reader : BitReader
  predictor : Int
  /-- How many blocks, from this one on, have nothing more in their band. -/
  endOfBandRun : Nat
  block : Block

abbrev BlockDecoder := EStateM CodecError BlockState

inductive BlockCoding
  | sequential (dc ac : HuffmanDecoder)
  | dcFirst (dc : HuffmanDecoder) (low : Nat)
  | dcRefinement (low : Nat)
  | acFirst (ac : HuffmanDecoder) (positions : List (Option (Fin 64))) (low : Nat)
  | acRefinement (ac : HuffmanDecoder) (positions : List (Option (Fin 64))) (low : Nat)

namespace BlockDecoder

def ofBits {α : Type} (step : BitDecoder α) : BlockDecoder α := fun state =>
  match step state.reader with
  | .ok value reader => .ok value { state with reader := reader }
  | .error failure reader => .error failure { state with reader := reader }

def symbol (decoder : HuffmanDecoder) : BlockDecoder UInt8 :=
  ofBits decoder.decode

def bits (count : Nat) : BlockDecoder Nat :=
  ofBits (BitReader.readBits count)

def bit : BlockDecoder Bool :=
  ofBits BitReader.readBit

def magnitude (size : Nat) : BlockDecoder Int16 :=
  if size = 0 then
    pure 0
  else if size ≤ 15 then do
    let value ← bits size
    pure (extendSign value size)
  else
    throw .undecodable

def placed : Option (Fin 64) → BlockDecoder (Fin 64)
  | some position => pure position
  | none => throw .undecodable

def setCoefficient (position : Fin 64) (value : Int16) : BlockDecoder Unit :=
  modify fun state => { state with block := state.block.set position.val value }

def setEndOfBandRun (run : Nat) : BlockDecoder Unit :=
  modify fun state => { state with endOfBandRun := run }

/-- Scale a coefficient up by the bits that a scan leaves out, in numbers of 32 bits. -/
def scaled (value : Int) (low : Nat) : Int16 :=
  clampCoefficient ((value * (1 <<< low : Nat)).bmod (1 <<< 32))

def bitValue (low : Nat) : Int16 :=
  Int16.ofInt (1 <<< low : Nat)

def dcCoefficient (dc : HuffmanDecoder) (low : Nat) : BlockDecoder Unit := do
  let size ← symbol dc
  let difference ← magnitude size.toNat
  let state ← get
  let value := state.predictor + difference.toInt
  if value < -32768 ∨ 32767 < value then
    throw .undecodable
  else
    modify fun state =>
      { state with
        predictor := value
        block := state.block.set 0 (scaled value low) }

def endOfBand (category : Nat) : BlockDecoder Nat := do
  let extra ← if category = 0 then pure 0 else bits category
  pure ((1 <<< category) + extra)

/-- The AC coefficients at the given positions. Each symbol tells how many zeros come
before the next value, and the size of this value. Only a progressive scan has ends of
band that cover several blocks. -/
def acCoefficients (ac : HuffmanDecoder) (low : Nat) (spanning : Bool)
    (positions : List (Option (Fin 64))) : BlockDecoder Unit :=
  match positions with
  | [] => pure ()
  | first :: others => do
      let symbol ← symbol ac
      let run := highNibble symbol
      let size := lowNibble symbol
      if size = 0 then
        if run = 15 then
          -- Sixteen zeros, this one included, even if the band has fewer left.
          acCoefficients ac low spanning (others.drop 15)
        else if 0 < run ∧ !spanning then
          throw .undecodable
        else do
          let blocks ← endOfBand run
          setEndOfBandRun (blocks - 1)
      else
        match _ : (first :: others).drop run with
        | [] => throw .undecodable
        | target :: rest => do
            let value ← magnitude size
            let position ← placed target
            setCoefficient position (scaled value.toInt low)
            acCoefficients ac low spanning rest
termination_by positions.length
decreasing_by
  · simp only [List.length_drop, List.length_cons]
    omega
  · rename_i found
    have length := congrArg List.length found
    simp only [List.length_drop, List.length_cons] at length ⊢
    omega

def acBand (ac : HuffmanDecoder) (low : Nat) (spanning : Bool)
    (positions : List (Option (Fin 64))) : BlockDecoder Unit := do
  let state ← get
  if 0 < state.endOfBandRun then
    setEndOfBandRun (state.endOfBandRun - 1)
  else
    acCoefficients ac low spanning positions

def correctCoefficient (position : Fin 64) (low : Nat) : BlockDecoder Unit := do
  let correction ← bit
  let state ← get
  let value := (state.block.get position).toInt
  let step := (bitValue low).toInt
  if correction ∧ value >>> low % 2 = 0 then
    setCoefficient position
      (clampCoefficient (if 0 ≤ value then value + step else value - step))

inductive Refinement
  /-- So many coefficients stay zero, and the next zero becomes `value`, or stays. -/
  | zeros (count : Nat) (value : Option Int16)
  | endOfBand
  deriving DecidableEq, Repr

def refinement (ac : HuffmanDecoder) (low : Nat) : BlockDecoder Refinement := do
  let symbol ← symbol ac
  let run := highNibble symbol
  let size := lowNibble symbol
  if size = 0 then
    if run = 15 then
      pure (.zeros 15 none)
    else do
      let blocks ← endOfBand run
      setEndOfBandRun blocks
      pure .endOfBand
  else if size = 1 then do
    let positive ← bit
    pure (.zeros run (some (if positive then bitValue low else -bitValue low)))
  else
    throw .undecodable

/-- Walk over the positions of a band. Coefficients that are not zero are corrected on the
way; zeros are counted off as the last symbol says, and then the next symbol follows. -/
def refineCoefficients (ac : HuffmanDecoder) (low : Nat) :
    Option Refinement → List (Option (Fin 64)) → BlockDecoder Unit
  | _, [] => pure ()
  | pending, target :: rest => do
      let current ← match pending with
        | some current => pure current
        | none => refinement ac low
      -- The symbol is read first, so a band that names no position fails behind it.
      let position ← placed target
      let state ← get
      if state.block.get position ≠ 0 then do
        correctCoefficient position low
        refineCoefficients ac low (some current) rest
      else
        match current with
        | .endOfBand => refineCoefficients ac low (some .endOfBand) rest
        | .zeros (count + 1) value =>
            refineCoefficients ac low (some (.zeros count value)) rest
        | .zeros 0 value => do
            match value with
            | some coefficient => setCoefficient position coefficient
            | none => pure ()
            refineCoefficients ac low none rest

def refineBand (ac : HuffmanDecoder) (low : Nat) (positions : List (Option (Fin 64))) :
    BlockDecoder Unit := do
  let state ← get
  refineCoefficients ac low (if 0 < state.endOfBandRun then some .endOfBand else none) positions
  modify fun state => { state with endOfBandRun := state.endOfBandRun - 1 }

def refineDc (low : Nat) : BlockDecoder Unit := do
  let set ← bit
  if set then
    modify fun state =>
      { state with
        block := state.block.set 0 (state.block.get 0 ||| bitValue low) }

end BlockDecoder

def BlockCoding.decode : BlockCoding → BlockDecoder Unit
  | .sequential dc ac => do
      BlockDecoder.dcCoefficient dc 0
      BlockDecoder.acBand ac 0 false (bandPositions 1 63)
  | .dcFirst dc low => BlockDecoder.dcCoefficient dc low
  | .dcRefinement low => BlockDecoder.refineDc low
  | .acFirst ac positions low => BlockDecoder.acBand ac low true positions
  | .acRefinement ac positions low => BlockDecoder.refineBand ac low positions

end LosslessJpeg
