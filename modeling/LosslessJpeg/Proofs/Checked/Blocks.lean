import LosslessJpeg.Proofs.Checked.Symbols
import LosslessJpeg.Proofs.Scan.BandRefinement
import LosslessJpeg.Scan.Decoder

set_option autoImplicit false

/-!
Decoding what a scan carries of one block, frequency by frequency. The table of a component is
looked up for each block anew. In a refinement scan, an inner loop counts off zeros from one
symbol to the next, and a last loop corrects what an end of band covers.
-/

namespace LosslessJpeg

namespace Checked

structure BufferedBlock where
  reader : BufferedReader
  predictor : Int
  endOfBandRun : Nat
  block : Block

abbrev BlockChecker := CheckedState CodecError BufferedBlock

/-- What the blocks of a scan are decoded with. Each kind of scan has entered the tables that it
makes use of. -/
structure ScanTables where
  kind : ScanKind
  band : ScanBand
  dc : List (Option ArrayDecoder)
  ac : List (Option ArrayDecoder)

namespace BufferedBlock

def ofBits {α : Type} (step : BitChecker α) : BlockChecker α := do
  let state ← get
  let (value, reader) ← lift (step state.reader)
  set { state with reader := reader }
  pure value

def decoderAt (tables : List (Option ArrayDecoder)) (id : Nat) :
    Checked CodecError ArrayDecoder := do
  let entry ← item tables id
  match entry with
  | some decoder => pure decoder
  | none => fail (.huffmanTableId id)

def magnitude (file : List UInt8) (size : Nat) : BlockChecker Int16 :=
  if size = 0 then
    pure 0
  else if size ≤ 15 then do
    let value ← ofBits (BufferedReader.readBits file size)
    lift (covers size 1)
    lift (shifts 32 (size - 1))
    lift (shifts 32 size)
    lift (fitsSigned ((value : Int) - (2 ^ size : Nat)))
    lift (fitsSigned ((value : Int) - (2 ^ size : Nat) + 1))
    pure (extendSign value size)
  else
    lift (fail .undecodable)

def setCoefficient (position : Fin 64) (value : Int16) : BlockChecker Unit := do
  let state ← get
  lift (inside 64 position.val)
  set { state with block := state.block.setIfInBounds position.val value }

def setEndOfBandRun (run : Nat) : BlockChecker Unit := do
  let state ← get
  set { state with endOfBandRun := run }

def dcCoefficient (file : List UInt8) (dc : ArrayDecoder) (low : Nat) : BlockChecker Unit := do
  let size ← ofBits (dc.decode file)
  let difference ← magnitude file size.toNat
  let state ← get
  let value := state.predictor + difference.toInt
  if value < -32768 ∨ 32767 < value then
    lift (fail .undecodable)
  else do
    set { state with predictor := value }
    lift (shifts 32 low)
    setCoefficient 0 (BlockDecoder.scaled value low)

def endOfBand (file : List UInt8) (category : Nat) : BlockChecker Nat := do
  let extra ← if category = 0 then pure 0 else ofBits (BufferedReader.readBits file category)
  lift (shifts 32 category)
  lift (fits 32 (2 ^ category + extra))
  pure (2 ^ category + extra)

def acCoefficients (file : List UInt8) (ac : ArrayDecoder) (spanning : Bool) (last low : Nat)
    (frequency : Nat) : BlockChecker Unit :=
  if _more : frequency ≤ last then do
    let symbol ← ofBits (ac.decode file)
    let run := highNibble symbol
    let size := lowNibble symbol
    if size = 0 then
      if run = 15 then do
        lift (fits 64 (frequency + 16))
        acCoefficients file ac spanning last low (frequency + 16)
      else if 0 < run ∧ !spanning then
        lift (fail .undecodable)
      else do
        let blocks ← endOfBand file run
        lift (covers blocks 1)
        setEndOfBandRun (blocks - 1)
    else do
      lift (fits 64 (frequency + run))
      if last < frequency + run then
        lift (fail .undecodable)
      else do
        let value ← magnitude file size
        let position ← lift (item zigzag (frequency + run))
        lift (shifts 32 low)
        setCoefficient position (BlockDecoder.scaled value.toInt low)
        lift (fits 64 (frequency + run + 1))
        acCoefficients file ac spanning last low (frequency + run + 1)
  else
    pure ()
termination_by last + 1 - frequency

def acBand (file : List UInt8) (tables : ScanTables) (component : ScanComponent)
    (spanning : Bool) (first : Nat) : BlockChecker Unit := do
  let state ← get
  if 0 < state.endOfBandRun then do
    lift (covers state.endOfBandRun 1)
    setEndOfBandRun (state.endOfBandRun - 1)
  else do
    let ac ← lift (decoderAt tables.ac component.acTable)
    acCoefficients file ac spanning tables.band.last tables.band.low first

/-! ### Refinement scans -/

def correctCoefficient (file : List UInt8) (position : Fin 64) (low : Nat) :
    BlockChecker Unit := do
  let correction ← ofBits (BufferedReader.readBit file)
  let state ← get
  let value := (state.block.get position).toInt
  let step := (BlockDecoder.bitValue low).toInt
  if correction ∧ value >>> low % 2 = 0 then
    setCoefficient position
      (clampCoefficient (if 0 ≤ value then value + step else value - step))
  else
    pure ()

def giveValue (position : Fin 64) : Option Int16 → BlockChecker Unit
  | some coefficient => setCoefficient position coefficient
  | none => pure ()

/-- Pass so many zeros from one frequency on, give the next zero its value and tell where it
stands. -/
def passZeros (file : List UInt8) (last low : Nat) (value : Option Int16) (zeros frequency : Nat) :
    BlockChecker { stop : Nat // frequency ≤ stop } :=
  if _more : frequency ≤ last then do
    let position ← lift (item zigzag frequency)
    lift (inside 64 position.val)
    let state ← get
    if state.block.get position ≠ 0 then do
      correctCoefficient file position low
      lift (fits 64 (frequency + 1))
      let stop ← passZeros file last low value zeros (frequency + 1)
      pure ⟨stop.val, Nat.le_of_succ_le stop.property⟩
    else if zeros = 0 then do
      giveValue position value
      pure ⟨frequency, Nat.le_refl _⟩
    else do
      lift (covers zeros 1)
      lift (fits 64 (frequency + 1))
      let stop ← passZeros file last low value (zeros - 1) (frequency + 1)
      pure ⟨stop.val, Nat.le_of_succ_le stop.property⟩
  else
    pure ⟨frequency, Nat.le_refl _⟩
termination_by last + 1 - frequency

def newValue (file : List UInt8) (low size : Nat) : BlockChecker (Option Int16) :=
  if size = 0 then
    pure none
  else if size = 1 then do
    let positive ← ofBits (BufferedReader.readBit file)
    lift (require .overflow (BlockDecoder.bitValue low ≠ -32768))
    pure (some (if positive then BlockDecoder.bitValue low else -BlockDecoder.bitValue low))
  else
    lift (fail .undecodable)

/-- Refine symbol by symbol, up to an end of band or the end of the block. -/
def refineSymbols (file : List UInt8) (ac : ArrayDecoder) (last low : Nat) (frequency : Nat) :
    BlockChecker Nat :=
  if _more : frequency ≤ last then do
    let symbol ← ofBits (ac.decode file)
    let zeros := highNibble symbol
    if lowNibble symbol = 0 ∧ zeros < 15 then do
      let blocks ← endOfBand file zeros
      setEndOfBandRun blocks
      pure frequency
    else do
      let value ← newValue file low (lowNibble symbol)
      let stop ← passZeros file last low value zeros frequency
      lift (fits 64 (stop.val + 1))
      refineSymbols file ac last low (stop.val + 1)
  else
    pure frequency
termination_by last + 1 - frequency

def correctRest (file : List UInt8) (last low : Nat) (frequency : Nat) : BlockChecker Unit :=
  if _more : frequency ≤ last then do
    let position ← lift (item zigzag frequency)
    lift (inside 64 position.val)
    let state ← get
    if state.block.get position ≠ 0 then
      correctCoefficient file position low
    else
      pure ()
    lift (fits 64 (frequency + 1))
    correctRest file last low (frequency + 1)
  else
    pure ()
termination_by last + 1 - frequency

def finishBand (file : List UInt8) (last low : Nat) (frequency : Nat) : BlockChecker Unit := do
  let state ← get
  if 0 < state.endOfBandRun then do
    correctRest file last low frequency
    let state ← get
    lift (covers state.endOfBandRun 1)
    setEndOfBandRun (state.endOfBandRun - 1)
  else
    pure ()

def refineBand (file : List UInt8) (tables : ScanTables) (component : ScanComponent) :
    BlockChecker Unit := do
  lift (shifts 16 tables.band.low)
  let state ← get
  let reached ←
    if state.endOfBandRun = 0 then do
      let ac ← lift (decoderAt tables.ac component.acTable)
      refineSymbols file ac tables.band.last tables.band.low tables.band.first
    else
      pure tables.band.first
  finishBand file tables.band.last tables.band.low reached

def refineDc (file : List UInt8) (low : Nat) : BlockChecker Unit := do
  let positive ← ofBits (BufferedReader.readBit file)
  if positive then do
    lift (shifts 16 low)
    let state ← get
    setCoefficient 0 (state.block.get 0 ||| BlockDecoder.bitValue low)
  else
    pure ()

end BufferedBlock

def decodeBlock (file : List UInt8) (tables : ScanTables) (component : ScanComponent) :
    BlockChecker Unit :=
  match tables.kind with
  | .sequential => do
      let dc ← lift (BufferedBlock.decoderAt tables.dc component.dcTable)
      BufferedBlock.dcCoefficient file dc tables.band.low
      BufferedBlock.acBand file tables component false 1
  | .dcFirst => do
      let dc ← lift (BufferedBlock.decoderAt tables.dc component.dcTable)
      BufferedBlock.dcCoefficient file dc tables.band.low
  | .dcRefinement => BufferedBlock.refineDc file tables.band.low
  | .acFirst => BufferedBlock.acBand file tables component true tables.band.first
  | .acRefinement => BufferedBlock.refineBand file tables component

/-! ### Frequencies of a band -/

private theorem highNibble_le (byte : UInt8) : highNibble byte ≤ 15 := by
  have eight := byte.toNat_lt
  unfold highNibble
  omega

private theorem bandPositions_nil {first last : Nat} (ended : last < first) :
    bandPositions first last = [] := by
  rw [bandPositions, Nat.sub_eq_zero_of_le ended]
  rfl

private theorem bandPositions_cons {first last : Nat} (more : first ≤ last) :
    bandPositions first last = zigzag[first]? :: bandPositions (first + 1) last := by
  have count : last + 1 - first = last + 1 - (first + 1) + 1 := by omega
  rw [bandPositions, count]
  rfl

private theorem drop_bandPositions (count first last : Nat) :
    (bandPositions first last).drop count = bandPositions (first + count) last := by
  have remaining : last + 1 - first - count = last + 1 - (first + count) := by omega
  rw [bandPositions, ← List.map_drop, List.drop_range', Nat.mul_one, remaining]
  rfl

private theorem zigzag_getElem? {frequency last : Nat} (more : frequency ≤ last)
    (inside : last ≤ 63) : ∃ position, zigzag[frequency]? = some position := by
  refine ⟨_, List.getElem?_eq_getElem ?_⟩
  rw [zigzag_length]
  omega

private def valueFrom (ac : HuffmanDecoder) (low : Nat) (spanning : Bool) (size : Nat) :
    List (Option (Fin 64)) → BlockDecoder Unit
  | [] => throw .undecodable
  | target :: rest => do
      let value ← BlockDecoder.magnitude size
      let position ← BlockDecoder.placed target
      BlockDecoder.setCoefficient position (BlockDecoder.scaled value.toInt low)
      BlockDecoder.acCoefficients ac low spanning rest

private theorem acCoefficients_cons (ac : HuffmanDecoder) (low : Nat) (spanning : Bool)
    (first : Option (Fin 64)) (others : List (Option (Fin 64))) :
    BlockDecoder.acCoefficients ac low spanning (first :: others) = (do
      let symbol ← BlockDecoder.symbol ac
      let run := highNibble symbol
      if lowNibble symbol = 0 then
        if run = 15 then
          BlockDecoder.acCoefficients ac low spanning (others.drop 15)
        else if 0 < run ∧ !spanning then
          throw .undecodable
        else do
          let blocks ← BlockDecoder.endOfBand run
          BlockDecoder.setEndOfBandRun (blocks - 1)
      else
        valueFrom ac low spanning (lowNibble symbol) ((first :: others).drop run)) := by
  rw [BlockDecoder.acCoefficients]
  congr 1
  funext symbol
  dsimp only
  congr 1
  split
  · rename_i found
    rw [found, valueFrom]
  · rename_i found
    rw [found, valueFrom]

private def valueOf (low size : Nat) : BlockDecoder (Option Int16) :=
  if size = 0 then
    pure none
  else if size = 1 then do
    let positive ← BlockDecoder.bit
    pure (some (if positive then BlockDecoder.bitValue low else -BlockDecoder.bitValue low))
  else
    throw .undecodable

private theorem refineCoefficients_none (ac : HuffmanDecoder) (low : Nat)
    (target : Option (Fin 64)) (rest : List (Option (Fin 64))) :
    BlockDecoder.refineCoefficients ac low none (target :: rest) = (do
      let symbol ← BlockDecoder.symbol ac
      if lowNibble symbol = 0 ∧ highNibble symbol < 15 then do
        let blocks ← BlockDecoder.endOfBand (highNibble symbol)
        BlockDecoder.setEndOfBandRun blocks
        BlockDecoder.refineCoefficients ac low (some .endOfBand) (target :: rest)
      else do
        let value ← valueOf low (lowNibble symbol)
        BlockDecoder.refineCoefficients ac low (some (.zeros (highNibble symbol) value))
          (target :: rest)) := by
  rw [BlockDecoder.refineCoefficients_asks, BlockDecoder.refinement, bind_assoc]
  congr 1
  funext symbol
  have short := highNibble_le symbol
  unfold valueOf
  dsimp only
  by_cases blank : lowNibble symbol = 0
  · by_cases long : highNibble symbol = 15
    · rw [if_pos blank, if_pos long, if_neg (by omega), if_pos blank, long]
      rfl
    · rw [if_pos blank, if_neg long, if_pos ⟨blank, by omega⟩]
      simp only [bind_assoc, pure_bind]
  · have goesOn : ¬(lowNibble symbol = 0 ∧ highNibble symbol < 15) := fun ends => blank ends.1
    rw [if_neg blank, if_neg goesOn, if_neg blank]
    by_cases one : lowNibble symbol = 1
    · rw [if_pos one, if_pos one]
      simp only [bind_assoc, pure_bind]
    · rw [if_neg one, if_neg one]
      rfl

private theorem bitValue_ne_minimum {low : Nat} (few : low ≤ 13) :
    BlockDecoder.bitValue low ≠ -32768 := by
  have all : ∀ low ≤ 13, BlockDecoder.bitValue low ≠ -32768 := by decide
  exact all low few

private theorem placed_some (position : Fin 64) (state : BlockState) :
    BlockDecoder.placed (some position) state = .ok position state :=
  rfl

namespace BufferedBlock

/-! ### The same steps -/

/-- A block with its buffer stands for one with its reader while an end of band still covers so
many blocks. -/
structure Represents (file : List UInt8) (covered : Nat) (state : BufferedBlock)
    (other : BlockState) : Prop where
  reader : state.reader.Represents file other.reader
  predictor : other.predictor = state.predictor
  run : state.endOfBandRun = covered
  otherRun : other.endOfBandRun = covered
  block : other.block = state.block

variable {file : List UInt8} {covered : Nat} {state : BufferedBlock} {other : BlockState}

private theorem Represents.ofBits {α β : Type} {values : α → β → Prop} {step : BitChecker α}
    {otherStep : BitDecoder β} (represents : Represents file covered state other)
    (follows : FollowsState values (BufferedReader.Represents file) (step state.reader)
      (otherStep other.reader)) :
    FollowsState values (Represents file covered) (ofBits step state)
      (BlockDecoder.ofBits otherStep other) := by
  rw [BufferedBlock.ofBits, run_get]
  unfold BlockDecoder.ofBits
  generalize step state.reader = result at follows
  generalize otherStep other.reader = otherResult at follows
  cases follows with
  | ok same related => exact .ok same { represents with reader := related }
  | failure cause => exact .failure cause _

private theorem Represents.setCoefficient (represents : Represents file covered state other)
    (position : Fin 64) (value : Int16) :
    FollowsState Eq (Represents file covered) (setCoefficient position value state)
      (BlockDecoder.setCoefficient position value other) := by
  rw [BufferedBlock.setCoefficient, run_get, run_lift (inside_of_lt position.isLt)]
  refine .ok rfl { represents with block := ?_ }
  dsimp only
  rw [represents.block, setIfInBounds_val]

private theorem Represents.setEndOfBandRun (represents : Represents file covered state other)
    (changed : Nat) :
    FollowsState Eq (Represents file changed) (setEndOfBandRun changed state)
      (BlockDecoder.setEndOfBandRun changed other) :=
  .ok rfl
    { represents with
      run := rfl
      otherRun := rfl }

/-- The zero behind those that a symbol passes gets the value of this symbol. -/
private theorem giveValue_follows {ac : HuffmanDecoder} {low : Nat} {position : Fin 64}
    (value : Option Int16) {rest : List (Option (Fin 64))}
    {states : BufferedBlock → BlockState → Prop} {next : BlockChecker Unit}
    {otherNext : BlockDecoder Unit} (represents : Represents file covered state other)
    (zero : other.block.get position = 0)
    (later : ∀ after otherAfter, Represents file covered after otherAfter →
      FollowsState Eq states (next after)
        ((BlockDecoder.refineCoefficients ac low none rest >>= fun _ => otherNext) otherAfter)) :
    FollowsState Eq states ((giveValue position value >>= fun _ => next) state)
      ((BlockDecoder.refineCoefficients ac low (some (.zeros 0 value)) (some position :: rest) >>=
        fun _ => otherNext) other) := by
  cases value with
  | none =>
      have passed : BlockDecoder.refineCoefficients ac low (some (.zeros 0 none))
          (some position :: rest) other = BlockDecoder.refineCoefficients ac low none rest other :=
        BlockDecoder.refineCoefficients_of_eq _ zero
      rw [run_bind_congr passed]
      exact later state other represents
  | some coefficient =>
      have passed : BlockDecoder.refineCoefficients ac low (some (.zeros 0 coefficient))
          (some position :: rest) other =
          (do
            BlockDecoder.setCoefficient position coefficient
            BlockDecoder.refineCoefficients ac low none rest) other :=
        BlockDecoder.refineCoefficients_of_eq _ zero
      rw [run_bind_congr passed, bind_assoc]
      refine (represents.setCoefficient position coefficient).bind ?_
      rintro - - after otherAfter - representsAfter
      exact later after otherAfter representsAfter

section Steps

variable (addressable : file.length < 2 ^ 63)
include addressable

private theorem Represents.magnitude (represents : Represents file covered state other)
    (size : Nat) :
    FollowsState Eq (Represents file covered) (magnitude file size state)
      (BlockDecoder.magnitude size other) := by
  unfold BufferedBlock.magnitude BlockDecoder.magnitude
  by_cases none : size = 0
  · rw [if_pos none, if_pos none]
    exact .ok rfl represents
  · rw [if_neg none, if_neg none]
    by_cases short : size ≤ 15
    · have power : 2 ^ size ≤ 2 ^ 15 := Nat.pow_le_pow_right (by decide) short
      rw [if_pos short, if_pos short]
      refine (represents.ofBits (represents.reader.readBits addressable (by omega)
        (by omega))).bind ?_
      rintro value _ after otherAfter ⟨rfl, small⟩ representsAfter
      rw [run_lift (covers_of_le (by omega)), run_lift (shifts_of_lt (by omega)),
        run_lift (shifts_of_lt (by omega)),
        run_lift (fitsSigned_of_bounds (by omega) (by omega)),
        run_lift (fitsSigned_of_bounds (by omega) (by omega))]
      exact .ok rfl representsAfter
    · rw [if_neg short, if_neg short]
      exact .failure _ _

private theorem Represents.endOfBand (represents : Represents file covered state other)
    {category : Nat} (few : category ≤ 14) :
    FollowsState (fun blocks otherBlocks => blocks = otherBlocks ∧ 1 ≤ blocks)
      (Represents file covered) (endOfBand file category state)
      (BlockDecoder.endOfBand category other) := by
  have power : 2 ^ category ≤ 2 ^ 14 := Nat.pow_le_pow_right (by decide) few
  have positive : 0 < 2 ^ category := Nat.two_pow_pos category
  have total {extra : Nat} {after : BufferedBlock} {otherAfter : BlockState}
      (small : extra < 2 ^ 14) (representsAfter : Represents file covered after otherAfter) :
      FollowsState (fun blocks otherBlocks => blocks = otherBlocks ∧ 1 ≤ blocks)
        (Represents file covered)
        ((do
          lift (shifts 32 category)
          lift (fits 32 (2 ^ category + extra))
          pure (2 ^ category + extra) : BlockChecker Nat) after)
        ((pure ((1 <<< category) + extra) : BlockDecoder Nat) otherAfter) := by
    rw [run_lift (shifts_of_lt (by omega)), run_lift (fits_of_lt (by omega))]
    refine .ok ⟨?_, by omega⟩ representsAfter
    rw [Nat.one_shiftLeft]
  unfold BufferedBlock.endOfBand BlockDecoder.endOfBand
  by_cases none : category = 0
  · rw [if_pos none, if_pos none]
    exact total (by decide) represents
  · rw [if_neg none, if_neg none]
    refine (represents.ofBits (represents.reader.readBits addressable (by omega)
      (by omega))).bind ?_
    rintro value _ after otherAfter ⟨rfl, small⟩ representsAfter
    exact total (by omega) representsAfter

private theorem Represents.dcCoefficient (represents : Represents file covered state other)
    {arrays : ArrayDecoder} {dc : HuffmanDecoder} (renders : arrays.Renders dc) {low : Nat}
    (few : low ≤ 13) :
    FollowsState Eq (Represents file covered) (dcCoefficient file arrays low state)
      (BlockDecoder.dcCoefficient dc low other) := by
  rw [BufferedBlock.dcCoefficient, BlockDecoder.dcCoefficient]
  refine (represents.ofBits (renders.decode addressable represents.reader)).bind ?_
  rintro size _ read otherRead rfl representsRead
  refine (representsRead.magnitude addressable size.toNat).bind ?_
  rintro difference _ after otherAfter rfl representsAfter
  rw [run_get, run_bind_of_ok (LosslessJpeg.run_get _), representsAfter.predictor]
  by_cases large : after.predictor + difference.toInt < -32768 ∨
      32767 < after.predictor + difference.toInt
  · rw [if_pos large, if_pos large]
    exact .failure _ _
  · rw [if_neg large, if_neg large, run_set, run_lift (shifts_of_lt (by omega))]
    refine .ok rfl
      { representsAfter with
        predictor := rfl
        block := ?_ }
    dsimp only
    rw [representsAfter.block]
    exact (setIfInBounds_val _ 0 _).symm

/-- Some end of band covers the blocks that follow. -/
def Covers (file : List UInt8) (state : BufferedBlock) (other : BlockState) : Prop :=
  ∃ covered, Represents file covered state other

private theorem acCoefficients_follows {arrays : ArrayDecoder} {ac : HuffmanDecoder}
    (renders : arrays.Renders ac) {last low : Nat} (inside : last ≤ 63) (few : low ≤ 13)
    (spanning : Bool) (frequency : Nat) (represents : Represents file covered state other) :
    FollowsState Eq (Covers file) (acCoefficients file arrays spanning last low frequency state)
      (BlockDecoder.acCoefficients ac low spanning (bandPositions frequency last) other) := by
  -- The frequency rises by what a symbol says, so the induction is on how many are left.
  induction remaining : last + 1 - frequency using Nat.strong_induction_on
    generalizing frequency state other with
  | _ remaining inductionHypothesis =>
  rw [acCoefficients]
  by_cases more : frequency ≤ last
  · rw [dif_pos more, bandPositions_cons more, acCoefficients_cons]
    refine (represents.ofBits (renders.decode addressable represents.reader)).bind ?_
    rintro symbol _ read otherRead rfl representsRead
    have short := highNibble_le symbol
    have dropped (count : Nat) :
        (zigzag[frequency]? :: bandPositions (frequency + 1) last).drop count =
          bandPositions (frequency + count) last := by
      rw [← bandPositions_cons more, drop_bandPositions]
    dsimp only
    by_cases blank : lowNibble symbol = 0
    · rw [if_pos blank, if_pos blank]
      by_cases long : highNibble symbol = 15
      · rw [if_pos long, if_pos long, run_lift (fits_of_lt (by omega))]
        have behind := dropped 16
        rw [List.drop_succ_cons] at behind
        rw [behind]
        exact inductionHypothesis _ (by omega) _ representsRead rfl
      · rw [if_neg long, if_neg long]
        split
        · exact .failure _ _
        · refine (representsRead.endOfBand addressable (by omega)).bind ?_
          rintro blocks _ after otherAfter ⟨rfl, positive⟩ representsAfter
          rw [run_lift (covers_of_le positive)]
          exact (representsAfter.setEndOfBandRun _).mono fun _ _ related => ⟨_, related⟩
    · rw [if_neg blank, if_neg blank, run_lift (fits_of_lt (by omega))]
      by_cases behind : last < frequency + highNibble symbol
      · rw [if_pos behind]
        rw [dropped, bandPositions_nil behind]
        exact .failure _ _
      · have within := Nat.le_of_not_lt behind
        obtain ⟨position, placed⟩ := zigzag_getElem? within inside
        rw [if_neg behind, dropped, bandPositions_cons within, placed, valueFrom]
        refine (representsRead.magnitude addressable (lowNibble symbol)).bind ?_
        rintro value _ valued otherValued rfl representsValued
        rw [run_lift (item_of_getElem? placed), run_lift (shifts_of_lt (by omega))]
        rw [run_bind_of_ok (placed_some position otherValued)]
        refine (representsValued.setCoefficient position _).bind ?_
        rintro - - after otherAfter - representsAfter
        rw [run_lift (fits_of_lt (by omega))]
        exact inductionHypothesis _ (by omega) _ representsAfter rfl
  · rw [dif_neg more, bandPositions_nil (Nat.lt_of_not_le more), BlockDecoder.acCoefficients]
    exact .ok rfl ⟨covered, represents⟩

private theorem Represents.correctCoefficient (represents : Represents file covered state other)
    (position : Fin 64) (low : Nat) :
    FollowsState Eq (Represents file covered) (correctCoefficient file position low state)
      (BlockDecoder.correctCoefficient position low other) := by
  rw [BufferedBlock.correctCoefficient, BlockDecoder.correctCoefficient]
  refine (represents.ofBits (represents.reader.readBit addressable)).bind ?_
  rintro correction _ after otherAfter rfl representsAfter
  rw [run_get, run_bind_of_ok (LosslessJpeg.run_get _), representsAfter.block]
  split
  · exact representsAfter.setCoefficient _ _
  · exact .ok rfl representsAfter

private theorem passZeros_follows {ac : HuffmanDecoder} {last low : Nat} (inside : last ≤ 63)
    (value : Option Int16) (zeros : Nat) {states : BufferedBlock → BlockState → Prop}
    (next : Nat → BlockChecker Unit) {otherNext : BlockDecoder Unit} (frequency : Nat)
    (within : frequency ≤ last + 1) (represents : Represents file covered state other)
    (later : ∀ stop after otherAfter, frequency ≤ stop → stop ≤ last + 1 →
      Represents file covered after otherAfter →
        FollowsState Eq states (next stop after)
          ((BlockDecoder.refineCoefficients ac low none (bandPositions (stop + 1) last) >>=
            fun _ => otherNext) otherAfter)) :
    FollowsState Eq states
      ((passZeros file last low value zeros frequency >>= fun stop => next stop.val) state)
      ((BlockDecoder.refineCoefficients ac low (some (.zeros zeros value))
        (bandPositions frequency last) >>= fun _ => otherNext) other) := by
  -- What comes after the zeros is a parameter, since the loop over symbols goes on from here.
  induction remaining : last + 1 - frequency using Nat.strong_induction_on
    generalizing zeros frequency state other with
  | _ remaining inductionHypothesis =>
  rw [passZeros]
  by_cases more : frequency ≤ last
  · obtain ⟨position, placed⟩ := zigzag_getElem? more inside
    have placedHere : bandPositions frequency last =
        some position :: bandPositions (frequency + 1) last := by
      rw [bandPositions_cons more, placed]
    rw [dif_pos more, placedHere, bind_assoc, run_lift (item_of_getElem? placed), bind_assoc,
      run_lift (inside_of_lt position.isLt), bind_assoc, run_get]
    have laterFrom : ∀ stop after otherAfter, frequency + 1 ≤ stop → stop ≤ last + 1 →
        Represents file covered after otherAfter → FollowsState Eq states (next stop after)
          ((BlockDecoder.refineCoefficients ac low none (bandPositions (stop + 1) last) >>=
            fun _ => otherNext) otherAfter) :=
      fun stop after otherAfter reached => later stop after otherAfter (Nat.le_of_succ_le reached)
    by_cases known : state.block.get position ≠ 0
    · rw [if_pos known, run_bind_congr (BlockDecoder.refineCoefficients_of_ne _
        (represents.block ▸ known))]
      simp only [bind_assoc, pure_bind]
      refine (represents.correctCoefficient addressable position low).bind ?_
      rintro - - after otherAfter - representsAfter
      rw [run_lift (fits_of_lt (by omega))]
      exact inductionHypothesis _ (by omega) zeros _ (by omega) representsAfter laterFrom rfl
    · have zero : other.block.get position = 0 := represents.block ▸ not_not.mp known
      rw [if_neg known]
      cases zeros with
      | zero =>
          rw [if_pos rfl]
          simp only [bind_assoc, pure_bind]
          exact giveValue_follows value represents zero fun after otherAfter representsAfter =>
            later frequency after otherAfter (Nat.le_refl _) within representsAfter
      | succ zeros =>
          have passed : BlockDecoder.refineCoefficients ac low (some (.zeros (zeros + 1) value))
              (some position :: bandPositions (frequency + 1) last) other =
              BlockDecoder.refineCoefficients ac low (some (.zeros zeros value))
                (bandPositions (frequency + 1) last) other :=
            BlockDecoder.refineCoefficients_of_eq _ zero
          rw [if_neg (Nat.succ_ne_zero zeros), run_bind_congr passed]
          simp only [bind_assoc, pure_bind]
          rw [run_lift (covers_of_le (by omega)), run_lift (fits_of_lt (by omega))]
          exact inductionHypothesis _ (by omega) zeros _ (by omega) represents laterFrom rfl
  · rw [dif_neg more, bandPositions_nil (Nat.lt_of_not_le more)]
    have ended := later frequency state other (Nat.le_refl _) within represents
    rw [bandPositions_nil (by omega)] at ended
    exact ended

private theorem Represents.newValue (represents : Represents file covered state other)
    {low : Nat} (few : low ≤ 13) (size : Nat) :
    FollowsState Eq (Represents file covered) (newValue file low size state)
      (valueOf low size other) := by
  unfold BufferedBlock.newValue valueOf
  split
  · exact .ok rfl represents
  · split
    · refine (represents.ofBits (represents.reader.readBit addressable)).bind ?_
      rintro positive _ after otherAfter rfl representsAfter
      rw [run_lift (require_of_holds (bitValue_ne_minimum few))]
      exact .ok rfl representsAfter
    · exact .failure _ _

private theorem correctRest_follows {ac : HuffmanDecoder} {last low : Nat} (inside : last ≤ 63)
    (frequency : Nat) (represents : Represents file covered state other) :
    FollowsState Eq (Represents file covered) (correctRest file last low frequency state)
      (BlockDecoder.refineCoefficients ac low (some .endOfBand) (bandPositions frequency last)
        other) := by
  induction remaining : last + 1 - frequency using Nat.strong_induction_on
    generalizing frequency state other with
  | _ remaining inductionHypothesis =>
  rw [correctRest]
  by_cases more : frequency ≤ last
  · obtain ⟨position, placed⟩ := zigzag_getElem? more inside
    rw [dif_pos more, bandPositions_cons more, placed, run_lift (item_of_getElem? placed),
      run_lift (inside_of_lt position.isLt), run_get]
    by_cases known : state.block.get position ≠ 0
    · rw [if_pos known, BlockDecoder.refineCoefficients_of_ne _ (represents.block ▸ known)]
      refine (represents.correctCoefficient addressable position low).bind ?_
      rintro - - after otherAfter - representsAfter
      beta_reduce
      rw [run_lift (fits_of_lt (by omega))]
      exact inductionHypothesis _ (by omega) _ representsAfter rfl
    · have zero : other.block.get position = 0 := represents.block ▸ not_not.mp known
      rw [if_neg known, BlockDecoder.refineCoefficients_of_eq _ zero]
      beta_reduce
      rw [run_lift (fits_of_lt (by omega))]
      exact inductionHypothesis _ (by omega) _ represents rfl
  · rw [dif_neg more, bandPositions_nil (Nat.lt_of_not_le more)]
    exact .ok rfl represents

private def countOff : BlockDecoder Unit :=
  modify fun state => { state with endOfBandRun := state.endOfBandRun - 1 }

private theorem finishBand_follows {ac : HuffmanDecoder} {last low : Nat} (inside : last ≤ 63)
    (frequency : Nat) (represents : Represents file covered state other) (goesOn : 1 ≤ covered) :
    FollowsState Eq (Covers file) (finishBand file last low frequency state)
      ((BlockDecoder.refineCoefficients ac low (some .endOfBand) (bandPositions frequency last) >>=
        fun _ => countOff) other) := by
  rw [finishBand, run_get, if_pos (by rw [represents.run]; exact goesOn)]
  refine (correctRest_follows addressable inside frequency represents).bind ?_
  rintro - - after otherAfter - representsAfter
  rw [run_get, run_lift (covers_of_le (by rw [representsAfter.run]; exact goesOn))]
  exact .ok rfl ⟨covered - 1,
    { representsAfter with
      run := by rw [← representsAfter.run]
      otherRun := by rw [← representsAfter.otherRun] }⟩

private theorem refineSymbols_follows {arrays : ArrayDecoder} {ac : HuffmanDecoder}
    (renders : arrays.Renders ac) {last low : Nat} (inside : last ≤ 63) (few : low ≤ 13)
    (frequency : Nat) (represents : Represents file 0 state other) :
    FollowsState Eq (Covers file)
      ((refineSymbols file arrays last low frequency >>= finishBand file last low) state)
      ((BlockDecoder.refineCoefficients ac low none (bandPositions frequency last) >>=
        fun _ => countOff) other) := by
  induction remaining : last + 1 - frequency using Nat.strong_induction_on
    generalizing frequency state other with
  | _ remaining inductionHypothesis =>
  rw [refineSymbols]
  by_cases more : frequency ≤ last
  · rw [dif_pos more, bandPositions_cons more, refineCoefficients_none, ← bandPositions_cons more,
      bind_assoc, bind_assoc]
    refine (represents.ofBits (renders.decode addressable represents.reader)).bind ?_
    rintro symbol _ read otherRead rfl representsRead
    have short := highNibble_le symbol
    dsimp only
    -- An end of band leaves this loop for the one that only corrects.
    by_cases ends : lowNibble symbol = 0 ∧ highNibble symbol < 15
    · rw [if_pos ends, if_pos ends]
      simp only [bind_assoc, pure_bind]
      refine (representsRead.endOfBand addressable (by omega)).bind ?_
      rintro blocks _ told otherTold ⟨rfl, positive⟩ representsTold
      refine (representsTold.setEndOfBandRun blocks).bind ?_
      rintro - - after otherAfter - representsAfter
      exact finishBand_follows addressable inside frequency representsAfter positive
    · rw [if_neg ends, if_neg ends]
      simp only [bind_assoc]
      refine (representsRead.newValue addressable few (lowNibble symbol)).bind ?_
      rintro value _ valued otherValued rfl representsValued
      refine passZeros_follows addressable inside value (highNibble symbol)
        (fun stop => lift (fits 64 (stop + 1)) >>= fun _ =>
          refineSymbols file arrays last low (stop + 1) >>= finishBand file last low)
        frequency (by omega) representsValued
        fun stop after otherAfter reached within representsAfter => ?_
      rw [run_lift (fits_of_lt (by omega))]
      exact inductionHypothesis _ (by omega) (stop + 1) representsAfter rfl
  · rw [dif_neg more, bandPositions_nil (Nat.lt_of_not_le more), pure_bind, finishBand, run_get,
      if_neg (by rw [represents.run]; exact Nat.lt_irrefl 0)]
    exact .ok rfl ⟨0,
      { represents with
        otherRun := by
          dsimp only
          rw [represents.otherRun] }⟩

private theorem Represents.refineDc (represents : Represents file covered state other)
    {low : Nat} (few : low ≤ 13) :
    FollowsState Eq (Represents file covered) (refineDc file low state)
      (BlockDecoder.refineDc low other) := by
  rw [BufferedBlock.refineDc, BlockDecoder.refineDc]
  refine (represents.ofBits (represents.reader.readBit addressable)).bind ?_
  rintro positive _ after otherAfter rfl representsAfter
  cases positive with
  | false => exact .ok rfl representsAfter
  | true =>
      rw [if_pos rfl, if_pos rfl, run_lift (shifts_of_lt (by omega)), run_get]
      refine .ok rfl { representsAfter with block := ?_ }
      dsimp only
      rw [representsAfter.block]
      exact (setIfInBounds_val _ 0 _).symm

section Tables

variable {tables : ScanTables} {component : ScanComponent} {ac : HuffmanDecoder}

/-- The arrays of a decoder have been entered in its place. -/
def Entered (arrays : List (Option ArrayDecoder)) (id : Nat) (decoder : HuffmanDecoder) : Prop :=
  ∃ entry, arrays[id]? = some (some entry) ∧ entry.Renders decoder

omit addressable in
private theorem decoderAt_of_entered {arrays : List (Option ArrayDecoder)} {id : Nat}
    {decoder : HuffmanDecoder} (entered : Entered arrays id decoder) :
    ∃ entry, decoderAt arrays id = .ok entry ∧ entry.Renders decoder := by
  obtain ⟨entry, there, renders⟩ := entered
  refine ⟨entry, ?_, renders⟩
  rw [decoderAt, bind_of_ok (item_of_getElem? there)]
  rfl

private theorem acBand_follows (entered : Entered tables.ac component.acTable ac)
    (inside : tables.band.last ≤ 63) (few : tables.band.low ≤ 13) (spanning : Bool) (first : Nat)
    (represents : Represents file covered state other) :
    FollowsState Eq (Covers file) (acBand file tables component spanning first state)
      (BlockDecoder.acBand ac tables.band.low spanning (bandPositions first tables.band.last)
        other) := by
  obtain ⟨arrays, found, renders⟩ := decoderAt_of_entered entered
  rw [acBand, BlockDecoder.acBand, run_get, run_bind_of_ok (LosslessJpeg.run_get _),
    represents.run, represents.otherRun]
  by_cases goesOn : 0 < covered
  · rw [if_pos goesOn, if_pos goesOn, run_lift (covers_of_le goesOn)]
    exact (represents.setEndOfBandRun _).mono fun _ _ related => ⟨_, related⟩
  · rw [if_neg goesOn, if_neg goesOn, run_lift found]
    exact acCoefficients_follows addressable renders inside few spanning first represents

private theorem refineBand_follows (entered : Entered tables.ac component.acTable ac)
    (inside : tables.band.last ≤ 63) (few : tables.band.low ≤ 13)
    (represents : Represents file covered state other) :
    FollowsState Eq (Covers file) (refineBand file tables component state)
      (BlockDecoder.refineBand ac tables.band.low tables.band.positions other) := by
  obtain ⟨arrays, found, renders⟩ := decoderAt_of_entered entered
  rw [refineBand, BlockDecoder.refineBand, run_lift (shifts_of_lt (by omega)), run_get,
    run_bind_of_ok (LosslessJpeg.run_get _), represents.run, represents.otherRun]
  cases covered with
  | zero =>
      rw [if_pos rfl, if_neg (Nat.lt_irrefl 0), run_lift found]
      exact refineSymbols_follows addressable renders inside few tables.band.first represents
  | succ blocks =>
      rw [if_neg (Nat.succ_ne_zero blocks), if_pos (Nat.succ_pos blocks)]
      exact finishBand_follows addressable inside tables.band.first represents
        (Nat.succ_pos blocks)

end Tables

end Steps

end BufferedBlock

open BufferedBlock (Entered)

/-- The tables are those of a coding of a component. -/
inductive ScanTables.Serves (tables : ScanTables) (component : ScanComponent) : BlockCoding → Prop
  | sequential {dc ac : HuffmanDecoder} (kind : tables.kind = .sequential)
      (whole : tables.band = ScanBand.whole) (hasDc : Entered tables.dc component.dcTable dc)
      (hasAc : Entered tables.ac component.acTable ac) :
      Serves tables component (.sequential dc ac)
  | dcFirst {dc : HuffmanDecoder} (kind : tables.kind = .dcFirst)
      (hasDc : Entered tables.dc component.dcTable dc) :
      Serves tables component (.dcFirst dc tables.band.low)
  | dcRefinement (kind : tables.kind = .dcRefinement) :
      Serves tables component (.dcRefinement tables.band.low)
  | acFirst {ac : HuffmanDecoder} (kind : tables.kind = .acFirst)
      (hasAc : Entered tables.ac component.acTable ac) :
      Serves tables component (.acFirst ac tables.band.positions tables.band.low)
  | acRefinement {ac : HuffmanDecoder} (kind : tables.kind = .acRefinement)
      (hasAc : Entered tables.ac component.acTable ac) :
      Serves tables component (.acRefinement ac tables.band.positions tables.band.low)

/-- Decoding a block frequency by frequency comes to no fault and does what its coding does. -/
theorem decodeBlock_follows {file : List UInt8} (addressable : file.length < 2 ^ 63)
    {tables : ScanTables} (inside : tables.band.last ≤ 63) (few : tables.band.low ≤ 13)
    {component : ScanComponent} {coding : BlockCoding} (serves : tables.Serves component coding)
    {covered : Nat} {state : BufferedBlock} {other : BlockState}
    (represents : state.Represents file covered other) :
    FollowsState Eq (BufferedBlock.Covers file) (decodeBlock file tables component state)
      (coding.decode other) := by
  unfold decodeBlock
  -- Each kind of scan makes use of the tables that have been entered for it, and of no others.
  cases serves with
  | @sequential dc ac kind whole hasDc hasAc =>
      obtain ⟨arrays, found, renders⟩ := BufferedBlock.decoderAt_of_entered hasDc
      rw [kind]
      dsimp only
      rw [run_lift found, BlockCoding.decode]
      have low : tables.band.low = 0 := by rw [whole]; rfl
      have last : tables.band.last = 63 := by rw [whole]; rfl
      have start := represents.dcCoefficient addressable renders few
      rw [low] at start ⊢
      refine start.bind ?_
      rintro - - after otherAfter - representsAfter
      have band := BufferedBlock.acBand_follows addressable hasAc inside few false 1
        representsAfter
      rw [low, last] at band
      exact band
  | @dcFirst dc kind hasDc =>
      obtain ⟨arrays, found, renders⟩ := BufferedBlock.decoderAt_of_entered hasDc
      rw [kind]
      dsimp only
      rw [run_lift found]
      exact (represents.dcCoefficient addressable renders few).mono fun _ _ related => ⟨_, related⟩
  | dcRefinement kind =>
      rw [kind]
      exact (represents.refineDc addressable few).mono fun _ _ related => ⟨_, related⟩
  | acFirst kind hasAc =>
      rw [kind]
      exact BufferedBlock.acBand_follows addressable hasAc inside few true tables.band.first
        represents
  | acRefinement kind hasAc =>
      rw [kind]
      exact BufferedBlock.refineBand_follows addressable hasAc inside few represents

end Checked

end LosslessJpeg
