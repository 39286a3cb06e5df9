import LosslessJpeg.Proofs.Scan.BitPlanes
import LosslessJpeg.Proofs.Scan.PlaneScans

set_option autoImplicit false

/-!
The DC coefficients of progressive scans. A first scan carries them without their lowest bits,
as differences; each scan after it carries one bit more of every block. Decoding all of these
scans gives the coefficients back.
-/

namespace LosslessJpeg

open BitReader (Supplies)

def dcDifferences (coded : BlockAddress → Int) :
    Array Int → List BlockAddress → List (Nat × Int)
  | _, [] => []
  | predictors, address :: rest =>
      (address.component, coded address - predictors.getD address.component 0) ::
        dcDifferences coded (predictors.setIfInBounds address.component (coded address)) rest

/-- What a first scan codes of a block. -/
def shiftedDc (selected : List ScanPart) (value : BlockAddress → Int16) (low : Nat)
    (address : BlockAddress) : Int :=
  (value (placed selected address)).toInt >>> low

def firstDifferences (frame : Frame) (selected : List ScanPart) (value : BlockAddress → Int16)
    (low : Nat) : List (Nat × Int) :=
  dcDifferences (shiftedDc selected value low) (Array.replicate selected.length 0)
    (scanOrder frame selected)

def dcToken (selected : List ScanPart) (entry : Nat × Int) : Token :=
  Token.dc (((selected[entry.1]?).map (·.dcTable)).getD 0) entry.2

/-- The first scan leaves out the lowest `top` bits; each scan after it carries bit `low` of the
two's complement of every coefficient. -/
def dcPieces (frame : Frame) (selected : List ScanPart) (value : BlockAddress → Int16)
    (top low : Nat) : List ScanPiece :=
  if low = top then
    ((firstDifferences frame selected value top).map (dcToken selected)).map ScanPiece.token
  else
    ((covered frame selected).map fun address => bitOf (value address) low).map ScanPiece.bit

/-- A block of which nothing but the DC coefficient is known, without its lowest bits. -/
def dcPlane (value : BlockAddress → Int16) (low : Nat) (address : BlockAddress) : Block :=
  Block.zero.setIfInBounds 0 (highPart (value address) low)

theorem dcPlane_eq (value : BlockAddress → Int16) (low : Nat) (address : BlockAddress) :
    dcPlane value low address =
      Block.zero.set 0 (highPart (value address) low) (Nat.zero_lt_succ 63) :=
  setIfInBounds_val Block.zero 0 (highPart (value address) low)

namespace BlockDecoder

variable {encoder : ScanEncoder} {table : Fin 4} {dc : HuffmanDecoder} {closing : Closing}
  {more : List Bool} {low : Nat}

theorem dcCoefficient_shifted (readWith : encoder.ReadWith .dc table dc) (few : low < 16)
    (state : BlockState) (value : Int16)
    (small : (value.toInt >>> low - state.predictor).natAbs ≤ 32767)
    (encodes : encoder.Encodes (Token.dc table (value.toInt >>> low - state.predictor)))
    (supplies : Supplies closing state.reader
      (encoder.tokenBits (Token.dc table (value.toInt >>> low - state.predictor)) ++ more)) :
    ∃ left, dcCoefficient dc low state = .ok ()
        { state with
          reader := left
          predictor := value.toInt >>> low
          block := state.block.set 0 (highPart value low) (Nat.zero_lt_succ 63) } ∧
      Supplies closing left more := by
  obtain ⟨left, suppliesLeft, decoded⟩ :=
    dcCoefficient_token readWith low state _ encodes supplies
  have exact := (readBack_eq_iff _).mpr small
  have inRange := shiftRight_inRange value low
  have total : state.predictor + readBack (value.toInt >>> low - state.predictor) =
      value.toInt >>> low := by
    omega
  refine ⟨left, ?_, suppliesLeft⟩
  rw [decoded, total, if_neg (by omega), scaled_shiftRight value few]

theorem refineDc_bit (low : Nat) (state : BlockState) {set : Bool}
    (supplies : Supplies closing state.reader (set :: more)) :
    ∃ left, refineDc low state = .ok ()
        { state with
          reader := left
          block :=
            if set then
              state.block.set 0 (state.block.get 0 ||| bitValue low) (Nat.zero_lt_succ 63)
            else state.block } ∧
      Supplies closing left more := by
  obtain ⟨left, read, suppliesLeft⟩ := bit_of_supplies state supplies
  refine ⟨left, ?_, suppliesLeft⟩
  unfold refineDc
  rw [run_bind_of_ok read]
  cases set <;> rfl

end BlockDecoder

/-- One more bit makes the next plane of the plane before. A block that occurs twice in a scan is
in the next plane already, and stays there. -/
theorem dcPlane_refined {value : BlockAddress → Int16} {low : Nat} {address : BlockAddress}
    {block : Block} (plane : block = dcPlane value (low + 1) address ∨
      block = dcPlane value low address) :
    (if bitOf (value address) low then
        block.set 0 (block.get 0 ||| BlockDecoder.bitValue low) (Nat.zero_lt_succ 63)
      else block) = dcPlane value low address := by
  have get_first : ∀ coefficient : Int16, (Block.zero.set 0 coefficient).get 0 = coefficient :=
    fun coefficient => (get_set Block.zero 0 0 coefficient).trans (if_pos rfl)
  cases set : bitOf (value address) low with
  | false =>
      rcases plane with before | already
      · rw [before, dcPlane_eq, dcPlane_eq, highPart_unset set, if_neg Bool.false_ne_true]
      · exact already
  | true =>
      rw [if_pos rfl]
      rcases plane with before | already
      · rw [before, dcPlane_eq, dcPlane_eq, get_first, highPart_refined set, Vector.set_set]
      · rw [already, dcPlane_eq, get_first, highPart_refinedAgain set, Vector.set_set]

/-! ### One scan -/

namespace Scan

variable {frame : Frame} {selected : List ScanPart} {value : BlockAddress → Int16}
  {slots : HuffmanSlots} {top low : Nat} {closing : Closing} {bytes : List UInt8}

/-- The reader supplies the differences of the blocks left, and all of them can be coded. -/
private structure AwaitsDifferences (encoder : ScanEncoder) (selected : List ScanPart)
    (coded : BlockAddress → Int) (closing : Closing) (more : List Bool)
    (addresses : List BlockAddress) (state : ScanState) : Prop where
  small : ∀ entry ∈ dcDifferences coded state.predictors addresses, entry.2.natAbs ≤ 32767
  encodes : ∀ entry ∈ dcDifferences coded state.predictors addresses,
    encoder.Encodes (dcToken selected entry)
  supplies : Supplies closing state.reader
    (encoder.bits ((dcDifferences coded state.predictors addresses).map (dcToken selected)) ++
      more)

private def ReadsDifferences (encoder : ScanEncoder) (low : Nat) (part : ScanPart)
    (coding : BlockCoding) : Prop :=
  ∃ dc, coding = .dcFirst dc low ∧ encoder.ReadWith .dc part.dcTable dc

private theorem AwaitsDifferences.decode {encoder : ScanEncoder} {more : List Bool}
    {address : BlockAddress} {rest : List BlockAddress} {state : ScanState} {part : ScanPart}
    {coding : BlockCoding} (few : low < 16) (reads : ReadsDifferences encoder low part coding)
    (there : selected[address.component]? = some part)
    (awaits : AwaitsDifferences encoder selected (shiftedDc selected value low) closing more
      (address :: rest) state) (block : Block) :
    ∃ left, coding.decode
        { reader := state.reader
          predictor := state.predictors.getD address.component 0
          endOfBandRun := state.endOfBandRun
          block := block } = .ok ()
        { reader := left
          predictor := shiftedDc selected value low address
          endOfBandRun := state.endOfBandRun
          block := block.set 0 (highPart (value (placed selected address)) low)
            (Nat.zero_lt_succ 63) } ∧
      ∀ grids, AwaitsDifferences encoder selected (shiftedDc selected value low) closing more rest
        { reader := left
          predictors := state.predictors.setIfInBounds address.component
            (shiftedDc selected value low address)
          endOfBandRun := state.endOfBandRun
          grids := grids } := by
  obtain ⟨dc, rfl, readWith⟩ := reads
  have token : dcToken selected (address.component,
      shiftedDc selected value low address - state.predictors.getD address.component 0) =
        Token.dc part.dcTable ((value (placed selected address)).toInt >>> low -
          state.predictors.getD address.component 0) := by
    unfold dcToken
    rw [there]
    rfl
  have encodes := awaits.encodes _ List.mem_cons_self
  have supplies := awaits.supplies
  rw [dcDifferences, List.map_cons, ScanEncoder.bits_cons, List.append_assoc] at supplies
  rw [token] at encodes supplies
  obtain ⟨left, decoded, suppliesLeft⟩ := BlockDecoder.dcCoefficient_shifted readWith few
    { reader := state.reader
      predictor := state.predictors.getD address.component 0
      endOfBandRun := state.endOfBandRun
      block := block }
    (value (placed selected address)) (awaits.small _ List.mem_cons_self) encodes supplies
  refine ⟨left, decoded, fun grids => ⟨?_, ?_, suppliesLeft⟩⟩
  · exact fun entry member => awaits.small entry (List.mem_cons_of_mem _ member)
  · exact fun entry member => awaits.encodes entry (List.mem_cons_of_mem _ member)

theorem decode_dcFirst (progressive : frame.progressive = true)
    (inFrame : ∀ part ∈ selected, part.index < frame.components.length)
    (served : ∀ part ∈ selected, Serves slots.dc part.dcTable) (few : top < 16)
    (small : ∀ entry ∈ firstDifferences frame selected value top, entry.2.natAbs ≤ 32767)
    (encodes : ∀ entry ∈ firstDifferences frame selected value top,
      (ScanEncoder.ofSlots slots).Encodes (dcToken selected entry))
    {more : List Bool}
    (supplies : Supplies closing (BitReader.ofBytes bytes)
      ((ScanEncoder.ofSlots slots).bits
        ((firstDifferences frame selected value top).map (dcToken selected)) ++ more)) :
    ∃ grids, (planeScan selected 0 0 top top).decode frame slots 0 bytes
        frame.zeroGrids = .ok () grids ∧
      frame.Replaced (fun _ => Block.zero) (dcPlane value top) (covered frame selected)
        grids := by
  have isKind : (planeScan selected 0 0 top top).kind frame = .ok .dcFirst := by
    simp [kind, planeScan, ofParts, ScanBand.plane, progressive]
  have codings : ∀ part ∈ selected, ∃ coding,
      codingOf .dcFirst (planeScan selected 0 0 top top) slots part.named = .ok coding ∧
        ReadsDifferences (ScanEncoder.ofSlots slots) top part coding := by
    intro part member
    obtain ⟨decoder, found⟩ := served part member
    exact ⟨_, bind_of_ok found, decoder, rfl, readWith_of_decoderAt found⟩
  rw [← funext frame.blockAt_zeroGrids]
  refine decode_ofParts_replaces (dcPlane value top)
    (ReadsDifferences (ScanEncoder.ofSlots slots) top)
    (AwaitsDifferences (ScanEncoder.ofSlots slots) selected (shiftedDc selected value top)
      closing more)
    isKind inFrame codings frame.fits_zeroGrids ?_ ⟨small, encodes, supplies⟩
  intro front address rest state part coding _ there reads inside awaits replaced
  obtain ⟨left, decoded, awaitsRest⟩ := awaits.decode few reads there
    (blockAt state.grids (placed selected address))
  refine ⟨_, decoded, ?_, awaitsRest⟩
  -- A component may occur twice in a scan, so that its blocks are not zero any more.
  rw [replaced.block _ inside, frame.blockAt_zeroGrids]
  dsimp only
  rw [dcPlane_eq]
  split
  · rw [Vector.set_set]
  · rfl

private def AwaitsBits (selected : List ScanPart) (value : BlockAddress → Int16) (low : Nat)
    (closing : Closing) (more : List Bool) (addresses : List BlockAddress)
    (state : ScanState) : Prop :=
  Supplies closing state.reader
    (addresses.map (fun address => bitOf (value (placed selected address)) low) ++ more)

theorem decode_dcRefinement (progressive : frame.progressive = true)
    (inFrame : ∀ part ∈ selected, part.index < frame.components.length) (inside : low < top)
    {more : List Bool}
    (supplies : Supplies closing (BitReader.ofBytes bytes)
      ((covered frame selected).map (fun address => bitOf (value address) low) ++ more))
    {grids : Array Grid}
    (replaced : frame.Replaced (fun _ => Block.zero) (dcPlane value (low + 1))
      (covered frame selected) grids) :
    ∃ after, (planeScan selected 0 0 top low).decode frame slots 0 bytes grids =
        .ok () after ∧
      frame.Replaced (fun _ => Block.zero) (dcPlane value low) (covered frame selected)
        after := by
  have isKind : (planeScan selected 0 0 top low).kind frame = .ok .dcRefinement := by
    simp [kind, planeScan, ofParts, ScanBand.plane, progressive, Nat.ne_of_lt inside]
  have awaits : AwaitsBits selected value low closing more (scanOrder frame selected)
      { reader := BitReader.ofBytes bytes
        predictors := Array.replicate selected.length 0
        endOfBandRun := 0
        grids := grids } := by
    unfold covered at supplies
    rw [List.map_map] at supplies
    exact supplies
  -- A block that comes twice is in the next plane already when its second bit comes.
  have scanned : ∃ after, (planeScan selected 0 0 top low).decode frame slots 0 bytes
      grids = .ok () after ∧
      frame.Replaced (blockAt grids) (dcPlane value low) (covered frame selected) after := by
    refine decode_ofParts_replaces (dcPlane value low) (fun _ coding => coding = .dcRefinement low)
      (AwaitsBits selected value low closing more) isKind inFrame (fun _ _ => ⟨_, rfl, rfl⟩)
      replaced.fits ?_ awaits
    rintro front address rest state part coding split - rfl within awaitsHere replacedSoFar
    obtain ⟨left, decoded, suppliesLeft⟩ := BlockDecoder.refineDc_bit low
      { reader := state.reader
        predictor := state.predictors.getD address.component 0
        endOfBandRun := state.endOfBandRun
        block := blockAt state.grids (placed selected address) } awaitsHere
    refine ⟨_, decoded, dcPlane_refined ?_, fun _ => suppliesLeft⟩
    have member : placed selected address ∈ covered frame selected := by
      unfold covered
      rw [split]
      exact List.mem_map_of_mem (List.mem_append_right _ List.mem_cons_self)
    dsimp only
    rw [replacedSoFar.block _ within, replaced.block _ within, if_pos member]
    split
    · exact Or.inr rfl
    · exact Or.inl rfl
  obtain ⟨after, decoded, replacedAfter⟩ := scanned
  exact ⟨after, decoded, replaced.trans replacedAfter⟩

end Scan

/-- Decoding the first scan and all scans after it gives every DC coefficient of the blocks that
they cover back, and changes nothing else. -/
theorem decodePlanes_dc {frame : Frame} {selected : List ScanPart}
    {value : BlockAddress → Int16} {top : Nat} {slots : Nat → HuffmanSlots}
    {closing : Nat → Closing} (progressive : frame.progressive = true)
    (inFrame : ∀ part ∈ selected, part.index < frame.components.length) (limited : top ≤ 13)
    (served : ∀ part ∈ selected, Scan.Serves (slots top).dc part.dcTable)
    (small : ∀ entry ∈ firstDifferences frame selected value top, entry.2.natAbs ≤ 32767)
    (encodes : ∀ entry ∈ firstDifferences frame selected value top,
      (ScanEncoder.ofSlots (slots top)).Encodes (dcToken selected entry))
    (closes : ∀ low ≤ top, Marker.Closes (closing low).marker) :
    ∃ data : Nat → List UInt8,
      (∀ low ≤ top, pieceBytes (slots low) (dcPieces frame selected value top low) =
        .ok (data low)) ∧
      ∃ grids, decodePlanes frame selected 0 0 top slots
          (fun low => data low ++ 0xFF :: (closing low).marker :: (closing low).after) (top + 1)
          frame.zeroGrids = .ok () grids ∧
        frame.Replaced (fun _ => Block.zero)
          (fun address => Block.zero.setIfInBounds 0 (value address))
          (covered frame selected) grids := by
  have encodesPieces : ∀ low ≤ top, ∀ piece ∈ dcPieces frame selected value top low,
      (ScanEncoder.ofSlots (slots low)).EncodesPiece piece := by
    intro low _ piece member
    unfold dcPieces at member
    split at member
    · rename_i same
      subst same
      obtain ⟨token, isToken, rfl⟩ := List.mem_map.mp member
      obtain ⟨entry, listed, rfl⟩ := List.mem_map.mp isToken
      exact encodes entry listed
    · obtain ⟨bit, -, rfl⟩ := List.mem_map.mp member
      trivial
  have exact : (fun address => Block.zero.setIfInBounds 0 (value address)) = dcPlane value 0 := by
    funext address
    rw [dcPlane, highPart_zero]
  rw [exact]
  refine decodePlanes_pieces (dcPlane value) encodesPieces closes ?_ ?_
  · intro bytes more supplies
    rw [dcPieces, if_pos rfl, ScanEncoder.piecesBits_tokens] at supplies
    exact Scan.decode_dcFirst progressive inFrame served (by omega) small encodes supplies
  · intro low inside bytes more supplies grids replaced
    rw [dcPieces, if_neg (Nat.ne_of_lt inside), ScanEncoder.piecesBits_bits] at supplies
    exact Scan.decode_dcRefinement progressive inFrame inside supplies replaced

private def pairFrame : Frame :=
  { width := 6
    height := 4
    components :=
      [{ id := 1, across := 1, down := 1, quantizer := 0 },
       { id := 2, across := 1, down := 1, quantizer := 0 }]
    progressive := true
    width_ne_zero := by decide
    height_ne_zero := by decide
    components_ne_nil := by decide
    components_length := by decide
    admissible := by decide }

private def pairSlots (_ : Nat) : HuffmanSlots :=
  HuffmanSlots.empty.install
    { tableClass := 0
      id := 0
      counts := #v[1, 1, 0, 0, 0, 0, 0, 0, 0, 0, 0, 0, 0, 0, 0, 0]
      symbols := [1, 2] }

private def pairClosing (_ : Nat) : Closing :=
  { marker := 0xD9
    after := [] }

private def pairParts : List ScanPart :=
  [{ index := 0, dcTable := 0, acTable := 0 }, { index := 1, dcTable := 0, acTable := 0 }]

private def pairValue (address : BlockAddress) : Int16 :=
  if address.component = 0 then -5 else 2

theorem decodePlanes_dc_pair :
    ∃ data : Nat → List UInt8,
      (∀ low ≤ 1, pieceBytes (pairSlots low) (dcPieces pairFrame pairParts pairValue 1 low) =
        .ok (data low)) ∧
      ∃ grids, decodePlanes pairFrame pairParts 0 0 1 pairSlots
          (fun low => data low ++ [0xFF, 0xD9]) 2 pairFrame.zeroGrids = .ok () grids ∧
        blockAt grids { component := 0, row := 0, column := 0 } = Block.zero.setIfInBounds 0 (-5) ∧
        blockAt grids { component := 1, row := 0, column := 0 } = Block.zero.setIfInBounds 0 2 := by
  have inFrame : ∀ part ∈ pairParts, part.index < pairFrame.components.length := by decide
  have served : ∀ part ∈ pairParts, Scan.Serves (pairSlots 1).dc part.dcTable := by
    intro part member
    have table : part.dcTable = 0 := by
      revert part
      decide
    rw [table]
    exact ⟨_, rfl⟩
  have small : ∀ entry ∈ firstDifferences pairFrame pairParts pairValue 1,
      entry.2.natAbs ≤ 32767 := by
    decide +kernel
  have encodes : ∀ entry ∈ firstDifferences pairFrame pairParts pairValue 1,
      (ScanEncoder.ofSlots (pairSlots 1)).Encodes (dcToken pairParts entry) := by
    decide +kernel
  have closes : ∀ low ≤ 1, Marker.Closes (pairClosing low).marker :=
    fun _ _ => (by decide : Marker.Closes 0xD9)
  obtain ⟨data, coded, grids, decoded, replaced⟩ :=
    decodePlanes_dc rfl inFrame (by decide) served small encodes closes
  refine ⟨data, coded, grids, decoded, ?_, ?_⟩
  · rw [replaced.block _ ⟨_, rfl, by decide, by decide⟩]
    rfl
  · rw [replaced.block _ ⟨_, rfl, by decide, by decide⟩]
    rfl

end LosslessJpeg
