import LosslessJpeg.Proofs.Scan.BandRefinement
import LosslessJpeg.Proofs.Scan.PlaneScans

set_option autoImplicit false

/-!
A band of AC coefficients in progressive scans. A first scan carries the coefficients of one
component without the lowest bits of their magnitudes; each scan after it carries one bit more
of every block. Decoding all of these scans gives the band back.
-/

namespace LosslessJpeg

open BitReader (Supplies)

def bandOrder (first last : Nat) : List (Fin 64) :=
  (zigzag.drop first).take (last + 1 - first)

theorem bandOrder_nodup (first last : Nat) : (bandOrder first last).Nodup :=
  (zigzag_nodup.sublist (List.drop_sublist first zigzag)).sublist (List.take_sublist _ _)

theorem bandOrder_ne_nil {first last : Nat} (ordered : first ≤ last) (inside : last ≤ 63) :
    bandOrder first last ≠ [] := by
  apply List.ne_nil_of_length_pos
  rw [bandOrder, List.length_take, List.length_drop, zigzag_length]
  omega

theorem bandPositions_eq {first last : Nat} (inside : last ≤ 63) :
    bandPositions first last = (bandOrder first last).map some := by
  refine List.ext_getElem? fun place => ?_
  rw [bandPositions, bandOrder, List.getElem?_map, List.getElem?_map, List.getElem?_take,
    List.getElem?_drop]
  by_cases short : place < last + 1 - first
  · rw [List.getElem?_range' short, if_pos short, Nat.one_mul]
    have there : first + place < zigzag.length := by
      rw [zigzag_length]
      omega
    rw [Option.map_some, List.getElem?_eq_getElem there]
    rfl
  · rw [if_neg short, List.getElem?_eq_none (by rw [List.length_range']; omega)]
    rfl

namespace Block

def restricted (order : List (Fin 64)) (block : Block) : Block :=
  Vector.ofFn fun position => if order.contains position then block.get position else 0

/-- The band of a block without the lowest bits of its magnitudes. -/
def bandPlane (order : List (Fin 64)) (low : Nat) (block : Block) : Block :=
  restricted order (block.map fun value => truncated value low)

variable {order : List (Fin 64)} {position : Fin 64}

theorem get_restricted (order : List (Fin 64)) (block : Block) (position : Fin 64) :
    (block.restricted order).get position =
      if position ∈ order then block.get position else 0 := by
  simp only [restricted, get_ofFn, List.contains_iff_mem]

theorem get_bandPlane (low : Nat) (block : Block) (member : position ∈ order) :
    (block.bandPlane order low).get position = truncated (block.get position) low := by
  rw [bandPlane, get_restricted, if_pos member, get_map]

theorem get_bandPlane_of_notMem (low : Nat) (block : Block) (outside : position ∉ order) :
    (block.bandPlane order low).get position = 0 := by
  rw [bandPlane, get_restricted, if_neg outside]

@[simp]
theorem bandPlane_zero (order : List (Fin 64)) (block : Block) :
    block.bandPlane order 0 = block.restricted order := by
  apply ext_get
  intro position
  rw [get_restricted]
  split
  · rename_i member
    rw [get_bandPlane 0 block member, truncated_zero]
  · rename_i outside
    exact get_bandPlane_of_notMem 0 block outside

end Block

def planeCoefficient (top low : Nat) (value : Int16) : BandCoefficient :=
  if low = top then firstCoefficient value low else refinedCoefficient value low

def planeBand (order : List (Fin 64)) (top low : Nat) (block : Block) : List BandCoefficient :=
  order.map fun position => planeCoefficient top low (block.get position)

/-- All pieces of the scan of bit `low`, with blocks grouped into runs as `closes` says. -/
def acPieces (frame : Frame) (part : ScanPart) (order : List (Fin 64))
    (source : BlockAddress → Block) (closes : Nat → Bool) (top low : Nat) : List ScanPiece :=
  Band.scanPieces part.acTable closes 0 .empty
    ((covered frame [part]).map fun address => planeBand order top low (source address))

/-! ### One scan -/

namespace Scan

variable {frame : Frame} {part : ScanPart} {encoder : ScanEncoder} {table : Fin 4}
  {band : BlockAddress → List BandCoefficient} {before target : BlockAddress → Block}
  {closing : Closing} {more : List Bool}

/-- The reader supplies the bands of the blocks left. -/
private def AwaitsBands (encoder : ScanEncoder) (table : Fin 4)
    (band : BlockAddress → List BandCoefficient) (closing : Closing) (more : List Bool)
    (addresses : List BlockAddress) (state : ScanState) : Prop :=
  ∃ pieces, Band.CodesAll table state.endOfBandRun (addresses.map band) pieces ∧
    (∀ piece ∈ pieces, encoder.EncodesPiece piece) ∧
    Supplies closing state.reader (encoder.piecesBits pieces ++ more)

private def DecodesBands (frame : Frame) (part : ScanPart) (encoder : ScanEncoder)
    (band : BlockAddress → List BandCoefficient) (before target : BlockAddress → Block)
    (closing : Closing) (coding : BlockCoding) : Prop :=
  ∀ address ∈ covered frame [part], ∀ (state : BlockState) (own : List ScanPiece)
    (after : Nat) (more : List Bool), state.block = before address →
    Band.Codes part.acTable state.endOfBandRun (band address) own after →
    (∀ piece ∈ own, encoder.EncodesPiece piece) →
    Supplies closing state.reader (encoder.piecesBits own ++ more) →
      ∃ left, coding.decode state = .ok ()
          { state with
            reader := left
            endOfBandRun := after
            block := target address } ∧
        Supplies closing left more

private theorem decode_bands {scanKind : ScanKind} {scanBand : ScanBand} {slots : HuffmanSlots}
    {grids : Array Grid} {bytes : List UInt8} {closes : Nat → Bool}
    (isKind : (ofParts [part] scanBand).kind frame = .ok scanKind)
    (inFrame : part.index < frame.components.length)
    (codings : ∃ coding, codingOf scanKind (ofParts [part] scanBand) slots part.named =
        .ok coding ∧
      DecodesBands frame part encoder band (blockAt grids) target closing coding)
    (fits : frame.Fits grids) (nonempty : ∀ address, band address ≠ [])
    (encodes : ∀ piece ∈ Band.scanPieces part.acTable closes 0 .empty
      ((covered frame [part]).map band), encoder.EncodesPiece piece)
    (supplies : Supplies closing (BitReader.ofBytes bytes)
      (encoder.piecesBits (Band.scanPieces part.acTable closes 0 .empty
        ((covered frame [part]).map band)) ++ more)) :
    ∃ after, (ofParts [part] scanBand).decode frame slots 0 bytes grids = .ok () after ∧
      frame.Replaced (blockAt grids) target (covered frame [part]) after := by
  -- A run of blocks may be under way between two of them, so what is ready for the blocks left is
  -- the pieces that are still to be read.
  refine decode_ofParts_replaces target
    (fun _ => DecodesBands frame part encoder band (blockAt grids) target closing)
    (AwaitsBands encoder part.acTable (fun address => band (placed [part] address)) closing more)
    isKind (List.forall_mem_singleton.mpr inFrame) (List.forall_mem_singleton.mpr codings) fits
    ?_ ?_
  · intro front address rest state selected coding split _ decodes inside awaits replaced
    obtain ⟨pieces, codes, encodesAll, suppliesAll⟩ := awaits
    obtain ⟨after, own, others, rfl, here, later⟩ := codes.of_cons
    rw [ScanEncoder.piecesBits_append, List.append_assoc] at suppliesAll
    have coveredSplit : covered frame [part] =
        front.map (placed [part]) ++ placed [part] address :: rest.map (placed [part]) := by
      rw [covered, split, List.map_append, List.map_cons]
    have member : placed [part] address ∈ covered frame [part] := by
      rw [coveredSplit]
      exact List.mem_append_right _ List.mem_cons_self
    -- No block is covered twice, so this one is as it was before the scan.
    have unseen : placed [part] address ∉ front.map (placed [part]) := by
      have nodup : (covered frame [part]).Nodup := covered_sole_nodup part
      rw [coveredSplit, List.nodup_append] at nodup
      exact fun seen => nodup.2.2 _ seen _ List.mem_cons_self rfl
    have untouched : blockAt state.grids (placed [part] address) =
        blockAt grids (placed [part] address) := by
      rw [replaced.block _ inside, if_neg unseen]
    obtain ⟨left, decoded, suppliesLeft⟩ := decodes (placed [part] address) member
      { reader := state.reader
        predictor := state.predictors.getD address.component 0
        endOfBandRun := state.endOfBandRun
        block := blockAt state.grids (placed [part] address) }
      own after _ untouched here
      (fun piece member => encodesAll piece (List.mem_append_left _ member)) suppliesAll
    exact ⟨_, decoded, rfl, fun _ => ⟨others, later,
      fun piece member => encodesAll piece (List.mem_append_right _ member), suppliesLeft⟩⟩
  · refine ⟨_, ?_, encodes, supplies⟩
    have nonemptyBands : ∀ content ∈ (covered frame [part]).map band, content ≠ [] := by
      intro content listed
      obtain ⟨address, -, rfl⟩ := List.mem_map.mp listed
      exact nonempty address
    have codes := Band.codesAll_scanPieces part.acTable closes nonemptyBands
    rw [covered, List.map_map] at codes ⊢
    exact codes

variable {slots : HuffmanSlots} {bytes : List UInt8} {first last top low : Nat}
  {source : BlockAddress → Block} {closes : Nat → Bool}

theorem decode_acFirst (progressive : frame.progressive = true)
    (inFrame : part.index < frame.components.length) (positive : 1 ≤ first)
    (ordered : first ≤ last) (inside : last ≤ 63) (served : Serves slots.ac part.acTable)
    (small : ∀ address ∈ covered frame [part], ∀ position ∈ bandOrder first last,
      (source address).get position ≠ -32768)
    (encodes : ∀ piece ∈ acPieces frame part (bandOrder first last) source closes top top,
      (ScanEncoder.ofSlots slots).EncodesPiece piece)
    (supplies : Supplies closing (BitReader.ofBytes bytes)
      ((ScanEncoder.ofSlots slots).piecesBits
        (acPieces frame part (bandOrder first last) source closes top top) ++ more)) :
    ∃ grids, (planeScan [part] first last top top).decode frame slots 0 bytes
        frame.zeroGrids = .ok () grids ∧
      frame.Replaced (fun _ => Block.zero)
        (fun address => (source address).bandPlane (bandOrder first last) top)
        (covered frame [part]) grids := by
  have isKind : (planeScan [part] first last top top).kind frame = .ok .acFirst := by
    simp [kind, planeScan, ofParts, ScanBand.plane, progressive, Nat.ne_of_gt positive]
  obtain ⟨decoder, found⟩ := served
  have coding : codingOf .acFirst (planeScan [part] first last top top) slots part.named =
      .ok (.acFirst decoder ((bandOrder first last).map some) top) := by
    rw [← bandPositions_eq inside]
    exact bind_of_ok found
  rw [← funext frame.blockAt_zeroGrids]
  refine decode_bands isKind inFrame ⟨_, coding, ?_⟩ frame.fits_zeroGrids
    (fun _ => ?_) encodes supplies
  · intro address member state own after more same codes encodesOwn suppliesOwn
    rw [frame.blockAt_zeroGrids] at same
    have blank : ∀ position, state.block.get position = 0 := by
      rw [same]
      exact get_replicate 0
    refine BlockDecoder.decode_acFirst (readWith_of_decoderAt found) state codes ?_
      (fun position _ => blank position) ?_ encodesOwn suppliesOwn
    · intro position inBand
      rw [blank, Block.get_bandPlane top _ inBand, planeCoefficient, if_pos rfl]
      exact becomes_first top (small address member position inBand)
    · intro position outside
      rw [blank, Block.get_bandPlane_of_notMem top _ outside]
  · exact fun empty => bandOrder_ne_nil ordered inside (List.map_eq_nil_iff.mp empty)

theorem decode_acRefinement (progressive : frame.progressive = true)
    (inFrame : part.index < frame.components.length) (positive : 1 ≤ first)
    (ordered : first ≤ last) (inside : last ≤ 63) (served : Serves slots.ac part.acTable)
    (few : low ≤ 13) (below : low < top)
    (encodes : ∀ piece ∈ acPieces frame part (bandOrder first last) source closes top low,
      (ScanEncoder.ofSlots slots).EncodesPiece piece)
    (supplies : Supplies closing (BitReader.ofBytes bytes)
      ((ScanEncoder.ofSlots slots).piecesBits
        (acPieces frame part (bandOrder first last) source closes top low) ++ more))
    {grids : Array Grid}
    (replaced : frame.Replaced (fun _ => Block.zero)
      (fun address => (source address).bandPlane (bandOrder first last) (low + 1))
      (covered frame [part]) grids) :
    ∃ after, (planeScan [part] first last top low).decode frame slots 0 bytes grids =
        .ok () after ∧
      frame.Replaced (fun _ => Block.zero)
        (fun address => (source address).bandPlane (bandOrder first last) low)
        (covered frame [part]) after := by
  have isKind : (planeScan [part] first last top low).kind frame = .ok .acRefinement := by
    simp [kind, planeScan, ofParts, ScanBand.plane, progressive, Nat.ne_of_gt positive,
      Nat.ne_of_lt below]
  obtain ⟨decoder, found⟩ := served
  have coding : codingOf .acRefinement (planeScan [part] first last top low) slots part.named =
      .ok (.acRefinement decoder ((bandOrder first last).map some) low) := by
    rw [← bandPositions_eq inside]
    exact bind_of_ok found
  have soleInFrame : ∀ selected ∈ [part], selected.index < frame.components.length :=
    List.forall_mem_singleton.mpr inFrame
  -- The scan replaces blocks of the plane before. That these replace zeros is added at the end.
  have scanned : ∃ after, (planeScan [part] first last top low).decode frame slots 0 bytes
      grids = .ok () after ∧
      frame.Replaced (blockAt grids)
        (fun address => (source address).bandPlane (bandOrder first last) low)
        (covered frame [part]) after := by
    refine decode_bands isKind inFrame ⟨_, coding, ?_⟩ replaced.fits (fun _ => ?_) encodes
      supplies
    · intro address member state own after more same codes encodesOwn suppliesOwn
      have before : state.block =
          (source address).bandPlane (bandOrder first last) (low + 1) := by
        rw [same, replaced.block _ (inside_of_mem_covered soleInFrame member), if_pos member]
      refine BlockDecoder.decode_acRefinement (readWith_of_decoderAt found) few state codes
        ⟨bandOrder_nodup first last, ?_, ?_⟩ ?_ encodesOwn suppliesOwn
      · intro position inBand
        rw [before, Block.get_bandPlane low _ inBand, Block.get_bandPlane (low + 1) _ inBand,
          planeCoefficient, if_neg (Nat.ne_of_lt below)]
        exact becomes_refined few
      · intro position inBand value told
        rw [planeCoefficient, if_neg (Nat.ne_of_lt below)] at told
        exact eq_of_refinedCoefficient told
      · intro position outside
        rw [before, Block.get_bandPlane_of_notMem low _ outside,
          Block.get_bandPlane_of_notMem (low + 1) _ outside]
    · exact fun empty => bandOrder_ne_nil ordered inside (List.map_eq_nil_iff.mp empty)
  obtain ⟨after, decoded, replacedAfter⟩ := scanned
  exact ⟨after, decoded, replaced.trans replacedAfter⟩

end Scan

/-- Decoding the first scan and all scans after it gives the band of every block of the component
back, where it holds samples of the image, and changes nothing else. Each scan may group blocks
into runs in a way of its own. -/
theorem decodePlanes_ac {frame : Frame} {part : ScanPart} {source : BlockAddress → Block}
    {first last top : Nat} {slots : Nat → HuffmanSlots} {grouping : Nat → Nat → Bool}
    {closing : Nat → Closing} (progressive : frame.progressive = true)
    (inFrame : part.index < frame.components.length) (positive : 1 ≤ first)
    (ordered : first ≤ last) (inside : last ≤ 63) (limited : top ≤ 13)
    (served : ∀ low ≤ top, Scan.Serves (slots low).ac part.acTable)
    (small : ∀ address ∈ covered frame [part], ∀ position ∈ bandOrder first last,
      (source address).get position ≠ -32768)
    (encodes : ∀ low ≤ top,
      ∀ piece ∈ acPieces frame part (bandOrder first last) source (grouping low) top low,
        (ScanEncoder.ofSlots (slots low)).EncodesPiece piece)
    (closes : ∀ low ≤ top, Marker.Closes (closing low).marker) :
    ∃ data : Nat → List UInt8,
      (∀ low ≤ top, pieceBytes (slots low)
        (acPieces frame part (bandOrder first last) source (grouping low) top low) =
          .ok (data low)) ∧
      ∃ grids, decodePlanes frame [part] first last top slots
          (fun low => data low ++ 0xFF :: (closing low).marker :: (closing low).after) (top + 1)
          frame.zeroGrids = .ok () grids ∧
        (∀ row < frame.imageBlocksTall (part.component frame),
          ∀ column < frame.imageBlocksWide (part.component frame),
          ∀ position ∈ bandOrder first last,
            (blockAt grids { component := part.index, row := row, column := column }).get position =
              (source { component := part.index, row := row, column := column }).get position) ∧
        frame.Replaced (fun _ => Block.zero)
          (fun address => (source address).restricted (bandOrder first last))
          (covered frame [part]) grids := by
  have exact : (fun address => (source address).restricted (bandOrder first last)) =
      fun address => (source address).bandPlane (bandOrder first last) 0 := by
    funext address
    rw [Block.bandPlane_zero]
  have planes := decodePlanes_pieces
    (fun low address => (source address).bandPlane (bandOrder first last) low) encodes closes
    (fun bytes more supplies => Scan.decode_acFirst progressive inFrame positive ordered inside
      (served top (Nat.le_refl top)) small (encodes top (Nat.le_refl top)) supplies)
    (fun low below bytes more supplies grids replaced =>
      have within : low ≤ top := Nat.le_of_lt below
      Scan.decode_acRefinement progressive inFrame positive ordered inside (served low within)
        (Nat.le_trans within limited) below (encodes low within) supplies replaced)
  obtain ⟨data, coded, grids, decoded, replaced⟩ := planes
  rw [← exact] at replaced
  refine ⟨data, coded, grids, decoded, ?_, replaced⟩
  intro row rowInside column columnInside position member
  have listed : { component := part.index, row := row, column := column } ∈
      covered frame [part] := mem_covered_sole.mpr ⟨rfl, rowInside, columnInside⟩
  have within := inside_of_mem_covered (List.forall_mem_singleton.mpr inFrame) listed
  rw [replaced.block _ within, if_pos listed, Block.get_restricted, if_pos member]

private def rowFrame : Frame :=
  { width := 23
    height := 7
    components := [{ id := 2, across := 1, down := 1, quantizer := 0 }]
    progressive := true
    width_ne_zero := by decide
    height_ne_zero := by decide
    components_ne_nil := by decide
    components_length := by decide
    admissible := by decide }

private def rowPart : ScanPart :=
  { index := 0
    dcTable := 0
    acTable := 0 }

private def rowSlots (_ : Nat) : HuffmanSlots :=
  HuffmanSlots.empty.install
    { tableClass := 1
      id := 0
      counts := #v[0, 1, 4, 0, 0, 0, 0, 0, 0, 0, 0, 0, 0, 0, 0, 0]
      symbols := [0x00, 0x01, 0x02, 0x10, 0xF0] }

private def rowClosing (_ : Nat) : Closing :=
  { marker := 0xD9
    after := [] }

/-- The first block has a value behind sixteen zeros, and the last one only a value that is known
from the first scan on. -/
private def rowSource (address : BlockAddress) : Block :=
  if address.column = 0 then (Block.zero.set 1 (-5)).set 26 1
  else if address.column = 1 then Block.zero
  else Block.zero.set 1 3

theorem decodePlanes_ac_row :
    ∃ data : Nat → List UInt8,
      (∀ low ≤ 1, pieceBytes (rowSlots low)
        (acPieces rowFrame rowPart (bandOrder 1 20) rowSource (fun _ => false) 1 low) =
          .ok (data low)) ∧
      ∃ grids, decodePlanes rowFrame [rowPart] 1 20 1 rowSlots
          (fun low => data low ++ [0xFF, 0xD9]) 2 rowFrame.zeroGrids = .ok () grids ∧
        ∀ column < 3, blockAt grids { component := 0, row := 0, column := column } =
          rowSource { component := 0, row := 0, column := column } := by
  have served : ∀ low ≤ 1, Scan.Serves (rowSlots low).ac rowPart.acTable :=
    fun _ _ => ⟨_, rfl⟩
  have small : ∀ address ∈ covered rowFrame [rowPart], ∀ position ∈ bandOrder 1 20,
      (rowSource address).get position ≠ -32768 := by
    decide +kernel
  have encodes : ∀ low ≤ 1,
      ∀ piece ∈ acPieces rowFrame rowPart (bandOrder 1 20) rowSource (fun _ => false) 1 low,
        (ScanEncoder.ofSlots (rowSlots low)).EncodesPiece piece := by
    decide +kernel
  have closes : ∀ low ≤ 1, Marker.Closes (rowClosing low).marker :=
    fun _ _ => (by decide : Marker.Closes 0xD9)
  obtain ⟨data, coded, grids, decoded, -, replaced⟩ :=
    decodePlanes_ac rfl (by decide) (by decide) (by decide) (by decide) (by decide) served small
      encodes closes
  refine ⟨data, coded, grids, decoded, fun column inside => ?_⟩
  rw [replaced.block _ ⟨_, rfl, Nat.one_pos, inside⟩]
  revert column
  decide +kernel

end LosslessJpeg
