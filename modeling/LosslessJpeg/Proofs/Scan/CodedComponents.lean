import LosslessJpeg.Proofs.Scan.ScanDecoding
import LosslessJpeg.Proofs.Segments.Headers

set_option autoImplicit false

/-!
The components of a scan as a decoder finds them: each at its place in the frame, with the
decoders of its tables.
-/

namespace LosslessJpeg

namespace Scan

variable {tables : Vector (Option HuffmanTable) 4} {slots : HuffmanSlots}

theorem decoderAt_of_get {id : Fin 4} {table : HuffmanTable} {decoder : HuffmanDecoder}
    (slot : tables.get id = some table) (built : HuffmanDecoder.ofTable table = .ok decoder) :
    decoderAt tables id.val = .ok decoder := by
  have entry : tables[id.val]? = some (some table) := by
    rw [Vector.getElem?_eq_getElem id.isLt]
    exact congrArg some slot
  unfold decoderAt
  rw [entry]
  exact built

theorem decoderAt_eq_ok {id : Fin 4} {decoder : HuffmanDecoder}
    (found : decoderAt tables id.val = .ok decoder) :
    ∃ table, tables.get id = some table ∧ HuffmanDecoder.ofTable table = .ok decoder := by
  unfold decoderAt at found
  rw [Vector.getElem?_eq_getElem id.isLt] at found
  split at found
  · rename_i table slot
    exact ⟨table, slot, found⟩
  · cases found

theorem readWith_of_decoderAt {coefficients : CoefficientClass} {id : Fin 4}
    {decoder : HuffmanDecoder}
    (found : decoderAt (slots.ofClass coefficients) id.val = .ok decoder) :
    (ScanEncoder.ofSlots slots).ReadWith coefficients id decoder := by
  obtain ⟨table, slot, built⟩ := decoderAt_eq_ok found
  exact ScanEncoder.readWith_ofSlots slot built

def Serves (tables : Vector (Option HuffmanTable) 4) (id : Fin 4) : Prop :=
  ∃ decoder, decoderAt tables id.val = .ok decoder

variable {frame : Frame} {scan : Scan}

theorem band_of_kind {kind : ScanKind} (isKind : scan.kind frame = .ok kind) :
    match kind with
    | .sequential => scan.band = ScanBand.whole
    | .dcFirst | .dcRefinement => scan.band.first = 0 ∧ scan.band.last = 0
    | .acFirst | .acRefinement => scan.components.length = 1 := by
  unfold Scan.kind at isKind
  dsimp only at isKind
  split at isKind
  · split at isKind
    · rename_i whole
      cases isKind
      exact whole
    · cases isKind
  · split at isKind
    · rename_i first
      split at isKind
      · cases isKind
      · rename_i last
        have both : scan.band.first = 0 ∧ scan.band.last = 0 := ⟨first, not_not.mp last⟩
        split at isKind
        · cases isKind
          exact both
        · cases isKind
          exact both
    · split at isKind
      · cases isKind
      · rename_i alone
        split at isKind
        · cases isKind
          exact not_not.mp alone
        · cases isKind
          exact not_not.mp alone

theorem codedComponents_eq_ok {gridCount : Nat} {parts : List CodedComponent}
    (coded : scan.codedComponents frame slots gridCount = .ok parts) :
    ∃ kind, scan.kind frame = .ok kind ∧ parts.length = scan.components.length ∧
      ∀ part ∈ parts, ∃ component ∈ scan.components,
        part.index = component.index ∧ component.index < gridCount ∧
          part.component = (frame.components[component.index]?).getD Component.absent ∧
          scan.codingOf kind slots component = .ok part.coding := by
  obtain ⟨kind, isKind, found⟩ := bind_eq_ok coded
  refine ⟨kind, isKind, (mapM_eq_ok_iff.mp found).length_eq.symm, ?_⟩
  intro part member
  obtain ⟨component, listed, here⟩ := mapM_eq_ok_mem found member
  refine ⟨component, listed, ?_⟩
  unfold codedComponent at here
  split at here
  · rename_i selectable
    obtain ⟨coding, built, last⟩ := bind_eq_ok here
    cases last
    exact ⟨rfl, selectable.1, rfl, built⟩
  · cases here

end Scan

section WholeScan

open ScanDecoder

variable {frame : Frame} {tables : List (Fin 4)} {slots : HuffmanSlots}

/-- What a reader needs of a part of a sequential scan. -/
private def ReadsPart (frame : Frame) (encoder : ScanEncoder) (named : ScanComponent)
    (part : CodedComponent) : Prop :=
  part.index = named.index ∧
    part.component = (frame.components[named.index]?).getD Component.absent ∧
    ∃ dc ac, part.coding = .sequential dc ac ∧
      ∀ table : Fin 4, named.dcTable = table.val → encoder.ReadBy table dc ac

private theorem readsPart_of_serves {id : Fin 4} (dcServes : Scan.Serves slots.dc id)
    (acServes : Scan.Serves slots.ac id) (frame : Frame) (scan : Scan) {place gridCount : Nat}
    (inside : place < gridCount) :
    ∃ part, Scan.codedComponent frame .sequential scan slots gridCount
        { index := place
          dcTable := id.val
          acTable := id.val } = .ok part ∧
      ReadsPart frame (ScanEncoder.ofSlots slots)
        { index := place
          dcTable := id.val
          acTable := id.val } part := by
  obtain ⟨dc, dcFound⟩ := dcServes
  obtain ⟨ac, acFound⟩ := acServes
  refine ⟨{ index := place
            component := (frame.components[place]?).getD Component.absent
            coding := .sequential dc ac }, ?_, rfl, rfl, dc, ac, rfl, ?_⟩
  · unfold Scan.codedComponent Scan.codingOf
    rw [if_pos ⟨inside, id.isLt, id.isLt⟩]
    dsimp only
    rw [dcFound, acFound]
    rfl
  · intro table same
    rw [← Fin.ext same]
    exact ⟨Scan.readWith_of_decoderAt dcFound, Scan.readWith_of_decoderAt acFound⟩

private theorem codedComponents_parts (sequential : frame.progressive = false)
    (served : ∀ id ∈ tables, Scan.Serves slots.dc id ∧ Scan.Serves slots.ac id) :
    ∃ parts, Scan.codedComponents frame (wholeScan tables) slots tables.length = .ok parts ∧
      parts.length = tables.length ∧
      ∀ (place : Nat) (part : CodedComponent), parts[place]? = some part →
        ReadsPart frame (ScanEncoder.ofSlots slots)
          { index := place
            dcTable := (tables.getD place 0).val
            acTable := (tables.getD place 0).val } part := by
  have kind : Scan.kind frame (wholeScan tables) = .ok .sequential := by
    unfold Scan.kind
    rw [sequential]
    rfl
  have readable : ∀ named ∈ (wholeScan tables).components,
      ∃ part, Scan.codedComponent frame .sequential (wholeScan tables) slots tables.length
          named = .ok part ∧
        ReadsPart frame (ScanEncoder.ofSlots slots) named part := by
    intro named member
    obtain ⟨⟨id, place⟩, listed, rfl⟩ := List.mem_map.mp member
    have there := List.mem_zipIdx_iff_getElem?.mp listed
    obtain ⟨dcServes, acServes⟩ := served id (List.mem_of_getElem? there)
    exact readsPart_of_serves dcServes acServes frame (wholeScan tables)
      (List.getElem?_eq_some_iff.mp there).1
  obtain ⟨parts, coded, each⟩ := mapM_of_forall readable
  obtain ⟨length, each⟩ := List.forall₂_iff_get.mp each
  have count : parts.length = tables.length := by
    rw [← length, wholeScan, List.length_map, List.length_zipIdx]
  refine ⟨parts, (bind_of_ok kind).trans coded, count, ?_⟩
  intro place part found
  obtain ⟨inside, rfl⟩ := List.getElem?_eq_some_iff.mp found
  have bound : place < tables.length := by omega
  have reads := each place (by omega) inside
  simp only [List.get_eq_getElem, wholeScan, List.getElem_map, List.getElem_zipIdx,
    Nat.zero_add] at reads
  rw [List.getD_eq_getElem?_getD, List.getElem?_eq_getElem bound, Option.getD_some]
  exact reads

theorem codedComponents_wholeScan (sequential : frame.progressive = false)
    (tabled : tables.length = frame.components.length)
    (served : ∀ id ∈ tables, Scan.Serves slots.dc id ∧ Scan.Serves slots.ac id) :
    ∃ parts, Scan.codedComponents frame (wholeScan tables) slots tables.length = .ok parts ∧
      parts.map (·.component) = frame.components ∧
      ReadsTables (ScanEncoder.ofSlots slots) tables parts.toArray := by
  obtain ⟨parts, coded, count, part⟩ := codedComponents_parts sequential served
  refine ⟨parts, coded, ?_, ?_, ?_⟩
  · refine List.ext_getElem? fun place => ?_
    rw [List.getElem?_map]
    cases found : parts[place]? with
    | none =>
        have outside := List.getElem?_eq_none_iff.mp found
        rw [List.getElem?_eq_none (by omega)]
        rfl
    | some entry =>
        have inside := (List.getElem?_eq_some_iff.mp found).1
        have bound : place < frame.components.length := by omega
        rw [Option.map_some, (part place entry found).2.1, List.getElem?_eq_getElem bound]
        rfl
  · intro place entry found
    rw [List.getElem?_toArray] at found
    exact (part place entry found).1
  · intro place entry found
    rw [List.getElem?_toArray] at found
    obtain ⟨-, -, dc, ac, coding, reads⟩ := part place entry found
    exact ⟨dc, ac, coding, reads _ rfl⟩

/-- With whatever tables a scan of all components has been written, decoding it with these
tables gives back its grids exactly if they are representable. The tables may leave codes
unused, use the code of ones alone, and name a symbol twice. -/
theorem Scan.decode_encodeScan {width height : UInt16} {named : List Component}
    {grids : Array Grid} {data : List UInt8} {marker : UInt8}
    (built : Frame.build width height named false = .ok frame) (fits : frame.Fits grids)
    (served : ∀ id ∈ tables, Serves slots.dc id ∧ Serves slots.ac id)
    (written : encodeScan frame grids tables slots = .ok data)
    (notStuffing : marker ≠ 0) (notFill : marker ≠ 0xFF) (after : List UInt8) :
    (wholeScan tables).decode frame slots 0 (data ++ 0xFF :: marker :: after)
        frame.zeroGrids = .ok () grids ↔
      Representable frame grids := by
  have normal := Frame.normal_of_build built
  have sequential := (Frame.build_eq_ok built).2.2.2
  obtain ⟨tokens, collected, coded⟩ := bind_eq_ok written
  obtain ⟨_, checked, -⟩ := bind_eq_ok collected
  obtain ⟨size, tabled⟩ := checkGrids_eq_ok checked
  obtain ⟨parts, found, components, reads⟩ :=
    codedComponents_wholeScan sequential (tabled.trans size) served
  have zeros : tables.length = frame.zeroGrids.size :=
    tabled.trans (size.trans frame.fits_zeroGrids.size.symm)
  rw [zeros] at found
  exact Scan.decode_tokenBytes { marker := marker, after := after } normal found components reads
    fits collected coded notStuffing notFill

private def pairedFrame : Frame :=
  { width := 12
    height := 10
    components :=
      [{ id := 7, across := 2, down := 2, quantizer := 0 },
       { id := 8, across := 1, down := 1, quantizer := 0 }]
    progressive := false
    width_ne_zero := by decide
    height_ne_zero := by decide
    components_ne_nil := by decide
    components_length := by decide
    admissible := by decide }

private def pairedGrids : Array Grid :=
  #[{ blocksWide := 2
      blocksTall := 2
      blocks :=
        #[(Block.zero.setIfInBounds 0 5).setIfInBounds 9 (-3), Block.zero.setIfInBounds 0 7,
          Block.zero.setIfInBounds 0 7, Block.zero.setIfInBounds 0 1]
      blocks_size := rfl },
    { blocksWide := 1
      blocksTall := 1
      blocks := #[Block.zero.setIfInBounds 0 (-6)]
      blocks_size := rfl }]

/-- The DC table names the size 3 twice, the second time with the code of ones alone. The AC
table leaves codes unused. -/
private def pairedSlots : HuffmanSlots :=
  (HuffmanSlots.empty.install
    { tableClass := 0
      id := 2
      counts := #v[1, 1, 2, 0, 0, 0, 0, 0, 0, 0, 0, 0, 0, 0, 0, 0]
      symbols := [3, 0, 2, 3] }).install
    { tableClass := 1
      id := 2
      counts := #v[0, 1, 1, 0, 0, 0, 0, 0, 0, 0, 0, 0, 0, 0, 0, 0]
      symbols := [0, 0x32] }

theorem Scan.decode_encodeScan_paired :
    (wholeScan [2, 2]).decode pairedFrame pairedSlots 0
      ([245, 6, 136, 228, 228] ++ [0xFF, 0xD9]) pairedFrame.zeroGrids = .ok () pairedGrids := by
  have built : Frame.build 12 10 pairedFrame.components false = .ok pairedFrame := rfl
  have fits : pairedFrame.Fits pairedGrids :=
    { size := rfl
      grid := by
        intro index component grid found there
        match index with
        | 0 =>
            cases found
            cases there
            exact ⟨rfl, rfl⟩
        | 1 =>
            cases found
            cases there
            exact ⟨rfl, rfl⟩
        | index + 2 => cases found }
  have served : ∀ id ∈ [(2 : Fin 4), 2], Scan.Serves pairedSlots.dc id ∧
      Scan.Serves pairedSlots.ac id := by
    intro id member
    have same : id = 2 := by
      revert id
      decide
    rw [same]
    exact ⟨⟨_, rfl⟩, ⟨_, rfl⟩⟩
  have written : encodeScan pairedFrame pairedGrids [2, 2] pairedSlots =
      .ok [245, 6, 136, 228, 228] := by
    decide +kernel
  exact (Scan.decode_encodeScan built fits served written (by decide : (0xD9 : UInt8) ≠ 0)
    (by decide) []).mpr (by decide +kernel)

end WholeScan

end LosslessJpeg
