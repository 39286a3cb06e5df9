import LosslessJpeg.Proofs.Block.Sampling
import LosslessJpeg.Proofs.Scan.CodedComponents

set_option autoImplicit false

/-!
Scans of some components of a frame, interleaved or not: which blocks they cover, and how
decoding replaces these blocks one after the other.
-/

namespace LosslessJpeg

structure ScanPart where
  index : Nat
  dcTable : Fin 4
  acTable : Fin 4
  deriving DecidableEq, Repr

namespace ScanPart

def named (part : ScanPart) : ScanComponent :=
  { index := part.index
    dcTable := part.dcTable.val
    acTable := part.acTable.val }

def component (frame : Frame) (part : ScanPart) : Component :=
  (frame.components[part.index]?).getD Component.absent

def coded (frame : Frame) (coding : ScanPart → BlockCoding) (part : ScanPart) :
    CodedComponent :=
  { index := part.index
    component := part.component frame
    coding := coding part }

end ScanPart

def Scan.ofParts (selected : List ScanPart) (band : ScanBand) : Scan :=
  { components := selected.map ScanPart.named
    band := band }

/-- The blocks of a scan in coding order, addressed by their place in the scan. -/
def scanOrder (frame : Frame) (selected : List ScanPart) : List BlockAddress :=
  (ScanLayout.ofComponents frame (selected.map (·.component frame))).order

def placed (selected : List ScanPart) (address : BlockAddress) : BlockAddress :=
  { address with
    component := ((selected[address.component]?).map (·.index)).getD address.component }

def covered (frame : Frame) (selected : List ScanPart) : List BlockAddress :=
  (scanOrder frame selected).map (placed selected)

section Coverage

variable {frame : Frame} {selected : List ScanPart}

theorem placed_of_getElem? {address : BlockAddress} {part : ScanPart}
    (there : selected[address.component]? = some part) :
    placed selected address = { address with component := part.index } := by
  unfold placed
  rw [there]
  rfl

theorem component_of_inFrame {part : ScanPart}
    (inFrame : part.index < frame.components.length) :
    frame.components[part.index]? = some (part.component frame) := by
  unfold ScanPart.component
  rw [List.getElem?_eq_getElem inFrame]
  rfl

theorem mem_scanOrder (inFrame : ∀ part ∈ selected, part.index < frame.components.length)
    {address : BlockAddress} (member : address ∈ scanOrder frame selected) :
    ∃ part, selected[address.component]? = some part ∧
      (placed selected address).Inside frame := by
  have admissible : ∀ component ∈ selected.map (·.component frame), component.Admissible := by
    intro component listed
    obtain ⟨part, isPart, rfl⟩ := List.mem_map.mp listed
    exact frame.admissible _ (List.mem_of_getElem? (component_of_inFrame (inFrame part isPart)))
  obtain ⟨component, there, row, column⟩ := ScanLayout.mem_order_ofComponents admissible member
  rw [List.getElem?_map] at there
  obtain ⟨part, isPart, rfl⟩ := Option.map_eq_some_iff.mp there
  refine ⟨part, isPart, part.component frame, ?_, ?_, ?_⟩
  · rw [placed_of_getElem? isPart]
    exact component_of_inFrame (inFrame part (List.mem_of_getElem? isPart))
  · exact row
  · exact column

theorem inside_of_mem_covered (inFrame : ∀ part ∈ selected, part.index < frame.components.length)
    {address : BlockAddress} (member : address ∈ covered frame selected) :
    address.Inside frame := by
  obtain ⟨inOrder, listed, rfl⟩ := List.mem_map.mp member
  obtain ⟨-, -, inside⟩ := mem_scanOrder inFrame listed
  exact inside

theorem mem_covered_sole {part : ScanPart} {address : BlockAddress} :
    address ∈ covered frame [part] ↔ address.component = part.index ∧
      address.row < frame.imageBlocksTall (part.component frame) ∧
      address.column < frame.imageBlocksWide (part.component frame) := by
  constructor
  · intro member
    obtain ⟨inOrder, listed, rfl⟩ := List.mem_map.mp member
    obtain ⟨first, row, column⟩ := ScanLayout.mem_order_raster.mp listed
    rw [placed_of_getElem? (by rw [first]; rfl)]
    exact ⟨rfl, row, column⟩
  · rintro ⟨component, row, column⟩
    refine List.mem_map.mpr ⟨{ address with component := 0 },
      ScanLayout.mem_order_raster.mpr ⟨rfl, row, column⟩, ?_⟩
    rw [placed_of_getElem? (rfl : [part][0]? = some part), ← component]

theorem covered_sole_nodup (part : ScanPart) : (covered frame [part]).Nodup := by
  refine List.Nodup.map_on ?_ (ScanLayout.order_raster_nodup _ _)
  intro first inFirst second inSecond same
  have firstZero := (ScanLayout.mem_order_raster.mp inFirst).1
  have secondZero := (ScanLayout.mem_order_raster.mp inSecond).1
  rw [placed_of_getElem? (by rw [firstZero]; rfl), placed_of_getElem? (by rw [secondZero]; rfl)]
    at same
  obtain ⟨component, row, column⟩ := first
  obtain ⟨component', row', column'⟩ := second
  cases same
  cases firstZero.trans secondZero.symm
  rfl

end Coverage

namespace ScanDecoder

variable {frame : Frame} {parts : Array CodedComponent}

/-- Blocks are replaced one after the other, as long as each step leads from a state that is
ready for the blocks left to one that is ready for those behind the first of them. -/
theorem decodeBlocks_replaces {before target : BlockAddress → Block}
    {place : BlockAddress → BlockAddress} {Ready : List BlockAddress → ScanState → Prop}
    {order front addresses : List BlockAddress} {state : ScanState}
    (step : ∀ front address rest state, order = front ++ address :: rest →
      Ready (address :: rest) state →
      frame.Replaced before target (front.map place) state.grids →
        ∃ part block, parts[address.component]? = some part ∧
          place address = { address with component := part.index } ∧
          (place address).Inside frame ∧
          part.coding.decode (blockState state part address) = .ok () block ∧
          block.block = target (place address) ∧ Ready rest (store state part address block))
    (split : order = front ++ addresses) (ready : Ready addresses state)
    (replaced : frame.Replaced before target (front.map place) state.grids) :
    ∃ after, decodeBlocks parts addresses state = .ok () after ∧
      frame.Replaced before target (order.map place) after.grids := by
  induction addresses generalizing front state with
  | nil =>
      rw [split, List.append_nil]
      exact ⟨state, rfl, replaced⟩
  | cons address rest inductionHypothesis =>
      obtain ⟨part, block, there, same, inside, decoded, equal, readyNext⟩ :=
        step front address rest state split ready replaced
      have first : decodeBlock parts address state = .ok () (store state part address block) := by
        unfold decodeBlock
        rw [there]
        dsimp only
        rw [decoded]
      have stored : frame.Replaced before target ((front ++ [address]).map place)
          (store state part address block).grids := by
        have modified := replaced.modify inside
        rw [List.map_append, List.map_singleton]
        unfold store
        rw [same] at modified equal ⊢
        rw [equal]
        exact modified
      obtain ⟨after, others, replacedAfter⟩ := inductionHypothesis
        (split.trans (List.append_cons front address rest)) readyNext stored
      exact ⟨after, (run_bind_of_ok first).trans others, replacedAfter⟩

end ScanDecoder

namespace Scan

variable {frame : Frame} {selected : List ScanPart} {band : ScanBand} {slots : HuffmanSlots}
  {coding : ScanPart → BlockCoding} {grids : Array Grid} {scanKind : ScanKind}

private theorem decode_ofParts (isKind : (ofParts selected band).kind frame = .ok scanKind)
    (inFrame : ∀ part ∈ selected, part.index < frame.components.length)
    (codings : ∀ part ∈ selected,
      codingOf scanKind (ofParts selected band) slots part.named = .ok (coding part))
    (fits : frame.Fits grids) {bytes : List UInt8} {after : ScanState}
    (decoded : ScanDecoder.decodeBlocks (selected.map (·.coded frame coding)).toArray
      (scanOrder frame selected)
      { reader := BitReader.ofBytes bytes
        predictors := Array.replicate selected.length 0
        endOfBandRun := 0
        grids := grids } = .ok () after) :
    (ofParts selected band).decode frame slots 0 bytes grids = .ok () after.grids := by
  have found : (ofParts selected band).codedComponents frame slots grids.size =
      .ok (selected.map (·.coded frame coding)) := by
    refine (bind_of_ok isKind).trans (mapM_eq_ok_iff.mpr ?_)
    rw [ofParts, List.forall₂_map_left_iff, List.forall₂_map_right_iff, List.forall₂_same]
    intro part member
    unfold codedComponent
    rw [if_pos ⟨fits.size ▸ inFrame part member, part.dcTable.isLt, part.acTable.isLt⟩,
      ← ofParts, bind_of_ok (codings part member)]
    rfl
  have components : (selected.map (·.coded frame coding)).map (·.component) =
      selected.map (·.component frame) := List.map_map
  unfold scanOrder ScanLayout.order at decoded
  unfold decode
  rw [found]
  dsimp only
  rw [components, List.length_map, ScanDecoder.decodeUnits_withoutRestarts,
    ← List.range_eq_range', decoded]

/-- A scan replaces the blocks that it covers, if it can decode each of them in a state that is
ready for it. -/
theorem decode_ofParts_replaces (target : BlockAddress → Block)
    (Reads : ScanPart → BlockCoding → Prop) (Ready : List BlockAddress → ScanState → Prop)
    {bytes : List UInt8} (isKind : (ofParts selected band).kind frame = .ok scanKind)
    (inFrame : ∀ part ∈ selected, part.index < frame.components.length)
    (codings : ∀ part ∈ selected, ∃ coding,
      codingOf scanKind (ofParts selected band) slots part.named = .ok coding ∧
        Reads part coding)
    (fits : frame.Fits grids)
    (step : ∀ front address rest state part coding,
      scanOrder frame selected = front ++ address :: rest →
      selected[address.component]? = some part → Reads part coding →
      (placed selected address).Inside frame → Ready (address :: rest) state →
      frame.Replaced (blockAt grids) target (front.map (placed selected)) state.grids →
        ∃ block, coding.decode
            { reader := state.reader
              predictor := state.predictors.getD address.component 0
              endOfBandRun := state.endOfBandRun
              block := blockAt state.grids (placed selected address) } = .ok () block ∧
          block.block = target (placed selected address) ∧
          ∀ grids, Ready rest
            { reader := block.reader
              predictors := state.predictors.setIfInBounds address.component block.predictor
              endOfBandRun := block.endOfBandRun
              grids := grids })
    (ready : Ready (scanOrder frame selected)
      { reader := BitReader.ofBytes bytes
        predictors := Array.replicate selected.length 0
        endOfBandRun := 0
        grids := grids }) :
    ∃ after, (ofParts selected band).decode frame slots 0 bytes grids = .ok () after ∧
      frame.Replaced (blockAt grids) target (covered frame selected) after := by
  have : Nonempty BlockCoding := ⟨.dcRefinement 0⟩
  choose! coding found reads using codings
  -- Each part has its coding chosen, which turns the scan into a walk over addresses.
  suffices steps : ∃ after, ScanDecoder.decodeBlocks
      (selected.map (·.coded frame coding)).toArray (scanOrder frame selected)
      { reader := BitReader.ofBytes bytes
        predictors := Array.replicate selected.length 0
        endOfBandRun := 0
        grids := grids } = .ok () after ∧
      frame.Replaced (blockAt grids) target (covered frame selected) after.grids by
    obtain ⟨after, decoded, replaced⟩ := steps
    exact ⟨after.grids, decode_ofParts isKind inFrame found fits decoded, replaced⟩
  refine ScanDecoder.decodeBlocks_replaces ?_ (List.nil_append _).symm ready
    (fits.replaced target)
  intro front address rest state split readyHere replacedSoFar
  have member : address ∈ scanOrder frame selected :=
    split ▸ List.mem_append_right _ List.mem_cons_self
  obtain ⟨part, there, inside⟩ := mem_scanOrder inFrame member
  have place := placed_of_getElem? there
  obtain ⟨block, decoded, same, readyNext⟩ := step front address rest state part (coding part)
    split there (reads part (List.mem_of_getElem? there)) inside readyHere replacedSoFar
  refine ⟨part.coded frame coding, block, ?_, place, inside, ?_, same, readyNext _⟩
  · rw [List.getElem?_toArray, List.getElem?_map, there]
    rfl
  · rw [place] at decoded
    exact decoded

end Scan

end LosslessJpeg
