import LosslessJpeg.Proofs.Transform.Reorientation
import LosslessJpeg.Proofs.Transform.Result

set_option autoImplicit false

/-!
Turning and mirroring whole images without cutting anything off: the result is the image
whose grids are reoriented one by one, and every image that is well-formed has it.
-/

namespace LosslessJpeg

def Frame.reorientGrids (result : Frame) (mapping : BlockMapping) (grids : Array Grid) :
    Array Grid :=
  ((result.components.zip grids.toList).map fun entry =>
    entry.2.reoriented mapping (result.wholeColumns entry.1)
      (result.wholeRows entry.1)).toArray

def QuantizerSlots.oriented (transpose : Bool) (slots : QuantizerSlots) : QuantizerSlots :=
  if transpose then slots.map (·.map QuantizerTable.transposed) else slots

def QuantizerTable.oriented (transpose : Bool) (table : QuantizerTable) : QuantizerTable :=
  if transpose then table.transposed else table

theorem QuantizerSlots.oriented_get (transpose : Bool) (slots : QuantizerSlots) (id : Fin 4) :
    (oriented transpose slots).get id =
      (slots.get id).map (QuantizerTable.oriented transpose) := by
  cases transpose with
  | false => exact Option.map_id'.symm
  | true => exact get_map _ slots id

theorem QuantizerSlots.oriented_join (transpose : Bool) (slots : QuantizerSlots) {id : Nat}
    (known : id < 4) :
    (oriented transpose slots)[id]?.join =
      (slots[id]?.join).map (QuantizerTable.oriented transpose) := by
  have get := oriented_get transpose slots ⟨id, known⟩
  rw [← getElem?_join_val, ← getElem?_join_val] at get
  exact get

namespace JpegImage

def reoriented (image : JpegImage) (mapping : BlockMapping) : JpegImage :=
  let frame := image.frame.reoriented mapping.transpose
  { frame := frame
    grids := frame.reorientGrids mapping image.grids
    quantizers := QuantizerSlots.oriented mapping.transpose image.quantizers
    metadata := image.metadata }

end JpegImage

namespace Frame

variable {frame : Frame} {grids : Array Grid} {mapping : BlockMapping} {index : Nat}
  {component : Component} {grid : Grid}

theorem reorientGrids_getElem? {result : Frame} (mapping : BlockMapping)
    (found : result.components[index]? = some component) (there : grids[index]? = some grid) :
    (result.reorientGrids mapping grids)[index]? =
      some (grid.reoriented mapping (result.wholeColumns component)
        (result.wholeRows component)) := by
  have listed : grids.toList[index]? = some grid := by
    rw [Array.getElem?_toList, there]
  have entry : (result.components.zip grids.toList)[index]? = some (component, grid) :=
    List.getElem?_zip_eq_some.mpr ⟨found, listed⟩
  unfold reorientGrids
  rw [List.getElem?_toArray, List.getElem?_map, entry, Option.map_some]

theorem reorientGrids_getElem?_of_some (mapping : BlockMapping)
    (found : frame.components[index]? = some component) (there : grids[index]? = some grid) :
    ((frame.reoriented mapping.transpose).reorientGrids mapping grids)[index]? =
      some (grid.reoriented mapping
        (if mapping.transpose then frame.wholeRows component
          else frame.wholeColumns component)
        (if mapping.transpose then frame.wholeColumns component
          else frame.wholeRows component)) := by
  have oriented := (frame.reoriented_getElem? mapping.transpose index).trans
    (congrArg _ found)
  rw [reorientGrids_getElem? mapping oriented there, wholeColumns_reoriented,
    wholeRows_reoriented]

theorem reorientGrids_size (fits : frame.Fits grids) :
    ((frame.reoriented mapping.transpose).reorientGrids mapping grids).size =
      (frame.reoriented mapping.transpose).components.length := by
  have same : (frame.reoriented mapping.transpose).components.length =
      frame.components.length := List.length_map _
  unfold reorientGrids
  rw [List.size_toArray, List.length_map, List.length_zip, same, Array.length_toList,
    fits.size, Nat.min_self]

theorem Fits.reoriented (fits : frame.Fits grids) (mapping : BlockMapping) :
    (frame.reoriented mapping.transpose).Fits
      ((frame.reoriented mapping.transpose).reorientGrids mapping grids) where
  size := reorientGrids_size fits
  grid := by
    intro index turned result found there
    rw [reoriented_getElem?] at found
    obtain ⟨component, listed, rfl⟩ := Option.map_eq_some_iff.mp found
    obtain ⟨grid, source, wide, tall⟩ := fits.exists_grid listed
    rw [reorientGrids_getElem?_of_some mapping listed source] at there
    cases there
    rw [Grid.reoriented_blocksWide, Grid.reoriented_blocksTall, blocksWide_reoriented,
      blocksTall_reoriented, wide, tall]
    exact ⟨rfl, rfl⟩

theorem reorientGrids_blocks (fits : frame.Fits grids) (mapping : BlockMapping) :
    ((frame.reoriented mapping.transpose).reorientGrids mapping grids).toList.map
        (fun grid => grid.blocks.size) =
      grids.toList.map fun grid => grid.blocks.size := by
  rw [(fits.reoriented mapping).map_blocks_size, fits.map_blocks_size]
  change (frame.components.map _).map _ = _
  rw [List.map_map]
  apply List.map_congr_left
  intro component _
  dsimp only [Function.comp_apply]
  rw [blocksWide_reoriented, blocksTall_reoriented]
  cases mapping.transpose
  · rfl
  · exact Nat.mul_comm _ _

end Frame

/-- A window without offset sees a source of its own size reoriented. -/
theorem BlockWindow.ofFn_block_eq {window : BlockWindow} {grid : Grid} {wide tall : Nat}
    (columnOffset : window.columnOffset = 0) (rowOffset : window.rowOffset = 0)
    (sameWide : wide = if window.mapping.transpose then grid.blocksTall else grid.blocksWide)
    (sameTall : tall = if window.mapping.transpose then grid.blocksWide else grid.blocksTall)
    (columnsInside : window.mirrorColumns ≤ wide) (rowsInside : window.mirrorRows ≤ tall) :
    Grid.ofFn wide tall (window.block grid) =
      grid.reoriented window.mapping window.mirrorColumns window.mirrorRows := by
  apply Grid.ext_block sameWide sameTall
  intro row rowInside column columnInside
  change row < tall at rowInside
  change column < wide at columnInside
  have turnedRow : row < (grid.reoriented window.mapping window.mirrorColumns
      window.mirrorRows).blocksTall := Nat.lt_of_lt_of_eq rowInside sameTall
  have turnedColumn : column < (grid.reoriented window.mapping window.mirrorColumns
      window.mirrorRows).blocksWide := Nat.lt_of_lt_of_eq columnInside sameWide
  rw [Grid.block_ofFn rowInside columnInside, Grid.reoriented_block turnedRow turnedColumn]
  have x := reflected_lt window.mapping.mirrorX columnsInside columnInside
  have y := reflected_lt window.mapping.mirrorY rowsInside rowInside
  obtain ⟨⟨transpose, mirrorX, mirrorY⟩, columns, rows, columnOffset', rowOffset'⟩ := window
  dsimp only at columnOffset rowOffset sameWide sameTall
  subst columnOffset
  subst rowOffset
  subst sameWide
  subst sameTall
  cases transpose with
  | false => exact if_pos ⟨y, x⟩
  | true => exact if_pos ⟨x, y⟩

/-- How the windows of a transformation see the source if nothing is cut off. -/
theorem remap_eq_reorientGrids {frame : Frame} {grids : Array Grid} {plan : Plan}
    {placement : Placement} (fits : frame.Fits grids)
    (windows : ∀ component, BlockWindow.make plan placement component =
      { mapping := plan.mapping
        mirrorColumns := (frame.reoriented plan.mapping.transpose).wholeColumns component
        mirrorRows := (frame.reoriented plan.mapping.transpose).wholeRows component
        columnOffset := 0
        rowOffset := 0 }) :
    remap grids plan placement (frame.reoriented plan.mapping.transpose) =
      (frame.reoriented plan.mapping.transpose).reorientGrids plan.mapping grids := by
  unfold remap Frame.reorientGrids
  refine congrArg List.toArray (List.map_congr_left fun entry member => ?_)
  obtain ⟨index, found⟩ := List.mem_iff_getElem?.mp member
  obtain ⟨turned, grid⟩ := entry
  obtain ⟨listed, there⟩ := List.getElem?_zip_eq_some.mp found
  rw [Frame.reoriented_getElem?] at listed
  rw [Array.getElem?_toList] at there
  obtain ⟨component, source, rfl⟩ := Option.map_eq_some_iff.mp listed
  obtain ⟨wide, tall⟩ := fits.grid index component grid source there
  dsimp only
  rw [windows]
  refine BlockWindow.ofFn_block_eq rfl rfl ?_ ?_ (Frame.wholeColumns_le _ _)
    (Frame.wholeRows_le _ _)
  · rw [Frame.blocksWide_reoriented, wide, tall]
  · rw [Frame.blocksTall_reoriented, wide, tall]

/-! ### The transformation -/

/-- A transformation that cuts nothing off and drops no component. -/
structure Transformation.Covers (transformation : Transformation) (frame : Frame)
    (mapping : BlockMapping) : Prop where
  coloured : transformation.grayscale = false
  mapped : transformation.plan.mapping = mapping
  width : transformation.plan.transformedWidth =
    (frame.reoriented mapping.transpose).width.toNat
  height : transformation.plan.transformedHeight =
    (frame.reoriented mapping.transpose).height.toNat
  imcuWidth : transformation.plan.imcuWidth = (frame.reoriented mapping.transpose).mcuWidth
  imcuHeight : transformation.plan.imcuHeight = (frame.reoriented mapping.transpose).mcuHeight
  placement : transformation.placement =
    { width := (frame.reoriented mapping.transpose).width.toNat
      height := (frame.reoriented mapping.transpose).height.toNat
      xOffset := 0
      yOffset := 0 }

theorem Geometry.ofFrame_imcu {frame : Frame}
    (normal : soleComponent frame.components = frame.components) :
    (ofFrame frame false).imcuWidth = frame.mcuWidth ∧
      (ofFrame frame false).imcuHeight = frame.mcuHeight := by
  change (if frame.components.length = 1 then 1 else frame.maxAcross) * 8 = frame.maxAcross * 8 ∧
    (if frame.components.length = 1 then 1 else frame.maxDown) * 8 = frame.maxDown * 8
  split
  · rename_i sole
    obtain ⟨component, listed⟩ := List.length_eq_one_iff.mp sole
    obtain ⟨-, widest, tallest⟩ := frame.unsampled_of_sole normal listed
    rw [widest, tallest]
    exact ⟨rfl, rfl⟩
  · exact ⟨rfl, rfl⟩

namespace Transformation

variable {frame : Frame} {orientation : Orientation} {options : TransformOptions}

theorem covers_of_make {transformation : Transformation}
    (normal : soleComponent frame.components = frame.components)
    (untrimmed : options.trim = false) (coloured : options.grayscale = false)
    (made : make frame (.orient orientation) options = .ok transformation) :
    transformation.Covers frame orientation.mapping := by
  have kept : dropsColour frame options = .ok false := by
    unfold dropsColour
    rw [coloured]
    rfl
  obtain ⟨imcuWidth, imcuHeight⟩ := Geometry.ofFrame_imcu normal
  unfold make at made
  rw [bind_of_ok kept] at made
  obtain ⟨plan, planned, rest⟩ := bind_eq_ok made
  obtain ⟨placement, placed, last⟩ := bind_eq_ok rest
  cases last
  unfold Plan.make at planned
  dsimp only at planned
  split at planned
  · cases planned
  · cases planned
    unfold Plan.place Plan.trimmed at placed
    rw [untrimmed] at placed
    cases placed
    have width : (frame.reoriented orientation.mapping.transpose).width.toNat =
        Plan.oriented orientation.mapping frame.width.toNat frame.height.toNat :=
      apply_ite UInt16.toNat _ _ _
    have height : (frame.reoriented orientation.mapping.transpose).height.toNat =
        Plan.oriented orientation.mapping frame.height.toNat frame.width.toNat :=
      apply_ite UInt16.toNat _ _ _
    refine ⟨rfl, rfl, width.symm, height.symm, ?_, ?_, ?_⟩
    · dsimp only
      rw [imcuWidth, imcuHeight, Frame.mcuWidth_reoriented]
      rfl
    · dsimp only
      rw [imcuWidth, imcuHeight, Frame.mcuHeight_reoriented]
      rfl
    · rw [width, height]
      rfl

theorem make_of_default (frame : Frame) (orientation : Orientation) :
    ∃ transformation, make frame (.orient orientation) {} = .ok transformation :=
  ⟨_, rfl⟩

variable {transformation : Transformation} {mapping : BlockMapping}

theorem Covers.window (covers : transformation.Covers frame mapping) (component : Component) :
    BlockWindow.make transformation.plan transformation.placement component =
      { mapping := mapping
        mirrorColumns := (frame.reoriented mapping.transpose).wholeColumns component
        mirrorRows := (frame.reoriented mapping.transpose).wholeRows component
        columnOffset := 0
        rowOffset := 0 } := by
  unfold BlockWindow.make
  rw [covers.mapped, covers.width, covers.height, covers.imcuWidth, covers.imcuHeight,
    covers.placement, Nat.zero_div, Nat.zero_div, Nat.zero_mul, Nat.zero_mul]
  rfl

theorem Covers.remap_eq (covers : transformation.Covers frame mapping) {grids : Array Grid}
    (fits : frame.Fits grids) :
    remap grids transformation.plan transformation.placement
        (frame.reoriented mapping.transpose) =
      (frame.reoriented mapping.transpose).reorientGrids mapping grids := by
  have windows := covers.window
  rw [← covers.mapped] at windows ⊢
  exact remap_eq_reorientGrids fits windows

theorem Covers.parameters_eq {source : JpegImage}
    (covers : transformation.Covers source.frame mapping) :
    transformation.parameters source.parameters = (source.reoriented mapping).parameters := by
  unfold parameters
  rw [covers.coloured, if_neg Bool.false_ne_true, covers.mapped]
  unfold JpegImage.parameters JpegImage.reoriented Frame.reoriented QuantizerSlots.oriented
    CodingParameters.transposed
  cases mapping.transpose with
  | false =>
      have same := List.map_id'' (fun component => by rfl) source.frame.components
      exact congrArg (CodingParameters.mk source.quantizers) same.symm
  | true => rfl

theorem Covers.frame_eq {source : JpegImage}
    (normal : soleComponent source.frame.components = source.frame.components)
    (covers : transformation.Covers source.frame mapping) :
    transformation.frame source.parameters =
      .ok (source.frame.reoriented mapping.transpose) := by
  have sized : transformation.size =
      .ok ((source.frame.reoriented mapping.transpose).width,
        (source.frame.reoriented mapping.transpose).height) := by
    unfold size
    rw [covers.placement]
    dsimp only
    rw [if_pos ⟨UInt16.toNat_lt _, UInt16.toNat_lt _⟩, UInt16.ofNat_toNat, UInt16.ofNat_toNat]
  have built := Frame.build_self (Frame.normal_reoriented normal mapping.transpose)
  unfold Transformation.frame
  rw [bind_of_ok sized, covers.parameters_eq]
  exact writing_eq_ok.mpr built

end Transformation

namespace JpegImage

variable {source : JpegImage}

theorem WellFormed.reoriented (wellFormed : source.WellFormed) (mapping : BlockMapping) :
    (source.reoriented mapping).WellFormed where
  normal := Frame.normal_reoriented wellFormed.normal mapping.transpose
  fits := wellFormed.fits.reoriented mapping
  quantized := by
    intro component member
    obtain ⟨before, listed, rfl⟩ := List.mem_map.mp member
    obtain ⟨table, slot⟩ := wellFormed.quantized before listed
    have known := (source.frame.admissible before listed).2.2.2.2
    refine ⟨table.oriented mapping.transpose, ?_⟩
    rw [Component.oriented_quantizer]
    change (QuantizerSlots.oriented mapping.transpose source.quantizers)[_]?.join = _
    rw [QuantizerSlots.oriented_join _ _ known, slot, Option.map_some]

end JpegImage

theorem JpegImage.blocks_reoriented {source : JpegImage}
    (fits : source.frame.Fits source.grids) (mapping : BlockMapping) (behind : Nat) :
    ((source.reoriented mapping).grids.toList.drop behind).map (fun grid => grid.blocks.size) =
      (source.grids.toList.drop behind).map fun grid => grid.blocks.size := by
  have blocks := Frame.reorientGrids_blocks fits mapping
  rw [List.map_drop, List.map_drop]
  exact congrArg (List.drop behind) blocks

theorem MetadataPolicy.select_all (segments : List Segment) :
    MetadataPolicy.all.select false segments = segments := by
  unfold select
  rw [List.filter_eq_self]
  intro segment member
  unfold keeps
  rw [Bool.or_true]
  rfl

theorem Transformation.Covers.apply_eq {transformation : Transformation}
    {mapping : BlockMapping} {source : JpegImage}
    (covers : transformation.Covers source.frame mapping) (wellFormed : source.WellFormed) :
    transformation.apply .all source = .ok (source.reoriented mapping) := by
  have turned := wellFormed.reoriented mapping
  have built := Frame.build_self turned.normal
  unfold Transformation.apply
  rw [bind_of_ok (covers.frame_eq wellFormed.normal), covers.remap_eq wellFormed.fits,
    covers.parameters_eq, covers.coloured, MetadataPolicy.select_all]
  exact writing_eq_ok.mpr (JpegImage.ofGrids_of_fits built turned.fits turned.quantized)

theorem transform_orient {file bytes : List UInt8} {source : JpegImage}
    {orientation : Orientation} (read : JpegImage.ofBytes file = .ok source)
    (written : (source.reoriented orientation.mapping).toBytes = .ok bytes) :
    ∃ header transformation, FileHeader.read file = .ok header ∧
      Transformation.make header.frame (.orient orientation) {} = .ok transformation ∧
      JpegImage.ofHeader file header = .ok source ∧
      transformation.Covers source.frame orientation.mapping ∧
      transform file (.orient orientation) {} =
        .ok
          { bytes := bytes
            partialEdge := transformation.partialEdge (.orient orientation) } := by
  have sound := JpegImage.sound_of_ofBytes read
  obtain ⟨header, headed, gathered⟩ := bind_eq_ok read
  have framed := JpegImage.ofHeader_frame gathered
  obtain ⟨transformation, made⟩ := Transformation.make_of_default header.frame orientation
  have covers : transformation.Covers source.frame orientation.mapping := by
    rw [framed]
    exact Transformation.covers_of_make (framed ▸ sound.normal) rfl rfl made
  refine ⟨header, transformation, headed, made, gathered, covers, ?_⟩
  unfold transform
  rw [bind_of_ok (reading_eq_ok.mpr headed), bind_of_ok made,
    bind_of_ok (reading_eq_ok.mpr gathered),
    bind_of_ok (covers.apply_eq sound.toWellFormed), bind_of_ok (writing_eq_ok.mpr written)]
  rfl

/-! ### One orientation after another -/

namespace Frame

theorem ext_parts {first second : Frame} (width : first.width = second.width)
    (height : first.height = second.height) (components : first.components = second.components)
    (progressive : first.progressive = second.progressive) : first = second := by
  obtain ⟨firstWidth, firstHeight, firstComponents, firstProgressive, _, _, _, _, _⟩ := first
  obtain ⟨secondWidth, secondHeight, secondComponents, secondProgressive, _, _, _, _, _⟩ := second
  dsimp only at width height components progressive
  subst width
  subst height
  subst components
  subst progressive
  rfl

theorem reoriented_reoriented (frame : Frame) (first second : Bool) :
    (frame.reoriented first).reoriented second = frame.reoriented (first ^^ second) := by
  refine ext_parts ?_ ?_ ?_ rfl
  · cases first <;> cases second <;> rfl
  · cases first <;> cases second <;> rfl
  · change (frame.components.map _).map _ = frame.components.map _
    rw [List.map_map]
    apply List.map_congr_left
    intro component _
    cases first <;> cases second <;> rfl

theorem reorientGrids_reorientGrids {frame : Frame} {grids : Array Grid}
    (fits : frame.Fits grids) (first second : BlockMapping) :
    ((frame.reoriented first.transpose).reoriented second.transpose).reorientGrids second
        ((frame.reoriented first.transpose).reorientGrids first grids) =
      (frame.reoriented (first.andThen second).transpose).reorientGrids
        (first.andThen second) grids := by
  have fitsFirst := fits.reoriented first
  have fitsBoth := fitsFirst.reoriented second
  have fitsOnce := fits.reoriented (first.andThen second)
  refine Array.ext_getElem? fun index => ?_
  cases found : frame.components[index]? with
  | none =>
      have outside := List.getElem?_eq_none_iff.mp found
      have few : ∀ transpose, (frame.reoriented transpose).components.length =
          frame.components.length := fun _ => List.length_map _
      have fewBoth : ((frame.reoriented first.transpose).reoriented
          second.transpose).components.length = frame.components.length :=
        (List.length_map _).trans (few _)
      rw [Array.getElem?_eq_none (by rw [fitsBoth.size, fewBoth]; exact outside),
        Array.getElem?_eq_none (by rw [fitsOnce.size, few]; exact outside)]
  | some component =>
      obtain ⟨grid, there, wide, tall⟩ := fits.exists_grid found
      have foundFirst := (frame.reoriented_getElem? first.transpose index).trans
        (congrArg _ found)
      have thereFirst := reorientGrids_getElem?_of_some first found there
      have columnsInside := frame.wholeColumns_le component
      have rowsInside := frame.wholeRows_le component
      rw [reorientGrids_getElem?_of_some second foundFirst thereFirst,
        reorientGrids_getElem?_of_some _ found there, wholeColumns_reoriented,
        wholeRows_reoriented, Grid.reoriented_reoriented]
      · -- The numbers of whole iMCUs are exchanged by each step that transposes.
        have exchanged : ∀ across down : Nat,
            (if second.transpose then (if first.transpose then across else down)
              else if first.transpose then down else across) =
            if (first.andThen second).transpose then down else across := by
          intro across down
          unfold BlockMapping.andThen
          cases first.transpose <;> cases second.transpose <;> rfl
        rw [exchanged, exchanged]
      · rw [Grid.reoriented_blocksWide, wide, tall]
        cases first.transpose
        · exact columnsInside
        · exact rowsInside
      · rw [Grid.reoriented_blocksTall, wide, tall]
        cases first.transpose
        · exact rowsInside
        · exact columnsInside

end Frame

namespace JpegImage

variable {source : JpegImage}

private theorem any_reoriented (frame : Frame) (transpose : Bool) (id : Nat) :
    ((frame.reoriented transpose).components.any fun component => component.quantizer = id) =
      frame.components.any fun component => component.quantizer = id := by
  change ((frame.components.map _).any _) = _
  rw [List.any_map]
  congr 1
  funext component
  exact congrArg (fun quantizer => decide (quantizer = id))
    (component.oriented_quantizer transpose)

theorem usedQuantizers_reoriented (mapping : BlockMapping) :
    (source.reoriented mapping).usedQuantizers =
      QuantizerSlots.oriented mapping.transpose source.usedQuantizers := by
  apply ext_get
  intro id
  rw [QuantizerSlots.oriented_get, usedQuantizers_get, usedQuantizers_get]
  change (if (source.frame.reoriented mapping.transpose).components.any _ then
    (QuantizerSlots.oriented mapping.transpose source.quantizers).get id else none) = _
  rw [any_reoriented, QuantizerSlots.oriented_get]
  split
  · rfl
  · rfl

theorem oriented_oriented (first second : Bool) (slots : QuantizerSlots) :
    QuantizerSlots.oriented second (QuantizerSlots.oriented first slots) =
      QuantizerSlots.oriented (first ^^ second) slots := by
  apply ext_get
  intro id
  rw [QuantizerSlots.oriented_get, QuantizerSlots.oriented_get, QuantizerSlots.oriented_get,
    Option.map_map]
  refine congrArg (Option.map · _) (funext fun table => ?_)
  cases first <;> cases second
  · rfl
  · rfl
  · rfl
  · exact table.transposed_transposed

theorem usedQuantizers_written : source.written.usedQuantizers = source.usedQuantizers := by
  apply ext_get
  intro id
  rw [usedQuantizers_get]
  change (if source.frame.components.any _ then source.usedQuantizers.get id else none) = _
  rw [usedQuantizers_get]
  split
  · rfl
  · rfl

theorem written_congr {first second : JpegImage} (frame : first.frame = second.frame)
    (grids : first.grids = second.grids)
    (quantizers : first.usedQuantizers = second.usedQuantizers)
    (metadata : first.metadata = second.metadata) : first.written = second.written := by
  unfold written
  rw [quantizers]
  obtain ⟨_, _, _, _⟩ := first
  obtain ⟨_, _, _, _⟩ := second
  dsimp only at frame grids metadata ⊢
  rw [frame, grids, metadata]

/-- What is written of an image is all that its file depends on. -/
theorem toBytes_written : source.written.toBytes = source.toBytes := by
  unfold toBytes segments frameMarker
  rw [usedQuantizers_written]
  rfl

/-- Orienting an image twice is orienting it once, as far as its file can tell. -/
theorem reoriented_reoriented (fits : source.frame.Fits source.grids)
    (first second : BlockMapping) :
    ((source.reoriented first).written.reoriented second).written =
      (source.reoriented (first.andThen second)).written := by
  have frame := source.frame.reoriented_reoriented first.transpose second.transpose
  have grids := Frame.reorientGrids_reorientGrids fits first second
  have quantizers : ((source.reoriented first).written.reoriented second).usedQuantizers =
      (source.reoriented (first.andThen second)).usedQuantizers := by
    rw [usedQuantizers_reoriented, usedQuantizers_written, usedQuantizers_reoriented,
      usedQuantizers_reoriented, oriented_oriented]
    rfl
  exact written_congr frame grids quantizers rfl

def grayPair (reaches : Bool) (scale : UInt16) (left right : Block) : JpegImage :=
  { frame :=
      { width := if reaches then 12 else 16
        height := 8
        components := [{ id := 1, across := 1, down := 1, quantizer := 0 }]
        progressive := false
        width_ne_zero := by cases reaches <;> decide
        height_ne_zero := by decide
        components_ne_nil := by decide
        components_length := by decide
        admissible := by decide }
    grids :=
      #[{ blocksWide := 2
          blocksTall := 1
          blocks := #[left, right]
          blocks_size := rfl }]
    quantizers := #v[some (Vector.replicate 64 scale), none, none, none]
    metadata := [] }

end JpegImage

end LosslessJpeg
