import LosslessJpeg.Proofs.Transform.OrientedCrop

set_option autoImplicit false

/-!
Trimmed images. What a transformation leaves of an image that keeps its colour is cut out of
the oriented image, so that cutting off edges that would stay unmirrored comes to cropping the
source to its whole iMCUs first.
-/

namespace LosslessJpeg

theorem BlockWindow.partOf {window : BlockWindow} {grid turned : Grid} {wide tall : Nat}
    (same : turned = grid.reoriented window.mapping window.mirrorColumns window.mirrorRows)
    (columnsInside : window.mirrorColumns ≤ turned.blocksWide)
    (rowsInside : window.mirrorRows ≤ turned.blocksTall)
    (across : window.columnOffset + wide ≤ turned.blocksWide)
    (down : window.rowOffset + tall ≤ turned.blocksTall) :
    (Grid.ofFn wide tall (window.block grid)).PartOf turned window.rowOffset
      window.columnOffset := by
  subst same
  intro row rowInside column columnInside
  change row < tall at rowInside
  change column < wide at columnInside
  have rowPlaced := Nat.lt_of_lt_of_le (Nat.add_lt_add_left rowInside window.rowOffset) down
  have columnPlaced :=
    Nat.lt_of_lt_of_le (Nat.add_lt_add_left columnInside window.columnOffset) across
  rw [Nat.add_comm] at rowPlaced columnPlaced
  refine ⟨rowPlaced, columnPlaced, ?_⟩
  rw [Grid.block_ofFn rowInside columnInside, Grid.reoriented_block rowPlaced columnPlaced]
  have x := reflected_lt window.mapping.mirrorX columnsInside columnPlaced
  have y := reflected_lt window.mapping.mirrorY rowsInside rowPlaced
  obtain ⟨⟨transpose, mirrorX, mirrorY⟩, columns, rows, columnOffset, rowOffset⟩ := window
  cases transpose with
  | false => exact if_pos ⟨y, x⟩
  | true => exact if_pos ⟨x, y⟩

namespace Transformation

variable {transformation : Transformation}

section Frames

variable {source result : Frame}

theorem Places.components_reoriented (places : transformation.Places source result)
    (normal : soleComponent source.components = source.components)
    (coloured : transformation.grayscale = false) :
    result.components =
      (source.reoriented transformation.plan.mapping.transpose).components := by
  rw [places.components, components_of_coloured coloured, Frame.normal_reoriented normal]

theorem Places.imcu_reoriented (places : transformation.Places source result)
    (normal : soleComponent source.components = source.components)
    (coloured : transformation.grayscale = false) :
    transformation.plan.imcuWidth =
        (source.reoriented transformation.plan.mapping.transpose).mcuWidth ∧
      transformation.plan.imcuHeight =
        (source.reoriented transformation.plan.mapping.transpose).mcuHeight := by
  obtain ⟨widest, tallest⟩ := Frame.max_congr (places.components_reoriented normal coloured)
  exact ⟨places.imcuWidth.trans (congrArg (· * 8) widest),
    places.imcuHeight.trans (congrArg (· * 8) tallest)⟩

theorem Places.window_reoriented (places : transformation.Places source result)
    (normal : soleComponent source.components = source.components)
    (coloured : transformation.grayscale = false) (component : Component) :
    let turned := source.reoriented transformation.plan.mapping.transpose
    BlockWindow.make transformation.plan transformation.placement component =
      { mapping := transformation.plan.mapping
        mirrorColumns := turned.wholeColumns component
        mirrorRows := turned.wholeRows component
        columnOffset := transformation.placement.xOffset / turned.mcuWidth * component.across
        rowOffset := transformation.placement.yOffset / turned.mcuHeight * component.down } := by
  obtain ⟨imcuWidth, imcuHeight⟩ := places.imcu_reoriented normal coloured
  unfold BlockWindow.make
  rw [places.transformedWidth, places.transformedHeight, imcuWidth, imcuHeight]
  rfl

theorem Places.blocks_reoriented (places : transformation.Places source result)
    (normal : soleComponent source.components = source.components)
    (coloured : transformation.grayscale = false) (component : Component) :
    let turned := source.reoriented transformation.plan.mapping.transpose
    transformation.placement.xOffset / turned.mcuWidth * component.across +
          result.blocksWide component ≤ turned.blocksWide component ∧
      transformation.placement.yOffset / turned.mcuHeight * component.down +
          result.blocksTall component ≤ turned.blocksTall component := by
  obtain ⟨imcuWidth, imcuHeight⟩ := places.imcu_reoriented normal coloured
  have across := places.across
  have down := places.down
  rw [places.transformedWidth, imcuWidth] at across
  rw [places.transformedHeight, imcuHeight] at down
  unfold Frame.blocksWide Frame.blocksTall Frame.mcusWide Frame.mcusTall
  rw [← places.imcuWidth, ← places.imcuHeight, places.width, places.height, imcuWidth, imcuHeight]
  exact ⟨across.padded_inside (Frame.mcuWidth_pos _) _,
    down.padded_inside (Frame.mcuHeight_pos _) _⟩

end Frames

theorem Places.cropOf {source result : JpegImage}
    (places : transformation.Places source.frame result.frame) (wellFormed : source.WellFormed)
    (applied : transformation.apply .all source = .ok result)
    (coloured : transformation.grayscale = false) :
    result.written.CropOf (source.reoriented transformation.plan.mapping).written
      transformation.placement.region where
  width := places.width
  height := places.height
  components := places.components_reoriented wellFormed.normal coloured
  quantizers := by
    change result.usedQuantizers = (source.reoriented _).written.usedQuantizers
    rw [JpegImage.usedQuantizers_written]
    refine JpegImage.usedQuantizers_congr
      (places.components_reoriented wellFormed.normal coloured) ?_
    rw [(apply_eq_ok applied).2.2.1, parameters_quantizers, if_neg (by simp [coloured])]
    rfl
  fits := (apply_eq_ok applied).2.2.2.2.fits
  sequential := (Frame.build_eq_ok (frame_eq_ok (apply_eq_ok applied).1).2.2).2.2.2
  metadata := by
    refine (apply_eq_ok applied).2.2.2.1.trans ?_
    rw [coloured, MetadataPolicy.select_all]
    rfl
  blocks := by
    intro index component turned found there
    change (source.frame.reoriented _).components[index]? = some component at found
    change ((source.frame.reoriented _).reorientGrids _ source.grids)[index]? = _ at there
    obtain ⟨_, before, -⟩ := Option.map_eq_some_iff.mp
      ((source.frame.reoriented_getElem? _ index).symm.trans found)
    obtain ⟨grid, given, -⟩ := wellFormed.fits.exists_grid before
    obtain ⟨wide, tall⟩ := (wellFormed.fits.reoriented transformation.plan.mapping).grid index
      component turned found there
    -- What the window sees is the same part of the oriented grid, which itself is never built.
    have moved := remap_getElem? transformation.plan transformation.placement
      (places.components_reoriented wellFormed.normal coloured ▸ found) given
    rw [← (apply_eq_ok applied).2.1, places.window_reoriented wellFormed.normal coloured] at moved
    obtain ⟨across, down⟩ := places.blocks_reoriented wellFormed.normal coloured component
    refine ⟨_, moved, BlockWindow.partOf ?_ ?_ ?_ ?_ ?_⟩
    · exact Option.some.inj
        (there.symm.trans (Frame.reorientGrids_getElem? transformation.plan.mapping found given))
    · exact wide ▸ Frame.wholeColumns_le _ component
    · exact tall ▸ Frame.wholeRows_le _ component
    · exact wide ▸ across
    · exact tall ▸ down

end Transformation

/-- What trimming leaves of an axis: its whole iMCUs if it is mirrored and has any. -/
def wholeExtent (mirrored : Bool) (extent imcu : Nat) : Nat :=
  if mirrored = true ∧ imcu ≤ extent then extent / imcu * imcu else extent

section WholeExtent

variable {extent imcu : Nat}

theorem Plan.trimmed_eq (mirrored : Bool) (extent imcu : Nat) :
    trimmed true mirrored extent imcu = wholeExtent mirrored extent imcu := by
  unfold trimmed wholeExtent
  rw [Nat.div_mul_self_eq_mod_sub_self]
  simp only [Bool.true_and, Bool.and_eq_true, decide_eq_true_eq]

theorem wholeExtent_pos (some : 0 < extent) (positive : 0 < imcu) (mirrored : Bool) :
    0 < wholeExtent mirrored extent imcu := by
  rw [← Plan.trimmed_eq]
  exact (Plan.placed_trimmed some positive true mirrored).nonempty

theorem wholeExtent_le (mirrored : Bool) (extent imcu : Nat) :
    wholeExtent mirrored extent imcu ≤ extent := by
  unfold wholeExtent
  split
  · exact Nat.div_mul_le_self extent imcu
  · exact Nat.le_refl extent

theorem wholeExtent_aligned (mirrored : Bool) (extent imcu : Nat) :
    AxisAligned imcu extent 0 (wholeExtent mirrored extent imcu) := by
  refine ⟨Nat.dvd_zero imcu, ?_⟩
  rw [Nat.zero_add]
  unfold wholeExtent
  split
  · exact Or.inl (Nat.dvd_mul_left imcu _)
  · exact Or.inr rfl

theorem wholeExtent_div (positive : 0 < imcu) (mirrored : Bool) (extent : Nat) :
    wholeExtent mirrored extent imcu / imcu = extent / imcu := by
  unfold wholeExtent
  split
  · exact Nat.mul_div_cancel _ positive
  · rfl

end WholeExtent

def Frame.wholePart (frame : Frame) (orientation : Orientation) : Region :=
  { x := 0
    y := 0
    width := wholeExtent orientation.mirrorsColumns frame.width.toNat frame.mcuWidth
    height := wholeExtent orientation.mirrorsRows frame.height.toNat frame.mcuHeight }

namespace Frame

variable (frame : Frame) (orientation : Orientation)

theorem wholePart_nonempty :
    (frame.wholePart orientation).width ≠ 0 ∧ (frame.wholePart orientation).height ≠ 0 :=
  ⟨Nat.ne_of_gt (wholeExtent_pos (toNat_pos frame.width_ne_zero) frame.mcuWidth_pos _),
    Nat.ne_of_gt (wholeExtent_pos (toNat_pos frame.height_ne_zero) frame.mcuHeight_pos _)⟩

theorem wholePart_inside : (frame.wholePart orientation).Inside frame := by
  unfold Region.Inside wholePart
  rw [Nat.zero_add, Nat.zero_add]
  exact ⟨wholeExtent_le _ _ _, wholeExtent_le _ _ _⟩

theorem wholePart_aligned : (frame.wholePart orientation).Aligned frame :=
  ⟨wholeExtent_aligned _ _ _, wholeExtent_aligned _ _ _⟩

end Frame

theorem Transformation.make_trim {frame : Frame}
    (normal : soleComponent frame.components = frame.components) (orientation : Orientation) :
    ∃ transformation, make frame (.orient orientation) { trim := true } = .ok transformation ∧
      transformation.grayscale = false ∧
      transformation.plan.mapping = orientation.mapping ∧
      transformation.placement.region =
        { x := 0
          y := 0
          width :=
            if orientation.mapping.transpose then (frame.wholePart orientation).height
            else (frame.wholePart orientation).width
          height :=
            if orientation.mapping.transpose then (frame.wholePart orientation).width
            else (frame.wholePart orientation).height } := by
  obtain ⟨transformation, made⟩ : ∃ transformation,
      make frame (.orient orientation) { trim := true } = .ok transformation := ⟨_, rfl⟩
  obtain ⟨kept, planned, placed⟩ := make_eq_ok made
  have coloured : transformation.grayscale = false := (Except.ok.inj kept).symm
  rw [coloured] at planned placed
  obtain ⟨mapped, width, height, imcuWidth, imcuHeight⟩ := Plan.make_eq_ok planned
  obtain ⟨wide, tall⟩ := Geometry.ofFrame_imcu normal
  rw [wide, tall] at imcuWidth imcuHeight
  refine ⟨transformation, made, coloured, mapped, ?_⟩
  rw [← Except.ok.inj placed]
  unfold Placement.region
  dsimp only
  rw [Plan.trimmed_eq, Plan.trimmed_eq, mapped, width, height, imcuWidth, imcuHeight]
  cases orientation <;> rfl

/-- What keeps all whole iMCUs at the front of an image keeps its place there. -/
theorem JpegImage.CropOf.reoriented_of_front {cut source : JpegImage} {region : Region}
    (crop : cut.CropOf source region) (fits : source.frame.Fits source.grids)
    (x : region.x = 0) (y : region.y = 0)
    (width : region.width / source.frame.mcuWidth =
      source.frame.width.toNat / source.frame.mcuWidth)
    (height : region.height / source.frame.mcuHeight =
      source.frame.height.toNat / source.frame.mcuHeight) (orientation : Orientation) :
    (cut.reoriented orientation.mapping).written.CropOf
      (source.reoriented orientation.mapping).written
      { x := 0
        y := 0
        width := if orientation.mapping.transpose then region.height else region.width
        height := if orientation.mapping.transpose then region.width else region.height } := by
  obtain ⟨mcuWidth, mcuHeight⟩ : cut.frame.mcuWidth = source.frame.mcuWidth ∧
      cut.frame.mcuHeight = source.frame.mcuHeight := crop.mcu_eq
  refine crop.reoriented fits rfl rfl (fun component => ?_) fun component => ?_
  · rw [x, ite_self, Nat.zero_div, Nat.zero_mul]
    refine .front ?_ (cut.frame.wholeColumns_le component)
    unfold Frame.wholeColumns
    rw [mcuWidth, crop.width, width]
  · rw [y, ite_self, Nat.zero_div, Nat.zero_mul]
    refine .front ?_ (cut.frame.wholeRows_le component)
    unfold Frame.wholeRows
    rw [mcuHeight, crop.height, height]

/-- Trimming an orientation comes to cropping the image to whole iMCUs on the axes that are
mirrored, as far as it has any there, and orienting what is left. -/
theorem transform_trim {file : List UInt8} {source : JpegImage}
    (read : JpegImage.ofBytes file = .ok source)
    (distinct : (source.frame.components.map (·.id)).Nodup)
    (small : ∀ grid ∈ source.grids, ∀ block ∈ grid.blocks, ∀ position,
      -16383 ≤ (block.get position).toInt ∧ (block.get position).toInt ≤ 16383)
    (few : ((source.grids.toList.drop 1).map fun grid => grid.blocks.size).sum ≤ 2 ^ 26)
    (orientation : Orientation) :
    ∃ trimmed, transform file (.orient orientation) { trim := true } = .ok trimmed ∧
      (crop file (source.frame.wholePart orientation) >>= fun cut =>
        reorient cut orientation) = .ok trimmed.bytes := by
  have turnable := JpegImage.turnable_of_ofBytes read distinct small few
  obtain ⟨wide, tall⟩ := source.frame.wholePart_nonempty orientation
  obtain ⟨cut, image, cropped, readCut, -, cutTurnable, cropOf⟩ :=
    exists_crop_of_aligned read turnable _ wide tall (source.frame.wholePart_inside orientation)
      (source.frame.wholePart_aligned orientation)
  obtain ⟨bytes, oriented, written, -⟩ := transformBytes_orient readCut cutTurnable orientation
  obtain ⟨transformation, made, coloured, mapped, placed⟩ :=
    Transformation.make_trim turnable.normal orientation
  obtain ⟨result, applied, -, places⟩ :=
    Transformation.exists_image turnable.toWellFormed made .all
  -- One way trims the oriented image, the other one orients the cropped image. Either result is
  -- the same part of the oriented image.
  have trimmed := places.cropOf turnable.toWellFormed applied coloured
  rw [mapped, placed] at trimmed
  have same := (cropOf.reoriented_of_front turnable.fits rfl rfl
    (wholeExtent_div source.frame.mcuWidth_pos _ _)
    (wholeExtent_div source.frame.mcuHeight_pos _ _) orientation).unique trimmed
      (turnable.reoriented orientation.mapping).fits
  rw [← JpegImage.toBytes_written, same, JpegImage.toBytes_written] at written
  exact ⟨_, transform_of_ofBytes read made applied written, (bind_of_ok cropped).trans oriented⟩

/-- Of three MCUs the last one is cut by the edge. It is trimmed away when the image is turned to
the left, which mirrors the columns. -/
theorem transform_trim_strip : ∃ trimmed,
    transform (stripFile 40 8) (.orient .rotate270) { trim := true } = .ok trimmed ∧
      (crop (stripFile 40 8) { x := 0, y := 0, width := 32, height := 8 } >>= fun cut =>
        reorient cut .rotate270) = .ok trimmed.bytes :=
  transform_trim ofBytes_stripFile (by decide) (strip_small _) (by decide) .rotate270

end LosslessJpeg
