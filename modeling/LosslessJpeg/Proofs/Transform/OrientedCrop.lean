import LosslessJpeg.Proofs.Transform.CroppedFile
import LosslessJpeg.Proofs.Transform.SamplePlane

set_option autoImplicit false

/-!
Crops of turned and mirrored images. Among whole iMCUs it does not matter whether an image is
cropped or oriented first, if the rectangle is moved along with the image.
-/

namespace LosslessJpeg

namespace Orientation

def mirrorsColumns : Orientation → Bool
  | .rotate180 | .rotate270 | .flipHorizontal | .transverse => true
  | _ => false

def mirrorsRows : Orientation → Bool
  | .rotate90 | .rotate180 | .flipVertical | .transverse => true
  | _ => false

theorem mirrors_eq (orientation : Orientation) :
    orientation.mirrorsColumns =
        (if orientation.mapping.transpose then orientation.mapping.mirrorY
          else orientation.mapping.mirrorX) ∧
      orientation.mirrorsRows =
        (if orientation.mapping.transpose then orientation.mapping.mirrorX
          else orientation.mapping.mirrorY) := by
  cases orientation <;> exact ⟨rfl, rfl⟩

end Orientation

namespace Region

def oriented (region : Region) (width height : Nat) : Orientation → Region
  | .identity => region
  | .rotate90 =>
      { x := height - region.y - region.height
        y := region.x
        width := region.height
        height := region.width }
  | .rotate180 =>
      { region with
        x := width - region.x - region.width
        y := height - region.y - region.height }
  | .rotate270 =>
      { x := region.y
        y := width - region.x - region.width
        width := region.height
        height := region.width }
  | .flipHorizontal => { region with x := width - region.x - region.width }
  | .flipVertical => { region with y := height - region.y - region.height }
  | .transpose =>
      { x := region.y
        y := region.x
        width := region.height
        height := region.width }
  | .transverse =>
      { x := height - region.y - region.height
        y := width - region.x - region.width
        width := region.height
        height := region.width }

def Has (region : Region) (place : Nat × Nat) : Prop :=
  (region.y ≤ place.1 ∧ place.1 < region.y + region.height) ∧
    region.x ≤ place.2 ∧ place.2 < region.x + region.width

/-- The moved region holds just the pixels that the orientation takes from the region. -/
theorem oriented_has {region : Region} {width height : Nat}
    (insideX : region.x + region.width ≤ width) (insideY : region.y + region.height ≤ height)
    (orientation : Orientation) {y x : Nat}
    (placed : (oriented ⟨0, 0, width, height⟩ width height orientation).Has (y, x)) :
    (region.oriented width height orientation).Has (y, x) ↔
      region.Has (orientation.origin height width y x) := by
  unfold Has at placed ⊢
  cases orientation <;> simp only [oriented, Orientation.origin] at placed ⊢ <;> omega

def turnedStart (mirror : Bool) (extent start size : Nat) : Nat :=
  if mirror then extent - start - size else start

theorem turnedStart_add_le (mirror : Bool) {extent start size : Nat}
    (inside : start + size ≤ extent) : turnedStart mirror extent start size + size ≤ extent := by
  unfold turnedStart
  split <;> omega

theorem dvd_turnedStart (mirror : Bool) {imcu extent start size : Nat} (whole : imcu ∣ extent)
    (begins : imcu ∣ start) (length : imcu ∣ size) :
    imcu ∣ turnedStart mirror extent start size := by
  unfold turnedStart
  split
  · exact Nat.dvd_sub (Nat.dvd_sub whole begins) length
  · exact begins

theorem oriented_eq (region : Region) (width height : Nat) (orientation : Orientation) :
    region.oriented width height orientation =
      let x := turnedStart orientation.mirrorsColumns width region.x region.width
      let y := turnedStart orientation.mirrorsRows height region.y region.height
      if orientation.mapping.transpose then
        { x := y
          y := x
          width := region.height
          height := region.width }
      else
        { region with
          x := x
          y := y } := by
  cases orientation <;> rfl

theorem oriented_start (region : Region) (width height : Nat) (orientation : Orientation) :
    let moved := region.oriented width height orientation
    (if orientation.mapping.transpose then moved.y else moved.x) =
        turnedStart orientation.mirrorsColumns width region.x region.width ∧
      (if orientation.mapping.transpose then moved.x else moved.y) =
        turnedStart orientation.mirrorsRows height region.y region.height := by
  cases orientation <;> exact ⟨rfl, rfl⟩

structure OfWholeUnits (region : Region) (imcuWidth imcuHeight : Nat) : Prop where
  x : imcuWidth ∣ region.x
  y : imcuHeight ∣ region.y
  width : imcuWidth ∣ region.width
  height : imcuHeight ∣ region.height

theorem OfWholeUnits.aligned {region : Region} {frame : Frame}
    (units : region.OfWholeUnits frame.mcuWidth frame.mcuHeight) : region.Aligned frame :=
  ⟨⟨units.x, Or.inl (Nat.dvd_add units.x units.width)⟩,
    ⟨units.y, Or.inl (Nat.dvd_add units.y units.height)⟩⟩

theorem Inside.oriented {region : Region} {frame : Frame} (inside : region.Inside frame)
    (orientation : Orientation) :
    (region.oriented frame.width.toNat frame.height.toNat orientation).Inside
      (frame.reoriented orientation.mapping.transpose) := by
  have across := turnedStart_add_le orientation.mirrorsColumns inside.1
  have down := turnedStart_add_le orientation.mirrorsRows inside.2
  rw [oriented_eq]
  cases orientation.mapping.transpose with
  | false => exact ⟨across, down⟩
  | true => exact ⟨down, across⟩

theorem OfWholeUnits.oriented {region : Region} {frame : Frame}
    (units : region.OfWholeUnits frame.mcuWidth frame.mcuHeight)
    (width : frame.mcuWidth ∣ frame.width.toNat) (height : frame.mcuHeight ∣ frame.height.toNat)
    (orientation : Orientation) :
    (region.oriented frame.width.toNat frame.height.toNat orientation).OfWholeUnits
      (frame.reoriented orientation.mapping.transpose).mcuWidth
      (frame.reoriented orientation.mapping.transpose).mcuHeight := by
  have x := dvd_turnedStart orientation.mirrorsColumns width units.x units.width
  have y := dvd_turnedStart orientation.mirrorsRows height units.y units.height
  rw [oriented_eq, Frame.mcuWidth_reoriented, Frame.mcuHeight_reoriented]
  cases orientation.mapping.transpose with
  | false => exact ⟨x, y, units.width, units.height⟩
  | true => exact ⟨y, x, units.height, units.width⟩

theorem oriented_nonempty (region : Region) (width height : Nat) (orientation : Orientation) :
    ((region.oriented width height orientation).width ≠ 0 ∧
        (region.oriented width height orientation).height ≠ 0) ↔
      region.width ≠ 0 ∧ region.height ≠ 0 := by
  rw [oriented_eq]
  cases orientation.mapping.transpose with
  | false => exact Iff.rfl
  | true => exact And.comm

end Region

/-! ### One axis -/

/-- How the places of a part of an axis are found in the whole of it, before and behind the
axis is oriented: they lie `offset` and `turned` places further there. Of the `size` places of
the part and of all places of the axis, the first `part` and `whole` ones are in whole iMCUs. -/
inductive AxisTurned (size part whole : Nat) : Bool → Nat → Nat → Prop
  | straight (offset : Nat) : AxisTurned size part whole false offset offset
  | mirrored {offset turned : Nat} (full : size = part) (sum : turned + part + offset = whole) :
      AxisTurned size part whole true offset turned
  /-- A part with all of the whole iMCUs is mirrored in itself. -/
  | front {mirror : Bool} (all : part = whole) (fits : part ≤ size) :
      AxisTurned size part whole mirror 0 0

namespace AxisTurned

variable {mirror : Bool} {size part whole offset turned place : Nat}

theorem reflected_lt (axis : AxisTurned size part whole mirror offset turned)
    (placed : place < size) : reflected mirror part place < size := by
  cases axis with
  | straight => exact placed
  | mirrored full sum =>
      subst full
      exact reflected_lt_whole true placed
  | front all fits => exact LosslessJpeg.reflected_lt mirror fits placed

theorem reflected_add (axis : AxisTurned size part whole mirror offset turned)
    (placed : place < size) :
    reflected mirror part place + offset = reflected mirror whole (place + turned) ∧
      (mirror && decide (place < part)) = (mirror && decide (place + turned < whole)) := by
  cases axis with
  | straight => exact ⟨rfl, rfl⟩
  | mirrored full sum =>
      have own : place < part := by omega
      have further : place + turned < whole := by omega
      rw [reflected_of_lt true own, reflected_of_lt true further, if_pos rfl, if_pos rfl,
        decide_eq_true own, decide_eq_true further]
      exact ⟨by omega, rfl⟩
  | front all fits =>
      subst all
      exact ⟨rfl, rfl⟩

theorem add_lt {extent : Nat} (axis : AxisTurned size part whole mirror offset turned)
    (inside : whole ≤ extent) (placed : place < size)
    (source : reflected mirror part place + offset < extent) : place + turned < extent := by
  cases axis with
  | straight => exact source
  | mirrored full sum => omega
  | front all fits =>
      -- Mirroring keeps to the extent, and takes the source back to the place.
      subst all
      have back := LosslessJpeg.reflected_lt mirror inside source
      rw [Nat.add_zero, reflected_reflected, Bool.xor_self] at back
      exact back

/-- On an axis of whole iMCUs some of them are cut out. -/
theorem of_units {imcu extent start length : Nat} (positive : 0 < imcu)
    (inside : start + length ≤ extent) (whole : imcu ∣ extent) (begins : imcu ∣ start)
    (units : imcu ∣ length) (mirror : Bool) (factor : Nat) :
    AxisTurned (ceilDiv length imcu * factor) (length / imcu * factor) (extent / imcu * factor)
      mirror (start / imcu * factor)
      (Region.turnedStart mirror extent start length / imcu * factor) := by
  cases mirror with
  | false => exact .straight _
  | true =>
      obtain ⟨all, rfl⟩ := whole
      obtain ⟨before, rfl⟩ := begins
      obtain ⟨own, rfl⟩ := units
      have fitting : before + own ≤ all := by
        rw [← Nat.mul_add] at inside
        exact Nat.le_of_mul_le_mul_left inside positive
      unfold Region.turnedStart
      rw [if_pos rfl, ← Nat.mul_sub, ← Nat.mul_sub, Nat.mul_comm imcu own,
        ceilDiv_mul_cancel own positive, Nat.mul_div_cancel own positive,
        Nat.mul_div_cancel_left _ positive, Nat.mul_div_cancel_left _ positive,
        Nat.mul_div_cancel_left _ positive]
      refine .mirrored rfl ?_
      rw [← Nat.add_mul, ← Nat.add_mul, Nat.sub_sub, Nat.add_assoc, Nat.add_comm own,
        Nat.sub_add_cancel fitting]

end AxisTurned

theorem Grid.PartOf.reoriented {mapping : BlockMapping} {part whole : Grid}
    {rowOffset columnOffset columns rows wholeColumns wholeRows turnedRow turnedColumn : Nat}
    (partOf : part.PartOf whole rowOffset columnOffset)
    (across : AxisTurned (part.reoriented mapping columns rows).blocksWide columns wholeColumns
      mapping.mirrorX (if mapping.transpose then rowOffset else columnOffset) turnedColumn)
    (down : AxisTurned (part.reoriented mapping columns rows).blocksTall rows wholeRows
      mapping.mirrorY (if mapping.transpose then columnOffset else rowOffset) turnedRow)
    (columnsInside : wholeColumns ≤ (whole.reoriented mapping wholeColumns wholeRows).blocksWide)
    (rowsInside : wholeRows ≤ (whole.reoriented mapping wholeColumns wholeRows).blocksTall) :
    (part.reoriented mapping columns rows).PartOf
      (whole.reoriented mapping wholeColumns wholeRows) turnedRow turnedColumn := by
  intro row rowInside column columnInside
  -- Where the place comes from in the part, and that this is the same place of the whole grid.
  have x := across.reflected_lt columnInside
  have y := down.reflected_lt rowInside
  obtain ⟨sameColumn, mirroredX⟩ := across.reflected_add columnInside
  obtain ⟨sameRow, mirroredY⟩ := down.reflected_add rowInside
  obtain ⟨transpose, mirrorX, mirrorY⟩ := mapping
  cases transpose with
  | false =>
      obtain ⟨rowPlaced, columnPlaced, same⟩ := partOf _ y _ x
      have rowInWhole := down.add_lt rowsInside rowInside rowPlaced
      have columnInWhole := across.add_lt columnsInside columnInside columnPlaced
      refine ⟨rowInWhole, columnInWhole, ?_⟩
      rw [reoriented_block rowInside columnInside, reoriented_block rowInWhole columnInWhole,
        mirroredX, mirroredY, ← sameRow, ← sameColumn]
      exact congrArg _ same
  | true =>
      obtain ⟨columnPlaced, rowPlaced, same⟩ := partOf _ x _ y
      have rowInWhole := down.add_lt rowsInside rowInside rowPlaced
      have columnInWhole := across.add_lt columnsInside columnInside columnPlaced
      refine ⟨rowInWhole, columnInWhole, ?_⟩
      rw [reoriented_block rowInside columnInside, reoriented_block rowInWhole columnInWhole,
        mirroredX, mirroredY, ← sameRow, ← sameColumn]
      exact congrArg _ same

/-! ### Images -/

/-- Orienting what has been cut out is cutting out of the oriented image, at the place that the
rectangle is moved to. -/
theorem JpegImage.CropOf.reoriented {cut source : JpegImage} {region moved : Region}
    (crop : cut.CropOf source region) (fits : source.frame.Fits source.grids)
    {orientation : Orientation}
    (width : moved.width =
      if orientation.mapping.transpose then region.height else region.width)
    (height : moved.height =
      if orientation.mapping.transpose then region.width else region.height)
    (columns : ∀ component : Component,
      AxisTurned (cut.frame.blocksWide component) (cut.frame.wholeColumns component)
        (source.frame.wholeColumns component) orientation.mirrorsColumns
        (region.x / source.frame.mcuWidth * component.across)
        ((if orientation.mapping.transpose then moved.y else moved.x) / source.frame.mcuWidth *
          component.across))
    (rows : ∀ component : Component,
      AxisTurned (cut.frame.blocksTall component) (cut.frame.wholeRows component)
        (source.frame.wholeRows component) orientation.mirrorsRows
        (region.y / source.frame.mcuHeight * component.down)
        ((if orientation.mapping.transpose then moved.x else moved.y) / source.frame.mcuHeight *
          component.down)) :
    (cut.reoriented orientation.mapping).written.CropOf
      (source.reoriented orientation.mapping).written moved where
  width := by
    rw [width, ← crop.width, ← crop.height]
    exact apply_ite UInt16.toNat _ _ _
  height := by
    rw [height, ← crop.width, ← crop.height]
    exact apply_ite UInt16.toNat _ _ _
  components := congrArg (List.map _) crop.components
  quantizers := by
    change (cut.reoriented _).usedQuantizers = (source.reoriented _).written.usedQuantizers
    rw [usedQuantizers_written, usedQuantizers_reoriented, usedQuantizers_reoriented,
      crop.usedQuantizers_eq]
  fits := crop.fits.reoriented orientation.mapping
  sequential := rfl
  metadata := crop.metadata
  blocks := by
    intro index turned turnedGrid found there
    change (source.frame.reoriented _).components[index]? = some turned at found
    change ((source.frame.reoriented _).reorientGrids _ source.grids)[index]? = _ at there
    rw [Frame.reoriented_getElem?] at found
    obtain ⟨component, listed, rfl⟩ := Option.map_eq_some_iff.mp found
    obtain ⟨grid, given, wide, tall⟩ := fits.exists_grid listed
    rw [Frame.reorientGrids_getElem?_of_some _ listed given] at there
    cases there
    obtain ⟨cutGrid, here, part⟩ := crop.partOf listed given
    have cutListed : cut.frame.components[index]? = some component := crop.components ▸ listed
    obtain ⟨cutWide, cutTall⟩ := crop.fits.grid index component cutGrid cutListed here
    have columns := columns component
    have rows := rows component
    have columnsInside := source.frame.wholeColumns_le component
    have rowsInside := source.frame.wholeRows_le component
    rw [← cutWide] at columns
    rw [← cutTall] at rows
    rw [← wide] at columnsInside
    rw [← tall] at rowsInside
    refine ⟨_, Frame.reorientGrids_getElem?_of_some _ cutListed here, ?_⟩
    obtain ⟨mirrorsColumns, mirrorsRows⟩ := orientation.mirrors_eq
    change Grid.PartOf _ _ (_ / (source.frame.reoriented _).mcuHeight * _)
      (_ / (source.frame.reoriented _).mcuWidth * _)
    rw [Frame.mcuHeight_reoriented, Frame.mcuWidth_reoriented]
    rw [mirrorsColumns] at columns
    rw [mirrorsRows] at rows
    -- The axes are those of the source, which change places if it is transposed.
    generalize orientation.mapping = mapping at columns rows ⊢
    obtain ⟨transpose, mirrorX, mirrorY⟩ := mapping
    cases transpose with
    | false => exact part.reoriented columns rows columnsInside rowsInside
    | true => exact part.reoriented rows columns rowsInside columnsInside

theorem JpegImage.CropOf.reoriented_of_units {cut source : JpegImage} {region : Region}
    (crop : cut.CropOf source region) (fits : source.frame.Fits source.grids)
    (inside : region.Inside source.frame)
    (units : region.OfWholeUnits source.frame.mcuWidth source.frame.mcuHeight)
    (width : source.frame.mcuWidth ∣ source.frame.width.toNat)
    (height : source.frame.mcuHeight ∣ source.frame.height.toNat) (orientation : Orientation) :
    (cut.reoriented orientation.mapping).written.CropOf
      (source.reoriented orientation.mapping).written
      (region.oriented source.frame.width.toNat source.frame.height.toNat orientation) := by
  obtain ⟨mcuWidth, mcuHeight⟩ := crop.mcu_eq
  obtain ⟨x, y⟩ := region.oriented_start source.frame.width.toNat source.frame.height.toNat
    orientation
  refine crop.reoriented fits ?_ ?_ (fun component => ?_) fun component => ?_
  · rw [Region.oriented_eq]
    exact apply_ite Region.width _ _ _
  · rw [Region.oriented_eq]
    exact apply_ite Region.height _ _ _
  · unfold Frame.blocksWide Frame.mcusWide Frame.wholeColumns
    rw [mcuWidth, crop.width, x]
    exact AxisTurned.of_units source.frame.mcuWidth_pos inside.1 width units.x units.width _
      component.across
  · unfold Frame.blocksTall Frame.mcusTall Frame.wholeRows
    rw [mcuHeight, crop.height, y]
    exact AxisTurned.of_units source.frame.mcuHeight_pos inside.2 height units.y units.height _
      component.down

private theorem orient_crop_of_nonempty {file : List UInt8} {source : JpegImage}
    (read : JpegImage.ofBytes file = .ok source) (turnable : source.Turnable)
    (width : source.frame.mcuWidth ∣ source.frame.width.toNat)
    (height : source.frame.mcuHeight ∣ source.frame.height.toNat) {region : Region}
    (inside : region.Inside source.frame)
    (units : region.OfWholeUnits source.frame.mcuWidth source.frame.mcuHeight)
    (some : region.width ≠ 0 ∧ region.height ≠ 0) (orientation : Orientation) :
    ∃ bytes, (crop file region >>= fun cut => reorient cut orientation) = .ok bytes ∧
      (reorient file orientation >>= fun turned =>
        crop turned (region.oriented source.frame.width.toNat source.frame.height.toNat
          orientation)) = .ok bytes := by
  have turnedInside := inside.oriented orientation
  have turnedUnits := units.oriented width height orientation
  have turnedSome := (region.oriented_nonempty source.frame.width.toNat
    source.frame.height.toNat orientation).mpr some
  obtain ⟨cut, image, cropped, readCut, -, cutTurnable, cropOf⟩ :=
    exists_crop_of_aligned read turnable region some.1 some.2 inside units.aligned
  obtain ⟨bytes, oriented, written, -⟩ := transformBytes_orient readCut cutTurnable orientation
  obtain ⟨turned, turnedFirst, -, readTurned⟩ := transformBytes_orient read turnable orientation
  obtain ⟨last, lastImage, croppedLast, -, lastWritten, -, lastCropOf⟩ :=
    exists_crop_of_aligned readTurned (turnable.reoriented orientation.mapping).written _
      turnedSome.1 turnedSome.2 turnedInside turnedUnits.aligned
  -- Both files hold what the moved rectangle cuts out of the oriented image.
  have same := (cropOf.reoriented_of_units turnable.fits inside units width height
    orientation).unique lastCropOf (turnable.reoriented orientation.mapping).fits
  rw [← JpegImage.toBytes_written, same, lastWritten] at written
  cases written
  exact ⟨bytes, (bind_of_ok cropped).trans oriented, (bind_of_ok turnedFirst).trans croppedLast⟩

theorem crop_of_empty {region : Region} (empty : ¬ (region.width ≠ 0 ∧ region.height ≠ 0))
    (file : List UInt8) :
    crop file region = .error (.invalidRequest (.emptyRegion region.width region.height)) := by
  have refused : Directive.ofRegion region =
      .error (.invalidRequest (.emptyRegion region.width region.height)) :=
    if_pos (by omega)
  unfold crop
  rw [refused]
  rfl

/-- In an image of whole iMCUs a rectangle of whole iMCUs can be cut out before the image is
oriented or afterwards, where it has been moved to. Both ways give the same bytes, and they do
so for every rectangle that has pixels. -/
theorem orient_crop {file : List UInt8} {source : JpegImage}
    (read : JpegImage.ofBytes file = .ok source)
    (distinct : (source.frame.components.map (·.id)).Nodup)
    (small : ∀ grid ∈ source.grids, ∀ block ∈ grid.blocks, ∀ position,
      -16383 ≤ (block.get position).toInt ∧ (block.get position).toInt ≤ 16383)
    (few : ((source.grids.toList.drop 1).map fun grid => grid.blocks.size).sum ≤ 2 ^ 26)
    (width : source.frame.mcuWidth ∣ source.frame.width.toNat)
    (height : source.frame.mcuHeight ∣ source.frame.height.toNat) {region : Region}
    (inside : region.Inside source.frame)
    (units : region.OfWholeUnits source.frame.mcuWidth source.frame.mcuHeight)
    (orientation : Orientation) :
    (∀ bytes, (crop file region >>= fun cut => reorient cut orientation) = .ok bytes ↔
      (reorient file orientation >>= fun turned =>
        crop turned (region.oriented source.frame.width.toNat source.frame.height.toNat
          orientation)) = .ok bytes) ∧
    ((∃ bytes, (crop file region >>= fun cut => reorient cut orientation) = .ok bytes) ↔
      region.width ≠ 0 ∧ region.height ≠ 0) := by
  by_cases some : region.width ≠ 0 ∧ region.height ≠ 0
  · obtain ⟨same, before, behind⟩ := orient_crop_of_nonempty read
      (JpegImage.turnable_of_ofBytes read distinct small few) width height inside units some
      orientation
    rw [before, behind]
    exact ⟨fun _ => Iff.rfl, fun _ => some, fun _ => ⟨same, rfl⟩⟩
  · have refusedFirst : ∀ bytes,
        (crop file region >>= fun cut => reorient cut orientation) ≠ .ok bytes := by
      intro bytes done
      obtain ⟨cut, cropped, -⟩ := bind_eq_ok done
      rw [crop_of_empty some] at cropped
      cases cropped
    have refusedLast : ∀ bytes, (reorient file orientation >>= fun turned =>
        crop turned (region.oriented source.frame.width.toNat source.frame.height.toNat
          orientation)) ≠ .ok bytes := by
      intro bytes done
      obtain ⟨turned, -, cropped⟩ := bind_eq_ok done
      rw [crop_of_empty (mt (region.oriented_nonempty _ _ orientation).mp some)] at cropped
      cases cropped
    exact ⟨fun bytes => ⟨fun done => absurd done (refusedFirst bytes),
        fun done => absurd done (refusedLast bytes)⟩,
      fun ⟨bytes, done⟩ => absurd done (refusedFirst bytes), fun pixels => absurd pixels some⟩

/-- The first MCU of three is the lowest one once the image is turned to the left. -/
theorem orient_crop_strip : ∃ bytes,
    (crop (stripFile 48 8) { x := 0, y := 0, width := 16, height := 8 } >>= fun cut =>
      reorient cut .rotate270) = .ok bytes ∧
    (reorient (stripFile 48 8) .rotate270 >>= fun turned =>
      crop turned { x := 0, y := 32, width := 8, height := 16 }) = .ok bytes := by
  have read : JpegImage.ofBytes (stripFile 48 8) = .ok (strip 48 8 (by decide)) := by
    decide +kernel
  have inside : Region.Inside { x := 0, y := 0, width := 16, height := 8 }
      (strip 48 8 (by decide)).frame := ⟨by decide, by decide⟩
  obtain ⟨same, done⟩ := orient_crop read (by decide) (strip_small _) (by decide) (by decide)
    (by decide) inside ⟨by decide, by decide, by decide, by decide⟩ .rotate270
  obtain ⟨bytes, before⟩ := done.mpr ⟨by decide, by decide⟩
  exact ⟨bytes, before, (same bytes).mp before⟩

end LosslessJpeg
