import LosslessJpeg.Proofs.Transform.AlignedCrop
import LosslessJpeg.Proofs.Transform.Composition

set_option autoImplicit false

/-!
Files that crops leave behind. The image in such a file is told by the source and the
rectangle that was cut out of it, so that a crop of a crop is a crop of the source: rounding
twice, with the edges of both images in the way, comes to rounding once.
-/

namespace LosslessJpeg

section AxisCover

variable {imcu limit offset extent start size : Nat}

theorem AxisContains.antisymm {other length : Nat} (one : AxisContains start size other length)
    (back : AxisContains other length start size) : start = other ∧ size = length := by
  have := one.first
  have := one.last
  have := back.first
  have := back.last
  omega

theorem AxisCover.unique {other length : Nat}
    (cover : AxisCover imcu limit offset extent start size)
    (otherCover : AxisCover imcu limit offset extent other length) :
    start = other ∧ size = length :=
  (otherCover.least _ _ cover.aligned cover.contains).antisymm
    (cover.least _ _ otherCover.aligned otherCover.contains)

theorem AxisAligned.cover (aligned : AxisAligned imcu limit start size)
    (inside : start + size ≤ limit) : AxisCover imcu limit start size start size where
  aligned := aligned
  inside := inside
  contains := ⟨Nat.le_refl _, Nat.le_refl _⟩
  least := fun _ _ _ contains => contains

theorem AxisCover.rounded (positive : 0 < imcu)
    (cover : AxisCover imcu limit offset extent start size) :
    start = offset / imcu * imcu ∧
      start + size = min (ceilDiv (offset + extent) imcu * imcu) limit := by
  have inside : offset + extent ≤ limit := Nat.le_trans cover.contains.last cover.inside
  have before : offset / imcu * imcu ≤ offset := Nat.div_mul_le_self offset imcu
  have ordered : offset / imcu * imcu ≤ min (ceilDiv (offset + extent) imcu * imcu) limit :=
    Nat.le_min.mpr ⟨Nat.le_trans (Nat.le_trans before (Nat.le_add_right _ _))
      (le_ceilDiv_mul (offset + extent) positive), by omega⟩
  obtain ⟨begins, ends⟩ := cover.unique
    (AxisCover.of_rounded positive inside rfl (Nat.add_sub_cancel' ordered))
  exact ⟨begins, by rw [begins, ends, Nat.add_sub_cancel' ordered]⟩

/-- Rounding inside of a stretch that has been rounded is rounding in the whole axis. -/
theorem AxisCover.nested (positive : 0 < imcu)
    (outer : AxisCover imcu limit offset extent start size)
    {innerOffset innerExtent innerStart innerSize : Nat}
    (inner : AxisCover imcu size innerOffset innerExtent innerStart innerSize) :
    AxisCover imcu limit (start + innerOffset) innerExtent (start + innerStart) innerSize := by
  obtain ⟨units, rfl⟩ := outer.aligned.first
  obtain ⟨begins, ends⟩ := inner.rounded positive
  have within := outer.inside
  have inside : innerOffset + innerExtent ≤ size :=
    Nat.le_trans inner.contains.last inner.inside
  have asked : imcu * units + innerOffset + innerExtent =
      units * imcu + (innerOffset + innerExtent) := by
    rw [Nat.mul_comm units, Nat.add_assoc]
  refine AxisCover.of_rounded positive (by omega) ?_ ?_
  · rw [Nat.mul_add_div positive, Nat.add_mul, begins, Nat.mul_comm imcu units]
  · rw [asked, ceilDiv_add_mul _ _ positive, Nat.add_mul, Nat.add_assoc, ends,
      Nat.mul_comm imcu units]
    rw [Nat.mul_comm imcu units] at within
    -- Only where the image itself ends is the stretch shorter than what it is rounded up to.
    rcases outer.aligned.last with whole | edge
    · have fitting := ceilDiv_mul_le_of_dvd positive inside
        ((Nat.dvd_add_right (Nat.dvd_mul_right imcu units)).mp whole)
      omega
    · rw [Nat.mul_comm imcu units] at edge
      omega

end AxisCover

namespace Region

variable {region cover : Region} {frame : Frame}

theorem LeastCover.axes (covers : region.LeastCover cover frame) :
    AxisCover frame.mcuWidth frame.width.toNat region.x region.width cover.x cover.width ∧
      AxisCover frame.mcuHeight frame.height.toNat region.y region.height cover.y
        cover.height := by
  obtain ⟨alignedX, alignedY⟩ := covers.aligned
  obtain ⟨insideX, insideY⟩ := covers.inside
  obtain ⟨containsX, containsY⟩ := covers.contains
  refine ⟨⟨alignedX, insideX, containsX, fun other length aligned contains => ?_⟩,
    ⟨alignedY, insideY, containsY, fun other length aligned contains => ?_⟩⟩
  · exact (covers.least { cover with x := other, width := length } ⟨aligned, alignedY⟩
      ⟨contains, containsY⟩).1
  · exact (covers.least { cover with y := other, height := length } ⟨alignedX, aligned⟩
      ⟨containsX, contains⟩).2

theorem LeastCover.of_axes
    (across : AxisCover frame.mcuWidth frame.width.toNat region.x region.width cover.x cover.width)
    (down : AxisCover frame.mcuHeight frame.height.toNat region.y region.height cover.y
      cover.height) : region.LeastCover cover frame where
  aligned := ⟨across.aligned, down.aligned⟩
  inside := ⟨across.inside, down.inside⟩
  contains := ⟨across.contains, down.contains⟩
  least := fun _ aligned contains =>
    ⟨across.least _ _ aligned.1 contains.1, down.least _ _ aligned.2 contains.2⟩

theorem LeastCover.unique {other : Region} (covers : region.LeastCover cover frame)
    (otherCovers : region.LeastCover other frame) : cover = other := by
  obtain ⟨x, width⟩ := covers.axes.1.unique otherCovers.axes.1
  obtain ⟨y, height⟩ := covers.axes.2.unique otherCovers.axes.2
  obtain ⟨_, _, _, _⟩ := cover
  obtain ⟨_, _, _, _⟩ := other
  dsimp only at x width y height
  rw [x, width, y, height]

theorem LeastCover.asked_inside (covers : region.LeastCover cover frame) : region.Inside frame :=
  ⟨Nat.le_trans covers.contains.1.last covers.inside.1,
    Nat.le_trans covers.contains.2.last covers.inside.2⟩

theorem LeastCover.origin_eq (covers : region.LeastCover cover frame) :
    cover.x = region.x - region.x % frame.mcuWidth ∧
      cover.y = region.y - region.y % frame.mcuHeight := by
  rw [← Nat.div_mul_self_eq_mod_sub_self, ← Nat.div_mul_self_eq_mod_sub_self]
  exact ⟨(covers.axes.1.rounded frame.mcuWidth_pos).1,
    (covers.axes.2.rounded frame.mcuHeight_pos).1⟩

theorem Aligned.leastCover (aligned : region.Aligned frame) (inside : region.Inside frame) :
    region.LeastCover region frame :=
  .of_axes (aligned.1.cover inside.1) (aligned.2.cover inside.2)

def within (region outer : Region) : Region :=
  { region with
    x := outer.x + region.x
    y := outer.y + region.y }

/-- What covers a rectangle inside of a cover does so in the whole image. -/
theorem LeastCover.nested {inner innerCover : Region} {cut : Frame}
    (outer : region.LeastCover cover frame) (covers : inner.LeastCover innerCover cut)
    (width : cut.width.toNat = cover.width) (height : cut.height.toNat = cover.height)
    (mcuWidth : cut.mcuWidth = frame.mcuWidth) (mcuHeight : cut.mcuHeight = frame.mcuHeight) :
    (inner.within cover).LeastCover (innerCover.within cover) frame := by
  obtain ⟨across, down⟩ := covers.axes
  rw [width, mcuWidth] at across
  rw [height, mcuHeight] at down
  exact .of_axes (outer.axes.1.nested frame.mcuWidth_pos across)
    (outer.axes.2.nested frame.mcuHeight_pos down)

end Region

/-- Whether one grid is the part of another one that lies this many rows and columns further. -/
def Grid.PartOf (part whole : Grid) (rowOffset columnOffset : Nat) : Prop :=
  ∀ row < part.blocksTall, ∀ column < part.blocksWide,
    row + rowOffset < whole.blocksTall ∧ column + columnOffset < whole.blocksWide ∧
      part.block row column = whole.block (row + rowOffset) (column + columnOffset)

namespace Grid.PartOf

variable {part whole : Grid} {rowOffset columnOffset : Nat}

theorem trans {outer : Grid} {rows columns : Nat} (inner : part.PartOf whole rowOffset columnOffset)
    (further : whole.PartOf outer rows columns) :
    part.PartOf outer (rows + rowOffset) (columns + columnOffset) := by
  intro row rowInside column columnInside
  obtain ⟨rowPlaced, columnPlaced, same⟩ := inner row rowInside column columnInside
  have placed := further _ rowPlaced _ columnPlaced
  rw [← same, Nat.add_right_comm, Nat.add_assoc row, Nat.add_right_comm column,
    Nat.add_assoc column] at placed
  exact placed

theorem unique {other : Grid} (one : part.PartOf whole rowOffset columnOffset)
    (otherPart : other.PartOf whole rowOffset columnOffset)
    (wide : part.blocksWide = other.blocksWide) (tall : part.blocksTall = other.blocksTall) :
    part = other := by
  apply Grid.ext_block wide tall
  intro row rowInside column columnInside
  obtain ⟨-, -, same⟩ := one row rowInside column columnInside
  obtain ⟨-, -, otherSame⟩ := otherPart row (tall ▸ rowInside) column (wide ▸ columnInside)
  exact same.trans otherSame.symm

theorem forall_mem {property : Block → Prop} (one : part.PartOf whole rowOffset columnOffset)
    (all : ∀ block ∈ whole.blocks, property block) : ∀ block ∈ part.blocks, property block := by
  rw [Grid.forall_block] at all ⊢
  intro row rowInside column columnInside
  obtain ⟨rowPlaced, columnPlaced, same⟩ := one row rowInside column columnInside
  rw [same]
  exact all _ rowPlaced _ columnPlaced

end Grid.PartOf

theorem Frame.Fits.ext_grids {frame : Frame} {grids others : Array Grid}
    (fits : frame.Fits grids) (fitsToo : frame.Fits others)
    (same : ∀ (index : Nat) (component : Component) (grid other : Grid),
      frame.components[index]? = some component → grids[index]? = some grid →
        others[index]? = some other → grid = other) : grids = others := by
  refine Array.ext_getElem? fun index => ?_
  cases found : frame.components[index]? with
  | none =>
      have outside := List.getElem?_eq_none_iff.mp found
      rw [Array.getElem?_eq_none (fits.size ▸ outside),
        Array.getElem?_eq_none (fitsToo.size ▸ outside)]
  | some component =>
      obtain ⟨grid, there, -⟩ := fits.exists_grid found
      obtain ⟨other, otherThere, -⟩ := fitsToo.exists_grid found
      rw [there, otherThere, same index component grid other found there otherThere]

/-! ### Images cut out of others -/

theorem JpegImage.usedQuantizers_congr {first second : JpegImage}
    (components : first.frame.components = second.frame.components)
    (quantizers : first.quantizers = second.quantizers) :
    first.usedQuantizers = second.usedQuantizers := by
  unfold usedQuantizers
  rw [components, quantizers]

namespace JpegImage.CutFrom

variable {result source : JpegImage} {region : Region}

theorem partOf (cut : result.CutFrom source region) {index : Nat} {component : Component}
    {grid : Grid} (found : source.frame.components[index]? = some component)
    (there : source.grids[index]? = some grid) :
    ∃ moved, result.grids[index]? = some moved ∧
      moved.PartOf grid (region.y / source.frame.mcuHeight * component.down)
        (region.x / source.frame.mcuWidth * component.across) :=
  cut.blocks index component grid found there

theorem mcu_eq (cut : result.CutFrom source region) :
    result.frame.mcuWidth = source.frame.mcuWidth ∧
      result.frame.mcuHeight = source.frame.mcuHeight :=
  have most := Frame.max_congr cut.components
  ⟨congrArg (· * 8) most.1, congrArg (· * 8) most.2⟩

theorem written (cut : result.CutFrom source region) :
    result.written.CutFrom source.written region :=
  { cut with quantizers := usedQuantizers_congr cut.components cut.quantizers }

theorem wellFormed (cut : result.CutFrom source region) (wellFormed : source.WellFormed) :
    result.WellFormed where
  normal := cut.components ▸ wellFormed.normal
  fits := cut.fits
  quantized := by
    intro component member
    rw [cut.quantizers]
    exact wellFormed.quantized component (cut.components ▸ member)

theorem trans {image : JpegImage} {further : Region} (cut : result.CutFrom source region)
    (inner : image.CutFrom result further) (alignedX : source.frame.mcuWidth ∣ region.x)
    (alignedY : source.frame.mcuHeight ∣ region.y) :
    image.CutFrom source (further.within region) where
  width := inner.width
  height := inner.height
  components := inner.components.trans cut.components
  quantizers := inner.quantizers.trans cut.quantizers
  fits := inner.fits
  blocks := by
    intro index component grid found there
    obtain ⟨mcuWidth, mcuHeight⟩ := cut.mcu_eq
    obtain ⟨between, given, outerPart⟩ := cut.partOf found there
    obtain ⟨moved, listed, innerPart⟩ := inner.partOf (cut.components.symm ▸ found) given
    have part := innerPart.trans outerPart
    rw [mcuWidth, mcuHeight, ← Nat.add_mul, ← Nat.add_mul,
      ← Nat.add_div_of_dvd_right alignedX, ← Nat.add_div_of_dvd_right alignedY] at part
    exact ⟨moved, listed, part⟩

theorem exists_grid (cut : result.CutFrom source region)
    (fits : source.frame.Fits source.grids) {index : Nat} {moved : Grid}
    (there : result.grids[index]? = some moved) :
    ∃ component grid, source.frame.components[index]? = some component ∧
      source.grids[index]? = some grid ∧
      moved.PartOf grid (region.y / source.frame.mcuHeight * component.down)
        (region.x / source.frame.mcuWidth * component.across) := by
  have inside := (Array.getElem?_eq_some_iff.mp there).1
  rw [cut.fits.size, cut.components] at inside
  have found := List.getElem?_eq_getElem inside
  obtain ⟨grid, given, -⟩ := fits.exists_grid found
  obtain ⟨other, otherThere, part⟩ := cut.partOf found given
  cases there.symm.trans otherThere
  exact ⟨_, grid, found, given, part⟩

theorem laterBlocks_le (cut : result.CutFrom source region) (inside : region.Inside source.frame) :
    result.frame.laterBlocks ≤ source.frame.laterBlocks := by
  obtain ⟨mcuWidth, mcuHeight⟩ := cut.mcu_eq
  unfold Frame.laterBlocks
  rw [cut.components]
  refine List.sum_le_sum fun component _ => ?_
  unfold Frame.blocksTall Frame.blocksWide Frame.mcusTall Frame.mcusWide
  rw [mcuWidth, mcuHeight, cut.width, cut.height]
  refine Nat.mul_le_mul (Nat.mul_le_mul_right _ (ceilDiv_le_ceilDiv ?_ _))
    (Nat.mul_le_mul_right _ (ceilDiv_le_ceilDiv ?_ _))
  · exact Nat.le_trans (Nat.le_add_left _ _) inside.2
  · exact Nat.le_trans (Nat.le_add_left _ _) inside.1

theorem turnable (cut : result.CutFrom source region) (turnable : source.Turnable)
    (inside : region.Inside source.frame) (metadata : result.metadata = source.metadata) :
    result.Turnable :=
  { cut.wellFormed turnable.toWellFormed with
    definable := cut.quantizers ▸ turnable.definable
    metadata := metadata ▸ turnable.metadata
    distinct := cut.components ▸ turnable.distinct
    within := by
      intro moved member
      obtain ⟨index, there⟩ := Array.mem_iff_getElem?.mp member
      obtain ⟨_, grid, -, given, part⟩ := cut.exists_grid turnable.fits there
      exact part.forall_mem (turnable.within grid (Array.mem_of_getElem? given))
    few := by
      have few := turnable.few
      rw [turnable.fits.laterBlocks] at few
      rw [cut.fits.laterBlocks]
      exact Nat.le_trans (cut.laterBlocks_le inside) few }

end JpegImage.CutFrom

structure JpegImage.CropOf (image source : JpegImage) (region : Region) : Prop
    extends image.CutFrom source.written region where
  sequential : image.frame.progressive = false
  metadata : image.metadata = source.metadata

namespace JpegImage.CropOf

variable {image cut source : JpegImage} {region first second : Region}

theorem usedQuantizers_eq (crop : image.CropOf source region) :
    image.usedQuantizers = source.usedQuantizers :=
  (usedQuantizers_congr crop.components crop.quantizers).trans usedQuantizers_written

theorem written_eq (crop : image.CropOf source region) : image.written = image := by
  have used : image.usedQuantizers = image.quantizers :=
    crop.usedQuantizers_eq.trans crop.quantizers.symm
  unfold written
  rw [used]

theorem trans (outer : cut.CropOf source first) (inner : image.CropOf cut second)
    (alignedX : source.frame.mcuWidth ∣ first.x) (alignedY : source.frame.mcuHeight ∣ first.y) :
    image.CropOf source (second.within first) := by
  obtain ⟨cutFrom, sequential, metadata⟩ := inner
  rw [outer.written_eq] at cutFrom
  exact
    { outer.toCutFrom.trans cutFrom alignedX alignedY with
      sequential := sequential
      metadata := metadata.trans outer.metadata }

/-- The source and the rectangle tell all of the image. -/
theorem unique {other : JpegImage} (crop : image.CropOf source region)
    (otherCrop : other.CropOf source region) (fits : source.frame.Fits source.grids) :
    image = other := by
  have frame : image.frame = other.frame := by
    refine Frame.ext_parts (UInt16.toNat_inj.mp (crop.width.trans otherCrop.width.symm))
      (UInt16.toNat_inj.mp (crop.height.trans otherCrop.height.symm))
      (crop.components.trans otherCrop.components.symm)
      (crop.sequential.trans otherCrop.sequential.symm)
  have grids : image.grids = other.grids := by
    have otherFits : image.frame.Fits other.grids := frame.symm ▸ otherCrop.fits
    refine crop.fits.ext_grids otherFits fun index component moved otherMoved found there
      otherThere => ?_
    obtain ⟨wide, tall⟩ := crop.fits.grid index component moved found there
    obtain ⟨otherWide, otherTall⟩ := otherFits.grid index component otherMoved found otherThere
    have listed : source.frame.components[index]? = some component := crop.components ▸ found
    obtain ⟨grid, given, -⟩ := fits.exists_grid listed
    obtain ⟨_, here, part⟩ := crop.partOf listed given
    obtain ⟨_, otherHere, otherPart⟩ := otherCrop.partOf listed given
    cases there.symm.trans here
    cases otherThere.symm.trans otherHere
    exact part.unique otherPart (wide.trans otherWide.symm) (tall.trans otherTall.symm)
  have quantizers := crop.quantizers.trans otherCrop.quantizers.symm
  have metadata := crop.metadata.trans otherCrop.metadata.symm
  obtain ⟨_, _, _, _⟩ := image
  obtain ⟨_, _, _, _⟩ := other
  dsimp only at frame grids quantizers metadata
  rw [frame, grids, quantizers, metadata]

end JpegImage.CropOf

/-! ### Files -/

theorem transform_of_ofBytes {file bytes : List UInt8} {source result : JpegImage}
    {directive : Directive} {options : TransformOptions} {transformation : Transformation}
    (read : JpegImage.ofBytes file = .ok source)
    (made : Transformation.make source.frame directive options = .ok transformation)
    (applied : transformation.apply options.metadata source = .ok result)
    (written : result.toBytes = .ok bytes) :
    transform file directive options =
      .ok
        { bytes := bytes
          partialEdge := transformation.partialEdge directive } := by
  obtain ⟨header, headed, gathered⟩ := bind_eq_ok read
  rw [JpegImage.ofHeader_frame gathered] at made
  unfold transform
  rw [bind_of_ok (reading_eq_ok.mpr headed), bind_of_ok made,
    bind_of_ok (reading_eq_ok.mpr gathered), bind_of_ok applied,
    bind_of_ok (writing_eq_ok.mpr written)]
  rfl

theorem JpegImage.turnable_of_ofBytes {file : List UInt8} {source : JpegImage}
    (read : ofBytes file = .ok source)
    (distinct : (source.frame.components.map (·.id)).Nodup)
    (small : ∀ grid ∈ source.grids, ∀ block ∈ grid.blocks, ∀ position,
      -16383 ≤ (block.get position).toInt ∧ (block.get position).toInt ≤ 16383)
    (few : ((source.grids.toList.drop 1).map fun grid => grid.blocks.size).sum ≤ 2 ^ 26) :
    source.Turnable :=
  { sound_of_ofBytes read with
    distinct := distinct
    within := fun grid member block blockMember position => by
      have := small grid member block blockMember position
      omega
    few := few }

theorem exists_crop {file : List UInt8} {source : JpegImage}
    (read : JpegImage.ofBytes file = .ok source) (turnable : source.Turnable) (region : Region)
    (wide : region.width ≠ 0) (tall : region.height ≠ 0) (inside : region.Inside source.frame) :
    ∃ bytes image cover, crop file region = .ok bytes ∧ JpegImage.ofBytes bytes = .ok image ∧
      image.toBytes = .ok bytes ∧ image.Turnable ∧ region.LeastCover cover source.frame ∧
      image.CropOf source cover := by
  obtain ⟨plan, unturned, imcuWidth, imcuHeight, planned⟩ :=
    Transformation.make_crop turnable.normal region .all
  obtain ⟨placement, placed, covers⟩ := Plan.placeCrop_covers imcuWidth imcuHeight
    ⟨wide, tall, inside⟩ .all
  rw [bind_of_ok placed] at planned
  obtain ⟨result, applied, framed, places⟩ :=
    Transformation.exists_image turnable.toWellFormed planned .all
  have cut := places.cutFrom turnable.toWellFormed applied rfl unturned
  have metadata : result.metadata = source.metadata :=
    (Transformation.apply_eq_ok applied).2.2.2.1.trans (MetadataPolicy.select_all _)
  have sequential : result.frame.progressive = false :=
    (Frame.build_eq_ok (Transformation.frame_eq_ok framed).2.2).2.2.2
  have resultTurnable := cut.turnable turnable covers.inside metadata
  obtain ⟨bytes, written, returned⟩ := resultTurnable.exists_file sequential
  have asked : Directive.ofRegion region = .ok (.crop region) :=
    if_neg (not_or.mpr ⟨wide, tall⟩)
  have done : transformBytes file (.crop region) = .ok bytes :=
    bind_of_ok (transform_of_ofBytes read planned applied written)
  exact ⟨bytes, result.written, placement.region, (bind_of_ok asked).trans done, returned,
    JpegImage.toBytes_written.trans written, resultTurnable.written, covers,
    { cut.written with
      sequential := sequential
      metadata := metadata }⟩

theorem exists_crop_of_aligned {file : List UInt8} {source : JpegImage}
    (read : JpegImage.ofBytes file = .ok source) (turnable : source.Turnable) (region : Region)
    (wide : region.width ≠ 0) (tall : region.height ≠ 0) (inside : region.Inside source.frame)
    (aligned : region.Aligned source.frame) :
    ∃ bytes image, crop file region = .ok bytes ∧ JpegImage.ofBytes bytes = .ok image ∧
      image.toBytes = .ok bytes ∧ image.Turnable ∧ image.CropOf source region := by
  obtain ⟨bytes, image, cover, done, returned, written, imageTurnable, covers, cropOf⟩ :=
    exists_crop read turnable region wide tall inside
  obtain rfl := covers.unique (aligned.leastCover inside)
  exact ⟨bytes, image, done, returned, written, imageTurnable, cropOf⟩

/-- A crop of a crop is one crop of the source, whose origin lies as far from the place that the
first crop has really begun at as the second origin lies from the edges of the new image. -/
theorem crop_crop {file : List UInt8} {source : JpegImage}
    (read : JpegImage.ofBytes file = .ok source)
    (distinct : (source.frame.components.map (·.id)).Nodup)
    (small : ∀ grid ∈ source.grids, ∀ block ∈ grid.blocks, ∀ position,
      -16383 ≤ (block.get position).toInt ∧ (block.get position).toInt ≤ 16383)
    (few : ((source.grids.toList.drop 1).map fun grid => grid.blocks.size).sum ≤ 2 ^ 26)
    {first : Region} (wide : first.width ≠ 0) (tall : first.height ≠ 0)
    (inside : first.Inside source.frame) :
    ∃ cut image, crop file first = .ok cut ∧ JpegImage.ofBytes cut = .ok image ∧
      ∀ second : Region, second.width ≠ 0 → second.height ≠ 0 → second.Inside image.frame →
        ∃ bytes, crop cut second = .ok bytes ∧
          crop file
            { x := first.x - first.x % source.frame.mcuWidth + second.x
              y := first.y - first.y % source.frame.mcuHeight + second.y
              width := second.width
              height := second.height } = .ok bytes := by
  have turnable := JpegImage.turnable_of_ofBytes read distinct small few
  obtain ⟨cut, image, cover, done, readCut, -, cutTurnable, covers, cropOf⟩ :=
    exists_crop read turnable first wide tall inside
  refine ⟨cut, image, done, readCut, fun second secondWide secondTall secondInside => ?_⟩
  obtain ⟨bytes, inner, innerCover, twice, -, written, -, innerCovers, innerCropOf⟩ :=
    exists_crop readCut cutTurnable second secondWide secondTall secondInside
  obtain ⟨mcuWidth, mcuHeight⟩ := cropOf.mcu_eq
  -- Rounding inside the first crop is rounding in the source, as the first crop begins with an
  -- iMCU.
  have nested := covers.nested innerCovers cropOf.width cropOf.height mcuWidth mcuHeight
  obtain ⟨single, whole, wholeCover, once, -, writtenOnce, -, wholeCovers, wholeCropOf⟩ :=
    exists_crop read turnable (second.within cover) secondWide secondTall nested.asked_inside
  obtain rfl := wholeCovers.unique nested
  have same := (cropOf.trans innerCropOf covers.aligned.1.first covers.aligned.2.first).unique
    wholeCropOf turnable.fits
  rw [same, writtenOnce] at written
  cases written
  obtain ⟨x, y⟩ := covers.origin_eq
  rw [← x, ← y]
  exact ⟨bytes, twice, once⟩

/-- Three MCUs side by side, each with two blocks of the first component and one of the second.
The width and the height say how many of their samples are in the image. -/
def stripFile (width height : UInt8) : List UInt8 :=
  [0xFF, 0xD8, 0xFF, 0xDB, 0, 67, 0] ++ List.replicate 64 1 ++
    [0xFF, 0xC0, 0, 14, 8, 0, height, 0, width, 2, 5, 0x21, 0, 6, 0x11, 0,
     0xFF, 0xC4, 0, 40,
     0x00, 0, 0, 0, 0, 0, 0, 0, 0, 2, 0, 0, 0, 0, 0, 0, 0, 0, 3,
     0x10, 0, 0, 0, 0, 0, 0, 0, 0, 2, 0, 0, 0, 0, 0, 0, 0, 0, 1,
     0xFF, 0xDA, 0, 10, 2, 5, 0, 6, 0, 0, 63, 0,
     0x00, 0xD0, 0x0C, 0x00, 0x00, 0x00, 0x00, 0x60, 0x00, 0x02, 0x00, 0x00, 0x00, 0x08,
     0x00, 0x00, 0x00, 0x00, 0x70, 0x00, 0x03, 0xC0, 0x00, 0x12, 0x01, 0x80, 0x3F,
     0xFF, 0xD9]

def faint (first second : Int16) : Block :=
  (Block.zero.setIfInBounds 0 first).setIfInBounds 1 second

def strip (width height : UInt16) (some : width ≠ 0 ∧ height ≠ 0) : JpegImage :=
  { frame :=
      { width := width
        height := height
        components :=
          [{ id := 5, across := 2, down := 1, quantizer := 0 },
           { id := 6, across := 1, down := 1, quantizer := 0 }]
        progressive := false
        width_ne_zero := some.1
        height_ne_zero := some.2
        components_ne_nil := by decide
        components_length := by decide
        admissible := by decide }
    grids :=
      #[{ blocksWide := 6
          blocksTall := 1
          blocks := #[faint 5 1, faint 5 0, faint (-2) 0, faint (-2) (-1), faint 4 0, faint 11 0]
          blocks_size := rfl },
        { blocksWide := 3
          blocksTall := 1
          blocks := #[faint 4 0, faint 4 0, faint (-2) 1]
          blocks_size := rfl }]
    quantizers := #v[Option.some (Vector.replicate 64 1), none, none, none]
    metadata := [] }

theorem ofBytes_stripFile :
    JpegImage.ofBytes (stripFile 40 8) = .ok (strip 40 8 (by decide)) := by
  decide +kernel

theorem strip_small {width height : UInt16} (some : width ≠ 0 ∧ height ≠ 0) :
    ∀ grid ∈ (strip width height some).grids, ∀ block ∈ grid.blocks, ∀ position,
      -16383 ≤ (block.get position).toInt ∧ (block.get position).toInt ≤ 16383 := by
  change ∀ grid ∈ (strip 8 8 (by decide)).grids, _
  decide +kernel

/-- The first crop begins with the second MCU and reaches the edge. The second one begins with
the last MCU, which the edge has cut. -/
theorem crop_crop_strip : ∃ cut bytes,
    crop (stripFile 40 8) { x := 21, y := 2, width := 13, height := 3 } = .ok cut ∧
      crop cut { x := 17, y := 1, width := 2, height := 1 } = .ok bytes ∧
      crop (stripFile 40 8) { x := 33, y := 1, width := 2, height := 1 } = .ok bytes := by
  have read := ofBytes_stripFile
  have wide : 13 ≠ 0 := by decide
  have tall : 3 ≠ 0 := by decide
  have inside : Region.Inside { x := 21, y := 2, width := 13, height := 3 }
      (strip 40 8 (by decide)).frame := ⟨by decide, by decide⟩
  obtain ⟨cut, image, done, readCut, each⟩ := crop_crop read (by decide) (strip_small _)
    (by decide) wide tall inside
  obtain ⟨_, _, cover, done', readCut', -, -, covers, cropOf⟩ := exists_crop read
    (JpegImage.turnable_of_ofBytes read (by decide) (strip_small _) (by decide)) _ wide tall inside
  cases done.symm.trans done'
  cases readCut.symm.trans readCut'
  -- The image in between is 24 pixels wide and 8 pixels high.
  obtain ⟨x, right⟩ := covers.axes.1.rounded (by decide)
  obtain ⟨y, bottom⟩ := covers.axes.2.rounded (by decide)
  have width : image.frame.width.toNat = 24 := by
    have begins : cover.x = 16 := x
    have ends : cover.x + cover.width = 40 := right
    rw [cropOf.width]
    omega
  have height : image.frame.height.toNat = 8 := by
    have begins : cover.y = 0 := y
    have ends : cover.y + cover.height = 8 := bottom
    rw [cropOf.height]
    omega
  obtain ⟨bytes, twice, once⟩ := each { x := 17, y := 1, width := 2, height := 1 } (by decide)
    (by decide) ⟨by rw [width]; decide, by rw [height]; decide⟩
  exact ⟨cut, bytes, done, twice, once⟩

end LosslessJpeg
