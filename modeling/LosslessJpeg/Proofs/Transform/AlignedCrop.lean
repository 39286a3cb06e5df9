import LosslessJpeg.Proofs.Transform.BlockOrigin

set_option autoImplicit false

/-!
What a crop keeps. The blocks of an image can only be cut along the lines between its iMCUs,
and along its own edges on the right and at the bottom. A crop takes the least rectangle
between such lines that contains the one asked for, and leaves every block of it, those that
only fill up MCUs included, as it is.
-/

namespace LosslessJpeg

structure AxisAligned (imcu limit start size : Nat) : Prop where
  first : imcu ∣ start
  last : imcu ∣ start + size ∨ start + size = limit

structure AxisContains (start size offset extent : Nat) : Prop where
  first : start ≤ offset
  last : offset + extent ≤ start + size

structure AxisCover (imcu limit offset extent start size : Nat) : Prop where
  aligned : AxisAligned imcu limit start size
  inside : start + size ≤ limit
  contains : AxisContains start size offset extent
  least : ∀ other length, AxisAligned imcu limit other length →
    AxisContains other length offset extent → AxisContains other length start size

theorem AxisCover.of_rounded {imcu limit offset extent : Nat} (positive : 0 < imcu)
    (inside : offset + extent ≤ limit) {start size : Nat}
    (begins : start = offset / imcu * imcu)
    (ends : start + size = min (ceilDiv (offset + extent) imcu * imcu) limit) :
    AxisCover imcu limit offset extent start size where
  aligned :=
    { first := begins ▸ Nat.dvd_mul_left imcu _
      last := by
        rw [ends]
        rcases Nat.le_total (ceilDiv (offset + extent) imcu * imcu) limit with short | long
        · rw [Nat.min_eq_left short]
          exact Or.inl (Nat.dvd_mul_left imcu _)
        · exact Or.inr (Nat.min_eq_right long) }
  inside := ends ▸ Nat.min_le_right _ _
  contains :=
    { first := begins ▸ Nat.div_mul_le_self offset imcu
      last := ends ▸ Nat.le_min.mpr ⟨le_ceilDiv_mul _ positive, inside⟩ }
  least := by
    intro other length aligned contains
    refine ⟨?_, ?_⟩
    -- A line before the offset is not behind the last such line.
    · obtain ⟨units, rfl⟩ := aligned.first
      rw [begins, Nat.mul_comm imcu units]
      apply Nat.mul_le_mul_right
      rw [Nat.le_div_iff_mul_le positive, Nat.mul_comm]
      exact contains.first
    -- An end is a line, so not before the first one behind the stretch, or the edge.
    · rw [ends]
      rcases aligned.last with whole | edge
      · exact Nat.le_trans (Nat.min_le_left _ _)
          (ceilDiv_mul_le_of_dvd positive contains.last whole)
      · exact Nat.le_trans (Nat.min_le_right _ _) (Nat.le_of_eq edge.symm)

/-- An extent that grows by what its offset is moved, and is rounded up from there, ends where
the end asked for is rounded up to. -/
theorem Plan.cropAxis_covers {imcu limit offset extent : Nat} (positive : 0 < imcu)
    (inside : offset + extent ≤ limit) (policy : MetadataPolicy) (axis : Axis) :
    ∃ size start, cropAxis { metadata := policy } axis offset extent limit imcu =
        .ok (size, start) ∧
      AxisCover imcu limit offset extent start size := by
  have whole := Nat.div_add_mod' offset imcu
  refine ⟨_, _, rfl, AxisCover.of_rounded positive inside (by omega) ?_⟩
  dsimp only
  have start : offset - offset % imcu = offset / imcu * imcu := by omega
  have span : extent + (offset - offset / imcu * imcu) = offset % imcu + extent := by omega
  have asked : offset + extent = offset / imcu * imcu + (offset % imcu + extent) := by omega
  rw [start, span, asked, ceilDiv_add_mul _ _ positive, Nat.add_mul,
    if_neg Bool.false_ne_true, ← Nat.add_min_add_left, Nat.add_sub_cancel' (by omega)]

theorem AxisPlaced.padded_inside {mirror : Bool} {extent imcu offset size : Nat}
    (placed : AxisPlaced mirror extent imcu offset size) (positive : 0 < imcu) (factor : Nat) :
    offset / imcu * factor + ceilDiv size imcu * factor ≤ ceilDiv extent imcu * factor := by
  rw [← Nat.add_mul, ← ceilDiv_add_mul _ _ positive, Nat.div_mul_cancel placed.aligned]
  exact Nat.mul_le_mul_right factor (ceilDiv_le_ceilDiv placed.inside imcu)

namespace Region

def Inside (region : Region) (frame : Frame) : Prop :=
  region.x + region.width ≤ frame.width.toNat ∧ region.y + region.height ≤ frame.height.toNat

def Aligned (region : Region) (frame : Frame) : Prop :=
  AxisAligned frame.mcuWidth frame.width.toNat region.x region.width ∧
    AxisAligned frame.mcuHeight frame.height.toNat region.y region.height

def Contains (outer inner : Region) : Prop :=
  AxisContains outer.x outer.width inner.x inner.width ∧
    AxisContains outer.y outer.height inner.y inner.height

structure LeastCover (region cover : Region) (frame : Frame) : Prop where
  aligned : cover.Aligned frame
  inside : cover.Inside frame
  contains : cover.Contains region
  least : ∀ other : Region, other.Aligned frame → other.Contains region → other.Contains cover

end Region

def Placement.region (placement : Placement) : Region :=
  { x := placement.xOffset
    y := placement.yOffset
    width := placement.width
    height := placement.height }

namespace Plan

variable {plan : Plan} {frame : Frame} {region : Region}

private theorem fits_and_iff :
    (fits region.x region.width frame.width.toNat &&
        fits region.y region.height frame.height.toNat) = true ↔
      region.width ≠ 0 ∧ region.height ≠ 0 ∧ region.Inside frame := by
  unfold fits Region.Inside
  simp only [Bool.and_eq_true, decide_eq_true_eq]
  omega

theorem placeCrop_covers (imcuWidth : plan.imcuWidth = frame.mcuWidth)
    (imcuHeight : plan.imcuHeight = frame.mcuHeight)
    (asked : region.width ≠ 0 ∧ region.height ≠ 0 ∧ region.Inside frame)
    (policy : MetadataPolicy) :
    ∃ placement, plan.placeCrop (Geometry.ofFrame frame false) { metadata := policy } region =
        .ok placement ∧
      region.LeastCover placement.region frame := by
  obtain ⟨width, x, cutX, across⟩ := cropAxis_covers frame.mcuWidth_pos asked.2.2.1 policy .x
  obtain ⟨height, y, cutY, down⟩ := cropAxis_covers frame.mcuHeight_pos asked.2.2.2 policy .y
  rw [← imcuWidth] at cutX
  rw [← imcuHeight] at cutY
  refine ⟨{ width := width, height := height, xOffset := x, yOffset := y }, ?_,
    ⟨across.aligned, down.aligned⟩, ⟨across.inside, down.inside⟩,
    ⟨across.contains, down.contains⟩, fun other aligned contains =>
      ⟨across.least _ _ aligned.1 contains.1, down.least _ _ aligned.2 contains.2⟩⟩
  unfold placeCrop
  exact (if_pos (fits_and_iff.mpr asked)).trans
    ((bind_of_ok cutX).trans (bind_of_ok cutY))

theorem placeCrop_of_outside
    (outside : region.width = 0 ∨ region.height = 0 ∨ ¬ region.Inside frame)
    (options : TransformOptions) :
    plan.placeCrop (Geometry.ofFrame frame false) options region =
      .error (.unsupportedGeometry
        (.outside region frame.width.toNat frame.height.toNat)) := by
  unfold placeCrop
  refine if_neg fun asked => ?_
  obtain ⟨wide, tall, inside⟩ := fits_and_iff.mp asked
  exact outside.elim wide (·.elim tall (· inside))

end Plan

/-! ### Blocks -/

theorem BlockWindow.block_of_identity {window : BlockWindow} {grid : Grid} {row column : Nat}
    (unturned : window.mapping = Orientation.identity.mapping)
    (rowInside : row + window.rowOffset < grid.blocksTall)
    (columnInside : column + window.columnOffset < grid.blocksWide) :
    window.block grid row column =
      grid.block (row + window.rowOffset) (column + window.columnOffset) := by
  obtain ⟨mapping, mirrorColumns, mirrorRows, columnOffset, rowOffset⟩ := window
  cases unturned
  exact if_pos ⟨rowInside, columnInside⟩

/-- A result that is cut out of its source along the lines between iMCUs: each component keeps
its table and its sampling factors, and every block of its grid is the one that lies as many
blocks further as the component has in the iMCUs that are skipped. -/
structure JpegImage.CutFrom (result source : JpegImage) (region : Region) : Prop where
  width : result.frame.width.toNat = region.width
  height : result.frame.height.toNat = region.height
  components : result.frame.components = source.frame.components
  quantizers : result.quantizers = source.quantizers
  fits : result.frame.Fits result.grids
  blocks : ∀ (index : Nat) (component : Component) (grid : Grid),
    source.frame.components[index]? = some component → source.grids[index]? = some grid →
      ∃ moved, result.grids[index]? = some moved ∧
        ∀ row < moved.blocksTall, ∀ column < moved.blocksWide,
          row + region.y / source.frame.mcuHeight * component.down < grid.blocksTall ∧
            column + region.x / source.frame.mcuWidth * component.across < grid.blocksWide ∧
            moved.block row column =
              grid.block (row + region.y / source.frame.mcuHeight * component.down)
                (column + region.x / source.frame.mcuWidth * component.across)

namespace Transformation

variable {transformation : Transformation} {source result : JpegImage} {region : Region}

theorem make_crop {frame : Frame}
    (normal : soleComponent frame.components = frame.components) (region : Region)
    (policy : MetadataPolicy) :
    ∃ plan : Plan, plan.mapping = Orientation.identity.mapping ∧
      plan.imcuWidth = frame.mcuWidth ∧ plan.imcuHeight = frame.mcuHeight ∧
      make frame (.crop region) { metadata := policy } =
        (plan.placeCrop (Geometry.ofFrame frame false) { metadata := policy } region >>=
          fun placement => pure
            { grayscale := false
              plan := plan
              placement := placement }) := by
  obtain ⟨plan, planned⟩ : ∃ plan, Plan.make (Geometry.ofFrame frame false) (.crop region)
      { metadata := policy } = .ok plan := ⟨_, rfl⟩
  obtain ⟨mapped, -, -, wide, tall⟩ := Plan.make_eq_ok planned
  obtain ⟨imcuWidth, imcuHeight⟩ := Geometry.ofFrame_imcu normal
  have kept : dropsColour frame { metadata := policy } = .ok false := rfl
  exact ⟨plan, mapped, wide.trans imcuWidth, tall.trans imcuHeight,
    (bind_of_ok kept).trans (bind_of_ok planned)⟩

theorem Places.padded_inside {frame cut : Frame} (places : transformation.Places frame cut)
    (straight : transformation.plan.mapping.transpose = false)
    (imcuWidth : transformation.plan.imcuWidth = frame.mcuWidth)
    (imcuHeight : transformation.plan.imcuHeight = frame.mcuHeight) (component : Component) :
    transformation.placement.yOffset / frame.mcuHeight * component.down +
          cut.blocksTall component ≤ frame.blocksTall component ∧
      transformation.placement.xOffset / frame.mcuWidth * component.across +
          cut.blocksWide component ≤ frame.blocksWide component := by
  have columns := places.across.padded_inside
    (imcuWidth ▸ frame.mcuWidth_pos) component.across
  have rows := places.down.padded_inside
    (imcuHeight ▸ frame.mcuHeight_pos) component.down
  unfold Frame.blocksTall Frame.blocksWide Frame.mcusTall Frame.mcusWide
  rw [← places.imcuWidth, ← places.imcuHeight, places.width, places.height, ← imcuWidth,
    ← imcuHeight]
  rw [places.transformedHeight, straight] at rows
  rw [places.transformedWidth, straight] at columns
  exact ⟨rows, columns⟩

theorem Places.components_eq {frame cut : Frame} (places : transformation.Places frame cut)
    (normal : soleComponent frame.components = frame.components)
    (coloured : transformation.grayscale = false)
    (straight : transformation.plan.mapping.transpose = false) :
    cut.components = frame.components := by
  rw [places.components, components_of_coloured coloured, straight,
    Frame.normal_reoriented normal]
  exact List.map_id'' (fun component => by rfl) _

theorem Places.cutFrom (places : transformation.Places source.frame result.frame)
    (wellFormed : source.WellFormed) {policy : MetadataPolicy}
    (applied : transformation.apply policy source = .ok result)
    (coloured : transformation.grayscale = false)
    (unturned : transformation.plan.mapping = Orientation.identity.mapping) :
    result.CutFrom source transformation.placement.region := by
  obtain ⟨-, grids, quantizers, -, resultFormed⟩ := apply_eq_ok applied
  have straight : transformation.plan.mapping.transpose = false :=
    congrArg BlockMapping.transpose unturned
  have components := places.components_eq wellFormed.normal coloured straight
  obtain ⟨widest, tallest⟩ := Frame.max_congr components
  have imcuWidth : transformation.plan.imcuWidth = source.frame.mcuWidth :=
    places.imcuWidth.trans (congrArg (· * 8) widest)
  have imcuHeight : transformation.plan.imcuHeight = source.frame.mcuHeight :=
    places.imcuHeight.trans (congrArg (· * 8) tallest)
  refine ⟨places.width, places.height, components, ?_, resultFormed.fits, ?_⟩
  · rw [quantizers, parameters_quantizers, straight, coloured]
    rfl
  · -- Each block of the result lies inside of the source, padding included.
    intro index component grid listed there
    have found : result.frame.components[index]? = some component := components ▸ listed
    have moved := remap_getElem? transformation.plan transformation.placement found there
    obtain ⟨wide, tall⟩ := wellFormed.fits.grid index component grid listed there
    obtain ⟨rows, columns⟩ := places.padded_inside straight imcuWidth imcuHeight component
    rw [← tall] at rows
    rw [← wide] at columns
    refine ⟨_, grids ▸ moved, fun row rowInside column columnInside => ?_⟩
    change row < result.frame.blocksTall component at rowInside
    change column < result.frame.blocksWide component at columnInside
    have rowSource : row + transformation.placement.yOffset / source.frame.mcuHeight *
        component.down < grid.blocksTall := by omega
    have columnSource : column + transformation.placement.xOffset / source.frame.mcuWidth *
        component.across < grid.blocksWide := by omega
    refine ⟨rowSource, columnSource, ?_⟩
    rw [← imcuHeight] at rowSource ⊢
    rw [← imcuWidth] at columnSource ⊢
    rw [Grid.block_ofFn rowInside columnInside]
    exact BlockWindow.block_of_identity unturned rowSource columnSource

end Transformation

/-- A crop is planned exactly if its region has pixels and all of them are in the image. It
then takes the least rectangle between iMCUs that contains the region, and cuts it out of the
source as it is. -/
theorem Transformation.make_crop_leastCover {source : JpegImage}
    (wellFormed : source.WellFormed) (region : Region) (policy : MetadataPolicy) :
    ((∃ fault, make source.frame (.crop region) { metadata := policy } =
        .error (.unsupportedGeometry fault)) ↔
      region.width = 0 ∨ region.height = 0 ∨ ¬ region.Inside source.frame) ∧
    (region.width ≠ 0 → region.height ≠ 0 → region.Inside source.frame →
      ∃ transformation result,
        make source.frame (.crop region) { metadata := policy } = .ok transformation ∧
          transformation.apply policy source = .ok result ∧
          region.LeastCover transformation.placement.region source.frame ∧
          result.CutFrom source transformation.placement.region) := by
  obtain ⟨plan, unturned, imcuWidth, imcuHeight, planned⟩ :=
    make_crop wellFormed.normal region policy
  constructor
  · constructor
    · rintro ⟨fault, failed⟩
      by_contra asked
      rw [not_or, not_or, not_not] at asked
      obtain ⟨placement, placed, -⟩ := Plan.placeCrop_covers imcuWidth imcuHeight asked policy
      rw [planned, bind_of_ok placed] at failed
      cases failed
    · intro outside
      rw [planned, Plan.placeCrop_of_outside outside]
      exact ⟨_, rfl⟩
  · intro wide tall inside
    obtain ⟨placement, placed, covers⟩ := Plan.placeCrop_covers imcuWidth imcuHeight
      ⟨wide, tall, inside⟩ policy
    rw [bind_of_ok placed] at planned
    obtain ⟨result, applied, -, places⟩ := exists_image wellFormed planned policy
    exact ⟨_, result, planned, applied, covers,
      places.cutFrom wellFormed applied rfl unturned⟩

/-- Three MCUs by two, of which the last column and the last row are cut by the edge. The
second component has one block in each. -/
private def tiles : JpegImage :=
  { frame :=
      { width := 40
        height := 24
        components :=
          [{ id := 9, across := 2, down := 2, quantizer := 3 },
           { id := 10, across := 1, down := 1, quantizer := 3 }]
        progressive := true
        width_ne_zero := by decide
        height_ne_zero := by decide
        components_ne_nil := by decide
        components_length := by decide
        admissible := by decide }
    grids :=
      #[Grid.ofFn 6 4 fun row column =>
          Block.zero.setIfInBounds 0 (Int16.ofNat (10 * row + column)),
        Grid.ofFn 3 2 fun row column =>
          Block.zero.setIfInBounds 9 (Int16.ofNat (10 * row + column))]
    quantizers := #v[none, none, none, some (Vector.replicate 64 40)]
    metadata := [] }

/-- Ten columns inside the second column of MCUs take all of it, down to the edge of the image.
A region that leaves the image by one column takes nothing. -/
theorem Transformation.make_crop_leastCover_tiles :
    (∃ fault, make tiles.frame (.crop { x := 33, y := 0, width := 8, height := 1 }) {} =
      .error (.unsupportedGeometry fault)) ∧
    ∃ transformation result,
      make tiles.frame (.crop { x := 17, y := 1, width := 10, height := 20 }) {} =
          .ok transformation ∧
        transformation.apply .all tiles = .ok result ∧
        transformation.placement.region = { x := 16, y := 0, width := 16, height := 24 } ∧
        result.CutFrom tiles { x := 16, y := 0, width := 16, height := 24 } ∧
        (result.grids[0]?.map fun grid => (grid.block 2 1).get 0) = some 23 ∧
        (result.grids[1]?.map fun grid => (grid.block 1 0).get 9) = some 11 := by
  have wellFormed : tiles.WellFormed :=
    { normal := rfl
      fits :=
        { size := rfl
          grid := by
            intro index component grid found there
            match index with
            | 0 =>
                cases found
                cases there
                exact ⟨by decide, by decide⟩
            | 1 =>
                cases found
                cases there
                exact ⟨by decide, by decide⟩
            | index + 2 => cases found }
      quantized := by
        intro component member
        have last : ∀ other ∈ tiles.frame.components, other.quantizer = 3 := by decide
        rw [last component member]
        exact ⟨_, rfl⟩ }
  have placed : (make tiles.frame (.crop { x := 17, y := 1, width := 10, height := 20 }) {}).map
      (·.placement.region) = .ok { x := 16, y := 0, width := 16, height := 24 } := by
    decide
  have shown : (do
      let transformation ←
        make tiles.frame (.crop { x := 17, y := 1, width := 10, height := 20 }) {}
      let result ← transformation.apply .all tiles
      pure (result.grids[0]?.map fun grid => (grid.block 2 1).get 0,
        result.grids[1]?.map fun grid => (grid.block 1 0).get 9)) =
        (.ok (some 23, some 11) : Except TransformError (Option Int16 × Option Int16)) := by
    decide +kernel
  obtain ⟨refused, -⟩ := make_crop_leastCover wellFormed
    { x := 33, y := 0, width := 8, height := 1 } .all
  obtain ⟨-, taken⟩ := make_crop_leastCover wellFormed
    { x := 17, y := 1, width := 10, height := 20 } .all
  obtain ⟨transformation, result, made, applied, -, cut⟩ :=
    taken (by decide) (by decide) ⟨by decide, by decide⟩
  rw [made] at placed
  rw [bind_of_ok made, bind_of_ok applied] at shown
  have region := Except.ok.inj placed
  obtain ⟨first, second⟩ := Prod.mk.inj (Except.ok.inj shown)
  refine ⟨refused.mpr (Or.inr (Or.inr fun inside => ?_)), transformation, result, made, applied,
    region, region ▸ cut, first, second⟩
  exact absurd inside.1 (by decide)

end LosslessJpeg
