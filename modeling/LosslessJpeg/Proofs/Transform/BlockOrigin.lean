import LosslessJpeg.Proofs.Transform.Completion

set_option autoImplicit false

/-!
Where the blocks of a result come from. Every block of its image comes from a block of its
own in the image of the same component of the source, if all components are kept. A first
component that is kept alone counts as one of full resolution, so that the result has more
blocks than the source if the component has been sampled more coarsely than another one.
-/

namespace LosslessJpeg

namespace AxisPlaced

variable {mirror : Bool} {extent most offset size : Nat}

theorem blocks_inside (placed : AxisPlaced mirror extent (most * 8) offset size)
    (positive : 0 < most) (factor : Nat) :
    offset / (most * 8) * factor + sampledBlocks size factor most ≤
      sampledBlocks extent factor most := by
  rw [← sampledBlocks_add positive, Nat.div_mul_cancel placed.aligned]
  exact sampledBlocks_le_sampledBlocks placed.inside factor most

theorem blocks_mirrored (placed : AxisPlaced mirror extent (most * 8) offset size)
    (positive : 0 < most) (factor : Nat) (mirrored : mirror = true) :
    offset / (most * 8) * factor = 0 ∧
      extent / (most * 8) * factor ≤ sampledBlocks size factor most := by
  obtain ⟨start, whole⟩ := placed.mirrored mirrored
  rw [start, Nat.zero_div, Nat.zero_mul, ← sampledBlocks_whole positive]
  exact ⟨rfl, sampledBlocks_le_sampledBlocks whole factor most⟩

end AxisPlaced

theorem reflected_injective (mirror : Bool) (whole : Nat) :
    Function.Injective (reflected mirror whole) := by
  intro place other same
  have back := congrArg (reflected mirror whole) same
  rw [reflected_reflected, reflected_reflected, Bool.xor_self] at back
  exact back

theorem reflected_window {mirror : Bool} {whole offset size bound : Nat} (some : 0 < size)
    (mirrored : mirror = true → offset = 0 ∧ whole ≤ size) :
    (∀ place < size, reflected mirror whole (place + offset) < bound) ↔
      offset + size ≤ bound := by
  cases mirror with
  | false =>
      constructor
      · intro inside
        have last : size - 1 + offset < bound := inside (size - 1) (by omega)
        omega
      · intro inside place placed
        change place + offset < bound
        omega
  | true =>
      obtain ⟨rfl, whole⟩ := mirrored rfl
      constructor
      · intro inside
        -- The last place is drawn by its mirror image.
        have last := inside _ (reflected_lt true whole (Nat.sub_one_lt_of_lt some))
        rw [Nat.add_zero, reflected_reflected] at last
        change size - 1 < bound at last
        omega
      · intro inside place placed
        have drawn := reflected_lt true whole placed
        rw [Nat.add_zero]
        omega

namespace BlockWindow

variable {window : BlockWindow}

/-- Whether the first rows and columns of a result are drawn from given rows and columns of
the source. -/
def DrawsWithin (window : BlockWindow) (tall wide sourceTall sourceWide : Nat) : Prop :=
  ∀ row < tall, ∀ column < wide,
    (window.source row column).row < sourceTall ∧
      (window.source row column).column < sourceWide

theorem source_row (window : BlockWindow) (row column : Nat) :
    (window.source row column).row =
      if window.mapping.transpose then
        reflected window.mapping.mirrorX window.mirrorColumns (column + window.columnOffset)
      else
        reflected window.mapping.mirrorY window.mirrorRows (row + window.rowOffset) :=
  rfl

theorem source_column (window : BlockWindow) (row column : Nat) :
    (window.source row column).column =
      if window.mapping.transpose then
        reflected window.mapping.mirrorY window.mirrorRows (row + window.rowOffset)
      else
        reflected window.mapping.mirrorX window.mirrorColumns (column + window.columnOffset) :=
  rfl

theorem source_injective (window : BlockWindow) {row column otherRow otherColumn : Nat}
    (sameRow : (window.source row column).row = (window.source otherRow otherColumn).row)
    (sameColumn : (window.source row column).column =
      (window.source otherRow otherColumn).column) :
    row = otherRow ∧ column = otherColumn := by
  rw [source_row, source_row] at sameRow
  rw [source_column, source_column] at sameColumn
  cases transpose : window.mapping.transpose with
  | false =>
      rw [transpose] at sameRow sameColumn
      exact ⟨Nat.add_right_cancel (reflected_injective _ _ sameRow),
        Nat.add_right_cancel (reflected_injective _ _ sameColumn)⟩
  | true =>
      rw [transpose] at sameRow sameColumn
      exact ⟨Nat.add_right_cancel (reflected_injective _ _ sameColumn),
        Nat.add_right_cancel (reflected_injective _ _ sameRow)⟩

theorem drawsWithin_iff {tall wide sourceTall sourceWide : Nat} (someRows : 0 < tall)
    (someColumns : 0 < wide)
    (mirroredX : window.mapping.mirrorX = true →
      window.columnOffset = 0 ∧ window.mirrorColumns ≤ wide)
    (mirroredY : window.mapping.mirrorY = true →
      window.rowOffset = 0 ∧ window.mirrorRows ≤ tall) :
    window.DrawsWithin tall wide sourceTall sourceWide ↔
      window.rowOffset + tall ≤
          (if window.mapping.transpose then sourceWide else sourceTall) ∧
        window.columnOffset + wide ≤
          (if window.mapping.transpose then sourceTall else sourceWide) := by
  rw [← reflected_window someRows mirroredY, ← reflected_window someColumns mirroredX]
  unfold DrawsWithin
  simp only [source_row, source_column]
  cases window.mapping.transpose with
  | false =>
      constructor
      · intro drawn
        exact ⟨fun row placed => (drawn row placed 0 someColumns).1,
          fun column placed => (drawn 0 someRows column placed).2⟩
      · rintro ⟨rows, columns⟩ row rowPlaced column columnPlaced
        exact ⟨rows row rowPlaced, columns column columnPlaced⟩
  | true =>
      constructor
      · intro drawn
        exact ⟨fun row placed => (drawn row placed 0 someColumns).2,
          fun column placed => (drawn 0 someRows column placed).1⟩
      · rintro ⟨rows, columns⟩ row rowPlaced column columnPlaced
        exact ⟨columns column columnPlaced, rows row rowPlaced⟩

theorem block_of_inside {grid : Grid} {row column : Nat}
    (rowInside : (window.source row column).row < grid.blocksTall)
    (columnInside : (window.source row column).column < grid.blocksWide) :
    window.block grid row column =
      window.orient (window.source row column)
        (grid.block (window.source row column).row (window.source row column).column) :=
  if_pos ⟨rowInside, columnInside⟩

end BlockWindow

structure BlockWindow.Moves (window : BlockWindow) (grid moved : Grid)
    (tall wide sourceTall sourceWide : Nat) : Prop where
  inside : window.DrawsWithin tall wide sourceTall sourceWide
  once : ∀ row < tall, ∀ column < wide, ∀ otherRow < tall, ∀ otherColumn < wide,
    (window.source row column).row = (window.source otherRow otherColumn).row →
      (window.source row column).column = (window.source otherRow otherColumn).column →
        row = otherRow ∧ column = otherColumn
  moved : ∀ row < tall, ∀ column < wide,
    moved.block row column = window.orient (window.source row column)
      (grid.block (window.source row column).row (window.source row column).column)

theorem BlockWindow.moves_iff (window : BlockWindow) {grid : Grid}
    {movedTall movedWide tall wide sourceTall sourceWide : Nat} (tallInside : tall ≤ movedTall)
    (wideInside : wide ≤ movedWide) (sourceTallInside : sourceTall ≤ grid.blocksTall)
    (sourceWideInside : sourceWide ≤ grid.blocksWide) :
    window.Moves grid (Grid.ofFn movedWide movedTall (window.block grid)) tall wide sourceTall
        sourceWide ↔
      window.DrawsWithin tall wide sourceTall sourceWide := by
  refine ⟨Moves.inside, fun inside => ⟨inside, ?_, fun row rowPlaced column columnPlaced => ?_⟩⟩
  · intro row _ column _ otherRow _ otherColumn _ sameRow sameColumn
    exact window.source_injective sameRow sameColumn
  · obtain ⟨rowDrawn, columnDrawn⟩ := inside row rowPlaced column columnPlaced
    rw [Grid.block_ofFn (Nat.lt_of_lt_of_le rowPlaced tallInside)
      (Nat.lt_of_lt_of_le columnPlaced wideInside)]
    exact block_of_inside (Nat.lt_of_lt_of_le rowDrawn sourceTallInside)
      (Nat.lt_of_lt_of_le columnDrawn sourceWideInside)

/-! ### Results -/

namespace Transformation

variable {transformation : Transformation} {source result : Frame}

/-- The blocks of the transformed source as its result samples it are those of the source,
if colour is kept or the kept component has full resolution. -/
theorem Places.blocks_eq (places : transformation.Places source result)
    (normal : soleComponent source.components = source.components) {index : Nat}
    {component kept : Component} (found : result.components[index]? = some component)
    (listed : source.components[index]? = some kept)
    (full : transformation.grayscale = false ∨
      (kept.across = source.maxAcross ∧ kept.down = source.maxDown)) :
    sampledBlocks transformation.plan.transformedWidth component.across result.maxAcross =
        (if transformation.plan.mapping.transpose then source.imageBlocksTall kept
          else source.imageBlocksWide kept) ∧
      sampledBlocks transformation.plan.transformedHeight component.down result.maxDown =
        (if transformation.plan.mapping.transpose then source.imageBlocksWide kept
          else source.imageBlocksTall kept) := by
  obtain ⟨other, same, -, layout⟩ := places.component_cases normal found
  cases listed.symm.trans same
  rw [places.transformedWidth, places.transformedHeight]
  -- In colour the sampling factors are kept. A component alone is one of full resolution
  -- afterwards.
  rcases layout with ⟨-, rfl, widest, tallest⟩ |
    ⟨grayscale, -, ⟨across, down⟩, widest, tallest⟩
  · rw [widest, tallest, Frame.maxAcross_reoriented, Frame.maxDown_reoriented]
    cases transformation.plan.mapping.transpose with
    | false => exact ⟨rfl, rfl⟩
    | true => exact ⟨rfl, rfl⟩
  · have sampled : kept.across = source.maxAcross ∧ kept.down = source.maxDown :=
      full.resolve_left (by simp [grayscale])
    have wide : source.imageBlocksWide kept = sampledBlocks source.width.toNat 1 1 := by
      unfold Frame.imageBlocksWide
      rw [sampled.1]
      exact sampledBlocks_finest source.maxAcross_pos _
    have tall : source.imageBlocksTall kept = sampledBlocks source.height.toNat 1 1 := by
      unfold Frame.imageBlocksTall
      rw [sampled.2]
      exact sampledBlocks_finest source.maxDown_pos _
    rw [widest, tallest, across, down, wide, tall]
    cases transformation.plan.mapping.transpose with
    | false => exact ⟨rfl, rfl⟩
    | true => exact ⟨rfl, rfl⟩

section Window

variable {component : Component}

theorem Places.window (places : transformation.Places source result) (component : Component) :
    BlockWindow.make transformation.plan transformation.placement component =
      { mapping := transformation.plan.mapping
        mirrorColumns := transformation.plan.transformedWidth / (result.maxAcross * 8) *
          component.across
        mirrorRows := transformation.plan.transformedHeight / (result.maxDown * 8) *
          component.down
        columnOffset := transformation.placement.xOffset / (result.maxAcross * 8) *
          component.across
        rowOffset := transformation.placement.yOffset / (result.maxDown * 8) *
          component.down } := by
  unfold BlockWindow.make
  rw [places.imcuWidth, places.imcuHeight]
  rfl

theorem Places.axes (places : transformation.Places source result) :
    AxisPlaced transformation.plan.mapping.mirrorX transformation.plan.transformedWidth
        (result.maxAcross * 8) transformation.placement.xOffset result.width.toNat ∧
      AxisPlaced transformation.plan.mapping.mirrorY transformation.plan.transformedHeight
        (result.maxDown * 8) transformation.placement.yOffset result.height.toNat := by
  have across := places.across
  have down := places.down
  rw [places.imcuWidth, ← places.width] at across
  rw [places.imcuHeight, ← places.height] at down
  exact ⟨across, down⟩

theorem Places.drawsWithin_iff (places : transformation.Places source result)
    (member : component ∈ result.components) (sourceTall sourceWide : Nat) :
    (BlockWindow.make transformation.plan transformation.placement component).DrawsWithin
        (result.imageBlocksTall component) (result.imageBlocksWide component) sourceTall
        sourceWide ↔
      transformation.placement.yOffset / result.mcuHeight * component.down +
            result.imageBlocksTall component ≤
          (if transformation.plan.mapping.transpose then sourceWide else sourceTall) ∧
        transformation.placement.xOffset / result.mcuWidth * component.across +
            result.imageBlocksWide component ≤
          (if transformation.plan.mapping.transpose then sourceTall else sourceWide) := by
  obtain ⟨across, down⟩ := places.axes
  rw [places.window]
  exact BlockWindow.drawsWithin_iff (Frame.imageBlocksTall_pos member)
    (Frame.imageBlocksWide_pos member)
    (across.blocks_mirrored result.maxAcross_pos component.across)
    (down.blocks_mirrored result.maxDown_pos component.down)

theorem Places.drawsWithin (places : transformation.Places source result)
    (normal : soleComponent source.components = source.components) {index : Nat}
    {kept : Component} (found : result.components[index]? = some component)
    (listed : source.components[index]? = some kept)
    (full : transformation.grayscale = false ∨
      (kept.across = source.maxAcross ∧ kept.down = source.maxDown)) :
    (BlockWindow.make transformation.plan transformation.placement component).DrawsWithin
      (result.imageBlocksTall component) (result.imageBlocksWide component)
      (source.imageBlocksTall kept) (source.imageBlocksWide kept) := by
  obtain ⟨across, down⟩ := places.axes
  obtain ⟨wide, tall⟩ := places.blocks_eq normal found listed full
  rw [places.drawsWithin_iff (List.mem_of_getElem? found), ← wide, ← tall]
  exact ⟨down.blocks_inside result.maxDown_pos component.down,
    across.blocks_inside result.maxAcross_pos component.across⟩

end Window

end Transformation

def Transformation.Draws (transformation : Transformation) (source result : JpegImage)
    (index : Nat) : Prop :=
  ∃ component kept grid moved, result.frame.components[index]? = some component ∧
    source.frame.components[index]? = some kept ∧ source.grids[index]? = some grid ∧
    result.grids[index]? = some moved ∧
    (BlockWindow.make transformation.plan transformation.placement component).Moves grid moved
      (result.frame.imageBlocksTall component) (result.frame.imageBlocksWide component)
      (source.frame.imageBlocksTall kept) (source.frame.imageBlocksWide kept)

namespace Transformation

variable {transformation : Transformation} {source result : JpegImage}
  {directive : Directive} {options : TransformOptions} {policy : MetadataPolicy}

theorem places_of_apply (normal : soleComponent source.frame.components = source.frame.components)
    (made : make source.frame directive options = .ok transformation)
    (applied : transformation.apply policy source = .ok result) :
    transformation.Places source.frame result.frame := by
  obtain ⟨frame, framed, places⟩ := exists_frame normal made
  cases framed.symm.trans (apply_eq_ok applied).1
  exact places

section

variable {index : Nat} {component kept : Component}

theorem draws_iff_drawsWithin (fits : source.frame.Fits source.grids)
    (applied : transformation.apply policy source = .ok result)
    (found : result.frame.components[index]? = some component)
    (listed : source.frame.components[index]? = some kept) :
    transformation.Draws source result index ↔
      (BlockWindow.make transformation.plan transformation.placement component).DrawsWithin
        (result.frame.imageBlocksTall component) (result.frame.imageBlocksWide component)
        (source.frame.imageBlocksTall kept) (source.frame.imageBlocksWide kept) := by
  obtain ⟨grid, there, wide, tall⟩ := fits.exists_grid listed
  have moved := remap_getElem? transformation.plan transformation.placement found there
  rw [← (apply_eq_ok applied).2.1] at moved
  have drawn := BlockWindow.moves_iff
    (BlockWindow.make transformation.plan transformation.placement component)
    (result.frame.imageBlocksTall_le component) (result.frame.imageBlocksWide_le component)
    (tall ▸ source.frame.imageBlocksTall_le kept) (wide ▸ source.frame.imageBlocksWide_le kept)
  rw [← drawn]
  constructor
  · rintro ⟨component', kept', grid', moved', found', listed', there', moved'', moves⟩
    cases found.symm.trans found'
    cases listed.symm.trans listed'
    cases there.symm.trans there'
    cases moved.symm.trans moved''
    exact moves
  · intro moves
    exact ⟨component, kept, grid, _, found, listed, there, moved, moves⟩

end

end Transformation

/-- No block in the image of a result is made up or shown twice, if colour is kept or the
component kept alone has full resolution. Otherwise this depends on whether the image has as
many blocks of the component as of a component of full resolution. -/
theorem transform_draws_iff {file : List UInt8} {directive : Directive}
    {options : TransformOptions} {transformed : Transformed}
    (done : transform file directive options = .ok transformed) :
    ∃ header transformation source result, FileHeader.read file = .ok header ∧
      Transformation.make header.frame directive options = .ok transformation ∧
      JpegImage.ofHeader file header = .ok source ∧
      transformation.apply options.metadata source = .ok result ∧
      result.toBytes = .ok transformed.bytes ∧
      ∀ (index : Nat) (component : Component),
        result.frame.components[index]? = some component →
          ∃ kept, source.frame.components[index]? = some kept ∧
            (transformation.Draws source result index ↔
              transformation.placement.yOffset / result.frame.mcuHeight * component.down +
                    result.frame.imageBlocksTall component ≤
                  (if transformation.plan.mapping.transpose then
                    source.frame.imageBlocksWide kept
                  else source.frame.imageBlocksTall kept) ∧
                transformation.placement.xOffset / result.frame.mcuWidth * component.across +
                    result.frame.imageBlocksWide component ≤
                  (if transformation.plan.mapping.transpose then
                    source.frame.imageBlocksTall kept
                  else source.frame.imageBlocksWide kept)) ∧
            (transformation.grayscale = false ∨
                (kept.across = source.frame.maxAcross ∧ kept.down = source.frame.maxDown) →
              transformation.Draws source result index) := by
  obtain ⟨header, transformation, source, result, headed, made, read, applied, written, -⟩ :=
    transform_eq_ok done
  have sound := JpegImage.sound_of_ofHeader (FileHeader.sound_of_read headed) read
  have planned := made
  rw [← JpegImage.ofHeader_frame read] at planned
  have places := Transformation.places_of_apply sound.normal planned applied
  refine ⟨header, transformation, source, result, headed, made, read, applied, written,
    fun index component found => ?_⟩
  obtain ⟨kept, listed, -⟩ := places.component_cases sound.normal found
  have draws := Transformation.draws_iff_drawsWithin sound.fits applied found listed
  refine ⟨kept, listed, ?_, fun full => draws.mpr ?_⟩
  · exact draws.trans (places.drawsWithin_iff (List.mem_of_getElem? found) _ _)
  · exact places.drawsWithin sound.normal found listed full

theorem transform_draws_iff_coarseFile : ∃ header transformation source result transformed,
    FileHeader.read coarseFile = .ok header ∧
      Transformation.make header.frame (.orient .flipHorizontal) {} = .ok transformation ∧
      JpegImage.ofHeader coarseFile header = .ok source ∧
      transformation.apply .all source = .ok result ∧
      transform coarseFile (.orient .flipHorizontal) {} = .ok transformed ∧
      ∀ index < result.frame.components.length, transformation.Draws source result index := by
  have planned : measured coarseFile (.orient .flipHorizontal) {}
      (fun transformation _ _ => transformation.grayscale) = .ok (3, false) := by
    decide +kernel
  obtain ⟨header, transformation, -, -, transformed, headed, made, -, -, done, coloured⟩ :=
    exists_transformed_of_measured planned (by decide)
  obtain ⟨header', transformation', source, result, headed', made', read, applied, -, each⟩ :=
    transform_draws_iff done
  cases headed.symm.trans headed'
  cases made.symm.trans made'
  refine ⟨header, transformation, source, result, transformed, headed, made, read, applied, done,
    fun index inside => ?_⟩
  obtain ⟨kept, -, -, draws⟩ := each index _ (List.getElem?_eq_getElem inside)
  exact draws (Or.inl coloured)

/-- Kept alone, a component of one block is spread over two, and the second is made up. -/
theorem transform_coarseFile_madeUp : ∃ header transformation source result transformed,
    FileHeader.read coarseFile = .ok header ∧
      Transformation.make header.frame (.orient .identity) { grayscale := true } =
        .ok transformation ∧
      JpegImage.ofHeader coarseFile header = .ok source ∧
      transformation.apply .all source = .ok result ∧
      transform coarseFile (.orient .identity) { grayscale := true } = .ok transformed ∧
      ¬ transformation.Draws source result 0 := by
  have planned : measured coarseFile (.orient .identity) { grayscale := true }
      (fun transformation source frame =>
        frame.components[0]?.bind fun component => source.components[0]?.map fun kept =>
          (frame.imageBlocksTall component, frame.imageBlocksWide component,
            ((BlockWindow.make transformation.plan transformation.placement component).source
              0 1).column, source.imageBlocksWide kept)) =
        .ok (0, some (1, 2, 1, 1)) := by
    decide +kernel
  obtain ⟨header, transformation, source, result, transformed, headed, made, read, applied, done,
    measures⟩ := exists_transformed_of_measured planned (by decide)
  obtain ⟨component, found, blocks⟩ := Option.bind_eq_some_iff.mp measures
  obtain ⟨kept, listed, blocks⟩ := Option.map_eq_some_iff.mp blocks
  simp only [Prod.mk.injEq] at blocks
  obtain ⟨tall, wide, column, sourceWide⟩ := blocks
  have sound := JpegImage.sound_of_ofHeader (FileHeader.sound_of_read headed) read
  refine ⟨header, transformation, source, result, transformed, headed, made, read, applied, done,
    fun draws => ?_⟩
  have drawn := (Transformation.draws_iff_drawsWithin sound.fits applied found listed).mp draws
  have second := (drawn 0 (by rw [tall]; decide) 1 (by rw [wide]; decide)).2
  rw [column, sourceWide] at second
  exact Nat.lt_irrefl 1 second

end LosslessJpeg
