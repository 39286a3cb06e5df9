import LosslessJpeg.Proofs.Checked.Planning
import LosslessJpeg.Proofs.Checked.Reading
import LosslessJpeg.Proofs.Transform.BlockOrigin

set_option autoImplicit false

/-!
Moving blocks to their places in the grids of the result, row by row. A place that takes no
block of the source keeps the zero block it began with.
-/

namespace LosslessJpeg

namespace Checked

def windowOf (plan : Plan) (placement : Placement) (component : Component) :
    Checked TransformError BlockWindow := do
  divides plan.imcuWidth
  fits 64 (plan.transformedWidth / plan.imcuWidth * component.across)
  divides plan.imcuHeight
  fits 64 (plan.transformedHeight / plan.imcuHeight * component.down)
  fits 64 (placement.xOffset / plan.imcuWidth * component.across)
  fits 64 (placement.yOffset / plan.imcuHeight * component.down)
  pure (BlockWindow.make plan placement component)

def reflectedPlace (mirrored : Bool) (whole offset place : Nat) : Checked TransformError Nat := do
  fits 64 (place + offset)
  if mirrored && decide (place + offset < whole) then do
    covers whole 1
    covers (whole - 1) (place + offset)
    pure (whole - 1 - (place + offset))
  else
    pure (place + offset)

def frequencyBounds : Checked TransformError Unit :=
  (List.range 8).forM fun vertical =>
    (List.range 8).forM fun horizontal => do
      inside 64 (vertical * 8 + horizontal)
      inside 64 (horizontal * 8 + vertical)

section

variable (window : BlockWindow) (source : Grid)

def moveBlock (row y : Nat) (result : Grid) (column : Nat) : Checked TransformError Grid := do
  let x ← reflectedPlace window.mapping.mirrorX window.mirrorColumns window.columnOffset column
  let sourceRow := if window.mapping.transpose then x else y
  let sourceColumn := if window.mapping.transpose then y else x
  if sourceRow < source.blocksTall ∧ sourceColumn < source.blocksWide then do
    coefficientBounds source sourceRow sourceColumn
    frequencyBounds
    coefficientBounds result row column
    pure (result.setBlock row column
      (window.orient (window.source row column) (source.block sourceRow sourceColumn)))
  else
    pure result

def moveRow (result : Grid) (row : Nat) : Checked TransformError Grid := do
  let y ← reflectedPlace window.mapping.mirrorY window.mirrorRows window.rowOffset row
  (List.range result.blocksWide).foldlM (moveBlock window source row y) result

def moveRows (result : Grid) : Checked TransformError Grid :=
  (List.range result.blocksTall).foldlM (moveRow window source) result

end

def moveGrid (plan : Plan) (placement : Placement) (result : Frame) (grids : List Grid)
    (index : Nat) : Checked TransformError Grid := do
  let component ← item result.components index
  let source ← item grids index
  let window ← windowOf plan placement component
  let (wide, tall) ← blocksAcross result index
  let empty ← emptyGrid wide tall
  moveRows window source empty

def execute (plan : Plan) (placement : Placement) (result : Frame) (grids : List Grid) :
    Checked TransformError (List Grid) :=
  (List.range result.components.length).mapM (moveGrid plan placement result grids)

private theorem reflectedPlace_eq {offset place : Nat} (small : place + offset < 2 ^ 64)
    (mirrored : Bool) (whole : Nat) :
    reflectedPlace mirrored whole offset place =
      .ok (reflected mirrored whole (place + offset)) := by
  unfold reflectedPlace reflected
  rw [bind_of_ok (fits_of_lt small)]
  split
  · rename_i turned
    have below : place + offset < whole := by
      rw [Bool.and_eq_true, decide_eq_true_iff] at turned
      exact turned.2
    rw [bind_of_ok (covers_of_le (by omega)), bind_of_ok (covers_of_le (by omega))]
    rfl
  · rfl

theorem frequencyBounds_eq : frequencyBounds = .ok () :=
  rfl

/-- A loop that counts up, each round of which takes what holds to the next place. -/
private theorem foldlM_range {ε α : Type} {step : α → Nat → Checked ε α}
    {holds : Nat → α → Prop} {count : Nat}
    (each : ∀ place < count, ∀ value, holds place value →
      ∃ next, step value place = .ok next ∧ holds (place + 1) next)
    {value : α} (start : holds 0 value) :
    ∃ last, (List.range count).foldlM step value = .ok last ∧ holds count last := by
  induction count with
  | zero => exact ⟨value, rfl, start⟩
  | succ count inductionHypothesis =>
      obtain ⟨before, looped, held⟩ := inductionHypothesis fun place below =>
        each place (Nat.lt_succ_of_lt below)
      obtain ⟨last, stepped, holdsLast⟩ := each count (Nat.lt_succ_self count) before held
      refine ⟨last, ?_, holdsLast⟩
      rw [List.range_succ, List.foldlM_append, looped, bind_of_ok rfl, List.foldlM_cons, stepped]
      rfl

/-- The measures of a window, of its source and of the result are small enough for every sum
and every product. -/
private structure Small (window : BlockWindow) (source : Grid) (wide tall : Nat) : Prop where
  columnOffset : window.columnOffset < 2 ^ 32
  rowOffset : window.rowOffset < 2 ^ 32
  sourceWide : source.blocksWide ≤ 8195
  sourceTall : source.blocksTall ≤ 8195
  wide : wide ≤ 8195
  tall : tall ≤ 8195

/-- A result of given size that is complete up to a place in a row. -/
private structure Filled (window : BlockWindow) (source : Grid) (wide tall row column : Nat)
    (result : Grid) : Prop where
  width : result.blocksWide = wide
  height : result.blocksTall = tall
  blocks : ∀ otherRow < tall, ∀ otherColumn < wide, result.block otherRow otherColumn =
    if otherRow < row ∨ otherRow = row ∧ otherColumn < column then
      window.block source otherRow otherColumn
    else Block.zero

section

variable {window : BlockWindow} {source result : Grid} {wide tall row column : Nat}

private theorem Filled.next_row (filled : Filled window source wide tall row wide result) :
    Filled window source wide tall (row + 1) 0 result where
  width := filled.width
  height := filled.height
  blocks otherRow rowInside otherColumn columnInside := by
    rw [filled.blocks otherRow rowInside otherColumn columnInside]
    exact if_congr (by omega) rfl rfl

private theorem Filled.keep (filled : Filled window source wide tall row column result)
    (empty : window.block source row column = Block.zero) :
    Filled window source wide tall row (column + 1) result where
  width := filled.width
  height := filled.height
  blocks otherRow rowInside otherColumn columnInside := by
    rw [filled.blocks otherRow rowInside otherColumn columnInside]
    by_cases here : otherRow = row ∧ otherColumn = column
    · obtain ⟨rfl, rfl⟩ := here
      rw [empty, ite_self, ite_self]
    · exact if_congr (by omega) rfl rfl

private theorem Filled.setBlock (filled : Filled window source wide tall row column result)
    (rowInside : row < tall) (columnInside : column < wide) :
    Filled window source wide tall row (column + 1)
      (result.setBlock row column (window.block source row column)) where
  width := filled.width
  height := filled.height
  blocks otherRow otherRowInside otherColumn otherColumnInside := by
    by_cases here : otherRow = row ∧ otherColumn = column
    · obtain ⟨rfl, rfl⟩ := here
      rw [Grid.block_setBlock_self (filled.height ▸ rowInside) (filled.width ▸ columnInside),
        if_pos (by omega)]
    · rw [Grid.block_setBlock_of_ne (filled.width ▸ columnInside)
        (filled.width ▸ otherColumnInside) (by omega),
        filled.blocks otherRow otherRowInside otherColumn otherColumnInside]
      exact if_congr (by omega) rfl rfl

private theorem Filled.moveBlock (filled : Filled window source wide tall row column result)
    (small : Small window source wide tall) (rowInside : row < tall)
    (columnInside : column < wide) :
    ∃ next, moveBlock window source row
          (reflected window.mapping.mirrorY window.mirrorRows (row + window.rowOffset)) result
          column = .ok next ∧
      Filled window source wide tall row (column + 1) next := by
  obtain ⟨offset, -, sourceWide, sourceTall, few, short⟩ := small
  have width := filled.width
  have height := filled.height
  unfold Checked.moveBlock
  rw [bind_of_ok (reflectedPlace_eq (by omega) _ _)]
  dsimp only
  rw [← window.source_row row column, ← window.source_column row column]
  split
  · rename_i inside
    rw [bind_of_ok (coefficientBounds_of_lt inside.1 inside.2 sourceWide sourceTall),
      bind_of_ok frequencyBounds_eq,
      bind_of_ok (coefficientBounds_of_lt (by omega) (by omega) (by omega) (by omega)),
      ← BlockWindow.block_of_inside inside.1 inside.2]
    exact ⟨_, rfl, filled.setBlock rowInside columnInside⟩
  · rename_i outside
    exact ⟨result, rfl, filled.keep (if_neg outside)⟩

private theorem Filled.moveRow (filled : Filled window source wide tall row 0 result)
    (small : Small window source wide tall) (rowInside : row < tall) :
    ∃ next, moveRow window source result row = .ok next ∧
      Filled window source wide tall (row + 1) 0 next := by
  have offset := small.rowOffset
  have short := small.tall
  unfold Checked.moveRow
  rw [bind_of_ok (reflectedPlace_eq (by omega) _ _), filled.width]
  obtain ⟨next, moved, filledNext⟩ := foldlM_range
    (fun column columnInside before
        (filledBefore : Filled window source wide tall row column before) =>
      filledBefore.moveBlock small rowInside columnInside) filled
  exact ⟨next, moved, filledNext.next_row⟩

private theorem moveRows_eq (small : Small window source wide tall) :
    moveRows window source (Grid.zero wide tall) =
      .ok (Grid.ofFn wide tall (window.block source)) := by
  have start : Filled window source wide tall 0 0 (Grid.zero wide tall) :=
    { width := rfl
      height := rfl
      blocks := fun otherRow rowInside otherColumn columnInside => by
        rw [Grid.block_zero, if_neg (by omega)] }
  obtain ⟨last, moved, filled⟩ := foldlM_range
    (fun row rowInside before (filledBefore : Filled window source wide tall row 0 before) =>
      filledBefore.moveRow small rowInside) start
  unfold moveRows
  have same : last = Grid.ofFn wide tall (window.block source) := by
    refine Grid.ext_block filled.width filled.height fun row rowInside column columnInside => ?_
    rw [filled.height] at rowInside
    rw [filled.width] at columnInside
    rw [filled.blocks row rowInside column columnInside, if_pos (Or.inl rowInside),
      Grid.block_ofFn rowInside columnInside]
  rw [← same]
  exact moved

end

section

variable {transformation : Transformation} {source result : Frame}

private theorem windowOf_eq (places : transformation.Places source result)
    {component : Component} (admissible : component.Admissible) :
    windowOf transformation.plan transformation.placement component =
        .ok (BlockWindow.make transformation.plan transformation.placement component) ∧
      (BlockWindow.make transformation.plan transformation.placement component).columnOffset <
          2 ^ 32 ∧
      (BlockWindow.make transformation.plan transformation.placement component).rowOffset <
          2 ^ 32 := by
  -- Every product is a number of iMCUs times a sampling factor.
  have product {extent factor : Nat} (imcu : Nat) (small : extent < 65536) (few : factor ≤ 4) :
      extent / imcu * factor < 2 ^ 32 := by
    have quotient := Nat.div_le_self extent imcu
    have times := Nat.mul_le_mul (Nat.le_trans quotient (Nat.le_of_lt small)) few
    omega
  have width : transformation.plan.transformedWidth < 65536 := by
    rw [places.transformedWidth]
    exact UInt16.toNat_lt _
  have height : transformation.plan.transformedHeight < 65536 := by
    rw [places.transformedHeight]
    exact UInt16.toNat_lt _
  have xOffset := places.across.inside
  have yOffset := places.down.inside
  have imcuWide : transformation.plan.imcuWidth ≠ 0 := by
    rw [places.imcuWidth]
    exact Nat.ne_of_gt result.mcuWidth_pos
  have imcuTall : transformation.plan.imcuHeight ≠ 0 := by
    rw [places.imcuHeight]
    exact Nat.ne_of_gt result.mcuHeight_pos
  have across := admissible.2.1
  have down := admissible.2.2.2.1
  have wideFits := product transformation.plan.imcuWidth width across
  have tallFits := product transformation.plan.imcuHeight height down
  have xFits : transformation.placement.xOffset / _ * _ < _ :=
    product transformation.plan.imcuWidth (by omega) across
  have yFits : transformation.placement.yOffset / _ * _ < _ :=
    product transformation.plan.imcuHeight (by omega) down
  refine ⟨?_, xFits, yFits⟩
  rw [windowOf, bind_of_ok (divides_of_ne imcuWide), bind_of_ok (fits_of_lt (by omega)),
    bind_of_ok (divides_of_ne imcuTall), bind_of_ok (fits_of_lt (by omega)),
    bind_of_ok (fits_of_lt (by omega)), bind_of_ok (fits_of_lt (by omega))]
  rfl

theorem execute_eq (places : transformation.Places source result)
    (normal : soleComponent source.components = source.components) {grids : Array Grid}
    (fits : source.Fits grids) :
    execute transformation.plan transformation.placement result grids.toList =
      .ok (remap grids transformation.plan transformation.placement result).toList := by
  have covered := places.length_le normal
  rw [execute, remap, mapM_eq_ok_iff, List.forall₂_iff_get]
  have count : (result.components.zip grids.toList).length = result.components.length := by
    rw [List.length_zip, Array.length_toList, fits.size]
    exact Nat.min_eq_left covered
  refine ⟨by rw [List.length_range, List.length_map, count], fun place inside _ => ?_⟩
  rw [List.length_range] at inside
  have sourceInside : place < source.components.length := Nat.lt_of_lt_of_le inside covered
  have gridInside : place < grids.toList.length := by
    rw [Array.length_toList, fits.size]
    exact sourceInside
  obtain ⟨windowed, columnOffset, rowOffset⟩ :=
    windowOf_eq places (result.admissible _ (List.getElem_mem inside))
  obtain ⟨sourceWide, sourceTall⟩ := fits.grid place _ grids.toList[place]
    (List.getElem?_eq_getElem sourceInside)
    (by rw [← Array.getElem?_toList, List.getElem?_eq_getElem gridInside])
  have few := result.blocksWide_le (List.getElem_mem inside)
  have short := result.blocksTall_le (List.getElem_mem inside)
  rw [List.get_eq_getElem, List.get_eq_getElem, List.getElem_range, List.getElem_map,
    List.getElem_zip, moveGrid, bind_of_ok (item_of_lt inside),
    bind_of_ok (item_of_lt gridInside), bind_of_ok windowed, bind_of_ok (blocksAcross_eq inside)]
  dsimp only
  rw [bind_of_ok (emptyGrid_eq few short)]
  exact moveRows_eq
    { columnOffset := columnOffset
      rowOffset := rowOffset
      sourceWide := sourceWide ▸ source.blocksWide_le (List.getElem_mem sourceInside)
      sourceTall := sourceTall ▸ source.blocksTall_le (List.getElem_mem sourceInside)
      wide := few
      tall := short }

end

end Checked

end LosslessJpeg
