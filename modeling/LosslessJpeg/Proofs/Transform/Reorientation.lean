import LosslessJpeg.Proofs.Block.Symmetry
import LosslessJpeg.Proofs.Scan.Grids
import LosslessJpeg.Proofs.Segments.Headers
import LosslessJpeg.Proofs.Transform.Orientation
import LosslessJpeg.Transform.Remap

set_option autoImplicit false

/-!
What an orientation makes of a frame and of its grids, if nothing is cut off: where each
block of the result comes from, and how it is moved on the way.
-/

namespace LosslessJpeg

def Component.oriented (transpose : Bool) (component : Component) : Component :=
  if transpose then component.transposed else component

theorem Component.oriented_quantizer (transpose : Bool) (component : Component) :
    (component.oriented transpose).quantizer = component.quantizer := by
  cases transpose
  · rfl
  · rfl

theorem Component.oriented_id (transpose : Bool) (component : Component) :
    (component.oriented transpose).id = component.id := by
  cases transpose
  · rfl
  · rfl

theorem Component.admissible_oriented {component : Component}
    (admissible : component.Admissible) (transpose : Bool) :
    (component.oriented transpose).Admissible := by
  obtain ⟨acrossPositive, acrossSmall, downPositive, downSmall, known⟩ := admissible
  cases transpose with
  | false => exact ⟨acrossPositive, acrossSmall, downPositive, downSmall, known⟩
  | true => exact ⟨downPositive, downSmall, acrossPositive, acrossSmall, known⟩

namespace Frame

def reoriented (frame : Frame) (transpose : Bool) : Frame :=
  { width := if transpose then frame.height else frame.width
    height := if transpose then frame.width else frame.height
    components := frame.components.map (Component.oriented transpose)
    progressive := false
    width_ne_zero := by
      split
      · exact frame.height_ne_zero
      · exact frame.width_ne_zero
    height_ne_zero := by
      split
      · exact frame.width_ne_zero
      · exact frame.height_ne_zero
    components_ne_nil := fun none => frame.components_ne_nil (List.map_eq_nil_iff.mp none)
    components_length := by
      rw [List.length_map]
      exact frame.components_length
    admissible := by
      intro component member
      obtain ⟨before, listed, rfl⟩ := List.mem_map.mp member
      exact Component.admissible_oriented (frame.admissible before listed) transpose }

variable {frame : Frame}

theorem reoriented_ids (transpose : Bool) :
    (frame.reoriented transpose).components.map (·.id) = frame.components.map (·.id) := by
  change (frame.components.map (Component.oriented transpose)).map (·.id) = _
  rw [List.map_map]
  exact List.map_congr_left fun component _ => component.oriented_id transpose

theorem reoriented_getElem? (transpose : Bool) (index : Nat) :
    (frame.reoriented transpose).components[index]? =
      (frame.components[index]?).map (Component.oriented transpose) :=
  List.getElem?_map

theorem maxAcross_reoriented (transpose : Bool) :
    (frame.reoriented transpose).maxAcross =
      if transpose then frame.maxDown else frame.maxAcross := by
  unfold maxAcross maxDown
  change ((frame.components.map (Component.oriented transpose)).map _).foldl max 0 = _
  rw [List.map_map]
  cases transpose
  · rfl
  · rfl

theorem maxDown_reoriented (transpose : Bool) :
    (frame.reoriented transpose).maxDown =
      if transpose then frame.maxAcross else frame.maxDown := by
  unfold maxAcross maxDown
  change ((frame.components.map (Component.oriented transpose)).map _).foldl max 0 = _
  rw [List.map_map]
  cases transpose
  · rfl
  · rfl

theorem mcuWidth_reoriented (transpose : Bool) :
    (frame.reoriented transpose).mcuWidth =
      if transpose then frame.mcuHeight else frame.mcuWidth := by
  unfold mcuWidth
  rw [maxAcross_reoriented]
  exact apply_ite (· * 8) _ _ _

theorem mcuHeight_reoriented (transpose : Bool) :
    (frame.reoriented transpose).mcuHeight =
      if transpose then frame.mcuWidth else frame.mcuHeight := by
  unfold mcuHeight
  rw [maxDown_reoriented]
  exact apply_ite (· * 8) _ _ _

theorem blocksWide_reoriented (transpose : Bool) (component : Component) :
    (frame.reoriented transpose).blocksWide (component.oriented transpose) =
      if transpose then frame.blocksTall component else frame.blocksWide component := by
  unfold blocksWide blocksTall mcusWide mcusTall
  rw [mcuWidth_reoriented]
  cases transpose
  · rfl
  · rfl

theorem blocksTall_reoriented (transpose : Bool) (component : Component) :
    (frame.reoriented transpose).blocksTall (component.oriented transpose) =
      if transpose then frame.blocksWide component else frame.blocksTall component := by
  unfold blocksWide blocksTall mcusWide mcusTall
  rw [mcuHeight_reoriented]
  cases transpose
  · rfl
  · rfl

theorem normal_reoriented (normal : soleComponent frame.components = frame.components)
    (transpose : Bool) :
    soleComponent (frame.reoriented transpose).components =
      (frame.reoriented transpose).components := by
  change soleComponent (frame.components.map _) = frame.components.map _
  match listed : frame.components with
  | [] => rfl
  | [component] =>
      obtain ⟨⟨across, down⟩, -⟩ := frame.unsampled_of_sole normal listed
      unfold Component.oriented Component.transposed
      obtain ⟨id, a, d, quantizer⟩ := component
      dsimp only at across down
      subst across
      subst down
      cases transpose
      · rfl
      · rfl
  | _ :: _ :: _ => rfl

def wholeColumns (frame : Frame) (component : Component) : Nat :=
  frame.width.toNat / frame.mcuWidth * component.across

def wholeRows (frame : Frame) (component : Component) : Nat :=
  frame.height.toNat / frame.mcuHeight * component.down

private theorem div_le_ceilDiv (count size : Nat) : count / size ≤ ceilDiv count size := by
  unfold ceilDiv
  rcases Nat.eq_zero_or_pos size with none | some
  · rw [none, Nat.div_zero, Nat.div_zero]
  · exact Nat.div_le_div_right (by omega)

theorem wholeColumns_le (frame : Frame) (component : Component) :
    frame.wholeColumns component ≤ frame.blocksWide component :=
  Nat.mul_le_mul_right _ (div_le_ceilDiv _ _)

theorem wholeRows_le (frame : Frame) (component : Component) :
    frame.wholeRows component ≤ frame.blocksTall component :=
  Nat.mul_le_mul_right _ (div_le_ceilDiv _ _)

theorem wholeColumns_reoriented (transpose : Bool) (component : Component) :
    (frame.reoriented transpose).wholeColumns (component.oriented transpose) =
      if transpose then frame.wholeRows component else frame.wholeColumns component := by
  unfold wholeColumns wholeRows
  rw [mcuWidth_reoriented]
  cases transpose
  · rfl
  · rfl

theorem wholeRows_reoriented (transpose : Bool) (component : Component) :
    (frame.reoriented transpose).wholeRows (component.oriented transpose) =
      if transpose then frame.wholeColumns component else frame.wholeRows component := by
  unfold wholeColumns wholeRows
  rw [mcuHeight_reoriented]
  cases transpose
  · rfl
  · rfl

private theorem div_eq_ceilDiv {count size : Nat} (aligned : count % size = 0) :
    count / size = ceilDiv count size := by
  unfold ceilDiv
  rcases Nat.eq_zero_or_pos size with none | some
  · rw [none, Nat.div_zero, Nat.div_zero]
  · have whole := Nat.div_add_mod count size
    rw [aligned, Nat.add_zero] at whole
    rw [Nat.add_sub_assoc some]
    nth_rewrite 2 [← whole]
    rw [Nat.mul_add_div some, Nat.div_eq_of_lt (Nat.sub_lt some Nat.one_pos), Nat.add_zero]

/-- On an axis of whole MCUs there are no other blocks. -/
theorem wholeColumns_of_aligned (aligned : frame.width.toNat % frame.mcuWidth = 0)
    (component : Component) : frame.wholeColumns component = frame.blocksWide component :=
  congrArg (· * component.across) (div_eq_ceilDiv aligned)

theorem wholeRows_of_aligned (aligned : frame.height.toNat % frame.mcuHeight = 0)
    (component : Component) : frame.wholeRows component = frame.blocksTall component :=
  congrArg (· * component.down) (div_eq_ceilDiv aligned)

end Frame

/-- Where a place on one axis comes from: mirrored places in whole iMCUs are counted from
their other end. -/
def reflected (mirror : Bool) (whole place : Nat) : Nat :=
  if mirror && decide (place < whole) then whole - 1 - place else place

theorem reflected_of_lt {whole place : Nat} (mirror : Bool) (inside : place < whole) :
    reflected mirror whole place = if mirror then whole - 1 - place else place := by
  unfold reflected
  rw [decide_eq_true inside, Bool.and_true]

theorem reflected_of_le {whole place : Nat} (mirror : Bool) (outside : whole ≤ place) :
    reflected mirror whole place = place := by
  unfold reflected
  rw [decide_eq_false (Nat.not_lt.mpr outside), Bool.and_false, if_neg Bool.false_ne_true]

theorem reflected_lt_whole {whole place : Nat} (mirror : Bool) (inside : place < whole) :
    reflected mirror whole place < whole := by
  rw [reflected_of_lt mirror inside]
  split
  · omega
  · exact inside

theorem reflected_lt_iff (mirror : Bool) (whole place : Nat) :
    reflected mirror whole place < whole ↔ place < whole := by
  refine ⟨fun inside => ?_, reflected_lt_whole mirror⟩
  by_contra outside
  rw [reflected_of_le mirror (Nat.not_lt.mp outside)] at inside
  exact outside inside

theorem reflected_lt {whole extent place : Nat} (mirror : Bool) (inside : whole ≤ extent)
    (placed : place < extent) : reflected mirror whole place < extent := by
  by_cases mirrored : place < whole
  · exact Nat.lt_of_lt_of_le (reflected_lt_whole mirror mirrored) inside
  · rw [reflected_of_le mirror (Nat.not_lt.mp mirrored)]
    exact placed

theorem reflected_reflected (first second : Bool) (whole place : Nat) :
    reflected first whole (reflected second whole place) =
      reflected (second ^^ first) whole place := by
  by_cases inside : place < whole
  · rw [reflected_of_lt first (reflected_lt_whole second inside),
      reflected_of_lt second inside, reflected_of_lt _ inside]
    cases first
    · rw [Bool.xor_false, if_neg Bool.false_ne_true]
    · cases second
      · rfl
      · change whole - 1 - (whole - 1 - place) = place
        omega
  · have outside := Nat.not_lt.mp inside
    rw [reflected_of_le second outside, reflected_of_le first outside,
      reflected_of_le _ outside]

private theorem mirrored_reflected (first second : Bool) (whole place : Nat) :
    ((second && decide (place < whole)) ^^
        (first && decide (reflected second whole place < whole))) =
      ((second ^^ first) && decide (place < whole)) := by
  rw [decide_eq_decide.mpr (reflected_lt_iff second whole place), Bool.and_xor_distrib_right]

/-! ### Grids -/

namespace Grid

/-- A grid in the orientation of the result. Blocks behind the given numbers of columns and
rows of the result stay where they are on a mirrored axis. -/
def reoriented (mapping : BlockMapping) (columns rows : Nat) (grid : Grid) : Grid :=
  Grid.ofFn (if mapping.transpose then grid.blocksTall else grid.blocksWide)
    (if mapping.transpose then grid.blocksWide else grid.blocksTall) fun row column =>
      let x := reflected mapping.mirrorX columns column
      let y := reflected mapping.mirrorY rows row
      Block.moved mapping.transpose (mapping.mirrorX && decide (column < columns))
        (mapping.mirrorY && decide (row < rows))
        (if mapping.transpose then grid.block x y else grid.block y x)

variable {grid : Grid} {columns rows row column : Nat}

theorem reoriented_block {mapping : BlockMapping}
    (rowInside : row < (grid.reoriented mapping columns rows).blocksTall)
    (columnInside : column < (grid.reoriented mapping columns rows).blocksWide) :
    (grid.reoriented mapping columns rows).block row column =
      Block.moved mapping.transpose (mapping.mirrorX && decide (column < columns))
        (mapping.mirrorY && decide (row < rows))
        (if mapping.transpose then
          grid.block (reflected mapping.mirrorX columns column)
            (reflected mapping.mirrorY rows row)
        else
          grid.block (reflected mapping.mirrorY rows row)
            (reflected mapping.mirrorX columns column)) :=
  block_ofFn rowInside columnInside _

theorem reoriented_blocksWide (mapping : BlockMapping) :
    (grid.reoriented mapping columns rows).blocksWide =
      if mapping.transpose then grid.blocksTall else grid.blocksWide :=
  rfl

theorem reoriented_blocksTall (mapping : BlockMapping) :
    (grid.reoriented mapping columns rows).blocksTall =
      if mapping.transpose then grid.blocksWide else grid.blocksTall :=
  rfl

private theorem reoriented_then_mirrored (first : BlockMapping) (mirrorX mirrorY : Bool)
    (columnsInside : columns ≤ (grid.reoriented first columns rows).blocksWide)
    (rowsInside : rows ≤ (grid.reoriented first columns rows).blocksTall)
    (rowInside : row < (grid.reoriented first columns rows).blocksTall)
    (columnInside : column < (grid.reoriented first columns rows).blocksWide) :
    Block.moved false (mirrorX && decide (column < columns)) (mirrorY && decide (row < rows))
        ((grid.reoriented first columns rows).block (reflected mirrorY rows row)
          (reflected mirrorX columns column)) =
      Block.moved first.transpose ((mirrorX ^^ first.mirrorX) && decide (column < columns))
        ((mirrorY ^^ first.mirrorY) && decide (row < rows))
        (if first.transpose then
          grid.block (reflected (mirrorX ^^ first.mirrorX) columns column)
            (reflected (mirrorY ^^ first.mirrorY) rows row)
        else
          grid.block (reflected (mirrorY ^^ first.mirrorY) rows row)
            (reflected (mirrorX ^^ first.mirrorX) columns column)) := by
  rw [reoriented_block (reflected_lt _ rowsInside rowInside)
    (reflected_lt _ columnsInside columnInside), Block.moved_moved, Bool.xor_false,
    if_neg Bool.false_ne_true, if_neg Bool.false_ne_true, mirrored_reflected,
    mirrored_reflected, reflected_reflected, reflected_reflected]

private theorem reoriented_then_transposed (first : BlockMapping) (mirrorX mirrorY : Bool)
    (columnsInside : columns ≤ (grid.reoriented first columns rows).blocksWide)
    (rowsInside : rows ≤ (grid.reoriented first columns rows).blocksTall)
    (rowInside : row < (grid.reoriented first columns rows).blocksWide)
    (columnInside : column < (grid.reoriented first columns rows).blocksTall) :
    Block.moved true (mirrorX && decide (column < rows)) (mirrorY && decide (row < columns))
        ((grid.reoriented first columns rows).block (reflected mirrorX rows column)
          (reflected mirrorY columns row)) =
      Block.moved (first.transpose ^^ true)
        ((mirrorX ^^ first.mirrorY) && decide (column < rows))
        ((mirrorY ^^ first.mirrorX) && decide (row < columns))
        (if first.transpose ^^ true then
          grid.block (reflected (mirrorX ^^ first.mirrorY) rows column)
            (reflected (mirrorY ^^ first.mirrorX) columns row)
        else
          grid.block (reflected (mirrorY ^^ first.mirrorX) columns row)
            (reflected (mirrorX ^^ first.mirrorY) rows column)) := by
  rw [reoriented_block (reflected_lt _ rowsInside columnInside)
    (reflected_lt _ columnsInside rowInside), Block.moved_moved, if_pos rfl, if_pos rfl,
    mirrored_reflected, mirrored_reflected, reflected_reflected, reflected_reflected]
  cases first.transpose
  · rfl
  · rfl

private theorem reoriented_twice_size (first second : BlockMapping)
    (columnsAfter rowsAfter : Nat) :
    ((grid.reoriented first columns rows).reoriented second columnsAfter rowsAfter).blocksWide =
        (grid.reoriented (first.andThen second) columnsAfter rowsAfter).blocksWide ∧
      ((grid.reoriented first columns rows).reoriented second columnsAfter
          rowsAfter).blocksTall =
        (grid.reoriented (first.andThen second) columnsAfter rowsAfter).blocksTall := by
  simp only [reoriented_blocksWide, reoriented_blocksTall, BlockMapping.andThen]
  cases first.transpose <;> cases second.transpose <;> exact ⟨rfl, rfl⟩

/-- Orienting a grid twice is orienting it once. -/
theorem reoriented_reoriented (first second : BlockMapping)
    (columnsInside : columns ≤ (grid.reoriented first columns rows).blocksWide)
    (rowsInside : rows ≤ (grid.reoriented first columns rows).blocksTall) :
    (grid.reoriented first columns rows).reoriented second
        (if second.transpose then rows else columns)
        (if second.transpose then columns else rows) =
      grid.reoriented (first.andThen second)
        (if second.transpose then rows else columns)
        (if second.transpose then columns else rows) := by
  obtain ⟨transposeAfter, mirrorX, mirrorY⟩ := second
  obtain ⟨wide, tall⟩ := reoriented_twice_size first
    { transpose := transposeAfter, mirrorX := mirrorX, mirrorY := mirrorY }
    (if transposeAfter then rows else columns) (if transposeAfter then columns else rows)
  apply ext_block wide tall
  intro row rowInside column columnInside
  have once := reoriented_block (tall ▸ rowInside) (wide ▸ columnInside)
  refine (reoriented_block rowInside columnInside).trans (Eq.trans ?_ once.symm)
  cases transposeAfter with
  | false =>
      unfold BlockMapping.andThen
      rw [Bool.xor_false]
      exact reoriented_then_mirrored first _ _ columnsInside rowsInside rowInside columnInside
  | true =>
      exact reoriented_then_transposed first _ _ columnsInside rowsInside rowInside columnInside

end Grid

end LosslessJpeg
