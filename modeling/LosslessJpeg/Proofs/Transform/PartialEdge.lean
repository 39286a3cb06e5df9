import LosslessJpeg.Proofs.Transform.Trimming

set_option autoImplicit false

/-!
Edges that stay unmirrored. A place behind the last whole iMCU keeps its block where it is, and
there is such a place if and only if the result ends within an iMCU on an axis that is mirrored.
-/

namespace LosslessJpeg

namespace AxisPlaced

variable {extent imcu most offset size : Nat}

theorem div_eq (placed : AxisPlaced true extent imcu offset size) (positive : 0 < imcu) :
    size / imcu = extent / imcu := by
  have inside : size ≤ extent := Nat.le_trans (Nat.le_add_left size offset) placed.inside
  apply Nat.le_antisymm
  · exact Nat.div_le_div_right inside
  · exact (Nat.le_div_iff_mul_le positive).mpr (placed.mirrored rfl).2

theorem blocks_of_whole (placed : AxisPlaced true extent imcu offset size)
    (positive : 0 < imcu) (whole : size % imcu = 0) (factor : Nat) :
    ceilDiv size imcu * factor = extent / imcu * factor := by
  rw [← placed.div_eq positive]
  obtain ⟨units, rfl⟩ := Nat.dvd_of_mod_eq_zero whole
  rw [Nat.mul_comm imcu units, ceilDiv_mul_cancel units positive, Nat.mul_div_cancel _ positive]

theorem whole_lt_blocks (placed : AxisPlaced true extent (most * 8) offset size)
    (positive : 0 < most) (ragged : size % (most * 8) ≠ 0) {factor : Nat}
    (sampled : 0 < factor) :
    extent / (most * 8) * factor < sampledBlocks size factor most := by
  rw [← placed.div_eq (Nat.mul_pos positive (by decide))]
  calc
    size / (most * 8) * factor <
        size / (most * 8) * factor + sampledBlocks (size % (most * 8)) factor most :=
      Nat.lt_add_of_pos_right
        (sampledBlocks_pos (Nat.pos_of_ne_zero ragged) sampled positive)
    _ = sampledBlocks size factor most := by
      rw [← sampledBlocks_add positive, Nat.div_add_mod']

theorem ragged_of_behind (placed : AxisPlaced true extent imcu offset size)
    (positive : 0 < imcu) {factor place : Nat} (inside : place < ceilDiv size imcu * factor)
    (behind : extent / imcu * factor ≤ place + offset / imcu * factor) : size % imcu ≠ 0 := by
  intro whole
  rw [(placed.mirrored rfl).1, Nat.zero_div, Nat.zero_mul, Nat.add_zero,
    ← placed.blocks_of_whole positive whole] at behind
  exact Nat.not_lt.mpr behind inside

end AxisPlaced

def Block.diagonal : Block :=
  zero.setIfInBounds 9 1

theorem Block.diagonal_moved : ∀ transpose across down : Bool,
    (diagonal.moved transpose across down).get 9 = if across ^^ down then -1 else 1 := by
  decide

private theorem sign_injective : ∀ one other : Bool,
    (if one then (-1 : Int16) else 1) = (if other then -1 else 1) → one = other := by
  decide

namespace BlockWindow

variable {window other : BlockWindow} {row column : Nat}

def withoutMirrorX (window : BlockWindow) : BlockWindow :=
  { window with
    mapping := { window.mapping with mirrorX := false } }

def withoutMirrorY (window : BlockWindow) : BlockWindow :=
  { window with
    mapping := { window.mapping with mirrorY := false } }

/-- Whether a place takes the block that it would take if an axis that is to be mirrored were
not, whatever the source holds. -/
def LeavesUnmirrored (window : BlockWindow) (row column : Nat) : Prop :=
  (window.mapping.mirrorX = true ∧
      ∀ grid, window.block grid row column = window.withoutMirrorX.block grid row column) ∨
    (window.mapping.mirrorY = true ∧
      ∀ grid, window.block grid row column = window.withoutMirrorY.block grid row column)

theorem block_constant {size : Nat} (rowInside : (window.source row column).row < size)
    (columnInside : (window.source row column).column < size) (block : Block) :
    window.block (Grid.ofFn size size fun _ _ => block) row column =
      block.moved window.mapping.transpose (window.source row column).mirroredX
        (window.source row column).mirroredY := by
  have drawn : window.block (Grid.ofFn size size fun _ _ => block) row column = _ :=
    block_of_inside rowInside columnInside
  rw [drawn, Grid.block_ofFn rowInside columnInside]
  rfl

/-- Two windows that agree on all sources mirror a block equally often, up to twice. -/
theorem mirrored_of_block_eq
    (same : ∀ grid, window.block grid row column = other.block grid row column) :
    ((window.source row column).mirroredX ^^ (window.source row column).mirroredY) =
      ((other.source row column).mirroredX ^^ (other.source row column).mirroredY) := by
  -- A source of one block everywhere shows the signs only, wherever the windows draw from.
  let size := (window.source row column).row + (window.source row column).column +
    (other.source row column).row + (other.source row column).column + 1
  have moved := same (Grid.ofFn size size fun _ _ => Block.diagonal)
  rw [block_constant (by omega) (by omega), block_constant (by omega) (by omega)] at moved
  have values := congrArg (Vector.get · 9) moved
  rw [Block.diagonal_moved, Block.diagonal_moved] at values
  exact sign_injective _ _ values

theorem source_withoutMirrorX (behind : window.mirrorColumns ≤ column + window.columnOffset) :
    window.source row column = window.withoutMirrorX.source row column := by
  unfold source withoutMirrorX
  dsimp only
  rw [decide_eq_false (Nat.not_lt.mpr behind), Bool.and_false, Bool.and_false]

theorem source_withoutMirrorY (behind : window.mirrorRows ≤ row + window.rowOffset) :
    window.source row column = window.withoutMirrorY.source row column := by
  unfold source withoutMirrorY
  dsimp only
  rw [decide_eq_false (Nat.not_lt.mpr behind), Bool.and_false, Bool.and_false]

theorem leavesUnmirrored_iff :
    window.LeavesUnmirrored row column ↔
      (window.mapping.mirrorX = true ∧ window.mirrorColumns ≤ column + window.columnOffset) ∨
        (window.mapping.mirrorY = true ∧ window.mirrorRows ≤ row + window.rowOffset) := by
  unfold LeavesUnmirrored
  refine or_congr (and_congr_right fun mirrored => ⟨fun same => ?_, fun behind grid => ?_⟩)
    (and_congr_right fun mirrored => ⟨fun same => ?_, fun behind grid => ?_⟩)
  · have across : (window.source row column).mirroredX = false :=
      Bool.xor_left_inj.mp (mirrored_of_block_eq same)
    change (window.mapping.mirrorX && decide _) = false at across
    rw [mirrored, Bool.true_and, decide_eq_false_iff_not, Nat.not_lt] at across
    exact across
  · unfold block
    rw [source_withoutMirrorX behind]
    rfl
  · have down : (window.source row column).mirroredY = false :=
      Bool.xor_right_inj.mp (mirrored_of_block_eq same)
    change (window.mapping.mirrorY && decide _) = false at down
    rw [mirrored, Bool.true_and, decide_eq_false_iff_not, Nat.not_lt] at down
    exact down
  · unfold block
    rw [source_withoutMirrorY behind]
    rfl

end BlockWindow

namespace Transformation

variable {transformation : Transformation} {source result : Frame}

theorem Places.leavesPartialEdge_eq_true (places : transformation.Places source result) :
    transformation.plan.leavesPartialEdge transformation.placement = true ↔
      (transformation.plan.mapping.mirrorX = true ∧
          result.width.toNat % (result.maxAcross * 8) ≠ 0) ∨
        (transformation.plan.mapping.mirrorY = true ∧
          result.height.toNat % (result.maxDown * 8) ≠ 0) := by
  unfold Plan.leavesPartialEdge
  rw [← places.width, ← places.height, places.imcuWidth, places.imcuHeight, Bool.or_eq_true,
    Bool.and_eq_true, Bool.and_eq_true, bne_iff_ne, bne_iff_ne]
  rfl

theorem Places.exists_unmirrored (places : transformation.Places source result)
    (edge : transformation.plan.leavesPartialEdge transformation.placement = true)
    {component : Component} (member : component ∈ result.components) :
    ∃ row < result.imageBlocksTall component, ∃ column < result.imageBlocksWide component,
      (BlockWindow.make transformation.plan transformation.placement component).LeavesUnmirrored
        row column := by
  obtain ⟨across, down⟩ := places.axes
  obtain ⟨acrossPositive, -, downPositive, -⟩ := result.admissible component member
  simp only [BlockWindow.leavesUnmirrored_iff, places.window]
  -- Any place on the other axis will do, and the first one is always in the image.
  rcases places.leavesPartialEdge_eq_true.mp edge with ⟨mirrored, ragged⟩ | ⟨mirrored, ragged⟩
  · rw [mirrored] at across
    exact ⟨0, Frame.imageBlocksTall_pos member, _,
      across.whole_lt_blocks result.maxAcross_pos ragged acrossPositive,
      Or.inl ⟨mirrored, Nat.le_add_right _ _⟩⟩
  · rw [mirrored] at down
    exact ⟨_, down.whole_lt_blocks result.maxDown_pos ragged downPositive, 0,
      Frame.imageBlocksWide_pos member, Or.inr ⟨mirrored, Nat.le_add_right _ _⟩⟩

/-- Where a block stays unmirrored, be it for padding only, the result ends within an iMCU. -/
theorem Places.leavesPartialEdge_of_unmirrored (places : transformation.Places source result)
    {component : Component} {row column : Nat} (rowInside : row < result.blocksTall component)
    (columnInside : column < result.blocksWide component)
    (unmirrored : (BlockWindow.make transformation.plan transformation.placement
      component).LeavesUnmirrored row column) :
    transformation.plan.leavesPartialEdge transformation.placement = true := by
  obtain ⟨across, down⟩ := places.axes
  rw [places.leavesPartialEdge_eq_true]
  rw [BlockWindow.leavesUnmirrored_iff, places.window] at unmirrored
  rcases unmirrored with ⟨mirrored, behind⟩ | ⟨mirrored, behind⟩
  · rw [mirrored] at across
    exact Or.inl ⟨mirrored, across.ragged_of_behind result.mcuWidth_pos columnInside behind⟩
  · rw [mirrored] at down
    exact Or.inr ⟨mirrored, down.ragged_of_behind result.mcuHeight_pos rowInside behind⟩

theorem Places.leavesPartialEdge_iff_unmirrored (places : transformation.Places source result) :
    transformation.plan.leavesPartialEdge transformation.placement = true ↔
      ∃ component ∈ result.components, ∃ row < result.blocksTall component,
        ∃ column < result.blocksWide component,
          (BlockWindow.make transformation.plan transformation.placement
            component).LeavesUnmirrored row column := by
  constructor
  · intro edge
    obtain ⟨component, member⟩ := List.exists_mem_of_ne_nil _ result.components_ne_nil
    obtain ⟨row, rowInside, column, columnInside, unmirrored⟩ :=
      places.exists_unmirrored edge member
    exact ⟨component, member, row,
      Nat.lt_of_lt_of_le rowInside (result.imageBlocksTall_le component), column,
      Nat.lt_of_lt_of_le columnInside (result.imageBlocksWide_le component), unmirrored⟩
  · rintro ⟨component, -, row, rowInside, column, columnInside, unmirrored⟩
    exact places.leavesPartialEdge_of_unmirrored rowInside columnInside unmirrored

end Transformation

/-! ### Edges that are ruled out -/

namespace Directive

def mirrorsColumns : Directive → Bool
  | .orient orientation => orientation.mirrorsColumns
  | .crop _ => false

def mirrorsRows : Directive → Bool
  | .orient orientation => orientation.mirrorsRows
  | .crop _ => false

end Directive

namespace Plan

variable {geometry : Geometry} {directive : Directive} {options : TransformOptions} {plan : Plan}
  {placement : Placement}

theorem leavesPartialEdge_of_straight (placement : Placement)
    (straightX : plan.mapping.mirrorX = false) (straightY : plan.mapping.mirrorY = false) :
    plan.leavesPartialEdge placement = false := by
  unfold leavesPartialEdge
  rw [straightX, straightY]
  rfl

theorem whole_of_perfect (planned : make geometry directive options = .ok plan)
    (perfect : options.perfect = true) :
    (plan.mapping.mirrorX = true → plan.transformedWidth % plan.imcuWidth = 0) ∧
      (plan.mapping.mirrorY = true → plan.transformedHeight % plan.imcuHeight = 0) := by
  unfold make at planned
  dsimp only at planned
  split at planned
  · cases planned
  · rename_i allowed
    cases planned
    rw [perfect, Bool.true_and, Bool.not_eq_true', Bool.not_eq_false, Bool.and_eq_true] at allowed
    obtain ⟨across, down⟩ := allowed
    refine ⟨fun mirrored => ?_, fun mirrored => ?_⟩
    · rw [show directive.mapping.mirrorX = true from mirrored, Bool.not_true, Bool.false_or,
        Bool.and_eq_true, beq_iff_eq] at across
      exact across.1
    · rw [show directive.mapping.mirrorY = true from mirrored, Bool.not_true, Bool.false_or,
        Bool.and_eq_true, beq_iff_eq] at down
      exact down.1

theorem imcu_le_of_orient {orientation : Orientation}
    (planned : make geometry (.orient orientation) options = .ok plan)
    (columns : orientation.mirrorsColumns = true → geometry.imcuWidth ≤ geometry.width)
    (rows : orientation.mirrorsRows = true → geometry.imcuHeight ≤ geometry.height) :
    (plan.mapping.mirrorX = true → plan.imcuWidth ≤ plan.transformedWidth) ∧
      (plan.mapping.mirrorY = true → plan.imcuHeight ≤ plan.transformedHeight) := by
  obtain ⟨mapped, width, height, imcuWidth, imcuHeight⟩ := make_eq_ok planned
  obtain ⟨mirrorsColumns, mirrorsRows⟩ := orientation.mirrors_eq
  rw [mirrorsColumns] at columns
  rw [mirrorsRows] at rows
  rw [mapped, width, height, imcuWidth, imcuHeight]
  change (orientation.mapping.mirrorX = true →
      oriented orientation.mapping _ _ ≤ oriented orientation.mapping _ _) ∧
    (orientation.mapping.mirrorY = true →
      oriented orientation.mapping _ _ ≤ oriented orientation.mapping _ _)
  unfold oriented
  cases transposed : orientation.mapping.transpose with
  | false =>
      rw [transposed] at columns rows
      exact ⟨columns, rows⟩
  | true =>
      rw [transposed] at columns rows
      exact ⟨rows, columns⟩

theorem trimmed_mod {trim mirrored : Bool} {extent imcu : Nat}
    (whole : extent % imcu = 0 ∨ (trim = true ∧ mirrored = true ∧ imcu ≤ extent)) :
    trimmed trim mirrored extent imcu % imcu = 0 := by
  unfold trimmed
  split
  · exact Nat.mod_eq_zero_of_dvd (Nat.dvd_sub_mod extent)
  · rename_i kept
    exact whole.resolve_right fun ⟨trims, mirrors, long⟩ => kept (by simp [trims, mirrors, long])

theorem leavesPartialEdge_of_whole {orientation : Orientation}
    (placed : plan.place geometry options (.orient orientation) = .ok placement)
    (across : plan.mapping.mirrorX = true → plan.transformedWidth % plan.imcuWidth = 0 ∨
      (options.trim = true ∧ plan.imcuWidth ≤ plan.transformedWidth))
    (down : plan.mapping.mirrorY = true → plan.transformedHeight % plan.imcuHeight = 0 ∨
      (options.trim = true ∧ plan.imcuHeight ≤ plan.transformedHeight)) :
    plan.leavesPartialEdge placement = false := by
  cases placed
  unfold leavesPartialEdge
  rw [Bool.or_eq_false_iff, Bool.and_eq_false_imp, Bool.and_eq_false_imp]
  refine ⟨fun mirrored => ?_, fun mirrored => ?_⟩
  · rw [bne_eq_false_iff_eq]
    exact trimmed_mod ((across mirrored).imp_right fun ⟨trims, long⟩ => ⟨trims, mirrored, long⟩)
  · rw [bne_eq_false_iff_eq]
    exact trimmed_mod ((down mirrored).imp_right fun ⟨trims, long⟩ => ⟨trims, mirrored, long⟩)

theorem leavesPartialEdge_eq_false (planned : make geometry directive options = .ok plan)
    (placed : plan.place geometry options directive = .ok placement)
    (excluded : (directive.mapping.mirrorX = false ∧ directive.mapping.mirrorY = false) ∨
      options.perfect = true ∨
      (options.trim = true ∧
        (directive.mirrorsColumns = true → geometry.imcuWidth ≤ geometry.width) ∧
        (directive.mirrorsRows = true → geometry.imcuHeight ≤ geometry.height))) :
    plan.leavesPartialEdge placement = false := by
  have mapped := (make_eq_ok planned).1
  cases directive with
  | crop region =>
      exact leavesPartialEdge_of_straight placement (congrArg BlockMapping.mirrorX mapped)
        (congrArg BlockMapping.mirrorY mapped)
  | orient orientation =>
      rcases excluded with ⟨straightX, straightY⟩ | perfect | ⟨trims, columns, rows⟩
      · rw [← mapped] at straightX straightY
        exact leavesPartialEdge_of_straight placement straightX straightY
      · obtain ⟨across, down⟩ := whole_of_perfect planned perfect
        exact leavesPartialEdge_of_whole placed (fun mirrored => Or.inl (across mirrored))
          fun mirrored => Or.inl (down mirrored)
      · obtain ⟨across, down⟩ := imcu_le_of_orient planned columns rows
        exact leavesPartialEdge_of_whole placed (fun mirrored => Or.inr ⟨trims, across mirrored⟩)
          fun mirrored => Or.inr ⟨trims, down mirrored⟩

/-- An edge is reported if and only if the blocks of some component stay unmirrored there, and
then a block of the image does in every component. Nothing is reported of a directive that
mirrors nothing, of one that has to be perfect, or of one that trims each mirrored axis. -/
theorem leavesPartialEdge_iff {source : JpegImage} {width height : UInt16}
    {named : List Component} {progressive : Bool}
    (built : Frame.build width height named progressive = .ok source.frame) {grayscale : Bool}
    (planned : make (Geometry.ofFrame source.frame grayscale) directive options = .ok plan)
    (placed : plan.place (Geometry.ofFrame source.frame grayscale) options directive =
      .ok placement) :
    ∃ result, Transformation.frame ⟨grayscale, plan, placement⟩ source.parameters = .ok result ∧
      (plan.leavesPartialEdge placement = true ↔
        ∃ component ∈ result.components, ∃ row < result.blocksTall component,
          ∃ column < result.blocksWide component,
            (BlockWindow.make plan placement component).LeavesUnmirrored row column) ∧
      (plan.leavesPartialEdge placement = true →
        ∀ component ∈ result.components, ∃ row < result.imageBlocksTall component,
          ∃ column < result.imageBlocksWide component,
            (BlockWindow.make plan placement component).LeavesUnmirrored row column) ∧
      ((directive.mapping.mirrorX = false ∧ directive.mapping.mirrorY = false) ∨
          options.perfect = true ∨
          (options.trim = true ∧
            (directive.mirrorsColumns = true →
              (Geometry.ofFrame source.frame grayscale).imcuWidth ≤ source.frame.width.toNat) ∧
            (directive.mirrorsRows = true →
              (Geometry.ofFrame source.frame grayscale).imcuHeight ≤
                source.frame.height.toNat)) →
        plan.leavesPartialEdge placement = false) := by
  obtain ⟨result, framed, places⟩ := @Transformation.exists_frame_of_placed directive options
    ⟨grayscale, plan, placement⟩ source (Frame.normal_of_build built) planned placed
  exact ⟨result, framed, places.leavesPartialEdge_iff_unmirrored, fun edge component member =>
    places.exists_unmirrored edge member, leavesPartialEdge_eq_false planned placed⟩

/-- The last one of three MCUs stays where it is when the strip is mirrored from left to right. -/
theorem leavesPartialEdge_iff_strip : ∃ plan placement result,
    make (Geometry.ofFrame (strip 40 8 (by decide)).frame false) (.orient .flipHorizontal) {} =
        .ok plan ∧
      plan.place (Geometry.ofFrame (strip 40 8 (by decide)).frame false) {}
        (.orient .flipHorizontal) = .ok placement ∧
      Transformation.frame ⟨false, plan, placement⟩ (strip 40 8 (by decide)).parameters =
        .ok result ∧
      ∀ component ∈ result.components, ∃ row < result.imageBlocksTall component,
        ∃ column < result.imageBlocksWide component,
          (BlockWindow.make plan placement component).LeavesUnmirrored row column := by
  obtain ⟨plan, planned⟩ : ∃ plan, make (Geometry.ofFrame (strip 40 8 (by decide)).frame false)
      (.orient .flipHorizontal) {} = .ok plan := ⟨_, rfl⟩
  obtain ⟨placement, placed⟩ : ∃ placement,
      plan.place (Geometry.ofFrame (strip 40 8 (by decide)).frame false) {}
        (.orient .flipHorizontal) = .ok placement := ⟨_, rfl⟩
  have edge : plan.leavesPartialEdge placement = true := by
    cases planned
    cases placed
    rfl
  have built := @Frame.build_self (strip 40 8 (by decide)).frame rfl
  obtain ⟨result, framed, -, every, -⟩ := leavesPartialEdge_iff built planned placed
  exact ⟨plan, placement, result, planned, placed, framed, every edge⟩

def withoutMirrorX (plan : Plan) : Plan :=
  { plan with
    mapping := { plan.mapping with mirrorX := false } }

def withoutMirrorY (plan : Plan) : Plan :=
  { plan with
    mapping := { plan.mapping with mirrorY := false } }

def AgreesAt (plan other : Plan) (placement : Placement) (result : Frame)
    (index row column : Nat) : Prop :=
  ∀ grids, (remap grids plan placement result)[index]?.map (·.block row column) =
    (remap grids other placement result)[index]?.map (·.block row column)

theorem agreesAt_iff {other : Plan} {result : Frame} {index row column : Nat}
    {component : Component} (found : result.components[index]? = some component)
    (rowInside : row < result.blocksTall component)
    (columnInside : column < result.blocksWide component) :
    plan.AgreesAt other placement result index row column ↔
      ∀ grid, (BlockWindow.make plan placement component).block grid row column =
        (BlockWindow.make other placement component).block grid row column := by
  constructor
  · intro same grid
    have there : (Array.replicate (index + 1) grid)[index]? = some grid := by
      rw [Array.getElem?_replicate, if_pos (Nat.lt_succ_self index)]
    have here := same (Array.replicate (index + 1) grid)
    rw [remap_getElem? plan placement found there, remap_getElem? other placement found there,
      Option.map_some, Option.map_some, Grid.block_ofFn rowInside columnInside,
      Grid.block_ofFn rowInside columnInside] at here
    exact Option.some.inj here
  · intro same grids
    unfold remap
    rw [List.getElem?_toArray, List.getElem?_toArray, List.getElem?_map, List.getElem?_map]
    cases paired : (result.components.zip grids.toList)[index]? with
    | none => rfl
    | some entry =>
        obtain ⟨named, -⟩ := List.getElem?_zip_eq_some.mp paired
        cases found.symm.trans named
        simp only [Option.map_some, Grid.block_ofFn rowInside columnInside, same]

/-- The edge that is reported, in the grids of the result: at some place they hold the block that
they would hold if one of the axes to be mirrored were not. -/
theorem leavesPartialEdge_iff_agreesAt {source : JpegImage} {width height : UInt16}
    {named : List Component} {progressive : Bool}
    (built : Frame.build width height named progressive = .ok source.frame) {grayscale : Bool}
    (planned : make (Geometry.ofFrame source.frame grayscale) directive options = .ok plan)
    (placed : plan.place (Geometry.ofFrame source.frame grayscale) options directive =
      .ok placement) :
    ∃ result, Transformation.frame ⟨grayscale, plan, placement⟩ source.parameters = .ok result ∧
      (plan.leavesPartialEdge placement = true ↔
        ∃ index component, result.components[index]? = some component ∧
          ∃ row < result.blocksTall component, ∃ column < result.blocksWide component,
            (plan.mapping.mirrorX = true ∧
                plan.AgreesAt plan.withoutMirrorX placement result index row column) ∨
              (plan.mapping.mirrorY = true ∧
                plan.AgreesAt plan.withoutMirrorY placement result index row column)) := by
  obtain ⟨result, framed, places⟩ := @Transformation.exists_frame_of_placed directive options
    ⟨grayscale, plan, placement⟩ source (Frame.normal_of_build built) planned placed
  refine ⟨result, framed, places.leavesPartialEdge_iff_unmirrored.trans ⟨?_, ?_⟩⟩
  · rintro ⟨component, member, row, rowInside, column, columnInside, unmirrored⟩
    obtain ⟨index, found⟩ := List.getElem?_of_mem member
    refine ⟨index, component, found, row, rowInside, column, columnInside, ?_⟩
    rw [agreesAt_iff found rowInside columnInside, agreesAt_iff found rowInside columnInside]
    exact unmirrored
  · rintro ⟨index, component, found, row, rowInside, column, columnInside, agrees⟩
    rw [agreesAt_iff found rowInside columnInside,
      agreesAt_iff found rowInside columnInside] at agrees
    exact ⟨component, List.mem_of_getElem? found, row, rowInside, column, columnInside, agrees⟩

end Plan

end LosslessJpeg
