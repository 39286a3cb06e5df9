import LosslessJpeg.Proofs.Transform.OrientedImage
import Mathlib.Algebra.BigOperators.Fin
import Mathlib.Algebra.Ring.Parity
import Mathlib.Analysis.SpecialFunctions.Trigonometric.Basic
import Mathlib.Tactic.Ring

set_option autoImplicit false

/-!
What moving coefficients does to samples. The samples of a block are sums over a basis whose
odd functions change sign from one end to the other, as those of the cosine transform do.
-/

namespace LosslessJpeg

variable {R : Type*} [CommRing R]

namespace Block

def place (vertical horizontal : Fin 8) : Fin 64 :=
  ⟨position vertical.val horizontal.val, by
    unfold position
    omega⟩

theorem exchanged_place (vertical horizontal : Fin 8) :
    exchanged (place vertical horizontal) = place horizontal vertical := by
  apply Fin.ext
  unfold exchanged place position
  dsimp only
  omega

theorem place_mod (vertical horizontal : Fin 8) :
    (place vertical horizontal).val % 2 = horizontal.val % 2 := by
  unfold place position
  dsimp only
  omega

theorem place_div_mod (vertical horizontal : Fin 8) :
    (place vertical horizontal).val / 8 % 2 = vertical.val % 2 := by
  unfold place position
  dsimp only
  omega

def sample (basis : Fin 8 → Fin 8 → R) (table : QuantizerTable) (block : Block)
    (y x : Fin 8) : R :=
  ∑ i, ∑ j, ((table.get (place i j)).toNat : R) * ((block.get (place i j)).toInt : R) *
    basis i y * basis j x

variable {basis : Fin 8 → Fin 8 → R} {table : QuantizerTable} {block : Block}

theorem sample_transposed (y x : Fin 8) :
    block.transposed.sample basis table.transposed y x = block.sample basis table x y := by
  unfold sample
  rw [Finset.sum_comm]
  refine Finset.sum_congr rfl fun i _ => Finset.sum_congr rfl fun j _ => ?_
  rw [transposed_get, QuantizerTable.transposed_get, exchanged_place]
  ring

/-- A basis each of whose functions is even or odd, like its number. -/
def Alternates (basis : Fin 8 → Fin 8 → R) : Prop :=
  ∀ frequency x, basis frequency x.rev = (-1) ^ frequency.val * basis frequency x

private theorem toInt_signed {value : Int16} (within : value.toInt.natAbs ≤ 32767)
    (frequency : Fin 8) :
    (((if frequency.val % 2 = 1 then -value else value).toInt : Int) : R) =
      (-1) ^ frequency.val * (value.toInt : R) := by
  have notLeast : value ≠ -32768 := by
    rintro rfl
    exact absurd within (by decide)
  split
  · rename_i odd
    rw [toInt_neg notLeast, (Nat.odd_iff.mpr odd).neg_one_pow, Int.cast_neg, neg_one_mul]
  · rename_i even
    rw [(Nat.not_odd_iff_even.mp (mt Nat.odd_iff.mp even)).neg_one_pow, one_mul]

theorem sample_mirroredAcross (alternates : Alternates basis) (within : block.Within 32767)
    (y x : Fin 8) :
    block.mirroredAcross.sample basis table y x = block.sample basis table y x.rev := by
  unfold sample
  refine Finset.sum_congr rfl fun i _ => Finset.sum_congr rfl fun j _ => ?_
  rw [mirroredAcross_get, place_mod, toInt_signed (within _), alternates]
  ring

theorem sample_mirroredDown (alternates : Alternates basis) (within : block.Within 32767)
    (y x : Fin 8) :
    block.mirroredDown.sample basis table y x = block.sample basis table y.rev x := by
  unfold sample
  refine Finset.sum_congr rfl fun i _ => Finset.sum_congr rfl fun j _ => ?_
  rw [mirroredDown_get, place_div_mod, toInt_signed (within _), alternates]
  ring

/-- The samples of a moved block are those of the block, each at its new place. -/
theorem sample_moved (alternates : Alternates basis) (within : block.Within 32767)
    (transpose across down : Bool) (y x : Fin 8) :
    (block.moved transpose across down).sample basis (table.oriented transpose) y x =
      if transpose then
        block.sample basis table (if across then x.rev else x) (if down then y.rev else y)
      else
        block.sample basis table (if down then y.rev else y) (if across then x.rev else x) := by
  -- One step at a time, since each of the two mirrorings needs coefficients that have a negative.
  have turned : ∀ y x, (block.moved transpose false false).sample basis
      (table.oriented transpose) y x =
        if transpose then block.sample basis table x y else block.sample basis table y x := by
    intro y x
    cases transpose with
    | false => rfl
    | true => exact sample_transposed y x
  have mirrored : ∀ y x, (block.moved transpose across false).sample basis
      (table.oriented transpose) y x =
        (block.moved transpose false false).sample basis (table.oriented transpose) y
          (if across then x.rev else x) := by
    intro y x
    cases across with
    | false => rfl
    | true =>
        have small := within.moved (Nat.le_refl 32767) transpose false false
        exact sample_mirroredAcross alternates small y x
  have whole : (block.moved transpose across down).sample basis (table.oriented transpose) y x =
      (block.moved transpose across false).sample basis (table.oriented transpose)
        (if down then y.rev else y) x := by
    cases down with
    | false => rfl
    | true =>
        have small := within.moved (Nat.le_refl 32767) transpose across false
        exact sample_mirroredDown alternates small y x
  rw [whole, mirrored, turned]

end Block

def turnedPlace (mirror : Bool) (extent place : Nat) : Nat :=
  if mirror then extent - 1 - place else place

private theorem turnedPlace_div {mirror : Bool} {blocks place : Nat} (inside : place < 8 * blocks) :
    turnedPlace mirror (8 * blocks) place / 8 =
      if mirror then blocks - 1 - place / 8 else place / 8 := by
  unfold turnedPlace
  cases mirror with
  | false => rfl
  | true =>
      change (8 * blocks - 1 - place) / 8 = blocks - 1 - place / 8
      omega

private theorem ofNat_turnedPlace {mirror : Bool} {blocks place : Nat}
    (inside : place < 8 * blocks) :
    Fin.ofNat 8 (turnedPlace mirror (8 * blocks) place) =
      if mirror then (Fin.ofNat 8 place).rev else Fin.ofNat 8 place := by
  unfold turnedPlace
  cases mirror with
  | false => rfl
  | true =>
      apply Fin.ext
      change (8 * blocks - 1 - place) % 8 = 8 - (place % 8 + 1)
      omega

namespace Grid

def plane (basis : Fin 8 → Fin 8 → R) (table : QuantizerTable) (grid : Grid) (y x : Nat) : R :=
  (grid.block (y / 8) (x / 8)).sample basis table (Fin.ofNat 8 y) (Fin.ofNat 8 x)

private theorem reflected_whole {mirror : Bool} {whole blocks place : Nat}
    (covers : mirror = true → whole = blocks) (inside : place < 8 * blocks) :
    (mirror && decide (place / 8 < whole)) = mirror ∧
      reflected mirror whole (place / 8) = turnedPlace mirror (8 * blocks) place / 8 ∧
      turnedPlace mirror (8 * blocks) place / 8 < blocks := by
  have placed : place / 8 < blocks := by omega
  rw [turnedPlace_div inside]
  cases mirror with
  | false => exact ⟨rfl, rfl, placed⟩
  | true =>
      rw [covers rfl, reflected_of_lt true placed, decide_eq_true placed]
      exact ⟨rfl, rfl, by rw [if_pos rfl]; omega⟩

theorem plane_reoriented {basis : Fin 8 → Fin 8 → R} (alternates : Block.Alternates basis)
    {table : QuantizerTable} {grid : Grid} (within : ∀ block ∈ grid.blocks, block.Within 32767)
    {mapping : BlockMapping} {columns rows : Nat}
    (columnsWhole : mapping.mirrorX = true →
      columns = (grid.reoriented mapping columns rows).blocksWide)
    (rowsWhole : mapping.mirrorY = true →
      rows = (grid.reoriented mapping columns rows).blocksTall) {y x : Nat}
    (yInside : y < 8 * (grid.reoriented mapping columns rows).blocksTall)
    (xInside : x < 8 * (grid.reoriented mapping columns rows).blocksWide) :
    (grid.reoriented mapping columns rows).plane basis (table.oriented mapping.transpose) y x =
      let column := turnedPlace mapping.mirrorX
        (8 * (grid.reoriented mapping columns rows).blocksWide) x
      let row := turnedPlace mapping.mirrorY
        (8 * (grid.reoriented mapping columns rows).blocksTall) y
      if mapping.transpose then grid.plane basis table column row
      else grid.plane basis table row column := by
  obtain ⟨across, xPlace, xBound⟩ := reflected_whole columnsWhole xInside
  obtain ⟨down, yPlace, yBound⟩ := reflected_whole rowsWhole yInside
  rw [forall_block] at within
  unfold plane
  dsimp only
  rw [reoriented_block (by omega) (by omega), across, down, xPlace, yPlace,
    ofNat_turnedPlace xInside, ofNat_turnedPlace yInside]
  have xGrid : turnedPlace mapping.mirrorX
      (8 * (grid.reoriented mapping columns rows).blocksWide) x / 8 <
        if mapping.transpose then grid.blocksTall else grid.blocksWide := xBound
  have yGrid : turnedPlace mapping.mirrorY
      (8 * (grid.reoriented mapping columns rows).blocksTall) y / 8 <
        if mapping.transpose then grid.blocksWide else grid.blocksTall := yBound
  cases transposed : mapping.transpose with
  | false =>
      rw [transposed, if_neg Bool.false_ne_true] at xGrid yGrid
      have small := within _ yGrid _ xGrid
      rw [if_neg Bool.false_ne_true, if_neg Bool.false_ne_true,
        Block.sample_moved alternates small, if_neg Bool.false_ne_true]
  | true =>
      rw [transposed, if_pos rfl] at xGrid yGrid
      have small := within _ xGrid _ yGrid
      rw [if_pos rfl, if_pos rfl, Block.sample_moved alternates small, if_pos rfl]

end Grid

/-! ### Orientations -/

/-- Where a sample of the result stands in a source of this height and width. -/
def Orientation.origin (height width y x : Nat) : Orientation → Nat × Nat
  | .identity => (y, x)
  | .rotate90 => (height - 1 - x, y)
  | .rotate180 => (height - 1 - y, width - 1 - x)
  | .rotate270 => (x, width - 1 - y)
  | .flipHorizontal => (y, width - 1 - x)
  | .flipVertical => (height - 1 - y, x)
  | .transpose => (x, y)
  | .transverse => (height - 1 - x, width - 1 - y)

private theorem Grid.plane_origin (basis : Fin 8 → Fin 8 → R) (table : QuantizerTable)
    (grid : Grid) (orientation : Orientation) (columns rows y x : Nat) :
    (if orientation.mapping.transpose then
      grid.plane basis table
        (turnedPlace orientation.mapping.mirrorX
          (8 * (grid.reoriented orientation.mapping columns rows).blocksWide) x)
        (turnedPlace orientation.mapping.mirrorY
          (8 * (grid.reoriented orientation.mapping columns rows).blocksTall) y)
    else
      grid.plane basis table
        (turnedPlace orientation.mapping.mirrorY
          (8 * (grid.reoriented orientation.mapping columns rows).blocksTall) y)
        (turnedPlace orientation.mapping.mirrorX
          (8 * (grid.reoriented orientation.mapping columns rows).blocksWide) x)) =
      let place := orientation.origin (8 * grid.blocksTall) (8 * grid.blocksWide) y x
      grid.plane basis table place.1 place.2 := by
  cases orientation <;> rfl

private theorem rev_eq_sub : ∀ x : Fin 8, x.rev = 7 - x := by
  decide

inductive JpegImage.Made : JpegImage → Prop
  | read {file : List UInt8} {image : JpegImage} (done : ofBytes file = .ok image) : Made image
  | built {parameters : CodingParameters} {width height : UInt16} {grids : Array Grid}
      {metadata : List Segment} {image : JpegImage}
      (done : ofGrids parameters width height grids metadata = .ok image) : Made image

theorem JpegImage.Made.wellFormed {image : JpegImage} (made : image.Made) :
    image.WellFormed := by
  cases made with
  | read done => exact (sound_of_ofBytes done).toWellFormed
  | built done => exact (ofGrids_eq_ok done).2.2.2.2

private theorem Transformation.Covers.aligned {transformation : Transformation} {frame : Frame}
    {mapping : BlockMapping} (covers : transformation.Covers frame mapping)
    (whole : transformation.plan.leavesPartialEdge transformation.placement = false) :
    (mapping.mirrorX = true → (frame.reoriented mapping.transpose).width.toNat %
        (frame.reoriented mapping.transpose).mcuWidth = 0) ∧
      (mapping.mirrorY = true → (frame.reoriented mapping.transpose).height.toNat %
        (frame.reoriented mapping.transpose).mcuHeight = 0) := by
  unfold Plan.leavesPartialEdge at whole
  rw [covers.mapped, covers.imcuWidth, covers.imcuHeight, covers.placement,
    Bool.or_eq_false_iff] at whole
  obtain ⟨across, down⟩ := whole
  refine ⟨fun mirrored => ?_, fun mirrored => ?_⟩
  · rw [mirrored, Bool.true_and, bne_eq_false_iff_eq] at across
    exact across
  · rw [mirrored, Bool.true_and, bne_eq_false_iff_eq] at down
    exact down

/-- An orientation that leaves no edge unmirrored moves the plane of every component, padding
included, as its name says. -/
theorem plane_remap {basis : Fin 8 → Fin 8 → R}
    (alternates : ∀ frequency x, basis frequency (7 - x) = (-1) ^ frequency.val * basis frequency x)
    {source : JpegImage} (made : source.Made) {orientation : Orientation}
    {options : TransformOptions} {transformation : Transformation}
    (untrimmed : options.trim = false) (coloured : options.grayscale = false)
    (planned : Transformation.make source.frame (.orient orientation) options =
      .ok transformation)
    (whole : transformation.plan.leavesPartialEdge transformation.placement = false)
    (regular : ∀ grid ∈ source.grids, ∀ block ∈ grid.blocks, ∀ position,
      block.get position ≠ -32768) :
    ∃ frame, transformation.frame source.parameters = .ok frame ∧
      ∀ (index : Nat) (component : Component), source.frame.components[index]? = some component →
        ∃ grid table destination turned turnedTable,
          source.grids[index]? = some grid ∧
          source.quantizers[component.quantizer]?.join = some table ∧
          frame.components[index]? = some destination ∧
          (remap source.grids transformation.plan transformation.placement frame)[index]? =
            some turned ∧
          (transformation.parameters source.parameters).quantizers[
            destination.quantizer]?.join = some turnedTable ∧
          turnedTable = (if orientation.mapping.transpose then table.transposed else table) ∧
          turned.blocksWide =
            (if orientation.mapping.transpose then grid.blocksTall else grid.blocksWide) ∧
          turned.blocksTall =
            (if orientation.mapping.transpose then grid.blocksWide else grid.blocksTall) ∧
          ∀ y < 8 * turned.blocksTall, ∀ x < 8 * turned.blocksWide,
            turned.plane basis turnedTable y x =
              let place := orientation.origin (8 * grid.blocksTall) (8 * grid.blocksWide) y x
              grid.plane basis table place.1 place.2 := by
  have wellFormed := made.wellFormed
  have covers := Transformation.covers_of_make wellFormed.normal untrimmed coloured planned
  obtain ⟨acrossAligned, downAligned⟩ := covers.aligned whole
  refine ⟨_, covers.frame_eq wellFormed.normal, fun index component found => ?_⟩
  obtain ⟨grid, there, wide, tall⟩ := wellFormed.fits.exists_grid found
  have member := List.mem_of_getElem? found
  obtain ⟨table, slot⟩ := wellFormed.quantized component member
  have known := (source.frame.admissible component member).2.2.2.2
  have turnedFound := (source.frame.reoriented_getElem? orientation.mapping.transpose
    index).trans (congrArg _ found)
  have turnedThere := Frame.reorientGrids_getElem? orientation.mapping turnedFound there
  obtain ⟨turnedWide, turnedTall⟩ := (wellFormed.fits.reoriented orientation.mapping).grid index
    _ _ turnedFound turnedThere
  rw [← covers.remap_eq wellFormed.fits] at turnedThere
  refine ⟨grid, table, _, _, table.oriented orientation.mapping.transpose, there, slot,
    turnedFound, turnedThere, ?_, rfl, rfl, rfl, fun y yInside x xInside => ?_⟩
  · rw [covers.parameters_eq, Component.oriented_quantizer]
    change (QuantizerSlots.oriented _ source.quantizers)[_]?.join = _
    rw [QuantizerSlots.oriented_join _ _ known, slot, Option.map_some]
  · have within : ∀ block ∈ grid.blocks, block.Within 32767 := fun block blockMember =>
      Block.within_of_ne_least (regular grid (Array.mem_of_getElem? there) block blockMember)
    have alternating : Block.Alternates basis := fun frequency place =>
      (rev_eq_sub place).symm ▸ alternates frequency place
    -- A mirrored axis consists of whole iMCUs, so all of it is mirrored, padding included.
    refine (Grid.plane_reoriented alternating within ?_ ?_ yInside xInside).trans
      (Grid.plane_origin _ _ _ _ _ _ _ _)
    · intro mirrored
      exact (Frame.wholeColumns_of_aligned (acrossAligned mirrored) _).trans turnedWide.symm
    · intro mirrored
      exact (Frame.wholeRows_of_aligned (downAligned mirrored) _).trans turnedTall.symm

noncomputable def cosineBasis (frequency x : Fin 8) : ℝ :=
  Real.sqrt (if frequency = 0 then 1 / 8 else 1 / 4) *
    Real.cos (((x.val : ℝ) + x.val + 1) * frequency.val * Real.pi / 16)

/-- Seen from the other end, the cosines of odd frequencies change sign. -/
theorem cosineBasis_alternates (frequency x : Fin 8) :
    cosineBasis frequency (7 - x) = (-1) ^ frequency.val * cosineBasis frequency x := by
  have opposite : (((7 - x : Fin 8).val : ℕ) : ℝ) = 7 - (x.val : ℝ) := by
    have sum : (7 - x : Fin 8).val + x.val = 7 := by
      revert x
      decide
    rw [eq_sub_iff_add_eq, ← Nat.cast_add, sum]
    rfl
  have angle : ((((7 - x : Fin 8).val : ℕ) : ℝ) + ((7 - x : Fin 8).val : ℕ) + 1) *
        frequency.val * Real.pi / 16 =
      frequency.val * Real.pi -
        ((x.val : ℝ) + x.val + 1) * frequency.val * Real.pi / 16 := by
    rw [opposite]
    ring
  unfold cosineBasis
  rw [angle, Real.cos_nat_mul_pi_sub]
  ring

private def pair : JpegImage :=
  JpegImage.grayPair false 7 ((Block.zero.setIfInBounds 0 9).setIfInBounds 1 4)
    (Block.zero.setIfInBounds 8 (-6))

theorem plane_remap_pair : ∃ transformation frame grid turned table,
    pair.grids = #[grid] ∧
      Transformation.make pair.frame (.orient .rotate90) {} = .ok transformation ∧
      transformation.frame pair.parameters = .ok frame ∧
      (remap pair.grids transformation.plan transformation.placement frame)[0]? = some turned ∧
      ∀ y < 16, ∀ x < 8, turned.plane cosineBasis table y x =
        grid.plane cosineBasis (Vector.replicate 64 7) (7 - x) y := by
  have built : JpegImage.ofGrids pair.parameters 16 8 pair.grids [] = .ok pair := rfl
  obtain ⟨transformation, planned⟩ := Transformation.make_of_default pair.frame .rotate90
  have whole : transformation.plan.leavesPartialEdge transformation.placement = false := by
    cases planned
    rfl
  obtain ⟨frame, framed, each⟩ := plane_remap cosineBasis_alternates (.built built) rfl rfl
    planned whole (by decide +kernel)
  obtain ⟨grid, source, destination, turned, table, there, slot, -, found, -, -, wide, tall,
    moved⟩ := each 0 _ rfl
  cases there
  cases slot
  refine ⟨transformation, frame, _, turned, table, rfl, planned, framed, found,
    fun y yInside x xInside => ?_⟩
  exact moved y (by rw [tall]; exact yInside) x (by rw [wide]; exact xInside)

end LosslessJpeg
