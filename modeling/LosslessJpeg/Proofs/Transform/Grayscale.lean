import LosslessJpeg.Proofs.Transform.BlockOrigin
import LosslessJpeg.Proofs.Transform.CarriedMetadata
import LosslessJpeg.Proofs.Transform.Composition

set_option autoImplicit false

/-!
Dropping colour first or together with another transformation. The first component alone is
an image of its own, planned and moved block by block whatever sampling factors it has had, so
that both ways come to the same bytes, or fail alike.
-/

namespace LosslessJpeg

section Planning

variable {directive : Directive} {options : TransformOptions}

/-- What a single component has been sampled by plays no part. -/
theorem Plan.make_sampling {geometry : Geometry} {sampling : List SamplingFactors}
    (one : geometry.sampling.length = 1) (otherOne : sampling.length = 1) :
    make { geometry with sampling := sampling } directive options =
      make geometry directive options := by
  have across : Geometry.tilesAcross { geometry with sampling := sampling } =
      geometry.tilesAcross := by
    unfold Geometry.tilesAcross
    rw [one, otherOne]
    rfl
  have down : Geometry.tilesDown { geometry with sampling := sampling } =
      geometry.tilesDown := by
    unfold Geometry.tilesDown
    rw [one, otherOne]
    rfl
  unfold make
  rw [across, down]

theorem Plan.place_sampling (plan : Plan) (geometry : Geometry)
    (sampling : List SamplingFactors) :
    plan.place { geometry with sampling := sampling } options directive =
      plan.place geometry options directive := by
  cases directive with
  | orient orientation => rfl
  | crop region => rfl

variable {frame alone : Frame}

theorem Geometry.ofFrame_sole {component : Component} (width : alone.width = frame.width)
    (height : alone.height = frame.height) (sole : alone.components = [component]) :
    ofFrame alone false = { ofFrame frame true with sampling := [component.sampling] } := by
  unfold ofFrame
  rw [width, height, sole]
  rfl

theorem Geometry.sampling_length (frame : Frame) : (ofFrame frame true).sampling.length = 1 := by
  have some := List.length_pos_iff.mpr frame.components_ne_nil
  change ((frame.components.take 1).map Component.sampling).length = 1
  rw [List.length_map, List.length_take]
  omega

namespace Transformation

theorem dropsColour_of_three (three : frame.components.length = 3)
    (grayscale : options.grayscale = true) : dropsColour frame options = .ok true := by
  unfold dropsColour
  rw [three, grayscale]
  rfl

theorem dropsColour_of_sole {component : Component} (sole : alone.components = [component]) :
    dropsColour alone options = .ok false := by
  have kept : (options.grayscale && alone.components.length != 1) = false := by
    rw [sole]
    exact Bool.and_false _
  unfold dropsColour
  rw [kept]
  rfl

theorem make_sole {component : Component} (three : frame.components.length = 3)
    (grayscale : options.grayscale = true) (width : alone.width = frame.width)
    (height : alone.height = frame.height) (sole : alone.components = [component]) :
    make alone directive options =
      (fun transformation => { transformation with grayscale := false }) <$>
        make frame directive options := by
  unfold make
  rw [bind_of_ok (dropsColour_of_sole sole), bind_of_ok (dropsColour_of_three three grayscale)]
  dsimp only
  rw [Geometry.ofFrame_sole width height sole,
    Plan.make_sampling (Geometry.sampling_length frame) rfl]
  cases Plan.make (Geometry.ofFrame frame true) directive options with
  | error failure => rfl
  | ok plan =>
      change (Plan.place plan _ options directive >>= _) = _ <$> (Plan.place plan _ _ _ >>= _)
      rw [Plan.place_sampling]
      cases plan.place (Geometry.ofFrame frame true) options directive with
      | error failure => rfl
      | ok placement => rfl

theorem make_plain (three : frame.components.length = 3) (grayscale : options.grayscale = true) :
    ∃ transformation,
      make frame (.orient .identity) { options with perfect := false, trim := false } =
        .ok transformation ∧
      transformation.grayscale = true ∧
      transformation.plan.mapping = Orientation.identity.mapping ∧
      transformation.placement =
        { width := frame.width.toNat
          height := frame.height.toNat
          xOffset := 0
          yOffset := 0 } := by
  have kept : dropsColour frame { options with perfect := false, trim := false } = .ok true :=
    dropsColour_of_three three grayscale
  unfold make
  rw [bind_of_ok kept]
  exact ⟨_, rfl, rfl, rfl, rfl⟩

end Transformation

end Planning

def Grid.blockOrZero (grid : Grid) (row column : Nat) : Block :=
  if row < grid.blocksTall ∧ column < grid.blocksWide then grid.block row column else Block.zero

def Grid.resized (grid : Grid) (wide tall : Nat) : Grid :=
  Grid.ofFn wide tall grid.blockOrZero

theorem Grid.resized_blockOrZero (grid : Grid) {wide tall row column : Nat}
    (rowInside : row < tall) (columnInside : column < wide) :
    (grid.resized wide tall).blockOrZero row column = grid.blockOrZero row column :=
  (if_pos ⟨rowInside, columnInside⟩).trans (Grid.block_ofFn rowInside columnInside _)

theorem Grid.within_resized {bound : Nat} {grid : Grid}
    (within : ∀ block ∈ grid.blocks, block.Within bound) (wide tall : Nat) :
    ∀ block ∈ (grid.resized wide tall).blocks, block.Within bound := by
  rw [Grid.forall_block] at within ⊢
  intro row rowInside column columnInside
  change row < tall at rowInside
  change column < wide at columnInside
  unfold resized
  rw [Grid.block_ofFn rowInside columnInside]
  unfold blockOrZero
  split
  · rename_i inside
    exact within row inside.1 column inside.2
  · exact Block.within_zero bound

namespace BlockWindow

theorem block_eq (window : BlockWindow) (grid : Grid) (row column : Nat) :
    window.block grid row column = window.orient (window.source row column)
      (grid.blockOrZero (window.source row column).row (window.source row column).column) := by
  unfold block Grid.blockOrZero
  dsimp only
  split
  · rfl
  · exact (Block.moved_zero _ _ _).symm

/-- Nothing is lost of a grid where nothing is drawn from. -/
theorem block_resized {window : BlockWindow} {grid : Grid} {wide tall row column : Nat}
    (rowDrawn : (window.source row column).row < tall)
    (columnDrawn : (window.source row column).column < wide) :
    window.block (grid.resized wide tall) row column = window.block grid row column := by
  rw [block_eq, block_eq, Grid.resized_blockOrZero grid rowDrawn columnDrawn]

theorem block_plain {window : BlockWindow} (grid : Grid)
    (mapping : window.mapping = Orientation.identity.mapping)
    (columnOffset : window.columnOffset = 0) (rowOffset : window.rowOffset = 0) :
    window.block grid = grid.blockOrZero := by
  funext row column
  obtain ⟨_, columns, rows, x, y⟩ := window
  dsimp only at mapping columnOffset rowOffset
  subst mapping columnOffset rowOffset
  exact block_eq _ grid row column

end BlockWindow

theorem remap_sole {grids : Array Grid} {grid : Grid} {result : Frame} {component : Component}
    (plan : Plan) (placement : Placement) (sole : result.components = [component])
    (there : grids[0]? = some grid) :
    remap grids plan placement result =
      #[Grid.ofFn (result.blocksWide component) (result.blocksTall component)
        ((BlockWindow.make plan placement component).block grid)] := by
  have listed : grids.toList[0]? = some grid := by
    rw [Array.getElem?_toList, there]
  unfold remap
  rw [sole]
  cases others : grids.toList with
  | nil =>
      rw [others] at listed
      cases listed
  | cons first rest =>
      rw [others] at listed
      cases listed
      rfl

/-! ### The first component alone -/

theorem MetadataPolicy.select_select (policy : MetadataPolicy) (segments : List Segment) :
    policy.select false (policy.select true segments) = policy.select true segments := by
  refine List.filter_eq_self.mpr fun segment selected => ?_
  have kept := (Bool.and_eq_true_iff.mp (List.mem_filter.mp selected).2).1
  rw [kept, Bool.false_and]
  rfl

theorem Frame.build_soleComponent (width height : UInt16) (named : List Component)
    (progressive : Bool) :
    build width height (soleComponent named) progressive =
      build width height named progressive := by
  match named with
  | [] => rfl
  | [_] => rfl
  | _ :: _ :: _ => rfl

theorem Frame.blocks_of_sole {frame : Frame} {component : Component}
    (normal : soleComponent frame.components = frame.components)
    (sole : frame.components = [component]) :
    frame.imageBlocksWide component = frame.blocksWide component ∧
      frame.imageBlocksTall component = frame.blocksTall component := by
  obtain ⟨⟨across, down⟩, widest, tallest⟩ := frame.unsampled_of_sole normal sole
  have single : ∀ count, ceilDiv (count * 1) 1 = count := by
    intro count
    unfold ceilDiv
    rw [Nat.mul_one, Nat.add_sub_cancel, Nat.div_one]
  unfold imageBlocksWide imageBlocksTall blocksWide blocksTall mcusWide mcusTall mcuWidth mcuHeight
  rw [across, down, widest, tallest, single, single, Nat.one_mul, Nat.mul_one, Nat.mul_one]
  exact ⟨rfl, rfl⟩

def Component.sole (component : Component) : Component :=
  { component with
    across := 1
    down := 1 }

theorem Component.soleComponent_oriented (component : Component) (transpose : Bool) :
    soleComponent [component.sole.oriented transpose] =
      soleComponent [component.oriented transpose] := by
  cases transpose with
  | false => rfl
  | true => rfl

structure JpegImage.KeepsFirst (image source : JpegImage) (policy : MetadataPolicy)
    (first : Component) (grid : Grid) : Prop where
  listed : source.frame.components[0]? = some first
  there : source.grids[0]? = some grid
  width : image.frame.width = source.frame.width
  height : image.frame.height = source.frame.height
  components : image.frame.components = [first.sole]
  grids : image.grids = #[grid.resized (image.frame.blocksWide first.sole)
    (image.frame.blocksTall first.sole)]
  quantizers : image.quantizers = source.parameters.firstOnly.quantizers
  metadata : image.metadata = policy.select true source.metadata

namespace Transformation

variable {transformation : Transformation} {source image : JpegImage} {policy : MetadataPolicy}

theorem keepsFirst_of_apply (fits : source.frame.Fits source.grids)
    (grayscale : transformation.grayscale = true)
    (mapping : transformation.plan.mapping = Orientation.identity.mapping)
    (placement : transformation.placement =
      { width := source.frame.width.toNat
        height := source.frame.height.toNat
        xOffset := 0
        yOffset := 0 })
    (applied : transformation.apply policy source = .ok image) :
    ∃ first grid, image.KeepsFirst source policy first grid := by
  obtain ⟨framed, grids, quantizers, metadata, -⟩ := apply_eq_ok applied
  obtain ⟨width, height, built⟩ := frame_eq_ok framed
  obtain ⟨first, listed, kept⟩ := components_of_grayscale source.frame grayscale
  have components := (Frame.build_eq_ok built).2.2.1
  rw [parameters_components, kept, mapping] at components
  have sole : image.frame.components = [first.sole] := components
  obtain ⟨grid, there, -⟩ := fits.exists_grid listed
  rw [placement] at width height
  refine ⟨first, grid, listed, there, UInt16.toNat_inj.mp width, UInt16.toNat_inj.mp height,
    sole, ?_, ?_, ?_⟩
  · -- Nothing is skipped, so that the window begins with the first block.
    have columnOffset : (BlockWindow.make transformation.plan transformation.placement
        first.sole).columnOffset = 0 := by
      unfold BlockWindow.make
      dsimp only
      rw [placement, Nat.zero_div, Nat.zero_mul]
    have rowOffset : (BlockWindow.make transformation.plan transformation.placement
        first.sole).rowOffset = 0 := by
      unfold BlockWindow.make
      dsimp only
      rw [placement, Nat.zero_div, Nat.zero_mul]
    rw [grids, remap_sole _ _ sole there,
      BlockWindow.block_plain grid mapping columnOffset rowOffset]
    rfl
  · rw [quantizers, parameters_quantizers, grayscale, mapping]
    rfl
  · rw [metadata, grayscale]

end Transformation

namespace JpegImage.KeepsFirst

variable {policy : MetadataPolicy} {source image : JpegImage} {first : Component} {grid : Grid}
  {transformation : Transformation}

theorem within {bound : Nat} (keeps : image.KeepsFirst source policy first grid)
    (small : ∀ block ∈ grid.blocks, block.Within bound) :
    ∀ moved ∈ image.grids, ∀ block ∈ moved.blocks, block.Within bound := by
  intro moved member
  rw [keeps.grids] at member
  rw [Array.mem_singleton.mp member]
  exact Grid.within_resized small _ _

theorem usedQuantizers (keeps : image.KeepsFirst source policy first grid) :
    image.usedQuantizers = source.parameters.firstOnly.quantizers := by
  have known := (source.frame.admissible first (List.mem_of_getElem? keeps.listed)).2.2.2.2
  have parameters : source.parameters.components[0]? = some first := keeps.listed
  apply ext_get
  intro id
  rw [usedQuantizers_get, keeps.components, keeps.quantizers]
  split
  · rfl
  · rename_i unused
    rw [CodingParameters.firstOnly_get parameters, if_neg]
    rw [Nat.mod_eq_of_lt known]
    intro same
    exact unused (List.any_eq_true.mpr
      ⟨first.sole, List.mem_cons_self, decide_eq_true same.symm⟩)

theorem components_eq (keeps : image.KeepsFirst source policy first grid) :
    Transformation.components { transformation with grayscale := false } image.frame =
      [first.sole.oriented transformation.plan.mapping.transpose] := by
  unfold Transformation.components
  rw [if_neg Bool.false_ne_true, keeps.components]
  rfl

theorem frame_eq (keeps : image.KeepsFirst source policy first grid)
    (grayscale : transformation.grayscale = true) :
    Transformation.frame { transformation with grayscale := false } image.written.parameters =
      transformation.frame source.parameters := by
  have same : ∀ width height, Frame.build width height
      (Transformation.parameters { transformation with grayscale := false }
        image.written.parameters).components false =
      Frame.build width height (transformation.parameters source.parameters).components false := by
    intro width height
    obtain ⟨kept, listed, components⟩ :=
      Transformation.components_of_grayscale source.frame grayscale
    cases keeps.listed.symm.trans listed
    rw [Transformation.parameters_components, Transformation.parameters_components, components]
    change Frame.build width height (Transformation.components _ image.frame) false = _
    rw [keeps.components_eq, ← Frame.build_soleComponent _ _ [first.oriented _],
      ← Frame.build_soleComponent _ _ [first.sole.oriented _],
      first.soleComponent_oriented transformation.plan.mapping.transpose]
  unfold Transformation.frame
  simp only [same]
  rfl

/-- Nothing that a result shows lies behind the edges of the first component alone. -/
theorem remap_eq (keeps : image.KeepsFirst source policy first grid) {result : Frame}
    (normal : soleComponent image.frame.components = image.frame.components)
    (places : Transformation.Places { transformation with grayscale := false } image.frame result) :
    remap image.grids transformation.plan transformation.placement result =
      remap source.grids transformation.plan transformation.placement result := by
  have found : image.frame.components[0]? = some first.sole := by
    rw [keeps.components]
    rfl
  have there : image.grids[0]? = some (grid.resized (image.frame.blocksWide first.sole)
      (image.frame.blocksTall first.sole)) := by
    rw [keeps.grids]
    rfl
  have sole := places.components
  rw [keeps.components_eq] at sole
  have resultNormal : soleComponent result.components = result.components := by
    rw [sole]
    rfl
  obtain ⟨wide, tall⟩ := Frame.blocks_of_sole resultNormal sole
  obtain ⟨sourceWide, sourceTall⟩ := Frame.blocks_of_sole normal keeps.components
  have drawn := places.drawsWithin normal (by rw [sole]; rfl) found (Or.inl rfl)
  rw [wide, tall, sourceWide, sourceTall] at drawn
  rw [remap_sole _ _ sole there, remap_sole _ _ sole keeps.there]
  refine congrArg (fun moved => #[moved]) (Grid.ext_block rfl rfl ?_)
  intro row rowInside column columnInside
  change row < result.blocksTall _ at rowInside
  change column < result.blocksWide _ at columnInside
  obtain ⟨rowDrawn, columnDrawn⟩ := drawn row rowInside column columnInside
  rw [Grid.block_ofFn rowInside columnInside, Grid.block_ofFn rowInside columnInside]
  exact BlockWindow.block_resized rowDrawn columnDrawn

theorem apply_eq (keeps : image.KeepsFirst source policy first grid)
    {directive : Directive} {options : TransformOptions}
    (normal : soleComponent image.frame.components = image.frame.components)
    (grayscale : transformation.grayscale = true)
    (made : Transformation.make image.frame directive options =
      .ok { transformation with grayscale := false }) :
    Transformation.apply { transformation with grayscale := false } policy image.written =
      transformation.apply policy source := by
  obtain ⟨result, framed, places⟩ := @Transformation.exists_frame _ _ _ image.written normal made
  have quantizers : (Transformation.parameters { transformation with grayscale := false }
      image.written.parameters).quantizers =
        (transformation.parameters source.parameters).quantizers := by
    rw [Transformation.parameters_quantizers, Transformation.parameters_quantizers, grayscale]
    exact congrArg _ keeps.usedQuantizers
  have metadata : policy.select false image.written.metadata =
      policy.select true source.metadata := by
    change policy.select false image.metadata = _
    rw [keeps.metadata, MetadataPolicy.select_select]
  have same := keeps.frame_eq grayscale
  rw [framed] at same
  have built := (Transformation.frame_eq_ok framed).2.2
  have sourceBuilt := (Transformation.frame_eq_ok same.symm).2.2
  have grids := keeps.remap_eq normal places
  unfold Transformation.apply
  rw [bind_of_ok framed, bind_of_ok same.symm]
  dsimp only
  rw [metadata, grayscale]
  change writing (JpegImage.ofGrids _ _ _ (remap image.grids _ _ result) _) = _
  rw [grids]
  unfold JpegImage.ofGrids
  rw [bind_of_ok built, bind_of_ok sourceBuilt, quantizers]

end JpegImage.KeepsFirst

theorem Transformation.laterBlocks_of_grayscale {transformation : Transformation}
    {source : JpegImage} {result : Frame} (grayscale : transformation.grayscale = true)
    (framed : transformation.frame source.parameters = .ok result) : result.laterBlocks = 0 := by
  obtain ⟨first, -, kept⟩ := components_of_grayscale source.frame grayscale
  have sole := (Frame.build_eq_ok (frame_eq_ok framed).2.2).2.2.1
  rw [parameters_components, kept] at sole
  unfold Frame.laterBlocks
  rw [sole]
  rfl

/-- Dropping colour first, and then doing the rest, comes to the same as doing both together. -/
theorem transform_grayscale_first {file : List UInt8} {source : JpegImage}
    {options : TransformOptions} (read : JpegImage.ofBytes file = .ok source)
    (three : source.frame.components.length = 3) (grayscale : options.grayscale = true)
    (small : ∀ grid, source.grids[0]? = some grid → ∀ block ∈ grid.blocks, ∀ position,
      -16383 ≤ (block.get position).toInt ∧ (block.get position).toInt ≤ 16383) :
    ∃ gray,
      transform file (.orient .identity) { options with perfect := false, trim := false } =
        .ok gray ∧
      ∀ directive, transform gray.bytes directive options = transform file directive options := by
  obtain ⟨header, headed, readSource⟩ := bind_eq_ok read
  have frame := JpegImage.ofHeader_frame readSource
  have sound := JpegImage.sound_of_ofBytes read
  -- Colour can be dropped, and what is left is written and comes back.
  obtain ⟨plain, made, dropped, mapping, placement⟩ :=
    @Transformation.make_plain options source.frame three grayscale
  rw [frame] at made
  obtain ⟨image, bytes, -, applied, written, done⟩ := exists_transformed headed made readSource
    fun result framed => by
      rw [Transformation.laterBlocks_of_grayscale dropped framed]
      exact Nat.zero_le _
  refine ⟨_, done, fun directive => ?_⟩
  obtain ⟨first, grid, keeps⟩ :=
    Transformation.keepsFirst_of_apply sound.fits dropped mapping placement applied
  have recoverable := Transformation.recoverable_of_apply sound applied (by
    rw [keeps.components]
    exact List.nodup_singleton _)
  have returned := (JpegImage.ofBytes_toBytes recoverable written).1.mpr
    (recoverable.fits.representable_of_within (keeps.within fun block member position => by
      have := small grid keeps.there block member position
      omega))
  obtain ⟨grayHeader, grayHeaded, readGray⟩ := bind_eq_ok returned
  have grayFrame := JpegImage.ofHeader_frame readGray
  change image.frame = grayHeader.frame at grayFrame
  -- Both files are planned for alike, and what is planned has the same result.
  have planned := @Transformation.make_sole directive options _ image.frame _ three grayscale
    keeps.width keeps.height keeps.components
  unfold transform
  dsimp only
  rw [bind_of_ok (reading_eq_ok.mpr headed), bind_of_ok (reading_eq_ok.mpr grayHeaded), ← frame,
    ← grayFrame]
  cases again : Transformation.make source.frame directive options with
  | error failure =>
      rw [planned, again]
      rfl
  | ok transformation =>
      have coloured : transformation.grayscale = true := by
        rw [Transformation.make_grayscale again, grayscale, three]
        rfl
      rw [again] at planned
      rw [bind_of_ok planned]
      change (reading _ >>= _) = (reading _ >>= _)
      rw [bind_of_ok (reading_eq_ok.mpr readSource), bind_of_ok (reading_eq_ok.mpr readGray),
        keeps.apply_eq recoverable.normal coloured planned]
      rfl

/-- The first component has one block, and the image two, of which a crop takes the second. -/
theorem transform_grayscale_first_coarseFile : ∃ gray,
    transform coarseFile (.orient .identity) { grayscale := true, metadata := .none } = .ok gray ∧
      transform gray.bytes (.crop { x := 8, y := 0, width := 8, height := 8 })
          { perfect := true, grayscale := true, metadata := .none } =
        transform coarseFile (.crop { x := 8, y := 0, width := 8, height := 8 })
          { perfect := true, grayscale := true, metadata := .none } := by
  have measures : (JpegImage.ofBytes coarseFile).map (fun source =>
      (source.frame.components.length, source.grids[0]?)) =
        .ok (3, some ((Grid.zero 1 1).setBlock 0 0 (Block.zero.setIfInBounds 0 1))) := by
    decide +kernel
  obtain ⟨source, read, measure⟩ := map_eq_ok measures
  obtain ⟨three, first⟩ := Prod.ext_iff.mp measure
  obtain ⟨gray, done, together⟩ := @transform_grayscale_first _ _
    { perfect := true, grayscale := true, metadata := .none } read three rfl (by
      intro grid found
      cases first.symm.trans found
      intro block member
      rw [Array.mem_singleton.mp member]
      decide +kernel)
  exact ⟨gray, done, together _⟩

end LosslessJpeg
