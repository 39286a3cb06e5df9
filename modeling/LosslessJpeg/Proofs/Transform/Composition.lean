import LosslessJpeg.Operations
import LosslessJpeg.Proofs.Transform.OrientedImage

set_option autoImplicit false

/-!
Orienting a file step by step comes to the same bytes as orienting it once by the product
of the steps.
-/

namespace LosslessJpeg

theorem Grid.within_reoriented {bound : Nat} {grid : Grid} (small : bound ≤ 32767)
    (within : ∀ block ∈ grid.blocks, block.Within bound) (mapping : BlockMapping)
    {columns rows : Nat}
    (columnsInside : columns ≤ (grid.reoriented mapping columns rows).blocksWide)
    (rowsInside : rows ≤ (grid.reoriented mapping columns rows).blocksTall) :
    ∀ block ∈ (grid.reoriented mapping columns rows).blocks, block.Within bound := by
  rw [Grid.forall_block] at within ⊢
  intro row rowInside column columnInside
  have y := reflected_lt mapping.mirrorY rowsInside rowInside
  have x := reflected_lt mapping.mirrorX columnsInside columnInside
  rw [Grid.reoriented_blocksTall] at y
  rw [Grid.reoriented_blocksWide] at x
  rw [Grid.reoriented_block rowInside columnInside]
  refine Block.Within.moved small ?_ _ _ _
  cases transposed : mapping.transpose with
  | false =>
      rw [transposed] at x y
      exact within _ y _ x
  | true =>
      rw [transposed] at x y
      exact within _ x _ y

namespace Frame

variable {frame : Frame} {grids : Array Grid}

theorem mem_reorientGrids (fits : frame.Fits grids) {mapping : BlockMapping} {turned : Grid}
    (member : turned ∈ (frame.reoriented mapping.transpose).reorientGrids mapping grids) :
    ∃ grid ∈ grids, ∃ columns rows, turned = grid.reoriented mapping columns rows ∧
      columns ≤ turned.blocksWide ∧ rows ≤ turned.blocksTall := by
  obtain ⟨index, there⟩ := Array.mem_iff_getElem?.mp member
  have inside := (Array.getElem?_eq_some_iff.mp there).1
  have same : (frame.reoriented mapping.transpose).components.length =
      frame.components.length := List.length_map _
  rw [(fits.reoriented mapping).size, same] at inside
  have found := List.getElem?_eq_getElem inside
  obtain ⟨grid, source, wide, tall⟩ := fits.exists_grid found
  rw [reorientGrids_getElem?_of_some mapping found source] at there
  cases there
  refine ⟨grid, Array.mem_of_getElem? source, _, _, rfl, ?_, ?_⟩
  · rw [Grid.reoriented_blocksWide, wide, tall]
    split
    · exact frame.wholeRows_le _
    · exact frame.wholeColumns_le _
  · rw [Grid.reoriented_blocksTall, wide, tall]
    split
    · exact frame.wholeColumns_le _
    · exact frame.wholeRows_le _

/-- Half of the range of coefficients is enough for all of their differences. -/
theorem Fits.representable_of_within (fits : frame.Fits grids)
    (within : ∀ grid ∈ grids, ∀ block ∈ grid.blocks, block.Within 16383) :
    Representable frame grids := by
  have small := (fits.forall_block _).mp within
  constructor
  · intro component _
    have close : ∀ value ∈ 0 :: dcSequence frame grids component, value.natAbs ≤ 16383 := by
      intro value member
      rcases List.mem_cons.mp member with rfl | later
      · exact Nat.zero_le _
      · obtain ⟨address, listed, rfl⟩ := List.mem_map.mp later
        obtain ⟨listed, -⟩ := List.mem_filter.mp listed
        exact small address (ScanLayout.mem_order_interleaved.mp listed) 0
    refine (List.pairwise_of_forall_mem_list fun before earlier value later => ?_).isChain
    have := close before earlier
    have := close value later
    omega
  · intro grid member block blockMember position _ least
    have size := within grid member block blockMember position
    rw [least] at size
    exact absurd size (by decide)

end Frame

namespace JpegImage

structure Turnable (image : JpegImage) : Prop extends image.Sound where
  distinct : (image.frame.components.map (·.id)).Nodup
  within : ∀ grid ∈ image.grids, ∀ block ∈ grid.blocks, block.Within 16383
  few : ((image.grids.toList.drop 1).map fun grid => grid.blocks.size).sum ≤ 2 ^ 26

variable {image : JpegImage}

theorem Sound.written (sound : image.Sound) : image.written.Sound where
  normal := sound.normal
  fits := sound.fits
  quantized := by
    intro component member
    obtain ⟨id, named, present⟩ := sound.used member
    rw [named]
    exact (getElem?_join_val image.usedQuantizers id).symm ▸ Option.isSome_iff_exists.mp present
  definable := by
    intro id table used
    change image.usedQuantizers.get id = some table at used
    rw [usedQuantizers_get] at used
    split at used
    · exact sound.definable id table used
    · cases used
  metadata := sound.metadata

theorem Sound.reoriented (sound : image.Sound) (mapping : BlockMapping) :
    (image.reoriented mapping).Sound where
  toWellFormed := sound.toWellFormed.reoriented mapping
  definable := by
    intro id table found
    change (QuantizerSlots.oriented mapping.transpose image.quantizers).get id = some table at found
    rw [QuantizerSlots.oriented_get] at found
    obtain ⟨before, was, rfl⟩ := Option.map_eq_some_iff.mp found
    unfold QuantizerTable.oriented
    split
    · exact (sound.definable id before was).transposed
    · exact sound.definable id before was
  metadata := sound.metadata

theorem Turnable.written (turnable : image.Turnable) : image.written.Turnable :=
  { turnable.toSound.written with
    distinct := turnable.distinct
    within := turnable.within
    few := turnable.few }

theorem Turnable.reoriented (turnable : image.Turnable) (mapping : BlockMapping) :
    (image.reoriented mapping).Turnable :=
  { turnable.toSound.reoriented mapping with
    distinct := by
      change ((image.frame.reoriented mapping.transpose).components.map (·.id)).Nodup
      rw [Frame.reoriented_ids]
      exact turnable.distinct
    within := by
      intro turned member
      obtain ⟨grid, listed, columns, rows, rfl, columnsInside, rowsInside⟩ :=
        Frame.mem_reorientGrids turnable.fits member
      exact Grid.within_reoriented (by decide) (turnable.within grid listed) mapping
        columnsInside rowsInside
    few := by
      rw [blocks_reoriented turnable.fits]
      exact turnable.few }

theorem Turnable.exists_file (turnable : image.Turnable)
    (sequential : image.frame.progressive = false) :
    ∃ file, image.toBytes = .ok file ∧ ofBytes file = .ok image.written := by
  have recoverable : image.Recoverable :=
    { turnable.toWellFormed with
      sequential := sequential
      distinct := turnable.distinct
      definable := fun component member table slot => by
        have known := (image.frame.admissible component member).2.2.2.2
        have get := getElem?_join_val image.quantizers ⟨component.quantizer, known⟩
        exact turnable.definable _ table (get.symm.trans slot)
      metadata := fun segment member => (turnable.metadata segment member).1 }
  obtain ⟨file, done⟩ := toBytes_of_few turnable.fits turnable.few
    fun segment member => (turnable.metadata segment member).2
  exact ⟨file, done, (ofBytes_toBytes recoverable done).1.mpr
    (turnable.fits.representable_of_within turnable.within)⟩

end JpegImage

variable {file : List UInt8} {source : JpegImage}

theorem transformBytes_orient (read : JpegImage.ofBytes file = .ok source)
    (turnable : source.Turnable) (orientation : Orientation) :
    ∃ bytes, transformBytes file (.orient orientation) = .ok bytes ∧
      (source.reoriented orientation.mapping).toBytes = .ok bytes ∧
      JpegImage.ofBytes bytes = .ok (source.reoriented orientation.mapping).written := by
  obtain ⟨bytes, written, returned⟩ :=
    (turnable.reoriented orientation.mapping).exists_file rfl
  obtain ⟨header, transformation, -, -, -, -, done⟩ := transform_orient read written
  exact ⟨bytes, bind_of_ok done, written, returned⟩

private theorem foldlM_orient_written (read : JpegImage.ofBytes file = .ok source)
    (turnable : source.Turnable) {orientations : List Orientation}
    (some : orientations ≠ []) :
    ∃ bytes,
      orientations.foldlM (fun bytes orientation => transformBytes bytes (.orient orientation))
        file = .ok bytes ∧
      (source.reoriented orientations.prod.mapping).toBytes = .ok bytes ∧
      JpegImage.ofBytes bytes = .ok (source.reoriented orientations.prod.mapping).written := by
  -- The last step finds the image that the steps before it have left in their file.
  induction orientations using List.reverseRecOn with
  | nil => exact absurd rfl some
  | append_singleton earlier orientation inductionHypothesis =>
      rw [List.prod_append, List.prod_singleton, List.foldlM_append]
      rcases eq_or_ne earlier [] with none | before
      · rw [none, List.prod_nil, one_mul]
        obtain ⟨bytes, done, written, returned⟩ := transformBytes_orient read turnable orientation
        exact ⟨bytes, (bind_of_ok rfl).trans ((bind_of_ok done).trans rfl), written, returned⟩
      · obtain ⟨between, done, -, readBetween⟩ := inductionHypothesis before
        obtain ⟨bytes, step, written, returned⟩ := transformBytes_orient readBetween
          (turnable.reoriented earlier.prod.mapping).written orientation
        have combined := JpegImage.reoriented_reoriented turnable.fits earlier.prod.mapping
          orientation.mapping
        rw [← Orientation.mapping_mul] at combined
        rw [combined] at returned
        rw [← JpegImage.toBytes_written, combined, JpegImage.toBytes_written] at written
        exact ⟨bytes, (bind_of_ok done).trans ((bind_of_ok step).trans rfl), written, returned⟩

/-- Orienting a file step by step gives the bytes of a single step, which is the product of
all steps among the symmetries of a square. A step and its inverse give the bytes of no step.
The edges of the image need not be whole iMCUs. -/
theorem foldlM_transformBytes (read : JpegImage.ofBytes file = .ok source)
    (distinct : (source.frame.components.map (·.id)).Nodup)
    (small : ∀ grid ∈ source.grids, ∀ block ∈ grid.blocks, ∀ position,
      -16383 ≤ (block.get position).toInt ∧ (block.get position).toInt ≤ 16383)
    (few : ((source.grids.toList.drop 1).map fun grid => grid.blocks.size).sum ≤ 2 ^ 26) :
    (∀ orientations : List Orientation, orientations ≠ [] → ∃ bytes,
      orientations.foldlM (fun bytes orientation => transformBytes bytes (.orient orientation))
        file = .ok bytes ∧
      transformBytes file (.orient orientations.prod) = .ok bytes) ∧
    ∀ orientation : Orientation, ∃ bytes,
      (transformBytes file (.orient orientation) >>= fun turned =>
        transformBytes turned (.orient orientation⁻¹)) = .ok bytes ∧
      transformBytes file (.orient .identity) = .ok bytes := by
  have turnable : source.Turnable :=
    { JpegImage.sound_of_ofBytes read with
      distinct := distinct
      within := fun grid member block blockMember position => by
        have := small grid member block blockMember position
        omega
      few := few }
  have steps : ∀ orientations : List Orientation, orientations ≠ [] → ∃ bytes,
      orientations.foldlM (fun bytes orientation => transformBytes bytes (.orient orientation))
        file = .ok bytes ∧
      transformBytes file (.orient orientations.prod) = .ok bytes := by
    intro orientations some
    obtain ⟨bytes, done, written, -⟩ := foldlM_orient_written read turnable some
    obtain ⟨once, doneOnce, writtenOnce, -⟩ :=
      transformBytes_orient read turnable orientations.prod
    rw [written] at writtenOnce
    cases writtenOnce
    exact ⟨bytes, done, doneOnce⟩
  -- An orientation followed by its inverse is a list of two, whose product is the identity.
  refine ⟨steps, fun orientation => ?_⟩
  obtain ⟨bytes, done, once⟩ := steps [orientation, orientation⁻¹] (List.cons_ne_nil _ _)
  rw [List.prod_cons, List.prod_singleton, mul_inv_cancel] at once
  rw [List.foldlM_cons] at done
  obtain ⟨turned, first, rest⟩ := bind_eq_ok done
  rw [List.foldlM_cons] at rest
  obtain ⟨back, second, last⟩ := bind_eq_ok rest
  cases last
  exact ⟨bytes, (bind_of_ok first).trans second, once⟩

private def sliverFile : List UInt8 :=
  [0xFF, 0xD8, 0xFF, 0xDB, 0, 67, 0] ++ List.replicate 64 1 ++
    [0xFF, 0xC0, 0, 11, 8, 0, 8, 0, 12, 1, 1, 0x11, 0,
     0xFF, 0xC4, 0, 40,
     0x00, 0, 0, 0, 0, 0, 0, 0, 0, 2, 0, 0, 0, 0, 0, 0, 0, 1, 2,
     0x10, 0, 0, 0, 0, 0, 0, 0, 0, 2, 0, 0, 0, 0, 0, 0, 0, 0, 1,
     0xFF, 0xDA, 0, 8, 1, 1, 0, 0, 63, 0,
     0x00, 0x40, 0x30, 0x00, 0x05, 0x00, 0x7F,
     0xFF, 0xD9]

private def sliver : JpegImage :=
  JpegImage.grayPair true 1 ((Block.zero.setIfInBounds 0 1).setIfInBounds 1 1)
    (Block.zero.setIfInBounds 0 (-1))

theorem foldlM_transformBytes_sliver : ∃ bytes,
    [Orientation.rotate90, .flipVertical].foldlM
      (fun bytes orientation => transformBytes bytes (.orient orientation)) sliverFile =
        .ok bytes ∧
    transformBytes sliverFile (.orient .transverse) = .ok bytes := by
  have read : JpegImage.ofBytes sliverFile = .ok sliver := by
    decide +kernel
  exact (foldlM_transformBytes read (by decide) (by decide +kernel) (by decide)).1
    [.rotate90, .flipVertical] (List.cons_ne_nil _ _)

end LosslessJpeg
