import LosslessJpeg.Image.Basic
import LosslessJpeg.Proofs.Scan.Grids
import LosslessJpeg.Proofs.Segments.Headers

set_option autoImplicit false

/-!
Images whose parts go together: grids that fill the MCUs of the frame, and a quantization
table for every component. An image can be built of given grids exactly if it is one.
-/

namespace LosslessJpeg

namespace JpegImage

structure WellFormed (image : JpegImage) : Prop where
  normal : soleComponent image.frame.components = image.frame.components
  fits : image.frame.Fits image.grids
  quantized : ∀ component ∈ image.frame.components, ∃ table,
    image.quantizers[component.quantizer]?.join = some table

private theorem checkComponent_eq_ok {frame : Frame} {quantizers : QuantizerSlots}
    {grid : Grid} {component : Component} :
    checkComponent frame quantizers (grid, component) = .ok () ↔
      (grid.blocksWide = frame.blocksWide component ∧
        grid.blocksTall = frame.blocksTall component) ∧
      ∃ table, quantizers[component.quantizer]?.join = some table := by
  unfold checkComponent
  dsimp only
  rw [← Option.isSome_iff_exists]
  by_cases sizes : grid.blocksWide ≠ frame.blocksWide component ∨
      grid.blocksTall ≠ frame.blocksTall component
  · rw [if_pos sizes]
    constructor
    · intro done
      cases done
    · rintro ⟨⟨wide, tall⟩, -⟩
      omega
  · rw [if_neg sizes]
    cases quantizers[component.quantizer]?.join with
    | none =>
        constructor
        · intro done
          cases done
        · rintro ⟨-, present⟩
          cases present
    | some table => exact ⟨fun _ => ⟨by omega, rfl⟩, fun _ => rfl⟩

private theorem forM_eq_ok {ε α : Type} {check : α → Except ε Unit} {items : List α} :
    items.forM check = .ok () ↔ ∀ item ∈ items, check item = .ok () := by
  induction items with
  | nil => exact ⟨fun _ _ member => absurd member List.not_mem_nil, fun _ => rfl⟩
  | cons item rest inductionHypothesis =>
      rw [List.forall_mem_cons, ← inductionHypothesis]
      constructor
      · intro done
        obtain ⟨_, first, later⟩ := bind_eq_ok (show (check item >>= fun _ =>
          rest.forM check) = .ok () from done)
        exact ⟨first, later⟩
      · rintro ⟨first, later⟩
        exact (bind_of_ok first).trans later

private theorem checks_iff {frame : Frame} {quantizers : QuantizerSlots} {grids : Array Grid}
    (size : grids.size = frame.components.length) :
    (grids.toList.zip frame.components).forM (checkComponent frame quantizers) = .ok () ↔
      frame.Fits grids ∧ ∀ component ∈ frame.components, ∃ table,
        quantizers[component.quantizer]?.join = some table := by
  -- Checks go over pairs of a grid and a component, while fitting is said by place.
  have entry : ∀ (index : Nat) (grid : Grid) (component : Component),
      (grids.toList.zip frame.components)[index]? = some (grid, component) ↔
        grids[index]? = some grid ∧ frame.components[index]? = some component := by
    intro index grid component
    rw [List.getElem?_zip_eq_some, Array.getElem?_toList]
  rw [forM_eq_ok]
  constructor
  · intro checked
    have each : ∀ (index : Nat) (component : Component) (grid : Grid),
        frame.components[index]? = some component → grids[index]? = some grid →
          (grid.blocksWide = frame.blocksWide component ∧
            grid.blocksTall = frame.blocksTall component) ∧
          ∃ table, quantizers[component.quantizer]?.join = some table :=
      fun index component grid found there => checkComponent_eq_ok.mp
        (checked _ (List.mem_of_getElem? ((entry index grid component).mpr ⟨there, found⟩)))
    refine ⟨⟨size, fun index component grid found there =>
      (each index component grid found there).1⟩, fun component member => ?_⟩
    obtain ⟨index, found⟩ := List.mem_iff_getElem?.mp member
    have inside : index < grids.size := by
      rw [size]
      exact (List.getElem?_eq_some_iff.mp found).1
    exact (each index component _ found (Array.getElem?_eq_getElem inside)).2
  · rintro ⟨fits, quantized⟩ ⟨grid, component⟩ member
    obtain ⟨index, there⟩ := List.mem_iff_getElem?.mp member
    obtain ⟨there, found⟩ := (entry index grid component).mp there
    exact checkComponent_eq_ok.mpr ⟨fits.grid index component grid found there,
      quantized component (List.mem_of_getElem? found)⟩

variable {parameters : CodingParameters} {width height : UInt16} {grids : Array Grid}
  {metadata : List Segment}

/-- An image built of given grids is well-formed, holds what it is given and is coded
sequentially. -/
theorem ofGrids_eq_ok {image : JpegImage}
    (built : ofGrids parameters width height grids metadata = .ok image) :
    Frame.build width height parameters.components false = .ok image.frame ∧
      image.grids = grids ∧ image.quantizers = parameters.quantizers ∧
      image.metadata = metadata ∧ image.WellFormed := by
  obtain ⟨frame, frameBuilt, rest⟩ := bind_eq_ok built
  have normal := Frame.normal_of_build frameBuilt
  split at rest
  · cases rest
  · rename_i size
    obtain ⟨_, checked, last⟩ := bind_eq_ok rest
    cases last
    obtain ⟨fits, quantized⟩ := (checks_iff (not_not.mp size)).mp checked
    exact ⟨frameBuilt, rfl, rfl, rfl, normal, fits, quantized⟩

theorem ofGrids_of_fits {frame : Frame}
    (built : Frame.build width height parameters.components false = .ok frame)
    (fits : frame.Fits grids)
    (quantized : ∀ component ∈ frame.components, ∃ table,
      parameters.quantizers[component.quantizer]?.join = some table) :
    ofGrids parameters width height grids metadata =
      .ok
        { frame := frame
          grids := grids
          quantizers := parameters.quantizers
          metadata := metadata } := by
  have checked := (checks_iff fits.size).mpr ⟨fits, quantized⟩
  unfold ofGrids
  rw [bind_of_ok built, if_neg (not_not.mpr fits.size), bind_of_ok checked]
  rfl

end JpegImage

end LosslessJpeg
