import LosslessJpeg.Proofs.Checked.Remapping

set_option autoImplicit false

/-!
A transformation step by step, from the bytes of a file to the grids of the result. No step
comes to a fault, whatever the file and the rectangle that is asked for: each gives what the
step of the model gives, or reports its failure.
-/

namespace LosslessJpeg

namespace Checked

structure Moved where
  transformation : Transformation
  partialEdge : Bool
  source : JpegImage
  frame : Frame
  grids : List Grid

def keptTable (alone : Bool) : List Component → Checked TransformError Unit
  | [] => pure ()
  | first :: _ => if alone then inside 4 (first.quantizer % 4) else pure ()

def turnedTables (transposed : Bool) : Checked TransformError Unit :=
  if transposed then frequencyBounds else pure ()

def parametersOf (transformation : Transformation) (source : CodingParameters) :
    Checked TransformError CodingParameters := do
  keptTable transformation.grayscale source.components
  turnedTables transformation.plan.mapping.transpose
  pure (transformation.parameters source)

/-- The steps of a transformation in their order, up to the grids of the result. -/
def moveBlocks (file : List UInt8) (directive : Directive) (options : TransformOptions) :
    Checked TransformError Moved := do
  let header ← renamed TransformError.ofReading (readHeader file)
  let grayscale ← of (Transformation.dropsColour header.frame options)
  let geometry ← geometryOf header.frame grayscale
  let plan ← requestPlan geometry directive options
  let placement ← place plan geometry options directive
  let partialEdge ← leavesPartialEdge plan placement
  let source ← renamed TransformError.ofReading (readCoefficients file header)
  let transformation : Transformation :=
    { grayscale := grayscale
      plan := plan
      placement := placement }
  let parameters ← parametersOf transformation source.parameters
  let (width, height) ← of transformation.size
  let frame ← renamed TransformError.ofWriting
    (buildFrame width height parameters.components false)
  let grids ← execute plan placement frame source.grids.toList
  pure
    { transformation := transformation
      partialEdge := partialEdge
      source := source
      frame := frame
      grids := grids }

def Moved.write (moved : Moved) (directive : Directive) (policy : MetadataPolicy) :
    Except TransformError Transformed := do
  let image ← writing
    (JpegImage.ofGrids (moved.transformation.parameters moved.source.parameters)
      moved.frame.width moved.frame.height moved.grids.toArray
      (policy.select moved.transformation.grayscale moved.source.metadata))
  let bytes ← writing image.toBytes
  pure
    { bytes := bytes
      partialEdge :=
        if moved.partialEdge then
          some
            { directive := directive
              width := moved.transformation.placement.width
              height := moved.transformation.placement.height
              imcuWidth := moved.transformation.plan.imcuWidth
              imcuHeight := moved.transformation.plan.imcuHeight }
        else
          none }

private theorem parametersOf_eq (transformation : Transformation) (source : CodingParameters) :
    parametersOf transformation source = .ok (transformation.parameters source) := by
  have kept : keptTable transformation.grayscale source.components = .ok () := by
    cases source.components with
    | nil => rfl
    | cons first rest =>
        rw [keptTable]
        split
        · exact inside_of_lt (Nat.mod_lt _ (by decide))
        · rfl
  have turned : turnedTables transformation.plan.mapping.transpose = .ok () := by
    unfold turnedTables
    split
    · exact frequencyBounds_eq
    · rfl
  rw [parametersOf, bind_of_ok kept, bind_of_ok turned]
  rfl

section

variable {file : List UInt8} {directive : Directive} {options : TransformOptions}

private def movedBlocks (file : List UInt8) (directive : Directive) (options : TransformOptions) :
    Except TransformError Moved := do
  let header ← reading (FileHeader.read file)
  let transformation ← Transformation.make header.frame directive options
  let source ← reading (JpegImage.ofHeader file header)
  let frame ← transformation.frame source.parameters
  pure
    { transformation := transformation
      partialEdge := transformation.plan.leavesPartialEdge transformation.placement
      source := source
      frame := frame
      grids := (remap source.grids transformation.plan transformation.placement frame).toList }

private theorem moveBlocks_eq (addressable : file.length < 2 ^ 63)
    (encodable : directive.Encodable) :
    moveBlocks file directive options = of (movedBlocks file directive options) := by
  unfold moveBlocks movedBlocks
  have headers := (readHeader_follows addressable).eq_of
  refine of_bind_congr (by rw [headers, renamed_of]; rfl) fun header read => ?_
  have sound := FileHeader.sound_of_read (reading_eq_ok.mp read)
  unfold Transformation.make
  simp only [bind_assoc, pure_bind]
  refine of_bind_congr rfl fun grayscale dropped => ?_
  rw [bind_of_ok (geometryOf_eq header.frame grayscale)]
  refine of_bind_congr (requestPlan_eq header.frame grayscale directive options)
    fun plan planned => ?_
  refine of_bind_congr (place_eq planned encodable) fun placement placed => ?_
  rw [bind_of_ok (leavesPartialEdge_eq planned placement)]
  have images := (readCoefficients_follows addressable header).eq_of
  refine of_bind_congr (by rw [images, renamed_of]; rfl) fun source gathered => ?_
  have same := JpegImage.ofHeader_frame (reading_eq_ok.mp gathered)
  have image := JpegImage.sound_of_ofHeader sound (reading_eq_ok.mp gathered)
  have made : Transformation.make source.frame directive options =
      .ok
        { grayscale := grayscale
          plan := plan
          placement := placement } := by
    rw [same, Transformation.make, bind_of_ok dropped, bind_of_ok planned, bind_of_ok placed]
    rfl
  obtain ⟨result, framed, places⟩ := Transformation.exists_frame image.normal made
  obtain ⟨⟨width, height⟩, sized, built⟩ := bind_eq_ok framed
  have moved := execute_eq places image.normal image.fits
  rw [bind_of_ok (parametersOf_eq _ _), framed, bind_of_ok rfl, sized, of_ok, bind_of_ok rfl]
  dsimp only
  dsimp only [writing] at built
  rw [buildFrame_eq, renamed_of, built, of_ok, bind_of_ok rfl, bind_of_ok moved]
  rfl

private theorem transform_eq_movedBlocks :
    transform file directive options =
      movedBlocks file directive options >>= fun moved =>
        moved.write directive options.metadata := by
  unfold transform movedBlocks Transformation.apply
  simp only [bind_assoc, pure_bind]
  rfl

/-- No step of a transformation comes to a fault, for any rectangle and any file that fits into
memory, where the sizes of objects have 63 bits. Each step ends well or with a failure, and what
is written is made of what they come to. -/
theorem transform_without_fault (addressable : file.length < 2 ^ 63)
    (encodable : directive.Encodable) :
    (∃ moved, moveBlocks file directive options = .ok moved ∧
        transform file directive options = moved.write directive options.metadata) ∨
      ∃ cause, moveBlocks file directive options = .error (.failure cause) ∧
        transform file directive options = .error cause := by
  rw [moveBlocks_eq addressable encodable, transform_eq_movedBlocks]
  cases movedBlocks file directive options with
  | ok moved => exact Or.inl ⟨moved, rfl, rfl⟩
  | error cause => exact Or.inr ⟨cause, rfl, rfl⟩

end

private theorem encodeFailure_of_writing {α : Type} {step : Except CodecError α}
    {cause : TransformError} (failed : writing step = .error cause) :
    ∃ fault, cause = .encodeFailure fault := by
  cases step with
  | ok value => cases failed
  | error failure =>
      cases failed
      exact ⟨.codec failure, rfl⟩

private theorem Moved.encodeFailure_of_write {moved : Moved} {directive : Directive}
    {policy : MetadataPolicy} {cause : TransformError}
    (failed : moved.write directive policy = .error cause) :
    ∃ fault, cause = .encodeFailure fault := by
  rcases bind_eq_error failed with building | ⟨image, -, rest⟩
  · exact encodeFailure_of_writing building
  · rcases bind_eq_error rest with coding | ⟨bytes, -, last⟩
    · exact encodeFailure_of_writing coding
    · cases last

theorem transform_without_fault_coarseFile :
    (∃ moved transformed, moveBlocks coarseFile (.orient .rotate90) {} = .ok moved ∧
        moved.write (.orient .rotate90) .all = .ok transformed) ∧
      moveBlocks coarseFile
          (.crop { x := 4294967295, y := 0, width := 4294967295, height := 1 }) {} =
        .error (.failure (.unsupportedGeometry
          (.outside { x := 4294967295, y := 0, width := 4294967295, height := 1 } 16 8))) := by
  have planned : measured coarseFile (.orient .rotate90) {} (fun _ _ _ => ()) = .ok (3, ()) := by
    decide +kernel
  obtain ⟨-, -, -, -, transformed, -, -, -, -, done, -⟩ :=
    exists_transformed_of_measured planned (by decide)
  have refused : transform coarseFile
      (.crop { x := 4294967295, y := 0, width := 4294967295, height := 1 }) {} =
        .error (.unsupportedGeometry
          (.outside { x := 4294967295, y := 0, width := 4294967295, height := 1 } 16 8)) := by
    decide +kernel
  constructor
  · rcases @transform_without_fault coarseFile (.orient .rotate90) {} (by decide +kernel) trivial
      with
      ⟨moved, ended, written⟩ | ⟨cause, -, failed⟩
    · exact ⟨moved, transformed, ended, written.symm.trans done⟩
    · cases failed.symm.trans done
  · rcases @transform_without_fault coarseFile
        (.crop { x := 4294967295, y := 0, width := 4294967295, height := 1 }) {}
        (by decide +kernel) ⟨by decide, by decide, by decide, by decide⟩ with
      ⟨moved, ended, written⟩ | ⟨cause, ended, failed⟩
    · obtain ⟨fault, impossible⟩ := Moved.encodeFailure_of_write (written.symm.trans refused)
      cases impossible
    · rw [ended, Except.error.inj (failed.symm.trans refused)]

end Checked

end LosslessJpeg
