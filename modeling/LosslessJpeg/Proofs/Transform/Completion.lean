import LosslessJpeg.Proofs.Transform.Placement

set_option autoImplicit false

/-!
A transformation that is planned and whose source is read is brought to an end: its result
has a size that a frame can state, grids and tables that go together, codes for all of its
symbols and segments that are not too long.
-/

namespace LosslessJpeg

theorem remap_getElem? {grids : Array Grid} {result : Frame} {index : Nat}
    {component : Component} {grid : Grid} (plan : Plan) (placement : Placement)
    (found : result.components[index]? = some component) (there : grids[index]? = some grid) :
    (remap grids plan placement result)[index]? =
      some (Grid.ofFn (result.blocksWide component) (result.blocksTall component)
        ((BlockWindow.make plan placement component).block grid)) := by
  have listed : grids.toList[index]? = some grid := by
    rw [Array.getElem?_toList, there]
  have entry : (result.components.zip grids.toList)[index]? = some (component, grid) :=
    List.getElem?_zip_eq_some.mpr ⟨found, listed⟩
  unfold remap
  rw [List.getElem?_toArray, List.getElem?_map, entry, Option.map_some]

namespace Transformation

variable {transformation : Transformation} {source result : Frame}

theorem Places.fits (places : transformation.Places source result)
    (normal : soleComponent source.components = source.components) {grids : Array Grid}
    (fits : source.Fits grids) :
    result.Fits (remap grids transformation.plan transformation.placement result) where
  size := by
    have few := places.length_le normal
    unfold remap
    rw [List.size_toArray, List.length_map, List.length_zip, Array.length_toList, fits.size]
    omega
  grid := by
    intro index component moved found there
    obtain ⟨kept, listed, -⟩ := places.component_cases normal found
    obtain ⟨grid, given, -⟩ := fits.exists_grid listed
    rw [remap_getElem? _ _ found given] at there
    cases there
    exact ⟨rfl, rfl⟩

end Transformation

theorem CodingParameters.firstOnly_get {parameters : CodingParameters} {first : Component}
    (listed : parameters.components[0]? = some first) (id : Fin 4) :
    parameters.firstOnly.quantizers.get id =
      if id.val = first.quantizer % 4 then parameters.quantizers.get id else none := by
  unfold firstOnly
  split
  · rename_i none
    rw [none] at listed
    cases listed
  · rename_i other rest found
    rw [found] at listed
    cases listed
    exact get_ofFn _ id

theorem CodingParameters.firstOnly_join {parameters : CodingParameters} {first : Component}
    (listed : parameters.components[0]? = some first) (known : first.quantizer < 4) :
    parameters.firstOnly.quantizers[first.quantizer]?.join =
      parameters.quantizers[first.quantizer]?.join := by
  have own := getElem?_join_val parameters.firstOnly.quantizers ⟨first.quantizer, known⟩
  rw [firstOnly_get listed, if_pos (Nat.mod_eq_of_lt known).symm] at own
  exact own.trans (getElem?_join_val parameters.quantizers ⟨first.quantizer, known⟩).symm

namespace Transformation

variable {transformation : Transformation}

theorem parameters_quantizers (transformation : Transformation) (parameters : CodingParameters) :
    (transformation.parameters parameters).quantizers =
      QuantizerSlots.oriented transformation.plan.mapping.transpose
        (if transformation.grayscale then parameters.firstOnly else parameters).quantizers := by
  unfold Transformation.parameters QuantizerSlots.oriented CodingParameters.transposed
  dsimp only
  cases transformation.plan.mapping.transpose with
  | false => rfl
  | true => rfl

theorem Places.quantized {source : JpegImage} {result : Frame}
    (places : transformation.Places source.frame result) (wellFormed : source.WellFormed) :
    ∀ component ∈ result.components, ∃ table,
      (transformation.parameters source.parameters).quantizers[component.quantizer]?.join =
        some table := by
  intro component member
  obtain ⟨index, found⟩ := List.mem_iff_getElem?.mp member
  obtain ⟨kept, listed, same, layout⟩ := places.component_cases wellFormed.normal found
  have inSource := List.mem_of_getElem? listed
  have known := (source.frame.admissible kept inSource).2.2.2.2
  obtain ⟨table, slot⟩ := wellFormed.quantized kept inSource
  have present : (if transformation.grayscale then source.parameters.firstOnly
      else source.parameters).quantizers[kept.quantizer]?.join = some table := by
    rcases layout with ⟨coloured, -⟩ | ⟨grayscale, rfl, -⟩
    · rw [if_neg (by simp [coloured])]
      exact slot
    · rw [if_pos grayscale, CodingParameters.firstOnly_join listed known]
      exact slot
  rw [same, parameters_quantizers, QuantizerSlots.oriented_join _ _ known, present]
  exact ⟨_, rfl⟩

end Transformation

namespace Transformation

variable {directive : Directive} {options : TransformOptions}
  {transformation : Transformation} {source : JpegImage}

theorem exists_image (wellFormed : source.WellFormed)
    (made : make source.frame directive options = .ok transformation)
    (policy : MetadataPolicy) :
    ∃ result, transformation.apply policy source = .ok result ∧
      transformation.frame source.parameters = .ok result.frame ∧
      transformation.Places source.frame result.frame := by
  obtain ⟨frame, framed, places⟩ := exists_frame wellFormed.normal made
  exact ⟨_, (bind_of_ok framed).trans (writing_eq_ok.mpr (JpegImage.ofGrids_of_fits
    (frame_eq_ok framed).2.2 (places.fits wellFormed.normal wellFormed.fits)
    (places.quantized wellFormed))), framed, places⟩

theorem exists_result (sound : source.Sound)
    (made : make source.frame directive options = .ok transformation)
    (policy : MetadataPolicy) :
    ∃ result, transformation.apply policy source = .ok result ∧
      transformation.frame source.parameters = .ok result.frame ∧
      transformation.Places source.frame result.frame ∧ result.frame.Fits result.grids ∧
      ∀ segment ∈ result.metadata, segment.body.length ≤ 65533 := by
  obtain ⟨result, applied, framed, places⟩ := exists_image sound.toWellFormed made policy
  obtain ⟨-, -, -, metadata, wellFormed⟩ := apply_eq_ok applied
  refine ⟨result, applied, framed, places, wellFormed.fits, fun segment member => ?_⟩
  rw [metadata] at member
  exact (sound.metadata segment (MetadataPolicy.mem_of_mem_select member)).2

end Transformation

/-- A source that is read and planned for is transformed, if the counters of the encoder hold
the symbols of its result. -/
theorem exists_transformed {file : List UInt8} {header : FileHeader} {directive : Directive}
    {options : TransformOptions} {transformation : Transformation} {source : JpegImage}
    (headed : FileHeader.read file = .ok header)
    (made : Transformation.make header.frame directive options = .ok transformation)
    (read : JpegImage.ofHeader file header = .ok source)
    (few : ∀ result, transformation.frame source.parameters = .ok result →
      result.laterBlocks ≤ 2 ^ 26) :
    ∃ result bytes, transformation.Places source.frame result.frame ∧
      transformation.apply options.metadata source = .ok result ∧
      result.toBytes = .ok bytes ∧
      transform file directive options =
        .ok
          { bytes := bytes
            partialEdge := transformation.partialEdge directive } := by
  have sound := JpegImage.sound_of_ofHeader (FileHeader.sound_of_read headed) read
  have planned := made
  rw [← JpegImage.ofHeader_frame read] at planned
  obtain ⟨result, applied, framed, places, fits, short⟩ :=
    Transformation.exists_result sound planned options.metadata
  have later : ((result.grids.toList.drop 1).map fun grid => grid.blocks.size).sum ≤ 2 ^ 26 := by
    rw [fits.laterBlocks]
    exact few result.frame framed
  obtain ⟨bytes, written⟩ := JpegImage.toBytes_of_few fits later short
  refine ⟨result, bytes, places, applied, written, ?_⟩
  unfold transform
  rw [bind_of_ok (reading_eq_ok.mpr headed), bind_of_ok made,
    bind_of_ok (reading_eq_ok.mpr read), bind_of_ok applied,
    bind_of_ok (writing_eq_ok.mpr written)]
  rfl

/-! ### Failures -/

def TransformError.BeforeWriting : TransformError → Prop
  | .encodeFailure _ => False
  | _ => True

theorem beforeWriting_of_reading {α : Type} {step : Except CodecError α}
    {failure : TransformError} (failed : reading step = .error failure) :
    failure.BeforeWriting := by
  cases step with
  | ok value => cases failed
  | error codec =>
      cases failed
      unfold TransformError.ofReading
      split <;> trivial

namespace Plan

variable {geometry : Geometry} {options : TransformOptions} {failure : TransformError}

theorem beforeWriting_of_make {directive : Directive}
    (failed : make geometry directive options = .error failure) : failure.BeforeWriting := by
  unfold make at failed
  dsimp only at failed
  split at failed
  · cases failed
    trivial
  · cases failed

theorem beforeWriting_of_cropAxis {axis : Axis} {offset extent limit imcu : Nat}
    (failed : cropAxis options axis offset extent limit imcu = .error failure) :
    failure.BeforeWriting := by
  unfold cropAxis at failed
  dsimp only at failed
  split at failed
  · cases failed
    trivial
  · split at failed
    · cases failed
      trivial
    · cases failed

theorem beforeWriting_of_place {plan : Plan} {directive : Directive}
    (failed : plan.place geometry options directive = .error failure) :
    failure.BeforeWriting := by
  cases directive with
  | orient orientation => cases failed
  | crop region =>
      change plan.placeCrop geometry options region = .error failure at failed
      unfold placeCrop at failed
      split at failed
      · rcases bind_eq_error failed with across | ⟨_, -, rest⟩
        · exact beforeWriting_of_cropAxis across
        · rcases bind_eq_error rest with down | ⟨_, -, last⟩
          · exact beforeWriting_of_cropAxis down
          · cases last
      · cases failed
        trivial

end Plan

theorem Transformation.beforeWriting_of_make {frame : Frame} {directive : Directive}
    {options : TransformOptions} {failure : TransformError}
    (failed : make frame directive options = .error failure) : failure.BeforeWriting := by
  rcases bind_eq_error failed with colour | ⟨grayscale, -, rest⟩
  · unfold dropsColour at colour
    dsimp only at colour
    split at colour
    · cases colour
      trivial
    · cases colour
  · rcases bind_eq_error rest with planning | ⟨plan, -, rest⟩
    · exact Plan.beforeWriting_of_make planning
    · rcases bind_eq_error rest with placing | ⟨placement, -, last⟩
      · exact Plan.beforeWriting_of_place placing
      · cases last

/-- Writing never fails. Once the file is read and the request planned, the size of the result
is one that a frame can state, its parts go together, and all of it can be coded, if the
counters of the encoder hold the symbols of the components after the first. -/
theorem transform_writes {file : List UInt8} {directive : Directive} {options : TransformOptions}
    (few : ∀ header transformation source frame, FileHeader.read file = .ok header →
      Transformation.make header.frame directive options = .ok transformation →
      JpegImage.ofHeader file header = .ok source →
      transformation.frame source.parameters = .ok frame → frame.laterBlocks ≤ 2 ^ 26) :
    (∀ fault, transform file directive options ≠ .error (.encodeFailure fault)) ∧
      ∀ header transformation source, FileHeader.read file = .ok header →
        Transformation.make header.frame directive options = .ok transformation →
        JpegImage.ofHeader file header = .ok source →
          (0 < transformation.placement.width ∧ transformation.placement.width ≤ 65535) ∧
            (0 < transformation.placement.height ∧ transformation.placement.height ≤ 65535) ∧
            ∃ result bytes, transformation.apply options.metadata source = .ok result ∧
              result.toBytes = .ok bytes ∧
              transform file directive options =
                .ok
                  { bytes := bytes
                    partialEdge := transformation.partialEdge directive } := by
  constructor
  · intro fault failed
    have impossible : ¬ (TransformError.encodeFailure fault).BeforeWriting := id
    -- The steps up to reading the coefficients fail in other ways, and none after them fails.
    rcases bind_eq_error failed with reading | ⟨header, headed, rest⟩
    · exact impossible (beforeWriting_of_reading reading)
    · have headed := reading_eq_ok.mp headed
      rcases bind_eq_error rest with planning | ⟨transformation, made, rest⟩
      · exact impossible (Transformation.beforeWriting_of_make planning)
      · rcases bind_eq_error rest with decoding | ⟨source, read, -⟩
        · exact impossible (beforeWriting_of_reading decoding)
        · have read := reading_eq_ok.mp read
          obtain ⟨result, bytes, -, -, -, done⟩ := exists_transformed headed made read
            fun frame => few header transformation source frame headed made read
          rw [done] at failed
          cases failed
  · intro header transformation source headed made read
    obtain ⟨result, bytes, places, applied, written, done⟩ := exists_transformed headed made read
      fun frame => few header transformation source frame headed made read
    have width := result.frame.width.toNat_lt
    have height := result.frame.height.toNat_lt
    rw [places.width] at width
    rw [places.height] at height
    exact ⟨⟨places.across.nonempty, by omega⟩, ⟨places.down.nonempty, by omega⟩, result, bytes,
      applied, written, done⟩

/-- A file of 16x8 pixels whose first component has one block, and whose second component
has two. -/
def coarseFile : List UInt8 :=
  [0xFF, 0xD8, 0xFF, 0xDB, 0, 67, 0] ++ List.replicate 64 1 ++
    [0xFF, 0xC0, 0, 17, 8, 0, 8, 0, 16, 3, 1, 0x11, 0, 2, 0x21, 0, 3, 0x11, 0,
     0xFF, 0xC4, 0, 39,
     0x00, 0, 0, 0, 0, 0, 0, 0, 0, 2, 0, 0, 0, 0, 0, 0, 0, 0, 1,
     0x10, 0, 0, 0, 0, 0, 0, 0, 0, 1, 0, 0, 0, 0, 0, 0, 0, 0,
     0xFF, 0xDA, 0, 12, 3, 1, 0, 2, 0, 3, 0, 0, 63, 0,
     0x00, 0xC0, 0x00, 0x00, 0x00, 0x00, 0x00, 0x00, 0x00, 0x7F,
     0xFF, 0xD9]

def measured {α : Type} (file : List UInt8) (directive : Directive) (options : TransformOptions)
    (measure : Transformation → Frame → Frame → α) : Except TransformError (Nat × α) := do
  let header ← reading (FileHeader.read file)
  let transformation ← Transformation.make header.frame directive options
  let source ← reading (JpegImage.ofHeader file header)
  let frame ← transformation.frame source.parameters
  pure (frame.laterBlocks, measure transformation source.frame frame)

theorem measured_eq_ok {α : Type} {file : List UInt8} {directive : Directive}
    {options : TransformOptions} {measure : Transformation → Frame → Frame → α} {later : Nat}
    {value : α} (planned : measured file directive options measure = .ok (later, value)) :
    ∃ header transformation source frame, FileHeader.read file = .ok header ∧
      Transformation.make header.frame directive options = .ok transformation ∧
      JpegImage.ofHeader file header = .ok source ∧
      transformation.frame source.parameters = .ok frame ∧
      frame.laterBlocks = later ∧ measure transformation source.frame frame = value := by
  obtain ⟨header, headed, rest⟩ := bind_eq_ok planned
  obtain ⟨transformation, made, rest⟩ := bind_eq_ok rest
  obtain ⟨source, read, rest⟩ := bind_eq_ok rest
  obtain ⟨frame, framed, last⟩ := bind_eq_ok rest
  cases last
  exact ⟨header, transformation, source, frame, reading_eq_ok.mp headed, made,
    reading_eq_ok.mp read, framed, rfl, rfl⟩

theorem exists_transformed_of_measured {α : Type} {file : List UInt8} {directive : Directive}
    {options : TransformOptions} {measure : Transformation → Frame → Frame → α} {later : Nat}
    {value : α} (planned : measured file directive options measure = .ok (later, value))
    (few : later ≤ 2 ^ 26) :
    ∃ header transformation source result transformed, FileHeader.read file = .ok header ∧
      Transformation.make header.frame directive options = .ok transformation ∧
      JpegImage.ofHeader file header = .ok source ∧
      transformation.apply options.metadata source = .ok result ∧
      transform file directive options = .ok transformed ∧
      measure transformation source.frame result.frame = value := by
  obtain ⟨header, transformation, source, frame, headed, made, read, framed, rfl, measures⟩ :=
    measured_eq_ok planned
  obtain ⟨result, bytes, -, applied, -, done⟩ := exists_transformed headed made read
    fun other framed' => by
      cases framed.symm.trans framed'
      exact few
  cases framed.symm.trans (Transformation.apply_eq_ok applied).1
  exact ⟨header, transformation, source, result, _, headed, made, read, applied, done, measures⟩

theorem transform_writes_coarseFile : ∃ transformed,
    transform coarseFile (.orient .rotate90) {} = .ok transformed := by
  have planned : measured coarseFile (.orient .rotate90) {} (fun _ _ _ => ()) = .ok (3, ()) := by
    decide +kernel
  obtain ⟨header, transformation, source, frame, headed, made, read, framed, later, -⟩ :=
    measured_eq_ok planned
  have few : ∀ header transformation source frame, FileHeader.read coarseFile = .ok header →
      Transformation.make header.frame (.orient .rotate90) {} = .ok transformation →
      JpegImage.ofHeader coarseFile header = .ok source →
      transformation.frame source.parameters = .ok frame → frame.laterBlocks ≤ 2 ^ 26 := by
    intro header' transformation' source' frame' headed' made' read' framed'
    cases headed.symm.trans headed'
    cases made.symm.trans made'
    cases read.symm.trans read'
    cases framed.symm.trans framed'
    rw [later]
    decide
  obtain ⟨-, -, result, bytes, -, -, done⟩ :=
    (transform_writes few).2 header transformation source headed made read
  exact ⟨_, done⟩

end LosslessJpeg
