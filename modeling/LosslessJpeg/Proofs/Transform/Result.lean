import LosslessJpeg.Proofs.Image.ReadInvariant
import LosslessJpeg.Proofs.Image.RoundTrip
import LosslessJpeg.Proofs.Block.Symmetry
import LosslessJpeg.Transform.File

set_option autoImplicit false

/-!
The image that a transformation makes of its source: its frame and its grids, tables
without zeros if those of the source have none, and no metadata that the source lacks.
-/

namespace LosslessJpeg

theorem reading_eq_ok {α : Type} {step : Except CodecError α} {value : α} :
    reading step = .ok value ↔ step = .ok value :=
  mapError_eq_ok

theorem writing_eq_ok {α : Type} {step : Except CodecError α} {value : α} :
    writing step = .ok value ↔ step = .ok value :=
  mapError_eq_ok

theorem QuantizerTable.Definable.transposed {table : QuantizerTable}
    (definable : table.Definable) : table.transposed.Definable := by
  intro position
  rw [QuantizerTable.transposed_get]
  exact definable _

namespace CodingParameters

variable {parameters : CodingParameters}

theorem transposed_get (id : Fin 4) :
    parameters.transposed.quantizers.get id =
      (parameters.quantizers.get id).map QuantizerTable.transposed :=
  get_map _ _ _

theorem definable_transposed (definable : QuantizerSlots.Definable parameters.quantizers) :
    QuantizerSlots.Definable parameters.transposed.quantizers := by
  intro id table found
  rw [transposed_get] at found
  obtain ⟨before, was, rfl⟩ := Option.map_eq_some_iff.mp found
  exact (definable id before was).transposed

theorem definable_firstOnly (definable : QuantizerSlots.Definable parameters.quantizers) :
    QuantizerSlots.Definable parameters.firstOnly.quantizers := by
  intro id table found
  unfold firstOnly at found
  split at found
  · exact definable id table found
  · dsimp only at found
    rw [get_ofFn] at found
    split at found
    · exact definable id table found
    · cases found

end CodingParameters

theorem MetadataPolicy.mem_of_mem_select {policy : MetadataPolicy} {grayscale : Bool}
    {segments : List Segment} {segment : Segment}
    (selected : segment ∈ policy.select grayscale segments) : segment ∈ segments :=
  (List.mem_filter.mp selected).1

namespace Transformation

variable {transformation : Transformation} {source result : JpegImage}
  {policy : MetadataPolicy}

theorem definable_parameters (definable : QuantizerSlots.Definable source.quantizers) :
    QuantizerSlots.Definable (transformation.parameters source.parameters).quantizers := by
  have kept : QuantizerSlots.Definable
      (if transformation.grayscale then source.parameters.firstOnly
        else source.parameters).quantizers := by
    split
    · exact CodingParameters.definable_firstOnly definable
    · exact definable
  unfold parameters
  dsimp only
  split
  · exact CodingParameters.definable_transposed kept
  · exact kept

theorem size_eq_ok {width height : UInt16}
    (sized : transformation.size = .ok (width, height)) :
    width.toNat = transformation.placement.width ∧
      height.toNat = transformation.placement.height := by
  unfold size at sized
  dsimp only at sized
  split at sized
  · cases sized
    rw [UInt16.toNat_ofNat', UInt16.toNat_ofNat']
    omega
  · cases sized

theorem frame_eq_ok {parameters : CodingParameters} {frame : Frame}
    (framed : transformation.frame parameters = .ok frame) :
    frame.width.toNat = transformation.placement.width ∧
      frame.height.toNat = transformation.placement.height ∧
      Frame.build frame.width frame.height (transformation.parameters parameters).components
        false = .ok frame := by
  obtain ⟨⟨width, height⟩, sized, rest⟩ := bind_eq_ok framed
  obtain ⟨sameWidth, sameHeight⟩ := size_eq_ok sized
  have built := writing_eq_ok.mp rest
  obtain ⟨rfl, rfl, -⟩ := Frame.build_eq_ok built
  exact ⟨sameWidth, sameHeight, built⟩

theorem apply_eq_ok (applied : transformation.apply policy source = .ok result) :
    transformation.frame source.parameters = .ok result.frame ∧
      result.grids = remap source.grids transformation.plan transformation.placement
        result.frame ∧
      result.quantizers = (transformation.parameters source.parameters).quantizers ∧
      result.metadata = policy.select transformation.grayscale source.metadata ∧
      result.WellFormed := by
  obtain ⟨frame, framed, rest⟩ := bind_eq_ok applied
  obtain ⟨built, grids, quantizers, metadata, wellFormed⟩ :=
    JpegImage.ofGrids_eq_ok (writing_eq_ok.mp rest)
  have same : frame = result.frame :=
    Except.ok.inj ((frame_eq_ok framed).2.2.symm.trans built)
  rw [same] at framed grids
  exact ⟨framed, grids, quantizers, metadata, wellFormed⟩

/-- The result can be read back from its file if the source was read from one and the
components can be told apart. -/
theorem recoverable_of_apply (sound : source.Sound)
    (applied : transformation.apply policy source = .ok result)
    (distinct : (result.frame.components.map (·.id)).Nodup) : result.Recoverable := by
  obtain ⟨framed, -, quantizers, metadata, wellFormed⟩ := apply_eq_ok applied
  refine { wellFormed with
    sequential := (Frame.build_eq_ok (frame_eq_ok framed).2.2).2.2.2
    distinct := distinct
    definable := fun component member table found => ?_
    metadata := fun segment member => ?_ }
  · rw [quantizers] at found
    have inside := (result.frame.admissible component member).2.2.2.2
    have slot := getElem?_join_val
      (transformation.parameters source.parameters).quantizers ⟨component.quantizer, inside⟩
    exact definable_parameters sound.definable _ table (slot.symm.trans found)
  · rw [metadata] at member
    exact (sound.metadata segment (MetadataPolicy.mem_of_mem_select member)).1

end Transformation

theorem transform_eq_ok {file : List UInt8} {directive : Directive}
    {options : TransformOptions} {transformed : Transformed}
    (done : transform file directive options = .ok transformed) :
    ∃ header transformation source result, FileHeader.read file = .ok header ∧
      Transformation.make header.frame directive options = .ok transformation ∧
      JpegImage.ofHeader file header = .ok source ∧
      transformation.apply options.metadata source = .ok result ∧
      result.toBytes = .ok transformed.bytes ∧
      transformed.partialEdge = transformation.partialEdge directive := by
  obtain ⟨header, headed, rest⟩ := bind_eq_ok done
  obtain ⟨transformation, made, rest⟩ := bind_eq_ok rest
  obtain ⟨source, read, rest⟩ := bind_eq_ok rest
  obtain ⟨result, applied, rest⟩ := bind_eq_ok rest
  obtain ⟨bytes, written, last⟩ := bind_eq_ok rest
  cases last
  exact ⟨header, transformation, source, result, reading_eq_ok.mp headed, made,
    reading_eq_ok.mp read, applied, writing_eq_ok.mp written, rfl⟩

end LosslessJpeg
