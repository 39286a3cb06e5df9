import LosslessJpeg.Proofs.Sequencing
import LosslessJpeg.Proofs.Transform.Result
import LosslessJpeg.WorkingFile

set_option autoImplicit false

/-!
The size of a resized file. If the codec keeps the sizes that it is given, then the new file
is of exactly the size that was asked for, and without leave to enlarge it is within its source.
-/

namespace LosslessJpeg

variable {Samples : SampleLayout → Type} {codec : SampleCodec Samples}
variable {file result : List UInt8} {width height : Nat} {options : ResizeOptions}

theorem pos_of_checkTarget (accepted : checkTarget width height = .ok ()) :
    0 < width ∧ 0 < height := by
  unfold checkTarget at accepted
  split at accepted
  · cases accepted
  · omega

theorem le_of_checkEnlargement {sourceWidth sourceHeight : Nat}
    (accepted : checkEnlargement options width height sourceWidth sourceHeight = .ok ())
    (within : options.allowEnlargement = false) :
    width ≤ sourceWidth ∧ height ≤ sourceHeight := by
  unfold checkEnlargement at accepted
  split at accepted
  · cases accepted
  · rename_i fits
    rw [within] at fits
    simp only [Bool.not_false, and_true, not_or, Nat.not_lt] at fits
    exact fits

namespace SampleCodec

/-- The sizes that a codec promises: scaling gives samples of the size asked for, and a file
states the size of the samples in it. -/
structure KeepsSize (codec : SampleCodec Samples) : Prop where
  scaled : ∀ {layout : SampleLayout} (samples : Samples layout) (filter : ResampleFilter)
    {width height : Nat}, 0 < width → 0 < height →
      codec.width (codec.scale samples width height filter) = width ∧
        codec.height (codec.scale samples width height filter) = height
  written : ∀ {layout : SampleLayout} (samples : Samples layout) {quality : Nat}
    {file : List UInt8}, codec.write samples quality = .ok file →
      dimensions file = .ok (codec.width samples, codec.height samples)

structure Resizes (codec : SampleCodec Samples) (file : List UInt8) (width height : Nat)
    (options : ResizeOptions) (result : List UInt8) (frame : Frame)
    (buffer : SampleBuffer Samples) : Prop where
  nonempty : 0 < width ∧ 0 < height
  probed : Frame.probe file = .ok frame
  walked : ∃ walk, walkFile file = .ok walk
  allowed : checkEnlargement options width height frame.width.toNat frame.height.toNat = .ok ()
  decoded : codec.read file = .ok buffer
  encoded : codec.write (codec.scale buffer.samples width height options.filter)
    (max 1 (min options.quality 100)) = .ok result

theorem resizes_of_resize (done : codec.resize file width height options = .ok result) :
    ∃ frame buffer, codec.Resizes file width height options result frame buffer := by
  obtain ⟨⟨⟩, target, done⟩ := bind_eq_ok done
  obtain ⟨frame, probed, done⟩ := bind_eq_ok done
  obtain ⟨walk, walked, done⟩ := bind_eq_ok done
  obtain ⟨⟨⟩, allowed, done⟩ := bind_eq_ok done
  obtain ⟨buffer, decoded, done⟩ := bind_eq_ok done
  obtain ⟨resampled, scaled, encoded⟩ := bind_eq_ok done
  obtain ⟨⟨⟩, -, same⟩ := bind_eq_ok scaled
  cases same
  exact ⟨frame, buffer,
    { nonempty := pos_of_checkTarget target
      probed := reading_eq_ok.mp probed
      walked := ⟨walk, reading_eq_ok.mp walked⟩
      allowed := allowed
      decoded := mapError_eq_ok.mp decoded
      encoded := mapError_eq_ok.mp encoded }⟩

theorem dimensions_of_resize (keeps : codec.KeepsSize)
    (done : codec.resize file width height options = .ok result) :
    dimensions result = .ok (width, height) := by
  obtain ⟨frame, buffer, course⟩ := resizes_of_resize done
  obtain ⟨wide, tall⟩ :=
    keeps.scaled buffer.samples options.filter course.nonempty.1 course.nonempty.2
  rw [keeps.written _ course.encoded, wide, tall]

theorem resize_le_dimensions (within : options.allowEnlargement = false)
    (done : codec.resize file width height options = .ok result) :
    ∃ sourceWidth sourceHeight, dimensions file = .ok (sourceWidth, sourceHeight) ∧
      width ≤ sourceWidth ∧ height ≤ sourceHeight := by
  obtain ⟨frame, buffer, course⟩ := resizes_of_resize done
  refine ⟨frame.width.toNat, frame.height.toNat, ?_, ?_⟩
  · exact bind_of_ok (reading_eq_ok.mpr course.probed)
  · exact le_of_checkEnlargement course.allowed within

end SampleCodec

theorem WorkingFile.dimensions_of_resize {working resized : WorkingFile}
    (keeps : codec.KeepsSize) (done : working.resize codec width height options = .ok resized) :
    resized.dimensions = .ok (width, height) := by
  obtain ⟨bytes, made, same⟩ := bind_eq_ok done
  cases same
  exact SampleCodec.dimensions_of_resize keeps made

end LosslessJpeg
