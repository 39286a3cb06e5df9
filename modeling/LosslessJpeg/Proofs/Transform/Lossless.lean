import LosslessJpeg.Proofs.Transform.OrientedImage

set_option autoImplicit false

/-!
When the file that a transformation writes holds the coefficients of its result. The reader
takes any coefficient of sixteen bits. The writer codes differences and AC coefficients of
at most fifteen bits, so that blocks in a new order can be too far apart for it.
-/

namespace LosslessJpeg

namespace Transformation

variable {transformation : Transformation} {source result : JpegImage}
  {policy : MetadataPolicy} {file : List UInt8}

theorem ofBytes_apply_iff (sound : source.Sound)
    (applied : transformation.apply policy source = .ok result)
    (distinct : (result.frame.components.map (·.id)).Nodup)
    (written : result.toBytes = .ok file) :
    (∃ image, JpegImage.ofBytes file = .ok image ∧ image.grids = result.grids) ↔
      Representable result.frame result.grids := by
  have recoverable := recoverable_of_apply sound applied distinct
  obtain ⟨whole, rest⟩ := JpegImage.ofBytes_toBytes recoverable written
  rw [← whole]
  constructor
  · rintro ⟨image, read, grids⟩
    have same := rest image read
    rw [grids] at same
    rw [read, same]
    rfl
  · intro read
    exact ⟨_, read, rfl⟩

end Transformation

/-- The file of a transformation that succeeds holds the coefficients of its result exactly
if they are representable. -/
theorem transform_lossless_iff {file : List UInt8} {directive : Directive}
    {options : TransformOptions} {transformed : Transformed}
    (done : transform file directive options = .ok transformed) :
    ∃ header transformation source frame, FileHeader.read file = .ok header ∧
      Transformation.make header.frame directive options = .ok transformation ∧
      JpegImage.ofHeader file header = .ok source ∧
      transformation.frame source.parameters = .ok frame ∧
      ((frame.components.map (·.id)).Nodup →
        ((∃ image, JpegImage.ofBytes transformed.bytes = .ok image ∧
            image.grids =
              remap source.grids transformation.plan transformation.placement frame) ↔
          Representable frame
            (remap source.grids transformation.plan transformation.placement frame))) := by
  obtain ⟨header, transformation, source, result, headed, made, read, applied, written, -⟩ :=
    transform_eq_ok done
  have sound := JpegImage.sound_of_ofHeader (FileHeader.sound_of_read headed) read
  obtain ⟨framed, grids, -⟩ := Transformation.apply_eq_ok applied
  refine ⟨header, transformation, source, result.frame, headed, made, read, framed,
    fun distinct => ?_⟩
  rw [← grids]
  exact Transformation.ofBytes_apply_iff sound applied distinct written

private def steepFile : List UInt8 :=
  [0xFF, 0xD8, 0xFF, 0xDB, 0, 67, 0] ++ List.replicate 64 1 ++
    [0xFF, 0xC0, 0, 11, 8, 0, 8, 0, 16, 1, 1, 0x11, 0,
     0xFF, 0xC4, 0, 39,
     0x00, 0, 0, 0, 0, 0, 0, 0, 0, 2, 0, 0, 0, 0, 0, 0, 0, 1, 15,
     0x10, 0, 0, 0, 0, 0, 0, 0, 0, 1, 0, 0, 0, 0, 0, 0, 0, 0,
     0xFF, 0xDA, 0, 8, 1, 1, 0, 0, 63, 0,
     0x00, 0x00, 0x00, 0x10, 0x00, 0x00, 0x0F,
     0xFF, 0xD9]

private def steep : JpegImage :=
  JpegImage.grayPair false 1 (Block.zero.setIfInBounds 0 (-1))
    (Block.zero.setIfInBounds 0 (-32768))

private theorem ofBytes_steepFile : JpegImage.ofBytes steepFile = .ok steep := by
  decide +kernel

private theorem transform_steepFile (orientation : Orientation) :
    ∃ header transformation transformed, FileHeader.read steepFile = .ok header ∧
      Transformation.make header.frame (.orient orientation) {} = .ok transformation ∧
      JpegImage.ofHeader steepFile header = .ok steep ∧
      transformation.Covers steep.frame orientation.mapping ∧
      transform steepFile (.orient orientation) {} = .ok transformed ∧
      (steep.reoriented orientation.mapping).toBytes = .ok transformed.bytes := by
  have sound := JpegImage.sound_of_ofBytes ofBytes_steepFile
  have few : (((steep.reoriented orientation.mapping).grids.toList.drop 1).map
      fun grid => grid.blocks.size).sum ≤ 2 ^ 26 := by
    rw [JpegImage.blocks_reoriented sound.fits]
    decide
  obtain ⟨bytes, written⟩ := JpegImage.toBytes_of_few
    (sound.fits.reoriented orientation.mapping) few
    fun segment member => (sound.metadata segment member).2
  obtain ⟨header, transformation, headed, made, gathered, covers, done⟩ :=
    transform_orient ofBytes_steepFile written
  exact ⟨header, transformation, _, headed, made, gathered, covers, done, written⟩

theorem transform_lossless_iff_steep : ∃ transformed image,
    transform steepFile (.orient .identity) {} = .ok transformed ∧
      JpegImage.ofBytes transformed.bytes = .ok image ∧ image.grids = steep.grids := by
  obtain ⟨header, transformation, transformed, headed, made, gathered, covers, done, -⟩ :=
    transform_steepFile .identity
  obtain ⟨header', transformation', source, frame, headed', made', gathered', framed, whole⟩ :=
    transform_lossless_iff done
  cases headed.symm.trans headed'
  cases made.symm.trans made'
  cases gathered.symm.trans gathered'
  have sound := JpegImage.sound_of_ofBytes ofBytes_steepFile
  cases (covers.frame_eq sound.normal).symm.trans framed
  rw [covers.remap_eq sound.fits] at whole
  obtain ⟨image, read, grids⟩ := (whole (by decide)).mpr (by decide)
  exact ⟨transformed, image, done, read, grids.trans (by decide)⟩

/-- Mirrored from left to right the image loses its coefficients: from 0 to -32768 is farther
than any difference that the writer codes. -/
theorem transform_steepFile_lossy : ∃ header transformation source frame transformed,
    FileHeader.read steepFile = .ok header ∧
      Transformation.make header.frame (.orient .flipHorizontal) {} = .ok transformation ∧
      JpegImage.ofHeader steepFile header = .ok source ∧
      transformation.frame source.parameters = .ok frame ∧
      transform steepFile (.orient .flipHorizontal) {} = .ok transformed ∧
      ¬ ∃ image, JpegImage.ofBytes transformed.bytes = .ok image ∧
        image.grids =
          remap source.grids transformation.plan transformation.placement frame := by
  obtain ⟨header, transformation, transformed, headed, made, gathered, covers, done, written⟩ :=
    transform_steepFile .flipHorizontal
  have sound := JpegImage.sound_of_ofBytes ofBytes_steepFile
  have framed := covers.frame_eq sound.normal
  have applied := covers.apply_eq sound.toWellFormed
  refine ⟨header, transformation, steep, _, transformed, headed, made, gathered, framed, done, ?_⟩
  rw [covers.remap_eq sound.fits]
  exact mt (Transformation.ofBytes_apply_iff sound applied (by decide) written).mp (by decide)

end LosslessJpeg
