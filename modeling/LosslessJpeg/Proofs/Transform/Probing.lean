import LosslessJpeg.Operations
import LosslessJpeg.Proofs.Transform.CarriedMetadata

set_option autoImplicit false

/-!
Looking at the frame of a file without opening it. A probe stops at the first frame, where
opening a file goes on to its first scan. What opens has the frame that is found by a probe,
and a result has the size that is planned from this frame.
-/

namespace LosslessJpeg

theorem Frame.firstFrom_of_headerEntries {cursor stop : Cursor} {entries : List Entry}
    {frame : Frame} (headed : headerEntries cursor = .ok (entries, stop))
    (framed : FileHeader.frameOf entries = .ok (some frame)) : firstFrom cursor = .ok frame := by
  fun_induction headerEntries cursor generalizing entries stop with
  | case1 => cases headed
  | case2 cursor entry next found last =>
      cases headed
      -- A header that is over has no frame in its last entry.
      have noFrame : ∀ progressive, entry.kind ≠ .frame progressive := by
        intro progressive isFrame
        rcases last with isScan | isEnd
        · cases isScan.symm.trans isFrame
        · cases isEnd.symm.trans isFrame
      rw [FileHeader.frameOf_cons noFrame] at framed
      cases framed
  | case3 cursor entry next found inner inductionHypothesis =>
      obtain ⟨notScan, notEnd⟩ := not_or.mp inner
      obtain ⟨⟨later, place⟩, headedLater, last⟩ := bind_eq_ok headed
      cases last
      rw [firstFrom]
      split
      · rename_i failed
        cases found.symm.trans failed
      · rename_i entry' next' found'
        cases found.symm.trans found'
        split
        · rename_i isFrame
          exact FileHeader.ofBytes_of_frameOf_cons isFrame framed
        · rename_i isScan
          exact absurd isScan notScan
        · rename_i isEnd
          exact absurd isEnd notEnd
        · rename_i noFrame _ _
          rw [FileHeader.frameOf_cons noFrame] at framed
          exact inductionHypothesis headedLater framed

theorem Frame.probe_of_read {file : List UInt8} {header : FileHeader}
    (read : FileHeader.read file = .ok header) : probe file = .ok header.frame := by
  obtain ⟨walk, walked, -, framed, -⟩ := FileHeader.read_eq_ok read
  obtain ⟨⟨start, cursor⟩, started, rest⟩ := bind_eq_ok walked
  obtain ⟨⟨entries, stop⟩, headed, last⟩ := bind_eq_ok rest
  cases last
  have noFrame : ∀ progressive, start.kind ≠ .frame progressive := by
    rw [afterStart_kind started]
    nofun
  rw [FileHeader.frameOf_cons noFrame] at framed
  exact (bind_of_ok started).trans (firstFrom_of_headerEntries headed framed)

theorem JpegImage.probe_toBytes {image : JpegImage} {file : List UInt8}
    (normal : soleComponent image.frame.components = image.frame.components)
    (sequential : image.frame.progressive = false)
    (described : ∀ segment ∈ image.metadata, Marker.isMetadata segment.marker = true)
    (written : image.toBytes = .ok file) : Frame.probe file = .ok image.frame := by
  obtain ⟨tokens, -, rest⟩ := bind_eq_ok written
  obtain ⟨scan, -, rest⟩ := bind_eq_ok rest
  obtain ⟨chunks, segments, last⟩ := bind_eq_ok rest
  cases last
  rw [List.append_assoc]
  exact Frame.probe_of_read (read_written_header normal sequential described segments _)

theorem dimensions_of_probe {file : List UInt8} {frame : Frame}
    (probed : Frame.probe file = .ok frame) :
    dimensions file = .ok (frame.width.toNat, frame.height.toNat) :=
  bind_of_ok (reading_eq_ok.mpr probed)

theorem Transformation.make_grayscale_three {frame : Frame} {directive : Directive}
    {options : TransformOptions} {transformation : Transformation}
    (made : make frame directive options = .ok transformation) :
    transformation.grayscale = (options.grayscale && frame.components.length == 3) := by
  have grayscale := make_grayscale made
  obtain ⟨dropped, -, -⟩ := make_eq_ok made
  unfold dropsColour at dropped
  dsimp only at dropped
  rw [← grayscale] at dropped
  split at dropped
  · cases dropped
  · rename_i few
    rw [grayscale] at few ⊢
    cases wanted : options.grayscale with
    | false => rfl
    | true =>
        rw [wanted, Bool.true_and] at few
        by_cases three : frame.components.length = 3
        · rw [three]
          rfl
        · have one : frame.components.length = 1 := by simpa [three] using few
          rw [one]
          rfl

/-- What opens has the frame that a probe finds. The size that a probe finds in a result is
the one planned from the frame that a probe finds in its source. -/
theorem probe_agrees (file : List UInt8) :
    (∀ header, FileHeader.read file = .ok header → Frame.probe file = .ok header.frame) ∧
      ∀ directive options transformed,
        transform file directive options = .ok transformed →
          ∃ frame plan placement, Frame.probe file = .ok frame ∧
            Plan.make (Geometry.ofFrame frame
              (options.grayscale && frame.components.length == 3)) directive options =
                .ok plan ∧
            plan.place (Geometry.ofFrame frame
              (options.grayscale && frame.components.length == 3)) options directive =
                .ok placement ∧
            dimensions transformed.bytes = .ok (placement.width, placement.height) := by
  refine ⟨fun header => Frame.probe_of_read, fun directive options transformed done => ?_⟩
  obtain ⟨header, transformation, source, result, headed, made, read, applied, written, -⟩ :=
    transform_eq_ok done
  obtain ⟨-, planned, placed⟩ := Transformation.make_eq_ok made
  rw [Transformation.make_grayscale_three made] at planned placed
  obtain ⟨framed, -, -, metadata, wellFormed⟩ := Transformation.apply_eq_ok applied
  obtain ⟨width, height, built⟩ := Transformation.frame_eq_ok framed
  have sound := JpegImage.sound_of_ofHeader (FileHeader.sound_of_read headed) read
  have described : ∀ segment ∈ result.metadata, Marker.isMetadata segment.marker = true := by
    intro segment member
    rw [metadata] at member
    exact (sound.metadata segment (MetadataPolicy.mem_of_mem_select member)).1
  have probed := JpegImage.probe_toBytes wellFormed.normal (Frame.build_eq_ok built).2.2.2
    described written
  refine ⟨header.frame, transformation.plan, transformation.placement,
    Frame.probe_of_read headed, planned, placed, ?_⟩
  rw [dimensions_of_probe probed, width, height]

/-- Without colour the blocks of the first component are cut off one by one: of 16 columns a
perfect crop can take the last eight. -/
theorem probe_agrees_coarseFile : ∃ transformed,
    transform coarseFile (.crop { x := 8, y := 0, width := 8, height := 8 })
        { perfect := true, grayscale := true } = .ok transformed ∧
      dimensions coarseFile = .ok (16, 8) ∧
      dimensions transformed.bytes = .ok (8, 8) := by
  have planned : measured coarseFile (.crop { x := 8, y := 0, width := 8, height := 8 })
      { perfect := true, grayscale := true }
      (fun transformation source _ => (transformation.placement, source.width, source.height)) =
        .ok (0, ({ width := 8, height := 8, xOffset := 8, yOffset := 0 }, 16, 8)) := by
    decide +kernel
  obtain ⟨header, transformation, source, -, transformed, headed, made, read, -, done, same⟩ :=
    exists_transformed_of_measured planned (by decide)
  obtain ⟨sourceAgrees, resultAgrees⟩ := probe_agrees coarseFile
  have probed := sourceAgrees header headed
  obtain ⟨frame, plan, placement, probed', planned', placed, sized⟩ :=
    resultAgrees _ _ transformed done
  cases probed.symm.trans probed'
  obtain ⟨-, planning, placing⟩ := Transformation.make_eq_ok made
  rw [Transformation.make_grayscale_three made] at planning placing
  cases planning.symm.trans planned'
  cases placing.symm.trans placed
  obtain ⟨place, width, height⟩ : transformation.placement =
      { width := 8, height := 8, xOffset := 8, yOffset := 0 } ∧
        source.frame.width = 16 ∧ source.frame.height = 8 := by
    simpa using same
  rw [JpegImage.ofHeader_frame read] at width height
  refine ⟨transformed, done, ?_, ?_⟩
  · rw [dimensions_of_probe probed, width, height]
    rfl
  · rw [sized, place]

end LosslessJpeg
