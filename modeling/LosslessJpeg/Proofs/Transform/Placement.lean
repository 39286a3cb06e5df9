import LosslessJpeg.Proofs.Block.Sampling
import LosslessJpeg.Proofs.Transform.OrientedImage

set_option autoImplicit false

/-!
Where a transformation places its result: on each axis a part of the source that is not
empty and begins with an iMCU. Every placement that is planned has a frame.
-/

namespace LosslessJpeg

/-- Where a result lies on one axis of the transformed source, which consists of iMCUs of
a given size. A mirrored axis loses no whole iMCU. -/
structure AxisPlaced (mirror : Bool) (extent imcu offset size : Nat) : Prop where
  nonempty : 0 < size
  aligned : imcu ∣ offset
  inside : offset + size ≤ extent
  mirrored : mirror = true → offset = 0 ∧ extent / imcu * imcu ≤ size

namespace Plan

theorem placed_trimmed {extent imcu : Nat} (nonempty : 0 < extent) (positive : 0 < imcu)
    (trim mirror : Bool) :
    AxisPlaced mirror extent imcu 0 (trimmed trim mirror extent imcu) := by
  have whole := Nat.div_add_mod' extent imcu
  unfold trimmed
  split
  · rename_i cut
    have long : imcu ≤ extent := by simp_all
    have some : 0 < extent / imcu * imcu := Nat.mul_pos (Nat.div_pos long positive) positive
    exact ⟨by omega, Nat.dvd_zero imcu, by omega, fun _ => ⟨rfl, by omega⟩⟩
  · exact ⟨nonempty, Nat.dvd_zero imcu, by omega, fun _ => ⟨rfl, by omega⟩⟩

theorem placed_cropAxis {options : TransformOptions} {axis : Axis}
    {offset extent limit imcu size start : Nat} (positive : 0 < imcu)
    (asked : fits offset extent limit = true)
    (cut : cropAxis options axis offset extent limit imcu = .ok (size, start)) :
    AxisPlaced false limit imcu start size := by
  obtain ⟨nonempty, inside⟩ : 0 < extent ∧ offset + extent ≤ limit := by
    simpa [fits] using asked
  unfold cropAxis at cut
  dsimp only at cut
  split at cut
  · cases cut
  · split at cut
    · cases cut
    · cases cut
      have below := Nat.mod_le offset imcu
      refine ⟨?_, Nat.dvd_sub_mod offset, ?_, fun impossible => by cases impossible⟩
      · refine Nat.lt_min.mpr ⟨?_, by omega⟩
        split
        · exact Nat.lt_of_lt_of_le positive (Nat.le_max_right _ _)
        · refine Nat.lt_of_lt_of_le ?_ (le_ceilDiv_mul _ positive)
          omega
      · refine Nat.le_trans (Nat.add_le_add_left (Nat.min_le_right _ _) _) ?_
        omega

end Plan

namespace Transformation

variable {frame : Frame} {directive : Directive} {options : TransformOptions}
  {transformation : Transformation}

theorem make_eq_ok (made : make frame directive options = .ok transformation) :
    dropsColour frame options = .ok transformation.grayscale ∧
      Plan.make (Geometry.ofFrame frame transformation.grayscale) directive options =
        .ok transformation.plan ∧
      transformation.plan.place (Geometry.ofFrame frame transformation.grayscale) options
        directive = .ok transformation.placement := by
  obtain ⟨grayscale, kept, rest⟩ := bind_eq_ok made
  obtain ⟨plan, planned, rest⟩ := bind_eq_ok rest
  obtain ⟨placement, placed, last⟩ := bind_eq_ok rest
  cases last
  exact ⟨kept, planned, placed⟩

end Transformation

theorem Plan.make_eq_ok {geometry : Geometry} {directive : Directive}
    {options : TransformOptions} {plan : Plan}
    (planned : make geometry directive options = .ok plan) :
    plan.mapping = directive.mapping ∧
      plan.transformedWidth = oriented directive.mapping geometry.width geometry.height ∧
      plan.transformedHeight = oriented directive.mapping geometry.height geometry.width ∧
      plan.imcuWidth = oriented directive.mapping geometry.imcuWidth geometry.imcuHeight ∧
      plan.imcuHeight = oriented directive.mapping geometry.imcuHeight geometry.imcuWidth := by
  unfold make at planned
  dsimp only at planned
  split at planned
  · cases planned
  · cases planned
    exact ⟨rfl, rfl, rfl, rfl, rfl⟩

theorem Plan.transformed_eq {frame : Frame} {grayscale : Bool} {directive : Directive}
    {options : TransformOptions} {plan : Plan}
    (planned : make (Geometry.ofFrame frame grayscale) directive options = .ok plan) :
    plan.transformedWidth = (frame.reoriented plan.mapping.transpose).width.toNat ∧
      plan.transformedHeight = (frame.reoriented plan.mapping.transpose).height.toNat := by
  obtain ⟨mapped, wide, tall, -⟩ := make_eq_ok planned
  rw [wide, tall, mapped]
  exact ⟨(apply_ite UInt16.toNat _ _ _).symm, (apply_ite UInt16.toNat _ _ _).symm⟩

theorem Geometry.imcu_pos (frame : Frame) (grayscale : Bool) :
    0 < (ofFrame frame grayscale).imcuWidth ∧ 0 < (ofFrame frame grayscale).imcuHeight := by
  have across := frame.maxAcross_pos
  have down := frame.maxDown_pos
  unfold ofFrame
  dsimp only
  constructor
  · split_ifs <;> omega
  · split_ifs <;> omega

theorem Plan.oriented_pos (mapping : BlockMapping) {first second : Nat} (one : 0 < first)
    (other : 0 < second) : 0 < oriented mapping first second := by
  unfold oriented
  split
  · exact other
  · exact one

theorem Plan.placed_of_place {geometry : Geometry} {directive : Directive}
    {options : TransformOptions} {plan : Plan} {placement : Placement}
    (wide : 0 < geometry.width) (tall : 0 < geometry.height)
    (imcuWide : 0 < geometry.imcuWidth) (imcuTall : 0 < geometry.imcuHeight)
    (planned : make geometry directive options = .ok plan)
    (placed : plan.place geometry options directive = .ok placement) :
    AxisPlaced plan.mapping.mirrorX plan.transformedWidth plan.imcuWidth placement.xOffset
        placement.width ∧
      AxisPlaced plan.mapping.mirrorY plan.transformedHeight plan.imcuHeight placement.yOffset
        placement.height := by
  obtain ⟨mapping, width, height, imcuWidth, imcuHeight⟩ := make_eq_ok planned
  have imcuWidePlan : 0 < plan.imcuWidth := imcuWidth ▸ oriented_pos _ imcuWide imcuTall
  have imcuTallPlan : 0 < plan.imcuHeight := imcuHeight ▸ oriented_pos _ imcuTall imcuWide
  cases directive with
  | orient orientation =>
      cases placed
      exact ⟨placed_trimmed (width ▸ oriented_pos _ wide tall) imcuWidePlan _ _,
        placed_trimmed (height ▸ oriented_pos _ tall wide) imcuTallPlan _ _⟩
  | crop region =>
      change plan.placeCrop geometry options region = .ok placement at placed
      unfold placeCrop at placed
      split at placed
      · rename_i inside
        rw [Bool.and_eq_true] at inside
        obtain ⟨⟨sizeX, startX⟩, cutX, rest⟩ := bind_eq_ok placed
        obtain ⟨⟨sizeY, startY⟩, cutY, last⟩ := bind_eq_ok rest
        cases last
        rw [mapping, width, height]
        exact ⟨placed_cropAxis imcuWidePlan inside.1 cutX,
          placed_cropAxis imcuTallPlan inside.2 cutY⟩
      · cases placed

/-! ### The frame of the result -/

private theorem ofNat_ne_zero {count : Nat} (positive : 0 < count) (small : count < 65536) :
    UInt16.ofNat count ≠ 0 := by
  intro zero
  have same := congrArg UInt16.toNat zero
  rw [UInt16.toNat_ofNat', Nat.mod_eq_of_lt small] at same
  exact Nat.ne_of_gt positive same

theorem Frame.max_congr {first second : Frame} (same : first.components = second.components) :
    first.maxAcross = second.maxAcross ∧ first.maxDown = second.maxDown := by
  unfold maxAcross maxDown
  rw [same]
  exact ⟨rfl, rfl⟩

theorem Frame.exists_build {width height : UInt16} {named : List Component}
    (width_ne_zero : width ≠ 0) (height_ne_zero : height ≠ 0) (nonempty : named ≠ [])
    (few : named.length ≤ 4) (admissible : ∀ component ∈ named, component.Admissible)
    (progressive : Bool) : ∃ frame, build width height named progressive = .ok frame := by
  have sole : soleComponent named ≠ [] ∧ (soleComponent named).length ≤ 4 ∧
      ∀ component ∈ soleComponent named, component.Admissible := by
    match named with
    | [] => contradiction
    | [component] =>
        have known := (admissible component List.mem_cons_self).2.2.2.2
        refine ⟨List.cons_ne_nil _ _, few, fun other member => ?_⟩
        rw [List.mem_singleton.mp member]
        exact ⟨Nat.one_pos, by omega, Nat.one_pos, by omega, known⟩
    | _ :: _ :: _ => exact ⟨nonempty, few, admissible⟩
  have checked := checkComponents_of_admissible sole.2.2
  unfold build
  dsimp only
  rw [dif_pos ⟨width_ne_zero, height_ne_zero, sole.1, sole.2.1⟩]
  split
  · rename_i failure failed
    rw [checked] at failed
    cases failed
  · exact ⟨_, rfl⟩

namespace Transformation

def components (transformation : Transformation) (source : Frame) : List Component :=
  (if transformation.grayscale then source.components.take 1 else source.components).map
    (Component.oriented transformation.plan.mapping.transpose)

theorem parameters_components (transformation : Transformation) (source : JpegImage) :
    (transformation.parameters source.parameters).components =
      transformation.components source.frame := by
  have first : source.parameters.firstOnly.components = source.frame.components.take 1 := by
    unfold CodingParameters.firstOnly JpegImage.parameters
    dsimp only
    split
    · rename_i none
      exact absurd none source.frame.components_ne_nil
    · rename_i found
      rw [found]
      rfl
  have kept : (if transformation.grayscale then source.parameters.firstOnly
      else source.parameters).components =
        if transformation.grayscale then source.frame.components.take 1
        else source.frame.components := by
    split
    · exact first
    · rfl
  unfold parameters components
  rw [← kept]
  dsimp only
  cases transformation.plan.mapping.transpose with
  | false => exact (List.map_id'' (fun component => by rfl) _).symm
  | true => rfl

variable {source : Frame} {directive : Directive} {options : TransformOptions}
  {transformation : Transformation}

theorem components_length (transformation : Transformation) (source : Frame) :
    0 < (transformation.components source).length ∧
      (transformation.components source).length ≤ 4 := by
  have some := List.length_pos_iff.mpr source.components_ne_nil
  have few := source.components_length
  unfold components
  rw [List.length_map]
  split
  · rw [List.length_take]
    omega
  · exact ⟨some, few⟩

theorem components_admissible (transformation : Transformation) (source : Frame) :
    ∀ component ∈ transformation.components source, component.Admissible := by
  intro component member
  obtain ⟨before, listed, rfl⟩ := List.mem_map.mp member
  have inSource : before ∈ source.components := by
    split at listed
    · exact List.mem_of_mem_take listed
    · exact listed
  exact Component.admissible_oriented (source.admissible before inSource) _

/-- How a transformation lays out its result: every size that is planned is that of the
frames. -/
structure Places (transformation : Transformation) (source result : Frame) : Prop where
  width : result.width.toNat = transformation.placement.width
  height : result.height.toNat = transformation.placement.height
  components : result.components = soleComponent (transformation.components source)
  transformedWidth : transformation.plan.transformedWidth =
    (source.reoriented transformation.plan.mapping.transpose).width.toNat
  transformedHeight : transformation.plan.transformedHeight =
    (source.reoriented transformation.plan.mapping.transpose).height.toNat
  imcuWidth : transformation.plan.imcuWidth = result.mcuWidth
  imcuHeight : transformation.plan.imcuHeight = result.mcuHeight
  across : AxisPlaced transformation.plan.mapping.mirrorX transformation.plan.transformedWidth
    transformation.plan.imcuWidth transformation.placement.xOffset transformation.placement.width
  down : AxisPlaced transformation.plan.mapping.mirrorY transformation.plan.transformedHeight
    transformation.plan.imcuHeight transformation.placement.yOffset
    transformation.placement.height

theorem components_of_grayscale (source : Frame) (grayscale : transformation.grayscale = true) :
    ∃ first, source.components[0]? = some first ∧ transformation.components source =
      [first.oriented transformation.plan.mapping.transpose] := by
  unfold components
  rw [if_pos grayscale]
  match listed : source.components with
  | [] => exact absurd listed source.components_ne_nil
  | first :: _ => exact ⟨first, rfl, rfl⟩

theorem components_of_coloured (coloured : transformation.grayscale = false) :
    transformation.components source =
      (source.reoriented transformation.plan.mapping.transpose).components := by
  unfold components
  rw [if_neg (by simp [coloured])]
  rfl

/-- The iMCU that is planned with is the MCU of the result. -/
theorem imcu_eq (normal : soleComponent source.components = source.components)
    (planned : Plan.make (Geometry.ofFrame source transformation.grayscale) directive options =
      .ok transformation.plan) {width height : UInt16} {result : Frame}
    (built : Frame.build width height (transformation.components source) false = .ok result) :
    transformation.plan.imcuWidth = result.mcuWidth ∧
      transformation.plan.imcuHeight = result.mcuHeight := by
  obtain ⟨mapped, -, -, wide, tall⟩ := Plan.make_eq_ok planned
  have components := (Frame.build_eq_ok built).2.2.1
  rw [wide, tall, ← mapped]
  cases grayscale : transformation.grayscale with
  | true =>
      obtain ⟨first, -, kept⟩ := components_of_grayscale source grayscale
      rw [kept] at components
      obtain ⟨-, widest, tallest⟩ := result.unsampled_of_sole (Frame.normal_of_build built)
        components
      unfold Frame.mcuWidth Frame.mcuHeight
      rw [widest, tallest]
      unfold Plan.oriented
      exact ⟨ite_self _, ite_self _⟩
  | false =>
      obtain ⟨imcuWidth, imcuHeight⟩ := Geometry.ofFrame_imcu normal
      rw [components_of_coloured grayscale, Frame.normal_reoriented normal] at components
      have mcuWidth : result.mcuWidth =
          (source.reoriented transformation.plan.mapping.transpose).mcuWidth :=
        congrArg (· * 8) (Frame.max_congr components).1
      have mcuHeight : result.mcuHeight =
          (source.reoriented transformation.plan.mapping.transpose).mcuHeight :=
        congrArg (· * 8) (Frame.max_congr components).2
      rw [imcuWidth, imcuHeight, mcuWidth, mcuHeight, Frame.mcuWidth_reoriented,
        Frame.mcuHeight_reoriented]
      exact ⟨rfl, rfl⟩

theorem exists_frame_of_placed {image : JpegImage}
    (normal : soleComponent image.frame.components = image.frame.components)
    (planned : Plan.make (Geometry.ofFrame image.frame transformation.grayscale) directive
      options = .ok transformation.plan)
    (placed : transformation.plan.place (Geometry.ofFrame image.frame transformation.grayscale)
      options directive = .ok transformation.placement) :
    ∃ result, transformation.frame image.parameters = .ok result ∧
      transformation.Places image.frame result := by
  obtain ⟨transformedWidth, transformedHeight⟩ := Plan.transformed_eq planned
  obtain ⟨imcuWidePositive, imcuTallPositive⟩ := Geometry.imcu_pos image.frame
    transformation.grayscale
  obtain ⟨across, down⟩ := Plan.placed_of_place (toNat_pos image.frame.width_ne_zero)
    (toNat_pos image.frame.height_ne_zero) imcuWidePositive imcuTallPositive planned placed
  have widthSmall : transformation.placement.width < 65536 := by
    have inside := across.inside
    have bound := UInt16.toNat_lt
      (image.frame.reoriented transformation.plan.mapping.transpose).width
    omega
  have heightSmall : transformation.placement.height < 65536 := by
    have inside := down.inside
    have bound := UInt16.toNat_lt
      (image.frame.reoriented transformation.plan.mapping.transpose).height
    omega
  -- Neither extent exceeds that of the source, so a file can state both.
  have sized : transformation.size = .ok (UInt16.ofNat transformation.placement.width,
      UInt16.ofNat transformation.placement.height) := if_pos ⟨widthSmall, heightSmall⟩
  obtain ⟨nonempty, few⟩ := transformation.components_length image.frame
  obtain ⟨result, built⟩ := Frame.exists_build (ofNat_ne_zero across.nonempty widthSmall)
    (ofNat_ne_zero down.nonempty heightSmall) (List.length_pos_iff.mp nonempty) few
    (transformation.components_admissible image.frame) false
  have framed : transformation.frame image.parameters = .ok result := by
    unfold Transformation.frame
    rw [bind_of_ok sized, parameters_components]
    exact writing_eq_ok.mpr built
  obtain ⟨width, height, -⟩ := frame_eq_ok framed
  obtain ⟨imcuWidth, imcuHeight⟩ := imcu_eq normal planned built
  exact ⟨result, framed, width, height, (Frame.build_eq_ok built).2.2.1, transformedWidth,
    transformedHeight, imcuWidth, imcuHeight, across, down⟩

theorem exists_frame {image : JpegImage}
    (normal : soleComponent image.frame.components = image.frame.components)
    (made : make image.frame directive options = .ok transformation) :
    ∃ result, transformation.frame image.parameters = .ok result ∧
      transformation.Places image.frame result :=
  exists_frame_of_placed normal (make_eq_ok made).2.1 (make_eq_ok made).2.2

variable {result : Frame}

/-- The components of a result, each with the one of the source that it is made of. Sampling
factors change with the orientation, and where colour is dropped. -/
theorem Places.component_cases (places : transformation.Places source result)
    (normal : soleComponent source.components = source.components) {index : Nat}
    {component : Component} (found : result.components[index]? = some component) :
    ∃ kept, source.components[index]? = some kept ∧ component.quantizer = kept.quantizer ∧
      ((transformation.grayscale = false ∧
          component = kept.oriented transformation.plan.mapping.transpose ∧
          result.maxAcross =
            (source.reoriented transformation.plan.mapping.transpose).maxAcross ∧
          result.maxDown = (source.reoriented transformation.plan.mapping.transpose).maxDown) ∨
        (transformation.grayscale = true ∧ index = 0 ∧
          (component.across = 1 ∧ component.down = 1) ∧
          result.maxAcross = 1 ∧ result.maxDown = 1)) := by
  have components := places.components
  -- A component alone is sampled once, whatever it has been sampled by.
  cases grayscale : transformation.grayscale with
  | false =>
      rw [components_of_coloured grayscale, Frame.normal_reoriented normal] at components
      rw [components, Frame.reoriented_getElem?] at found
      obtain ⟨kept, listed, rfl⟩ := Option.map_eq_some_iff.mp found
      exact ⟨kept, listed, kept.oriented_quantizer _,
        Or.inl ⟨rfl, rfl, Frame.max_congr components⟩⟩
  | true =>
      obtain ⟨first, listed, alone⟩ := components_of_grayscale source grayscale
      rw [alone] at components
      have sole : soleComponent result.components = result.components := by
        rw [components, soleComponent_idem]
      have unsampled := result.unsampled_of_sole sole components
      rw [components] at found
      cases index with
      | zero =>
          cases found
          exact ⟨first, listed, first.oriented_quantizer _, Or.inr ⟨rfl, rfl, unsampled⟩⟩
      | succ index => cases found

theorem Places.length_le (places : transformation.Places source result)
    (normal : soleComponent source.components = source.components) :
    result.components.length ≤ source.components.length := by
  by_contra longer
  obtain ⟨kept, listed, -⟩ := places.component_cases normal
    (List.getElem?_eq_getElem (Nat.lt_of_not_le longer))
  rw [List.getElem?_eq_none (Nat.le_refl _)] at listed
  cases listed

end Transformation

end LosslessJpeg
