import LosslessJpeg.Proofs.Checked.Segments
import LosslessJpeg.Proofs.Transform.Placement

set_option autoImplicit false

/-!
Planning a transformation with numbers of 32 bits. A rectangle that lies inside of the image
keeps all of them small, however large the numbers asked for are.
-/

namespace LosslessJpeg

structure Region.Encodable (region : Region) : Prop where
  x : region.x < 2 ^ 32
  y : region.y < 2 ^ 32
  width : region.width < 2 ^ 32
  height : region.height < 2 ^ 32

def Directive.Encodable : Directive → Prop
  | .crop region => region.Encodable
  | .orient _ => True

namespace Checked

def geometryOf (frame : Frame) (grayscale : Bool) : Checked TransformError Geometry := do
  let geometry := Geometry.ofFrame frame grayscale
  fits 32 geometry.imcuWidth
  fits 32 geometry.imcuHeight
  pure geometry

def dividesAll : List Nat → Checked TransformError Unit
  | [] => pure ()
  | divisor :: rest => do
      divides divisor
      dividesAll rest

def tiles (most : Nat) (factors : List Nat) : Checked TransformError Bool :=
  if factors.length == 1 then
    pure true
  else do
    dividesAll factors
    pure (factors.all fun factor => most % factor == 0)

/-- The rest of an extent that a mirrored axis leaves. -/
def wholeImcus (mirrored : Bool) (extent imcu : Nat) (tiled : Bool) :
    Checked TransformError Bool :=
  if mirrored then do
    divides imcu
    pure (extent % imcu == 0 && tiled)
  else
    pure true

def requestPlan (geometry : Geometry) (directive : Directive) (options : TransformOptions) :
    Checked TransformError Plan := do
  let mapping := directive.mapping
  let across ← tiles geometry.maxAcross (geometry.sampling.map (·.across))
  let down ← tiles geometry.maxDown (geometry.sampling.map (·.down))
  let width := Plan.oriented mapping geometry.width geometry.height
  let height := Plan.oriented mapping geometry.height geometry.width
  let imcuWidth := Plan.oriented mapping geometry.imcuWidth geometry.imcuHeight
  let imcuHeight := Plan.oriented mapping geometry.imcuHeight geometry.imcuWidth
  let wholeX ← wholeImcus mapping.mirrorX width imcuWidth (Plan.oriented mapping across down)
  let wholeY ← wholeImcus mapping.mirrorY height imcuHeight (Plan.oriented mapping down across)
  if options.perfect && !(wholeX && wholeY) then
    fail (.unsupportedGeometry
      (.imperfect directive geometry.width geometry.height imcuWidth imcuHeight))
  else
    pure
      { mapping := mapping
        transformedWidth := width
        transformedHeight := height
        imcuWidth := imcuWidth
        imcuHeight := imcuHeight
        perfect := wholeX && wholeY
        separateBuffer := mapping.transpose || Plan.isCrop directive }

def trimmed (trim mirrored : Bool) (extent imcu : Nat) : Checked TransformError Nat :=
  if trim && mirrored && imcu ≤ extent then do
    divides imcu
    covers extent (extent % imcu)
    pure (extent - extent % imcu)
  else
    pure extent

def rounded (trim : Bool) (span imcu : Nat) : Checked TransformError Nat :=
  if trim then do
    divides imcu
    covers span (span % imcu)
    pure (max (span - span % imcu) imcu)
  else do
    divides imcu
    fits 32 (ceilDiv span imcu * imcu)
    pure (ceilDiv span imcu * imcu)

def cropAxis (options : TransformOptions) (axis : Axis) (offset extent limit imcu : Nat) :
    Checked TransformError (Nat × Nat) := do
  divides imcu
  covers offset (offset % imcu)
  let snapped := offset - offset % imcu
  if options.perfect && snapped != offset then
    fail (.unsupportedGeometry (.misalignedOffset axis offset imcu))
  else do
    covers offset snapped
    let span := extent + (offset - snapped)
    fits 32 span
    covers limit snapped
    let available := limit - snapped
    if options.perfect && span % imcu != 0 && span != available then
      fail (.unsupportedGeometry (.misalignedExtent axis extent))
    else do
      let extended ← rounded options.trim span imcu
      pure (min extended available, snapped)

/-- Whether an extent is not empty and ends inside the image, in numbers of 64 bits. -/
def within (offset extent limit : Nat) : Checked TransformError Bool :=
  if 0 < extent then do
    fits 64 (offset + extent)
    pure (offset + extent ≤ limit)
  else
    pure false

def placeCrop (plan : Plan) (geometry : Geometry) (options : TransformOptions)
    (region : Region) : Checked TransformError Placement := do
  let insideX ← within region.x region.width geometry.width
  let insideY ← within region.y region.height geometry.height
  if insideX && insideY then do
    let (width, xOffset) ←
      cropAxis options .x region.x region.width geometry.width plan.imcuWidth
    let (height, yOffset) ←
      cropAxis options .y region.y region.height geometry.height plan.imcuHeight
    pure
      { width := width
        height := height
        xOffset := xOffset
        yOffset := yOffset }
  else
    fail (.unsupportedGeometry (.outside region geometry.width geometry.height))

def place (plan : Plan) (geometry : Geometry) (options : TransformOptions) :
    Directive → Checked TransformError Placement
  | .crop region => placeCrop plan geometry options region
  | .orient _ => do
      let width ← trimmed options.trim plan.mapping.mirrorX plan.transformedWidth plan.imcuWidth
      let height ←
        trimmed options.trim plan.mapping.mirrorY plan.transformedHeight plan.imcuHeight
      pure
        { width := width
          height := height
          xOffset := 0
          yOffset := 0 }

def leavesPartialEdge (plan : Plan) (placement : Placement) : Checked TransformError Bool := do
  let wholeX ← wholeImcus plan.mapping.mirrorX placement.width plan.imcuWidth true
  let wholeY ← wholeImcus plan.mapping.mirrorY placement.height plan.imcuHeight true
  pure (!wholeX || !wholeY)

/-! ### The same plan -/

theorem imcu_le (frame : Frame) (grayscale : Bool) :
    (Geometry.ofFrame frame grayscale).imcuWidth ≤ 32 ∧
      (Geometry.ofFrame frame grayscale).imcuHeight ≤ 32 := by
  have across := frame.maxAcross_le
  have down := frame.maxDown_le
  unfold Geometry.ofFrame
  dsimp only
  constructor
  · split_ifs <;> omega
  · split_ifs <;> omega

theorem geometryOf_eq (frame : Frame) (grayscale : Bool) :
    geometryOf frame grayscale = .ok (Geometry.ofFrame frame grayscale) := by
  have bounds := imcu_le frame grayscale
  unfold geometryOf
  rw [bind_of_ok (fits_of_lt (by omega)), bind_of_ok (fits_of_lt (by omega))]
  rfl

private theorem dividesAll_of_ne {divisors : List Nat}
    (nonzero : ∀ divisor ∈ divisors, divisor ≠ 0) : dividesAll divisors = .ok () := by
  induction divisors with
  | nil => rfl
  | cons divisor rest inductionHypothesis =>
      rw [dividesAll, bind_of_ok (divides_of_ne (nonzero divisor List.mem_cons_self))]
      exact inductionHypothesis fun other member =>
        nonzero other (List.mem_cons_of_mem divisor member)

private theorem tiles_eq (most : Nat) {factors : List Nat}
    (nonzero : ∀ factor ∈ factors, factor ≠ 0) :
    tiles most factors =
      .ok (factors.length == 1 || factors.all fun factor => most % factor == 0) := by
  unfold tiles
  cases factors.length == 1 with
  | true => rfl
  | false =>
      rw [if_neg Bool.false_ne_true, bind_of_ok (dividesAll_of_ne nonzero)]
      rfl

private theorem wholeImcus_eq {imcu : Nat} (positive : 0 < imcu) (mirrored : Bool) (extent : Nat)
    (tiled : Bool) :
    wholeImcus mirrored extent imcu tiled =
      .ok (!mirrored || (extent % imcu == 0 && tiled)) := by
  unfold wholeImcus
  cases mirrored with
  | false => rfl
  | true =>
      rw [if_pos rfl, bind_of_ok (divides_of_ne (Nat.ne_of_gt positive))]
      rfl

theorem requestPlan_eq (frame : Frame) (grayscale : Bool) (directive : Directive)
    (options : TransformOptions) :
    requestPlan (Geometry.ofFrame frame grayscale) directive options =
      of (Plan.make (Geometry.ofFrame frame grayscale) directive options) := by
  have sampled (factors : SamplingFactors)
      (member : factors ∈ (Geometry.ofFrame frame grayscale).sampling) :
      factors.across ≠ 0 ∧ factors.down ≠ 0 := by
    obtain ⟨component, kept, rfl⟩ := List.mem_map.mp member
    have admissible := frame.admissible component (List.mem_of_mem_take kept)
    exact ⟨Nat.ne_of_gt admissible.1, Nat.ne_of_gt admissible.2.2.1⟩
  obtain ⟨imcuWide, imcuTall⟩ := Geometry.imcu_pos frame grayscale
  -- That no factor is zero is all that the divisions need of the geometry.
  generalize Geometry.ofFrame frame grayscale = geometry at *
  have across : tiles geometry.maxAcross (geometry.sampling.map (·.across)) =
      .ok geometry.tilesAcross := by
    rw [tiles_eq, List.length_map, List.all_map]
    · rfl
    · intro factor member
      obtain ⟨factors, listed, rfl⟩ := List.mem_map.mp member
      exact (sampled factors listed).1
  have down : tiles geometry.maxDown (geometry.sampling.map (·.down)) =
      .ok geometry.tilesDown := by
    rw [tiles_eq, List.length_map, List.all_map]
    · rfl
    · intro factor member
      obtain ⟨factors, listed, rfl⟩ := List.mem_map.mp member
      exact (sampled factors listed).2
  unfold requestPlan Plan.make
  dsimp only
  rw [bind_of_ok across, bind_of_ok down,
    bind_of_ok (wholeImcus_eq (Plan.oriented_pos _ imcuWide imcuTall) _ _ _),
    bind_of_ok (wholeImcus_eq (Plan.oriented_pos _ imcuTall imcuWide) _ _ _)]
  split
  · rfl
  · rfl

private theorem trimmed_eq {imcu : Nat} (positive : 0 < imcu) (trim mirrored : Bool)
    (extent : Nat) :
    trimmed trim mirrored extent imcu = .ok (Plan.trimmed trim mirrored extent imcu) := by
  unfold trimmed Plan.trimmed
  split
  · rw [bind_of_ok (divides_of_ne (Nat.ne_of_gt positive)),
      bind_of_ok (covers_of_le (Nat.mod_le extent imcu))]
    rfl
  · rfl

private theorem rounded_eq {span imcu : Nat} (positive : 0 < imcu) (few : imcu ≤ 32)
    (small : span < 2 ^ 31) (trim : Bool) :
    rounded trim span imcu =
      .ok (if trim then max (span - span % imcu) imcu else ceilDiv span imcu * imcu) := by
  have whole : ceilDiv span imcu * imcu < 2 ^ 32 := by
    have below := Nat.div_mul_le_self (span + imcu - 1) imcu
    unfold ceilDiv
    omega
  unfold rounded
  split
  · rw [bind_of_ok (divides_of_ne (Nat.ne_of_gt positive)),
      bind_of_ok (covers_of_le (Nat.mod_le span imcu))]
    rfl
  · rw [bind_of_ok (divides_of_ne (Nat.ne_of_gt positive)), bind_of_ok (fits_of_lt whole)]
    rfl

/-- A rectangle inside of the image has small numbers only. -/
private theorem cropAxis_eq {options : TransformOptions} {axis : Axis}
    {offset extent limit imcu : Nat} (positive : 0 < imcu) (few : imcu ≤ 32)
    (asked : Plan.fits offset extent limit = true) (small : limit < 65536) :
    cropAxis options axis offset extent limit imcu =
      of (Plan.cropAxis options axis offset extent limit imcu) := by
  obtain ⟨nonempty, inside⟩ : 0 < extent ∧ offset + extent ≤ limit := by
    simpa [Plan.fits] using asked
  have below := Nat.mod_le offset imcu
  unfold cropAxis Plan.cropAxis
  dsimp only
  rw [bind_of_ok (divides_of_ne (Nat.ne_of_gt positive)), bind_of_ok (covers_of_le below)]
  split
  · rfl
  · rw [bind_of_ok (covers_of_le (by omega)), bind_of_ok (fits_of_lt (by omega)),
      bind_of_ok (covers_of_le (by omega))]
    split
    · rfl
    · rw [bind_of_ok (rounded_eq positive few (by omega) options.trim)]
      rfl

private theorem within_eq {offset extent : Nat} (offsetSmall : offset < 2 ^ 32)
    (extentSmall : extent < 2 ^ 32) (limit : Nat) :
    within offset extent limit = .ok (Plan.fits offset extent limit) := by
  unfold within Plan.fits
  split
  · rename_i nonempty
    rw [bind_of_ok (fits_of_lt (by omega)), decide_eq_true nonempty]
    rfl
  · rename_i empty
    rw [decide_eq_false empty]
    rfl

private theorem placeCrop_eq {plan : Plan} {geometry : Geometry} {options : TransformOptions}
    (imcuWide : 0 < plan.imcuWidth ∧ plan.imcuWidth ≤ 32)
    (imcuTall : 0 < plan.imcuHeight ∧ plan.imcuHeight ≤ 32)
    (narrow : geometry.width < 65536) (low : geometry.height < 65536) {region : Region}
    (encodable : region.Encodable) :
    placeCrop plan geometry options region = of (plan.placeCrop geometry options region) := by
  unfold placeCrop Plan.placeCrop
  rw [bind_of_ok (within_eq encodable.x encodable.width _),
    bind_of_ok (within_eq encodable.y encodable.height _)]
  split
  · rename_i asked
    rw [Bool.and_eq_true] at asked
    rw [cropAxis_eq imcuWide.1 imcuWide.2 asked.1 narrow,
      cropAxis_eq imcuTall.1 imcuTall.2 asked.2 low, of_bind]
    congr 1
    funext ⟨width, xOffset⟩
    dsimp only
    rw [of_bind]
    rfl
  · rfl

section

variable {frame : Frame} {grayscale : Bool} {directive : Directive} {options : TransformOptions}
  {plan : Plan}

theorem planned_imcu
    (planned : Plan.make (Geometry.ofFrame frame grayscale) directive options = .ok plan) :
    (0 < plan.imcuWidth ∧ plan.imcuWidth ≤ 32) ∧ 0 < plan.imcuHeight ∧ plan.imcuHeight ≤ 32 := by
  obtain ⟨-, -, -, imcuWidth, imcuHeight⟩ := Plan.make_eq_ok planned
  obtain ⟨wide, tall⟩ := Geometry.imcu_pos frame grayscale
  obtain ⟨fewWide, fewTall⟩ := imcu_le frame grayscale
  rw [imcuWidth, imcuHeight]
  unfold Plan.oriented
  split
  · exact ⟨⟨tall, fewTall⟩, wide, fewWide⟩
  · exact ⟨⟨wide, fewWide⟩, tall, fewTall⟩

/-- Placing the result comes to no fault, whatever rectangle is asked for. -/
theorem place_eq
    (planned : Plan.make (Geometry.ofFrame frame grayscale) directive options = .ok plan)
    (encodable : directive.Encodable) :
    place plan (Geometry.ofFrame frame grayscale) options directive =
      of (plan.place (Geometry.ofFrame frame grayscale) options directive) := by
  obtain ⟨imcuWide, imcuTall⟩ := planned_imcu planned
  cases directive with
  | crop region =>
      exact placeCrop_eq imcuWide imcuTall frame.width.toNat_lt frame.height.toNat_lt encodable
  | orient orientation =>
      rw [place, bind_of_ok (trimmed_eq imcuWide.1 _ _ _),
        bind_of_ok (trimmed_eq imcuTall.1 _ _ _)]
      rfl

theorem leavesPartialEdge_eq
    (planned : Plan.make (Geometry.ofFrame frame grayscale) directive options = .ok plan)
    (placement : Placement) :
    leavesPartialEdge plan placement = .ok (plan.leavesPartialEdge placement) := by
  obtain ⟨imcuWide, imcuTall⟩ := planned_imcu planned
  rw [leavesPartialEdge, bind_of_ok (wholeImcus_eq imcuWide.1 _ _ _),
    bind_of_ok (wholeImcus_eq imcuTall.1 _ _ _)]
  simp [Plan.leavesPartialEdge, pure, Except.pure, bne]

end

end Checked

end LosslessJpeg
