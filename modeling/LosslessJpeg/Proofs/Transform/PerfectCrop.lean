import LosslessJpeg.Proofs.Transform.AlignedCrop

set_option autoImplicit false

/-!
Crops that have to be perfect. Such a crop takes exactly the rectangle that it is asked for,
or it is refused: no offset moves down to an iMCU, and no extent grows.
-/

namespace LosslessJpeg

/-- Whether a stretch of an axis can be cut out as it is: some part of the axis that begins
with an iMCU, and that is made of whole iMCUs or reaches the edge of the image. -/
structure AxisExact (imcu limit offset extent : Nat) : Prop where
  nonempty : 0 < extent
  inside : offset + extent ≤ limit
  begins : imcu ∣ offset
  ends : imcu ∣ extent ∨ offset + extent = limit

instance (imcu limit offset extent : Nat) : Decidable (AxisExact imcu limit offset extent) :=
  decidable_of_iff
    (0 < extent ∧ offset + extent ≤ limit ∧ imcu ∣ offset ∧
      (imcu ∣ extent ∨ offset + extent = limit))
    ⟨fun ⟨nonempty, inside, begins, ends⟩ => ⟨nonempty, inside, begins, ends⟩,
      fun exact => ⟨exact.nonempty, exact.inside, exact.begins, exact.ends⟩⟩

def Region.Exact (region : Region) (geometry : Geometry) : Prop :=
  AxisExact geometry.imcuWidth geometry.width region.x region.width ∧
    AxisExact geometry.imcuHeight geometry.height region.y region.height

instance (region : Region) (geometry : Geometry) : Decidable (region.Exact geometry) :=
  inferInstanceAs (Decidable (_ ∧ _))

namespace Plan

def settleCrop (geometry : Geometry) (options : TransformOptions) (region : Region) :
    Except TransformError Placement := do
  let plan ← make geometry (.crop region) options
  plan.place geometry options (.crop region)

section

variable {imcu limit offset extent : Nat} {options : TransformOptions}

theorem cropAxis_of_exact (positive : 0 < imcu) (exact : AxisExact imcu limit offset extent)
    (whole : options.trim = false) (axis : Axis) :
    cropAxis options axis offset extent limit imcu = .ok (extent, offset) := by
  have still : offset - offset % imcu = offset := by
    rw [Nat.mod_eq_zero_of_dvd exact.begins, Nat.sub_zero]
  have inside := exact.inside
  unfold cropAxis
  dsimp only
  rw [still, Nat.sub_self, Nat.add_zero, whole, if_neg (by simp), if_neg Bool.false_ne_true]
  rcases exact.ends with units | edge
  · have rounded : ceilDiv extent imcu * imcu = extent := by
      obtain ⟨count, rfl⟩ := units
      rw [Nat.mul_comm imcu count, ceilDiv_mul_cancel _ positive]
    rw [Nat.mod_eq_zero_of_dvd units, rounded, Nat.min_eq_left (by omega), if_neg (by simp)]
  · have available : limit - offset = extent := by omega
    rw [available, Nat.min_eq_right (le_ceilDiv_mul extent positive), if_neg (by simp)]

theorem exact_of_cropAxis (perfect : options.perfect = true) {axis : Axis}
    (asked : fits offset extent limit = true) {settled : Nat × Nat}
    (cut : cropAxis options axis offset extent limit imcu = .ok settled) :
    AxisExact imcu limit offset extent := by
  obtain ⟨nonempty, inside⟩ : 0 < extent ∧ offset + extent ≤ limit := by
    simpa [fits] using asked
  unfold cropAxis at cut
  dsimp only at cut
  rw [perfect, Bool.true_and, Bool.true_and] at cut
  split at cut
  · cases cut
  · rename_i unmoved
    have still : offset - offset % imcu = offset := by simpa using unmoved
    rw [still, Nat.sub_self, Nat.add_zero] at cut
    split at cut
    · cases cut
    · rename_i accepted
      have ends : extent % imcu = 0 ∨ extent = limit - offset := by
        by_cases units : extent % imcu = 0
        · exact Or.inl units
        · exact Or.inr (by simpa [units] using accepted)
      refine ⟨nonempty, inside, still ▸ Nat.dvd_sub_mod offset, ?_⟩
      exact ends.imp Nat.dvd_of_mod_eq_zero fun edge => by omega

theorem cropAxis_eq_error {axis : Axis} {failure : TransformError}
    (failed : cropAxis options axis offset extent limit imcu = .error failure) :
    ∃ fault, failure = .unsupportedGeometry fault := by
  unfold cropAxis at failed
  dsimp only at failed
  split at failed
  · cases failed
    exact ⟨_, rfl⟩
  · split at failed
    · cases failed
      exact ⟨_, rfl⟩
    · cases failed

end

section

variable {geometry : Geometry} {options : TransformOptions} {region : Region}

theorem make_crop (geometry : Geometry) (options : TransformOptions) (region : Region) :
    ∃ plan : Plan, make geometry (.crop region) options = .ok plan ∧
      plan.imcuWidth = geometry.imcuWidth ∧ plan.imcuHeight = geometry.imcuHeight := by
  obtain ⟨plan, planned⟩ : ∃ plan, make geometry (.crop region) options = .ok plan := by
    unfold make
    exact ⟨_, if_neg (by simp [Directive.mapping, Orientation.mapping])⟩
  obtain ⟨-, -, -, imcuWidth, imcuHeight⟩ := make_eq_ok planned
  exact ⟨plan, planned, imcuWidth, imcuHeight⟩

theorem settleCrop_eq (geometry : Geometry) (options : TransformOptions) (region : Region) :
    ∃ plan : Plan, plan.imcuWidth = geometry.imcuWidth ∧
      plan.imcuHeight = geometry.imcuHeight ∧
      settleCrop geometry options region = plan.placeCrop geometry options region := by
  obtain ⟨plan, planned, imcuWidth, imcuHeight⟩ := make_crop geometry options region
  exact ⟨plan, imcuWidth, imcuHeight, bind_of_ok planned⟩

theorem settleCrop_of_exact (wide : 0 < geometry.imcuWidth) (tall : 0 < geometry.imcuHeight)
    (exact : region.Exact geometry) (whole : options.trim = false) :
    settleCrop geometry options region =
      .ok
        { width := region.width
          height := region.height
          xOffset := region.x
          yOffset := region.y } := by
  obtain ⟨plan, imcuWidth, imcuHeight, settled⟩ := settleCrop_eq geometry options region
  have asked : (fits region.x region.width geometry.width &&
      fits region.y region.height geometry.height) = true := by
    simp [fits, exact.1.nonempty, exact.1.inside, exact.2.nonempty, exact.2.inside]
  rw [settled, placeCrop, if_pos asked, imcuWidth, imcuHeight,
    bind_of_ok (cropAxis_of_exact wide exact.1 whole .x)]
  exact bind_of_ok (cropAxis_of_exact tall exact.2 whole .y)

theorem exact_of_settleCrop (perfect : options.perfect = true) {placement : Placement}
    (settled : settleCrop geometry options region = .ok placement) : region.Exact geometry := by
  obtain ⟨plan, imcuWidth, imcuHeight, same⟩ := settleCrop_eq geometry options region
  rw [same, placeCrop] at settled
  split at settled
  · rename_i asked
    rw [Bool.and_eq_true] at asked
    obtain ⟨⟨width, xOffset⟩, across, rest⟩ := bind_eq_ok settled
    obtain ⟨⟨height, yOffset⟩, down, -⟩ := bind_eq_ok rest
    rw [imcuWidth] at across
    rw [imcuHeight] at down
    exact ⟨exact_of_cropAxis perfect asked.1 across, exact_of_cropAxis perfect asked.2 down⟩
  · cases settled

theorem settleCrop_eq_error {failure : TransformError}
    (failed : settleCrop geometry options region = .error failure) :
    ∃ fault, failure = .unsupportedGeometry fault := by
  obtain ⟨plan, -, -, same⟩ := settleCrop_eq geometry options region
  rw [same, placeCrop] at failed
  split at failed
  · rcases bind_eq_error failed with across | ⟨settledX, -, rest⟩
    · exact cropAxis_eq_error across
    · rcases bind_eq_error rest with down | ⟨settledY, -, last⟩
      · exact cropAxis_eq_error down
      · cases last
  · cases failed
    exact ⟨_, rfl⟩

end

/-- A crop that has to be perfect is settled exactly if both axes of its rectangle are exact.
It then takes this very rectangle, as it does without having to be perfect. Whatever else is
asked for is refused by the geometry of the image. -/
theorem settleCrop_perfect (frame : Frame) (grayscale : Bool) (region : Region)
    (options : TransformOptions) :
    let geometry := Geometry.ofFrame frame grayscale
    let settle := fun perfect =>
      settleCrop geometry { options with perfect := perfect, trim := false } region
    ((∃ placement, settle true = .ok placement) ↔ region.Exact geometry) ∧
      (∀ placement, settle true = .ok placement →
        placement.region = region ∧ settle false = .ok placement) ∧
      ∀ failure, settle true = .error failure →
        ∃ fault, failure = .unsupportedGeometry fault := by
  intro geometry settle
  obtain ⟨wide, tall⟩ := Geometry.imcu_pos frame grayscale
  have taken (exact : region.Exact geometry) (perfect : Bool) : settle perfect = .ok _ :=
    settleCrop_of_exact wide tall exact rfl
  refine ⟨⟨?_, fun exact => ⟨_, taken exact true⟩⟩, ?_, fun failure => settleCrop_eq_error⟩
  · rintro ⟨placement, settled⟩
    exact exact_of_settleCrop rfl settled
  · intro placement settled
    have exact := exact_of_settleCrop rfl settled
    have same : settle true = settle false := (taken exact true).trans (taken exact false).symm
    cases (taken exact true).symm.trans settled
    exact ⟨rfl, same ▸ settled⟩

private def cutTiles : Frame :=
  { width := 44
    height := 32
    components :=
      [{ id := 1, across := 2, down := 2, quantizer := 0 },
       { id := 2, across := 1, down := 1, quantizer := 0 },
       { id := 3, across := 1, down := 1, quantizer := 0 }]
    progressive := false
    width_ne_zero := by decide
    height_ne_zero := by decide
    components_ne_nil := by decide
    components_length := by decide
    admissible := by decide }

/-- Twelve columns at the edge are an exact part of the image, but eight inside of it are not, as
they would grow to sixteen. Without colour an iMCU is a block, and they are exact again. -/
theorem settleCrop_perfect_cutTiles :
    settleCrop (Geometry.ofFrame cutTiles false) { perfect := true }
        { x := 32, y := 16, width := 12, height := 16 } =
      .ok { width := 12, height := 16, xOffset := 32, yOffset := 16 } ∧
    settleCrop (Geometry.ofFrame cutTiles false) {}
        { x := 16, y := 16, width := 8, height := 16 } =
      .ok { width := 16, height := 16, xOffset := 16, yOffset := 16 } ∧
    (¬ ∃ placement, settleCrop (Geometry.ofFrame cutTiles false) { perfect := true }
        { x := 16, y := 16, width := 8, height := 16 } = .ok placement) ∧
    ∃ placement, settleCrop (Geometry.ofFrame cutTiles true) { perfect := true }
        { x := 16, y := 16, width := 8, height := 16 } = .ok placement := by
  refine ⟨by decide, by decide, ?_, ?_⟩
  · rw [(settleCrop_perfect cutTiles false _ { perfect := true }).1]
    decide
  · rw [(settleCrop_perfect cutTiles true _ { perfect := true }).1]
    decide

end Plan

end LosslessJpeg
