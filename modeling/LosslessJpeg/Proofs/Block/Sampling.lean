import LosslessJpeg.Proofs.Scan.Traversal
import Mathlib.Tactic.Ring

set_option autoImplicit false

/-!
How many blocks of a component hold samples of the image: at least one on each axis, no more
than the MCUs that cover the image, and as many more as there are in whole MCUs put in front.
So the blocks of every scan lie in the grids of their components.
-/

namespace LosslessJpeg

theorem le_ceilDiv_mul (count : Nat) {size : Nat} (positive : 0 < size) :
    count ≤ ceilDiv count size * size := by
  have whole := Nat.div_add_mod' (count + size - 1) size
  have rest := Nat.mod_lt (count + size - 1) positive
  unfold ceilDiv
  omega

theorem ceilDiv_zero {size : Nat} (positive : 0 < size) : ceilDiv 0 size = 0 :=
  Nat.div_eq_of_lt (by omega)

theorem ceilDiv_le_ceilDiv {count other : Nat} (less : count ≤ other) (size : Nat) :
    ceilDiv count size ≤ ceilDiv other size :=
  Nat.div_le_div_right (by omega)

theorem ceilDiv_add_mul (count units : Nat) {size : Nat} (positive : 0 < size) :
    ceilDiv (units * size + count) size = units + ceilDiv count size := by
  unfold ceilDiv
  rw [Nat.add_assoc, Nat.add_sub_assoc (by omega), Nat.mul_comm, Nat.mul_add_div positive]

theorem ceilDiv_mul_cancel (units : Nat) {size : Nat} (positive : 0 < size) :
    ceilDiv (units * size) size = units := by
  have whole := ceilDiv_add_mul 0 units positive
  rw [ceilDiv_zero positive] at whole
  exact whole

theorem ceilDiv_mul_le_of_dvd {count bound size : Nat} (positive : 0 < size)
    (reaches : count ≤ bound) (whole : size ∣ bound) : ceilDiv count size * size ≤ bound := by
  obtain ⟨units, rfl⟩ := whole
  have rounded := ceilDiv_le_ceilDiv reaches size
  rw [Nat.mul_comm, ceilDiv_mul_cancel units positive] at rounded
  rw [Nat.mul_comm size units]
  exact Nat.mul_le_mul_right size rounded

theorem ceilDiv_pos {count size : Nat} (some : 0 < count) (positive : 0 < size) :
    0 < ceilDiv count size :=
  Nat.div_pos (by omega) positive

/-- The blocks of a component on an axis of given extent, of which the component has `factor`
samples for `most` of the finest one. -/
def sampledBlocks (extent factor most : Nat) : Nat :=
  ceilDiv (ceilDiv (extent * factor) most) 8

section SampledBlocks

variable {extent other factor most : Nat}

theorem sampledBlocks_le_sampledBlocks (less : extent ≤ other) (factor most : Nat) :
    sampledBlocks extent factor most ≤ sampledBlocks other factor most :=
  ceilDiv_le_ceilDiv (ceilDiv_le_ceilDiv (Nat.mul_le_mul_right factor less) most) 8

theorem sampledBlocks_add (positive : 0 < most) (units extent factor : Nat) :
    sampledBlocks (units * (most * 8) + extent) factor most =
      units * factor + sampledBlocks extent factor most := by
  have samples : (units * (most * 8) + extent) * factor =
      units * factor * 8 * most + extent * factor := by ring
  unfold sampledBlocks
  rw [samples, ceilDiv_add_mul _ _ positive, ceilDiv_add_mul _ _ (by decide)]

theorem sampledBlocks_whole (positive : 0 < most) (units factor : Nat) :
    sampledBlocks (units * (most * 8)) factor most = units * factor := by
  have none : sampledBlocks 0 factor most = 0 := by
    unfold sampledBlocks
    rw [Nat.zero_mul, ceilDiv_zero positive, ceilDiv_zero (by decide)]
  have whole := sampledBlocks_add positive units 0 factor
  rw [none] at whole
  exact whole

theorem sampledBlocks_pos (some : 0 < extent) (sampled : 0 < factor) (positive : 0 < most) :
    0 < sampledBlocks extent factor most :=
  ceilDiv_pos (ceilDiv_pos (Nat.mul_pos some sampled) positive) (by decide)

/-- The blocks of the image lie in the MCUs that cover it. -/
theorem sampledBlocks_le_padded (positive : 0 < most) (extent factor : Nat) :
    sampledBlocks extent factor most ≤ ceilDiv extent (most * 8) * factor := by
  rw [← sampledBlocks_whole positive]
  exact sampledBlocks_le_sampledBlocks (le_ceilDiv_mul extent (by omega)) factor most

theorem sampledBlocks_finest (positive : 0 < most) (extent : Nat) :
    sampledBlocks extent most most = sampledBlocks extent 1 1 := by
  unfold sampledBlocks
  rw [ceilDiv_mul_cancel extent positive, ceilDiv_mul_cancel extent Nat.one_pos]

end SampledBlocks

theorem toNat_pos {count : UInt16} (nonzero : count ≠ 0) : 0 < count.toNat :=
  Nat.pos_of_ne_zero fun zero => nonzero (UInt16.toNat_inj.mp zero)

namespace Frame

variable {frame : Frame}

theorem maxAcross_pos (frame : Frame) : 0 < frame.maxAcross := by
  obtain ⟨component, member⟩ := List.exists_mem_of_ne_nil _ frame.components_ne_nil
  exact Nat.lt_of_lt_of_le (frame.admissible component member).1
    (frame.across_le_maxAcross member)

theorem maxDown_pos (frame : Frame) : 0 < frame.maxDown := by
  obtain ⟨component, member⟩ := List.exists_mem_of_ne_nil _ frame.components_ne_nil
  exact Nat.lt_of_lt_of_le (frame.admissible component member).2.2.1
    (frame.down_le_maxDown member)

theorem mcuWidth_pos (frame : Frame) : 0 < frame.mcuWidth :=
  Nat.mul_pos frame.maxAcross_pos (by decide)

theorem mcuHeight_pos (frame : Frame) : 0 < frame.mcuHeight :=
  Nat.mul_pos frame.maxDown_pos (by decide)

theorem imageBlocksWide_le (frame : Frame) (component : Component) :
    frame.imageBlocksWide component ≤ frame.blocksWide component :=
  sampledBlocks_le_padded frame.maxAcross_pos _ _

theorem imageBlocksTall_le (frame : Frame) (component : Component) :
    frame.imageBlocksTall component ≤ frame.blocksTall component :=
  sampledBlocks_le_padded frame.maxDown_pos _ _

theorem imageBlocksWide_pos {component : Component} (member : component ∈ frame.components) :
    0 < frame.imageBlocksWide component :=
  sampledBlocks_pos (toNat_pos frame.width_ne_zero) (frame.admissible component member).1
    frame.maxAcross_pos

theorem imageBlocksTall_pos {component : Component} (member : component ∈ frame.components) :
    0 < frame.imageBlocksTall component :=
  sampledBlocks_pos (toNat_pos frame.height_ne_zero)
    (frame.admissible component member).2.2.1 frame.maxDown_pos

end Frame

def BlockAddress.InImage (address : BlockAddress) (frame : Frame) : Prop :=
  ∃ component, frame.components[address.component]? = some component ∧
    address.row < frame.imageBlocksTall component ∧
    address.column < frame.imageBlocksWide component

/-- Every block of a scan lies in the grid of its component. -/
theorem ScanLayout.mem_order_ofComponents {frame : Frame} {coded : List Component}
    (admissible : ∀ component ∈ coded, component.Admissible) {address : BlockAddress}
    (member : address ∈ (ScanLayout.ofComponents frame coded).order) :
    ∃ component, coded[address.component]? = some component ∧
      address.row < frame.blocksTall component ∧ address.column < frame.blocksWide component := by
  unfold ofComponents at member
  split at member
  · rename_i component
    obtain ⟨first, row, column⟩ := mem_order_raster.mp member
    refine ⟨component, ?_, ?_, ?_⟩
    · rw [first]
      rfl
    · exact Nat.lt_of_lt_of_le row (frame.imageBlocksTall_le component)
    · exact Nat.lt_of_lt_of_le column (frame.imageBlocksWide_le component)
  · exact (mem_order_of_components admissible).mp member

end LosslessJpeg
