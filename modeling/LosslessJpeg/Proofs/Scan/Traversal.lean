import LosslessJpeg.Scan.Layout
import Mathlib.Algebra.BigOperators.Ring.List
import Mathlib.Algebra.GroupWithZero.Action.Defs
import Mathlib.Algebra.Order.BigOperators.Group.List
import Mathlib.Algebra.Order.Group.Nat
import Mathlib.Algebra.Ring.Nat
import Mathlib.Data.List.Nodup

set_option autoImplicit false

/-!
The order of an interleaved scan goes over every block of every padded component exactly
once. A component alone is gone over in the same order by a raster scan.
-/

namespace LosslessJpeg

namespace Frame

theorem mem_le_foldl_max {values : List Nat} {value : Nat} (start : Nat)
    (member : value ∈ values) : value ≤ values.foldl max start := by
  induction values generalizing start with
  | nil => cases member
  | cons first rest inductionHypothesis =>
      rw [List.foldl_cons]
      rcases List.mem_cons.mp member with same | later
      · have grows : ∀ (values : List Nat) (start : Nat), start ≤ values.foldl max start := by
          intro values
          induction values with
          | nil => exact fun start => Nat.le_refl start
          | cons next others ih =>
              intro start
              exact Nat.le_trans (Nat.le_max_left start next) (ih (max start next))
        exact same ▸ Nat.le_trans (Nat.le_max_right start value) (grows rest _)
      · exact inductionHypothesis _ later

theorem across_le_maxAcross (frame : Frame) {component : Component}
    (member : component ∈ frame.components) : component.across ≤ frame.maxAcross :=
  mem_le_foldl_max 0 (List.mem_map_of_mem member)

theorem down_le_maxDown (frame : Frame) {component : Component}
    (member : component ∈ frame.components) : component.down ≤ frame.maxDown :=
  mem_le_foldl_max 0 (List.mem_map_of_mem member)

/-- A component alone has the sampling factors of a single block. -/
theorem unsampled_of_sole (frame : Frame) {component : Component}
    (normal : soleComponent frame.components = frame.components)
    (sole : frame.components = [component]) :
    (component.across = 1 ∧ component.down = 1) ∧ frame.maxAcross = 1 ∧ frame.maxDown = 1 := by
  rw [sole] at normal
  have same := (List.cons.inj normal).1
  have across : component.across = 1 := (congrArg Component.across same).symm
  have down : component.down = 1 := (congrArg Component.down same).symm
  refine ⟨⟨across, down⟩, ?_, ?_⟩
  · unfold maxAcross
    rw [sole, List.map_singleton, across]
    rfl
  · unfold maxDown
    rw [sole, List.map_singleton, down]
    rfl

private theorem foldl_max_le {values : List Nat} {start bound : Nat} (first : start ≤ bound)
    (each : ∀ value ∈ values, value ≤ bound) : values.foldl max start ≤ bound := by
  induction values generalizing start with
  | nil => exact first
  | cons value rest inductionHypothesis =>
      exact inductionHypothesis (Nat.max_le.mpr ⟨first, each value List.mem_cons_self⟩)
        fun other member => each other (List.mem_cons_of_mem _ member)

theorem maxAcross_le (frame : Frame) : frame.maxAcross ≤ 4 := by
  apply foldl_max_le (Nat.zero_le 4)
  intro value member
  obtain ⟨component, listed, rfl⟩ := List.mem_map.mp member
  exact (frame.admissible component listed).2.1

theorem maxDown_le (frame : Frame) : frame.maxDown ≤ 4 := by
  apply foldl_max_le (Nat.zero_le 4)
  intro value member
  obtain ⟨component, listed, rfl⟩ := List.mem_map.mp member
  exact (frame.admissible component listed).2.2.2.1

private theorem blocks_le {samples factor greatest : Nat} (small : samples < 65536)
    (positive : 0 < factor) (inside : factor ≤ greatest) (limited : greatest ≤ 4) :
    ceilDiv samples (greatest * 8) * factor ≤ 8195 := by
  unfold ceilDiv
  have whole := Nat.div_mul_le_self (samples + greatest * 8 - 1) (greatest * 8)
  have wider := Nat.mul_le_mul_left ((samples + greatest * 8 - 1) / (greatest * 8)) inside
  rw [← Nat.mul_assoc] at whole
  omega

theorem blocksWide_le (frame : Frame) {component : Component}
    (member : component ∈ frame.components) : frame.blocksWide component ≤ 8195 :=
  blocks_le frame.width.toNat_lt (frame.admissible component member).1
    (frame.across_le_maxAcross member) frame.maxAcross_le

theorem blocksTall_le (frame : Frame) {component : Component}
    (member : component ∈ frame.components) : frame.blocksTall component ≤ 8195 :=
  blocks_le frame.height.toNat_lt (frame.admissible component member).2.2.1
    (frame.down_le_maxDown member) frame.maxDown_le

def laterBlocks (frame : Frame) : Nat :=
  ((frame.components.drop 1).map fun component =>
    frame.blocksTall component * frame.blocksWide component).sum

theorem sum_blocks_le (frame : Frame) {components : List Component}
    (subset : components ⊆ frame.components) :
    (components.map fun component =>
      frame.blocksTall component * frame.blocksWide component).sum ≤
        components.length * (8195 * 8195) := by
  have each : ∀ blocks ∈ components.map (fun component =>
      frame.blocksTall component * frame.blocksWide component), blocks ≤ 8195 * 8195 := by
    intro blocks member
    obtain ⟨component, listed, rfl⟩ := List.mem_map.mp member
    exact Nat.mul_le_mul (frame.blocksTall_le (subset listed))
      (frame.blocksWide_le (subset listed))
  have total := List.sum_le_card_nsmul _ _ each
  rw [List.length_map] at total
  exact total

end Frame

def BlockAddress.Inside (address : BlockAddress) (frame : Frame) : Prop :=
  ∃ component, frame.components[address.component]? = some component ∧
    address.row < frame.blocksTall component ∧ address.column < frame.blocksWide component

namespace ScanLayout

theorem mem_mcuBlocks {mcuRow mcuColumn index : Nat} {component : Component}
    {address : BlockAddress} :
    address ∈ mcuBlocks mcuRow mcuColumn index component ↔
      ∃ y < component.down, ∃ x < component.across, address =
        { component := index
          row := mcuRow * component.down + y
          column := mcuColumn * component.across + x } := by
  unfold mcuBlocks
  simp only [List.mem_flatMap, List.mem_map, List.mem_range, eq_comm (a := address)]

theorem mcuBlocks_nodup (mcuRow mcuColumn index : Nat) (component : Component) :
    (mcuBlocks mcuRow mcuColumn index component).Nodup := by
  unfold mcuBlocks
  rw [List.nodup_flatMap]
  constructor
  · intro y _
    apply List.nodup_range.map
    intro first second same
    have columns := congrArg BlockAddress.column same
    dsimp only at columns
    omega
  · apply List.nodup_range.imp
    intro first second different address inFirst inSecond
    obtain ⟨_, _, rfl⟩ := List.mem_map.mp inFirst
    obtain ⟨_, _, same⟩ := List.mem_map.mp inSecond
    have rows := congrArg BlockAddress.row same
    dsimp only at rows
    omega

variable {frame : Frame} {address : BlockAddress}

private theorem div_of_place {group size offset : Nat} (inside : offset < size) :
    (group * size + offset) / size = group := by
  rw [Nat.mul_comm, Nat.mul_add_div (by omega), Nat.div_eq_of_lt inside, Nat.add_zero]

theorem mem_interleaved_blocks {components : List Component}
    (admissible : ∀ component ∈ components, component.Admissible) {unit : Nat} :
    address ∈ (interleaved frame components).blocks unit ↔
      ∃ component, components[address.component]? = some component ∧
        address.row / component.down = unit / frame.mcusWide ∧
        address.column / component.across = unit % frame.mcusWide := by
  unfold interleaved
  simp only [List.mem_flatMap, Prod.exists, List.mem_zipIdx_iff_getElem?]
  constructor
  · rintro ⟨component, index, found, member⟩
    obtain ⟨y, downInside, x, acrossInside, rfl⟩ := mem_mcuBlocks.mp member
    exact ⟨component, found, div_of_place downInside, div_of_place acrossInside⟩
  · rintro ⟨component, found, row, column⟩
    obtain ⟨acrossPositive, -, downPositive, -, -⟩ :=
      admissible component (List.mem_of_getElem? found)
    refine ⟨component, address.component, found, ?_⟩
    rw [mem_mcuBlocks]
    refine ⟨address.row % component.down, Nat.mod_lt _ downPositive,
      address.column % component.across, Nat.mod_lt _ acrossPositive, ?_⟩
    rw [← row, ← column, Nat.div_add_mod', Nat.div_add_mod']

theorem interleaved_blocks_nodup (components : List Component) (unit : Nat) :
    ((interleaved frame components).blocks unit).Nodup := by
  unfold interleaved
  dsimp only
  rw [List.nodup_flatMap]
  constructor
  · rintro ⟨component, index⟩ _
    exact mcuBlocks_nodup _ _ _ _
  · have indices : (components.zipIdx.map Prod.snd).Nodup := by
      rw [List.zipIdx_map_snd]
      exact List.nodup_range'
    apply (List.pairwise_map.mp indices).imp
    intro first second different address inFirst inSecond
    obtain ⟨_, _, _, _, rfl⟩ := mem_mcuBlocks.mp inFirst
    obtain ⟨_, _, _, _, same⟩ := mem_mcuBlocks.mp inSecond
    exact different (congrArg BlockAddress.component same)

/-! ### The whole scan -/

/-- An interleaved scan goes over all blocks of its components, those that fill up MCUs
included. -/
theorem mem_order_of_components {components : List Component}
    (admissible : ∀ component ∈ components, component.Admissible) :
    address ∈ (interleaved frame components).order ↔
      ∃ component, components[address.component]? = some component ∧
        address.row < frame.blocksTall component ∧
        address.column < frame.blocksWide component := by
  unfold order
  simp only [List.mem_flatMap, List.mem_range, mem_interleaved_blocks admissible]
  change (∃ unit, unit < frame.mcusTall * frame.mcusWide ∧ _) ↔ _
  constructor
  · rintro ⟨unit, inside, component, found, row, column⟩
    obtain ⟨acrossPositive, -, downPositive, -, -⟩ :=
      admissible component (List.mem_of_getElem? found)
    have wide : 0 < frame.mcusWide := Nat.pos_of_ne_zero fun zero => by
      rw [zero, Nat.mul_zero] at inside
      omega
    refine ⟨component, found, ?_, ?_⟩
    · have bound := (Nat.div_lt_iff_lt_mul wide).mpr inside
      rw [← row] at bound
      exact (Nat.div_lt_iff_lt_mul downPositive).mp bound
    · have bound := Nat.mod_lt unit wide
      rw [← column] at bound
      exact (Nat.div_lt_iff_lt_mul acrossPositive).mp bound
  · rintro ⟨component, found, row, column⟩
    obtain ⟨acrossPositive, -, downPositive, -, -⟩ :=
      admissible component (List.mem_of_getElem? found)
    have rowBound := (Nat.div_lt_iff_lt_mul downPositive).mpr row
    have columnBound := (Nat.div_lt_iff_lt_mul acrossPositive).mpr column
    have quotient : (address.row / component.down * frame.mcusWide +
        address.column / component.across) / frame.mcusWide = address.row / component.down :=
      div_of_place columnBound
    have remainder : (address.row / component.down * frame.mcusWide +
        address.column / component.across) % frame.mcusWide =
          address.column / component.across := by
      rw [Nat.mul_comm, Nat.mul_add_mod, Nat.mod_eq_of_lt columnBound]
    refine ⟨address.row / component.down * frame.mcusWide + address.column / component.across,
      ?_, component, found, quotient.symm, remainder.symm⟩
    rw [← Nat.div_lt_iff_lt_mul (by omega), quotient]
    exact rowBound

theorem mem_order_interleaved :
    address ∈ (interleaved frame frame.components).order ↔ address.Inside frame :=
  mem_order_of_components frame.admissible

theorem order_nodup_of_components {components : List Component}
    (admissible : ∀ component ∈ components, component.Admissible) :
    (interleaved frame components).order.Nodup := by
  unfold order
  rw [List.nodup_flatMap]
  constructor
  · intro unit _
    exact interleaved_blocks_nodup components unit
  · apply List.nodup_range.imp
    intro first second different address inFirst inSecond
    obtain ⟨component, found, row, column⟩ := (mem_interleaved_blocks admissible).mp inFirst
    obtain ⟨component', found', row', column'⟩ := (mem_interleaved_blocks admissible).mp inSecond
    rw [found] at found'
    cases found'
    apply different
    rw [← Nat.div_add_mod first frame.mcusWide, ← row, ← column, row', column',
      Nat.div_add_mod]

theorem order_interleaved_nodup (frame : Frame) :
    (interleaved frame frame.components).order.Nodup :=
  order_nodup_of_components frame.admissible

private theorem mcuBlocks_countP (chosen : Nat → Bool) (mcuRow mcuColumn index : Nat)
    (component : Component) :
    (mcuBlocks mcuRow mcuColumn index component).countP (chosen ·.component) =
      if chosen index then component.down * component.across else 0 := by
  have length : (mcuBlocks mcuRow mcuColumn index component).length =
      component.down * component.across := by
    unfold mcuBlocks
    simp only [List.length_flatMap, List.length_map, List.length_range, List.map_const',
      List.sum_replicate, smul_eq_mul]
  split
  · rename_i taken
    rw [← length, List.countP_eq_length]
    intro address member
    obtain ⟨_, _, _, _, rfl⟩ := mem_mcuBlocks.mp member
    exact taken
  · rename_i skipped
    apply List.countP_eq_zero.mpr
    intro address member
    obtain ⟨_, _, _, _, rfl⟩ := mem_mcuBlocks.mp member
    exact skipped

theorem order_interleaved_countP (frame : Frame) (chosen : Nat → Bool) :
    (interleaved frame frame.components).order.countP (chosen ·.component) =
      (frame.components.zipIdx.map fun entry =>
        if chosen entry.2 then frame.blocksTall entry.1 * frame.blocksWide entry.1
        else 0).sum := by
  have unit : ∀ unit, ((interleaved frame frame.components).blocks unit).countP
      (chosen ·.component) = (frame.components.zipIdx.map fun entry =>
        if chosen entry.2 then entry.1.down * entry.1.across else 0).sum := by
    intro unit
    unfold interleaved
    dsimp only
    rw [List.countP_flatMap]
    congr 1
    apply List.map_congr_left
    intro entry _
    exact mcuBlocks_countP chosen _ _ _ _
  have units : (List.countP fun address : BlockAddress => chosen address.component) ∘
      (interleaved frame frame.components).blocks = fun _ => _ := funext unit
  unfold order
  rw [List.countP_flatMap, units, List.map_const', List.sum_replicate, List.length_range]
  change frame.mcusTall * frame.mcusWide * _ = _
  rw [← List.sum_map_mul_left]
  congr 1
  apply List.map_congr_left
  intro entry _
  unfold Frame.blocksTall Frame.blocksWide
  split
  · exact Nat.mul_mul_mul_comm _ _ _ _
  · rfl

theorem mem_order_raster {blocksWide blocksTall : Nat} :
    address ∈ (raster blocksWide blocksTall).order ↔
      address.component = 0 ∧ address.row < blocksTall ∧ address.column < blocksWide := by
  unfold order raster
  simp only [List.mem_flatMap, List.mem_range, List.mem_singleton]
  constructor
  · rintro ⟨unit, inside, rfl⟩
    have wide : 0 < blocksWide := Nat.pos_of_ne_zero fun zero => by
      rw [zero, Nat.mul_zero] at inside
      omega
    exact ⟨rfl, (Nat.div_lt_iff_lt_mul wide).mpr inside, Nat.mod_lt unit wide⟩
  · rintro ⟨first, row, column⟩
    obtain ⟨component, y, x⟩ := address
    dsimp only at first row column
    refine ⟨y * blocksWide + x, ?_, ?_⟩
    · rw [← Nat.div_lt_iff_lt_mul (by omega), div_of_place column]
      exact row
    · rw [div_of_place column, Nat.mul_comm, Nat.mul_add_mod, Nat.mod_eq_of_lt column, first]

theorem order_raster_nodup (blocksWide blocksTall : Nat) :
    (raster blocksWide blocksTall).order.Nodup := by
  unfold order raster
  rw [List.nodup_flatMap]
  constructor
  · intro unit _
    exact List.nodup_singleton _
  · apply List.nodup_range.imp
    intro first second different address inFirst inSecond
    rw [List.mem_singleton] at inFirst inSecond
    have rows := congrArg BlockAddress.row (inFirst.symm.trans inSecond)
    have columns := congrArg BlockAddress.column (inFirst.symm.trans inSecond)
    dsimp only at rows columns
    apply different
    rw [← Nat.div_add_mod first blocksWide, rows, columns, Nat.div_add_mod]

/-- No scan goes over a block of one of its components twice. -/
theorem order_ofComponents_nodup {components : List Component}
    (admissible : ∀ component ∈ components, component.Admissible) :
    (ofComponents frame components).order.Nodup := by
  unfold ofComponents
  split
  · exact order_raster_nodup _ _
  · exact order_nodup_of_components admissible

/-- The padded size of a lone component is its size in the image, so that a raster scan
goes over it as an interleaved scan does. -/
theorem ofComponents_eq_interleaved {frame : Frame}
    (normal : soleComponent frame.components = frame.components) :
    ofComponents frame frame.components = interleaved frame frame.components := by
  unfold ofComponents
  split
  · rename_i component sole
    obtain ⟨unit, widest, tallest⟩ := frame.unsampled_of_sole normal sole
    have wide : frame.imageBlocksWide component = frame.mcusWide := by
      unfold Frame.imageBlocksWide Frame.mcusWide Frame.mcuWidth ceilDiv
      rw [widest, unit.1]
      omega
    have tall : frame.imageBlocksTall component = frame.mcusTall := by
      unfold Frame.imageBlocksTall Frame.mcusTall Frame.mcuHeight ceilDiv
      rw [tallest, unit.2]
      omega
    unfold raster interleaved mcuBlocks
    dsimp only
    rw [sole, wide, tall]
    congr 1
    funext place
    rw [List.zipIdx_singleton, List.flatMap_singleton, unit.1, unit.2, List.range_one,
      List.flatMap_singleton, List.map_singleton, Nat.mul_one, Nat.mul_one, Nat.add_zero,
      Nat.add_zero]
  · rfl

end ScanLayout

end LosslessJpeg
