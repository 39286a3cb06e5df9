import LosslessJpeg.Block.Quantizer
import LosslessJpeg.Proofs.Vectors

set_option autoImplicit false

/-!
Transposing and mirroring of blocks: which coefficient comes from where and with which sign,
and what two such steps in a row amount to.
-/

namespace LosslessJpeg

namespace Block

@[simp]
theorem exchanged_exchanged (position : Fin 64) : exchanged (exchanged position) = position := by
  unfold exchanged
  apply Fin.ext
  dsimp only
  omega

theorem exchanged_div (position : Fin 64) : (exchanged position).val / 8 = position.val % 8 := by
  unfold exchanged
  dsimp only
  omega

theorem exchanged_mod (position : Fin 64) : (exchanged position).val % 8 = position.val / 8 := by
  unfold exchanged
  dsimp only
  omega

@[simp]
theorem transposed_get (block : Block) (position : Fin 64) :
    block.transposed.get position = block.get (exchanged position) :=
  get_ofFn _ position

@[simp]
theorem mirroredAcross_get (block : Block) (position : Fin 64) :
    block.mirroredAcross.get position =
      if position.val % 2 = 1 then -block.get position else block.get position :=
  get_ofFn _ position

@[simp]
theorem mirroredDown_get (block : Block) (position : Fin 64) :
    block.mirroredDown.get position =
      if position.val / 8 % 2 = 1 then -block.get position else block.get position :=
  get_ofFn _ position

@[simp]
theorem transposed_transposed (block : Block) : block.transposed.transposed = block := by
  apply ext_get
  intro position
  rw [transposed_get, transposed_get, exchanged_exchanged]

@[simp]
theorem mirroredAcross_mirroredAcross (block : Block) :
    block.mirroredAcross.mirroredAcross = block := by
  apply ext_get
  intro position
  rw [mirroredAcross_get, mirroredAcross_get]
  split
  · rw [Int16.neg_neg]
  · rfl

@[simp]
theorem mirroredDown_mirroredDown (block : Block) :
    block.mirroredDown.mirroredDown = block := by
  apply ext_get
  intro position
  rw [mirroredDown_get, mirroredDown_get]
  split
  · rw [Int16.neg_neg]
  · rfl

theorem mirroredDown_mirroredAcross (block : Block) :
    block.mirroredAcross.mirroredDown = block.mirroredDown.mirroredAcross := by
  apply ext_get
  intro position
  rw [mirroredDown_get, mirroredAcross_get, mirroredAcross_get, mirroredDown_get]
  split
  · split
    · rfl
    · rfl
  · rfl

theorem transposed_mirroredAcross (block : Block) :
    block.mirroredAcross.transposed = block.transposed.mirroredDown := by
  apply ext_get
  intro position
  have parity : (exchanged position).val % 2 = position.val / 8 % 2 := by
    rw [← exchanged_mod position]
    omega
  rw [transposed_get, mirroredAcross_get, mirroredDown_get, transposed_get, parity]

theorem transposed_mirroredDown (block : Block) :
    block.mirroredDown.transposed = block.transposed.mirroredAcross := by
  apply ext_get
  intro position
  have parity : (exchanged position).val / 8 % 2 = position.val % 2 := by
    rw [exchanged_div position]
    omega
  rw [transposed_get, mirroredDown_get, mirroredAcross_get, transposed_get, parity]

/-- Transpose a block, then mirror it across, then down, each of these if told so. -/
def moved (transpose across down : Bool) (block : Block) : Block :=
  let turned := if transpose then block.transposed else block
  let mirrored := if across then turned.mirroredAcross else turned
  if down then mirrored.mirroredDown else mirrored

/-- Moving a block twice is moving it once. Mirrorings of the first step change their axes
if the second one transposes. -/
theorem moved_moved (transpose across down transposeAfter acrossAfter downAfter : Bool)
    (block : Block) :
    moved transposeAfter acrossAfter downAfter (moved transpose across down block) =
      moved (transpose ^^ transposeAfter)
        (acrossAfter ^^ if transposeAfter then down else across)
        (downAfter ^^ if transposeAfter then across else down) block := by
  cases transposeAfter with
  | false =>
      cases across <;> cases down <;> cases acrossAfter <;> cases downAfter <;>
        simp [moved, mirroredDown_mirroredAcross]
  | true =>
      cases transpose <;> cases across <;> cases down <;> cases acrossAfter <;>
        cases downAfter <;>
        simp [moved, mirroredDown_mirroredAcross, transposed_mirroredAcross,
          transposed_mirroredDown]

def Within (bound : Nat) (block : Block) : Prop :=
  ∀ position, (block.get position).toInt.natAbs ≤ bound

/-- Only one coefficient has no negative. -/
theorem toInt_neg {value : Int16} (notLeast : value ≠ -32768) :
    (-value).toInt = -value.toInt := by
  have above := value.le_toInt
  have below := value.toInt_lt
  have different : value.toInt ≠ -32768 := fun least => notLeast (Int16.toInt_inj.mp least)
  rw [Int16.toInt_neg]
  refine Int.bmod_eq_of_le ?_ ?_
  · omega
  · omega

theorem within_of_ne_least {block : Block}
    (regular : ∀ position, block.get position ≠ -32768) : Within 32767 block := by
  intro position
  have above := (block.get position).le_toInt
  have below := (block.get position).toInt_lt
  have different : (block.get position).toInt ≠ -32768 := fun least =>
    regular position (Int16.toInt_inj.mp least)
  omega

private theorem natAbs_neg {value : Int16} {bound : Nat} (small : bound ≤ 32767)
    (within : value.toInt.natAbs ≤ bound) : (-value).toInt.natAbs ≤ bound := by
  have notLeast : value ≠ -32768 := by
    intro least
    rw [least] at within
    have size : (-32768 : Int16).toInt.natAbs = 32768 := by decide
    omega
  rw [toInt_neg notLeast, Int.natAbs_neg]
  exact within

section Within

variable {bound : Nat} {block : Block}

theorem Within.transposed (within : Within bound block) : Within bound block.transposed := by
  intro position
  rw [transposed_get]
  exact within _

theorem Within.mirroredAcross (small : bound ≤ 32767) (within : Within bound block) :
    Within bound block.mirroredAcross := by
  intro position
  rw [mirroredAcross_get]
  split
  · exact natAbs_neg small (within position)
  · exact within position

theorem Within.mirroredDown (small : bound ≤ 32767) (within : Within bound block) :
    Within bound block.mirroredDown := by
  intro position
  rw [mirroredDown_get]
  split
  · exact natAbs_neg small (within position)
  · exact within position

theorem Within.moved (small : bound ≤ 32767) (within : Within bound block)
    (transpose across down : Bool) : Within bound (moved transpose across down block) := by
  have turned : Within bound (if transpose then block.transposed else block) := by
    split
    · exact within.transposed
    · exact within
  have mirrored : Within bound (Block.moved transpose across false block) := by
    unfold Block.moved
    dsimp only
    rw [if_neg Bool.false_ne_true]
    split
    · exact turned.mirroredAcross small
    · exact turned
  cases down with
  | false => exact mirrored
  | true => exact mirrored.mirroredDown small

theorem within_zero (bound : Nat) : Within bound zero := by
  intro position
  unfold zero
  rw [get_replicate]
  exact Nat.zero_le bound

theorem moved_zero (transpose across down : Bool) : moved transpose across down zero = zero := by
  apply ext_get
  intro position
  have none := (within_zero 0).moved (Nat.zero_le _) transpose across down position
  have same : (moved transpose across down zero).get position = 0 :=
    Int16.toInt_inj.mp (Int.natAbs_eq_zero.mp (Nat.le_zero.mp none))
  rw [same]
  unfold zero
  rw [get_replicate]

end Within

end Block

namespace QuantizerTable

@[simp]
theorem transposed_get (table : QuantizerTable) (position : Fin 64) :
    table.transposed.get position = table.get (Block.exchanged position) :=
  get_ofFn _ position

@[simp]
theorem transposed_transposed (table : QuantizerTable) :
    table.transposed.transposed = table := by
  apply ext_get
  intro position
  rw [transposed_get, transposed_get, Block.exchanged_exchanged]

end QuantizerTable

end LosslessJpeg
