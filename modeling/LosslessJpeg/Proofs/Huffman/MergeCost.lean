import LosslessJpeg.Proofs.Huffman.CodeTree
import Mathlib.Algebra.BigOperators.Ring.List
import Mathlib.Data.Finset.Max

set_option autoImplicit false

/-!
What a code costs: each weight times the length of its codeword. Joining the two lightest trees
until one is left gives a tree that costs the sum of the joined weights, and no lengths that the
code space has room for cost less.
-/

namespace LosslessJpeg

structure Coded where
  weight : Nat
  length : Nat
  deriving DecidableEq, Repr

namespace Coded

def cost (codes : List Coded) : Nat :=
  (codes.map fun code => code.weight * code.length).sum

theorem cost_cons (code : Coded) (codes : List Coded) :
    cost (code :: codes) = code.weight * code.length + cost codes := by
  rw [cost, List.map_cons, List.sum_cons]
  rfl

theorem cost_perm {codes others : List Coded} (same : codes.Perm others) :
    cost codes = cost others :=
  (same.map _).sum_nat

/-- There is room for codewords of these lengths among the bit strings of `limit` bits. -/
structure Fits (limit : Nat) (lengths : List Nat) : Prop where
  short : ∀ length ∈ lengths, length ≤ limit
  room : (lengths.map fun length => 2 ^ (limit - length)).sum ≤ 2 ^ limit

theorem Fits.perm {limit : Nat} {lengths others : List Nat} (fits : Fits limit lengths)
    (same : lengths.Perm others) : Fits limit others where
  short length member := fits.short length (same.mem_iff.mpr member)
  room := by
    rw [← (same.map _).sum_nat]
    exact fits.room

theorem exists_exchanged {codes : List Coded} {light : Coded} (member : light ∈ codes)
    (lightest : ∀ code ∈ codes, light.weight ≤ code.weight) :
    ∃ longest others,
      (codes.map weight).Perm (light.weight :: others.map weight) ∧
        (codes.map length).Perm (longest :: others.map length) ∧
        (∀ code ∈ others, code.length ≤ longest) ∧
        light.weight * longest + cost others ≤ cost codes := by
  obtain ⟨long, memberLong, longest⟩ :=
    codes.toFinset.exists_max_image length ⟨light, List.mem_toFinset.mpr member⟩
  rw [List.mem_toFinset] at memberLong
  have front := List.perm_cons_erase member
  have rest : ∀ code ∈ codes.erase light, code.length ≤ long.length := fun code later =>
    longest code (List.mem_toFinset.mpr (List.mem_of_mem_erase later))
  -- If the lightest has the greatest length already, nothing is exchanged. Otherwise another one
  -- has it.
  by_cases same : light.length = long.length
  · refine ⟨light.length, codes.erase light, front.map weight, front.map length, ?_, ?_⟩
    · rw [same]
      exact rest
    · rw [cost_perm front, cost_cons]
  · have apart : long ≠ light := fun equal => same (congrArg length equal).symm
    have second := List.perm_cons_erase ((List.mem_erase_of_ne apart).mpr memberLong)
    have both := front.trans (second.cons light)
    obtain ⟨heavier, weights⟩ := Nat.exists_eq_add_of_le (lightest long memberLong)
    obtain ⟨longer, lengths⟩ := Nat.exists_eq_add_of_le
      (longest light (List.mem_toFinset.mpr member))
    refine ⟨long.length,
      { weight := long.weight, length := light.length } :: (codes.erase light).erase long,
      both.map weight, (both.map length).trans (List.Perm.swap _ _ _), ?_, ?_⟩
    · intro code later
      rcases List.mem_cons.mp later with rfl | later
      · exact longest light (List.mem_toFinset.mpr member)
      · exact rest code (List.mem_of_mem_erase later)
    · rw [cost_perm both, cost_cons, cost_cons, cost_cons]
      dsimp only
      rw [weights, lengths]
      simp only [Nat.mul_add, Nat.add_mul]
      omega

/-- What the longest of some codewords leave is a multiple of the room of one of them. Where
another codeword finds room, a sibling does too, and their parent has room instead of both. -/
private theorem fits_joined {limit first second : Nat} {others : List Nat}
    (fits : Fits limit (first :: second :: others))
    (shorter : ∀ length ∈ others, length ≤ second) :
    1 ≤ second ∧ Fits limit ((second - 1) :: others) := by
  have short := fits.short second (List.mem_cons_of_mem _ List.mem_cons_self)
  have room := fits.room
  rw [List.map_cons, List.map_cons, List.sum_cons, List.sum_cons] at room
  have some : 0 < 2 ^ (limit - first) := Nat.two_pow_pos _
  have positive : 1 ≤ second := by
    by_contra zero
    rw [show second = 0 by omega, Nat.sub_zero] at room
    omega
  -- No other codeword is longer than the second, so their room is counted in units of its share.
  obtain ⟨taken, multiple⟩ : 2 ^ (limit - second) ∣
      (others.map fun length => 2 ^ (limit - length)).sum := by
    apply List.dvd_sum
    intro share member
    obtain ⟨length, listed, rfl⟩ := List.mem_map.mp member
    exact Nat.pow_dvd_pow 2 (Nat.sub_le_sub_left (shorter length listed) limit)
  have whole : 2 ^ limit = 2 ^ (limit - second) * 2 ^ second := by
    rw [← Nat.pow_add, Nat.sub_add_cancel short]
  have parent : 2 ^ (limit - (second - 1)) = 2 ^ (limit - second) * 2 := by
    rw [← Nat.pow_succ]
    congr 1
    omega
  have left : taken + 1 < 2 ^ second := by
    rw [multiple, whole] at room
    refine Nat.lt_of_mul_lt_mul_left (a := 2 ^ (limit - second)) ?_
    rw [Nat.mul_add, Nat.mul_one]
    omega
  refine ⟨positive, fun length member => ?_, ?_⟩
  · rcases List.mem_cons.mp member with rfl | later
    · omega
    · exact Nat.le_trans (shorter length later) short
  · rw [List.map_cons, List.sum_cons, multiple, parent, ← Nat.mul_add, whole]
    exact Nat.mul_le_mul_left _ (by omega)

/-- The two lightest weights can be joined, which saves their sum. -/
theorem exists_joined {codes : List Coded} {limit first second : Nat} {others : List Nat}
    (fits : Fits limit (codes.map length))
    (weights : (codes.map weight).Perm (first :: second :: others)) (ordered : first ≤ second)
    (lightest : ∀ weight ∈ others, second ≤ weight) :
    ∃ joined, (joined.map weight).Perm ((first + second) :: others) ∧
      Fits limit (joined.map length) ∧ cost joined + (first + second) ≤ cost codes := by
  -- The lightest weight takes the greatest length, then the next one takes the greatest of the
  -- rest.
  obtain ⟨light, member, rfl⟩ := List.mem_map.mp (weights.mem_iff.mpr List.mem_cons_self)
  obtain ⟨longest, behind, weighed, measured, longer, cheaper⟩ := exists_exchanged member
    fun code listed => by
      rcases List.mem_cons.mp (weights.mem_iff.mp (List.mem_map_of_mem listed)) with same | later
      · exact Nat.le_of_eq same.symm
      · rcases List.mem_cons.mp later with same | later
        · exact same ▸ ordered
        · exact Nat.le_trans ordered (lightest _ later)
  have weightsBehind := (weighed.symm.trans weights).cons_inv
  obtain ⟨next, member, rfl⟩ := List.mem_map.mp (weightsBehind.mem_iff.mpr List.mem_cons_self)
  obtain ⟨long, rest, weighedRest, measuredRest, longerRest, cheaperRest⟩ :=
    exists_exchanged member fun code listed => by
      rcases List.mem_cons.mp (weightsBehind.mem_iff.mp (List.mem_map_of_mem listed))
        with same | later
      · exact Nat.le_of_eq same.symm
      · exact lightest _ later
  have shorter : long ≤ longest := by
    obtain ⟨code, listed, same⟩ := List.mem_map.mp (measuredRest.mem_iff.mpr List.mem_cons_self)
    exact same ▸ longer code listed
  obtain ⟨positive, room⟩ := fits_joined
    (fits.perm (measured.trans (measuredRest.cons longest))) fun length listed => by
      obtain ⟨code, member, rfl⟩ := List.mem_map.mp listed
      exact longerRest code member
  refine ⟨{ weight := light.weight + next.weight, length := long - 1 } :: rest, ?_, room, ?_⟩
  · exact (weighedRest.symm.trans weightsBehind).cons_inv.cons _
  · obtain ⟨shortened, rfl⟩ : ∃ shortened, long = shortened + 1 := ⟨long - 1, by omega⟩
    have scaled := Nat.mul_le_mul_left light.weight shorter
    rw [cost_cons]
    dsimp only
    simp only [Nat.add_sub_cancel, Nat.mul_add, Nat.add_mul, Nat.mul_one] at scaled cheaperRest ⊢
    omega

end Coded

namespace CodeTree

def weigh (weightOf : Nat → Nat) (tree : CodeTree) : Nat :=
  (tree.symbols.map weightOf).sum

def cost (weightOf : Nat → Nat) (tree : CodeTree) : Nat :=
  (tree.depths.map fun entry => weightOf entry.1 * entry.2).sum

theorem weigh_node (weightOf : Nat → Nat) (left right : CodeTree) :
    weigh weightOf (.node left right) = weigh weightOf left + weigh weightOf right := by
  rw [weigh, symbols, List.map_append, List.sum_append_nat]
  rfl

private theorem cost_below (weightOf : Nat → Nat) (tree : CodeTree) :
    ((depthsFrom (0 + 1) tree).map fun entry => weightOf entry.1 * entry.2).sum =
      cost weightOf tree + weigh weightOf tree := by
  rw [cost, weigh, depths, depthsFrom_succ, ← depthsFrom_symbols 0, List.map_map, List.map_map]
  induction depthsFrom 0 tree with
  | nil => rfl
  | cons entry rest inductionHypothesis =>
      simp only [List.map_cons, List.sum_cons, inductionHypothesis, Function.comp_apply,
        Nat.mul_add, Nat.mul_one]
      omega

theorem cost_node (weightOf : Nat → Nat) (left right : CodeTree) :
    cost weightOf (.node left right) =
      cost weightOf left + cost weightOf right + (weigh weightOf left + weigh weightOf right) := by
  have leftCost := cost_below weightOf left
  have rightCost := cost_below weightOf right
  rw [cost, depths, depthsFrom, List.map_append, List.sum_append_nat, leftCost, rightCost]
  omega

end CodeTree

namespace WeightedTree

def mergeCost (trees : List WeightedTree) : Nat :=
  match trees with
  | [] => 0
  | [_] => 0
  | first :: second :: rest =>
      first.weight + second.weight + mergeCost (insert (join first second) rest)
termination_by trees.length
decreasing_by
  rw [insert_length]
  simp only [List.length_cons]
  omega

def Rising (trees : List WeightedTree) : Prop :=
  trees.Pairwise fun first second => first.weight ≤ second.weight

theorem insert_rising {tree : WeightedTree} {trees : List WeightedTree} (rising : Rising trees) :
    Rising (insert tree trees) := by
  induction trees with
  | nil => exact List.pairwise_singleton _ _
  | cons first rest inductionHypothesis =>
      obtain ⟨before, risingRest⟩ := List.pairwise_cons.mp rising
      unfold insert precedes
      split
      case isTrue lighter =>
        have light : tree.weight ≤ first.weight := by
          simp only [Bool.or_eq_true, Bool.and_eq_true, decide_eq_true_eq, beq_iff_eq] at lighter
          omega
        refine List.pairwise_cons.mpr ⟨fun other member => ?_, rising⟩
        rcases List.mem_cons.mp member with rfl | later
        · exact light
        · exact Nat.le_trans light (before other later)
      case isFalse heavier =>
        refine List.pairwise_cons.mpr ⟨fun other member => ?_, inductionHypothesis risingRest⟩
        rcases mem_insert.mp member with rfl | later
        · simp only [Bool.or_eq_true, Bool.and_eq_true, decide_eq_true_eq, beq_iff_eq] at heavier
          omega
        · exact before other later

theorem joinAll_cost {weightOf : Nat → Nat} {trees : List WeightedTree}
    (weighed : ∀ tree ∈ trees, tree.weight = tree.tree.weigh weightOf) {last : CodeTree}
    (joined : joinAll trees = some last) :
    last.cost weightOf = (trees.map fun tree => tree.tree.cost weightOf).sum + mergeCost trees := by
  fun_induction joinAll trees with
  | case1 => cases joined
  | case2 only =>
      cases joined
      rw [mergeCost, List.map_singleton, List.sum_singleton, Nat.add_zero]
  | case3 first second rest inductionHypothesis =>
      have firstWeight := weighed first List.mem_cons_self
      have secondWeight := weighed second (List.mem_cons_of_mem _ List.mem_cons_self)
      have later := inductionHypothesis (fun tree member => by
        rcases mem_insert.mp member with rfl | old
        · rw [join, CodeTree.weigh_node, firstWeight, secondWeight]
        · exact weighed tree (List.mem_cons_of_mem _ (List.mem_cons_of_mem _ old))) joined
      have inserted := ((insert_perm (join first second) rest).map fun tree =>
        tree.tree.cost weightOf).sum_nat
      rw [List.map_cons, List.sum_cons, join, CodeTree.cost_node, ← firstWeight, ← secondWeight]
        at inserted
      rw [later, mergeCost, List.map_cons, List.map_cons, List.sum_cons, List.sum_cons, join,
        inserted]
      omega

/-- No lengths that there is room for cost less than joining. -/
theorem mergeCost_le {trees : List WeightedTree} (rising : Rising trees) {limit : Nat}
    {codes : List Coded} (fits : Coded.Fits limit (codes.map Coded.length))
    (weights : (codes.map Coded.weight).Perm (trees.map weight)) :
    mergeCost trees ≤ Coded.cost codes := by
  fun_induction mergeCost trees generalizing codes with
  | case1 => exact Nat.zero_le _
  | case2 only => exact Nat.zero_le _
  | case3 first second rest inductionHypothesis =>
      obtain ⟨lightest, risingRest⟩ := List.pairwise_cons.mp rising
      obtain ⟨lighter, risingLast⟩ := List.pairwise_cons.mp risingRest
      obtain ⟨joined, weighed, room, cheaper⟩ := Coded.exists_joined fits weights
        (lightest second List.mem_cons_self) fun weight member => by
          obtain ⟨tree, listed, rfl⟩ := List.mem_map.mp member
          exact lighter tree listed
      have later := inductionHypothesis (insert_rising risingLast) room
        (weighed.trans ((insert_perm (join first second) rest).map weight).symm)
      omega

end WeightedTree

end LosslessJpeg
