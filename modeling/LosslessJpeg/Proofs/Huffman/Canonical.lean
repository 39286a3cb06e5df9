import LosslessJpeg.Huffman.Codeword
import LosslessJpeg.Proofs.Bits.BitString
import Mathlib.Tactic.Ring

set_option autoImplicit false

/-!
The canonical code is prefix-free: a codeword lies behind all that begin with an earlier
one. Its codewords fit their lengths if the Kraft sum of the lengths is at most one.
-/

namespace LosslessJpeg

namespace Codeword

def bits (codeword : Codeword) : List Bool :=
  binary codeword.length codeword.value

theorem bits_length (codeword : Codeword) : codeword.bits.length = codeword.length :=
  binary_length _ _

/-- The first codeword is no longer, and no digits after it reach the second one. -/
def Before (first second : Codeword) : Prop :=
  first.length ≤ second.length ∧
    (first.value + 1) * 2 ^ (second.length - first.length) ≤ second.value

def BeginsWith (codeword start : Codeword) : Prop :=
  start.length ≤ codeword.length ∧
    codeword.value / 2 ^ (codeword.length - start.length) = start.value

theorem Before.not_beginsWith {first second : Codeword} (before : first.Before second) :
    ¬ second.BeginsWith first := by
  intro begins
  have reached : first.value + 1 ≤ second.value / 2 ^ (second.length - first.length) :=
    (Nat.le_div_iff_mul_le (Nat.two_pow_pos _)).mpr before.2
  rw [begins.2] at reached
  omega

theorem Before.not_beginsWith_later {first second : Codeword} (before : first.Before second) :
    ¬ first.BeginsWith second := by
  intro begins
  have sameLength : second.length = first.length := Nat.le_antisymm begins.1 before.1
  have value := before.2
  have same := begins.2
  rw [sameLength, Nat.sub_self, Nat.pow_zero] at value same
  rw [Nat.div_one] at same
  omega

theorem bits_ne_ones {codeword : Codeword} (below : codeword.value + 1 < 2 ^ codeword.length) :
    codeword.bits ≠ List.replicate codeword.length true := by
  intro ones
  have same := congrArg ofBinary ones
  unfold bits at same
  rw [← binary_ones, ofBinary_binary, ofBinary_binary, Nat.mod_eq_of_lt (by omega),
    Nat.mod_eq_of_lt (by omega)] at same
  omega

theorem overflows_iff (codeword : Codeword) :
    codeword.overflows = true ↔ 2 ^ codeword.length ≤ codeword.value := by
  unfold overflows
  rw [decide_eq_true_iff, Nat.one_shiftLeft]

end Codeword

theorem codewordsFrom_bounds {length next : Nat} {counts : List Nat} {codeword : Codeword}
    (member : codeword ∈ codewordsFrom length next counts) :
    length ≤ codeword.length ∧ codeword.length < length + counts.length ∧
      next * 2 ^ (codeword.length - length) ≤ codeword.value := by
  induction counts generalizing length next with
  | nil => cases member
  | cons count longer inductionHypothesis =>
      rw [codewordsFrom, List.mem_append] at member
      rcases member with here | later
      · obtain ⟨value, inside, rfl⟩ := List.mem_map.mp here
        have lower := (List.mem_range'_1.mp inside).1
        refine ⟨Nat.le_refl _, by rw [List.length_cons]; dsimp only; omega, ?_⟩
        rw [Nat.sub_self, Nat.pow_zero, Nat.mul_one]
        exact lower
      · obtain ⟨above, below, behind⟩ := inductionHypothesis later
        refine ⟨by omega, by rw [List.length_cons]; omega, ?_⟩
        have exponent : codeword.length - length = codeword.length - (length + 1) + 1 := by
          omega
        calc
          next * 2 ^ (codeword.length - length)
              = 2 * next * 2 ^ (codeword.length - (length + 1)) := by
            rw [exponent, Nat.pow_succ, Nat.mul_comm _ 2, ← Nat.mul_assoc, Nat.mul_comm next]
          _ ≤ 2 * (next + count) * 2 ^ (codeword.length - (length + 1)) :=
            Nat.mul_le_mul_right _ (Nat.mul_le_mul_left 2 (Nat.le_add_right next count))
          _ ≤ codeword.value := behind

theorem codewordsFrom_later {length next count : Nat} {longer : List Nat}
    {codeword : Codeword}
    (member : codeword ∈ codewordsFrom (length + 1) (2 * (next + count)) longer) :
    (next + count) * 2 ^ (codeword.length - length) ≤ codeword.value := by
  obtain ⟨above, -, behind⟩ := codewordsFrom_bounds member
  have exponent : codeword.length - length = codeword.length - (length + 1) + 1 := by
    omega
  rw [exponent, Nat.pow_succ, Nat.mul_comm _ 2, ← Nat.mul_assoc, Nat.mul_comm _ 2]
  exact behind

theorem codewordsFrom_pairwise (length next : Nat) (counts : List Nat) :
    (codewordsFrom length next counts).Pairwise Codeword.Before := by
  induction counts generalizing length next with
  | nil => exact List.Pairwise.nil
  | cons count longer inductionHypothesis =>
      rw [codewordsFrom, List.pairwise_append]
      refine ⟨?_, inductionHypothesis _ _, ?_⟩
      · rw [List.pairwise_map]
        refine (List.pairwise_lt_range' (s := next) (n := count)).imp ?_
        intro first second earlier
        refine ⟨Nat.le_refl _, ?_⟩
        dsimp only
        rw [Nat.sub_self, Nat.pow_zero, Nat.mul_one]
        exact earlier
      · intro first here second later
        obtain ⟨value, inside, rfl⟩ := List.mem_map.mp here
        have upper := (List.mem_range'_1.mp inside).2
        refine ⟨Nat.le_trans (Nat.le_succ length) (codewordsFrom_bounds later).1, ?_⟩
        exact Nat.le_trans (Nat.mul_le_mul_right _ upper) (codewordsFrom_later later)

theorem codewords_pairwise (counts : List Nat) :
    (codewords counts).Pairwise Codeword.Before :=
  codewordsFrom_pairwise 1 0 counts

theorem codewordsFrom_length (length next : Nat) (counts : List Nat) :
    (codewordsFrom length next counts).length = counts.sum := by
  induction counts generalizing length next with
  | nil => rfl
  | cons count longer inductionHypothesis =>
      rw [codewordsFrom, List.length_append, List.length_map, List.length_range',
        inductionHypothesis, List.sum_cons]

theorem codewords_length (counts : List Nat) : (codewords counts).length = counts.sum :=
  codewordsFrom_length 1 0 counts

theorem codewordsFrom_count (length next : Nat) (counts : List Nat) (other : Nat) :
    ((codewordsFrom length next counts).map Codeword.length).count other =
      if other < length then 0 else counts.getD (other - length) 0 := by
  induction counts generalizing length next with
  | nil =>
      rw [codewordsFrom, List.map_nil, List.count_nil, List.getD_nil, ite_self]
  | cons count longer inductionHypothesis =>
      have same : ((List.range' next count).map (Codeword.mk length)).map Codeword.length =
          List.replicate count length := by
        rw [List.map_map]
        exact (List.map_const' ..).trans (by rw [List.length_range'])
      rw [codewordsFrom, List.map_append, List.count_append, same, List.count_replicate,
        inductionHypothesis]
      rcases Nat.lt_trichotomy other length with shorter | rfl | later
      · rw [if_neg (by simp only [beq_iff_eq]; omega), if_pos (by omega), if_pos shorter]
      · rw [if_pos (beq_self_eq_true other), if_pos (Nat.lt_succ_self other),
          if_neg (Nat.lt_irrefl other), Nat.sub_self, List.getD_cons_zero, Nat.add_zero]
      · obtain ⟨steps, rfl⟩ := Nat.exists_eq_add_of_lt later
        rw [if_neg (by simp only [beq_iff_eq]; omega), if_neg (by omega), if_neg (by omega),
          Nat.zero_add, show length + steps + 1 - length = steps + 1 by omega,
          List.getD_cons_succ, show length + steps + 1 - (length + 1) = steps by omega]

theorem eq_of_beginsWith {counts : List Nat} {first second : Codeword} {i j : Nat}
    (here : (codewords counts)[i]? = some first) (there : (codewords counts)[j]? = some second)
    (begins : second.BeginsWith first) : i = j := by
  obtain ⟨inside, rfl⟩ := List.getElem?_eq_some_iff.mp here
  obtain ⟨insideToo, rfl⟩ := List.getElem?_eq_some_iff.mp there
  have sorted := List.pairwise_iff_getElem.mp (codewords_pairwise counts)
  rcases Nat.lt_trichotomy i j with less | same | more
  · exact absurd begins (sorted i j inside insideToo less).not_beginsWith
  · exact same
  · exact absurd begins (sorted j i insideToo inside more).not_beginsWith_later

/-- The Kraft sum of codeword counts, times two to the number of lengths, where the first
length counts half of the whole. -/
def kraftSum : List Nat → Nat
  | [] => 0
  | count :: longer => count * 2 ^ longer.length + kraftSum longer

theorem codewordsFrom_reach {length next : Nat} {counts : List Nat} {codeword : Codeword}
    (member : codeword ∈ codewordsFrom length next counts) :
    (codeword.value + 1) * 2 ^ (length + counts.length - codeword.length) ≤
      next * 2 ^ counts.length + 2 * kraftSum counts := by
  induction counts generalizing length next with
  | nil => cases member
  | cons count longer inductionHypothesis =>
      have space : next * 2 ^ (longer.length + 1) + 2 * kraftSum (count :: longer) =
          2 * (next + count) * 2 ^ longer.length + 2 * kraftSum longer := by
        rw [kraftSum, Nat.pow_succ]
        ring
      rw [List.length_cons, space]
      rw [codewordsFrom, List.mem_append] at member
      rcases member with here | later
      · obtain ⟨value, inside, rfl⟩ := List.mem_map.mp here
        have upper := (List.mem_range'_1.mp inside).2
        dsimp only
        rw [Nat.add_sub_cancel_left, Nat.pow_succ, Nat.mul_comm _ 2, ← Nat.mul_assoc,
          Nat.mul_comm _ 2]
        exact Nat.le_add_right_of_le (Nat.mul_le_mul_right _ (Nat.mul_le_mul_left 2 upper))
      · have reached := inductionHypothesis later
        rw [Nat.add_right_comm] at reached
        exact reached

theorem codewordsFrom_fit {length next : Nat} {counts : List Nat}
    (room : next * 2 ^ counts.length + 2 * kraftSum counts ≤ 2 ^ (length + counts.length))
    {codeword : Codeword} (member : codeword ∈ codewordsFrom length next counts) :
    codeword.value < 2 ^ codeword.length := by
  have reached := Nat.le_trans (codewordsFrom_reach member) room
  have bounds := codewordsFrom_bounds member
  have total : length + counts.length =
      codeword.length + (length + counts.length - codeword.length) := by omega
  nth_rewrite 2 [total] at reached
  rw [Nat.pow_add] at reached
  exact Nat.le_of_mul_le_mul_right reached (Nat.two_pow_pos _)

theorem codewordsFrom_room {length next : Nat} {counts : List Nat} (start : next ≤ 2 ^ length)
    (fits : ∀ codeword ∈ codewordsFrom length next counts,
      codeword.value < 2 ^ codeword.length) :
    next * 2 ^ counts.length + 2 * kraftSum counts ≤ 2 ^ (length + counts.length) := by
  induction counts generalizing length next with
  | nil =>
      rw [List.length_nil, Nat.pow_zero, Nat.mul_one]
      exact start
  | cons count longer inductionHypothesis =>
      rw [codewordsFrom] at fits
      have full : next + count ≤ 2 ^ length := by
        rcases Nat.eq_zero_or_pos count with none | some
        · rw [none, Nat.add_zero]
          exact start
        · have last := fits { length := length, value := next + (count - 1) }
            (List.mem_append_left _ (List.mem_map.mpr
              ⟨_, List.mem_range'_1.mpr (by omega), rfl⟩))
          dsimp only at last
          omega
      have later := @inductionHypothesis (length + 1) (2 * (next + count))
        (by rw [Nat.pow_succ]; omega) fun codeword member =>
          fits codeword (List.mem_append_right _ member)
      rw [List.length_cons, kraftSum, ← Nat.add_assoc, Nat.add_right_comm]
      refine Nat.le_trans (Nat.le_of_eq ?_) later
      rw [Nat.pow_succ]
      ring

/-- Every codeword is within its length exactly if the Kraft sum is at most one. -/
theorem codewords_fit_iff {counts : List Nat} :
    (∀ codeword ∈ codewords counts, codeword.value < 2 ^ codeword.length) ↔
      kraftSum counts ≤ 2 ^ counts.length := by
  constructor
  · intro fits
    have room := codewordsFrom_room (Nat.zero_le _) fits
    rw [Nat.zero_mul, Nat.zero_add, Nat.pow_add] at room
    omega
  · intro room codeword member
    refine codewordsFrom_fit ?_ member
    rw [Nat.pow_add]
    omega

/-- A Kraft sum below one leaves the codewords of ones unused. -/
theorem codewords_short {counts : List Nat} (room : kraftSum counts < 2 ^ counts.length)
    {codeword : Codeword} (member : codeword ∈ codewords counts) :
    codeword.value + 1 < 2 ^ codeword.length := by
  have reached := codewordsFrom_reach member
  have bounds := codewordsFrom_bounds member
  have total : 2 * 2 ^ counts.length =
      2 ^ codeword.length * 2 ^ (1 + counts.length - codeword.length) := by
    rw [← Nat.pow_succ', ← Nat.pow_add]
    congr 1
    omega
  rw [Nat.zero_mul, Nat.zero_add] at reached
  exact Nat.lt_of_mul_lt_mul_right (Nat.lt_of_le_of_lt reached (by omega))

end LosslessJpeg
