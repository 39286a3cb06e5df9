import LosslessJpeg.Proofs.Huffman.CodeTree
import Mathlib.Algebra.BigOperators.Group.Finset.Basic
import Mathlib.Algebra.BigOperators.Ring.Finset
import Mathlib.Algebra.Order.BigOperators.Group.Finset

set_option autoImplicit false

/-!
Limiting code lengths to sixteen bits. Every step keeps the number of codewords and their
Kraft sum, so that a codeword to shorten others at its expense is always found; giving up
the reserved codeword then leaves room.
-/

namespace LosslessJpeg

namespace OptimalCode

open Finset (range)

def measure (weight : Nat → Nat) (counts : LengthCounts) : Nat :=
  ∑ length ∈ range 258, counts.getD length 0 * weight length

def share (length : Nat) : Nat :=
  2 ^ (256 - length)

theorem getD_modify (counts : LengthCounts) {length : Nat} (change : Nat → Nat)
    (inside : length < counts.size) (other : Nat) :
    (counts.modify length change).getD other 0 =
      if other = length then change (counts.getD length 0) else counts.getD other 0 := by
  by_cases same : other = length
  · subst same
    rw [if_pos rfl, Array.getD_eq_getD_getElem?, Array.getElem?_modify, if_pos rfl,
      Array.getD_eq_getD_getElem?, Array.getElem?_eq_getElem inside]
    rfl
  · rw [if_neg same, Array.getD_eq_getD_getElem?, Array.getElem?_modify,
      if_neg fun equal => same equal.symm, Array.getD_eq_getD_getElem?]

theorem measure_modify (weight change : Nat → Nat) {counts : LengthCounts} {length : Nat}
    (size : counts.size = 258) (inside : length < 258) :
    measure weight (counts.modify length change) + counts.getD length 0 * weight length =
      measure weight counts + change (counts.getD length 0) * weight length := by
  have member : length ∈ range 258 := Finset.mem_range.mpr inside
  have others : ∀ other ∈ (range 258).erase length,
      (counts.modify length change).getD other 0 * weight other =
        counts.getD other 0 * weight other := by
    intro other away
    rw [getD_modify counts change (by omega), if_neg (Finset.ne_of_mem_erase away)]
  unfold measure
  rw [← Finset.add_sum_erase _ _ member, Finset.sum_congr rfl others,
    ← Finset.add_sum_erase (range 258) (fun other => counts.getD other 0 * weight other)
      member, getD_modify counts change (by omega), if_pos rfl]
  omega

theorem measure_single (counts : LengthCounts) {length : Nat} (inside : length < 258) :
    measure (fun other => if other = length then 1 else 0) counts =
      counts.getD length 0 := by
  unfold measure
  rw [Finset.sum_eq_single length]
  · dsimp only
    rw [if_pos rfl, Nat.mul_one]
  · intro other _ different
    dsimp only
    rw [if_neg different, Nat.mul_zero]
  · intro absent
    exact absurd (Finset.mem_range.mpr inside) absent

theorem getD_le_measure (counts : LengthCounts) {length : Nat} (inside : length < 258) :
    counts.getD length 0 ≤ measure (fun _ => 1) counts := by
  unfold measure
  simp only [Nat.mul_one]
  exact Finset.single_le_sum (f := fun length => counts.getD length 0)
    (fun _ _ => Nat.zero_le _) (Finset.mem_range.mpr inside)

theorem measure_countLengths (weight : Nat → Nat) {sizes : List (Nat × Nat)}
    (bounded : ∀ entry ∈ sizes, entry.2 < 258) :
    (countLengths sizes).size = 258 ∧
      measure weight (countLengths sizes) = (sizes.map fun entry => weight entry.2).sum := by
  -- Counting starts from empty counters, but the induction needs it from any.
  have counted : ∀ counts : LengthCounts, counts.size = 258 →
      (sizes.foldl (fun counts entry => counts.modify entry.2 (· + 1)) counts).size = 258 ∧
        measure weight
            (sizes.foldl (fun counts entry => counts.modify entry.2 (· + 1)) counts) =
          measure weight counts + (sizes.map fun entry => weight entry.2).sum := by
    induction sizes with
    | nil =>
        intro counts size
        refine ⟨size, ?_⟩
        rw [List.foldl_nil, List.map_nil, List.sum_nil, Nat.add_zero]
    | cons entry rest inductionHypothesis =>
        intro counts size
        have first := measure_modify weight (· + 1) size
          (bounded entry List.mem_cons_self)
        obtain ⟨sizeRest, sumRest⟩ := inductionHypothesis
          (fun other member => bounded other (List.mem_cons_of_mem _ member))
          (counts.modify entry.2 (· + 1)) (by rw [Array.size_modify, size])
        refine ⟨sizeRest, ?_⟩
        rw [List.foldl_cons, sumRest, List.map_cons, List.sum_cons]
        rw [Nat.add_mul, Nat.one_mul] at first
        omega
  have empty : measure weight (Array.replicate 258 0) = 0 := by
    unfold measure
    apply Finset.sum_eq_zero
    intro length member
    rw [Array.getD_eq_getD_getElem?, Array.getElem?_replicate,
      if_pos (Finset.mem_range.mp member), Option.getD_some, Nat.zero_mul]
  obtain ⟨size, sum⟩ := counted (Array.replicate 258 0) Array.size_replicate
  rw [empty, Nat.zero_add] at sum
  exact ⟨size, sum⟩

theorem getD_outside {counts : LengthCounts} (size : counts.size = 258) {length : Nat}
    (outside : 258 ≤ length) : counts.getD length 0 = 0 := by
  rw [Array.getD_eq_getD_getElem?, Array.getElem?_eq_none (size ▸ outside)]
  rfl

theorem countLengths_getD {sizes : List (Nat × Nat)} (bounded : ∀ entry ∈ sizes, entry.2 < 258)
    (length : Nat) : (countLengths sizes).getD length 0 = (sizes.map Prod.snd).count length := by
  by_cases inside : length < 258
  · rw [← measure_single _ inside, (measure_countLengths _ bounded).2]
    clear bounded
    induction sizes with
    | nil => rfl
    | cons entry rest inductionHypothesis =>
        rw [List.map_cons, List.sum_cons, inductionHypothesis, List.map_cons, List.count_cons,
          Nat.add_comm]
        simp only [beq_iff_eq]
  · rw [getD_outside (measure_countLengths (fun _ => 1) bounded).1 (Nat.le_of_not_lt inside),
      List.count_eq_zero.mpr]
    intro member
    obtain ⟨entry, listed, rfl⟩ := List.mem_map.mp member
    exact inside (bounded entry listed)

theorem longestUsed_le (counts : LengthCounts) (limit : Nat) :
    longestUsed counts limit ≤ limit := by
  induction limit with
  | zero => exact Nat.le_refl 0
  | succ limit inductionHypothesis =>
      rw [longestUsed]
      split <;> omega

theorem longestUsed_used {counts : LengthCounts} {limit : Nat}
    (found : longestUsed counts limit ≠ 0) :
    counts.getD (longestUsed counts limit) 0 ≠ 0 := by
  induction limit with
  | zero => exact absurd rfl found
  | succ limit inductionHypothesis =>
      rw [longestUsed] at found ⊢
      split
      · rename_i unused
        rw [if_pos unused] at found
        exact inductionHypothesis found
      · assumption

theorem unused_of_longestUsed_lt {counts : LengthCounts} {limit length : Nat}
    (longer : longestUsed counts limit < length) (inside : length ≤ limit) :
    counts.getD length 0 = 0 := by
  induction limit with
  | zero => omega
  | succ limit inductionHypothesis =>
      rw [longestUsed] at longer
      split at longer
      · rename_i unused
        rcases Nat.lt_or_eq_of_le inside with below | same
        · exact inductionHypothesis longer (Nat.le_of_lt_succ below)
        · subst same
          exact unused
      · omega

/-! ### Shortening -/

/-- Full codes of `total` codewords, none of which is longer than `longest`. -/
structure FullCode (total longest : Nat) (counts : LengthCounts) : Prop where
  size : counts.size = 258
  codewords : measure (fun _ => 1) counts = total
  full : measure share counts = 2 ^ 256
  no_empty : counts.getD 0 0 = 0
  none_longer : ∀ length, longest < length → length < 258 → counts.getD length 0 = 0

variable {total longest : Nat} {counts : LengthCounts}

/-- A full code without codewords of fewer than sixteen bits is larger than any here. -/
theorem FullCode.shorter (code : FullCode total longest counts) (few : total ≤ 257)
    (from16 : 17 ≤ longest) : longestUsed counts (longest - 2) ≠ 0 := by
  intro none
  have small : ∀ length ∈ range 258,
      counts.getD length 0 * share length ≤ counts.getD length 0 * 2 ^ 240 := by
    intro length member
    by_cases long : 16 ≤ length
    · refine Nat.mul_le_mul_left _ (Nat.pow_le_pow_right (by decide) ?_)
      omega
    · have unused : counts.getD length 0 = 0 := by
        by_cases zero : length = 0
        · rw [zero, code.no_empty]
        · have behind : longestUsed counts (longest - 2) < length := by omega
          exact unused_of_longestUsed_lt behind (by omega)
      rw [unused, Nat.zero_mul, Nat.zero_mul]
  have bound : measure share counts ≤ total * 2 ^ 240 := by
    have sum := code.codewords
    unfold measure at sum ⊢
    apply Nat.le_trans (Finset.sum_le_sum small)
    rw [← Finset.sum_mul]
    simp only [Nat.mul_one] at sum
    rw [sum]
  have large : total * 2 ^ 240 ≤ 257 * 2 ^ 240 := Nat.mul_le_mul_right _ few
  rw [code.full] at bound
  have : (257 : Nat) * 2 ^ 240 < 2 ^ 256 := by decide
  omega

theorem FullCode.even (code : FullCode total longest counts) (positive : 0 < longest)
    (limited : longest ≤ 256) : 2 ∣ counts.getD longest 0 := by
  have member : longest ∈ range 258 := Finset.mem_range.mpr (by omega)
  have divides : ∀ other ∈ (range 258).erase longest,
      2 ^ (257 - longest) ∣ counts.getD other 0 * share other := by
    intro other away
    rcases Nat.lt_or_ge longest other with longer | shorter
    · rw [code.none_longer other longer
        (Finset.mem_range.mp (Finset.mem_of_mem_erase away)), Nat.zero_mul]
      exact Nat.dvd_zero _
    · have different := Finset.ne_of_mem_erase away
      exact Dvd.dvd.mul_left (Nat.pow_dvd_pow 2 (by omega)) _
  have whole : 2 ^ (257 - longest) ∣ measure share counts := by
    rw [code.full]
    exact Nat.pow_dvd_pow 2 (by omega)
  unfold measure at whole
  rw [← Finset.add_sum_erase _ _ member,
    Nat.dvd_add_iff_left (Finset.dvd_sum divides) |>.symm] at whole
  have exponent : 257 - longest = (256 - longest) + 1 := by omega
  rw [exponent, Nat.pow_succ, Nat.mul_comm] at whole
  exact Nat.dvd_of_mul_dvd_mul_right (Nat.two_pow_pos _) whole

private theorem shortenPair_eq {donor : Nat}
    (chosen : longestUsed counts (longest - 2) = donor) :
    shortenPair longest counts =
      (((counts.modify longest (· - 2)).modify (longest - 1) (· + 1)).modify (donor + 1)
        (· + 2)).modify donor (· - 1) := by
  subst chosen
  rfl

private theorem shortenPair_getD_outside (size : counts.size = 258) (limited : longest ≤ 256)
    {donor : Nat} (chosen : longestUsed counts (longest - 2) = donor)
    (below : donor + 2 ≤ longest) (length : Nat)
    (outside : length < donor ∨ longest < length) :
    (shortenPair longest counts).getD length 0 = counts.getD length 0 := by
  rw [shortenPair_eq chosen, getD_modify, if_neg (by omega), getD_modify, if_neg (by omega),
    getD_modify, if_neg (by omega), getD_modify, if_neg (by omega)]
  all_goals simp only [Array.size_modify, size]; omega

private theorem shortenPair_getD_longest (size : counts.size = 258) (limited : longest ≤ 256)
    {donor : Nat} (chosen : longestUsed counts (longest - 2) = donor)
    (below : donor + 2 ≤ longest) :
    (shortenPair longest counts).getD longest 0 = counts.getD longest 0 - 2 := by
  rw [shortenPair_eq chosen, getD_modify, if_neg (by omega), getD_modify, if_neg (by omega),
    getD_modify, if_neg (by omega), getD_modify, if_pos rfl]
  all_goals simp only [Array.size_modify, size]; omega

/-- The longest pair becomes one codeword, and that of the donor becomes two. -/
private theorem shortenPair_measure (weight : Nat → Nat) (size : counts.size = 258)
    (limited : longest ≤ 256) (pair : 2 ≤ counts.getD longest 0) {donor : Nat}
    (chosen : longestUsed counts (longest - 2) = donor) (below : donor + 2 ≤ longest)
    (used : counts.getD donor 0 ≠ 0) :
    measure weight (shortenPair longest counts) + weight donor + 2 * weight longest =
      measure weight counts + weight (longest - 1) + 2 * weight (donor + 1) := by
  -- Four counters change one after the other. The first three changes leave the one of the donor
  -- alone.
  rw [shortenPair_eq chosen]
  generalize first : counts.modify longest (· - 2) = one
  generalize second : one.modify (longest - 1) (· + 1) = two
  generalize third : two.modify (donor + 1) (· + 2) = three
  have size1 : one.size = 258 := by rw [← first, Array.size_modify, size]
  have size2 : two.size = 258 := by rw [← second, Array.size_modify, size1]
  have size3 : three.size = 258 := by rw [← third, Array.size_modify, size2]
  have donorCount : three.getD donor 0 = counts.getD donor 0 := by
    rw [← third, getD_modify _ _ (by omega), if_neg (by omega), ← second,
      getD_modify _ _ (by omega), if_neg (by omega), ← first, getD_modify _ _ (by omega),
      if_neg (by omega)]
  have sum1 := measure_modify weight (· - 2) size (by omega : longest < 258)
  have sum2 := measure_modify weight (· + 1) size1 (by omega : longest - 1 < 258)
  have sum3 := measure_modify weight (· + 2) size2 (by omega : donor + 1 < 258)
  have sum4 := measure_modify weight (· - 1) size3 (by omega : donor < 258)
  rw [first] at sum1
  rw [second] at sum2
  rw [third] at sum3
  rw [donorCount] at sum4
  obtain ⟨pairs, many⟩ : ∃ pairs, counts.getD longest 0 = pairs + 2 :=
    ⟨counts.getD longest 0 - 2, by omega⟩
  obtain ⟨donors, some⟩ : ∃ donors, counts.getD donor 0 = donors + 1 :=
    ⟨counts.getD donor 0 - 1, by omega⟩
  rw [many] at sum1
  rw [some] at sum4
  simp only [Nat.add_sub_cancel, Nat.add_mul, Nat.one_mul] at sum1 sum2 sum3 sum4
  omega

private theorem two_mul_share {length : Nat} (positive : 0 < length) (limited : length ≤ 256) :
    2 * share length = share (length - 1) := by
  unfold share
  rw [Nat.mul_comm, ← Nat.pow_succ]
  congr 1
  omega

theorem shortenPair_full (code : FullCode total longest counts) (few : total ≤ 257)
    (from16 : 17 ≤ longest) (limited : longest ≤ 256) (pair : 2 ≤ counts.getD longest 0) :
    FullCode total longest (shortenPair longest counts) ∧
      (shortenPair longest counts).getD longest 0 = counts.getD longest 0 - 2 := by
  obtain ⟨donor, chosen⟩ : ∃ donor, longestUsed counts (longest - 2) = donor := ⟨_, rfl⟩
  have positive := code.shorter few from16
  have used := longestUsed_used positive
  have atMost := longestUsed_le counts (longest - 2)
  rw [chosen] at positive used atMost
  have below : donor + 2 ≤ longest := by omega
  -- One equation for all sums: with weights of one it counts codewords, with shares it is the sum
  -- of Kraft.
  have moved := fun weight =>
    shortenPair_measure weight code.size limited pair chosen below used
  have kept := shortenPair_getD_outside code.size limited chosen below
  refine ⟨⟨?size, ?codewords, ?full, ?no_empty, ?none_longer⟩,
    shortenPair_getD_longest code.size limited chosen below⟩
  case size =>
    rw [shortenPair_eq chosen]
    simp only [Array.size_modify, code.size]
  case codewords =>
    have words := moved fun _ => 1
    rw [code.codewords] at words
    omega
  case full =>
    have shares := moved share
    have sibling := two_mul_share (by omega : 0 < longest) limited
    have child : 2 * share (donor + 1) = share donor :=
      two_mul_share (Nat.zero_lt_succ donor) (by omega)
    rw [code.full] at shares
    omega
  case no_empty =>
    rw [kept 0 (Or.inl (Nat.pos_of_ne_zero positive)), code.no_empty]
  case none_longer =>
    intro length longer inside
    rw [kept length (Or.inr longer), code.none_longer length longer inside]

theorem shortenAll_full (code : FullCode total longest counts) (few : total ≤ 257)
    (from16 : 17 ≤ longest) (limited : longest ≤ 256) :
    FullCode total (longest - 1) (shortenAll counts longest) := by
  have repeated : ∀ rounds, 2 * rounds ≤ counts.getD longest 0 →
      FullCode total longest
          (Nat.repeat (shortenPair longest) rounds counts) ∧
        (Nat.repeat (shortenPair longest) rounds counts).getD longest 0 =
          counts.getD longest 0 - 2 * rounds := by
    intro rounds
    induction rounds with
    | zero =>
        intro _
        exact ⟨code, rfl⟩
    | succ rounds inductionHypothesis =>
        intro enough
        obtain ⟨before, left⟩ := inductionHypothesis (by omega)
        obtain ⟨after, fewer⟩ := shortenPair_full before few from16 limited (by omega)
        rw [Nat.repeat]
        exact ⟨after, by omega⟩
  have pairs := code.even (by omega) limited
  obtain ⟨after, left⟩ := repeated (counts.getD longest 0 / 2) (by omega)
  unfold shortenAll
  refine ⟨after.size, after.codewords, after.full, after.no_empty, ?_⟩
  intro length longer inside
  by_cases same : length = longest
  · rw [same, left]
    omega
  · exact after.none_longer length (by omega) inside

theorem shortenAll_of_unused {length : Nat} (unused : counts.getD length 0 = 0) :
    shortenAll counts length = counts := by
  unfold shortenAll
  rw [unused]
  rfl

/-- One round of limiting. No codeword has 257 bits, so that the first round does nothing. -/
theorem shortenAll_round {length : Nat} (few : total ≤ 257) (from17 : 17 ≤ length)
    (inside : length ≤ 257) (code : FullCode total (min length 256) counts) :
    FullCode total (min (length - 1) 256) (shortenAll counts length) := by
  rcases Nat.lt_or_eq_of_le inside with short | rfl
  · have here : min length 256 = length := by omega
    have lower : min (length - 1) 256 = length - 1 := by omega
    rw [here] at code
    rw [lower]
    exact shortenAll_full code few from17 (by omega)
  · rw [shortenAll_of_unused (code.none_longer 257 (by decide) (by decide))]
    exact code

/-- The rounds of limiting, the greatest length first. Every round starts at a full code whose
codewords are no longer than the length in turn, so that what holds at the end is carried back
from round to round. -/
theorem limitLengths_induction {motive : List Nat → LengthCounts → LengthCounts → Prop}
    (few : total ≤ 257) (stop : ∀ counts, FullCode total 16 counts → motive [] counts counts)
    (round : ∀ length lengths counts after, 17 ≤ length → length ≤ 257 →
      FullCode total (min length 256) counts → motive lengths (shortenAll counts length) after →
        motive (length :: lengths) counts after)
    (code : FullCode total 256 counts) :
    motive (List.range' 17 241).reverse counts (limitLengths counts) := by
  have down : ∀ steps, steps ≤ 241 → ∀ counts, FullCode total (min (16 + steps) 256) counts →
      motive (List.range' 17 steps).reverse counts
        ((List.range' 17 steps).reverse.foldl shortenAll counts) := by
    intro steps
    induction steps with
    | zero =>
        intro _ counts code
        exact stop counts code
    | succ steps inductionHypothesis =>
        intro bounded counts code
        have named : 16 + (steps + 1) = 17 + steps := by omega
        rw [named] at code
        have shortened := shortenAll_round few (by omega) (by omega) code
        have lower : 17 + steps - 1 = 16 + steps := by omega
        rw [lower] at shortened
        rw [List.range'_1_concat, List.reverse_append, List.reverse_singleton,
          List.singleton_append, List.foldl_cons]
        exact round _ _ counts _ (by omega) (by omega) code
          (inductionHypothesis (by omega) _ shortened)
  exact down 241 (Nat.le_refl _) counts code

theorem limitLengths_full (code : FullCode total 256 counts) (few : total ≤ 257) :
    FullCode total 16 (limitLengths counts) :=
  limitLengths_induction (motive := fun _ _ after => FullCode total 16 after) few
    (fun _ short => short) (fun _ _ _ _ _ _ _ later => later) code

theorem limitLengths_eq_self
    (short : ∀ length, 16 < length → counts.getD length 0 = 0) :
    limitLengths counts = counts := by
  have kept : ∀ lengths : List Nat, (∀ length ∈ lengths, 16 < length) →
      lengths.foldl shortenAll counts = counts := by
    intro lengths long
    induction lengths with
    | nil => rfl
    | cons length rest inductionHypothesis =>
        rw [List.foldl_cons, shortenAll_of_unused (short length (long length List.mem_cons_self))]
        exact inductionHypothesis fun other later => long other (List.mem_cons_of_mem _ later)
  refine kept _ fun length member => ?_
  have bounds := List.mem_range'_1.mp (List.mem_reverse.mp member)
  omega

/-! ### Giving up the reserved codeword -/

/-- The counts of an optimal table: they leave room in the code space, and none of them
exceeds a byte. -/
structure LimitedCode (total : Nat) (counts : LengthCounts) : Prop where
  codewords : measure (fun _ => 1) counts = total
  no_empty : counts.getD 0 0 = 0
  none_longer : ∀ length, 16 < length → length < 258 → counts.getD length 0 = 0
  room : measure share counts < 2 ^ 256
  narrow : ∀ length, length < 258 → counts.getD length 0 < 256

/-- No full code has 256 codewords of one length and one that is no shorter. -/
private theorem no_crowd (length longest : Nat) (ordered : length ≤ longest)
    (limited : longest ≤ 16) : 256 * share length + share longest ≠ 2 ^ 256 := by
  have checked : ∀ longest ≤ 16, ∀ length ≤ longest,
      256 * 2 ^ (16 - length) + 2 ^ (16 - longest) ≠ 2 ^ 16 := by
    decide
  intro full
  apply checked longest limited length ordered
  have scaled : ∀ bits ≤ 16, share bits = 2 ^ (16 - bits) * 2 ^ 240 := by
    intro bits bounded
    unfold share
    rw [← Nat.pow_add]
    congr 1
    omega
  rw [scaled length (by omega), scaled longest limited, ← Nat.mul_assoc, ← Nat.add_mul] at full
  refine Nat.eq_of_mul_eq_mul_right (Nat.two_pow_pos 240) (full.trans ?_)
  rw [← Nat.pow_add]

theorem FullCode.used (code : FullCode total 16 counts) : longestUsed counts 16 ≠ 0 := by
  intro none
  have unused : ∀ length ∈ range 258, counts.getD length 0 * share length = 0 := by
    intro length member
    have zero : counts.getD length 0 = 0 := by
      by_cases empty : length = 0
      · rw [empty, code.no_empty]
      · by_cases short : length ≤ 16
        · have behind : longestUsed counts 16 < length := by omega
          exact unused_of_longestUsed_lt behind short
        · exact code.none_longer length (by omega) (Finset.mem_range.mp member)
    rw [zero, Nat.zero_mul]
  have full := code.full
  unfold measure at full
  rw [Finset.sum_eq_zero unused] at full
  exact absurd full (by decide)

private theorem measure_remove (weight : Nat → Nat) (size : counts.size = 258)
    (inside : longest < 258) (used : counts.getD longest 0 ≠ 0) :
    measure weight (counts.modify longest (· - 1)) + weight longest = measure weight counts := by
  have sum := measure_modify weight (· - 1) size inside
  obtain ⟨others, some⟩ : ∃ others, counts.getD longest 0 = others + 1 :=
    ⟨counts.getD longest 0 - 1, by omega⟩
  rw [some] at sum
  simp only [Nat.add_sub_cancel, Nat.add_mul, Nat.one_mul] at sum
  omega

private theorem measure_alone {length : Nat} (inside : length < 258)
    (all : measure (fun _ => 1) counts = counts.getD length 0) (weight : Nat → Nat) :
    measure weight counts = counts.getD length 0 * weight length := by
  have member := Finset.mem_range.mpr inside
  have others : ∀ other ∈ (range 258).erase length,
      counts.getD other 0 * weight other = 0 := by
    unfold measure at all
    simp only [Nat.mul_one] at all
    rw [← Finset.add_sum_erase _ _ member] at all
    have zero : ∑ other ∈ (range 258).erase length, counts.getD other 0 = 0 := by
      omega
    intro other away
    rw [Finset.sum_eq_zero_iff.mp zero other away, Nat.zero_mul]
  unfold measure
  rw [← Finset.add_sum_erase _ _ member, Finset.sum_eq_zero others, Nat.add_zero]

theorem dropReserved_size (counts : LengthCounts) :
    (dropReserved counts).size = counts.size := by
  unfold dropReserved
  split
  · rfl
  · exact Array.size_modify

theorem FullCode.dropReserved_eq (code : FullCode total 16 counts) :
    dropReserved counts = counts.modify (longestUsed counts 16) (· - 1) := by
  unfold dropReserved
  split
  case h_1 none => exact absurd none code.used
  case h_2 shorter chosen =>
    change longestUsed counts 16 = shorter + 1 at chosen
    rw [chosen]

theorem dropReserved_getD (code : FullCode total 16 counts) (length : Nat) :
    counts.getD length 0 = (dropReserved counts).getD length 0 +
      if longestUsed counts 16 = length then 1 else 0 := by
  have used := longestUsed_used code.used
  have short := longestUsed_le counts 16
  rw [code.dropReserved_eq, getD_modify counts _ (by rw [code.size]; omega)]
  by_cases same : length = longestUsed counts 16
  · rw [if_pos same, if_pos same.symm, same]
    omega
  · rw [if_neg same, if_neg fun equal => same equal.symm, Nat.add_zero]

theorem dropReserved_limited (code : FullCode (total + 1) 16 counts) (few : total ≤ 256) :
    LimitedCode total (dropReserved counts) := by
  have short := longestUsed_le counts 16
  have removed := fun weight => measure_remove weight code.size
    (by omega : longestUsed counts 16 < 258) (longestUsed_used code.used)
  simp only [← code.dropReserved_eq] at removed
  have words := removed fun _ => 1
  have shares := removed share
  have taken : 0 < share (longestUsed counts 16) := Nat.two_pow_pos _
  rw [code.codewords] at words
  rw [code.full] at shares
  refine ⟨by omega, ?no_empty, ?none_longer, by omega, ?narrow⟩
  case no_empty =>
    have none := code.no_empty
    rw [dropReserved_getD code] at none
    exact Nat.eq_zero_of_add_eq_zero_right none
  case none_longer =>
    intro length longer inside
    have none := code.none_longer length longer inside
    rw [dropReserved_getD code] at none
    exact Nat.eq_zero_of_add_eq_zero_right none
  case narrow =>
    intro length inside
    -- With 256 codewords of one length the reserved one would be no shorter, which no full code
    -- allows.
    by_contra crowded
    have atMost := getD_le_measure (dropReserved counts) inside
    have all : (dropReserved counts).getD length 0 = 256 := by omega
    have ordered : length ≤ longestUsed counts 16 := by
      by_contra longer
      have none : counts.getD length 0 = 0 := by
        by_cases limited : length ≤ 16
        · exact unused_of_longestUsed_lt (Nat.lt_of_not_le longer) limited
        · exact code.none_longer length (by omega) inside
      rw [dropReserved_getD code] at none
      omega
    rw [measure_alone inside (by omega) share, all] at shares
    exact no_crowd length _ ordered short shares

def lengthCounts (frequencies : Frequencies) : LengthCounts :=
  dropReserved (limitLengths (countLengths (codeSizes frequencies)))

/-- Before any limit the codewords of an optimal code form a full code. -/
theorem countedCode (frequencies : Frequencies) :
    FullCode ((usedSymbols frequencies).length + 1) 256
      (countLengths (codeSizes frequencies)) := by
  have bounded : ∀ entry ∈ codeSizes frequencies, entry.2 < 258 := by
    intro entry member
    have bounds := codeSizes_bounds member
    omega
  have sums := fun weight => measure_countLengths weight bounded
  have total := (codeSizes_symbols frequencies).length_eq
  rw [List.length_map, List.length_append, List.length_map, List.length_singleton] at total
  have unused : ∀ length, (∀ entry ∈ codeSizes frequencies, entry.2 ≠ length) →
      (countLengths (codeSizes frequencies)).getD length 0 = 0 := by
    intro length absent
    rw [countLengths_getD bounded, List.count_eq_zero]
    intro member
    obtain ⟨entry, listed, same⟩ := List.mem_map.mp member
    exact absent entry listed same
  exact
    { size := (sums fun _ => 1).1
      codewords := by
        rw [(sums _).2, List.map_const', List.sum_replicate_nat, Nat.mul_one, total]
      full := (sums share).2.trans (codeSizes_kraft frequencies)
      no_empty := unused 0 fun entry member => by
        have bounds := codeSizes_bounds member
        omega
      none_longer := fun length longer _ => unused length fun entry member => by
        have bounds := codeSizes_bounds member
        omega }

theorem cappedCode (frequencies : Frequencies) :
    FullCode ((usedSymbols frequencies).length + 1) 16
      (limitLengths (countLengths (codeSizes frequencies))) :=
  limitLengths_full (countedCode frequencies)
    (Nat.succ_le_succ (usedSymbols_length frequencies).2)

theorem limitedCode (frequencies : Frequencies) :
    LimitedCode (usedSymbols frequencies).length (lengthCounts frequencies) :=
  dropReserved_limited (cappedCode frequencies) (usedSymbols_length frequencies).2

end OptimalCode

end LosslessJpeg
