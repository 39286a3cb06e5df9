import LosslessJpeg.Proofs.Checked.OptimalTable
import LosslessJpeg.Proofs.Huffman.DealtLengths
import LosslessJpeg.Proofs.Huffman.MergeCost
import Mathlib.Algebra.BigOperators.Field
import Mathlib.Algebra.Order.Field.Rat

set_option autoImplicit false

/-!
An optimal table is as good as any code. If no leaf of its tree lies deeper than sixteen, no
positive lengths that satisfy the inequality of Kraft make the symbols cost less.
-/

namespace LosslessJpeg

namespace Coded

private theorem room_eq {limit : Nat} {lengths : List Nat}
    (short : ∀ length ∈ lengths, length ≤ limit) :
    (((lengths.map fun length => 2 ^ (limit - length)).sum : Nat) : ℚ) =
      2 ^ limit * (lengths.map fun length => (1 / 2 : ℚ) ^ length).sum := by
  induction lengths with
  | nil => simp
  | cons length rest inductionHypothesis =>
      have split : (2 : ℚ) ^ limit = 2 ^ (limit - length) * 2 ^ length := by
        rw [← pow_add, Nat.sub_add_cancel (short length List.mem_cons_self)]
      have whole : (2 : ℚ) ^ limit * (1 / 2) ^ length = 2 ^ (limit - length) := by
        rw [split, mul_assoc, ← mul_pow, mul_one_div_cancel two_ne_zero, one_pow, mul_one]
      rw [List.map_cons, List.map_cons, List.sum_cons, List.sum_cons, mul_add, whole,
        Nat.cast_add, inductionHypothesis fun other later =>
          short other (List.mem_cons_of_mem _ later)]
      push_cast
      rfl

theorem exists_fits {lengths : List Nat}
    (kraft : (lengths.map fun length => (1 / 2 : ℚ) ^ length).sum ≤ 1) :
    ∃ limit, Fits limit lengths := by
  refine ⟨lengths.sum, ?_⟩
  have short : ∀ length ∈ lengths, length ≤ lengths.sum := fun _ => List.le_sum_of_mem
  refine ⟨short, ?_⟩
  have positive : (0 : ℚ) ≤ 2 ^ lengths.sum := pow_nonneg zero_le_two lengths.sum
  have scaled := mul_le_mul_of_nonneg_left kraft positive
  rw [mul_one, ← room_eq short] at scaled
  exact_mod_cast scaled

theorem Fits.kraft {limit : Nat} {lengths : List Nat} (fits : Fits limit lengths) :
    (lengths.map fun length => (1 / 2 : ℚ) ^ length).sum ≤ 1 := by
  have room : (((lengths.map fun length => 2 ^ (limit - length)).sum : Nat) : ℚ) ≤ 2 ^ limit := by
    exact_mod_cast fits.room
  rw [room_eq fits.short] at room
  exact (mul_le_iff_le_one_right (pow_pos two_pos limit)).mp room

end Coded

namespace OptimalCode

/-- How often a symbol counts. If none occurs, symbol 0 counts once. -/
def weight (frequencies : Frequencies) (symbol : Fin 256) : Nat :=
  if (∀ other, frequencies.get other = 0) ∧ symbol = 0 then 1
  else (frequencies.get symbol).toNat

def weightOf (frequencies : Frequencies) (symbol : Nat) : Nat :=
  (symbolWeights frequencies).getD symbol 1

variable (frequencies : Frequencies)

theorem symbolWeights_val (symbol : Fin 256) :
    (symbolWeights frequencies)[symbol.val]? = some (weight frequencies symbol) := by
  rw [weight]
  exact symbolWeights_getElem? frequencies symbol

theorem weightOf_val (symbol : Fin 256) :
    weightOf frequencies symbol.val = weight frequencies symbol := by
  rw [weightOf, List.getD_eq_getElem?_getD, symbolWeights_val, Option.getD_some]

theorem weightOf_reserved : weightOf frequencies reserved = 1 := by
  have few : (symbolWeights frequencies).length ≤ reserved :=
    Nat.le_of_eq (symbolWeights_length frequencies)
  rw [weightOf, List.getD_eq_getElem?_getD, List.getElem?_eq_none few, Option.getD_none]

theorem weightOf_entry {entry : Nat × Nat}
    (member : entry ∈ usedSymbols frequencies ++ [(reserved, 1)]) :
    weightOf frequencies entry.1 = entry.2 ∧ 1 ≤ entry.2 := by
  rcases List.mem_append.mp member with used | last
  · obtain ⟨positive, there⟩ := mem_usedSymbols_iff.mp used
    rw [weightOf, List.getD_eq_getElem?_getD, there]
    exact ⟨rfl, positive⟩
  · obtain rfl := List.mem_singleton.mp last
    exact ⟨weightOf_reserved frequencies, Nat.le_refl 1⟩

def inUse : List (Fin 256) :=
  (List.finRange 256).filter fun symbol => weight frequencies symbol ≠ 0

theorem mem_inUse {symbol : Fin 256} :
    symbol ∈ inUse frequencies ↔ weight frequencies symbol ≠ 0 := by
  rw [inUse, List.mem_filter, decide_eq_true_iff, and_iff_right (List.mem_finRange symbol)]

theorem inUse_distinct : (inUse frequencies).Nodup :=
  (List.nodup_finRange 256).filter _

theorem inUse_sum {Value : Type} [AddCommMonoid Value] (value : Fin 256 → Value) :
    ((inUse frequencies).map value).sum =
      ∑ symbol with weight frequencies symbol ≠ 0, value symbol := by
  rw [← List.sum_toFinset value (inUse_distinct frequencies)]
  apply Finset.sum_congr _ fun _ _ => rfl
  ext symbol
  rw [List.mem_toFinset, Finset.mem_filter, and_iff_right (Finset.mem_univ symbol)]
  exact mem_inUse frequencies

theorem usedSymbols_perm :
    (usedSymbols frequencies).Perm
      ((inUse frequencies).map fun symbol => (symbol.val, weight frequencies symbol)) := by
  have distinct : ((inUse frequencies).map fun symbol =>
      (symbol.val, weight frequencies symbol)).Nodup :=
    (inUse_distinct frequencies).map fun first second same => Fin.ext (congrArg Prod.fst same)
  rw [List.perm_ext_iff_of_nodup (List.Nodup.of_map _ (usedSymbols_distinct frequencies)) distinct]
  rintro ⟨symbol, heavy⟩
  rw [mem_usedSymbols_iff, List.mem_map]
  constructor
  · rintro ⟨positive, there⟩
    obtain ⟨inside, -⟩ := List.getElem?_eq_some_iff.mp there
    rw [symbolWeights_length] at inside
    obtain rfl := Option.some.inj
      ((symbolWeights_val frequencies ⟨symbol, inside⟩).symm.trans there)
    exact ⟨⟨symbol, inside⟩, (mem_inUse frequencies).mpr (Nat.ne_of_gt positive), rfl⟩
  · rintro ⟨symbol, member, same⟩
    cases same
    exact ⟨Nat.pos_of_ne_zero ((mem_inUse frequencies).mp member),
      symbolWeights_val frequencies symbol⟩

theorem orderedSizes_sum {Value : Type} [AddCommMonoid Value] (value : Nat → Value) :
    ((orderedSizes frequencies).map fun entry => value entry.1).sum =
      ∑ symbol with weight frequencies symbol ≠ 0, value symbol.val := by
  obtain ⟨size, perm⟩ := codeSizes_perm frequencies
  have symbols := (perm.map Prod.fst).symm.trans (codeSizes_symbols frequencies)
  rw [List.map_cons] at symbols
  have named := (symbols.trans List.perm_append_comm).cons_inv.trans
    ((usedSymbols_perm frequencies).map Prod.fst)
  have sums := (named.map value).sum_eq
  rw [List.map_map, List.map_map, List.map_map] at sums
  exact sums.trans (inUse_sum frequencies fun symbol => value symbol.val)

theorem forest_rising : WeightedTree.Rising (forest frequencies) := by
  unfold forest
  generalize usedSymbols frequencies ++ [(reserved, 1)] = entries
  have start : WeightedTree.Rising [] := List.Pairwise.nil
  generalize ([] : List WeightedTree) = trees at start ⊢
  induction entries generalizing trees with
  | nil => exact start
  | cons entry rest inductionHypothesis =>
      exact inductionHypothesis _ (WeightedTree.insert_rising start)

theorem forest_weights :
    ((forest frequencies).map WeightedTree.weight).Perm
      ((inUse frequencies).map (weight frequencies) ++ [1]) := by
  have leaves := (forest_perm frequencies).map WeightedTree.weight
  rw [List.map_map, List.map_append] at leaves
  refine leaves.trans (List.Perm.append_right _ ?_)
  have used := (usedSymbols_perm frequencies).map Prod.snd
  simp only [List.map_map, Function.comp_def] at used
  exact used

/-- With the depths of their leaves symbols cost what joining costs. -/
theorem codeSizes_cost :
    ((codeSizes frequencies).map fun entry => weightOf frequencies entry.1 * entry.2).sum =
      WeightedTree.mergeCost (forest frequencies) := by
  have leaf : ∀ tree ∈ forest frequencies, ∃ symbol,
      tree.tree = .leaf symbol ∧ tree.weight = weightOf frequencies symbol := by
    intro tree member
    obtain ⟨entry, listed, rfl⟩ := List.mem_map.mp ((forest_perm frequencies).mem_iff.mp member)
    exact ⟨entry.1, rfl, (weightOf_entry frequencies listed).1.symm⟩
  obtain ⟨last, joined, -⟩ := WeightedTree.joinAll_symbols (forest_ne_nil frequencies)
  have weighed : ∀ tree ∈ forest frequencies,
      tree.weight = tree.tree.weigh (weightOf frequencies) := by
    intro tree member
    obtain ⟨symbol, alone, heavy⟩ := leaf tree member
    rw [alone, heavy, CodeTree.weigh, CodeTree.symbols, List.map_singleton, List.sum_singleton]
  have free : ((forest frequencies).map fun tree =>
      tree.tree.cost (weightOf frequencies)).sum = 0 := by
    apply List.sum_eq_zero
    intro cost member
    obtain ⟨tree, listed, rfl⟩ := List.mem_map.mp member
    obtain ⟨symbol, alone, -⟩ := leaf tree listed
    rw [alone, CodeTree.cost, CodeTree.depths, CodeTree.depthsFrom, List.map_singleton,
      List.sum_singleton, Nat.mul_zero]
  have cost := WeightedTree.joinAll_cost weighed joined
  rw [free, Nat.zero_add] at cost
  unfold codeSizes
  rw [joined, Option.map_some, Option.getD_some]
  exact cost

/-! ### Codes for the symbols in use -/

/-- Lengths of codewords for the symbols in use and the reserved one, of weight one. -/
structure Lengths (frequencies : Frequencies) where
  ofSymbol : Fin 256 → Nat
  ofReserved : Nat
  positive : ∀ symbol, weight frequencies symbol ≠ 0 → 1 ≤ ofSymbol symbol
  reserved_positive : 1 ≤ ofReserved
  kraft : (∑ symbol with weight frequencies symbol ≠ 0, (1 / 2 : ℚ) ^ ofSymbol symbol) +
    (1 / 2) ^ ofReserved ≤ 1

namespace Lengths

variable {frequencies}

def cost (lengths : Lengths frequencies) : Nat :=
  ∑ symbol, weight frequencies symbol * lengths.ofSymbol symbol + lengths.ofReserved

theorem cost_eq (lengths : Lengths frequencies) :
    lengths.cost = (∑ symbol with weight frequencies symbol ≠ 0,
      weight frequencies symbol * lengths.ofSymbol symbol) + lengths.ofReserved := by
  rw [cost, Finset.sum_filter_of_ne]
  exact fun symbol _ => left_ne_zero_of_mul

/-- No code costs less than joining. -/
theorem mergeCost_le_cost (lengths : Lengths frequencies) :
    WeightedTree.mergeCost (forest frequencies) ≤ lengths.cost := by
  obtain ⟨codes, named⟩ : ∃ codes, codes = (inUse frequencies).map (fun symbol =>
    Coded.mk (weight frequencies symbol) (lengths.ofSymbol symbol)) ++
      [Coded.mk 1 lengths.ofReserved] := ⟨_, rfl⟩
  have measured : codes.map Coded.length =
      (inUse frequencies).map lengths.ofSymbol ++ [lengths.ofReserved] := by
    rw [named, List.map_append, List.map_map, Function.comp_def, List.map_singleton]
  have weighed : codes.map Coded.weight = (inUse frequencies).map (weight frequencies) ++ [1] := by
    rw [named, List.map_append, List.map_map, Function.comp_def, List.map_singleton]
  have cost : Coded.cost codes = lengths.cost := by
    rw [named, Coded.cost, List.map_append, List.map_map, List.sum_append_nat, cost_eq,
      ← inUse_sum, List.map_singleton, List.sum_singleton, Nat.one_mul, Function.comp_def]
  obtain ⟨limit, fits⟩ : ∃ limit, Coded.Fits limit (codes.map Coded.length) := by
    apply Coded.exists_fits
    rw [measured, List.map_append, List.map_map, List.sum_append, List.map_singleton,
      List.sum_singleton, inUse_sum]
    exact lengths.kraft
  rw [← cost]
  exact WeightedTree.mergeCost_le (forest_rising frequencies) fits
    (weighed ▸ (forest_weights frequencies).symm)

end Lengths

variable {frequencies}

theorem dealt_kraft (tableClass id : UInt8)
    (short : ∀ entry ∈ codeSizes frequencies, entry.2 ≤ 16) :
    (∑ symbol with weight frequencies symbol ≠ 0,
      (1 / 2 : ℚ) ^ tableLength frequencies tableClass id symbol.val) +
        (1 / 2) ^ longestSize frequencies ≤ 1 := by
  have sizes : Coded.Fits 256 ((codeSizes frequencies).map Prod.snd) := by
    constructor
    · intro size member
      obtain ⟨entry, listed, rfl⟩ := List.mem_map.mp member
      exact (codeSizes_bounds listed).2
    · rw [List.map_map]
      exact Nat.le_of_eq (codeSizes_kraft frequencies)
  have kraft := (sizes.perm (dealt_perm tableClass id short).symm).kraft
  rw [← orderedSizes_lengths, List.map_append, List.sum_append, List.map_map, List.map_singleton,
    List.sum_singleton] at kraft
  rw [← orderedSizes_sum frequencies fun symbol =>
    (1 / 2 : ℚ) ^ tableLength frequencies tableClass id symbol]
  exact kraft

theorem exists_codeword (tableClass id : UInt8) {symbol : Fin 256}
    (some : weight frequencies symbol ≠ 0) :
    ∃ codeword, (HuffmanEncoder.ofTable (optimalTable tableClass id frequencies)).encode
        (UInt8.ofNat symbol.val) = .ok codeword ∧ 1 ≤ codeword.length := by
  have listed : (UInt8.ofNat symbol.val).toNat ∈ (usedSymbols frequencies).map Prod.fst := by
    rw [UInt8.toNat_ofNat', Nat.mod_eq_of_lt symbol.isLt]
    refine List.mem_map.mpr ⟨(symbol.val, weight frequencies symbol), ?_, rfl⟩
    exact mem_usedSymbols_iff.mpr ⟨Nat.pos_of_ne_zero some, symbolWeights_val frequencies symbol⟩
  obtain ⟨codeword, encoded⟩ := optimalTable_encode_of_mem tableClass id frequencies
    (mem_orderedSymbols_iff.mpr listed)
  have coded := (optimalTable_encode_eq_ok tableClass id frequencies encoded).2
  exact ⟨codeword, encoded, (optimalTable_codewords tableClass id frequencies coded).1⟩

/-- The lengths of the codewords of a table, with the longest one for the reserved symbol. -/
def dealt (tableClass id : UInt8) (short : ∀ entry ∈ codeSizes frequencies, entry.2 ≤ 16) :
    Lengths frequencies where
  ofSymbol symbol := tableLength frequencies tableClass id symbol.val
  ofReserved := longestSize frequencies
  positive symbol some := by
    obtain ⟨codeword, encoded, positive⟩ := exists_codeword tableClass id some
    rw [tableLength, HuffmanEncoder.lengthOf_of_encode encoded]
    exact positive
  reserved_positive := Nat.pos_of_ne_zero (cappedCode frequencies).used
  kraft := dealt_kraft tableClass id short

theorem dealt_ofSymbol (tableClass id : UInt8)
    (short : ∀ entry ∈ codeSizes frequencies, entry.2 ≤ 16) (symbol : Fin 256) :
    (dealt tableClass id short).ofSymbol symbol =
      tableLength frequencies tableClass id symbol.val := by
  rw [dealt]

theorem dealt_ofReserved (tableClass id : UInt8)
    (short : ∀ entry ∈ codeSizes frequencies, entry.2 ≤ 16) :
    (dealt tableClass id short).ofReserved = longestSize frequencies := by
  rw [dealt]

theorem dealt_cost (tableClass id : UInt8)
    (short : ∀ entry ∈ codeSizes frequencies, entry.2 ≤ 16) :
    (dealt tableClass id short).cost ≤ WeightedTree.mergeCost (forest frequencies) := by
  have positive : ∀ entry ∈ codeSizes frequencies, 1 ≤ weightOf frequencies entry.1 := by
    intro entry member
    have symbols := codeSizes_symbols frequencies
    rw [← List.map_singleton (f := Prod.fst) (a := (reserved, 1)), ← List.map_append] at symbols
    obtain ⟨leaf, listed, same⟩ :=
      List.mem_map.mp (symbols.mem_iff.mp (List.mem_map_of_mem member))
    obtain ⟨weighed, some⟩ := weightOf_entry frequencies listed
    rw [← same, weighed]
    exact some
  have cost := dealt_cost_le tableClass id short positive (weightOf_reserved frequencies)
  rw [codeSizes_cost] at cost
  rw [Lengths.cost_eq]
  refine Nat.le_trans (Nat.le_of_eq ?_) cost
  rw [orderedSizes_sum frequencies fun symbol =>
    weightOf frequencies symbol * tableLength frequencies tableClass id symbol]
  simp only [weightOf_val, dealt]

end OptimalCode

open OptimalCode

/-- An optimal table costs least. If no leaf of the tree lies deeper than sixteen, no positive
lengths that satisfy the inequality of Kraft make the symbols in use and the reserved one cost
less than the codewords of the table and the longest length before the reserved one is given up. -/
theorem optimalTable_minimal (tableClass id : UInt8) {frequencies : Frequencies}
    (short : ∀ entry ∈ codeSizes frequencies, entry.2 ≤ 16) :
    ∃ lengths : Lengths frequencies,
      Checked.optimalTable tableClass id frequencies =
        .ok (optimalTable tableClass id frequencies) ∧
      (∀ symbol, weight frequencies symbol ≠ 0 → ∃ codeword,
        (HuffmanEncoder.ofTable (optimalTable tableClass id frequencies)).encode
          (UInt8.ofNat symbol.val) = .ok codeword ∧
        codeword.length = lengths.ofSymbol symbol) ∧
      lengths.ofReserved = longestUsed (limitLengths (countLengths (codeSizes frequencies))) 16 ∧
      ∀ other : Lengths frequencies, lengths.cost ≤ other.cost := by
  refine ⟨dealt tableClass id short, Checked.optimalTable_eq tableClass id frequencies,
    fun symbol some => ?_, ?_, fun other => ?_⟩
  · obtain ⟨codeword, encoded, -⟩ := exists_codeword tableClass id some
    refine ⟨codeword, encoded, ?_⟩
    rw [dealt_ofSymbol, tableLength, HuffmanEncoder.lengthOf_of_encode encoded]
  · rw [dealt_ofReserved, longestSize]
  · exact Nat.le_trans (dealt_cost tableClass id short) other.mergeCost_le_cost

def threeSymbols : Frequencies :=
  Vector.ofFn fun symbol => if symbol = 0 then 3 else if symbol < 3 then 1 else 0

private theorem weight_threeSymbols (symbol : Fin 256) :
    weight threeSymbols symbol = if symbol = 0 then 3 else if symbol < 3 then 1 else 0 := by
  have frequency : ∀ other : Fin 256, threeSymbols.get other =
      if other = 0 then 3 else if other < 3 then 1 else 0 :=
    fun other => Vector.getElem_ofFn other.isLt
  have occurs : threeSymbols.get 0 ≠ 0 := by
    rw [frequency]
    decide
  rw [weight, if_neg fun silent => occurs (silent.1 0), frequency]
  split
  · rfl
  · split <;> rfl

private theorem sum_threeSymbols {Value : Type} [AddCommMonoid Value] (value : Fin 256 → Value) :
    ∑ symbol with weight threeSymbols symbol ≠ 0, value symbol =
      value 0 + (value 1 + value 2) := by
  have inUse : (Finset.univ.filter fun symbol => weight threeSymbols symbol ≠ 0) = {0, 1, 2} := by
    simp only [weight_threeSymbols]
    decide +kernel
  rw [inUse, Finset.sum_insert (by decide), Finset.sum_insert (by decide), Finset.sum_singleton]

private theorem exists_threeLengths : ∃ lengths : Lengths threeSymbols, lengths.cost = 11 := by
  refine ⟨{
    ofSymbol := fun symbol => symbol.val + 1
    ofReserved := 3
    positive := fun symbol _ => Nat.succ_pos symbol.val
    reserved_positive := by decide
    kraft := ?_ }, ?_⟩
  · rw [sum_threeSymbols]
    norm_num
  · rw [Lengths.cost_eq, sum_threeSymbols]
    simp only [weight_threeSymbols]
    decide +kernel

/-- All codewords of the three symbols and the reserved one take up eleven bits at most. -/
theorem optimalTable_minimal_threeSymbols :
    (∀ entry ∈ codeSizes threeSymbols, entry.2 ≤ 16) ∧
      ∃ lengths : Lengths threeSymbols, lengths.cost ≤ 11 ∧
        ∃ codeword, (HuffmanEncoder.ofTable (optimalTable 0 0 threeSymbols)).encode 0 =
            .ok codeword ∧
          codeword.length = lengths.ofSymbol 0 := by
  have short : ∀ entry ∈ codeSizes threeSymbols, entry.2 ≤ 16 := by
    intro entry member
    have few : (usedSymbols threeSymbols).length = 3 := by
      rw [(usedSymbols_perm threeSymbols).length_eq, List.length_map, inUse]
      simp only [weight_threeSymbols]
      decide +kernel
    have bound := codeSizes_le_used member
    omega
  obtain ⟨other, cost⟩ := exists_threeLengths
  obtain ⟨lengths, -, encodes, -, least⟩ := optimalTable_minimal 0 0 short
  have occurs : weight threeSymbols 0 ≠ 0 := by
    rw [weight_threeSymbols]
    decide
  exact ⟨short, lengths, cost ▸ least other, encodes 0 occurs⟩

end LosslessJpeg
