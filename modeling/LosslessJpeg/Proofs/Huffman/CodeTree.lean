import LosslessJpeg.Huffman.Optimal
import Mathlib.Algebra.Ring.Nat

set_option autoImplicit false

/-!
The tree from which code lengths are taken holds every symbol that occurs and the reserved
one, and the depths of its leaves fill the Kraft sum exactly.
-/

namespace LosslessJpeg

namespace CodeTree

def symbols : CodeTree → List Nat
  | .leaf symbol => [symbol]
  | .node left right => symbols left ++ symbols right

theorem depthsFrom_symbols (depth : Nat) (tree : CodeTree) :
    (depthsFrom depth tree).map Prod.fst = tree.symbols := by
  induction tree generalizing depth with
  | leaf symbol => rfl
  | node left right ihLeft ihRight =>
      rw [depthsFrom, List.map_append, ihLeft, ihRight]
      rfl

theorem depthsFrom_length_pos (depth : Nat) (tree : CodeTree) :
    0 < (depthsFrom depth tree).length := by
  induction tree generalizing depth with
  | leaf symbol => exact Nat.one_pos
  | node left right ihLeft ihRight =>
      rw [depthsFrom, List.length_append]
      exact Nat.add_pos_left (ihLeft (depth + 1)) _

theorem depthsFrom_bounds {depth : Nat} {tree : CodeTree} {entry : Nat × Nat}
    (member : entry ∈ depthsFrom depth tree) :
    depth ≤ entry.2 ∧ entry.2 + 1 ≤ depth + (depthsFrom depth tree).length := by
  induction tree generalizing depth with
  | leaf symbol =>
      rw [depthsFrom, List.mem_singleton] at member
      subst member
      exact ⟨Nat.le_refl _, Nat.le_refl _⟩
  | node left right ihLeft ihRight =>
      have leftSome := depthsFrom_length_pos (depth + 1) left
      have rightSome := depthsFrom_length_pos (depth + 1) right
      rw [depthsFrom, List.length_append]
      rw [depthsFrom] at member
      rcases List.mem_append.mp member with inLeft | inRight
      · have bounds := ihLeft inLeft
        omega
      · have bounds := ihRight inRight
        omega

theorem depthsFrom_succ (depth : Nat) (tree : CodeTree) :
    depthsFrom (depth + 1) tree =
      (depthsFrom depth tree).map fun entry => (entry.1, entry.2 + 1) := by
  induction tree generalizing depth with
  | leaf symbol => rfl
  | node left right ihLeft ihRight =>
      rw [depthsFrom, depthsFrom, List.map_append, ihLeft, ihRight]

/-- The leaves below a node fill the room that the node has. -/
theorem depthsFrom_kraft {depth limit : Nat} {tree : CodeTree}
    (deep : ∀ entry ∈ depthsFrom depth tree, entry.2 ≤ limit) :
    ((depthsFrom depth tree).map fun entry => 2 ^ (limit - entry.2)).sum =
      2 ^ (limit - depth) := by
  induction tree generalizing depth with
  | leaf symbol =>
      rw [depthsFrom, List.map_singleton, List.sum_singleton]
  | node left right ihLeft ihRight =>
      rw [depthsFrom] at deep
      have leftDeep := ihLeft fun entry member =>
        deep entry (List.mem_append_left _ member)
      have rightDeep := ihRight fun entry member =>
        deep entry (List.mem_append_right _ member)
      obtain ⟨some, inLeft⟩ :=
        List.exists_mem_of_length_pos (depthsFrom_length_pos (depth + 1) left)
      have below := (depthsFrom_bounds inLeft).1
      have above := deep some (List.mem_append_left _ inLeft)
      rw [depthsFrom, List.map_append, List.sum_append_nat, leftDeep, rightDeep,
        ← Nat.two_mul, Nat.mul_comm, ← Nat.pow_succ]
      congr 1
      omega

end CodeTree

namespace WeightedTree

theorem insert_perm (tree : WeightedTree) (trees : List WeightedTree) :
    (insert tree trees).Perm (tree :: trees) := by
  induction trees with
  | nil => exact List.Perm.refl _
  | cons first rest inductionHypothesis =>
      rw [insert]
      split
      · exact List.Perm.refl _
      · exact (inductionHypothesis.cons first).trans (List.Perm.swap tree first rest)

theorem foldl_insert_perm {α : Type} (leaf : α → WeightedTree) (entries : List α)
    (trees : List WeightedTree) :
    (entries.foldl (fun sorted entry => (leaf entry).insert sorted) trees).Perm
      (trees ++ entries.map leaf) := by
  induction entries generalizing trees with
  | nil =>
      rw [List.foldl_nil, List.map_nil, List.append_nil]
  | cons entry rest inductionHypothesis =>
      rw [List.foldl_cons]
      refine (inductionHypothesis _).trans ?_
      refine ((insert_perm (leaf entry) trees).append_right _).trans ?_
      rw [List.map_cons, List.cons_append]
      exact List.perm_middle.symm

def symbols (trees : List WeightedTree) : List Nat :=
  trees.flatMap (·.tree.symbols)

theorem mem_insert {tree other : WeightedTree} {trees : List WeightedTree} :
    other ∈ insert tree trees ↔ other = tree ∨ other ∈ trees := by
  rw [(insert_perm tree trees).mem_iff, List.mem_cons]

theorem symbols_insert_join (first second : WeightedTree) (rest : List WeightedTree) :
    (symbols (insert (join first second) rest)).Perm (symbols (first :: second :: rest)) := by
  refine ((insert_perm (join first second) rest).flatMap_right _).trans ?_
  rw [List.flatMap_cons, symbols, List.flatMap_cons, List.flatMap_cons, ← List.append_assoc]
  exact List.Perm.refl _

theorem joinAll_symbols {trees : List WeightedTree} (nonempty : trees ≠ []) :
    ∃ tree, joinAll trees = some tree ∧ tree.symbols.Perm (symbols trees) := by
  fun_induction joinAll trees with
  | case1 => exact absurd rfl nonempty
  | case2 last =>
      refine ⟨last.tree, rfl, ?_⟩
      rw [symbols, List.flatMap_singleton]
  | case3 first second rest inductionHypothesis =>
      have perm := insert_perm (join first second) rest
      obtain ⟨tree, joined, same⟩ := inductionHypothesis fun empty => by
        rw [empty] at perm
        exact List.cons_ne_nil _ _ perm.nil_eq.symm
      exact ⟨tree, joined, same.trans (symbols_insert_join first second rest)⟩

end WeightedTree

namespace OptimalCode

/-! ### Code sizes -/

private theorem mem_frequencies {frequencies : Frequencies} {symbol weight : Nat} :
    (symbol, weight) ∈ (frequencies.toList.zipIdx.map fun entry => (entry.2, entry.1.toNat)).filter
        (fun entry => 0 < entry.2) ↔
      0 < weight ∧ (frequencies.toList.map (·.toNat))[symbol]? = some weight := by
  rw [List.mem_filter, List.mem_map, List.getElem?_map, Option.map_eq_some_iff, and_comm]
  refine and_congr (by rw [decide_eq_true_iff]) ⟨?_, ?_⟩
  · rintro ⟨⟨frequency, place⟩, listed, same⟩
    cases same
    exact ⟨frequency, List.mem_zipIdx_iff_getElem?.mp listed, rfl⟩
  · rintro ⟨frequency, there, rfl⟩
    exact ⟨(frequency, symbol), List.mem_zipIdx_iff_getElem?.mpr there, rfl⟩

/-- The weights of all symbols, where symbol 0 counts once if none occurs. -/
def symbolWeights (frequencies : Frequencies) : List Nat :=
  let weights := frequencies.toList.map (·.toNat)
  if weights.all (· = 0) then weights.set 0 1 else weights

theorem symbolWeights_length (frequencies : Frequencies) :
    (symbolWeights frequencies).length = 256 := by
  unfold symbolWeights
  dsimp only
  split
  · rw [List.length_set, List.length_map, Vector.length_toList]
  · rw [List.length_map, Vector.length_toList]

theorem mem_usedSymbols_iff {frequencies : Frequencies} {symbol weight : Nat} :
    (symbol, weight) ∈ usedSymbols frequencies ↔
      0 < weight ∧ (symbolWeights frequencies)[symbol]? = some weight := by
  have listed := @mem_frequencies frequencies
  have size : (frequencies.toList.map (·.toNat)).length = 256 := by
    rw [List.length_map, Vector.length_toList]
  unfold usedSymbols symbolWeights
  dsimp only
  -- From here on all that matters is which entries are listed and that there are 256 weights.
  generalize frequencies.toList.map (·.toNat) = weights at listed size ⊢
  generalize (frequencies.toList.zipIdx.map fun entry => (entry.2, entry.1.toNat)).filter
    (fun entry => 0 < entry.2) = used at listed ⊢
  have silent : used.isEmpty = true ↔ weights.all (· = 0) = true := by
    rw [List.isEmpty_iff, List.eq_nil_iff_forall_not_mem, List.all_eq_true]
    constructor
    · intro none weight member
      obtain ⟨symbol, there⟩ := List.getElem?_of_mem member
      refine decide_eq_true (Nat.eq_zero_of_not_pos fun positive => ?_)
      exact none _ (listed.mpr ⟨positive, there⟩)
    · rintro zero ⟨symbol, weight⟩ member
      obtain ⟨positive, there⟩ := listed.mp member
      have same := of_decide_eq_true (zero weight (List.mem_of_getElem? there))
      omega
  -- If no symbol occurs, both sides put in symbol 0 with a weight of one.
  by_cases quiet : used.isEmpty = true
  · have zero := List.all_eq_true.mp (silent.mp quiet)
    rw [if_pos quiet, if_pos (silent.mp quiet), List.mem_singleton, List.getElem?_set]
    constructor
    · intro same
      cases same
      exact ⟨Nat.one_pos, by rw [if_pos rfl, if_pos (by omega)]⟩
    · rintro ⟨positive, there⟩
      split at there
      · rename_i front
        rw [if_pos (by omega)] at there
        cases there
        rw [front]
      · have same := of_decide_eq_true (zero weight (List.mem_of_getElem? there))
        omega
  · rw [if_neg quiet, if_neg fun zero => quiet (silent.mpr zero)]
    exact listed

private theorem frequency_getElem? (frequencies : Frequencies) (symbol : Fin 256) :
    (frequencies.toList.map (·.toNat))[symbol.val]? = some (frequencies.get symbol).toNat := by
  rw [List.getElem?_map, Vector.getElem?_toList, Vector.getElem?_eq_getElem symbol.isLt]
  rfl

private theorem silent_iff (frequencies : Frequencies) :
    (frequencies.toList.map (·.toNat)).all (· = 0) = true ↔
      ∀ symbol, frequencies.get symbol = 0 := by
  rw [List.all_eq_true]
  constructor
  · intro zero symbol
    have listed := List.mem_of_getElem? (frequency_getElem? frequencies symbol)
    exact UInt32.toNat_inj.mp (of_decide_eq_true (zero _ listed))
  · intro zero weight member
    obtain ⟨place, there⟩ := List.getElem?_of_mem member
    obtain ⟨inside, -⟩ := List.getElem?_eq_some_iff.mp there
    rw [List.length_map, Vector.length_toList] at inside
    rw [frequency_getElem? frequencies ⟨place, inside⟩, zero] at there
    cases there
    rfl

theorem symbolWeights_getElem? (frequencies : Frequencies) (symbol : Fin 256) :
    (symbolWeights frequencies)[symbol.val]? =
      some (if (∀ other, frequencies.get other = 0) ∧ symbol = 0 then 1
        else (frequencies.get symbol).toNat) := by
  unfold symbolWeights
  dsimp only
  by_cases quiet : ∀ other, frequencies.get other = 0
  · rw [if_pos ((silent_iff frequencies).mpr quiet)]
    by_cases front : symbol = 0
    · have first : 0 < (frequencies.toList.map (·.toNat)).length := by
        rw [List.length_map, Vector.length_toList]
        decide
      rw [if_pos ⟨quiet, front⟩, front]
      exact List.getElem?_set_self first
    · have different : 0 ≠ symbol.val := fun same => front (Fin.ext same.symm)
      rw [if_neg fun both => front both.2, List.getElem?_set_ne different, frequency_getElem?]
  · rw [if_neg fun zero => quiet ((silent_iff frequencies).mp zero),
      if_neg fun both => quiet both.1, frequency_getElem?]

theorem symbolWeights_le {frequencies : Frequencies} {weight : Nat}
    (member : weight ∈ symbolWeights frequencies) : weight ≤ 2 ^ 32 := by
  obtain ⟨symbol, there⟩ := List.getElem?_of_mem member
  obtain ⟨inside, -⟩ := List.getElem?_eq_some_iff.mp there
  rw [symbolWeights_length] at inside
  rw [symbolWeights_getElem? frequencies ⟨symbol, inside⟩] at there
  rw [← Option.some.inj there]
  split
  · exact Nat.one_le_two_pow
  · exact Nat.le_of_lt (UInt32.toNat_lt _)

/-- A symbol is in use if it occurs. If none does, symbol 0 is. -/
theorem mem_usedSymbols {frequencies : Frequencies} {symbol : Fin 256} :
    symbol.val ∈ (usedSymbols frequencies).map Prod.fst ↔
      frequencies.get symbol ≠ 0 ∨ (∀ other, frequencies.get other = 0) ∧ symbol = 0 := by
  have weighed : symbol.val ∈ (usedSymbols frequencies).map Prod.fst ↔
      0 < if (∀ other, frequencies.get other = 0) ∧ symbol = 0 then 1
        else (frequencies.get symbol).toNat := by
    have there := symbolWeights_getElem? frequencies symbol
    rw [List.mem_map]
    constructor
    · rintro ⟨⟨_, weight⟩, member, rfl⟩
      obtain ⟨positive, same⟩ := mem_usedSymbols_iff.mp member
      rw [Option.some.inj (there.symm.trans same)]
      exact positive
    · intro positive
      exact ⟨_, mem_usedSymbols_iff.mpr ⟨positive, there⟩, rfl⟩
  have occurs : frequencies.get symbol ≠ 0 ↔ 0 < (frequencies.get symbol).toNat := by
    rw [Nat.pos_iff_ne_zero, ne_eq, ne_eq, ← UInt32.toNat_inj]
    rfl
  rw [weighed, occurs]
  by_cases alone : (∀ other, frequencies.get other = 0) ∧ symbol = 0
  · rw [if_pos alone]
    exact ⟨fun _ => Or.inr alone, fun _ => Nat.one_pos⟩
  · rw [if_neg alone]
    exact ⟨Or.inl, fun either => either.resolve_right alone⟩

theorem mem_usedSymbols_of_ne_zero {frequencies : Frequencies} {symbol : UInt8}
    (occurs : frequencies.get ⟨symbol.toNat, symbol.toNat_lt⟩ ≠ 0) :
    symbol.toNat ∈ (usedSymbols frequencies).map Prod.fst :=
  mem_usedSymbols.mpr (Or.inl occurs)

theorem usedSymbols_distinct (frequencies : Frequencies) :
    ((usedSymbols frequencies).map Prod.fst).Nodup := by
  unfold usedSymbols
  dsimp only
  split
  · exact List.pairwise_singleton _ _
  · have indices : (frequencies.toList.zipIdx.map fun entry => (entry.2, entry.1.toNat)).map
        Prod.fst = List.range 256 := by
      have places := List.zipIdx_map_snd 0 frequencies.toList
      rw [Vector.length_toList] at places
      rw [List.map_map, List.range_eq_range', ← places]
      rfl
    refine List.Nodup.sublist (List.filter_sublist.map _) ?_
    rw [indices]
    exact List.nodup_range

theorem usedSymbols_lt {frequencies : Frequencies} {entry : Nat × Nat}
    (member : entry ∈ usedSymbols frequencies) : entry.1 < reserved := by
  unfold usedSymbols at member
  dsimp only at member
  split at member
  · rw [List.mem_singleton] at member
    subst member
    decide
  · obtain ⟨listed, -⟩ := List.mem_filter.mp member
    obtain ⟨indexed, place, rfl⟩ := List.mem_map.mp listed
    obtain ⟨inside, -⟩ := List.getElem?_eq_some_iff.mp
      (List.mem_zipIdx_iff_getElem?.mp place)
    rw [Vector.length_toList] at inside
    exact inside

theorem usedSymbols_length (frequencies : Frequencies) :
    0 < (usedSymbols frequencies).length ∧ (usedSymbols frequencies).length ≤ 256 := by
  unfold usedSymbols
  dsimp only
  split
  · decide
  · rename_i some
    refine ⟨List.length_pos_iff.mpr fun empty => some (List.isEmpty_iff.mpr empty), ?_⟩
    refine Nat.le_trans (List.length_filter_le _ _) (Nat.le_of_eq ?_)
    rw [List.length_map, List.length_zipIdx, Vector.length_toList]

theorem forest_perm (frequencies : Frequencies) :
    (forest frequencies).Perm ((usedSymbols frequencies ++ [(reserved, 1)]).map leafOf) :=
  WeightedTree.foldl_insert_perm leafOf (usedSymbols frequencies ++ [(reserved, 1)]) []

theorem forest_symbols (frequencies : Frequencies) :
    (WeightedTree.symbols (forest frequencies)).Perm
      ((usedSymbols frequencies).map Prod.fst ++ [reserved]) := by
  have singletons : ∀ entries : List (Nat × Nat),
      (entries.map leafOf).flatMap (·.tree.symbols) = entries.map Prod.fst := by
    intro entries
    induction entries with
    | nil => rfl
    | cons entry rest inductionHypothesis =>
        rw [List.map_cons, List.flatMap_cons, inductionHypothesis]
        rfl
  refine ((forest_perm frequencies).flatMap_right _).trans ?_
  rw [singletons, List.map_append]
  exact List.Perm.refl _

theorem forest_length (frequencies : Frequencies) :
    (forest frequencies).length = (usedSymbols frequencies).length + 1 := by
  rw [(forest_perm frequencies).length_eq, List.length_map, List.length_append,
    List.length_singleton]

theorem forest_ne_nil (frequencies : Frequencies) : forest frequencies ≠ [] := by
  have count := forest_length frequencies
  intro empty
  rw [empty] at count
  cases count

/-- Exactly the symbols that occur and the reserved one have a code size. -/
theorem codeSizes_symbols (frequencies : Frequencies) :
    ((codeSizes frequencies).map Prod.fst).Perm
      ((usedSymbols frequencies).map Prod.fst ++ [reserved]) := by
  obtain ⟨tree, joined, same⟩ := WeightedTree.joinAll_symbols (forest_ne_nil frequencies)
  unfold codeSizes
  rw [joined, Option.map_some, Option.getD_some, CodeTree.depths,
    CodeTree.depthsFrom_symbols]
  exact same.trans (forest_symbols frequencies)

theorem codeSizes_distinct (frequencies : Frequencies) :
    ((codeSizes frequencies).map Prod.fst).Nodup := by
  rw [(codeSizes_symbols frequencies).nodup_iff, List.nodup_append]
  refine ⟨usedSymbols_distinct frequencies, List.pairwise_singleton _ _, ?_⟩
  intro symbol member other reservedToo same
  obtain ⟨entry, used, rfl⟩ := List.mem_map.mp member
  rw [List.mem_singleton.mp reservedToo] at same
  exact Nat.ne_of_lt (usedSymbols_lt used) same

theorem codeSizes_eq_depths (frequencies : Frequencies) :
    ∃ tree, codeSizes frequencies = CodeTree.depths tree ∧
      2 ≤ (CodeTree.depths tree).length ∧ (CodeTree.depths tree).length ≤ 257 := by
  have count := (codeSizes_symbols frequencies).length_eq
  rw [List.length_map, List.length_append, List.length_map, List.length_singleton] at count
  obtain ⟨some, few⟩ := usedSymbols_length frequencies
  unfold codeSizes at count ⊢
  cases joined : WeightedTree.joinAll (forest frequencies) with
  | none =>
      rw [joined] at count
      simp at count
  | some tree =>
      rw [joined] at count
      rw [Option.map_some, Option.getD_some] at count ⊢
      exact ⟨tree, rfl, by omega, by omega⟩

/-- A leaf lies no deeper than there are symbols in use. -/
theorem codeSizes_le_used {frequencies : Frequencies} {entry : Nat × Nat}
    (member : entry ∈ codeSizes frequencies) : entry.2 ≤ (usedSymbols frequencies).length := by
  have count := (codeSizes_symbols frequencies).length_eq
  obtain ⟨tree, same, -, -⟩ := codeSizes_eq_depths frequencies
  rw [List.length_map, List.length_append, List.length_map, List.length_singleton, same] at count
  rw [same] at member
  have bounds := CodeTree.depthsFrom_bounds member
  unfold CodeTree.depths at count
  omega

theorem codeSizes_bounds {frequencies : Frequencies} {entry : Nat × Nat}
    (member : entry ∈ codeSizes frequencies) : 1 ≤ entry.2 ∧ entry.2 ≤ 256 := by
  obtain ⟨tree, same, two, few⟩ := codeSizes_eq_depths frequencies
  rw [same] at member
  have bounds := CodeTree.depthsFrom_bounds member
  unfold CodeTree.depths at two few member
  cases tree with
  | leaf symbol =>
      rw [CodeTree.depthsFrom, List.length_singleton] at two
      omega
  | node left right =>
      rw [CodeTree.depthsFrom] at member
      have below : 0 + 1 ≤ entry.2 := by
        rcases List.mem_append.mp member with inLeft | inRight
        · exact (CodeTree.depthsFrom_bounds inLeft).1
        · exact (CodeTree.depthsFrom_bounds inRight).1
      omega

theorem codeSizes_kraft (frequencies : Frequencies) :
    ((codeSizes frequencies).map fun entry => 2 ^ (256 - entry.2)).sum = 2 ^ 256 := by
  obtain ⟨tree, same, -, -⟩ := codeSizes_eq_depths frequencies
  rw [same]
  have bounds : ∀ entry ∈ tree.depths, entry.2 ≤ 256 := by
    intro entry member
    rw [← same] at member
    have bounds := codeSizes_bounds member
    omega
  exact CodeTree.depthsFrom_kraft bounds

end OptimalCode

end LosslessJpeg
