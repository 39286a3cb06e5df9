import LosslessJpeg.Proofs.Checked.CodeMerging
import LosslessJpeg.Proofs.Huffman.OptimalTable

set_option autoImplicit false

/-!
The best table for given frequencies, computed in arrays with every access, sum and difference
checked. No check fails, all loops come to their end, and the table is the one that trees give.
-/

namespace LosslessJpeg

open OptimalCode

namespace Checked

/-- Every symbol is a tree of its own, and the reserved one weighs one. -/
def startMerging (frequencies : Frequencies) : Merging :=
  { weights := symbolWeights frequencies ++ [1]
    sizes := List.replicate 257 0
    others := List.replicate 257 none }

def tally (counts : LengthCounts) (length : Nat) : Checked CodecError LengthCounts := do
  inside counts.size length
  fits 32 (counts.getD length 0 + 1)
  pure (counts.modify length (· + 1))

def countSizes (sizes : List Nat) : Checked CodecError LengthCounts :=
  (sizes.filter fun size => 0 < size).foldlM tally (Array.replicate 258 0)

def findDonor (counts : LengthCounts) : Nat → Checked CodecError Nat
  | 0 => do
      inside counts.size 0
      if counts.getD 0 0 = 0 then .error (.fault .underflow) else pure 0
  | length + 1 => do
      inside counts.size (length + 1)
      if counts.getD (length + 1) 0 = 0 then
        findDonor counts length
      else
        pure (length + 1)

def moveUp (length : Nat) (counts : LengthCounts) : Checked CodecError LengthCounts := do
  covers length 2
  let donor ← findDonor counts (length - 2)
  covers (counts.getD length 0) 2
  let parted := counts.modify length (· - 2)
  inside parted.size (length - 1)
  fits 32 (parted.getD (length - 1) 0 + 1)
  let lifted := parted.modify (length - 1) (· + 1)
  inside lifted.size (donor + 1)
  fits 32 (lifted.getD (donor + 1) 0 + 2)
  let lowered := lifted.modify (donor + 1) (· + 2)
  inside lowered.size donor
  covers (lowered.getD donor 0) 1
  pure (lowered.modify donor (· - 1))

def moveAllUp (length : Nat) : Nat → LengthCounts → Checked CodecError LengthCounts
  | 0, _ => .error (.fault .assertion)
  | rounds + 1, counts => do
      inside counts.size length
      if 0 < counts.getD length 0 then do
        let moved ← moveUp length counts
        moveAllUp length rounds moved
      else
        pure counts

def limitLengths (counts : LengthCounts) : Checked CodecError LengthCounts :=
  (List.range' 17 241).reverse.foldlM (fun counts length => moveAllUp length 257 counts) counts

def dropReserved (counts : LengthCounts) : Checked CodecError LengthCounts := do
  inside counts.size 16
  match longestUsed counts 16 with
  | 0 => pure counts
  | length + 1 => do
      covers (counts.getD (length + 1) 0) 1
      pure (counts.modify (length + 1) (· - 1))

/-- The sixteen counts of a table, each of which is to be one byte. -/
def byteCounts (counts : LengthCounts) : Checked CodecError (Vector UInt8 16) := do
  bounds counts.size 1 17
  (List.range 16).forM fun place => fits 8 (counts.getD (place + 1) 0)
  pure (Vector.ofFn fun place : Fin 16 => UInt8.ofNat (counts.getD (place.val + 1) 0))

def symbolsBySize (sizes : List Nat) : Checked CodecError (List UInt8) := do
  let named ← slice sizes 0 256
  pure ((List.range' 1 257).flatMap fun size =>
    (named.zipIdx.filter fun entry => entry.1 = size).map fun entry => UInt8.ofNat entry.2)

def optimalTable (tableClass id : UInt8) (frequencies : Frequencies) :
    Checked CodecError HuffmanTable := do
  let merged ← mergeAll 257 (startMerging frequencies)
  let counted ← countSizes merged.sizes
  let limited ← limitLengths counted
  let kept ← dropReserved limited
  let counts ← byteCounts kept
  let symbols ← symbolsBySize merged.sizes
  pure
    { tableClass := tableClass
      id := id
      counts := counts
      symbols := symbols }

/-! ### The first trees -/

private theorem foldl_insert_sorted {entries : List (Nat × Nat)} {trees : List WeightedTree}
    (sorted : WeightedTree.Sorted trees) (distinct : (entries.map Prod.fst).Nodup)
    (apart : ∀ entry ∈ entries, ∀ tree ∈ trees, tree.rank ≠ entry.1) :
    WeightedTree.Sorted
      (entries.foldl (fun trees entry => (leafOf entry).insert trees) trees) := by
  induction entries generalizing trees with
  | nil => exact sorted
  | cons entry rest inductionHypothesis =>
      rw [List.map_cons, List.nodup_cons] at distinct
      rw [List.foldl_cons]
      refine inductionHypothesis
        (WeightedTree.insert_sorted sorted (apart entry List.mem_cons_self)) distinct.2 ?_
      intro other later tree member
      rcases WeightedTree.mem_insert.mp member with rfl | old
      · exact fun same => distinct.1 (List.mem_map.mpr ⟨other, later, same.symm⟩)
      · exact apart other (List.mem_cons_of_mem _ later) tree old

private theorem mem_forest_iff {frequencies : Frequencies} {tree : WeightedTree} :
    tree ∈ forest frequencies ↔ ∃ symbol weight, tree = leafOf (symbol, weight) ∧ 0 < weight ∧
      (startMerging frequencies).weights[symbol]? = some weight := by
  have size := symbolWeights_length frequencies
  have listed : ∀ symbol weight, (symbol, weight) ∈ usedSymbols frequencies ++ [(reserved, 1)] ↔
      0 < weight ∧ (startMerging frequencies).weights[symbol]? = some weight := by
    intro symbol weight
    unfold startMerging
    dsimp only
    rw [List.mem_append, mem_usedSymbols_iff, List.mem_singleton, List.getElem?_append, size]
    -- The reserved symbol stands behind all others and weighs one.
    by_cases named : symbol < 256
    · rw [if_pos named]
      refine or_iff_left fun same => ?_
      cases same
      exact absurd named (by decide)
    · rw [if_neg named, List.getElem?_eq_none (by omega)]
      constructor
      · rintro (⟨-, impossible⟩ | same)
        · cases impossible
        · cases same
          exact ⟨Nat.one_pos, rfl⟩
      · rintro ⟨positive, there⟩
        obtain ⟨inside, same⟩ := List.getElem?_eq_some_iff.mp there
        rw [List.length_singleton] at inside
        have last : symbol = 256 := by omega
        subst last
        cases there
        exact Or.inr rfl
  rw [(forest_perm frequencies).mem_iff, List.mem_map]
  constructor
  · rintro ⟨⟨symbol, weight⟩, member, rfl⟩
    exact ⟨symbol, weight, rfl, (listed symbol weight).mp member⟩
  · rintro ⟨symbol, weight, rfl, there⟩
    exact ⟨(symbol, weight), (listed symbol weight).mpr there, rfl⟩

private theorem startMerging_length (frequencies : Frequencies) :
    (startMerging frequencies).weights.length = 257 := by
  unfold startMerging
  rw [List.length_append, symbolWeights_length, List.length_singleton]

/-- The sum of all weights is a number of 64 bits. -/
private theorem forest_bounded (frequencies : Frequencies) :
    ((forest frequencies).map WeightedTree.weight).sum < 2 ^ 64 := by
  have each : ∀ weight ∈ (forest frequencies).map WeightedTree.weight, weight ≤ 2 ^ 32 := by
    intro weight member
    obtain ⟨tree, listed, rfl⟩ := List.mem_map.mp member
    obtain ⟨symbol, weight, rfl, -, there⟩ := mem_forest_iff.mp listed
    rcases List.mem_append.mp (List.mem_of_getElem? there) with named | last
    · exact symbolWeights_le named
    · rw [List.mem_singleton.mp last]
      exact Nat.one_le_two_pow
  have total := List.sum_le_card_nsmul _ _ each
  have few := (usedSymbols_length frequencies).2
  rw [List.length_map, forest_length] at total
  change _ ≤ ((usedSymbols frequencies).length + 1) * 2 ^ 32 at total
  omega

theorem stands_start (frequencies : Frequencies) :
    Stands (forest frequencies) (startMerging frequencies) := by
  have distinct : ((usedSymbols frequencies ++ [(reserved, 1)]).map Prod.fst).Nodup := by
    rw [List.map_append]
    exact (codeSizes_symbols frequencies).nodup_iff.mp (codeSizes_distinct frequencies)
  have small : ∀ symbol weight, (startMerging frequencies).weights[symbol]? = some weight →
      symbol < 257 := by
    intro symbol weight there
    obtain ⟨inside, -⟩ := List.getElem?_eq_some_iff.mp there
    rw [startMerging_length] at inside
    exact inside
  refine ⟨startMerging_length frequencies, List.length_replicate, List.length_replicate, ?sorted,
    ?distinct, ?rooted, ?weighed, ?unweighed, ?linked, ?sized, ?unsized,
    forest_bounded frequencies⟩
  case sorted =>
    refine foldl_insert_sorted List.Pairwise.nil distinct ?_
    intro entry _ tree impossible
    cases impossible
  case distinct =>
    rw [(forest_symbols frequencies).nodup_iff]
    exact (codeSizes_symbols frequencies).nodup_iff.mp (codeSizes_distinct frequencies)
  case rooted =>
    intro tree member
    obtain ⟨symbol, weight, rfl, -⟩ := mem_forest_iff.mp member
    rfl
  case weighed =>
    intro tree member
    obtain ⟨symbol, weight, rfl, there⟩ := mem_forest_iff.mp member
    exact there
  case unweighed =>
    intro symbol weight there positive
    exact ⟨_, mem_forest_iff.mpr ⟨symbol, weight, rfl, positive, there⟩, rfl⟩
  case linked =>
    intro tree member
    obtain ⟨symbol, weight, rfl, -, there⟩ := mem_forest_iff.mp member
    refine ⟨?_, trivial⟩
    change (List.replicate 257 none)[symbol]? = some none
    rw [List.getElem?_replicate, if_pos (small symbol weight there)]
  case sized =>
    intro tree member entry listed
    obtain ⟨symbol, weight, rfl, -, there⟩ := mem_forest_iff.mp member
    cases List.mem_singleton.mp listed
    change (List.replicate 257 0)[symbol]? = some 0
    rw [List.getElem?_replicate, if_pos (small symbol weight there)]
  case unsized =>
    intro symbol size there _
    exact List.eq_of_mem_replicate (List.mem_of_getElem? there)

def namedSizes (sizes : List Nat) : List (Nat × Nat) :=
  (sizes.zipIdx.filter fun entry => 0 < entry.1).map Prod.swap

private theorem mem_namedSizes {sizes : List Nat} {symbol size : Nat} :
    (symbol, size) ∈ namedSizes sizes ↔ sizes[symbol]? = some size ∧ 0 < size := by
  unfold namedSizes
  rw [List.mem_map]
  constructor
  · rintro ⟨⟨size, symbol⟩, member, same⟩
    cases same
    rw [List.mem_filter] at member
    exact ⟨List.mem_zipIdx_iff_getElem?.mp member.1, of_decide_eq_true member.2⟩
  · rintro ⟨there, positive⟩
    refine ⟨(size, symbol), ?_, rfl⟩
    rw [List.mem_filter]
    exact ⟨List.mem_zipIdx_iff_getElem?.mpr there, decide_eq_true positive⟩

private theorem namedSizes_fst_nodup (sizes : List Nat) :
    ((namedSizes sizes).map Prod.fst).Nodup := by
  unfold namedSizes
  rw [List.map_map]
  refine List.Nodup.sublist (List.filter_sublist.map _) ?_
  have places := List.zipIdx_map_snd 0 sizes
  change (sizes.zipIdx.map Prod.snd).Nodup
  rw [places]
  exact List.nodup_range'

theorem mergeAll_sizes (frequencies : Frequencies) :
    ∃ merged, mergeAll 257 (startMerging frequencies) = .ok merged ∧
      merged.sizes.length = 257 ∧ (namedSizes merged.sizes).Perm (codeSizes frequencies) := by
  have few : (forest frequencies).length ≤ 257 := by
    rw [forest_length]
    exact Nat.succ_le_succ (usedSymbols_length frequencies).2
  obtain ⟨merged, last, done, stands, tree⟩ :=
    (stands_start frequencies).mergeAll_eq (forest_ne_nil frequencies) few
  have sizes : codeSizes frequencies = last.tree.depths := by
    unfold codeSizes
    rw [tree]
    rfl
  refine ⟨merged, done, stands.sizesLength, ?_⟩
  rw [List.perm_ext_iff_of_nodup (List.Nodup.of_map _ (namedSizes_fst_nodup _))
    (List.Nodup.of_map _ (codeSizes_distinct frequencies))]
  rintro ⟨symbol, size⟩
  rw [mem_namedSizes]
  constructor
  · rintro ⟨there, positive⟩
    -- A symbol outside of the last tree has never been in one, so its size is still zero.
    by_contra absent
    have away : symbol ∉ WeightedTree.symbols [last] := by
      rw [WeightedTree.symbols, List.flatMap_singleton, ← CodeTree.depthsFrom_symbols 0]
      intro listed
      obtain ⟨entry, member, rfl⟩ := List.mem_map.mp listed
      have sized := stands.sized last List.mem_cons_self entry member
      rw [there] at sized
      cases sized
      rw [sizes] at absent
      exact absent member
    have zero := stands.unsized symbol size there away
    omega
  · intro member
    have positive := (codeSizes_bounds member).1
    rw [sizes] at member
    exact ⟨stands.sized last List.mem_cons_self _ member, positive⟩

private theorem modify_comm (counts : LengthCounts) (change : Nat → Nat) (first second : Nat) :
    (counts.modify first change).modify second change =
      (counts.modify second change).modify first change := by
  apply Array.ext_getElem?
  intro length
  simp only [Array.getElem?_modify]
  split <;> split <;> rfl

theorem countLengths_perm {sizes others : List (Nat × Nat)} (same : sizes.Perm others) :
    countLengths sizes = countLengths others :=
  same.foldl_eq' (fun _ _ _ _ _ => modify_comm _ _ _ _) _

private theorem foldlM_tally {lengths : List Nat} {counts : LengthCounts}
    (size : counts.size = 258) (bounded : ∀ length ∈ lengths, length < 258)
    (room : ∀ length, counts.getD length 0 + lengths.length < 2 ^ 32) :
    lengths.foldlM tally counts =
      .ok (lengths.foldl (fun counts length => counts.modify length (· + 1)) counts) := by
  induction lengths generalizing counts with
  | nil => rfl
  | cons length rest inductionHypothesis =>
      have small := bounded length List.mem_cons_self
      have free := room length
      rw [List.length_cons] at room free
      have counted : tally counts length = .ok (counts.modify length (· + 1)) := by
        unfold tally
        rw [bind_of_ok (inside_of_lt (by omega)), bind_of_ok (fits_of_lt (by omega))]
        rfl
      rw [List.foldlM_cons, bind_of_ok counted, List.foldl_cons]
      refine inductionHypothesis (by rw [Array.size_modify, size])
        (fun other later => bounded other (List.mem_cons_of_mem _ later)) fun other => ?_
      rw [getD_modify counts _ (by omega)]
      have freeOther := room other
      split
      · omega
      · omega

theorem countSizes_eq {sizes : List Nat} {frequencies : Frequencies}
    (length : sizes.length = 257) (same : (namedSizes sizes).Perm (codeSizes frequencies)) :
    countSizes sizes = .ok (countLengths (codeSizes frequencies)) := by
  have lengths : (sizes.filter fun size => 0 < size) = (namedSizes sizes).map Prod.snd := by
    unfold namedSizes
    rw [List.map_map]
    conv_lhs => rw [← List.zipIdx_map_fst 0 sizes, List.filter_map]
    rfl
  have bounded : ∀ size ∈ sizes.filter fun size => 0 < size, size < 258 := by
    rw [lengths]
    intro size member
    obtain ⟨entry, listed, rfl⟩ := List.mem_map.mp member
    have bounds := codeSizes_bounds (same.mem_iff.mp listed)
    omega
  unfold countSizes
  rw [foldlM_tally Array.size_replicate bounded, ← countLengths_perm same, lengths]
  · unfold countLengths
    rw [List.foldl_map]
  · intro size
    have few := List.length_filter_le (fun size => decide (0 < size)) sizes
    have zero : (Array.replicate 258 0).getD size 0 = 0 := by
      rw [Array.getD_eq_getD_getElem?, Array.getElem?_replicate]
      split <;> rfl
    rw [zero]
    omega

/-! ### Limiting lengths -/

section Limiting

variable {total longest : Nat} {counts : LengthCounts}

private theorem findDonor_eq {limit : Nat} (size : counts.size = 258) (inRange : limit < 258)
    (found : longestUsed counts limit ≠ 0) :
    findDonor counts limit = .ok (longestUsed counts limit) := by
  induction limit with
  | zero => exact absurd rfl found
  | succ limit inductionHypothesis =>
      rw [longestUsed] at found ⊢
      rw [findDonor, bind_of_ok (inside_of_lt (by omega))]
      split
      · rename_i unused
        rw [if_pos unused] at found
        exact inductionHypothesis (by omega) found
      · rfl

private theorem moveUp_eq (code : FullCode total longest counts) (few : total ≤ 257)
    (from16 : 17 ≤ longest) (limited : longest ≤ 256) (pair : 2 ≤ counts.getD longest 0) :
    moveUp longest counts = .ok (shortenPair longest counts) := by
  obtain ⟨donor, chosen⟩ : ∃ donor, longestUsed counts (longest - 2) = donor := ⟨_, rfl⟩
  have positive := code.shorter few from16
  have used := longestUsed_used positive
  have atMost := longestUsed_le counts (longest - 2)
  have searched := findDonor_eq code.size (by omega) positive
  rw [chosen] at positive used atMost searched
  have size := code.size
  have narrow : ∀ length, length < 258 → counts.getD length 0 ≤ 257 := fun length inRange =>
    Nat.le_trans (getD_le_measure counts inRange) (code.codewords.trans_le few)
  -- What the counters hold when each of them is changed.
  have parent : (counts.modify longest (· - 2)).getD (longest - 1) 0 ≤ 257 := by
    rw [getD_modify _ _ (by omega), if_neg (by omega)]
    exact narrow _ (by omega)
  have child : ((counts.modify longest (· - 2)).modify (longest - 1) (· + 1)).getD
      (donor + 1) 0 ≤ 258 := by
    have less := narrow (donor + 1) (by omega)
    rw [getD_modify _ _ (by simp only [Array.size_modify]; omega)]
    split
    · exact Nat.succ_le_succ parent
    · rw [getD_modify _ _ (by omega), if_neg (by omega)]
      omega
  have left : (((counts.modify longest (· - 2)).modify (longest - 1) (· + 1)).modify (donor + 1)
      (· + 2)).getD donor 0 = counts.getD donor 0 := by
    rw [getD_modify _ _ (by simp only [Array.size_modify]; omega), if_neg (by omega),
      getD_modify _ _ (by simp only [Array.size_modify]; omega), if_neg (by omega),
      getD_modify _ _ (by omega), if_neg (by omega)]
  unfold moveUp
  rw [bind_of_ok (covers_of_le (by omega)), bind_of_ok searched,
    bind_of_ok (covers_of_le pair)]
  dsimp only
  rw [bind_of_ok (inside_of_lt (by simp only [Array.size_modify]; omega)),
    bind_of_ok (fits_of_lt (by omega)),
    bind_of_ok (inside_of_lt (by simp only [Array.size_modify]; omega)),
    bind_of_ok (fits_of_lt (by omega)),
    bind_of_ok (inside_of_lt (by simp only [Array.size_modify]; omega)),
    bind_of_ok (covers_of_le (by omega))]
  unfold shortenPair
  rw [chosen]
  rfl

private theorem repeat_succ {α : Type} (change : α → α) (rounds : Nat) (start : α) :
    Nat.repeat change (rounds + 1) start = Nat.repeat change rounds (change start) := by
  induction rounds with
  | zero => rfl
  | succ rounds inductionHypothesis =>
      rw [Nat.repeat, inductionHypothesis]
      rfl

private theorem moveAllUp_repeat (code : FullCode total longest counts) (few : total ≤ 257)
    (from16 : 17 ≤ longest) (limited : longest ≤ 256) {pairs rounds : Nat}
    (many : counts.getD longest 0 = 2 * pairs) (enough : pairs < rounds) :
    moveAllUp longest rounds counts = .ok (Nat.repeat (shortenPair longest) pairs counts) := by
  have size := code.size
  induction pairs generalizing counts rounds with
  | zero =>
      obtain ⟨rounds, rfl⟩ := Nat.exists_eq_add_one_of_ne_zero (Nat.ne_of_gt enough)
      rw [moveAllUp, bind_of_ok (inside_of_lt (by omega)), if_neg (by omega)]
      rfl
  | succ pairs inductionHypothesis =>
      obtain ⟨rounds, rfl⟩ := Nat.exists_eq_add_one_of_ne_zero (by omega : rounds ≠ 0)
      obtain ⟨after, fewer⟩ := shortenPair_full code few from16 limited (by omega)
      rw [moveAllUp, bind_of_ok (inside_of_lt (by omega)), if_pos (by omega),
        bind_of_ok (moveUp_eq code few from16 limited (by omega)), repeat_succ]
      exact inductionHypothesis after (by omega) (by omega) after.size

private theorem moveAllUp_eq (code : FullCode total longest counts) (few : total ≤ 257)
    (from16 : 17 ≤ longest) (limited : longest ≤ 256) :
    moveAllUp longest 257 counts = .ok (shortenAll counts longest) := by
  have pairs := code.even (by omega) limited
  have count := getD_le_measure counts (by omega : longest < 258)
  rw [code.codewords] at count
  exact moveAllUp_repeat code few from16 limited (by omega) (by omega)

/-- A round comes to its end at a length that is not in use, too. -/
private theorem moveAllUp_round {length : Nat} (few : total ≤ 257) (from17 : 17 ≤ length)
    (inRange : length ≤ 257) (code : FullCode total (min length 256) counts) :
    moveAllUp length 257 counts = .ok (shortenAll counts length) := by
  rcases Nat.lt_or_eq_of_le inRange with short | rfl
  · have here : min length 256 = length := by omega
    rw [here] at code
    exact moveAllUp_eq code few from17 (by omega)
  · have none := code.none_longer 257 (by decide) (by decide)
    rw [shortenAll_of_unused none, moveAllUp,
      bind_of_ok (inside_of_lt (by rw [code.size]; decide)), none]
    rfl

theorem limitLengths_eq (code : FullCode total 256 counts) (few : total ≤ 257) :
    limitLengths counts = .ok (OptimalCode.limitLengths counts) := by
  refine limitLengths_induction
    (motive := fun lengths counts after =>
      lengths.foldlM (fun counts length => moveAllUp length 257 counts) counts = .ok after)
    few ?stop ?round code
  case stop =>
    intro counts short
    rfl
  case round =>
    intro length lengths counts after from17 inRange code later
    rw [List.foldlM_cons, bind_of_ok (moveAllUp_round few from17 inRange code)]
    exact later

theorem dropReserved_eq (code : FullCode total 16 counts) :
    dropReserved counts = .ok (OptimalCode.dropReserved counts) := by
  have size := code.size
  have used := longestUsed_used code.used
  unfold dropReserved OptimalCode.dropReserved
  rw [bind_of_ok (inside_of_lt (by omega))]
  cases chosen : longestUsed counts 16 with
  | zero => rfl
  | succ length =>
      rw [chosen] at used
      dsimp only
      rw [bind_of_ok (covers_of_le (Nat.pos_of_ne_zero used))]
      rfl

end Limiting

/-! ### Symbols by size -/

private def sortedSizes (named : List Nat) : List (Nat × Nat) :=
  (List.range' 1 257).flatMap fun size =>
    (named.zipIdx.filter fun entry => entry.1 = size).map Prod.swap

private theorem sortedSizes_pairwise (named : List Nat) :
    (sortedSizes named).Pairwise
      fun left right => left.2 < right.2 ∨ left.2 = right.2 ∧ left.1 < right.1 := by
  have swapped : ∀ size, ∀ entry ∈ (named.zipIdx.filter fun entry => entry.1 = size).map Prod.swap,
      entry.2 = size := by
    intro size entry member
    obtain ⟨other, listed, rfl⟩ := List.mem_map.mp member
    exact of_decide_eq_true (List.mem_filter.mp listed).2
  unfold sortedSizes
  rw [List.pairwise_flatMap]
  constructor
  · intro size _
    rw [List.pairwise_map]
    have places : named.zipIdx.Pairwise fun left right => left.2 < right.2 := by
      have rising := List.pairwise_lt_range' (s := 0) (n := named.length)
      rw [← List.zipIdx_map_snd 0 named, List.pairwise_map] at rising
      exact rising
    have chosen := places.filter fun entry => decide (entry.1 = size)
    refine List.Pairwise.imp_of_mem ?_ chosen
    intro left right inLeft inRight less
    have first := of_decide_eq_true (List.mem_filter.mp inLeft).2
    have second := of_decide_eq_true (List.mem_filter.mp inRight).2
    exact Or.inr ⟨first.trans second.symm, less⟩
  · refine (List.pairwise_lt_range' (s := 1) (n := 257)).imp ?_
    intro first second less left inFirst right inSecond
    rw [swapped first left inFirst, swapped second right inSecond]
    exact Or.inl less

private theorem mem_sortedSizes {sizes : List Nat} (bounded : ∀ size ∈ sizes, size < 258)
    {symbol size : Nat} :
    (symbol, size) ∈ sortedSizes (sizes.take 256) ↔
      (symbol, size) ∈ (namedSizes sizes).filter fun entry => entry.1 < reserved := by
  unfold sortedSizes
  rw [List.mem_flatMap, List.mem_filter, mem_namedSizes]
  constructor
  · rintro ⟨other, inRange, member⟩
    obtain ⟨⟨_, _⟩, listed, same⟩ := List.mem_map.mp member
    cases same
    rw [List.mem_filter] at listed
    have named := of_decide_eq_true listed.2
    have there := List.mem_zipIdx_iff_getElem?.mp listed.1
    rw [List.getElem?_take] at there
    split at there
    · rename_i inside
      have positive := (List.mem_range'_1.mp inRange).1
      dsimp only at named there
      exact ⟨⟨there, by omega⟩, decide_eq_true inside⟩
    · cases there
  · rintro ⟨⟨there, positive⟩, named⟩
    have inside : symbol < 256 := of_decide_eq_true named
    have small := bounded size (List.mem_of_getElem? there)
    refine ⟨size, List.mem_range'_1.mpr (by omega), List.mem_map.mpr ⟨(size, symbol), ?_, rfl⟩⟩
    rw [List.mem_filter]
    refine ⟨List.mem_zipIdx_iff_getElem?.mpr ?_, decide_eq_true rfl⟩
    rw [List.getElem?_take_of_lt inside]
    exact there

theorem symbolsBySize_eq {sizes : List Nat} {frequencies : Frequencies}
    (length : sizes.length = 257) (same : (namedSizes sizes).Perm (codeSizes frequencies)) :
    symbolsBySize sizes = .ok (orderedSymbols (codeSizes frequencies)) := by
  have bounded : ∀ size ∈ sizes, size < 258 := by
    intro size member
    obtain ⟨symbol, there⟩ := List.getElem?_of_mem member
    by_contra large
    have listed := same.mem_iff.mp (mem_namedSizes.mpr ⟨there, by omega⟩)
    have bounds := codeSizes_bounds listed
    dsimp only at bounds
    omega
  have rising := sortedSizes_pairwise (sizes.take 256)
  have distinct : (sortedSizes (sizes.take 256)).Nodup := by
    refine rising.imp ?_
    rintro left right less rfl
    omega
  have perm : (sortedSizes (sizes.take 256)).Perm
      (((codeSizes frequencies).filter fun entry => entry.1 < reserved).mergeSort bySize) := by
    refine List.Perm.trans ?_ (List.mergeSort_perm _ _).symm
    refine List.Perm.trans ?_ (same.filter _)
    rw [List.perm_ext_iff_of_nodup distinct
      ((List.Nodup.of_map _ (namedSizes_fst_nodup sizes)).filter _)]
    exact fun _ => mem_sortedSizes bounded
  have sorted := mergeSort_bySize ((codeSizes frequencies).filter fun entry => entry.1 < reserved)
  -- Two lists of the same symbols in one strict order are the same list.
  have equal := List.Perm.eq_of_pairwise
    (fun left right _ _ before behind => by
      rw [bySize_iff] at before behind
      exact Prod.ext (by omega) (by omega))
    (rising.imp fun less => by
      rw [bySize_iff]
      omega)
    sorted perm
  unfold symbolsBySize orderedSymbols
  rw [bind_of_ok (slice_of_le (Nat.zero_le _) (by omega)), ← equal]
  unfold sortedSizes
  rw [List.map_flatMap]
  simp only [List.map_map]
  rfl

theorem byteCounts_eq {total : Nat} {counts : LengthCounts} (code : LimitedCode total counts)
    (size : counts.size = 258) :
    byteCounts counts =
      .ok (Vector.ofFn fun place : Fin 16 => UInt8.ofNat (counts.getD (place.val + 1) 0)) := by
  have each : ∀ places : List Nat, (∀ place ∈ places, place < 16) →
      (places.forM fun place => fits 8 (counts.getD (place + 1) 0) : Checked CodecError Unit) =
        .ok () := by
    intro places small
    induction places with
    | nil => rfl
    | cons place rest inductionHypothesis =>
        have inRange := small place List.mem_cons_self
        have narrow := code.narrow (place + 1) (by omega)
        change (fits 8 _ >>= fun _ => rest.forM _) = _
        rw [bind_of_ok (fits_of_lt narrow)]
        exact inductionHypothesis fun other later => small other (List.mem_cons_of_mem _ later)
  unfold byteCounts
  rw [bind_of_ok (bounds_of_le (by omega) (by omega)),
    bind_of_ok (each (List.range 16) fun place => List.mem_range.mp)]
  rfl

/-- No access, sum or difference goes wrong, and no loop goes on for ever. -/
theorem optimalTable_eq (tableClass id : UInt8) (frequencies : Frequencies) :
    optimalTable tableClass id frequencies =
      .ok (LosslessJpeg.optimalTable tableClass id frequencies) := by
  obtain ⟨merged, done, length, same⟩ := mergeAll_sizes frequencies
  have code := countedCode frequencies
  have few := (usedSymbols_length frequencies).2
  have limited := cappedCode frequencies
  have kept := limitedCode frequencies
  have size := (dropReserved_size _).trans limited.size
  unfold lengthCounts at kept
  unfold optimalTable
  rw [bind_of_ok done, bind_of_ok (countSizes_eq length same),
    bind_of_ok (limitLengths_eq code (by omega)), bind_of_ok (dropReserved_eq limited),
    bind_of_ok (byteCounts_eq kept size), bind_of_ok (symbolsBySize_eq length same)]
  rfl

end Checked

/-- An optimal table can always be computed and used. It lists the symbols that occur, or symbol
0 if none does, with a count for each and room in the code space; it can be decoded, and it has
codewords of one to sixteen bits, not all ones, for its symbols only. -/
theorem optimalTable_usable (tableClass id : UInt8) (frequencies : Frequencies) :
    ∃ table, Checked.optimalTable tableClass id frequencies = .ok table ∧
      optimalTable tableClass id frequencies = table ∧
      table.symbols.Nodup ∧
      (∀ symbol : UInt8, symbol ∈ table.symbols ↔
        frequencies.get ⟨symbol.toNat, symbol.toNat_lt⟩ ≠ 0 ∨
          (∀ other, frequencies.get other = 0) ∧ symbol = 0) ∧
      table.countList.sum = table.symbols.length ∧
      (∀ place : Fin 16, (table.counts.get place).toNat =
        (lengthCounts frequencies).getD (place.val + 1) 0) ∧
      kraftSum table.countList < 2 ^ 16 ∧
      (∃ decoder, HuffmanDecoder.ofTable table = .ok decoder) ∧
      (∀ codeword ∈ codewords table.countList,
        codeword.bits ≠ List.replicate codeword.length true) ∧
      (∀ symbol, (∃ codeword, (HuffmanEncoder.ofTable table).encode symbol = .ok codeword) ↔
        symbol ∈ table.symbols) ∧
      ∀ symbol codeword, (HuffmanEncoder.ofTable table).encode symbol = .ok codeword →
        codeword ∈ codewords table.countList ∧ 1 ≤ codeword.length ∧ codeword.length ≤ 16 := by
  refine ⟨_, Checked.optimalTable_eq tableClass id frequencies, rfl,
    orderedSymbols_distinct frequencies, fun symbol => ?listed,
    (optimalTable_symbols_length tableClass id frequencies).symm, fun place => ?narrow,
    optimalTable_kraft tableClass id frequencies, optimalTable_build tableClass id frequencies,
    fun codeword member => (optimalTable_codewords tableClass id frequencies member).2.2,
    fun symbol => ⟨?_, optimalTable_encode_of_mem tableClass id frequencies⟩,
    fun symbol codeword encoded => ?lengths⟩
  case listed =>
    have zero : (⟨symbol.toNat, symbol.toNat_lt⟩ : Fin 256) = 0 ↔ symbol = 0 := by
      rw [← UInt8.toNat_inj, Fin.ext_iff]
      rfl
    rw [← zero]
    exact mem_orderedSymbols_iff.trans mem_usedSymbols
  case narrow =>
    have small := (limitedCode frequencies).narrow (place.val + 1) (by omega)
    have count : (optimalTable tableClass id frequencies).counts.get place =
        UInt8.ofNat ((lengthCounts frequencies).getD (place.val + 1) 0) :=
      Vector.getElem_ofFn place.isLt
    rw [count]
    exact (UInt8.toNat_ofNat' ..).trans (Nat.mod_eq_of_lt small)
  case lengths =>
    have coded := (optimalTable_encode_eq_ok tableClass id frequencies encoded).2
    obtain ⟨positive, short, -⟩ := optimalTable_codewords tableClass id frequencies coded
    exact ⟨coded, positive, short⟩
  · rintro ⟨codeword, encoded⟩
    exact (optimalTable_encode_eq_ok tableClass id frequencies encoded).1

/-- Weights that double from symbol to symbol. The code that suits them best is a comb, in
which the rarest of the eighteen symbols has eighteen bits. -/
def doublingFrequencies : Frequencies :=
  Vector.ofFn fun symbol : Fin 256 =>
    if symbol.val < 18 then UInt32.ofNat (2 ^ symbol.val) else 0

/-- The codeword of eighteen bits is taken up to at most sixteen. -/
theorem optimalTable_usable_doubling :
    (0, 18) ∈ codeSizes doublingFrequencies ∧
      ∃ codeword, (HuffmanEncoder.ofTable (optimalTable 0 0 doublingFrequencies)).encode 0 =
          .ok codeword ∧ 1 ≤ codeword.length ∧ codeword.length ≤ 16 := by
  obtain ⟨_, -, rfl, -, listed, -, -, -, -, -, encodes, lengths⟩ :=
    optimalTable_usable 0 0 doublingFrequencies
  have weight : doublingFrequencies.get 0 = 1 := Vector.getElem_ofFn (by decide)
  have occurs : doublingFrequencies.get 0 ≠ 0 := by
    rw [weight]
    decide
  obtain ⟨codeword, encoded⟩ := (encodes 0).mpr ((listed 0).mpr (Or.inl occurs))
  exact ⟨by decide +kernel, codeword, encoded, (lengths 0 codeword encoded).2⟩

end LosslessJpeg
