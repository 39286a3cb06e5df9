import LosslessJpeg.Proofs.Huffman.OptimalTable

set_option autoImplicit false

/-!
The lengths that an optimal table gives its symbols. If no codeword is too long, these are the
depths of the leaves dealt out again in rising order, without one of the greatest.
-/

namespace LosslessJpeg

def dealCost (weights lengths : List Nat) : Nat :=
  (List.zipWith (· * ·) weights lengths).sum

theorem dealCost_cons (weight length : Nat) (weights lengths : List Nat) :
    dealCost (weight :: weights) (length :: lengths) =
      weight * length + dealCost weights lengths := by
  rw [dealCost, List.zipWith_cons_cons, List.sum_cons]
  rfl

private theorem exists_lesser {weight : Nat} (positive : 1 ≤ weight) (size first : Nat) :
    ∃ lesser greater, [size, first].Perm [lesser, greater] ∧ lesser ≤ greater ∧ lesser ≤ first ∧
      weight * lesser + greater ≤ weight * first + size := by
  rcases Nat.le_total size first with early | late
  · refine ⟨size, first, List.Perm.refl _, early, early, ?_⟩
    obtain ⟨more, rfl⟩ := Nat.exists_eq_add_of_le' positive
    have scaled := Nat.mul_le_mul_left more early
    rw [Nat.succ_mul, Nat.succ_mul]
    omega
  · exact ⟨first, size, List.Perm.swap _ _ _, late, Nat.le_refl _, Nat.le_refl _⟩

/-- Lengths are dealt in rising order, and the longest is left for a weight of one. This costs no
more than if that weight has another of them. -/
theorem dealCost_le {weights sizes dealt : List Nat} {size longest : Nat}
    (positive : ∀ weight ∈ weights, 1 ≤ weight) (matched : weights.length = sizes.length)
    (rising : sizes.Pairwise (· ≤ ·)) (risingDealt : (dealt ++ [longest]).Pairwise (· ≤ ·))
    (same : (dealt ++ [longest]).Perm (size :: sizes)) :
    dealCost weights dealt + longest ≤ dealCost weights sizes + size := by
  -- The first weight takes the lesser of its own length and the spare one. The greater of the two
  -- is the spare one of the other weights, which is why the induction is for any spare length.
  induction sizes generalizing weights dealt size with
  | nil =>
      obtain rfl := List.length_eq_zero_iff.mp matched
      obtain rfl : dealt = [] := by
        have count := same.length_eq
        rw [List.length_append] at count
        exact List.length_eq_zero_iff.mp (Nat.succ_inj.mp count)
      obtain rfl := List.singleton_perm_singleton.mp same
      exact Nat.le_refl _
  | cons first rest inductionHypothesis =>
      obtain ⟨weight, weightsRest, rfl⟩ := List.exists_cons_of_length_eq_add_one matched
      obtain ⟨before, risingRest⟩ := List.pairwise_cons.mp rising
      obtain ⟨lesser, greater, swapped, ordered, least, cheaper⟩ :=
        exists_lesser (positive weight List.mem_cons_self) size first
      have sorted := same.trans (swapped.append_right rest)
      obtain ⟨front, dealtRest, rfl⟩ := List.exists_cons_of_length_eq_add_one
        (show dealt.length = rest.length + 1 by simpa using same.length_eq)
      obtain ⟨lowest, risingDealtRest⟩ := List.pairwise_cons.mp risingDealt
      -- Both lists hold the same lengths in order, so they begin with the same one.
      obtain rfl : front = lesser := by
        apply Nat.le_antisymm
        · rcases List.mem_cons.mp (sorted.mem_iff.mpr List.mem_cons_self) with equal | behind
          · exact Nat.le_of_eq equal.symm
          · exact lowest lesser behind
        · rcases List.mem_cons.mp (sorted.mem_iff.mp List.mem_cons_self) with equal | behind
          · exact Nat.le_of_eq equal.symm
          · rcases List.mem_cons.mp behind with equal | behind
            · exact equal ▸ ordered
            · exact Nat.le_trans least (before front behind)
      have later := inductionHypothesis
        (fun weight member => positive weight (List.mem_cons_of_mem _ member))
        (Nat.succ_inj.mp matched) risingRest risingDealtRest sorted.cons_inv
      rw [dealCost_cons, dealCost_cons]
      omega

namespace HuffmanEncoder

def lengthOf (encoder : HuffmanEncoder) (symbol : UInt8) : Nat :=
  match encoder.encode symbol with
  | .ok codeword => codeword.length
  | .error _ => 0

theorem lengthOf_of_encode {encoder : HuffmanEncoder} {symbol : UInt8} {codeword : Codeword}
    (encoded : encoder.encode symbol = .ok codeword) :
    encoder.lengthOf symbol = codeword.length := by
  unfold lengthOf
  rw [encoded]

end HuffmanEncoder

namespace OptimalCode

variable (frequencies : Frequencies)

def orderedSizes : List (Nat × Nat) :=
  ((codeSizes frequencies).filter fun entry => entry.1 < reserved).mergeSort bySize

theorem orderedSizes_rising : ((orderedSizes frequencies).map Prod.snd).Pairwise (· ≤ ·) := by
  rw [List.pairwise_map]
  refine (mergeSort_bySize _).imp fun before => ?_
  rw [bySize_iff] at before
  omega

theorem codeSizes_perm : ∃ size,
    (codeSizes frequencies).Perm ((reserved, size) :: orderedSizes frequencies) := by
  have listed : reserved ∈ (codeSizes frequencies).map Prod.fst :=
    (codeSizes_symbols frequencies).mem_iff.mpr
      (List.mem_append_right _ (List.mem_singleton_self reserved))
  obtain ⟨⟨_, size⟩, member, rfl⟩ := List.mem_map.mp listed
  have front := List.perm_cons_erase member
  have symbols := (front.map Prod.fst).symm.trans (codeSizes_symbols frequencies)
  rw [List.map_cons] at symbols
  have others := (symbols.trans List.perm_append_comm).cons_inv
  have named : ∀ entry ∈ (codeSizes frequencies).erase (reserved, size), entry.1 < reserved := by
    intro entry rest
    obtain ⟨used, inUse, same⟩ := List.mem_map.mp (others.mem_iff.mp (List.mem_map_of_mem rest))
    exact same ▸ usedSymbols_lt inUse
  have chosen := front.filter fun entry => decide (entry.1 < reserved)
  rw [List.filter_cons_of_neg (by simp), List.filter_eq_self.mpr fun entry rest =>
    decide_eq_true (named entry rest)] at chosen
  exact ⟨size, front.trans (List.Perm.cons _ (chosen.symm.trans (List.mergeSort_perm _ _).symm))⟩

/-- The longest length in use before the reserved codeword is given up. -/
def longestSize : Nat :=
  longestUsed (limitLengths (countLengths (codeSizes frequencies))) 16

theorem optimalTable_count (tableClass id : UInt8) (length : Nat) :
    ((codewords (optimalTable tableClass id frequencies).countList).map Codeword.length).count
      length = (lengthCounts frequencies).getD length 0 := by
  have code := limitedCode frequencies
  have size := (dropReserved_size _).trans (cappedCode frequencies).size
  rw [codewords, codewordsFrom_count, optimalTable_countList, List.getD_eq_getElem?_getD,
    List.getElem?_map]
  rcases Nat.eq_zero_or_pos length with rfl | positive
  · rw [if_pos Nat.one_pos, code.no_empty]
  rw [if_neg (Nat.not_lt_of_le positive)]
  rcases Nat.lt_or_ge 16 length with long | short
  · rw [List.getElem?_eq_none (by rw [List.length_range]; omega)]
    by_cases inside : length < 258
    · rw [code.none_longer length long inside]
      rfl
    · exact (getD_outside size (Nat.le_of_not_lt inside)).symm
  · rw [List.getElem?_range (by omega), Option.map_some, Option.getD_some,
      Nat.sub_add_cancel positive]

theorem dealt_rising (tableClass id : UInt8) :
    ((codewords (optimalTable tableClass id frequencies).countList).map Codeword.length ++
      [longestSize frequencies]).Pairwise (· ≤ ·) := by
  rw [List.pairwise_append]
  refine ⟨?_, List.pairwise_singleton _ _, ?_⟩
  · rw [List.pairwise_map]
    exact (codewords_pairwise _).imp And.left
  · intro length member longest last
    obtain rfl := List.mem_singleton.mp last
    have inUse := List.count_pos_iff.mpr member
    obtain ⟨codeword, listed, rfl⟩ := List.mem_map.mp member
    have short := (optimalTable_codewords tableClass id frequencies listed).2.1
    rw [optimalTable_count] at inUse
    by_contra longer
    have unused := unused_of_longestUsed_lt (Nat.lt_of_not_le longer) short
    rw [dropReserved_getD (cappedCode frequencies)] at unused
    unfold lengthCounts at inUse
    omega

theorem optimalTable_encode_of_getElem? (tableClass id : UInt8) {place : Nat} {symbol : UInt8}
    (named : (orderedSymbols (codeSizes frequencies))[place]? = some symbol) :
    ∃ codeword,
      (HuffmanEncoder.ofTable (optimalTable tableClass id frequencies)).encode symbol =
        .ok codeword ∧
      (codewords (optimalTable tableClass id frequencies).countList)[place]? = some codeword := by
  obtain ⟨codeword, encoded⟩ := optimalTable_encode_of_mem tableClass id frequencies
    (List.mem_of_getElem? named)
  refine ⟨codeword, encoded, ?_⟩
  have sixteen := (optimalTable tableClass id frequencies).countList_length
  have kraft := optimalTable_kraft tableClass id frequencies
  rw [← sixteen] at kraft
  obtain ⟨other, coded, namedToo⟩ := HuffmanEncoder.encode_eq_ok
    (codewords_fit_iff.mpr (Nat.le_of_lt kraft)) (Nat.le_of_eq sixteen) encoded
  obtain ⟨inside, -⟩ := List.getElem?_eq_some_iff.mp named
  obtain rfl := (List.getElem?_inj inside (orderedSymbols_distinct frequencies)).mp
    (named.trans namedToo.symm)
  exact coded

def tableLength (tableClass id : UInt8) (symbol : Nat) : Nat :=
  (HuffmanEncoder.ofTable (optimalTable tableClass id frequencies)).lengthOf (UInt8.ofNat symbol)

theorem orderedSizes_lengths (tableClass id : UInt8) :
    ((orderedSizes frequencies).map fun entry => tableLength frequencies tableClass id entry.1) =
      (codewords (optimalTable tableClass id frequencies).countList).map Codeword.length := by
  apply List.ext_getElem?
  intro place
  rw [List.getElem?_map, List.getElem?_map]
  cases listed : (orderedSizes frequencies)[place]? with
  | none =>
      rw [Option.map_none, List.getElem?_eq_none, Option.map_none]
      rw [codewords_length, optimalTable_sum, ← orderedSymbols_length]
      unfold orderedSymbols
      rw [List.length_map]
      exact List.getElem?_eq_none_iff.mp listed
  | some entry =>
      have named : (orderedSymbols (codeSizes frequencies))[place]? =
          some (UInt8.ofNat entry.1) := by
        unfold orderedSymbols
        exact (List.getElem?_map ..).trans (congrArg (Option.map _) listed)
      obtain ⟨codeword, encoded, coded⟩ :=
        optimalTable_encode_of_getElem? frequencies tableClass id named
      rw [coded, Option.map_some, Option.map_some, tableLength,
        HuffmanEncoder.lengthOf_of_encode encoded]

variable {frequencies}

/-- Where no leaf is too deep, the lengths of the codewords and the longest one are the depths of
the leaves. -/
theorem dealt_perm (tableClass id : UInt8)
    (short : ∀ entry ∈ codeSizes frequencies, entry.2 ≤ 16) :
    ((codewords (optimalTable tableClass id frequencies).countList).map Codeword.length ++
      [longestSize frequencies]).Perm ((codeSizes frequencies).map Prod.snd) := by
  have counted := @countLengths_getD (codeSizes frequencies) fun entry member =>
    Nat.lt_of_le_of_lt (short entry member) (by decide)
  have kept : limitLengths (countLengths (codeSizes frequencies)) =
      countLengths (codeSizes frequencies) := limitLengths_eq_self fun length long => by
    rw [counted, List.count_eq_zero]
    intro member
    obtain ⟨entry, listed, rfl⟩ := List.mem_map.mp member
    exact Nat.not_le_of_lt long (short entry listed)
  rw [List.perm_iff_count]
  intro length
  rw [← counted, ← kept, dropReserved_getD (cappedCode frequencies), List.count_append,
    optimalTable_count, List.count_singleton]
  simp only [beq_iff_eq]
  rfl

/-- With the codewords of a table symbols cost no more than with the depths of their leaves. -/
theorem dealt_cost_le (tableClass id : UInt8) {weightOf : Nat → Nat}
    (short : ∀ entry ∈ codeSizes frequencies, entry.2 ≤ 16)
    (positive : ∀ entry ∈ codeSizes frequencies, 1 ≤ weightOf entry.1)
    (once : weightOf reserved = 1) :
    ((orderedSizes frequencies).map fun entry =>
        weightOf entry.1 * tableLength frequencies tableClass id entry.1).sum +
        longestSize frequencies ≤
      ((codeSizes frequencies).map fun entry => weightOf entry.1 * entry.2).sum := by
  obtain ⟨size, perm⟩ := codeSizes_perm frequencies
  have cost : ∀ lengthOf : Nat × Nat → Nat,
      ((orderedSizes frequencies).map fun entry => weightOf entry.1 * lengthOf entry).sum =
        dealCost ((orderedSizes frequencies).map fun entry => weightOf entry.1)
          ((orderedSizes frequencies).map lengthOf) := by
    intro lengthOf
    rw [dealCost, List.zipWith_map, List.zipWith_self]
  rw [(perm.map fun entry => weightOf entry.1 * entry.2).sum_nat, List.map_cons, List.sum_cons,
    once, Nat.one_mul, Nat.add_comm size, cost, cost, orderedSizes_lengths]
  refine dealCost_le ?_ (by rw [List.length_map, List.length_map])
    (orderedSizes_rising frequencies) (dealt_rising frequencies tableClass id)
    ((dealt_perm tableClass id short).trans (perm.map Prod.snd))
  intro weight member
  obtain ⟨entry, listed, rfl⟩ := List.mem_map.mp member
  exact positive entry (perm.mem_iff.mpr (List.mem_cons_of_mem _ listed))

end OptimalCode

end LosslessJpeg
