import LosslessJpeg.Proofs.Huffman.Decoding
import LosslessJpeg.Proofs.Huffman.LengthLimit

set_option autoImplicit false

/-!
The best table for given frequencies can always be used: it lists every symbol that
occurs, it can be decoded, and it has a codeword for each of its symbols.
-/

namespace LosslessJpeg

open OptimalCode
open Finset (range)

theorem kraftSum_eq_sum (counts : List Nat) :
    kraftSum counts =
      ∑ place ∈ range counts.length, counts.getD place 0 * 2 ^ (counts.length - 1 - place) := by
  induction counts with
  | nil => rfl
  | cons count longer inductionHypothesis =>
      rw [kraftSum, inductionHypothesis, List.length_cons, Finset.sum_range_succ',
        Nat.add_comm]
      congr 1
      apply Finset.sum_congr rfl
      intro place member
      have inside := Finset.mem_range.mp member
      rw [List.getD_cons_succ]
      congr 2
      omega

namespace OptimalCode

/-- The sixteen counts of an optimal table are all that matter of its code. -/
theorem LimitedCode.measure_eq {total : Nat} {counts : LengthCounts}
    (code : LimitedCode total counts) (weight : Nat → Nat) :
    measure weight counts =
      ∑ place ∈ range 16, counts.getD (place + 1) 0 * weight (place + 1) := by
  have inside : range 17 ⊆ range 258 := Finset.range_subset_range.mpr (by decide)
  unfold measure
  rw [← Finset.sum_subset inside, Finset.sum_range_succ', code.no_empty, Nat.zero_mul,
    Nat.add_zero]
  intro length member absent
  rw [code.none_longer length (by
    rw [Finset.mem_range] at absent
    omega) (Finset.mem_range.mp member), Nat.zero_mul]

theorem bySize_iff {left right : Nat × Nat} :
    bySize left right = true ↔ left.2 < right.2 ∨ left.2 = right.2 ∧ left.1 ≤ right.1 := by
  unfold bySize
  simp

theorem mergeSort_bySize (entries : List (Nat × Nat)) :
    (entries.mergeSort bySize).Pairwise fun left right => bySize left right = true := by
  refine List.pairwise_mergeSort (fun first second third before behind => ?_)
    (fun first second => ?_) entries
  · rw [bySize_iff] at before behind ⊢
    omega
  · rw [Bool.or_eq_true, bySize_iff, bySize_iff]
    omega

variable (frequencies : Frequencies)

private theorem filtered_length :
    ((codeSizes frequencies).filter fun entry => entry.1 < reserved).length =
      (usedSymbols frequencies).length := by
  have perm := (codeSizes_symbols frequencies).filter fun symbol => decide (symbol < reserved)
  have count := perm.length_eq
  rw [List.filter_map, List.length_map, List.filter_append, List.length_append] at count
  have all : ((usedSymbols frequencies).map Prod.fst).filter
      (fun symbol => decide (symbol < reserved)) = (usedSymbols frequencies).map Prod.fst := by
    rw [List.filter_eq_self]
    intro symbol member
    obtain ⟨entry, listed, rfl⟩ := List.mem_map.mp member
    exact decide_eq_true (usedSymbols_lt listed)
  rw [all, List.length_map] at count
  exact count

theorem orderedSymbols_length :
    (orderedSymbols (codeSizes frequencies)).length = (usedSymbols frequencies).length := by
  unfold orderedSymbols
  rw [List.length_map, List.length_mergeSort, filtered_length]

private theorem toNat_ofNat_of_lt {symbol : Nat} (named : symbol < reserved) :
    (UInt8.ofNat symbol).toNat = symbol :=
  (UInt8.toNat_ofNat' ..).trans (Nat.mod_eq_of_lt named)

theorem mem_orderedSymbols_iff {frequencies : Frequencies} {symbol : UInt8} :
    symbol ∈ orderedSymbols (codeSizes frequencies) ↔
      symbol.toNat ∈ (usedSymbols frequencies).map Prod.fst := by
  have listed : symbol.toNat ∈ (codeSizes frequencies).map Prod.fst ↔
      symbol.toNat ∈ (usedSymbols frequencies).map Prod.fst := by
    have away : symbol.toNat ≠ reserved := Nat.ne_of_lt symbol.toNat_lt
    rw [(codeSizes_symbols frequencies).mem_iff, List.mem_append, List.mem_singleton,
      or_iff_left away]
  rw [← listed]
  unfold orderedSymbols
  rw [List.mem_map, List.mem_map]
  refine exists_congr fun entry => ?_
  rw [List.mem_mergeSort, List.mem_filter]
  constructor
  · rintro ⟨⟨member, named⟩, same⟩
    rw [← same]
    exact ⟨member, (toNat_ofNat_of_lt (of_decide_eq_true named)).symm⟩
  · rintro ⟨member, same⟩
    refine ⟨⟨member, decide_eq_true ?_⟩, ?_⟩
    · rw [same]
      exact symbol.toNat_lt
    · rw [same, UInt8.ofNat_toNat]

theorem orderedSymbols_distinct (frequencies : Frequencies) :
    (orderedSymbols (codeSizes frequencies)).Nodup := by
  have named : (orderedSymbols (codeSizes frequencies)).map UInt8.toNat =
      (((codeSizes frequencies).filter fun entry => entry.1 < reserved).mergeSort bySize).map
        Prod.fst := by
    unfold orderedSymbols
    rw [List.map_map]
    apply List.map_congr_left
    intro entry member
    rw [List.mem_mergeSort, List.mem_filter] at member
    exact toNat_ofNat_of_lt (of_decide_eq_true member.2)
  refine List.Nodup.of_map UInt8.toNat ?_
  rw [named, ((List.mergeSort_perm _ _).map Prod.fst).nodup_iff]
  exact (codeSizes_distinct frequencies).sublist (List.filter_sublist.map _)

end OptimalCode

variable (tableClass id : UInt8) (frequencies : Frequencies)

theorem optimalTable_countList :
    (optimalTable tableClass id frequencies).countList =
      (List.range 16).map fun place => (lengthCounts frequencies).getD (place + 1) 0 := by
  have narrow := (limitedCode frequencies).narrow
  unfold HuffmanTable.countList optimalTable
  dsimp only
  apply List.ext_getElem (by simp)
  intro place bound _
  have inside : place < 16 := by simpa using bound
  have small := narrow (place + 1) (by omega)
  simp only [Vector.toList_ofFn, List.getElem_map, List.getElem_ofFn, List.getElem_range]
  rw [UInt8.toNat_ofNat']
  exact Nat.mod_eq_of_lt small

private theorem optimalTable_countList_length :
    (optimalTable tableClass id frequencies).countList.length = 16 := by
  rw [optimalTable_countList, List.length_map, List.length_range]

theorem optimalTable_sum :
    (optimalTable tableClass id frequencies).countList.sum =
      (usedSymbols frequencies).length := by
  have code := limitedCode frequencies
  have words := code.codewords
  rw [code.measure_eq] at words
  simp only [Nat.mul_one] at words
  rw [optimalTable_countList, ← words]
  rfl

theorem optimalTable_symbols_length :
    (optimalTable tableClass id frequencies).symbols.length =
      (optimalTable tableClass id frequencies).countList.sum := by
  rw [optimalTable_sum]
  exact orderedSymbols_length frequencies

theorem optimalTable_sum_le : (optimalTable tableClass id frequencies).countList.sum ≤ 256 := by
  rw [optimalTable_sum]
  exact (usedSymbols_length frequencies).2

/-- The codewords of an optimal table leave some bit strings unused. -/
theorem optimalTable_kraft :
    kraftSum (optimalTable tableClass id frequencies).countList < 2 ^ 16 := by
  have code := limitedCode frequencies
  have room := code.room
  rw [code.measure_eq] at room
  have scaled : ∑ place ∈ range 16,
      (lengthCounts frequencies).getD (place + 1) 0 * share (place + 1) =
      kraftSum (optimalTable tableClass id frequencies).countList * 2 ^ 240 := by
    rw [kraftSum_eq_sum, optimalTable_countList, List.length_map, List.length_range,
      Finset.sum_mul]
    apply Finset.sum_congr rfl
    intro place member
    have inside := Finset.mem_range.mp member
    rw [List.getD_eq_getElem?_getD, List.getElem?_map, List.getElem?_range inside,
      Option.map_some, Option.getD_some, Nat.mul_assoc, ← Nat.pow_add]
    unfold share
    congr 2
    omega
  rw [scaled] at room
  refine Nat.lt_of_mul_lt_mul_right (a := 2 ^ 240) (Nat.lt_of_lt_of_eq room ?_)
  rw [← Nat.pow_add]

theorem optimalTable_build :
    ∃ decoder, HuffmanDecoder.ofTable (optimalTable tableClass id frequencies) =
      .ok decoder := by
  have kraft := optimalTable_kraft tableClass id frequencies
  have count := optimalTable_symbols_length tableClass id frequencies
  have few := optimalTable_sum_le tableClass id frequencies
  have lengths := optimalTable_countList_length tableClass id frequencies
  unfold HuffmanDecoder.ofTable HuffmanDecoder.build
  rw [← List.sum_eq_foldr]
  dsimp only
  rw [if_neg (by omega), if_neg]
  · exact ⟨_, rfl⟩
  · intro overfull
    obtain ⟨codeword, member, overflows⟩ := List.any_eq_true.mp overfull
    have fits := codewords_fit_iff.mpr (by rw [lengths]; exact Nat.le_of_lt kraft) codeword member
    exact absurd (codeword.overflows_iff.mp overflows) (Nat.not_le_of_lt fits)

theorem optimalTable_encode_of_mem {symbol : UInt8}
    (listed : symbol ∈ (optimalTable tableClass id frequencies).symbols) :
    ∃ codeword, (HuffmanEncoder.ofTable (optimalTable tableClass id frequencies)).encode
      symbol = .ok codeword := by
  apply HuffmanEncoder.encode_of_mem
  rw [← optimalTable_symbols_length, List.take_length]
  exact listed

theorem optimalTable_encode {symbol : UInt8}
    (occurs : frequencies.get ⟨symbol.toNat, symbol.toNat_lt⟩ ≠ 0) :
    ∃ codeword, (HuffmanEncoder.ofTable (optimalTable tableClass id frequencies)).encode
      symbol = .ok codeword := by
  exact optimalTable_encode_of_mem tableClass id frequencies
    (mem_orderedSymbols_iff.mpr (mem_usedSymbols_of_ne_zero occurs))

theorem optimalTable_codewords {codeword : Codeword}
    (member : codeword ∈ codewords (optimalTable tableClass id frequencies).countList) :
    1 ≤ codeword.length ∧ codeword.length ≤ 16 ∧
      codeword.bits ≠ List.replicate codeword.length true := by
  have bounds := codewordsFrom_bounds member
  have kraft := optimalTable_kraft tableClass id frequencies
  have sixteen := optimalTable_countList_length tableClass id frequencies
  rw [← sixteen] at kraft
  exact ⟨bounds.1, by omega, Codeword.bits_ne_ones (codewords_short kraft member)⟩

/-- Each symbol of an optimal table has a codeword of the table, and no other symbol has one. -/
theorem optimalTable_encode_eq_ok {symbol : UInt8} {codeword : Codeword}
    (encoded : (HuffmanEncoder.ofTable (optimalTable tableClass id frequencies)).encode symbol =
      .ok codeword) :
    symbol ∈ (optimalTable tableClass id frequencies).symbols ∧
      codeword ∈ codewords (optimalTable tableClass id frequencies).countList := by
  have sixteen := optimalTable_countList_length tableClass id frequencies
  have kraft := optimalTable_kraft tableClass id frequencies
  rw [← sixteen] at kraft
  obtain ⟨place, coded, named⟩ := HuffmanEncoder.encode_eq_ok
    (codewords_fit_iff.mpr (Nat.le_of_lt kraft)) (Nat.le_of_eq sixteen) encoded
  exact ⟨List.mem_of_getElem? named, List.mem_of_getElem? coded⟩

end LosslessJpeg
