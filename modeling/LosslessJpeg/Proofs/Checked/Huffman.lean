import LosslessJpeg.Proofs.Checked.Bits
import LosslessJpeg.Proofs.Huffman.Decoding

set_option autoImplicit false

/-!
Building the arrays of a Huffman decoder. Entries of an array stand for the codewords of one
length: the greatest of them, and how far the place of a symbol lies from its codeword. The
numbers have a sign, since a length without codewords has the greatest codeword -1.
-/

namespace LosslessJpeg

namespace Checked

structure ArrayDecoder where
  short : ShortCodeTable
  greatest : List Int
  /-- For each length from zero to sixteen, the distance from a codeword to its symbol. -/
  distance : List Int
  symbols : List UInt8

namespace ArrayDecoder

/-- The groups of nine bits that begin with a short codeword lie in their table. -/
def shortGroups (length code : Nat) : Checked CodecError Unit :=
  if length ≤ 9 then do
    covers 9 length
    shifts 64 (9 - length)
    bounds 512 (code * 2 ^ (9 - length)) (code * 2 ^ (9 - length) + 2 ^ (9 - length))
  else
    pure ()

def enterCodes (symbols : List UInt8) (length : Nat) :
    Nat → Nat → Nat → ShortCodeTable → Checked CodecError ShortCodeTable
  | 0, _, _, table => pure table
  | count + 1, code, place, table => do
      shifts 32 length
      if 2 ^ length ≤ code then
        fail (.malformed .overfullHuffmanTable)
      else do
        let symbol ← item symbols place
        shortGroups length code
        fitsSigned (code + 1)
        fits 64 (place + 1)
        enterCodes symbols length count (code + 1) (place + 1)
          (HuffmanDecoder.enterShortCode table ({ length := length, value := code }, symbol))

def enterLengths (symbols : List UInt8) :
    Nat → Nat → Nat → List Nat → ShortCodeTable →
      Checked CodecError (ShortCodeTable × List (Int × Int))
  | _, _, _, [], table => pure (table, [])
  | length, code, place, count :: longer, table => do
      covers length 1
      inside 16 (length - 1)
      inside 17 length
      fitsSigned ((place : Int) - code)
      let entered ← enterCodes symbols length count code place table
      inside 18 length
      fitsSigned (((code + count : Nat) : Int) - 1)
      shifts 32 1
      let (filled, entries) ←
        enterLengths symbols (length + 1) (2 * (code + count)) (place + count) longer entered
      pure (filled,
        (if count = 0 then (-1, 0)
          else (((code + count : Nat) : Int) - 1, (place : Int) - code)) :: entries)

def build (counts : List Nat) (symbols : List UInt8) : Checked CodecError ArrayDecoder := do
  let total := counts.foldr (· + ·) 0
  fits 64 total
  if symbols.length < total ∨ 256 < total then
    fail (.malformed .symbolCountMismatch)
  else do
    let (short, entries) ← enterLengths symbols 1 0 0 counts (Vector.replicate 512 none)
    inside 18 17
    let kept ← slice symbols 0 total
    pure
      { short := short
        greatest := -1 :: entries.map Prod.fst ++ [2147483647]
        distance := 0 :: entries.map Prod.snd
        symbols := kept }

variable {symbols : List UInt8}

private theorem shortGroups_of_lt {length code : Nat} (small : code < 2 ^ length) :
    shortGroups length code = .ok () := by
  unfold shortGroups
  split
  · rename_i short
    have power : 2 ^ length * 2 ^ (9 - length) = 2 ^ 9 := by
      rw [← Nat.pow_add, Nat.add_sub_cancel' short]
    have inside : (code + 1) * 2 ^ (9 - length) ≤ 512 := by
      rw [show 512 = 2 ^ length * 2 ^ (9 - length) from power.symm]
      exact Nat.mul_le_mul_right _ small
    rw [Nat.succ_mul] at inside
    rw [bind_of_ok (covers_of_le short), bind_of_ok (shifts_of_lt (by omega))]
    exact bounds_of_le (Nat.le_add_right _ _) inside
  · rfl

private def sameLength (length code count : Nat) : List Codeword :=
  (List.range' code count).map (Codeword.mk length)

private theorem enterCodes_eq {length code place count : Nat} (short : length ≤ 16)
    (small : code ≤ 2 ^ length) (room : place + count ≤ symbols.length)
    (few : place + count ≤ 256) (table : ShortCodeTable) :
    enterCodes symbols length count code place table =
      if code + count ≤ 2 ^ length then
        .ok (((sameLength length code count).zip (symbols.drop place)).foldl
          HuffmanDecoder.enterShortCode table)
      else
        fail (.malformed .overfullHuffmanTable) := by
  have power : 2 ^ length ≤ 2 ^ 16 := Nat.pow_le_pow_right (by decide) short
  induction count generalizing code place table with
  | zero =>
      rw [Nat.add_zero, if_pos small]
      rfl
  | succ count inductionHypothesis =>
      rw [enterCodes, bind_of_ok (shifts_of_lt (by omega))]
      by_cases full : 2 ^ length ≤ code
      · rw [if_pos full, if_neg (by omega)]
      · have there : place < symbols.length := by omega
        rw [if_neg full, bind_of_ok (item_of_lt there),
          bind_of_ok (shortGroups_of_lt (Nat.lt_of_not_le full)),
          bind_of_ok (fitsSigned_of_bounds (by omega) (by omega)),
          bind_of_ok (fits_of_lt (by omega)),
          inductionHypothesis (by omega) (by omega) (by omega), List.drop_eq_getElem_cons there]
        have total : code + 1 + count = code + (count + 1) := by omega
        rw [total]
        rfl

/-- What the arrays hold for the codewords of one length. -/
def entryOf (range : CodeRange) : Int × Int :=
  if range.bound = 0 then (-1, 0) else (range.bound - 1, (range.index : Int) - range.first)

private theorem sameLength_length (length code count : Nat) :
    (sameLength length code count).length = count := by
  rw [sameLength, List.length_map, List.length_range']

private theorem zip_append {α β : Type} (first second : List α) (others : List β) :
    (first ++ second).zip others =
      first.zip others ++ second.zip (others.drop first.length) := by
  induction first generalizing others with
  | nil => rfl
  | cons item rest inductionHypothesis =>
      cases others with
      | nil => simp
      | cons other others =>
          exact congrArg _ (inductionHypothesis others)

private theorem entryOf_range (code place count : Nat) :
    entryOf
        { first := code
          bound := if count = 0 then 0 else code + count
          index := place } =
      if count = 0 then ((-1 : Int), (0 : Int))
      else (((code + count : Nat) : Int) - 1, (place : Int) - code) := by
  unfold entryOf
  dsimp only
  by_cases none : count = 0
  · rw [if_pos none, if_pos rfl, if_pos none]
  · rw [if_neg none, if_neg (by omega), if_neg none]

private theorem sameLength_overflows {length code count : Nat} (small : code ≤ 2 ^ length) :
    (sameLength length code count).any Codeword.overflows = true ↔ ¬ code + count ≤ 2 ^ length := by
  unfold sameLength
  rw [List.any_map, List.any_eq_true]
  constructor
  · rintro ⟨value, member, overflows⟩
    have large := (Codeword.overflows_iff _).mp overflows
    have inside := List.mem_range'_1.mp member
    dsimp only at large
    omega
  · intro large
    refine ⟨code + count - 1, List.mem_range'_1.mpr (by omega), ?_⟩
    refine (Codeword.overflows_iff _).mpr ?_
    dsimp only
    omega

private theorem enterLengths_eq {length code place : Nat} {counts : List Nat}
    (start : 1 ≤ length) (lengths : length + counts.length = 17) (small : code ≤ 2 ^ length)
    (room : place + counts.sum ≤ symbols.length) (few : place + counts.sum ≤ 256)
    (table : ShortCodeTable) :
    enterLengths symbols length code place counts table =
      if (codewordsFrom length code counts).any Codeword.overflows then
        fail (.malformed .overfullHuffmanTable)
      else
        .ok (((codewordsFrom length code counts).zip (symbols.drop place)).foldl
            HuffmanDecoder.enterShortCode table,
          (codeRangesFrom code place counts).map entryOf) := by
  -- Length by length, with the first codeword of each at most two to its length. That keeps the
  -- groups of nine bits inside of their table.
  induction counts generalizing length code place table with
  | nil => rfl
  | cons count longer inductionHypothesis =>
      rw [List.length_cons] at lengths
      rw [List.sum_cons] at room few
      have power : 2 ^ length ≤ 2 ^ 16 := Nat.pow_le_pow_right (by decide) (by omega)
      have words : codewordsFrom length code (count :: longer) =
          sameLength length code count ++
            codewordsFrom (length + 1) (2 * (code + count)) longer := rfl
      rw [enterLengths, bind_of_ok (covers_of_le start), bind_of_ok (inside_of_lt (by omega)),
        bind_of_ok (inside_of_lt (by omega)),
        bind_of_ok (fitsSigned_of_bounds (by omega) (by omega)),
        enterCodes_eq (by omega) small (by omega) (by omega), words, List.any_append]
      -- The check comes before any codeword of this length is entered.
      by_cases fit : code + count ≤ 2 ^ length
      · have fits := (sameLength_overflows small).not.mpr (not_not.mpr fit)
        have next : 2 * (code + count) ≤ 2 ^ (length + 1) := by
          rw [Nat.pow_succ]
          omega
        rw [if_pos fit, bind_of_ok rfl, bind_of_ok (inside_of_lt (by omega)),
          bind_of_ok (fitsSigned_of_bounds (by omega) (by omega)),
          bind_of_ok (shifts_of_lt (by decide)),
          inductionHypothesis (by omega) (by omega) next (by omega) (by omega),
          eq_false_of_ne_true fits, Bool.false_or]
        split
        · rfl
        · rw [bind_of_ok rfl, zip_append, sameLength_length, List.drop_drop, List.foldl_append,
            codeRangesFrom, List.map_cons, entryOf_range]
          rfl
      · rw [if_neg fit, (sameLength_overflows small).mpr fit, Bool.true_or, if_pos rfl]
        rfl

def tabulated (counts : List Nat) (decoder : HuffmanDecoder) : ArrayDecoder :=
  { short := decoder.short
    greatest := -1 :: ((codeRangesFrom 0 0 counts).map entryOf).map Prod.fst ++ [2147483647]
    distance := 0 :: ((codeRangesFrom 0 0 counts).map entryOf).map Prod.snd
    symbols := decoder.symbols.toList }

theorem build_eq {counts : List Nat} (lengths : counts.length = 16)
    (total : counts.sum < 2 ^ 64) (symbols : List UInt8) :
    build counts symbols = of ((HuffmanDecoder.build counts symbols).map (tabulated counts)) := by
  have sum : counts.foldr (· + ·) 0 = counts.sum := rfl
  unfold build HuffmanDecoder.build
  dsimp only
  rw [sum, bind_of_ok (fits_of_lt total)]
  split
  · rfl
  · rename_i proper
    rw [enterLengths_eq (Nat.le_refl 1) (by omega) (Nat.zero_le _) (by omega) (by omega)]
    unfold codewords
    split
    · rfl
    · rw [bind_of_ok rfl, bind_of_ok (inside_of_lt (by decide)),
        bind_of_ok (slice_of_le (Nat.zero_le _) (by omega))]
      rfl

end ArrayDecoder

end Checked

end LosslessJpeg
