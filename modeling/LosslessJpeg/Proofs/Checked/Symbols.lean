import LosslessJpeg.Proofs.Checked.Huffman
import LosslessJpeg.Proofs.Huffman.TwoLevel

set_option autoImplicit false

/-!
Decoding a symbol by the arrays of a decoder. A code that is looked up length by length is never
less than the first codeword of a length: the groups of nine bits below have all been found in
the table of short codes.
-/

namespace LosslessJpeg

namespace Checked.ArrayDecoder

/-- The symbol at a place, which may be one before the first or behind the last. -/
def symbolAt (decoder : ArrayDecoder) (place : Int) : Option UInt8 :=
  if place < 0 then none else decoder.symbols[place.toNat]?

def decodeLong (file : List UInt8) (decoder : ArrayDecoder) (length : Nat) : BitChecker UInt8 :=
  if _short : length ≤ 16 then do
    let code ← BufferedReader.peekBits file length
    let greatest ← lift (item decoder.greatest length)
    if greatest < code then do
      lift (fits 8 (length + 1))
      decodeLong file decoder (length + 1)
    else do
      BufferedReader.skipBits length
      let distance ← lift (item decoder.distance length)
      lift (fitsSigned (code + distance))
      match decoder.symbolAt (code + distance) with
      | some symbol => pure symbol
      | none => lift (fail .undecodable)
  else
    lift (fail .undecodable)
termination_by 17 - length

def decode (file : List UInt8) (decoder : ArrayDecoder) : BitChecker UInt8 := do
  let group ← BufferedReader.peekBits file 9
  let found ← lift (item decoder.short.toList group)
  match found with
  | some code => do
      BufferedReader.skipBits code.length
      pure code.symbol
  | none => decodeLong file decoder 10

end Checked.ArrayDecoder

namespace Checked.ArrayDecoder

variable {file : List UInt8} {decoder : ArrayDecoder}

private theorem drop_cons {list rest : List Int} {index : Nat} {value : Int}
    (behind : list.drop index = value :: rest) :
    list[index]? = some value ∧ list.drop (index + 1) = rest := by
  constructor
  · rw [← Nat.add_zero index, ← List.getElem?_drop, behind]
    rfl
  · rw [← List.drop_drop, behind]
    rfl

/-- The greatest codeword of a length tells whether a group lies behind all of this length. -/
private theorem entryOf_lt_iff (first count index code : Nat) :
    (entryOf
        { first := first
          bound := if count = 0 then 0 else first + count
          index := index }).1 < code ↔ ¬ code < if count = 0 then 0 else first + count := by
  unfold entryOf
  dsimp only
  split
  · rw [if_pos rfl]
    dsimp only
    omega
  · rw [if_neg (by omega)]
    dsimp only
    omega

private theorem decodeLong_follows (addressable : file.length < 2 ^ 63) {symbols : Array UInt8}
    (named : decoder.symbols = symbols.toList) {length next index : Nat} {counts : List Nat}
    (long : 10 ≤ length) (lengths : length + counts.length = 17) (few : index + counts.sum ≤ 256)
    (greatest : decoder.greatest.drop length =
      ((codeRangesFrom next index counts).map entryOf).map Prod.fst ++ [2147483647])
    (distance : decoder.distance.drop length =
      ((codeRangesFrom next index counts).map entryOf).map Prod.snd)
    {reader : BufferedReader} {other : BitReader} (represents : reader.Represents file other)
    (enough : length ≤ other.available + 1) (behind : next ≤ 2 * other.front (length - 1)) :
    FollowsState Eq (BufferedReader.Represents file) (decoder.decodeLong file length reader)
      (HuffmanDecoder.decodeLong symbols length (codeRangesFrom next index counts) other) := by
  -- The code seen so far never lies before the first codeword of the length in turn.
  induction counts generalizing length next index reader other with
  | nil =>
      have ended : length = 17 := lengths
      rw [decodeLong, dif_neg (by omega)]
      exact .failure _ _
  | cons count longer inductionHypothesis =>
      rw [List.length_cons] at lengths
      rw [List.sum_cons] at few
      have short : length ≤ 16 := by omega
      rw [codeRangesFrom, List.map_cons, List.map_cons] at greatest distance
      obtain ⟨greatestHere, greatestLater⟩ := drop_cons greatest
      obtain ⟨distanceHere, distanceLater⟩ := drop_cons distance
      rw [decodeLong, dif_pos short, codeRangesFrom, HuffmanDecoder.decodeLong]
      refine (represents.peekBits addressable (by omega) short).bindDone ?_
      rintro code _ filled otherFilled ⟨rfl, small⟩ ⟨representsFilled, available⟩ peeked
      obtain ⟨front, kept⟩ := BitReader.peekBits_front peeked
      obtain ⟨same, -⟩ := kept (length - 1) (by omega)
      have half : otherFilled.front (length - 1) = code / 2 := by
        have total : length - 1 + 1 = length := by omega
        rw [BitReader.front_pred (by rw [representsFilled.available]; omega), total, front]
      have reached : next ≤ code := by omega
      rw [run_lift (item_of_getElem? greatestHere)]
      by_cases last : code < if count = 0 then 0 else next + count
      · -- The code lies among the codewords of this length, so its symbol exists.
        have counted : count ≠ 0 := by
          rintro rfl
          exact absurd last (Nat.not_lt_zero _)
        rw [if_neg ((entryOf_lt_iff next count index code).not.mpr (not_not.mpr last)), if_pos last]
        rw [if_neg counted] at last distanceHere
        rw [entryOf, if_neg (by dsimp only; omega)] at distanceHere
        dsimp only at distanceHere
        refine (representsFilled.skipBits available).bind ?_
        rintro - - after otherAfter - representsAfter
        rw [run_lift (item_of_getElem? distanceHere), run_lift (fitsSigned_of_bounds
          (by omega) (by omega))]
        have place : ((code : Int) + ((index : Int) - next)) =
            ((index + (code - next) : Nat) : Int) := by omega
        rw [place, symbolAt, if_neg (by omega), Int.toNat_natCast, named,
          Array.getElem?_toList]
        cases symbols[index + (code - next)]? with
        | some symbol => exact .ok rfl representsAfter
        | none => exact .failure _ _
      · rw [if_pos ((entryOf_lt_iff next count index code).mpr last), if_neg last,
          run_lift (fits_of_lt (by omega))]
        exact inductionHypothesis (by omega) (by omega) (by omega) greatestLater distanceLater
          representsFilled (by rw [representsFilled.available]; omega)
          (by
            have total : length + 1 - 1 = length := rfl
            rw [total, ← front]
            split at last <;> omega)

private theorem decode_follows (addressable : file.length < 2 ^ 63) {counts : List Nat}
    (lengths : counts.length = 16) {symbols : List UInt8} {built : HuffmanDecoder}
    (done : HuffmanDecoder.build counts symbols = .ok built) {reader : BufferedReader}
    {other : BitReader} (represents : reader.Represents file other) :
    FollowsState Eq (BufferedReader.Represents file)
      ((tabulated counts built).decode file reader) (built.decode other) := by
  have enough := (HuffmanDecoder.build_enough done).2
  rw [decode, HuffmanDecoder.decode]
  refine (represents.peekBits addressable (by decide) (by decide)).bindDone ?_
  rintro group _ filled otherFilled ⟨rfl, small⟩ ⟨representsFilled, available⟩ peeked
  have inside : group < built.short.toList.length := by
    rw [Vector.length_toList]
    exact small
  have entry : built.short[group]? = some built.short.toList[group] := by
    rw [← List.getElem?_eq_getElem inside, Vector.getElem?_toList]
  have listed : (item (tabulated counts built).short.toList group :
      Checked CodecError (Option ShortCode)) = .ok built.short.toList[group] := item_of_lt inside
  rw [run_lift listed, entry, Option.join_some]
  cases found : built.short.toList[group] with
  | some code =>
      rw [found] at entry
      have short := HuffmanDecoder.short_length_of_build done small entry
      refine (representsFilled.skipBits (Nat.le_trans short available)).bind ?_
      rintro - - after otherAfter - representsAfter
      exact .ok rfl representsAfter
  -- A group without a short code lies behind all of them, where the search by length begins.
  | none =>
      have missing : built.short[group]?.join = none := by rw [entry, found, Option.join_some]
      have behind := HuffmanDecoder.codeBehind_le done small missing
      obtain ⟨front, -⟩ := BitReader.peekBits_front peeked
      obtain ⟨-, rfl⟩ := HuffmanDecoder.build_eq_ok done
      have divided := HuffmanDecoder.codeRangesFrom_drop 9 0 0 counts
      have nine : (counts.take 9).sum + (counts.drop 9).sum = counts.sum := by
        rw [← List.sum_append, List.take_append_drop]
      dsimp only
      rw [divided]
      refine decodeLong_follows addressable rfl (Nat.le_refl 10) ?_ (by omega) ?_ ?_
        representsFilled ?_ ?_
      · rw [List.length_drop]
        omega
      · rw [← divided, List.map_drop, List.map_drop, ← List.drop_append_of_le_length]
        · rfl
        · rw [List.length_map, List.length_map, HuffmanDecoder.codeRangesFrom_length,
            lengths]
          decide
      · rw [← divided, List.map_drop, List.map_drop]
        rfl
      · rw [representsFilled.available]
        omega
      · rw [← front]
        exact behind

def Renders (arrays : ArrayDecoder) (decoder : HuffmanDecoder) : Prop :=
  ∃ counts symbols, counts.length = 16 ∧ HuffmanDecoder.build counts symbols = .ok decoder ∧
    arrays = tabulated counts decoder

theorem Renders.decode {arrays : ArrayDecoder} {built : HuffmanDecoder}
    (renders : arrays.Renders built) (addressable : file.length < 2 ^ 63)
    {reader : BufferedReader} {other : BitReader} (represents : reader.Represents file other) :
    FollowsState Eq (BufferedReader.Represents file) (arrays.decode file reader)
      (built.decode other) := by
  obtain ⟨counts, symbols, lengths, done, rfl⟩ := renders
  exact decode_follows addressable lengths done represents

end Checked.ArrayDecoder

end LosslessJpeg
