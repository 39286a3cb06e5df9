import LosslessJpeg.Huffman.Decoder
import LosslessJpeg.Huffman.Encoder
import LosslessJpeg.Proofs.Bits.Reading
import LosslessJpeg.Proofs.Huffman.Canonical

set_option autoImplicit false

/-!
The decoder of a table recognizes every codeword of its code, whatever bits follow, and
the encoder of the same table assigns no other codewords.
-/

namespace LosslessJpeg

open BitReader (lookahead Supplies)

namespace Codeword

theorem drop_bits (codeword : Codeword) (rest : List Bool) :
    (codeword.bits ++ rest).drop codeword.length = rest :=
  List.drop_left' codeword.bits_length

theorem ofBinary_lookahead {codeword : Codeword} {count : Nat}
    (fits : codeword.value < 2 ^ codeword.length) (inside : count ≤ codeword.length)
    (rest : List Bool) :
    ofBinary (lookahead count (codeword.bits ++ rest)) =
      codeword.value / 2 ^ (codeword.length - count) := by
  have front : lookahead count (codeword.bits ++ rest) = codeword.bits.take count := by
    unfold lookahead
    rw [List.append_assoc, List.take_append_of_le_length (by rw [bits_length]; exact inside)]
  rw [front, ofBinary_take, bits_length]
  unfold bits
  rw [ofBinary_binary, Nat.mod_eq_of_lt fits]

theorem ofBinary_lookahead_div {codeword : Codeword} {count : Nat}
    (fits : codeword.value < 2 ^ codeword.length) (inside : codeword.length ≤ count)
    (rest : List Bool) :
    ofBinary (lookahead count (codeword.bits ++ rest)) / 2 ^ (count - codeword.length) =
      codeword.value := by
  have small := ofBinary_lt (lookahead (count - codeword.length) rest)
  have enough : codeword.bits.length ≤ count := by
    rw [bits_length]
    exact inside
  have split := BitReader.lookahead_append_of_le codeword.bits rest enough
  rw [bits_length] at split
  rw [BitReader.lookahead_length] at small
  rw [split, ofBinary_append, BitReader.lookahead_length, Nat.mul_comm,
    Nat.mul_add_div (Nat.two_pow_pos _), Nat.div_eq_of_lt small, Nat.add_zero]
  unfold bits
  rw [ofBinary_binary, Nat.mod_eq_of_lt fits]

/-- The codeword stands at the front of a group of nine bits. -/
def Covers (codeword : Codeword) (group : Nat) : Prop :=
  codeword.length ≤ 9 ∧ group / 2 ^ (9 - codeword.length) = codeword.value

instance (codeword : Codeword) (group : Nat) : Decidable (codeword.Covers group) :=
  inferInstanceAs (Decidable (_ ∧ _))

theorem beginsWith_of_div {start codeword : Codeword} {group count : Nat}
    (first : start.length ≤ codeword.length) (second : codeword.length ≤ count)
    (startValue : group / 2 ^ (count - start.length) = start.value)
    (value : group / 2 ^ (count - codeword.length) = codeword.value) :
    codeword.BeginsWith start := by
  refine ⟨first, ?_⟩
  rw [← value, Nat.div_div_eq_div_mul, ← Nat.pow_add, ← startValue]
  congr 2
  omega

theorem Before.not_covers {first second : Codeword} {group : Nat}
    (before : first.Before second) (covered : first.Covers group) : ¬ second.Covers group :=
  fun coveredToo => before.not_beginsWith
    (beginsWith_of_div before.1 coveredToo.1 covered.2 coveredToo.2)

end Codeword

namespace HuffmanDecoder

private theorem foldl_set_getElem? (code : ShortCode) (base width group : Nat)
    (small : group < 512) (table : ShortCodeTable) :
    ((List.range' base width).foldl
      (fun (entered : ShortCodeTable) place => entered.setIfInBounds place (some code))
      table)[group]? =
      if base ≤ group ∧ group < base + width then some (some code) else table[group]? := by
  induction width generalizing base table with
  | zero =>
      rw [if_neg (by omega)]
      rfl
  | succ width inductionHypothesis =>
      rw [List.range'_succ, List.foldl_cons, inductionHypothesis,
        Vector.getElem?_setIfInBounds]
      by_cases same : base = group
      · rw [if_neg (by omega), if_pos same, if_pos (by omega), if_pos (by omega)]
      · rw [if_neg same]
        by_cases inside : base + 1 ≤ group ∧ group < base + 1 + width
        · rw [if_pos inside, if_pos (by omega)]
        · rw [if_neg inside, if_neg (by omega)]

theorem enterShortCode_getElem? (table : ShortCodeTable) (entry : Codeword × UInt8)
    {group : Nat} (small : group < 512) :
    (enterShortCode table entry)[group]? =
      if entry.1.Covers group then
        some (some { symbol := entry.2, length := entry.1.length })
      else
        table[group]? := by
  obtain ⟨codeword, symbol⟩ := entry
  unfold enterShortCode
  dsimp only
  by_cases short : codeword.length ≤ 9
  · rw [if_pos short, Nat.one_shiftLeft, foldl_set_getElem? _ _ _ _ small]
    have positive : 0 < 2 ^ (9 - codeword.length) := Nat.two_pow_pos _
    have divided : (codeword.value * 2 ^ (9 - codeword.length) ≤ group ∧
        group < codeword.value * 2 ^ (9 - codeword.length) + 2 ^ (9 - codeword.length)) ↔
        codeword.Covers group := by
      rw [← Nat.succ_mul, ← Nat.le_div_iff_mul_le positive, ← Nat.div_lt_iff_lt_mul positive]
      unfold Codeword.Covers
      omega
    simp only [divided]
  · rw [if_neg short, if_neg fun covered => short covered.1]

theorem foldl_enter_missing {entries : List (Codeword × UInt8)} {group : Nat}
    (small : group < 512) (missing : ∀ entry ∈ entries, ¬ entry.1.Covers group)
    (table : ShortCodeTable) :
    (entries.foldl enterShortCode table)[group]? = table[group]? := by
  induction entries generalizing table with
  | nil => rfl
  | cons first rest inductionHypothesis =>
      rw [List.foldl_cons,
        inductionHypothesis fun entry member => missing entry (List.mem_cons_of_mem _ member),
        enterShortCode_getElem? _ _ small, if_neg (missing first List.mem_cons_self)]

theorem foldl_enter_found {entries : List (Codeword × UInt8)}
    {entry : Codeword × UInt8} {group : Nat} (small : group < 512)
    (sorted : entries.Pairwise fun first second => first.1.Before second.1)
    (member : entry ∈ entries) (covered : entry.1.Covers group) (table : ShortCodeTable) :
    (entries.foldl enterShortCode table)[group]? =
      some (some { symbol := entry.2, length := entry.1.length }) := by
  induction entries generalizing table with
  | nil => cases member
  | cons first rest inductionHypothesis =>
      rw [List.foldl_cons]
      obtain ⟨earlier, sortedRest⟩ := List.pairwise_cons.mp sorted
      rcases List.mem_cons.mp member with same | later
      · subst same
        rw [foldl_enter_missing small fun other behind =>
            (earlier other behind).not_covers covered,
          enterShortCode_getElem? _ _ small, if_pos covered]
      · exact inductionHypothesis sortedRest later _

/-! ### Longer codes -/

private theorem codeRanges_drop (count length next index : Nat) (counts : List Nat) :
    ∃ front later,
      codewordsFrom length next counts =
        front ++ codewordsFrom (length + count) later (counts.drop count) ∧
      (codeRangesFrom next index counts).drop count =
        codeRangesFrom later (index + front.length) (counts.drop count) ∧
      ∀ codeword ∈ front, codeword.length < length + count := by
  -- A range that is dropped takes its codewords along. The next range begins where they end.
  induction count generalizing length next index counts with
  | zero =>
      refine ⟨[], next, rfl, rfl, ?_⟩
      intro codeword member
      cases member
  | succ count inductionHypothesis =>
      cases counts with
      | nil =>
          refine ⟨[], next, rfl, rfl, ?_⟩
          intro codeword member
          cases member
      | cons first longer =>
          obtain ⟨front, later, words, ranges, shorter⟩ :=
            inductionHypothesis (length + 1) (2 * (next + first)) (index + first) longer
          have total : length + 1 + count = length + (count + 1) := by omega
          rw [total] at words shorter
          refine ⟨(List.range' next first).map (Codeword.mk length) ++ front, later,
            ?_, ?_, ?_⟩
          · rw [codewordsFrom, words, List.append_assoc]
            rfl
          · rw [codeRangesFrom, List.drop_succ_cons, ranges, List.length_append,
              List.length_map, List.length_range', Nat.add_assoc]
            rfl
          · intro codeword member
            rcases List.mem_append.mp member with here | there
            · obtain ⟨value, -, rfl⟩ := List.mem_map.mp here
              dsimp only
              omega
            · exact shorter codeword there

private theorem decodeLong_codeword {closing : Closing} {reader : BitReader}
    {rest : List Bool} {symbols : Array UInt8} {symbol : UInt8} {codeword : Codeword}
    (fits : codeword.value < 2 ^ codeword.length)
    (supplies : Supplies closing reader (codeword.bits ++ rest)) (length next index place : Nat)
    (counts : List Nat)
    (coded : (codewordsFrom length next counts)[place]? = some codeword)
    (named : symbols[index + place]? = some symbol) :
    ∃ left, decodeLong symbols length (codeRangesFrom next index counts) reader =
        .ok symbol left ∧ Supplies closing left rest := by
  -- Length by length: the reader may take in bytes on the way, but it always has the same bits
  -- ahead.
  induction counts generalizing length next index place reader with
  | nil =>
      rw [codewordsFrom, List.getElem?_nil] at coded
      cases coded
  | cons count longer inductionHypothesis =>
      have bounds := codewordsFrom_bounds (List.mem_of_getElem? coded)
      obtain ⟨filled, peeked, suppliesFilled, enough⟩ := supplies.peekBits length
      rw [Codeword.ofBinary_lookahead fits bounds.1] at peeked
      rw [codeRangesFrom, decodeLong, run_bind_of_ok peeked]
      dsimp only
      rw [codewordsFrom] at coded
      by_cases here : place < count
      · -- The codeword has this length, and is the one at `place` among those that have.
        rw [List.getElem?_append_left (by simpa using here), List.getElem?_map,
          List.getElem?_range' here, Option.map_some] at coded
        cases coded
        have positive : count ≠ 0 := by omega
        dsimp only at peeked suppliesFilled ⊢
        rw [Nat.sub_self, Nat.pow_zero, Nat.div_one, Nat.one_mul, if_neg positive,
          if_pos (by omega)]
        obtain ⟨left, skipped, suppliesLeft⟩ := suppliesFilled.skipBits enough
        rw [run_bind_of_ok skipped, Nat.add_sub_cancel_left, named]
        have consumed := Codeword.drop_bits { length := length, value := next + 1 * place } rest
        dsimp only at consumed
        rw [consumed] at suppliesLeft
        exact ⟨left, rfl, suppliesLeft⟩
      · -- The bits seen so far lie behind all codewords of this length.
        rw [List.getElem?_append_right (by simpa using Nat.le_of_not_lt here),
          List.length_map, List.length_range'] at coded
        have behind := codewordsFrom_later (List.mem_of_getElem? coded)
        have passed : next + count ≤
            codeword.value / 2 ^ (codeword.length - length) :=
          (Nat.le_div_iff_mul_le (Nat.two_pow_pos _)).mpr behind
        have outside : ¬ codeword.value / 2 ^ (codeword.length - length) <
            (if count = 0 then 0 else next + count) := by
          split <;> omega
        rw [if_neg outside]
        refine inductionHypothesis suppliesFilled (length + 1) _ (index + count)
          (place - count) coded ?_
        rw [← named]
        congr 1
        omega

theorem build_eq_ok {counts : List Nat} {symbols : List UInt8} {decoder : HuffmanDecoder}
    (built : build counts symbols = .ok decoder) :
    (∀ codeword ∈ codewords counts, codeword.value < 2 ^ codeword.length) ∧
      decoder =
        { short := ((codewords counts).zip symbols).foldl enterShortCode
            (Vector.replicate 512 none)
          long := (codeRangesFrom 0 0 counts).drop 9
          symbols := (symbols.take counts.sum).toArray } := by
  unfold build at built
  dsimp only at built
  split at built
  · cases built
  · split at built
    · cases built
    · rename_i fitting
      cases built
      refine ⟨fun codeword member => Nat.lt_of_not_le fun tooLarge => fitting ?_, rfl⟩
      exact List.any_eq_true.mpr ⟨codeword, member, codeword.overflows_iff.mpr tooLarge⟩

theorem zip_pairwise (counts : List Nat) (symbols : List UInt8) :
    ((codewords counts).zip symbols).Pairwise
      fun first second => first.1.Before second.1 := by
  have sorted := List.pairwise_iff_getElem.mp (codewords_pairwise counts)
  rw [List.pairwise_iff_getElem]
  intro i j first second less
  rw [List.getElem_zip, List.getElem_zip]
  rw [List.length_zip] at first second
  exact sorted i j (by omega) (by omega) less

section Found

variable {counts : List Nat} {symbols : List UInt8} {place : Nat} {codeword : Codeword}
  {symbol : UInt8}

/-- No short codeword stands at the front of a codeword of ten bits and more. -/
private theorem not_covers_long (coded : (codewords counts)[place]? = some codeword)
    (long : 9 < codeword.length) {start : Codeword} (listed : start ∈ codewords counts) :
    ¬ start.Covers (codeword.value / 2 ^ (codeword.length - 9)) := by
  intro covered
  have inside := covered.1
  have begins : codeword.BeginsWith start := by
    refine ⟨by omega, ?_⟩
    have divided := covered.2
    have exponent : codeword.length - 9 + (9 - start.length) =
        codeword.length - start.length := by omega
    rw [Nat.div_div_eq_div_mul, ← Nat.pow_add, exponent] at divided
    exact divided
  obtain ⟨other, there⟩ := List.getElem?_of_mem listed
  have same := eq_of_beginsWith there coded begins
  rw [same, coded] at there
  cases there
  omega

/-- The ranges of ten bits and more are enough to find a codeword of so many bits. -/
private theorem decodeLong_drop (fits : codeword.value < 2 ^ codeword.length)
    (coded : (codewords counts)[place]? = some codeword)
    (named : symbols[place]? = some symbol) (long : 9 < codeword.length) {closing : Closing}
    {reader : BitReader} {rest : List Bool}
    (supplies : Supplies closing reader (codeword.bits ++ rest)) :
    ∃ left, decodeLong (symbols.take counts.sum).toArray 10
        ((codeRangesFrom 0 0 counts).drop 9) reader = .ok symbol left ∧
      Supplies closing left rest := by
  have inside : place < counts.sum := by
    obtain ⟨bound, -⟩ := List.getElem?_eq_some_iff.mp coded
    rw [codewords_length] at bound
    exact bound
  obtain ⟨shorter, later, words, ranges, upTo⟩ := codeRanges_drop 9 1 0 0 counts
  unfold codewords at coded
  rw [words] at coded
  have beyond : shorter.length ≤ place := by
    by_contra inFront
    rw [List.getElem?_append_left (Nat.lt_of_not_le inFront)] at coded
    have bound := upTo codeword (List.mem_of_getElem? coded)
    omega
  rw [List.getElem?_append_right beyond] at coded
  rw [ranges]
  apply decodeLong_codeword fits supplies 10 later _ (place - shorter.length) _ coded
  rw [Nat.zero_add, Nat.add_sub_cancel' beyond, List.getElem?_toArray,
    List.getElem?_take_of_lt inside, named]

/-- A codeword in front of any bits is decoded as its symbol. -/
theorem decode_codeword {decoder : HuffmanDecoder}
    (built : build counts symbols = .ok decoder)
    (coded : (codewords counts)[place]? = some codeword)
    (named : symbols[place]? = some symbol) {closing : Closing} {reader : BitReader}
    {rest : List Bool} (supplies : Supplies closing reader (codeword.bits ++ rest)) :
    ∃ left, decoder.decode reader = .ok symbol left ∧ Supplies closing left rest := by
  obtain ⟨fitting, rfl⟩ := build_eq_ok built
  have fits := fitting codeword (List.mem_of_getElem? coded)
  have paired : ((codewords counts).zip symbols)[place]? = some (codeword, symbol) := by
    rw [List.getElem?_zip_eq_some]
    exact ⟨coded, named⟩
  obtain ⟨filled, peeked, suppliesFilled, enough⟩ := supplies.peekBits 9
  have small : ofBinary (lookahead 9 (codeword.bits ++ rest)) < 512 := by
    have bound := ofBinary_lt (lookahead 9 (codeword.bits ++ rest))
    rw [BitReader.lookahead_length] at bound
    exact bound
  unfold decode
  rw [run_bind_of_ok peeked]
  dsimp only
  -- A codeword of at most nine bits has entered every group that begins with it. A longer one has
  -- entered none, and no shorter one stands at the front of it.
  by_cases short : codeword.length ≤ 9
  · rw [foldl_enter_found small (zip_pairwise counts symbols) (List.mem_of_getElem? paired)
      ⟨short, Codeword.ofBinary_lookahead_div fits short rest⟩]
    obtain ⟨left, skipped, suppliesLeft⟩ :=
      suppliesFilled.skipBits (Nat.le_trans short enough)
    dsimp only [Option.join]
    rw [Option.bind_some, id_eq]
    dsimp only
    rw [run_bind_of_ok skipped]
    rw [Codeword.drop_bits] at suppliesLeft
    exact ⟨left, rfl, suppliesLeft⟩
  · have long : 9 < codeword.length := Nat.lt_of_not_le short
    have front := Codeword.ofBinary_lookahead fits (Nat.le_of_lt long) rest
    rw [front] at small ⊢
    rw [foldl_enter_missing small fun entry member =>
        not_covers_long coded long (List.of_mem_zip member).1,
      Vector.getElem?_replicate, if_pos small]
    dsimp only [Option.join]
    rw [Option.bind_some, id_eq]
    dsimp only
    exact decodeLong_drop fits coded named long suppliesFilled

end Found

end HuffmanDecoder

namespace HuffmanEncoder

/-! ### Encoding -/

private theorem foldl_enter_eq_some {entries : List (Codeword × UInt8)}
    {codes : Vector (Option Codeword) 256} {symbol : UInt8} {codeword : Codeword}
    (found : (entries.foldl enterCode codes)[symbol.toNat]?.join = some codeword) :
    (∃ entry ∈ entries, entry.2 = symbol ∧
      codeword = { entry.1 with value := entry.1.value % 65536 }) ∨
      codes[symbol.toNat]?.join = some codeword := by
  induction entries generalizing codes with
  | nil => exact Or.inr found
  | cons first rest inductionHypothesis =>
      rw [List.foldl_cons] at found
      rcases inductionHypothesis found with ⟨entry, member, same⟩ | earlier
      · exact Or.inl ⟨entry, List.mem_cons_of_mem _ member, same⟩
      · unfold enterCode at earlier
        rw [Vector.getElem?_setIfInBounds] at earlier
        split at earlier
        · rename_i same
          rw [if_pos first.2.toNat_lt] at earlier
          refine Or.inl ⟨first, List.mem_cons_self, UInt8.toNat_inj.mp same, ?_⟩
          exact (Option.some.inj earlier).symm
        · exact Or.inr earlier

private theorem foldl_enter_isSome {entries : List (Codeword × UInt8)}
    (codes : Vector (Option Codeword) 256) {symbol : UInt8}
    (present : (∃ entry ∈ entries, entry.2 = symbol) ∨
      (codes[symbol.toNat]?.join).isSome) :
    ((entries.foldl enterCode codes)[symbol.toNat]?.join).isSome := by
  induction entries generalizing codes with
  | nil =>
      rcases present with ⟨entry, member, -⟩ | there
      · cases member
      · exact there
  | cons first rest inductionHypothesis =>
      rw [List.foldl_cons]
      apply inductionHypothesis
      by_cases same : first.2 = symbol
      · right
        unfold enterCode
        rw [Vector.getElem?_setIfInBounds, same, if_pos rfl, if_pos symbol.toNat_lt]
        rfl
      · rcases present with ⟨entry, member, named⟩ | there
        · rcases List.mem_cons.mp member with front | later
          · subst front
            exact absurd named same
          · exact Or.inl ⟨entry, later, named⟩
        · right
          unfold enterCode
          rw [Vector.getElem?_setIfInBounds,
            if_neg fun equal => same (UInt8.toNat_inj.mp equal)]
          exact there

variable {counts : List Nat} {symbols : List UInt8} {symbol : UInt8} {codeword : Codeword}

theorem encode_eq_ok (fits : ∀ codeword ∈ codewords counts,
      codeword.value < 2 ^ codeword.length)
    (short : counts.length ≤ 16) (encoded : (build counts symbols).encode symbol = .ok codeword) :
    ∃ place : Nat, (codewords counts)[place]? = some codeword ∧
      symbols[place]? = some symbol := by
  unfold encode build at encoded
  dsimp only at encoded
  split at encoded
  · rename_i code found
    cases encoded
    rcases foldl_enter_eq_some found with ⟨⟨listed, name⟩, member, same, value⟩ | empty
    · dsimp only at same value
      obtain ⟨place, paired⟩ := List.getElem?_of_mem member
      obtain ⟨coded, named⟩ := List.getElem?_zip_eq_some.mp paired
      have bound := (codewordsFrom_bounds (List.mem_of_getElem? coded)).2.1
      dsimp only at bound
      have small : listed.value < 65536 :=
        Nat.lt_of_lt_of_le (fits listed (List.mem_of_getElem? coded))
          (Nat.pow_le_pow_right (by decide) (by omega : listed.length ≤ 16))
      rw [Nat.mod_eq_of_lt small] at value
      refine ⟨place, ?_, ?_⟩
      · rw [coded, value]
      · rw [named, same]
    · rw [Vector.getElem?_replicate, if_pos symbol.toNat_lt] at empty
      cases empty
  · cases encoded

theorem encode_of_mem (member : symbol ∈ symbols.take counts.sum) :
    ∃ codeword, (build counts symbols).encode symbol = .ok codeword := by
  obtain ⟨place, there⟩ := List.getElem?_of_mem member
  obtain ⟨inside, -⟩ := List.getElem?_eq_some_iff.mp there
  rw [List.length_take] at inside
  rw [List.getElem?_take_of_lt (by omega)] at there
  have bound : place < (codewords counts).length := by
    rw [codewords_length]
    omega
  have paired : ((codewords counts)[place], symbol) ∈ (codewords counts).zip symbols :=
    List.mem_of_getElem?
      (List.getElem?_zip_eq_some.mpr ⟨List.getElem?_eq_getElem bound, there⟩)
  have present := foldl_enter_isSome (Vector.replicate 256 none)
    (Or.inl ⟨_, paired, rfl⟩ : (∃ entry ∈ (codewords counts).zip symbols,
      entry.2 = symbol) ∨ _)
  obtain ⟨codeword, found⟩ := Option.isSome_iff_exists.mp present
  refine ⟨codeword, ?_⟩
  unfold encode build
  dsimp only
  rw [found]

end HuffmanEncoder

theorem HuffmanTable.countList_length (table : HuffmanTable) : table.countList.length = 16 := by
  unfold countList
  rw [List.length_map, Vector.length_toList]

/-- What the encoder of a table writes for a symbol, its decoder reads as this symbol. -/
theorem HuffmanTable.decode_encode {table : HuffmanTable} {decoder : HuffmanDecoder}
    (built : HuffmanDecoder.ofTable table = .ok decoder) {symbol : UInt8}
    {codeword : Codeword}
    (encoded : (HuffmanEncoder.ofTable table).encode symbol = .ok codeword)
    {closing : Closing} {reader : BitReader} {rest : List Bool}
    (supplies : Supplies closing reader (codeword.bits ++ rest)) :
    ∃ left, decoder.decode reader = .ok symbol left ∧ Supplies closing left rest := by
  obtain ⟨place, coded, named⟩ := HuffmanEncoder.encode_eq_ok
    (HuffmanDecoder.build_eq_ok built).1 (Nat.le_of_eq table.countList_length) encoded
  exact HuffmanDecoder.decode_codeword built coded named supplies

end LosslessJpeg
