import LosslessJpeg.Proofs.Bits.Lookahead
import LosslessJpeg.Proofs.Huffman.Decoding

set_option autoImplicit false

/-!
Looking up a code in two levels finds the canonical codeword at the front of the bits ahead,
in a table as well as length by length. The second level never looks at the first codeword of
a length: bits that come to it lie behind all shorter codewords.
-/

namespace LosslessJpeg

open BitReader (peekBits skipBits)

namespace HuffmanDecoder

def codeBehind (next : Nat) (counts : List Nat) : Nat :=
  counts.foldl (fun next count => 2 * (next + count)) next

theorem codeRangesFrom_drop (passed next index : Nat) (counts : List Nat) :
    (codeRangesFrom next index counts).drop passed =
      codeRangesFrom (codeBehind next (counts.take passed)) (index + (counts.take passed).sum)
        (counts.drop passed) := by
  induction passed generalizing next index counts with
  | zero => rfl
  | succ passed inductionHypothesis =>
      cases counts with
      | nil => rfl
      | cons count longer =>
          rw [codeRangesFrom, List.drop_succ_cons, inductionHypothesis, List.take_succ_cons,
            List.drop_succ_cons, List.sum_cons, ← Nat.add_assoc]
          rfl

theorem codewordsFrom_append (length next : Nat) (shorter longer : List Nat) :
    codewordsFrom length next (shorter ++ longer) =
      codewordsFrom length next shorter ++
        codewordsFrom (length + shorter.length) (codeBehind next shorter) longer := by
  induction shorter generalizing length next with
  | nil => rfl
  | cons count shorter inductionHypothesis =>
      have total : length + (count :: shorter).length = length + 1 + shorter.length := by
        rw [List.length_cons]
        omega
      rw [List.cons_append, codewordsFrom, inductionHypothesis, codewordsFrom,
        List.append_assoc, total]
      rfl

theorem codeRangesFrom_length (next index : Nat) (counts : List Nat) :
    (codeRangesFrom next index counts).length = counts.length := by
  induction counts generalizing next index with
  | nil => rfl
  | cons count longer inductionHypothesis => exact congrArg Nat.succ (inductionHypothesis _ _)

theorem exists_covers {length passed next group : Nat} {counts : List Nat}
    (nine : length + passed = 10) (reached : next * 2 ^ passed ≤ 2 * group)
    (before : 2 * group < codeBehind next (counts.take passed)) :
    ∃ codeword ∈ codewordsFrom length next counts, codeword.Covers group := by
  induction passed generalizing length next counts with
  | zero =>
      rw [Nat.pow_zero, Nat.mul_one] at reached
      exact absurd reached (Nat.not_le_of_lt before)
  | succ passed inductionHypothesis =>
      cases counts with
      | nil =>
          have less := Nat.le_mul_of_pos_right next (Nat.two_pow_pos (passed + 1))
          change 2 * group < next at before
          omega
      | cons count longer =>
          have short : length ≤ 9 := by omega
          have width : 9 - length = passed := by omega
          rw [Nat.pow_succ, ← Nat.mul_assoc] at reached
          by_cases here : group < (next + count) * 2 ^ passed
          · refine ⟨{ length := length, value := group / 2 ^ passed }, ?_, short, ?_⟩
            · rw [codewordsFrom, List.mem_append, List.mem_map]
              refine Or.inl ⟨_, List.mem_range'_1.mpr ⟨?_, ?_⟩, rfl⟩
              · rw [Nat.le_div_iff_mul_le (Nat.two_pow_pos _)]
                omega
              · rw [Nat.div_lt_iff_lt_mul (Nat.two_pow_pos _)]
                exact here
            · rw [width]
          · obtain ⟨codeword, member, covers⟩ := @inductionHypothesis (length + 1)
              (2 * (next + count)) longer (by omega) (by rw [Nat.mul_assoc]; omega) before
            rw [codewordsFrom]
            exact ⟨codeword, List.mem_append_right _ member, covers⟩

variable {counts : List Nat} {symbols : List UInt8} {decoder : HuffmanDecoder}

theorem build_enough (built : build counts symbols = .ok decoder) :
    counts.sum ≤ symbols.length ∧ counts.sum ≤ 256 := by
  have total : counts.foldr (· + ·) 0 = counts.sum := rfl
  unfold build at built
  dsimp only at built
  rw [total] at built
  split at built
  · cases built
  · omega

/-- A group that is not found lies behind all codewords of at most nine bits. -/
theorem codeBehind_le (built : build counts symbols = .ok decoder) {group : Nat}
    (small : group < 512) (missing : decoder.short[group]?.join = none) :
    codeBehind 0 (counts.take 9) ≤ 2 * group := by
  by_contra before
  obtain ⟨codeword, member, covers⟩ := exists_covers (show 1 + 9 = 10 from rfl) (by omega)
    (Nat.lt_of_not_le before)
  obtain ⟨place, there⟩ := List.getElem?_of_mem member
  obtain ⟨inside, -⟩ := List.getElem?_eq_some_iff.mp there
  have enough := (build_enough built).1
  rw [codewordsFrom_length] at inside
  have named : symbols[place]? = some symbols[place] := List.getElem?_eq_getElem (by omega)
  have listed : (codeword, symbols[place]) ∈ (codewords counts).zip symbols :=
    List.mem_of_getElem? (List.getElem?_zip_eq_some.mpr ⟨there, named⟩)
  obtain ⟨-, rfl⟩ := build_eq_ok built
  rw [foldl_enter_found small (zip_pairwise counts symbols) listed covers] at missing
  cases missing

theorem short_length {entries : List (Codeword × UInt8)} {table : ShortCodeTable}
    (start : ∀ group < 512, ∀ code, table[group]? = some (some code) → code.length ≤ 9)
    {group : Nat} (small : group < 512) {code : ShortCode}
    (found : (entries.foldl enterShortCode table)[group]? = some (some code)) :
    code.length ≤ 9 := by
  induction entries generalizing table with
  | nil => exact start group small code found
  | cons entry rest inductionHypothesis =>
      rw [List.foldl_cons] at found
      refine inductionHypothesis ?_ found
      intro other otherSmall otherCode entered
      rw [enterShortCode_getElem? _ _ otherSmall] at entered
      split at entered
      · rename_i covers
        cases entered
        exact covers.1
      · exact start other otherSmall otherCode entered

theorem short_length_of_build (built : build counts symbols = .ok decoder) {group : Nat}
    (small : group < 512) {code : ShortCode} (found : decoder.short[group]? = some (some code)) :
    code.length ≤ 9 := by
  obtain ⟨-, rfl⟩ := build_eq_ok built
  refine short_length (fun other otherSmall otherCode empty => ?_) small found
  rw [Vector.getElem?_replicate, if_pos otherSmall] at empty
  cases empty

end HuffmanDecoder

/-! ### Counting the bits consumed -/

namespace HuffmanDecoder

def decodeLongCounted (symbols : Array UInt8) : Nat → List CodeRange → BitDecoder ShortCode
  | _, [] => throw .undecodable
  | length, range :: longer => do
      let bits ← peekBits length
      if bits < range.bound then
        skipBits length
        match symbols[range.index + (bits - range.first)]? with
        | some symbol => pure { symbol := symbol, length := length }
        | none => throw .undecodable
      else
        decodeLongCounted symbols (length + 1) longer

def decodeCounted (decoder : HuffmanDecoder) : BitDecoder ShortCode := do
  let group ← peekBits 9
  match decoder.short[group]?.join with
  | some code =>
      skipBits code.length
      pure code
  | none => decodeLongCounted decoder.symbols 10 decoder.long

private theorem run_map_bind {α β γ : Type} (change : β → γ) (step : BitDecoder α)
    (next : α → BitDecoder β) (other : α → BitDecoder γ)
    (same : ∀ value, other value = change <$> next value) :
    (step >>= other) = change <$> (step >>= next) := by
  funext reader
  change EStateM.bind step other reader = EStateM.map change (EStateM.bind step next) reader
  unfold EStateM.map EStateM.bind
  cases step reader with
  | ok value between =>
      dsimp only
      rw [same]
      rfl
  | error failure between => rfl

private theorem decodeLong_eq_counted (symbols : Array UInt8) (length : Nat)
    (ranges : List CodeRange) :
    decodeLong symbols length ranges =
      ShortCode.symbol <$> decodeLongCounted symbols length ranges := by
  induction ranges generalizing length with
  | nil => rfl
  | cons range longer inductionHypothesis =>
      refine run_map_bind _ _ _ _ fun bits => ?_
      split
      · refine run_map_bind _ _ _ _ fun _ => ?_
        cases symbols[range.index + (bits - range.first)]? with
        | some symbol => rfl
        | none => rfl
      · exact inductionHypothesis (length + 1)

theorem decode_eq_counted (decoder : HuffmanDecoder) :
    decoder.decode = ShortCode.symbol <$> decoder.decodeCounted := by
  refine run_map_bind _ _ _ _ fun group => ?_
  cases decoder.short[group]?.join with
  | some code => exact run_map_bind _ _ _ _ fun _ => rfl
  | none => exact decodeLong_eq_counted _ _ _

end HuffmanDecoder

/-! ### The codeword ahead -/

/-- The codeword stands at the front of sixteen bits if they lie in its share of the numbers. -/
theorem Codeword.bits_prefix_iff {codeword : Codeword} {wide value : Nat}
    (fits : codeword.value < 2 ^ codeword.length) (short : codeword.length ≤ wide)
    (small : value < 2 ^ wide) :
    codeword.bits <+: binary wide value ↔
      value / 2 ^ (wide - codeword.length) = codeword.value := by
  have below : value / 2 ^ (wide - codeword.length) < 2 ^ codeword.length := by
    rw [Nat.div_lt_iff_lt_mul (Nat.two_pow_pos _), ← Nat.pow_add, Nat.add_sub_cancel' short]
    exact small
  have split : binary wide value =
      binary codeword.length (value / 2 ^ (wide - codeword.length)) ++
        binary (wide - codeword.length) value := by
    rw [← binary_add, Nat.add_sub_cancel' short]
  rw [split]
  constructor
  · intro front
    have digits := List.prefix_iff_eq_take.mp front
    rw [Codeword.bits_length, List.take_left' (binary_length _ _)] at digits
    have same := congrArg ofBinary digits
    unfold Codeword.bits at same
    rw [ofBinary_binary, ofBinary_binary, Nat.mod_eq_of_lt fits, Nat.mod_eq_of_lt below] at same
    exact same.symm
  · intro same
    rw [same]
    exact List.prefix_append _ _

namespace HuffmanDecoder

/-- The bits of a code are consumed once they have been looked at, nine of them at least. -/
def consumeCode (length : Nat) : BitDecoder Unit := do
  let _ ← peekBits (max 9 length)
  skipBits length

private theorem codewordsFrom_getElem?_here {length next count value : Nat} (longer : List Nat)
    (reaches : next ≤ value) (inside : value < next + count) :
    (codewordsFrom length next (count :: longer))[value - next]? =
      some { length := length, value := value } := by
  rw [codewordsFrom, List.getElem?_append_left (by simpa using (by omega)), List.getElem?_map,
    List.getElem?_range' (by omega), Option.map_some, Nat.one_mul, Nat.add_sub_cancel' reaches]

private theorem codewordsFrom_getElem?_behind (length next count : Nat) (longer : List Nat)
    (place : Nat) :
    (codewordsFrom length next (count :: longer))[count + place]? =
      (codewordsFrom (length + 1) (2 * (next + count)) longer)[place]? := by
  rw [codewordsFrom, List.getElem?_append_right (by simp), List.length_map, List.length_range',
    Nat.add_sub_cancel_left]

private theorem codewordsFrom_missing {length next count value : Nat} {longer : List Nat}
    (outside : ¬ value / 2 ^ (16 - length) < next + count)
    (missing : ∀ codeword ∈ codewordsFrom (length + 1) (2 * (next + count)) longer,
      value / 2 ^ (16 - codeword.length) ≠ codeword.value) :
    ∀ codeword ∈ codewordsFrom length next (count :: longer),
      value / 2 ^ (16 - codeword.length) ≠ codeword.value := by
  intro codeword member
  rw [codewordsFrom, List.mem_append] at member
  rcases member with first | behind
  · obtain ⟨other, between, rfl⟩ := List.mem_map.mp first
    have upper := (List.mem_range'_1.mp between).2
    dsimp only
    omega
  · exact missing codeword behind

section OneLength

variable {symbols : Array UInt8} {length next index count value : Nat} {longer : List Nat}
variable {reader filled : BitReader}

private theorem decodeLongCounted_here (peeked : peekBits length reader = .ok value filled)
    (reaches : next ≤ value) (inside : value < next + count)
    (enough : index + count ≤ symbols.size) :
    ∃ (symbol : UInt8) (left : BitReader),
      symbols[index + (value - next)]? = some symbol ∧
      skipBits length filled = .ok () left ∧
      decodeLongCounted symbols length (codeRangesFrom next index (count :: longer)) reader =
        .ok { symbol := symbol, length := length } left := by
  have positive : count ≠ 0 := by omega
  have named : index + (value - next) < symbols.size := by omega
  refine ⟨symbols[index + (value - next)], _, Array.getElem?_eq_getElem named, rfl, ?_⟩
  rw [codeRangesFrom, decodeLongCounted, run_bind_of_ok peeked]
  dsimp only
  rw [if_neg positive, if_pos inside, Array.getElem?_eq_getElem named]
  rfl

private theorem decodeLongCounted_behind (peeked : peekBits length reader = .ok value filled)
    (outside : ¬ value < next + count) :
    decodeLongCounted symbols length (codeRangesFrom next index (count :: longer)) reader =
      decodeLongCounted symbols (length + 1)
        (codeRangesFrom (2 * (next + count)) (index + count) longer) filled := by
  have bound : ¬ value < (if count = 0 then 0 else next + count) := by
    split <;> omega
  rw [codeRangesFrom, decodeLongCounted, run_bind_of_ok peeked]
  dsimp only
  rw [if_neg bound]

end OneLength

/-- Length by length, the codeword ahead is found if there is one of so many bits or more. -/
private theorem decodeLongCounted_cases {symbols : Array UInt8} {length next index value : Nat}
    {counts : List Nat} {reader ahead : BitReader} (total : length + counts.length = 17)
    (enough : index + counts.sum ≤ symbols.size)
    (held : length ≤ reader.available + 1)
    (behind : next ≤ 2 * (value / 2 ^ (17 - length)))
    (peeked : peekBits 16 reader = .ok value ahead) :
    (∃ (place : Nat) (codeword : Codeword) (symbol : UInt8) (filled left : BitReader),
        (codewordsFrom length next counts)[place]? = some codeword ∧
        symbols[index + place]? = some symbol ∧
        value / 2 ^ (16 - codeword.length) = codeword.value ∧
        peekBits codeword.length reader = .ok codeword.value filled ∧
        skipBits codeword.length filled = .ok () left ∧
        decodeLongCounted symbols length (codeRangesFrom next index counts) reader =
          .ok { symbol := symbol, length := codeword.length } left) ∨
      (∀ codeword ∈ codewordsFrom length next counts,
        value / 2 ^ (16 - codeword.length) ≠ codeword.value) ∧
      decodeLongCounted symbols length (codeRangesFrom next index counts) reader =
        .error .undecodable ahead := by
  -- The bits ahead never lie before the first codeword of the length in turn. This is what makes
  -- the test against the bound enough.
  induction counts generalizing length next index reader with
  | nil =>
      right
      -- All sixteen bits are in the buffer, so that looking at them has changed nothing.
      rw [List.length_nil] at total
      rw [← BitReader.peekBits_held peeked (by omega)]
      exact ⟨fun codeword member => (List.not_mem_nil member).elim, rfl⟩
  | cons count longer inductionHypothesis =>
      rw [List.length_cons] at total
      rw [List.sum_cons] at enough
      obtain ⟨filled, here, later⟩ :=
        BitReader.peekBits_narrow (show length ≤ 16 by omega) peeked
      have width : 17 - length = 16 - length + 1 := by omega
      have reaches : next ≤ value / 2 ^ (16 - length) := by
        rw [width, Nat.pow_succ, ← Nat.div_div_eq_div_mul] at behind
        omega
      by_cases inside : value / 2 ^ (16 - length) < next + count
      · left
        have room : index + count ≤ symbols.size := by omega
        obtain ⟨symbol, left, named, skipped, decoded⟩ :=
          decodeLongCounted_here here reaches inside room
        exact ⟨_, _, symbol, filled, left, codewordsFrom_getElem?_here longer reaches inside,
          named, rfl, here, skipped, decoded⟩
      · have rest : 17 - (length + 1) = 16 - length := by omega
        have available := BitReader.peekBits_available here
        rw [decodeLongCounted_behind here inside]
        rcases @inductionHypothesis (length + 1) (2 * (next + count))
            (index + count) filled (by omega) (by omega) (by omega)
            (by rw [rest]; omega) later with
          ⟨place, codeword, symbol, wider, left, coded, named, value, looked, skipped, decoded⟩ |
            ⟨missing, failed⟩
        · left
          have longerWord := (codewordsFrom_bounds (List.mem_of_getElem? coded)).1
          rw [Nat.add_assoc] at named
          exact ⟨count + place, codeword, symbol, wider, left,
            (codewordsFrom_getElem?_behind ..).trans coded, named, value,
            BitReader.peekBits_trans (by omega) here looked, skipped, decoded⟩
        · right
          exact ⟨codewordsFrom_missing inside missing, failed⟩

section Built

variable {counts : List Nat} {symbols : List UInt8} {decoder : HuffmanDecoder}

private theorem codewords_split (nine : 9 ≤ counts.length) :
    codewords counts = codewordsFrom 1 0 (counts.take 9) ++
      codewordsFrom 10 (codeBehind 0 (counts.take 9)) (counts.drop 9) := by
  have total : 1 + (counts.take 9).length = 10 := by
    rw [List.length_take]
    omega
  rw [← total, ← codewordsFrom_append, List.take_append_drop]
  rfl

private theorem covers_iff {codeword : Codeword} (short : codeword.length ≤ 9) (value : Nat) :
    codeword.Covers (value / 2 ^ (16 - 9)) ↔
      value / 2 ^ (16 - codeword.length) = codeword.value := by
  have whole : value / 2 ^ (16 - 9) / 2 ^ (9 - codeword.length) =
      value / 2 ^ (16 - codeword.length) := by
    rw [Nat.div_div_eq_div_mul, ← Nat.pow_add]
    congr 2
    omega
  rw [← whole]
  exact ⟨fun covers => covers.2, fun same => ⟨short, same⟩⟩

variable {reader filled left : BitReader} {group : Nat}

private theorem decodeCounted_short (built : build counts symbols = .ok decoder)
    (small : group < 512) (peeked : peekBits 9 reader = .ok group filled)
    {place : Nat} {codeword : Codeword} {symbol : UInt8}
    (coded : (codewords counts)[place]? = some codeword)
    (named : symbols[place]? = some symbol) (covers : codeword.Covers group) :
    ∃ left, consumeCode codeword.length reader = .ok () left ∧
      decoder.decodeCounted reader =
        .ok { symbol := symbol, length := codeword.length } left := by
  obtain ⟨-, rfl⟩ := build_eq_ok built
  have listed : (codeword, symbol) ∈ (codewords counts).zip symbols :=
    List.mem_of_getElem? (List.getElem?_zip_eq_some.mpr ⟨coded, named⟩)
  have found := foldl_enter_found small (zip_pairwise counts symbols) listed covers
    (Vector.replicate 512 none)
  obtain ⟨left, skipped⟩ : ∃ left, skipBits codeword.length filled = .ok () left := ⟨_, rfl⟩
  refine ⟨left, ?_, ?_⟩
  · unfold consumeCode
    rw [Nat.max_eq_left covers.1, run_bind_of_ok peeked, skipped]
  · unfold decodeCounted
    rw [run_bind_of_ok peeked, found]
    exact run_bind_of_ok skipped

private theorem decodeCounted_long (built : build counts symbols = .ok decoder)
    (small : group < 512) (peeked : peekBits 9 reader = .ok group filled)
    (uncovered : ∀ codeword ∈ codewords counts, ¬ codeword.Covers group) :
    decoder.decodeCounted reader =
        decodeLongCounted (symbols.take counts.sum).toArray 10
          (codeRangesFrom (codeBehind 0 (counts.take 9)) (counts.take 9).sum (counts.drop 9))
          filled ∧
      codeBehind 0 (counts.take 9) ≤ 2 * group := by
  have missing : decoder.short[group]?.join = none := by
    obtain ⟨-, rfl⟩ := build_eq_ok built
    rw [foldl_enter_missing small fun entry member =>
        uncovered entry.1 (List.of_mem_zip member).1,
      Vector.getElem?_replicate, if_pos small]
    rfl
  refine ⟨?_, codeBehind_le built small missing⟩
  unfold decodeCounted
  rw [run_bind_of_ok peeked, missing]
  obtain ⟨-, rfl⟩ := build_eq_ok built
  change decodeLongCounted _ 10 ((codeRangesFrom 0 0 counts).drop 9) filled = _
  rw [codeRangesFrom_drop, Nat.zero_add]

theorem decodeCounted_cases (sixteen : counts.length = 16)
    (built : build counts symbols = .ok decoder) {ahead : BitReader} {value : Nat}
    (small : value < 2 ^ 16) (peeked : peekBits 16 reader = .ok value ahead) :
    (∃ (place : Nat) (codeword : Codeword) (symbol : UInt8) (left : BitReader),
        (codewords counts)[place]? = some codeword ∧ symbols[place]? = some symbol ∧
        value / 2 ^ (16 - codeword.length) = codeword.value ∧
        consumeCode codeword.length reader = .ok () left ∧
        decoder.decodeCounted reader =
          .ok { symbol := symbol, length := codeword.length } left) ∨
      (∀ codeword ∈ codewords counts, value / 2 ^ (16 - codeword.length) ≠ codeword.value) ∧
      decoder.decodeCounted reader = .error .undecodable ahead := by
  obtain ⟨filled, here, later⟩ := BitReader.peekBits_narrow (show 9 ≤ 16 by omega) peeked
  have inTable : value / 2 ^ (16 - 9) < 512 := by omega
  have enough := (build_enough built).1
  -- The table of nine bits answers exactly where a short codeword stands in front of the group.
  by_cases covered : ∃ codeword ∈ codewords counts, codeword.Covers (value / 2 ^ (16 - 9))
  · left
    obtain ⟨codeword, member, covers⟩ := covered
    obtain ⟨place, coded⟩ := List.getElem?_of_mem member
    obtain ⟨inside, -⟩ := List.getElem?_eq_some_iff.mp coded
    rw [codewords_length] at inside
    have named : symbols[place]? = some symbols[place] := List.getElem?_eq_getElem (by omega)
    obtain ⟨left, consumed, decoded⟩ :=
      decodeCounted_short built inTable here coded named covers
    exact ⟨place, codeword, _, left, coded, named, (covers_iff covers.1 value).mp covers,
      consumed, decoded⟩
  · have uncovered : ∀ codeword ∈ codewords counts, ¬ codeword.Covers (value / 2 ^ (16 - 9)) :=
      fun codeword member covers => covered ⟨codeword, member, covers⟩
    obtain ⟨search, behind⟩ := decodeCounted_long built inTable here uncovered
    have pieces := codewords_split (show 9 ≤ counts.length by omega)
    have halves : (counts.take 9).sum + (counts.drop 9).sum = counts.sum := by
      rw [← List.sum_append, List.take_append_drop]
    rw [search]
    rcases @decodeLongCounted_cases (symbols.take counts.sum).toArray 10 _ (counts.take 9).sum _
        (counts.drop 9) _ _ (by rw [List.length_drop, sixteen])
        (by rw [List.size_toArray, List.length_take, halves]; omega)
        (Nat.succ_le_succ (BitReader.peekBits_available here)) behind later with
      ⟨place, codeword, symbol, wider, left, coded, named, divided, looked, skipped, decoded⟩ |
        ⟨others, failed⟩
    · left
      have long := (codewordsFrom_bounds (List.mem_of_getElem? coded)).1
      refine ⟨(counts.take 9).sum + place, codeword, symbol, left, ?_, ?_, divided, ?_, decoded⟩
      · rw [pieces, List.getElem?_append_right (by rw [codewordsFrom_length]; omega),
          codewordsFrom_length, Nat.add_sub_cancel_left]
        exact coded
      · obtain ⟨inside, -⟩ := List.getElem?_eq_some_iff.mp coded
        rw [codewordsFrom_length] at inside
        rw [List.getElem?_toArray, List.getElem?_take_of_lt (by omega)] at named
        exact named
      · unfold consumeCode
        rw [Nat.max_eq_right (by omega),
          run_bind_of_ok (BitReader.peekBits_trans (by omega) here looked)]
        exact skipped
    · right
      refine ⟨fun codeword member same => ?_, failed⟩
      have listed := member
      rw [pieces, List.mem_append] at member
      rcases member with first | second
      · have short := (codewordsFrom_bounds first).2.1
        rw [List.length_take] at short
        exact uncovered codeword listed ((covers_iff (by omega) value).mpr same)
      · exact others codeword second same

theorem build_isOk_iff :
    (∃ decoder, build counts symbols = .ok decoder) ↔
      counts.sum ≤ 256 ∧ counts.sum ≤ symbols.length ∧
        kraftSum counts ≤ 2 ^ counts.length := by
  constructor
  · rintro ⟨decoder, built⟩
    obtain ⟨enough, few⟩ := build_enough built
    exact ⟨few, enough, codewords_fit_iff.mp (build_eq_ok built).1⟩
  · rintro ⟨few, enough, room⟩
    have total : counts.foldr (· + ·) 0 = counts.sum := rfl
    have fits := codewords_fit_iff.mpr room
    have within : ¬ (codewords counts).any Codeword.overflows = true := by
      intro overflowing
      obtain ⟨codeword, member, overflows⟩ := List.any_eq_true.mp overflowing
      exact absurd (fits codeword member) (Nat.not_lt_of_le (codeword.overflows_iff.mp overflows))
    unfold build
    dsimp only
    rw [total, if_neg (by omega), if_neg within]
    exact ⟨_, rfl⟩

end Built

end HuffmanDecoder

/-! ### Codes of a table -/

namespace HuffmanTable

variable {table : HuffmanTable} {decoder : HuffmanDecoder}

/-- The code of `table` at one of its places stands at the front of `bits`. -/
def Codes (table : HuffmanTable) (bits : List Bool) (place : Nat) (code : ShortCode) : Prop :=
  ∃ codeword, (codewords table.countList)[place]? = some codeword ∧
    codeword.length = code.length ∧ table.symbols[place]? = some code.symbol ∧
    codeword.bits <+: bits

private theorem codes_iff (built : HuffmanDecoder.ofTable table = .ok decoder) {value : Nat}
    (small : value < 2 ^ 16) {place : Nat} {code : ShortCode} :
    table.Codes (binary 16 value) place code ↔
      ∃ codeword, (codewords table.countList)[place]? = some codeword ∧
        codeword.length = code.length ∧ table.symbols[place]? = some code.symbol ∧
        value / 2 ^ (16 - codeword.length) = codeword.value := by
  have fits := (HuffmanDecoder.build_eq_ok built).1
  refine exists_congr fun codeword => and_congr_right fun coded => ?_
  have member := List.mem_of_getElem? coded
  have short := (codewordsFrom_bounds member).2.1
  rw [countList_length] at short
  rw [Codeword.bits_prefix_iff (fits codeword member) (by omega) small]

private theorem codes_unique (built : HuffmanDecoder.ofTable table = .ok decoder) {value : Nat}
    (small : value < 2 ^ 16) {place other : Nat} {code otherCode : ShortCode}
    (first : table.Codes (binary 16 value) place code)
    (second : table.Codes (binary 16 value) other otherCode) :
    place = other ∧ code = otherCode := by
  obtain ⟨codeword, coded, length, named, here⟩ := (codes_iff built small).mp first
  obtain ⟨otherword, otherCoded, otherLength, otherNamed, there⟩ :=
    (codes_iff built small).mp second
  have short := (codewordsFrom_bounds (List.mem_of_getElem? coded)).2.1
  have otherShort := (codewordsFrom_bounds (List.mem_of_getElem? otherCoded)).2.1
  rw [countList_length] at short otherShort
  have same : place = other := by
    rcases Nat.le_total codeword.length otherword.length with less | more
    · exact eq_of_beginsWith coded otherCoded
        (Codeword.beginsWith_of_div less (by omega) here there)
    · exact (eq_of_beginsWith otherCoded coded
        (Codeword.beginsWith_of_div more (by omega) there here)).symm
  subst same
  rw [coded] at otherCoded
  rw [named] at otherNamed
  cases otherCoded
  cases code
  cases otherCode
  cases length
  cases otherLength
  cases otherNamed
  exact ⟨rfl, rfl⟩

/-- A table has a decoder if it has at most 256 codewords, a symbol for each and a Kraft sum of
at most one. Where sixteen bits can be looked at, this decoder gives the symbol of the code that
stands in front of them and consumes the bits of this code. There is at most one such code, and
decoding fails, with nothing consumed, exactly if there is none. -/
theorem decoder_canonical (table : HuffmanTable) :
    ((∃ decoder, HuffmanDecoder.ofTable table = .ok decoder) ↔
      table.countList.sum ≤ 256 ∧ table.countList.sum ≤ table.symbols.length ∧
        kraftSum table.countList ≤ 2 ^ 16) ∧
    ∀ decoder, HuffmanDecoder.ofTable table = .ok decoder →
      decoder.decode = ShortCode.symbol <$> decoder.decodeCounted ∧
      ∀ (reader ahead : BitReader) (value : Nat), reader.Reached →
        peekBits 16 reader = .ok value ahead →
        (∀ code left, decoder.decodeCounted reader = .ok code left ↔
          (∃ place, table.Codes (binary 16 value) place code) ∧
            HuffmanDecoder.consumeCode code.length reader = .ok () left) ∧
        (∀ place other code otherCode, table.Codes (binary 16 value) place code →
          table.Codes (binary 16 value) other otherCode → place = other ∧ code = otherCode) ∧
        (∀ failure left, decoder.decode reader = .error failure left ↔
          failure = .undecodable ∧ left = ahead ∧
            ¬ ∃ place code, table.Codes (binary 16 value) place code) := by
  have buildable := @HuffmanDecoder.build_isOk_iff table.countList table.symbols
  rw [countList_length] at buildable
  refine ⟨buildable, fun decoder built => ⟨decoder.decode_eq_counted, ?_⟩⟩
  intro reader ahead value reached peeked
  have small := reached.peekBits_lt peeked
  -- Whether some codeword stands in front decides about success, failure and what is consumed.
  rcases HuffmanDecoder.decodeCounted_cases table.countList_length built small peeked with
    ⟨place, codeword, symbol, after, coded, named, here, consumed, decoded⟩ | ⟨others, failed⟩
  · have ahead : table.Codes (binary 16 value) place
        { symbol := symbol, length := codeword.length } :=
      (codes_iff built small).mpr ⟨codeword, coded, rfl, named, here⟩
    refine ⟨fun code left => ?_, fun _ _ _ _ => codes_unique built small, fun failure left => ?_⟩
    · rw [decoded]
      constructor
      · intro same
        cases same
        exact ⟨⟨place, ahead⟩, consumed⟩
      · rintro ⟨⟨other, otherAhead⟩, otherConsumed⟩
        obtain ⟨-, rfl⟩ := codes_unique built small ahead otherAhead
        rw [consumed] at otherConsumed
        cases otherConsumed
        rfl
    · rw [decoder.decode_eq_counted, run_map_eq_error, decoded]
      constructor
      · intro impossible
        cases impossible
      · rintro ⟨-, -, none⟩
        exact absurd ⟨place, _, ahead⟩ none
  · have none : ∀ place code, ¬ table.Codes (binary 16 value) place code := by
      intro place code codes
      obtain ⟨codeword, coded, -, -, here⟩ := (codes_iff built small).mp codes
      exact others codeword (List.mem_of_getElem? coded) here
    refine ⟨fun code left => ?_, fun _ _ _ _ => codes_unique built small, fun failure left => ?_⟩
    · rw [failed]
      constructor
      · intro impossible
        cases impossible
      · rintro ⟨⟨place, codes⟩, -⟩
        exact absurd codes (none place code)
    · rw [decoder.decode_eq_counted, run_map_eq_error, failed]
      constructor
      · intro same
        cases same
        exact ⟨rfl, rfl, fun ⟨place, code, codes⟩ => none place code codes⟩
      · rintro ⟨rfl, rfl, -⟩
        rfl

def staircase : HuffmanTable :=
  { tableClass := 0
    id := 0
    counts := #v[1, 1, 1, 1, 1, 1, 1, 1, 1, 1, 0, 0, 0, 0, 0, 0]
    symbols := [0, 1, 2, 3, 4, 5, 6, 7, 8, 9] }

/-- Nine ones and a zero are the longest codeword of the staircase. Of sixteen bits they leave
the last six, 010101. -/
theorem decoder_canonical_staircase :
    ∃ decoder ahead, HuffmanDecoder.ofTable staircase = .ok decoder ∧
      (BitReader.ofBytes [0xFF, 0, 0x95]).Reached ∧
      peekBits 16 (BitReader.ofBytes [0xFF, 0, 0x95]) = .ok 0xFF95 ahead ∧
      decoder.decodeCounted (BitReader.ofBytes [0xFF, 0, 0x95]) =
        .ok { symbol := 9, length := 10 }
          { rest := []
            buffer := 0b010101
            available := 6
            marker := none } := by
  obtain ⟨decoder, built⟩ := (decoder_canonical staircase).1.mpr (by decide)
  obtain ⟨-, runs⟩ := (decoder_canonical staircase).2 decoder built
  obtain ⟨decodes, -⟩ := runs _ _ 0xFF95 (.start [0xFF, 0, 0x95]) rfl
  refine ⟨decoder, _, built, .start _, rfl, (decodes _ _).mpr ⟨⟨9, ?_⟩, rfl⟩⟩
  exact ⟨{ length := 10, value := 1022 }, by decide, rfl, rfl, by decide⟩

end HuffmanTable

end LosslessJpeg
