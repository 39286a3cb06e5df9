import LosslessJpeg.Bits.Reader
import LosslessJpeg.Proofs.Bits.Writing
import LosslessJpeg.Proofs.Sequencing

set_option autoImplicit false

/-!
What a bit reader supplies: the bits in its buffer, those of the data up to the next
marker, and zeros from there on. Looking ahead leaves this bit string as it is, and
reading takes bits off its front.
-/

namespace LosslessJpeg

structure Closing where
  marker : UInt8
  after : List UInt8
  deriving DecidableEq, Repr

/-- The bytes of a file that hold `data` up to a closing marker. Fill bytes may come before
the byte that tells a stuffed 0xFF from a marker. -/
inductive Carries (closing : Closing) : List UInt8 → List UInt8 → Prop
  | plain {byte : UInt8} {rest data : List UInt8} (ordinary : byte ≠ 0xFF)
      (following : Carries closing rest data) :
      Carries closing (byte :: rest) (byte :: data)
  | stuffed (fill : Nat) {rest data : List UInt8} (following : Carries closing rest data) :
      Carries closing (0xFF :: (List.replicate fill 0xFF ++ 0 :: rest)) (0xFF :: data)
  | closed (fill : Nat) (notStuffing : closing.marker ≠ 0) (notFill : closing.marker ≠ 0xFF) :
      Carries closing
        (0xFF :: (List.replicate fill 0xFF ++ closing.marker :: closing.after)) []

theorem carries_stuffed {closing : Closing} (notStuffing : closing.marker ≠ 0)
    (notFill : closing.marker ≠ 0xFF) (data : List UInt8) :
    Carries closing (stuffed data ++ 0xFF :: closing.marker :: closing.after) data := by
  induction data with
  | nil => exact Carries.closed 0 notStuffing notFill
  | cons byte rest inductionHypothesis =>
      rw [stuffed_cons]
      by_cases full : byte = 0xFF
      · subst full
        exact Carries.stuffed 0 inductionHypothesis
      · rw [if_neg full]
        exact Carries.plain full inductionHypothesis

namespace BitReader

/-- Where the bits behind the buffer come from: from `data`, or from nowhere after the
closing marker has been met. -/
inductive Behind (closing : Closing) (reader : BitReader) : List UInt8 → Prop
  | ahead {data : List UInt8} (unmet : reader.marker = none)
      (carried : Carries closing reader.rest data) : Behind closing reader data
  | met (marker : reader.marker = some closing.marker) (rest : reader.rest = closing.after) :
      Behind closing reader []

/-- The reader supplies `bits`, and zeros after the closing marker has been met. -/
structure Supplies (closing : Closing) (reader : BitReader) (bits : List Bool) : Prop where
  buffer_lt : reader.buffer < 2 ^ reader.available
  supplied : ∃ data zeros, Behind closing reader data ∧
    binary reader.available reader.buffer ++ byteBits data =
      bits ++ List.replicate zeros false ∧
    (reader.marker = none → zeros = 0)

variable {closing : Closing} {reader : BitReader} {bits : List Bool}

theorem supplies_ofBytes {bytes data : List UInt8} (carried : Carries closing bytes data) :
    Supplies closing (ofBytes bytes) (byteBits data) where
  buffer_lt := Nat.one_pos
  supplied := by
    refine ⟨data, 0, .ahead rfl carried, ?_, fun _ => rfl⟩
    rw [List.replicate_zero, List.append_nil]
    rfl

private theorem dropWhile_fill (fill : Nat) {next : UInt8} (different : next ≠ 0xFF)
    (rest : List UInt8) :
    (List.replicate fill 0xFF ++ next :: rest).dropWhile (· = 0xFF) = next :: rest := by
  rw [List.dropWhile_append_of_pos]
  · rw [List.dropWhile_cons_of_neg]
    simpa using different
  · intro byte member
    rw [List.eq_of_mem_replicate member]
    rfl

private theorem push_buffer_lt (reader : BitReader) (byte : UInt8)
    (small : reader.buffer < 2 ^ reader.available) :
    (reader.push byte).buffer < 2 ^ (reader.push byte).available := by
  have byteBound := byte.toNat_lt
  unfold push
  dsimp only
  rw [Nat.pow_add]
  omega

private theorem push_bits (byte : UInt8) :
    binary (reader.push byte).available (reader.push byte).buffer =
      binary reader.available reader.buffer ++ binary 8 byte.toNat :=
  (binary_append_binary _ 8 _ _ byte.toNat_lt).symm

private theorem supplies_push_data {byte : UInt8} {rest data : List UInt8} {zeros : Nat}
    (small : reader.buffer < 2 ^ reader.available) (unmet : reader.marker = none)
    (carried : Carries closing rest data)
    (same : binary reader.available reader.buffer ++ byteBits (byte :: data) =
      bits ++ List.replicate zeros false)
    (none : reader.marker = none → zeros = 0) :
    Supplies closing ({ reader with rest := rest }.push byte) bits where
  buffer_lt := push_buffer_lt { reader with rest := rest } byte small
  supplied := by
    refine ⟨data, zeros, .ahead unmet carried, ?_, none⟩
    rw [push_bits, ← same, byteBits_cons, List.append_assoc]

private theorem supplies_push_zero {start : BitReader} {zeros : Nat}
    (small : start.buffer < 2 ^ start.available) (marker : start.marker = some closing.marker)
    (rest : start.rest = closing.after)
    (same : binary start.available start.buffer = bits ++ List.replicate zeros false) :
    Supplies closing (start.push 0) bits where
  buffer_lt := push_buffer_lt start 0 small
  supplied := by
    refine ⟨[], zeros + 8, .met marker rest, ?_, ?_⟩
    · rw [push_bits, same, byteBits_nil, List.append_nil, List.append_assoc,
        ← List.replicate_append_replicate]
      rfl
    · intro unmet
      rw [show (start.push 0).marker = start.marker from rfl, marker] at unmet
      cases unmet

theorem Supplies.fillByte (supplies : Supplies closing reader bits) :
    ∃ filled, fillByte reader = .ok () filled ∧ Supplies closing filled bits ∧
      filled.available = reader.available + 8 := by
  obtain ⟨data, zeros, behind, same, unpadded⟩ := supplies.supplied
  have small := supplies.buffer_lt
  -- Behind a marker that has been met there are zeros. Before it the next byte is one of data, a
  -- stuffed pair, or the marker.
  cases behind with
  | met marker rest =>
      refine ⟨reader.push 0, ?_, ?_, rfl⟩
      · rw [BitReader.fillByte, marker]
      · rw [byteBits_nil, List.append_nil] at same
        exact supplies_push_zero small marker rest same
  | ahead unmet carried =>
      unfold BitReader.fillByte
      rw [unmet]
      generalize bytes : reader.rest = rest at carried
      cases carried with
      | @plain byte rest data ordinary following =>
          refine ⟨{ reader with rest := rest }.push byte, ?_, ?_, rfl⟩
          · dsimp only
            rw [if_neg ordinary, ← unmet]
          · exact supplies_push_data small unmet following same unpadded
      | @stuffed fill rest data following =>
          refine ⟨{ reader with rest := rest }.push 0xFF, ?_, ?_, rfl⟩
          · dsimp only
            rw [if_pos rfl, dropWhile_fill fill (by decide), ← unmet]
            rfl
          · exact supplies_push_data small unmet following same unpadded
      | closed fill notStuffing notFill =>
          refine ⟨{ reader with
            rest := closing.after
            marker := some closing.marker }.push 0, ?_, ?_, rfl⟩
          · dsimp only
            rw [if_pos rfl, dropWhile_fill fill notFill]
            dsimp only
            rw [if_neg notStuffing]
          · rw [byteBits_nil, List.append_nil] at same
            exact supplies_push_zero small rfl rfl same

theorem Supplies.fillBytes (count : Nat) (supplies : Supplies closing reader bits) :
    ∃ filled, fillBytes count reader = .ok () filled ∧ Supplies closing filled bits ∧
      filled.available = reader.available + 8 * count := by
  induction count generalizing reader with
  | zero => exact ⟨reader, rfl, supplies, rfl⟩
  | succ count inductionHypothesis =>
      obtain ⟨first, filledFirst, suppliesFirst, moreFirst⟩ := supplies.fillByte
      obtain ⟨filled, filledRest, suppliesRest, moreRest⟩ := inductionHypothesis suppliesFirst
      refine ⟨filled, ?_, suppliesRest, by omega⟩
      rw [BitReader.fillBytes, run_bind_of_ok filledFirst, filledRest]

/-- The first `count` of the bits, with zeros if there are fewer. -/
def lookahead (count : Nat) (bits : List Bool) : List Bool :=
  (bits ++ List.replicate count false).take count

@[simp]
theorem lookahead_length (count : Nat) (bits : List Bool) :
    (lookahead count bits).length = count := by
  unfold lookahead
  rw [List.length_take, List.length_append, List.length_replicate]
  omega

theorem lookahead_append (front back : List Bool) :
    lookahead front.length (front ++ back) = front := by
  unfold lookahead
  rw [List.append_assoc, List.take_left']
  rfl

theorem lookahead_append_of_le {count : Nat} (front back : List Bool)
    (inside : front.length ≤ count) :
    lookahead count (front ++ back) = front ++ lookahead (count - front.length) back := by
  unfold lookahead
  rw [List.append_assoc, List.take_append, List.take_of_length_le inside]
  congr 1
  rw [List.take_append, List.take_append, List.take_replicate, List.take_replicate]
  congr 2
  omega

private theorem take_padded {count zeros : Nat} (bits : List Bool)
    (enough : count ≤ bits.length + zeros) :
    (bits ++ List.replicate zeros false).take count = lookahead count bits := by
  unfold lookahead
  rw [List.take_append, List.take_append, List.take_replicate, List.take_replicate]
  congr 2
  omega

theorem Supplies.peekBits (count : Nat) (supplies : Supplies closing reader bits) :
    ∃ filled, peekBits count reader = .ok (ofBinary (lookahead count bits)) filled ∧
      Supplies closing filled bits ∧ count ≤ filled.available := by
  obtain ⟨filled, filledUp, suppliesFilled, available⟩ :=
    supplies.fillBytes ((count - reader.available + 7) / 8)
  have enough : count ≤ filled.available := by omega
  refine ⟨filled, ?_, suppliesFilled, enough⟩
  obtain ⟨data, zeros, -, same, -⟩ := suppliesFilled.supplied
  have total := congrArg List.length same
  rw [List.length_append, List.length_append, List.length_replicate, binary_length] at total
  have front : (binary filled.available filled.buffer).take count = lookahead count bits := by
    by_cases exhausted : bits.length + zeros < count
    · omega
    · rw [← take_padded bits (by omega : count ≤ bits.length + zeros), ← same,
        List.take_append_of_le_length (by rw [binary_length]; exact enough)]
  have value : filled.buffer / 2 ^ (filled.available - count) =
      ofBinary (lookahead count bits) := by
    rw [← front, ofBinary_take, ofBinary_binary, binary_length,
      Nat.mod_eq_of_lt suppliesFilled.buffer_lt]
  unfold BitReader.peekBits
  rw [run_bind_of_ok (run_get reader), run_bind_of_ok filledUp,
    run_bind_of_ok (run_get filled), Nat.shiftRight_eq_div_pow, value]
  rfl

theorem Supplies.skipBits {count : Nat} (supplies : Supplies closing reader bits)
    (enough : count ≤ reader.available) :
    ∃ left, skipBits count reader = .ok () left ∧
      Supplies closing left (bits.drop count) := by
  obtain ⟨data, zeros, behind, same, unpadded⟩ := supplies.supplied
  obtain ⟨remaining, total⟩ : ∃ remaining, reader.available = count + remaining :=
    ⟨reader.available - count, by omega⟩
  have left : reader.available - count = remaining := by omega
  have skipped : BitReader.skipBits count reader = .ok ()
      { reader with
        buffer := reader.buffer % 2 ^ (reader.available - count)
        available := reader.available - count } := by
    rw [← Nat.one_shiftLeft]
    rfl
  refine ⟨_, skipped, ?_, ?_⟩
  · exact Nat.mod_lt _ (Nat.two_pow_pos _)
  · refine ⟨data, zeros - (count - bits.length), ?_, ?_, ?_⟩
    · cases behind with
      | ahead unmet carried => exact .ahead unmet carried
      | met marker rest => exact .met marker rest
    · have dropped := congrArg (List.drop count) same
      rw [total, binary_add, List.append_assoc,
        List.drop_left' (binary_length count _), List.drop_append,
        List.drop_replicate] at dropped
      dsimp only
      rw [left, binary_mod]
      exact dropped
    · intro unmet
      rw [unpadded unmet, Nat.zero_sub]

theorem Supplies.readBits (count : Nat) (supplies : Supplies closing reader bits) :
    ∃ left, readBits count reader = .ok (ofBinary (lookahead count bits)) left ∧
      Supplies closing left (bits.drop count) := by
  obtain ⟨filled, peeked, suppliesFilled, enough⟩ := supplies.peekBits count
  obtain ⟨left, skipped, suppliesLeft⟩ := suppliesFilled.skipBits enough
  refine ⟨left, ?_, suppliesLeft⟩
  unfold BitReader.readBits
  rw [run_bind_of_ok peeked, run_bind_of_ok skipped]
  rfl

theorem Supplies.readField {value count : Nat} (small : value < 2 ^ count)
    (supplies : Supplies closing reader (binary count value ++ bits)) :
    ∃ left, BitReader.readBits count reader = .ok value left ∧ Supplies closing left bits := by
  obtain ⟨left, read, suppliesLeft⟩ := supplies.readBits count
  have looked : lookahead count (binary count value ++ bits) = binary count value := by
    have exact := lookahead_append (binary count value) bits
    rw [binary_length] at exact
    exact exact
  rw [List.drop_left' (binary_length count value)] at suppliesLeft
  rw [looked, ofBinary_binary, Nat.mod_eq_of_lt small] at read
  exact ⟨left, read, suppliesLeft⟩

theorem Supplies.readBit {set : Bool} (supplies : Supplies closing reader (set :: bits)) :
    ∃ left, BitReader.readBit reader = .ok set left ∧ Supplies closing left bits := by
  have digit : binary 1 set.toNat = [set] := by
    cases set <;> rfl
  have small : set.toNat < 2 ^ 1 := Bool.toNat_lt set
  rw [← List.singleton_append, ← digit] at supplies
  obtain ⟨left, read, suppliesLeft⟩ := supplies.readField small
  refine ⟨left, ?_, suppliesLeft⟩
  unfold BitReader.readBit
  rw [run_bind_of_ok read]
  cases set <;> rfl

private theorem restartFrom_fill (fill : Nat) {marker : UInt8} {number : Nat}
    (numbered : Marker.restartNumber? marker = some number) (after : List UInt8) :
    restartFrom (0xFF :: (List.replicate fill 0xFF ++ marker :: after)) =
      (some number, after) := by
  have notFill : marker ≠ 0xFF := by
    rintro rfl
    cases numbered
  induction fill with
  | zero =>
      rw [List.replicate_zero, List.nil_append, restartFrom, if_pos rfl, if_neg notFill,
        numbered]
  | succ fill inductionHypothesis =>
      rw [List.replicate_succ, List.cons_append, restartFrom, if_pos rfl, if_pos rfl,
        inductionHypothesis]

/-- When only padding is left, a reader takes the restart marker that closes the data, whether
it has met it or not, and starts afresh behind it. -/
theorem Supplies.takeRestart {number : Nat} (supplies : Supplies closing reader bits)
    (few : bits.length < 8) (numbered : Marker.restartNumber? closing.marker = some number) :
    takeRestart reader = .ok (some number) (ofBytes closing.after) := by
  obtain ⟨data, zeros, behind, same, unpadded⟩ := supplies.supplied
  unfold BitReader.takeRestart
  cases behind with
  | met marker rest =>
      dsimp only
      rw [marker]
      dsimp only
      rw [numbered, rest]
      rfl
  | ahead unmet carried =>
      have total := congrArg List.length same
      rw [unpadded unmet] at total
      simp only [List.length_append, binary_length, List.length_replicate, byteBits_length,
        Nat.add_zero] at total
      obtain rfl : data = [] := List.eq_nil_of_length_eq_zero (by omega)
      dsimp only
      rw [unmet]
      dsimp only
      generalize bytes : reader.rest = rest at carried
      cases carried with
      | closed fill notStuffing notFill =>
          rw [restartFrom_fill fill numbered]
          dsimp only
          unfold ofBytes
          rfl

end BitReader

end LosslessJpeg
