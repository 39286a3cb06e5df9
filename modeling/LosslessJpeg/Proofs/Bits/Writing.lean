import LosslessJpeg.Bits.Writer
import LosslessJpeg.Proofs.Bits.BitString
import LosslessJpeg.Proofs.Sequencing

set_option autoImplicit false

/-!
What a bit writer holds: the concatenation of all fields written so far. Flushing gives
the bytes of this bit string, filled up with ones and stuffed.
-/

namespace LosslessJpeg

def stuffed (data : List UInt8) : List UInt8 :=
  data.flatMap fun byte => if byte = 0xFF then [byte, 0] else [byte]

@[simp]
theorem stuffed_nil : stuffed [] = [] :=
  rfl

theorem stuffed_cons (byte : UInt8) (data : List UInt8) :
    stuffed (byte :: data) =
      (if byte = 0xFF then [byte, 0] else [byte]) ++ stuffed data := by
  rw [stuffed, List.flatMap_cons]
  rfl

theorem stuffed_append (front back : List UInt8) :
    stuffed (front ++ back) = stuffed front ++ stuffed back := by
  rw [stuffed, List.flatMap_append]
  rfl

namespace BitWriter

/-- The writer has been given the bits `bits`, of which whole bytes have left it. -/
structure Holds (writer : BitWriter) (bits : List Bool) : Prop where
  pending_lt : writer.pending < 2 ^ writer.pendingCount
  pendingCount_lt : writer.pendingCount < 8
  written : ∃ data, writer.bytes.toList = stuffed data ∧
    bits = byteBits data ++ binary writer.pendingCount writer.pending

theorem holds_empty : empty.Holds [] where
  pending_lt := Nat.one_pos
  pendingCount_lt := by decide
  written := ⟨[], rfl, rfl⟩

theorem emitByte_toList (bytes : Array UInt8) (byte : UInt8) (data : List UInt8)
    (written : bytes.toList = stuffed data) :
    (emitByte bytes byte).toList = stuffed (data ++ [byte]) := by
  unfold emitByte
  rw [stuffed_append, ← written, stuffed_cons]
  split
  · simp
  · simp

private theorem byte_of_lt {value : Nat} (small : value < 256) :
    (UInt8.ofNat value).toNat = value := by
  rw [UInt8.toNat_ofNat']
  exact Nat.mod_eq_of_lt small

private theorem drain_holds (count : Nat) (writer : BitWriter) (data : List UInt8)
    (enough : writer.pendingCount / 8 = count)
    (small : writer.pending < 2 ^ writer.pendingCount)
    (written : writer.bytes.toList = stuffed data) :
    (drain count writer).Holds
      (byteBits data ++ binary writer.pendingCount writer.pending) := by
  -- Bytes leave from the high end: what has been written and what is pending stay the same bits.
  induction count generalizing writer data with
  | zero =>
      rw [drain]
      exact ⟨small, by omega, data, written, rfl⟩
  | succ count inductionHypothesis =>
      obtain ⟨left, total⟩ : ∃ left, writer.pendingCount = 8 + left :=
        ⟨writer.pendingCount - 8, by omega⟩
      have leftCount : writer.pendingCount - 8 = left := by omega
      have positive : 0 < 2 ^ left := Nat.two_pow_pos left
      have byteBound : writer.pending / 2 ^ left < 256 := by
        rw [total, Nat.pow_add] at small
        exact (Nat.div_lt_iff_lt_mul positive).mpr small
      simp only [drain, Nat.shiftRight_eq_div_pow, Nat.one_shiftLeft]
      have drained := inductionHypothesis
        { bytes := emitByte writer.bytes
            (UInt8.ofNat (writer.pending / 2 ^ (writer.pendingCount - 8)))
          pending := writer.pending % 2 ^ (writer.pendingCount - 8)
          pendingCount := writer.pendingCount - 8 }
        (data ++ [UInt8.ofNat (writer.pending / 2 ^ (writer.pendingCount - 8))])
        (by dsimp only; omega)
        (Nat.mod_lt _ (Nat.two_pow_pos _))
        (emitByte_toList _ _ _ written)
      have sameBits : byteBits data ++ binary writer.pendingCount writer.pending =
          byteBits (data ++ [UInt8.ofNat (writer.pending / 2 ^ left)]) ++
            binary left (writer.pending % 2 ^ left) := by
        rw [byteBits_append, byteBits_cons, byteBits_nil, byte_of_lt byteBound, total,
          binary_add, binary_mod, List.append_nil, List.append_assoc]
      rw [sameBits]
      rw [leftCount] at drained ⊢
      exact drained

theorem Holds.writeBits {writer : BitWriter} {bits : List Bool} (holds : writer.Holds bits)
    (value count : Nat) : (writer.writeBits value count).Holds (bits ++ binary count value) := by
  obtain ⟨data, written, same⟩ := holds.written
  have field : value % 2 ^ count < 2 ^ count := Nat.mod_lt _ (Nat.two_pow_pos count)
  have small : writer.pending * 2 ^ count + value % 2 ^ count <
      2 ^ (writer.pendingCount + count) := by
    have scaled : (writer.pending + 1) * 2 ^ count ≤
        2 ^ writer.pendingCount * 2 ^ count :=
      Nat.mul_le_mul_right _ holds.pending_lt
    rw [Nat.add_mul, Nat.one_mul] at scaled
    rw [Nat.pow_add]
    omega
  have joined := drain_holds ((writer.pendingCount + count) / 8)
    { writer with
      pending := writer.pending * 2 ^ count + value % 2 ^ count
      pendingCount := writer.pendingCount + count }
    data rfl small written
  simp only [BitWriter.writeBits, Nat.shiftLeft_eq, Nat.one_mul]
  rw [same, List.append_assoc, ← binary_mod count value,
    binary_append_binary _ _ _ _ field]
  exact joined

/-- The flushed bytes hold the bits written, filled up to whole bytes with ones. -/
theorem Holds.flush {writer : BitWriter} {bits : List Bool} (holds : writer.Holds bits) :
    ∃ data padding, writer.flush = stuffed data ∧ padding < 8 ∧
      byteBits data = bits ++ List.replicate padding true := by
  obtain ⟨data, written, same⟩ := holds.written
  have few := holds.pendingCount_lt
  unfold BitWriter.flush
  by_cases aligned : writer.pendingCount = 0
  · rw [if_pos aligned]
    refine ⟨data, 0, written, by decide, ?_⟩
    rw [same, aligned, binary, List.append_nil, List.replicate_zero, List.append_nil]
  · rw [if_neg aligned]
    obtain ⟨padding, filled⟩ : ∃ padding, writer.pendingCount + padding = 8 :=
      ⟨8 - writer.pendingCount, by omega⟩
    have left : 8 - writer.pendingCount = padding := by omega
    have ones : 2 ^ padding - 1 < 2 ^ padding :=
      Nat.sub_lt (Nat.two_pow_pos padding) Nat.one_pos
    have last : writer.pending * 2 ^ padding + (2 ^ padding - 1) < 256 := by
      have scaled : (writer.pending + 1) * 2 ^ padding ≤
          2 ^ writer.pendingCount * 2 ^ padding :=
        Nat.mul_le_mul_right _ holds.pending_lt
      rw [← Nat.pow_add, filled, Nat.add_mul, Nat.one_mul] at scaled
      omega
    simp only [left, Nat.shiftLeft_eq, Nat.one_mul]
    refine ⟨_, padding, emitByte_toList _ _ _ written, by omega, ?_⟩
    rw [byteBits_append, byteBits_cons, byteBits_nil, byte_of_lt last, List.append_nil,
      same, List.append_assoc, ← binary_ones padding, binary_append_binary _ _ _ _ ones,
      filled]

theorem foldlM_holds {α ε : Type} {write : BitWriter → α → Except ε BitWriter}
    {bitsOf : α → List Bool} {items : List α} {writer : BitWriter} {before : List Bool}
    (holds : writer.Holds before)
    (each : ∀ item ∈ items, ∀ (writer : BitWriter) (before : List Bool), writer.Holds before →
      ∃ written, write writer item = .ok written ∧ written.Holds (before ++ bitsOf item)) :
    ∃ written, items.foldlM write writer = .ok written ∧
      written.Holds (before ++ items.flatMap bitsOf) := by
  induction items generalizing writer before with
  | nil =>
      refine ⟨writer, rfl, ?_⟩
      rw [List.flatMap_nil, List.append_nil]
      exact holds
  | cons item rest inductionHypothesis =>
      obtain ⟨first, writtenFirst, holdsFirst⟩ := each item List.mem_cons_self writer before holds
      obtain ⟨written, writtenRest, holdsRest⟩ := inductionHypothesis holdsFirst
        fun other member => each other (List.mem_cons_of_mem _ member)
      refine ⟨written, ?_, ?_⟩
      · rw [List.foldlM_cons, bind_of_ok writtenFirst, writtenRest]
      · rw [List.flatMap_cons, ← List.append_assoc]
        exact holdsRest

end BitWriter

end LosslessJpeg
