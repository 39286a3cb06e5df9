import LosslessJpeg.Proofs.Bits.Writing
import LosslessJpeg.Proofs.Checked.Basic

set_option autoImplicit false

/-!
Writing bits with a buffer of 32 bits. While whole bytes leave the buffer, the bits that have
been written stay in it above those that are still to be written; they are cleared once per
field.
-/

namespace LosslessJpeg

namespace Checked

structure BufferedWriter where
  output : Array UInt8
  buffer : Nat
  held : Nat
  deriving DecidableEq, Repr

namespace BufferedWriter

variable {ε : Type}

def empty : BufferedWriter :=
  { output := #[]
    buffer := 0
    held := 0 }

/-- Write out whole bytes, which stay in the buffer. -/
def drain (writer : BufferedWriter) : Checked ε BufferedWriter :=
  if _whole : 8 ≤ writer.held then do
    covers writer.held 8
    let left := writer.held - 8
    shifts 32 left
    drain
      { writer with
        output := BitWriter.emitByte writer.output (UInt8.ofNat (writer.buffer >>> left))
        held := left }
  else
    pure writer
termination_by writer.held

def writeBits (writer : BufferedWriter) (value : UInt16) (count : Nat) :
    Checked ε BufferedWriter := do
  require .assertion (count ≤ 16)
  if count = 0 then
    pure writer
  else do
    shifts 32 count
    covers (2 ^ count) 1
    fits 8 (writer.held + count)
    let drained ← drain
      { writer with
        buffer := writer.buffer * 2 ^ count % 2 ^ 32 + value.toNat % 2 ^ count
        held := writer.held + count }
    shifts 32 drained.held
    covers (2 ^ drained.held) 1
    pure { drained with buffer := drained.buffer % 2 ^ drained.held }

def flush (writer : BufferedWriter) : Checked ε (List UInt8) :=
  if writer.held = 0 then
    pure writer.output.toList
  else do
    covers 8 writer.held
    let padding := 8 - writer.held
    shifts 32 padding
    covers (2 ^ padding) 1
    let last := writer.buffer * 2 ^ padding % 2 ^ 32 + (2 ^ padding - 1)
    pure (BitWriter.emitByte writer.output (UInt8.ofNat last)).toList

/-- A writer whose buffer may still hold written bits stands for one without them. -/
structure StandsFor (writer : BufferedWriter) (other : BitWriter) : Prop where
  output : writer.output = other.bytes
  buffer : writer.buffer % 2 ^ writer.held = other.pending
  held : writer.held = other.pendingCount

structure Represents (writer : BufferedWriter) (other : BitWriter) : Prop
    extends StandsFor writer other where
  cleared : writer.buffer < 2 ^ writer.held
  few : writer.held < 8

theorem represents_empty : Represents empty BitWriter.empty where
  output := rfl
  buffer := rfl
  held := rfl
  cleared := Nat.one_pos
  few := by decide

variable {writer : BufferedWriter} {other : BitWriter}

/-- Bits above the last eight of a byte are dropped with it. -/
private theorem ofNat_shifted (buffer left : Nat) :
    UInt8.ofNat (buffer >>> left) = UInt8.ofNat ((buffer % 2 ^ (left + 8)) >>> left) := by
  rw [Nat.shiftRight_eq_div_pow, Nat.shiftRight_eq_div_pow, Nat.pow_add,
    Nat.mod_mul_right_div_self, ← UInt8.toNat_inj, UInt8.toNat_ofNat', UInt8.toNat_ofNat',
    Nat.mod_mod]

private theorem StandsFor.drain (standing : StandsFor writer other) (few : writer.held ≤ 39) :
    ∃ drained, (writer.drain : Checked ε BufferedWriter) = .ok drained ∧
      StandsFor drained (BitWriter.drain (writer.held / 8) other) ∧ drained.held < 8 := by
  fun_induction BufferedWriter.drain writer generalizing other with
  | case1 writer whole inductionHypothesis =>
      obtain ⟨left, total⟩ : ∃ left, writer.held = left + 8 := ⟨writer.held - 8, by omega⟩
      have leftCount : writer.held - 8 = left := by omega
      have rounds : writer.held / 8 = left / 8 + 1 := by omega
      rw [leftCount] at inductionHypothesis ⊢
      have outputs : BitWriter.emitByte writer.output (UInt8.ofNat (writer.buffer >>> left)) =
          BitWriter.emitByte other.bytes (UInt8.ofNat (other.pending >>> left)) := by
        rw [standing.output, ofNat_shifted, ← total, standing.buffer]
      have remaining : writer.buffer % 2 ^ left = other.pending % 2 ^ left := by
        rw [← standing.buffer, Nat.mod_mod_of_dvd _ (Nat.pow_dvd_pow 2 (by omega))]
      rw [bind_of_ok (covers_of_le whole), bind_of_ok (shifts_of_lt (by omega)), rounds,
        BitWriter.drain, ← standing.held, leftCount, Nat.one_shiftLeft]
      exact inductionHypothesis ⟨outputs, remaining, rfl⟩ (by dsimp only; omega)
  | case2 writer short =>
      have rounds : writer.held / 8 = 0 := by omega
      rw [rounds, BitWriter.drain]
      exact ⟨writer, rfl, standing, by omega⟩

private theorem appended {buffer held value count : Nat} (cleared : buffer < 2 ^ held)
    (few : held < 8) (short : count ≤ 16) :
    (buffer * 2 ^ count % 2 ^ 32 + value % 2 ^ count) % 2 ^ (held + count) =
      buffer * 2 ^ count + value % 2 ^ count := by
  have field : value % 2 ^ count < 2 ^ count := Nat.mod_lt _ (Nat.two_pow_pos count)
  have scaled : (buffer + 1) * 2 ^ count ≤ 2 ^ (held + count) := by
    rw [Nat.pow_add]
    exact Nat.mul_le_mul_right _ cleared
  have room : 2 ^ (held + count) ≤ 2 ^ 32 := Nat.pow_le_pow_right (by decide) (by omega)
  rw [Nat.add_mul, Nat.one_mul] at scaled
  rw [Nat.mod_eq_of_lt (by omega : buffer * 2 ^ count < 2 ^ 32), Nat.mod_eq_of_lt (by omega)]

private theorem writeBits_zero (few : other.pendingCount < 8) (value : Nat) :
    other.writeBits value 0 = other := by
  unfold BitWriter.writeBits
  dsimp only
  rw [Nat.add_zero, Nat.div_eq_of_lt few, BitWriter.drain, Nat.shiftLeft_zero,
    Nat.shiftLeft_zero, Nat.mod_one, Nat.add_zero]

theorem Represents.writeBits (represents : Represents writer other) (value : UInt16) {count : Nat}
    (short : count ≤ 16) :
    ∃ written, (writer.writeBits value count : Checked ε BufferedWriter) = .ok written ∧
      Represents written (other.writeBits value.toNat count) := by
  have few := represents.few
  rw [BufferedWriter.writeBits, bind_of_ok (require_of_holds short)]
  by_cases nothing : count = 0
  · subst nothing
    rw [if_pos rfl, writeBits_zero (represents.held ▸ few)]
    exact ⟨writer, rfl, represents⟩
  · rw [if_neg nothing, bind_of_ok (shifts_of_lt (by omega)),
      bind_of_ok (covers_of_le Nat.one_le_two_pow), bind_of_ok (fits_of_lt (by omega))]
    have standing : StandsFor
        { writer with
          buffer := writer.buffer * 2 ^ count % 2 ^ 32 + value.toNat % 2 ^ count
          held := writer.held + count }
        { other with
          pending := other.pending * 2 ^ count + value.toNat % 2 ^ count
          pendingCount := writer.held + count } := by
      refine ⟨represents.output, ?_, rfl⟩
      dsimp only
      rw [appended represents.cleared few short, ← represents.buffer,
        Nat.mod_eq_of_lt represents.cleared]
    obtain ⟨drained, done, standingAfter, fewLeft⟩ := standing.drain (by dsimp only; omega)
    rw [BitWriter.writeBits, Nat.shiftLeft_eq, Nat.one_shiftLeft, ← represents.held,
      bind_of_ok done, bind_of_ok (shifts_of_lt (by omega)),
      bind_of_ok (covers_of_le Nat.one_le_two_pow)]
    refine ⟨_, rfl, ⟨standingAfter.output, ?_, standingAfter.held⟩, ?_, fewLeft⟩
    · dsimp only
      rw [Nat.mod_mod, standingAfter.buffer]
    · exact Nat.mod_lt _ (Nat.two_pow_pos _)

theorem Represents.flush (represents : Represents writer other) :
    (writer.flush : Checked ε (List UInt8)) = .ok other.flush := by
  have few := represents.few
  have same : writer.buffer = other.pending := by
    rw [← represents.buffer, Nat.mod_eq_of_lt represents.cleared]
  rw [BufferedWriter.flush, BitWriter.flush, ← represents.held, represents.output]
  by_cases aligned : writer.held = 0
  · rw [if_pos aligned, if_pos aligned]
    rfl
  · have room : writer.buffer * 2 ^ (8 - writer.held) < 2 ^ 32 := by
      have scaled := Nat.mul_lt_mul_of_pos_right represents.cleared
        (Nat.two_pow_pos (8 - writer.held))
      rw [← Nat.pow_add, Nat.add_sub_cancel' (Nat.le_of_lt few)] at scaled
      exact Nat.lt_trans scaled (by decide)
    rw [if_neg aligned, if_neg aligned, bind_of_ok (covers_of_le (Nat.le_of_lt few)),
      bind_of_ok (shifts_of_lt (by omega)), bind_of_ok (covers_of_le Nat.one_le_two_pow)]
    dsimp only
    rw [Nat.mod_eq_of_lt room, same, Nat.shiftLeft_eq, Nat.one_shiftLeft]
    rfl

end BufferedWriter

end Checked

end LosslessJpeg
