import LosslessJpeg.Bits.Reader
import LosslessJpeg.Proofs.Bits.Confinement
import LosslessJpeg.Proofs.Sequencing
import Mathlib.Algebra.Ring.Nat

set_option autoImplicit false

/-!
Looking ahead in a bit reader, whatever data it has in front of it. Looking farther keeps the
bits seen so far, and looking ahead in two steps is looking ahead in one.
-/

namespace LosslessJpeg

namespace BitReader

/-- The bits at the front of those that have been taken in. -/
def front (reader : BitReader) (count : Nat) : Nat :=
  reader.buffer >>> (reader.available - count)

variable {reader filled : BitReader}

private theorem fillByte_pushes (done : fillByte reader = .ok () filled) :
    ∃ byte : UInt8, filled.buffer = reader.buffer * 256 + byte.toNat ∧
      filled.available = reader.available + 8 := by
  unfold fillByte at done
  split at done
  · cases done
    exact ⟨_, rfl, rfl⟩
  · split at done
    · cases done
    · split at done
      · split at done
        · cases done
        · split at done
          · cases done
            exact ⟨_, rfl, rfl⟩
          · cases done
            exact ⟨_, rfl, rfl⟩
      · cases done
        exact ⟨_, rfl, rfl⟩

private theorem fillBytes_front {bytes count : Nat} (done : fillBytes bytes reader = .ok () filled)
    (enough : count ≤ reader.available) :
    filled.front count = reader.front count ∧ reader.available ≤ filled.available := by
  induction bytes generalizing reader with
  | zero =>
      cases done
      exact ⟨rfl, Nat.le_refl _⟩
  | succ bytes inductionHypothesis =>
      obtain ⟨_, between, first, later⟩ := run_bind_eq_ok done
      obtain ⟨byte, buffer, available⟩ := fillByte_pushes first
      obtain ⟨same, more⟩ := inductionHypothesis later (by omega)
      refine ⟨same.trans ?_, by omega⟩
      have eight := byte.toNat_lt
      have total : between.available - count = 8 + (reader.available - count) := by omega
      unfold front
      rw [total, buffer, Nat.shiftRight_add, Nat.shiftRight_eq_div_pow _ 8]
      congr 1
      omega

theorem peekBits_front {count value : Nat} (peeked : peekBits count reader = .ok value filled) :
    value = filled.front count ∧ ∀ held ≤ reader.available,
      filled.front held = reader.front held ∧ reader.available ≤ filled.available := by
  unfold peekBits at peeked
  change (fillBytes _ >>= _) reader = _ at peeked
  obtain ⟨_, between, done, last⟩ := run_bind_eq_ok peeked
  cases last
  exact ⟨rfl, fun held enough => fillBytes_front done enough⟩

theorem front_pred {count : Nat} (enough : count + 1 ≤ reader.available) :
    reader.front count = reader.front (count + 1) / 2 := by
  have total : reader.available - count = reader.available - (count + 1) + 1 := by omega
  unfold front
  rw [total, Nat.shiftRight_succ]

theorem front_div {count wide : Nat} (inside : count ≤ wide) (enough : wide ≤ reader.available) :
    reader.front wide / 2 ^ (wide - count) = reader.front count := by
  have total : reader.available - count = reader.available - wide + (wide - count) := by omega
  unfold front
  rw [total, Nat.shiftRight_add, Nat.shiftRight_eq_div_pow _ (wide - count)]

theorem fillBytes_add (first second : Nat) :
    fillBytes (first + second) = fillBytes first >>= fun _ => fillBytes second := by
  induction first with
  | zero => rw [Nat.zero_add]; rfl
  | succ first inductionHypothesis =>
      rw [Nat.succ_add]
      funext reader
      change (fillByte >>= fun _ => fillBytes (first + second)) reader =
        ((fillByte >>= fun _ => fillBytes first) >>= fun _ => fillBytes second) reader
      rw [inductionHypothesis]
      change EStateM.bind fillByte _ reader = EStateM.bind (EStateM.bind fillByte _) _ reader
      unfold EStateM.bind
      cases fillByte reader with
      | ok value between => rfl
      | error failure between => rfl

theorem fillBytes_available {bytes : Nat} (done : fillBytes bytes reader = .ok () filled) :
    filled.available = reader.available + 8 * bytes := by
  induction bytes generalizing reader with
  | zero =>
      cases done
      rfl
  | succ bytes inductionHypothesis =>
      obtain ⟨_, between, first, later⟩ := run_bind_eq_ok done
      obtain ⟨byte, buffer, available⟩ := fillByte_pushes first
      have total := inductionHypothesis later
      omega

theorem peekBits_eq_ok_iff {count value : Nat} :
    peekBits count reader = .ok value filled ↔
      fillBytes ((count - reader.available + 7) / 8) reader = .ok () filled ∧
        value = filled.front count := by
  change (fillBytes _ >>= _) reader = _ ↔ _
  constructor
  · intro peeked
    obtain ⟨_, between, done, last⟩ := run_bind_eq_ok peeked
    cases last
    exact ⟨done, rfl⟩
  · rintro ⟨done, rfl⟩
    exact (run_bind_of_ok done).trans rfl

theorem peekBits_available {count value : Nat} (peeked : peekBits count reader = .ok value filled) :
    count ≤ filled.available := by
  have total := fillBytes_available (peekBits_eq_ok_iff.mp peeked).1
  omega

theorem peekBits_held {count value : Nat} (peeked : peekBits count reader = .ok value filled)
    (held : count ≤ reader.available) : reader = filled := by
  obtain ⟨done, -⟩ := peekBits_eq_ok_iff.mp peeked
  have none : (count - reader.available + 7) / 8 = 0 := by omega
  rw [none] at done
  cases done
  rfl

private theorem missing_add {count wide available : Nat} (inside : count ≤ wide) :
    (wide - available + 7) / 8 = (count - available + 7) / 8 +
      (wide - (available + 8 * ((count - available + 7) / 8)) + 7) / 8 := by
  omega

/-- If many bits can be looked at, so can fewer, and then the others. -/
theorem peekBits_narrow {count wide value : Nat} {ahead : BitReader} (inside : count ≤ wide)
    (peeked : peekBits wide reader = .ok value ahead) :
    ∃ filled, peekBits count reader = .ok (value / 2 ^ (wide - count)) filled ∧
      peekBits wide filled = .ok value ahead := by
  obtain ⟨done, rfl⟩ := peekBits_eq_ok_iff.mp peeked
  rw [missing_add inside, fillBytes_add] at done
  obtain ⟨_, filled, first, later⟩ := run_bind_eq_ok done
  rw [← fillBytes_available first] at later
  have enough := fillBytes_available first
  have kept := (fillBytes_front later (by omega : count ≤ filled.available)).1
  refine ⟨filled, peekBits_eq_ok_iff.mpr ⟨first, ?_⟩, peekBits_eq_ok_iff.mpr ⟨later, rfl⟩⟩
  rw [front_div inside (peekBits_available peeked), kept]

theorem peekBits_trans {count wide value other : Nat} {ahead : BitReader} (inside : count ≤ wide)
    (first : peekBits count reader = .ok other filled)
    (later : peekBits wide filled = .ok value ahead) :
    peekBits wide reader = .ok value ahead := by
  obtain ⟨filledFirst, -⟩ := peekBits_eq_ok_iff.mp first
  obtain ⟨filledLater, same⟩ := peekBits_eq_ok_iff.mp later
  rw [fillBytes_available filledFirst] at filledLater
  refine peekBits_eq_ok_iff.mpr ⟨?_, same⟩
  rw [missing_add inside, fillBytes_add, run_bind_of_ok filledFirst, filledLater]

/-- What becomes of a new reader by operations on it, those that fail included. -/
inductive Reached : BitReader → Prop
  | start (bytes : List UInt8) : Reached (ofBytes bytes)
  | done {before after : BitReader} {operation : Operation} {answer : Option Nat}
      (earlier : Reached before) (answered : operation.run before = .ok answer after) :
      Reached after
  | failed {before after : BitReader} {operation : Operation} {failure : CodecError}
      (earlier : Reached before) (stopped : operation.run before = .error failure after) :
      Reached after

def Tidy (reader : BitReader) : Prop :=
  reader.buffer < 2 ^ reader.available

/-- A step that leaves a tidy reader behind, also when it fails. -/
private abbrev Tidies {α : Type} (step : BitDecoder α) : Prop :=
  RunsAlike (fun _ => True) (fun reader other => reader = other ∧ reader.Tidy) step step

private theorem tidy_push {reader : BitReader} (tidy : reader.Tidy) (byte : UInt8) :
    (reader.push byte).Tidy := by
  have small := byte.toNat_lt
  unfold Tidy at tidy ⊢
  unfold push
  dsimp only
  rw [Nat.pow_add]
  omega

private theorem tidies_fillByte : Tidies fillByte := by
  rintro reader _ ⟨rfl, tidy⟩
  have moved : ∀ {rest : List UInt8} {marker : Option UInt8} (byte : UInt8),
      ({ reader with rest := rest, marker := marker }.push byte).Tidy :=
    fun byte => tidy_push tidy byte
  unfold fillByte
  split
  · exact .ok () ⟨rfl, tidy_push tidy 0⟩
  · split
    · exact .error trivial ⟨rfl, tidy⟩
    · split
      · split
        · exact .error trivial ⟨rfl, tidy⟩
        · split
          · exact .ok () ⟨rfl, moved 0xFF⟩
          · exact .ok () ⟨rfl, moved 0⟩
      · exact .ok () ⟨rfl, moved _⟩

private theorem tidies_fillBytes (bytes : Nat) : Tidies (fillBytes bytes) := by
  induction bytes with
  | zero => exact .ofPure ()
  | succ bytes inductionHypothesis => exact .bind tidies_fillByte fun _ => inductionHypothesis

private theorem tidies_peekBits (count : Nat) : Tidies (peekBits count) := by
  refine .ofGet fun reader other same => ?_
  rw [same.1]
  refine .bind (tidies_fillBytes _) fun _ => .ofGet fun filled otherFilled sameFilled => ?_
  rw [sameFilled.1]
  exact .ofPure _

private theorem tidies_skipBits (count : Nat) : Tidies (skipBits count) := by
  refine .ofModify fun reader other same => ⟨by rw [same.1], ?_⟩
  unfold Tidy
  dsimp only
  rw [Nat.one_shiftLeft]
  exact Nat.mod_lt _ (Nat.two_pow_pos _)

private theorem tidies_takeRestart : Tidies takeRestart := by
  rintro reader _ ⟨rfl, -⟩
  unfold takeRestart
  dsimp only
  split
  · split
    · exact .ok _ ⟨rfl, Nat.one_pos⟩
    · exact .ok _ ⟨rfl, Nat.one_pos⟩
  · exact .ok _ ⟨rfl, Nat.one_pos⟩

private theorem Operation.tidies (operation : Operation) : Tidies operation.run := by
  cases operation with
  | peek count => exact .bind (tidies_peekBits count) fun _ => .ofPure _
  | read count =>
      refine .bind (.bind (tidies_peekBits count) fun _ => ?_) fun _ => .ofPure _
      exact .bind (tidies_skipBits count) fun _ => .ofPure _
  | skip count => exact .bind (tidies_skipBits count) fun _ => .ofPure _
  | restart => exact tidies_takeRestart

theorem Reached.tidy {reader : BitReader} (reached : reader.Reached) : reader.Tidy := by
  induction reached with
  | start bytes => exact Nat.one_pos
  | @done before after operation answer earlier answered tidy =>
      have ends := operation.tidies before before ⟨rfl, tidy⟩
      rw [answered] at ends
      cases ends with
      | ok value same => exact same.2
  | @failed before after operation failure earlier stopped tidy =>
      have ends := operation.tidies before before ⟨rfl, tidy⟩
      rw [stopped] at ends
      cases ends with
      | error admitted same => exact same.2

theorem Reached.peekBits_lt {count value : Nat} (reached : reader.Reached)
    (peeked : peekBits count reader = .ok value filled) : value < 2 ^ count := by
  have answered : (Operation.peek count).run reader = .ok (some value) filled :=
    run_bind_of_ok peeked
  have tidy := (Reached.done reached answered).tidy
  have enough := peekBits_available peeked
  obtain ⟨-, rfl⟩ := peekBits_eq_ok_iff.mp peeked
  unfold Tidy at tidy
  unfold front
  rw [Nat.shiftRight_eq_div_pow, Nat.div_lt_iff_lt_mul (Nat.two_pow_pos _), ← Nat.pow_add,
    Nat.add_sub_cancel' enough]
  exact tidy

end BitReader

end LosslessJpeg
