import LosslessJpeg.Bits.Reader
import LosslessJpeg.Proofs.Agreement
import LosslessJpeg.Proofs.Marker.ScanData

set_option autoImplicit false

/-!
A bit reader stays inside the entropy-coded data it was given. It stops at the marker that
closes the data, whatever it is asked for and however often it goes on behind a restart
marker, so that two readers of the same data go side by side.
-/

namespace LosslessJpeg

/-- What two readers have in front of them, each as the marker that it has met and the bytes
behind. -/
inductive SameAhead : Option UInt8 → List UInt8 → Option UInt8 → List UInt8 → Prop
  | data {rest other : List UInt8} (same : SameScanData rest other) :
      SameAhead none rest none other
  | restart {marker : UInt8} {number : Nat} {rest other : List UInt8}
      (numbered : Marker.restartNumber? marker = some number)
      (same : SameScanData rest other) : SameAhead (some marker) rest (some marker) other
  | closed {marker otherMarker : UInt8} {rest other : List UInt8}
      (closes : Marker.Closes marker) (otherCloses : Marker.Closes otherMarker) :
      SameAhead (some marker) rest (some otherMarker) other

namespace SameScanData

theorem front {rest other : List UInt8} (same : SameScanData rest other) :
    (∃ byte left otherLeft, rest = byte :: left ∧ other = byte :: otherLeft ∧ byte ≠ 0xFF ∧
        SameScanData left otherLeft) ∨
      ∃ left otherLeft, rest = 0xFF :: left ∧ other = 0xFF :: otherLeft := by
  cases same with
  | plain ordinary following => exact Or.inl ⟨_, _, _, rfl, rfl, ordinary, following⟩
  | fill following => exact Or.inr ⟨_, _, rfl, rfl⟩
  | stuffed following => exact Or.inr ⟨_, _, rfl, rfl⟩
  | restart numbered following => exact Or.inr ⟨_, _, rfl, rfl⟩
  | closed closes otherCloses => exact Or.inr ⟨_, _, rfl, rfl⟩

theorem behindFill {rest other : List UInt8}
    (same : SameScanData (0xFF :: rest) (0xFF :: other)) :
    (∃ left otherLeft, rest.dropWhile (· = 0xFF) = 0 :: left ∧
        other.dropWhile (· = 0xFF) = 0 :: otherLeft ∧ SameScanData left otherLeft) ∨
      ∃ marker otherMarker left otherLeft, rest.dropWhile (· = 0xFF) = marker :: left ∧
        other.dropWhile (· = 0xFF) = otherMarker :: otherLeft ∧ marker ≠ 0 ∧
        otherMarker ≠ 0 ∧ SameAhead (some marker) left (some otherMarker) otherLeft := by
  have stops : ∀ {byte : UInt8} (bytes : List UInt8), byte ≠ 0xFF →
      (byte :: bytes).dropWhile (· = 0xFF) = byte :: bytes := by
    intro byte bytes different
    rw [List.dropWhile_cons_of_neg]
    simpa using different
  -- The induction is on how the two strings hold the same data, so that both give up their fill
  -- bytes together. It needs them as variables.
  generalize front : 0xFF :: rest = bytes at same
  generalize otherFront : 0xFF :: other = otherBytes at same
  induction same generalizing rest other with
  | plain ordinary following =>
      cases front
      exact absurd rfl ordinary
  | fill following inductionHypothesis =>
      cases front
      cases otherFront
      rw [List.dropWhile_cons_of_pos (by decide), List.dropWhile_cons_of_pos (by decide)]
      exact inductionHypothesis rfl rfl
  | stuffed following =>
      cases front
      cases otherFront
      exact Or.inl ⟨_, _, stops _ (by decide), stops _ (by decide), following⟩
  | restart numbered following =>
      cases front
      cases otherFront
      obtain ⟨notFill, notStuffing⟩ := Marker.ne_of_restartNumber? numbered
      exact Or.inr ⟨_, _, _, _, stops _ notFill, stops _ notFill, notStuffing, notStuffing,
        .restart numbered following⟩
  | closed closes otherCloses =>
      cases front
      cases otherFront
      exact Or.inr ⟨_, _, _, _, stops _ closes.1, stops _ otherCloses.1, closes.2.1,
        otherCloses.2.1, .closed closes otherCloses⟩

theorem restartFrom {rest other : List UInt8} (same : SameScanData rest other) :
    (BitReader.restartFrom rest).1 = (BitReader.restartFrom other).1 ∧
      SameScanData (BitReader.restartFrom rest).2 (BitReader.restartFrom other).2 := by
  have passes : ∀ {next : UInt8} (bytes : List UInt8), next ≠ 0xFF →
      BitReader.restartFrom (0xFF :: next :: bytes) =
        ((Marker.restartNumber? next).map fun number => (some number, bytes)).getD
          (none, 0xFF :: next :: bytes) := by
    intro next bytes different
    rw [BitReader.restartFrom, if_pos rfl, if_neg different]
    cases Marker.restartNumber? next with
    | some number => rfl
    | none => rfl
  -- Fill bytes alone are passed over, so only their case has an induction hypothesis to use.
  induction same with
  | @plain byte rest other ordinary following =>
      have stays : ∀ bytes : List UInt8,
          BitReader.restartFrom (byte :: bytes) = (none, byte :: bytes) := by
        intro bytes
        cases bytes with
        | nil => rfl
        | cons next bytes => rw [BitReader.restartFrom, if_neg ordinary]
      rw [stays, stays]
      exact ⟨rfl, .plain ordinary following⟩
  | fill following inductionHypothesis =>
      rw [BitReader.restartFrom, if_pos rfl, if_pos rfl]
      exact inductionHypothesis
  | stuffed following =>
      exact ⟨rfl, .stuffed following⟩
  | @restart marker number rest other numbered following =>
      have notFill := (Marker.ne_of_restartNumber? numbered).1
      rw [passes _ notFill, passes _ notFill, numbered]
      exact ⟨rfl, following⟩
  | closed closes otherCloses =>
      rw [passes _ closes.1, passes _ otherCloses.1, closes.2.2, otherCloses.2.2]
      exact ⟨rfl, .closed closes otherCloses⟩

end SameScanData

namespace BitReader

/-- Two readers with the same bits in hand and the same data in front of them. -/
structure Alongside (reader other : BitReader) : Prop where
  buffer : reader.buffer = other.buffer
  available : reader.available = other.available
  ahead : SameAhead reader.marker reader.rest other.marker other.rest

theorem alongside_ofBytes {bytes other : List UInt8} (same : SameScanData bytes other) :
    Alongside (ofBytes bytes) (ofBytes other) where
  buffer := rfl
  available := rfl
  ahead := .data same

variable {reader other : BitReader}

private theorem Alongside.push (alongside : Alongside reader other) (byte : UInt8) :
    Alongside (reader.push byte) (other.push byte) where
  buffer := by
    unfold BitReader.push
    rw [alongside.buffer]
  available := by
    unfold BitReader.push
    rw [alongside.available]
  ahead := alongside.ahead

private theorem Alongside.fillByte (alongside : Alongside reader other) :
    ∃ after otherAfter, fillByte reader = .ok () after ∧ fillByte other = .ok () otherAfter ∧
      Alongside after otherAfter := by
  obtain ⟨rest, buffer, available, marker⟩ := reader
  obtain ⟨otherRest, otherBuffer, otherAvailable, otherMarker⟩ := other
  obtain ⟨sameBuffer, sameAvailable, ahead⟩ := alongside
  dsimp only at sameBuffer sameAvailable ahead
  subst sameBuffer
  subst sameAvailable
  have kept : ∀ {marker otherMarker : Option UInt8} {rest otherRest : List UInt8},
      SameAhead marker rest otherMarker otherRest → Alongside
        { rest := rest, buffer := buffer, available := available, marker := marker }
        { rest := otherRest, buffer := buffer, available := available, marker := otherMarker } :=
    fun same => ⟨rfl, rfl, same⟩
  -- Once a marker has been met the two markers may differ, but both readers are given zeros.
  cases ahead with
  | restart numbered same => exact ⟨_, _, rfl, rfl, (kept (.restart numbered same)).push 0⟩
  | closed closes otherCloses =>
      exact ⟨_, _, rfl, rfl, (kept (.closed closes otherCloses)).push 0⟩
  | data same =>
      unfold BitReader.fillByte
      rcases same.front with ⟨byte, left, otherLeft, rfl, rfl, ordinary, following⟩ |
        ⟨left, otherLeft, rfl, rfl⟩
      · dsimp only
        rw [if_neg ordinary, if_neg ordinary]
        exact ⟨_, _, rfl, rfl, (kept (.data following)).push byte⟩
      · dsimp only
        rw [if_pos rfl, if_pos rfl]
        rcases same.behindFill with ⟨behind, otherBehind, found, otherFound, following⟩ |
          ⟨marker, otherMarker, behind, otherBehind, found, otherFound, notStuffing,
            otherNotStuffing, ahead⟩
        · rw [found, otherFound]
          exact ⟨_, _, rfl, rfl, (kept (.data following)).push 0xFF⟩
        · rw [found, otherFound]
          dsimp only
          rw [if_neg notStuffing, if_neg otherNotStuffing]
          exact ⟨_, _, rfl, rfl, (kept ahead).push 0⟩

/-- A step that cannot fail and does not tell readers of the same data apart. -/
abbrev Assured {α : Type} (step : BitDecoder α) : Prop :=
  RunsAlike (fun _ => False) Alongside step step

theorem assured_fillByte : Assured fillByte := by
  intro reader other alongside
  obtain ⟨after, otherAfter, filled, otherFilled, sameAfter⟩ := alongside.fillByte
  rw [filled, otherFilled]
  exact .ok () sameAfter

theorem assured_fillBytes (count : Nat) : Assured (fillBytes count) := by
  induction count with
  | zero => exact .ofPure ()
  | succ count inductionHypothesis => exact .bind assured_fillByte fun _ => inductionHypothesis

theorem assured_peekBits (count : Nat) : Assured (peekBits count) := by
  refine .ofGet fun reader other alongside => ?_
  rw [alongside.available]
  refine .bind (assured_fillBytes _) fun _ => .ofGet fun filled otherFilled same => ?_
  rw [same.buffer, same.available]
  exact .ofPure _

theorem assured_skipBits (count : Nat) : Assured (skipBits count) := by
  refine .ofModify fun reader other alongside => ⟨?_, ?_, alongside.ahead⟩
  · rw [alongside.buffer, alongside.available]
  · rw [alongside.available]

theorem assured_readBits (count : Nat) : Assured (readBits count) :=
  .bind (assured_peekBits count) fun _ => .bind (assured_skipBits count) fun _ => .ofPure _

theorem assured_takeRestart : Assured takeRestart := by
  intro reader other alongside
  obtain ⟨rest, buffer, available, marker⟩ := reader
  obtain ⟨otherRest, otherBuffer, otherAvailable, otherMarker⟩ := other
  have ahead := alongside.ahead
  dsimp only at ahead
  unfold takeRestart
  cases ahead with
  | data same =>
      obtain ⟨number, left⟩ := same.restartFrom
      dsimp only
      rw [number]
      exact .ok _ ⟨rfl, rfl, .data left⟩
  | restart numbered same =>
      dsimp only
      rw [numbered]
      exact .ok _ ⟨rfl, rfl, .data same⟩
  | closed closes otherCloses =>
      dsimp only
      rw [closes.2.2, otherCloses.2.2]
      exact .ok none ⟨rfl, rfl, .closed closes otherCloses⟩

inductive Operation
  | peek (count : Nat)
  | read (count : Nat)
  | skip (count : Nat)
  | restart
  deriving DecidableEq, Repr

def Operation.run : Operation → BitDecoder (Option Nat)
  | .peek count => some <$> peekBits count
  | .read count => some <$> readBits count
  | .skip count => (fun _ => none) <$> skipBits count
  | .restart => takeRestart

theorem Operation.assured (operation : Operation) : Assured operation.run := by
  cases operation with
  | peek count => exact .bind (assured_peekBits count) fun _ => .ofPure _
  | read count => exact .bind (assured_readBits count) fun _ => .ofPure _
  | skip count => exact .bind (assured_skipBits count) fun _ => .ofPure _
  | restart => exact assured_takeRestart

theorem assured_operations (operations : List Operation) :
    Assured (operations.mapM Operation.run) :=
  .ofMapM fun operation _ => operation.assured

end BitReader

end LosslessJpeg
