import LosslessJpeg.Bits.Reader
import LosslessJpeg.Proofs.Checked.Markers
import LosslessJpeg.Proofs.Checked.States

set_option autoImplicit false

/-!
Reading bits with a buffer of 32 bits. Bits that have been consumed stay in the buffer above
those that it still has to give, until they are shifted out.
-/

namespace LosslessJpeg

namespace Checked

structure BufferedReader where
  position : Nat
  buffer : Nat
  available : Nat
  marker : Option UInt8
  deriving DecidableEq, Repr

abbrev BitChecker := CheckedState CodecError BufferedReader

namespace BufferedReader

def ofPosition (position : Nat) : BufferedReader :=
  { position := position
    buffer := 0
    available := 0
    marker := none }

def push (byte : UInt8) : BitChecker Unit := do
  let reader ← get
  lift (shifts 32 8)
  lift (fits 8 (reader.available + 8))
  set
    { reader with
      buffer := reader.buffer * 256 % 2 ^ 32 + byte.toNat
      available := reader.available + 8 }

def fillByte (file : List UInt8) : BitChecker Unit := do
  let reader ← get
  match reader.marker with
  | some _ => push 0
  | none =>
      if file.length ≤ reader.position then
        lift (fail .unexpectedEnd)
      else do
        let byte ← lift (item file reader.position)
        lift (fits 64 (reader.position + 1))
        if byte = 0xFF then
          let place ← lift (passWhile file 0 (· = 0xFF) (reader.position + 1))
          if file.length ≤ place then
            lift (fail .unexpectedEnd)
          else
            let next ← lift (item file place)
            lift (fits 64 (place + 1))
            if next = 0 then
              set { reader with position := place + 1 }
              push 0xFF
            else
              set { reader with position := place + 1, marker := some next }
              push 0
        else
          set { reader with position := reader.position + 1 }
          push byte

def fillBytes (file : List UInt8) : Nat → BitChecker Unit
  | 0 => pure ()
  | count + 1 => do
      fillByte file
      fillBytes file count

/-- The next `count` bits. As many bytes are taken in as these bits lack. -/
def peekBits (file : List UInt8) (count : Nat) : BitChecker Nat := do
  lift (require .assertion (1 ≤ count ∧ count ≤ 16))
  let reader ← get
  fillBytes file ((count - reader.available + 7) / 8)
  let filled ← get
  lift (covers filled.available count)
  lift (shifts 32 (filled.available - count))
  lift (shifts 32 count)
  pure ((filled.buffer >>> (filled.available - count)) % 2 ^ count)

def skipBits (count : Nat) : BitChecker Unit := do
  let reader ← get
  lift (require .assertion (count ≤ reader.available))
  lift (covers reader.available count)
  set { reader with available := reader.available - count }

def readBits (file : List UInt8) (count : Nat) : BitChecker Nat := do
  let value ← peekBits file count
  let reader ← get
  lift (covers reader.available count)
  set { reader with available := reader.available - count }
  pure value

def readBit (file : List UInt8) : BitChecker Bool := do
  let value ← readBits file 1
  pure (value != 0)

def restartFrom (file : List UInt8) (position : Nat) : Checked CodecError (Option Nat × Nat) := do
  fits 64 (position + 1)
  if _inside : position + 1 < file.length then
    let first ← item file position
    if first = 0xFF then
      let next ← item file (position + 1)
      if next = 0xFF then
        restartFrom file (position + 1)
      else
        match Marker.restartNumber? next with
        | some number => do
            fits 64 (position + 2)
            pure (some number, position + 2)
        | none => pure (none, position)
    else
      pure (none, position)
  else
    pure (none, position)
termination_by file.length - position

def takeRestart (file : List UInt8) : BitChecker (Option Nat) := do
  let reader ← get
  let aligned := { reader with buffer := 0, available := 0 }
  match reader.marker with
  | some marker =>
      match Marker.restartNumber? marker with
      | some number => do
          set { aligned with marker := none }
          pure (some number)
      | none => do
          set aligned
          pure none
  | none => do
      let (number, position) ← lift (restartFrom file reader.position)
      set { aligned with position := position }
      pure number

/-! ### What the buffer holds -/

/-- A reader with a position and a full buffer stands for one with the bytes that remain and
the bits that are still to be given. -/
structure Represents (file : List UInt8) (reader : BufferedReader) (other : BitReader) : Prop where
  inside : reader.position ≤ file.length
  rest : other.rest = file.drop reader.position
  buffer : other.buffer = reader.buffer % 2 ^ reader.available
  available : other.available = reader.available
  marker : other.marker = reader.marker
  few : reader.available ≤ 23

variable {file : List UInt8} {reader : BufferedReader} {other : BitReader}

private theorem represents_empty {position : Nat} (inside : position ≤ file.length)
    (marker : Option UInt8) :
    Represents file { position := position, buffer := 0, available := 0, marker := marker }
      { rest := file.drop position, buffer := 0, available := 0, marker := marker } where
  inside := inside
  rest := rfl
  buffer := rfl
  available := rfl
  marker := rfl
  few := Nat.zero_le _

theorem represents_ofPosition {position : Nat} (inside : position ≤ file.length) :
    Represents file (ofPosition position) (BitReader.ofBytes (file.drop position)) :=
  represents_empty inside none

private theorem pushed_mod {buffer available byte : Nat} (few : available ≤ 15)
    (small : byte < 256) :
    (buffer * 256 % 2 ^ 32 + byte) % 2 ^ (available + 8) = buffer % 2 ^ available * 256 + byte := by
  have divides : 2 ^ (available + 8) ∣ 2 ^ 32 := Nat.pow_dvd_pow 2 (by omega)
  have below : buffer % 2 ^ available < 2 ^ available := Nat.mod_lt _ (Nat.two_pow_pos _)
  have power : 2 ^ (available + 8) = 2 ^ available * 256 := Nat.pow_add 2 available 8
  have shifted : buffer * 256 % 2 ^ (available + 8) = buffer % 2 ^ available * 256 := by
    rw [power, Nat.mul_mod_mul_right]
  rw [← Nat.mod_add_mod, Nat.mod_mod_of_dvd _ divides, shifted, Nat.mod_eq_of_lt (by omega)]

private theorem Represents.push (represents : Represents file reader other)
    (few : reader.available ≤ 15) (byte : UInt8) :
    FollowsState Eq (fun after otherAfter => Represents file after otherAfter ∧
        after.available = reader.available + 8) (push byte reader)
      (.ok () (other.push byte) : EStateM.Result CodecError _ _) := by
  rw [BufferedReader.push, run_get, run_lift (shifts_of_lt (by decide)),
    run_lift (fits_of_lt (by omega))]
  refine .ok rfl ⟨{ represents with buffer := ?_, available := ?_, few := ?_ }, rfl⟩
  · rw [pushed_mod few byte.toNat_lt, ← represents.buffer]
    rfl
  · rw [← represents.available]
    rfl
  · dsimp only
    omega

private theorem Represents.moved (represents : Represents file reader other)
    {position : Nat} (inside : position ≤ file.length) (marker : Option UInt8) :
    Represents file { reader with position := position, marker := marker }
      { other with rest := file.drop position, marker := marker } :=
  { represents with
    inside := inside
    rest := rfl
    marker := rfl }

private theorem Represents.fillByte (represents : Represents file reader other)
    (addressable : file.length < 2 ^ 63) (few : reader.available ≤ 15) :
    FollowsState Eq (fun after otherAfter => Represents file after otherAfter ∧
        after.available = reader.available + 8) (fillByte file reader)
      (BitReader.fillByte other) := by
  rw [BufferedReader.fillByte, run_get, BitReader.fillByte, represents.marker, represents.rest]
  cases reader.marker with
  | some marker => exact represents.push few 0
  | none =>
      dsimp only
      by_cases ended : file.length ≤ reader.position
      · rw [if_pos ended, List.drop_eq_nil_of_le ended]
        exact .failure _ _
      · have inside := Nat.lt_of_not_le ended
        rw [if_neg ended, run_lift (item_of_lt inside), run_lift (fits_of_lt (by omega)),
          List.drop_eq_getElem_cons inside]
        dsimp only
        split
        · -- The byte that is not a fill byte tells whether the data ends here.
          have passed : passWhile file 0 (· = 0xFF) (reader.position + 1) = _ :=
            passWhile_eq addressable (Nat.zero_le 1) inside
          have behind := drop_takeWhile_length (· = 0xFF) (file.drop (reader.position + 1))
          rw [List.drop_drop] at behind
          rw [run_lift passed, Nat.add_zero, ← behind]
          generalize reader.position + 1 +
            ((file.drop (reader.position + 1)).takeWhile (· = 0xFF)).length = place
          by_cases cut : file.length ≤ place
          · rw [if_pos cut, List.drop_eq_nil_of_le cut]
            exact .failure _ _
          · have there := Nat.lt_of_not_le cut
            rw [if_neg cut, run_lift (item_of_lt there), run_lift (fits_of_lt (by omega)),
              List.drop_eq_getElem_cons there]
            dsimp only
            split
            · exact (represents.moved there none).push few 0xFF
            · exact (represents.moved there _).push few 0
        · exact (represents.moved inside none).push few _

private theorem Represents.fillBytes (represents : Represents file reader other)
    (addressable : file.length < 2 ^ 63) {count : Nat} (few : reader.available + 8 * count ≤ 23) :
    FollowsState Eq (fun after otherAfter => Represents file after otherAfter ∧
        after.available = reader.available + 8 * count) (fillBytes file count reader)
      (BitReader.fillBytes count other) := by
  induction count generalizing reader other with
  | zero => exact .ok rfl ⟨represents, rfl⟩
  | succ count inductionHypothesis =>
      refine (represents.fillByte addressable (by omega)).bind ?_
      rintro - - filled otherFilled - ⟨representsFilled, held⟩
      refine (inductionHypothesis representsFilled (by omega)).mono fun after otherAfter later => ?_
      exact ⟨later.1, by omega⟩

theorem Represents.peekBits (represents : Represents file reader other)
    (addressable : file.length < 2 ^ 63) {count : Nat} (some : 1 ≤ count) (few : count ≤ 16) :
    FollowsState (fun value otherValue => value = otherValue ∧ value < 2 ^ count)
      (fun after otherAfter => Represents file after otherAfter ∧ count ≤ after.available)
      (peekBits file count reader) (BitReader.peekBits count other) := by
  have held := represents.few
  rw [BufferedReader.peekBits, run_lift (require_of_holds ⟨some, few⟩), run_get,
    BitReader.peekBits]
  change FollowsState _ _ _ ((BitReader.fillBytes _ >>= _) other)
  rw [represents.available]
  refine (represents.fillBytes addressable (by omega)).bind ?_
  rintro - - filled otherFilled - ⟨representsFilled, available⟩
  have enough : count ≤ filled.available := by omega
  rw [run_get, run_lift (covers_of_le enough), run_lift (shifts_of_lt (by omega)),
    run_lift (shifts_of_lt (by omega))]
  refine .ok ⟨?_, Nat.mod_lt _ (Nat.two_pow_pos _)⟩ ⟨representsFilled, enough⟩
  rw [representsFilled.buffer, representsFilled.available, Nat.shiftRight_eq_div_pow,
    Nat.shiftRight_eq_div_pow, ← Nat.mod_mul_right_div_self, Nat.pow_sub_mul_pow 2 enough]

private theorem Represents.consumed (represents : Represents file reader other) {count : Nat} :
    Represents file { reader with available := reader.available - count }
      { other with
        buffer := other.buffer % (1 <<< (other.available - count))
        available := other.available - count } where
  inside := represents.inside
  rest := represents.rest
  buffer := by
    rw [Nat.one_shiftLeft, represents.buffer, represents.available,
      Nat.mod_mod_of_dvd _ (Nat.pow_dvd_pow 2 (Nat.sub_le _ _))]
  available := by rw [represents.available]
  marker := represents.marker
  few := Nat.le_trans (Nat.sub_le _ _) represents.few

theorem Represents.skipBits (represents : Represents file reader other) {count : Nat}
    (enough : count ≤ reader.available) :
    FollowsState Eq (Represents file) (skipBits count reader) (BitReader.skipBits count other) := by
  rw [BufferedReader.skipBits, run_get, run_lift (require_of_holds enough),
    run_lift (covers_of_le enough)]
  exact .ok rfl represents.consumed

theorem Represents.readBits (represents : Represents file reader other)
    (addressable : file.length < 2 ^ 63) {count : Nat} (some : 1 ≤ count) (few : count ≤ 16) :
    FollowsState (fun value otherValue => value = otherValue ∧ value < 2 ^ count)
      (Represents file) (readBits file count reader) (BitReader.readBits count other) := by
  refine (represents.peekBits addressable some few).bind ?_
  rintro value other filled otherFilled ⟨rfl, small⟩ ⟨representsFilled, enough⟩
  rw [run_get, run_lift (covers_of_le enough)]
  exact .ok ⟨rfl, small⟩ representsFilled.consumed

theorem Represents.readBit (represents : Represents file reader other)
    (addressable : file.length < 2 ^ 63) :
    FollowsState Eq (Represents file) (readBit file reader) (BitReader.readBit other) := by
  refine (represents.readBits addressable (Nat.le_refl 1) (by decide)).bind ?_
  rintro value other left otherLeft ⟨rfl, -⟩ representsLeft
  exact .ok rfl representsLeft

private theorem restartFrom_spec (addressable : file.length < 2 ^ 63) {position : Nat}
    (inside : position ≤ file.length) :
    ∃ behind, restartFrom file position =
        .ok ((BitReader.restartFrom (file.drop position)).1, behind) ∧
      (BitReader.restartFrom (file.drop position)).2 = file.drop behind ∧
      behind ≤ file.length := by
  -- The position goes on only behind a fill byte, and stays inside of the file.
  fun_induction restartFrom file position with
  | case1 position inductionHypothesis =>
      rw [bind_of_ok (fits_of_lt (by omega))]
      by_cases more : position + 1 < file.length
      · have here := List.drop_eq_getElem_cons (Nat.lt_of_succ_lt more)
        rw [List.drop_eq_getElem_cons more] at here
        rw [dif_pos more, bind_of_ok (item_of_lt (Nat.lt_of_succ_lt more)), here,
          BitReader.restartFrom]
        by_cases marked : file[position] = 0xFF
        · rw [if_pos marked, if_pos marked, bind_of_ok (item_of_lt more)]
          by_cases fill : file[position + 1] = 0xFF
          · rw [if_pos fill, if_pos fill, ← List.drop_eq_getElem_cons more]
            exact inductionHypothesis more (Nat.le_of_lt more)
          · rw [if_neg fill, if_neg fill]
            cases Marker.restartNumber? file[position + 1] with
            | some number =>
                dsimp only
                rw [bind_of_ok (fits_of_lt (by omega))]
                exact ⟨position + 2, rfl, rfl, more⟩
            | none => exact ⟨position, rfl, here.symm, inside⟩
        · rw [if_neg marked, if_neg marked]
          exact ⟨position, rfl, here.symm, inside⟩
      · rw [dif_neg more]
        have short : (file.drop position).length < 2 := by
          rw [List.length_drop]
          omega
        refine ⟨position, ?_⟩
        match file.drop position, short with
        | [], _ | [_], _ => exact ⟨rfl, rfl, inside⟩

theorem Represents.takeRestart (represents : Represents file reader other)
    (addressable : file.length < 2 ^ 63) :
    FollowsState Eq (Represents file) (takeRestart file reader) (BitReader.takeRestart other) := by
  rw [BufferedReader.takeRestart, run_get, BitReader.takeRestart, represents.marker,
    represents.rest]
  cases reader.marker with
  | some marker =>
      dsimp only
      cases Marker.restartNumber? marker with
      | some number => exact .ok rfl (represents_empty represents.inside none)
      | none => exact .ok rfl (represents_empty represents.inside (some marker))
  | none =>
      obtain ⟨behind, found, rest, inside⟩ := restartFrom_spec addressable represents.inside
      dsimp only
      rw [run_lift found, rest]
      exact .ok rfl (represents_empty inside none)

end BufferedReader

end Checked

end LosslessJpeg
