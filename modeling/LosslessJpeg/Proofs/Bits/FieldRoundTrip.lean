import LosslessJpeg.Proofs.Bits.Reading
import LosslessJpeg.Proofs.Checked.Bits
import LosslessJpeg.Proofs.Checked.BitWriting

set_option autoImplicit false

/-!
Writer and reader carry one bit string. What fields are written is the bit string that they
make up, filled up with ones, and looks at what has been written give its slices in order,
however the bits are grouped on either side and whether the bits are kept without limit or in
a buffer of 32 bits.
-/

namespace LosslessJpeg

structure BitField where
  value : UInt16
  count : Nat
  short : count ≤ 16
  deriving DecidableEq, Repr

structure BitLook where
  count : Nat
  consumes : Bool
  some : 1 ≤ count
  short : count ≤ 16
  deriving DecidableEq, Repr

def BitField.bits (field : BitField) : List Bool :=
  binary field.count field.value.toNat

def fieldBits (fields : List BitField) : List Bool :=
  fields.flatMap BitField.bits

/-- A bit string filled up to whole bytes with ones. -/
def padded (bits : List Bool) : List Bool :=
  bits ++ List.replicate ((8 - bits.length % 8) % 8) true

def BitWriter.ofFields (fields : List BitField) : BitWriter :=
  fields.foldl (fun writer field => writer.writeBits field.value.toNat field.count) empty

def Checked.BufferedWriter.writeFields {ε : Type} (fields : List BitField) :
    Checked ε (List UInt8) := do
  let writer ← fields.foldlM (fun writer field => writer.writeBits field.value field.count) empty
  writer.flush

def BitReader.look (look : BitLook) : BitDecoder Nat :=
  if look.consumes then readBits look.count else peekBits look.count

def Checked.BufferedReader.look (file : List UInt8) (look : BitLook) : BitChecker Nat :=
  if look.consumes then readBits file look.count else peekBits file look.count

/-- The number made up by so many bits from a place on; behind the last bit there are zeros. -/
def slice (bits : List Bool) (place count : Nat) : Nat :=
  ofBinary ((List.range' place count).map fun index => bits.getD index false)

def BitLook.behind (look : BitLook) (place : Nat) : Nat :=
  if look.consumes then place + look.count else place

def slices (bits : List Bool) : Nat → List BitLook → List Nat
  | _, [] => []
  | place, look :: looks => slice bits place look.count :: slices bits (look.behind place) looks

private theorem binary_inj {count first second : Nat}
    (same : binary count first = binary count second) :
    first % 2 ^ count = second % 2 ^ count := by
  rw [← ofBinary_binary, same, ofBinary_binary]

theorem byteBits_injective : Function.Injective byteBits := by
  intro first
  induction first with
  | nil =>
      intro second same
      have lengths := congrArg List.length same
      rw [byteBits_length, byteBits_length, List.length_nil] at lengths
      exact (List.eq_nil_of_length_eq_zero (by omega)).symm
  | cons byte rest inductionHypothesis =>
      intro second same
      cases second with
      | nil =>
          have lengths := congrArg List.length same
          rw [byteBits_length, byteBits_length, List.length_nil, List.length_cons] at lengths
          omega
      | cons other others =>
          rw [byteBits_cons, byteBits_cons] at same
          obtain ⟨here, later⟩ := List.append_inj same (by rw [binary_length, binary_length])
          have values := binary_inj here
          rw [Nat.mod_eq_of_lt byte.toNat_lt, Nat.mod_eq_of_lt other.toNat_lt] at values
          rw [UInt8.toNat_inj.mp values, inductionHypothesis later]

private theorem eq_padded {bits : List Bool} {data : List UInt8} {padding : Nat} (few : padding < 8)
    (filled : byteBits data = bits ++ List.replicate padding true) :
    byteBits data = padded bits := by
  have lengths := congrArg List.length filled
  rw [byteBits_length, List.length_append, List.length_replicate] at lengths
  have lacking : padding = (8 - bits.length % 8) % 8 := by omega
  rw [filled, padded, lacking]

private theorem holds_foldl {writer : BitWriter} {before : List Bool} (holds : writer.Holds before)
    (fields : List BitField) :
    (fields.foldl (fun writer field => writer.writeBits field.value.toNat field.count) writer).Holds
      (before ++ fieldBits fields) := by
  induction fields generalizing writer before with
  | nil =>
      rw [fieldBits, List.flatMap_nil, List.append_nil]
      exact holds
  | cons field rest inductionHypothesis =>
      rw [fieldBits, List.flatMap_cons, ← List.append_assoc]
      exact inductionHypothesis (holds.writeBits field.value.toNat field.count)

theorem flush_ofFields (fields : List BitField) :
    ∃ data, (BitWriter.ofFields fields).flush = stuffed data ∧
      byteBits data = padded (fieldBits fields) := by
  obtain ⟨data, padding, flushed, few, filled⟩ :=
    (holds_foldl BitWriter.holds_empty fields).flush
  exact ⟨data, flushed, eq_padded few filled⟩

namespace Checked.BufferedWriter

variable {ε : Type}

private theorem represents_foldlM {writer : BufferedWriter} {other : BitWriter}
    (represents : Represents writer other) (fields : List BitField) :
    ∃ written, fields.foldlM
        (fun writer field => writer.writeBits field.value field.count) writer =
          (.ok written : Checked ε BufferedWriter) ∧
      Represents written
        (fields.foldl (fun writer field => writer.writeBits field.value.toNat field.count)
          other) := by
  induction fields generalizing writer other with
  | nil => exact ⟨writer, rfl, represents⟩
  | cons field rest inductionHypothesis =>
      obtain ⟨first, writtenFirst, representsFirst⟩ := represents.writeBits field.value field.short
      rw [List.foldlM_cons, bind_of_ok writtenFirst]
      exact inductionHypothesis representsFirst

theorem writeFields_eq_ok (fields : List BitField) :
    (writeFields fields : Checked ε (List UInt8)) = .ok (BitWriter.ofFields fields).flush := by
  obtain ⟨written, done, represents⟩ := represents_foldlM represents_empty fields
  rw [writeFields, bind_of_ok done, represents.flush]
  rfl

end Checked.BufferedWriter

/-- The bits from a place on, with zeros behind them, one by one. -/
private theorem map_getD_range' (bits : List Bool) (place count : Nat) :
    (List.range' place count).map (fun index => bits.getD index false) =
      (bits.drop place ++ List.replicate count false).take count := by
  apply List.ext_getElem
  · rw [List.length_map, List.length_range', List.length_take, List.length_append,
      List.length_replicate]
    omega
  · intro index inside _
    rw [List.length_map, List.length_range'] at inside
    rw [List.getElem_map, List.getElem_range', Nat.one_mul, List.getElem_take,
      List.getElem_append, List.getD_eq_getElem?_getD]
    split
    case isTrue there =>
      rw [List.length_drop] at there
      rw [List.getElem_drop, List.getElem?_eq_getElem (by omega), Option.getD_some]
    case isFalse behind =>
      rw [List.length_drop] at behind
      rw [List.getElem_replicate, List.getElem?_eq_none (by omega), Option.getD_none]

theorem slice_eq_lookahead (bits : List Bool) (place count : Nat) :
    slice bits place count = ofBinary (BitReader.lookahead count (bits.drop place)) := by
  rw [slice, map_getD_range']
  rfl

namespace BitReader

variable {closing : Closing} {reader : BitReader} {bits : List Bool}

/-- A look answers with the slice at its place, and leaves the reader at the place of the next. -/
private theorem Supplies.look {place : Nat} (supplies : Supplies closing reader (bits.drop place))
    (look : BitLook) :
    ∃ left, BitReader.look look reader = .ok (slice bits place look.count) left ∧
      Supplies closing left (bits.drop (look.behind place)) := by
  rw [BitReader.look, BitLook.behind, slice_eq_lookahead]
  split
  case isTrue =>
    rw [← List.drop_drop]
    exact supplies.readBits look.count
  case isFalse =>
    obtain ⟨filled, peeked, suppliesFilled, -⟩ := supplies.peekBits look.count
    exact ⟨filled, peeked, suppliesFilled⟩

private theorem Supplies.looks {place : Nat} (supplies : Supplies closing reader (bits.drop place))
    (looks : List BitLook) :
    ∃ left, looks.mapM BitReader.look reader = .ok (slices bits place looks) left := by
  induction looks generalizing reader place with
  | nil => exact ⟨reader, rfl⟩
  | cons look rest inductionHypothesis =>
      obtain ⟨first, answered, suppliesFirst⟩ := supplies.look look
      obtain ⟨left, later⟩ := inductionHypothesis suppliesFirst
      refine ⟨left, ?_⟩
      rw [List.mapM_cons, run_bind_of_ok answered, run_bind_of_ok later]
      rfl

end BitReader

namespace Checked.BufferedReader

variable {file : List UInt8} {reader : BufferedReader} {other : BitReader}

private theorem Represents.look (represents : Represents file reader other)
    (addressable : file.length < 2 ^ 63) (look : BitLook) :
    FollowsState Eq (Represents file) (BufferedReader.look file look reader)
      (BitReader.look look other) := by
  rw [BufferedReader.look, BitReader.look]
  split
  case isTrue =>
    exact (represents.readBits addressable look.some look.short).monoValues
      fun _ _ same => same.1
  case isFalse =>
    exact ((represents.peekBits addressable look.some look.short).monoValues
      fun _ _ same => same.1).mono fun _ _ related => related.1

private theorem Represents.looks (represents : Represents file reader other)
    (addressable : file.length < 2 ^ 63) (looks : List BitLook) :
    FollowsState Eq (Represents file) (looks.mapM (BufferedReader.look file) reader)
      (looks.mapM BitReader.look other) := by
  induction looks generalizing reader other with
  | nil => exact .ok rfl represents
  | cons look rest inductionHypothesis =>
      rw [List.mapM_cons, List.mapM_cons]
      refine (represents.look addressable look).bind ?_
      rintro value _ after otherAfter rfl representsAfter
      refine (inductionHypothesis representsAfter).bind ?_
      rintro values _ left otherLeft rfl representsLeft
      exact .ok rfl representsLeft

theorem looks_eq_ok (addressable : file.length < 2 ^ 63) (looks : List BitLook) {answers : List Nat}
    (answered : looks.mapM BitReader.look (BitReader.ofBytes file) = .ok answers other) :
    ∃ left, looks.mapM (BufferedReader.look file) (ofPosition 0) = .ok (answers, left) := by
  have follows := (represents_ofPosition (Nat.zero_le file.length)).looks addressable looks
  rw [List.drop_zero, answered] at follows
  generalize (looks.mapM (BufferedReader.look file) : BitChecker (List Nat)) (ofPosition 0) = result
    at follows ⊢
  cases follows with
  | ok same _ => exact ⟨_, by rw [same]⟩

end Checked.BufferedReader

/-- Fields come out as one bit string, filled up with ones and stuffed, whichever fields it is
cut into, and looks in any order give its slices up to the closing marker and zeros from there
on. -/
theorem fields_carried (fields : List BitField) (marker : UInt8) (notStuffing : marker ≠ 0)
    (notFill : marker ≠ 0xFF) (after : List UInt8) (looks : List BitLook) :
    ∃ data : List UInt8, byteBits data = padded (fieldBits fields) ∧
      (BitWriter.ofFields fields).flush = stuffed data ∧
      Checked.BufferedWriter.writeFields fields =
        (.ok (stuffed data) : Checked CodecError (List UInt8)) ∧
      (∀ others, fieldBits others = fieldBits fields →
        (BitWriter.ofFields others).flush = (BitWriter.ofFields fields).flush) ∧
      let file := (BitWriter.ofFields fields).flush ++ 0xFF :: marker :: after
      let answers := slices (padded (fieldBits fields)) 0 looks
      (∃ left, looks.mapM BitReader.look (BitReader.ofBytes file) = .ok answers left) ∧
      (file.length < 2 ^ 63 →
        ∃ left, looks.mapM (Checked.BufferedReader.look file)
          (Checked.BufferedReader.ofPosition 0) = .ok (answers, left)) := by
  obtain ⟨data, flushed, filled⟩ := flush_ofFields fields
  have carried : Carries { marker := marker, after := after }
      (stuffed data ++ 0xFF :: marker :: after) data :=
    carries_stuffed notStuffing notFill data
  have supplied := BitReader.supplies_ofBytes carried
  rw [filled, ← List.drop_zero (l := padded (fieldBits fields))] at supplied
  obtain ⟨left, answered⟩ := supplied.looks looks
  rw [← flushed] at answered
  refine ⟨data, filled, flushed, ?_, ?_, ⟨left, answered⟩, ?_⟩
  · rw [Checked.BufferedWriter.writeFields_eq_ok, flushed]
  · intro others same
    obtain ⟨otherData, otherFlushed, otherFilled⟩ := flush_ofFields others
    rw [same, ← filled] at otherFilled
    rw [otherFlushed, flushed, byteBits_injective otherFilled]
  · intro addressable
    exact Checked.BufferedReader.looks_eq_ok addressable looks answered

/-- Fields that cross bytes, with two full bytes among them and an unfilled one at the end. -/
def sixFields : List BitField :=
  [{ value := 1, count := 1, short := by decide },
    { value := 0x3FF, count := 10, short := by decide },
    { value := 0, count := 5, short := by decide },
    { value := 0xFFFF, count := 16, short := by decide },
    { value := 0x55, count := 7, short := by decide },
    { value := 2, count := 2, short := by decide }]

def mixedLooks : List BitLook :=
  [{ count := 16, consumes := false, some := by decide, short := by decide },
    { count := 9, consumes := true, some := by decide, short := by decide },
    { count := 16, consumes := true, some := by decide, short := by decide },
    { count := 16, consumes := true, some := by decide, short := by decide },
    { count := 16, consumes := false, some := by decide, short := by decide },
    { count := 7, consumes := true, some := by decide, short := by decide },
    { count := 3, consumes := true, some := by decide, short := by decide }]

theorem fields_carried_sixFields :
    (0xD9 : UInt8) ≠ 0 ∧ (0xD9 : UInt8) ≠ 0xFF ∧
      (BitWriter.ofFields sixFields).flush = [0xFF, 0, 0xE0, 0xFF, 0, 0xFF, 0, 0xAB, 0x7F] ∧
      ∃ left, mixedLooks.mapM BitReader.look
          (BitReader.ofBytes [0xFF, 0, 0xE0, 0xFF, 0, 0xFF, 0, 0xAB, 0x7F, 0xFF, 0xD9]) =
        .ok [0xFFE0, 0x1FF, 0xC1FF, 0xFF56, 0xFE00, 0x7F, 0] left := by
  have flushed : (BitWriter.ofFields sixFields).flush =
      [0xFF, 0, 0xE0, 0xFF, 0, 0xFF, 0, 0xAB, 0x7F] := by
    decide +kernel
  have answers : slices (padded (fieldBits sixFields)) 0 mixedLooks =
      [0xFFE0, 0x1FF, 0xC1FF, 0xFF56, 0xFE00, 0x7F, 0] := by
    decide +kernel
  obtain ⟨_, -, -, -, -, answered, -⟩ :=
    fields_carried sixFields 0xD9 (by decide) (by decide) [] mixedLooks
  rw [flushed, answers] at answered
  exact ⟨by decide, by decide, flushed, answered⟩

end LosslessJpeg
