import LosslessJpeg.Proofs.Marker.Entries
import Mathlib.Data.List.TakeDrop

set_option autoImplicit false

/-!
The entropy-coded data at the front of a byte string, up to the marker that closes it. The
bytes behind this marker play no part in where the data ends.
-/

namespace LosslessJpeg

def Marker.Closes (marker : UInt8) : Prop :=
  marker ≠ 0xFF ∧ marker ≠ 0 ∧ restartNumber? marker = none

instance (marker : UInt8) : Decidable (Marker.Closes marker) :=
  inferInstanceAs (Decidable (_ ∧ _))

/-- Two byte strings that hold the same entropy-coded data, each with a marker that closes
it and with anything behind. -/
inductive SameScanData : List UInt8 → List UInt8 → Prop
  | plain {byte : UInt8} {rest other : List UInt8} (ordinary : byte ≠ 0xFF)
      (following : SameScanData rest other) : SameScanData (byte :: rest) (byte :: other)
  | fill {rest other : List UInt8} (following : SameScanData (0xFF :: rest) (0xFF :: other)) :
      SameScanData (0xFF :: 0xFF :: rest) (0xFF :: 0xFF :: other)
  | stuffed {rest other : List UInt8} (following : SameScanData rest other) :
      SameScanData (0xFF :: 0 :: rest) (0xFF :: 0 :: other)
  | restart {marker : UInt8} {number : Nat} {rest other : List UInt8}
      (numbered : Marker.restartNumber? marker = some number)
      (following : SameScanData rest other) :
      SameScanData (0xFF :: marker :: rest) (0xFF :: marker :: other)
  | closed {marker otherMarker : UInt8} {rest other : List UInt8}
      (closes : Marker.Closes marker) (otherCloses : Marker.Closes otherMarker) :
      SameScanData (0xFF :: marker :: rest) (0xFF :: otherMarker :: other)

theorem Marker.ne_of_restartNumber? {marker : UInt8} {number : Nat}
    (numbered : restartNumber? marker = some number) : marker ≠ 0xFF ∧ marker ≠ 0 := by
  constructor
  · rintro rfl
    cases numbered
  · rintro rfl
    cases numbered

theorem skipScanData_exchange {offset : Nat} {bytes : List UInt8} {stop : Cursor}
    (found : skipScanData offset bytes = .ok stop) :
    ∃ data marker rest, bytes = data ++ 0xFF :: marker :: rest ∧ Marker.Closes marker ∧
      stop = { offset := offset + data.length, rest := 0xFF :: marker :: rest } ∧
      ∀ other otherRest, Marker.Closes other →
        skipScanData offset (data ++ 0xFF :: other :: otherRest) =
          .ok { offset := offset + data.length, rest := 0xFF :: other :: otherRest } ∧
        SameScanData bytes (data ++ 0xFF :: other :: otherRest) := by
  -- The marker that closes the data is looked at, but not taken, so another one does as well.
  fun_induction skipScanData offset bytes with
  | case1 offset first next rest skipped inductionHypothesis =>
      obtain ⟨data, marker, behind, same, closes, rfl, each⟩ := inductionHypothesis found
      have place : offset + 1 + data.length = offset + (first :: data).length := by
        rw [List.length_cons]
        omega
      refine ⟨first :: data, marker, behind, congrArg (first :: ·) same, closes,
        by rw [place], fun other otherRest otherCloses => ?_⟩
      obtain ⟨skips, sameData⟩ := each other otherRest otherCloses
      obtain ⟨others, front⟩ : ∃ others, data ++ 0xFF :: other :: otherRest = next :: others := by
        cases data with
        | nil => exact ⟨other :: otherRest, by rw [(List.cons.inj same).1]; rfl⟩
        | cons second data => exact ⟨_, by rw [(List.cons.inj same).1]; rfl⟩
      rw [← place, List.cons_append, front]
      rw [front] at skips sameData
      refine ⟨by rw [skipScanData, if_pos skipped, skips], ?_⟩
      by_cases ordinary : first = 0xFF
      · have filled := skipped.resolve_left (not_not.mpr ordinary)
        rw [filled] at sameData
        rw [ordinary, filled]
        exact .fill sameData
      · exact .plain ordinary sameData
  | case2 offset first next rest paired inside inductionHypothesis =>
      obtain ⟨data, marker, behind, same, closes, rfl, each⟩ := inductionHypothesis found
      have place : offset + 2 + data.length = offset + (first :: next :: data).length := by
        rw [List.length_cons, List.length_cons]
        omega
      refine ⟨first :: next :: data, marker, behind, congrArg (first :: next :: ·) same, closes,
        by rw [place], fun other otherRest otherCloses => ?_⟩
      obtain ⟨skips, sameData⟩ := each other otherRest otherCloses
      rw [← place, List.cons_append, List.cons_append, skipScanData, if_neg paired,
        if_pos inside]
      refine ⟨skips, ?_⟩
      obtain rfl : first = 0xFF := not_not.mp (not_or.mp paired).1
      rcases inside with stuffing | restart
      · rw [stuffing]
        exact .stuffed sameData
      · obtain ⟨number, numbered⟩ := Option.isSome_iff_exists.mp restart
        exact .restart numbered sameData
  | case3 offset first next rest paired outside =>
      cases found
      obtain ⟨full, notFill⟩ := not_or.mp paired
      obtain ⟨notStuffing, notRestart⟩ := not_or.mp outside
      obtain rfl : first = 0xFF := not_not.mp full
      have closes : Marker.Closes next :=
        ⟨notFill, notStuffing, Option.not_isSome_iff_eq_none.mp notRestart⟩
      refine ⟨[], next, rest, rfl, closes, rfl, fun other otherRest otherCloses => ⟨?_, ?_⟩⟩
      · rw [List.nil_append, skipScanData, if_neg (not_or.mpr ⟨not_not.mpr rfl, otherCloses.1⟩),
          if_neg (not_or.mpr ⟨otherCloses.2.1,
            Option.not_isSome_iff_eq_none.mpr otherCloses.2.2⟩)]
        rfl
      · exact .closed closes otherCloses
  | case4 => cases found

/-- Where the data ends, counted from its front. All that follows the closing marker may be
exchanged. -/
theorem skipScanData_same {offset : Nat} {bytes : List UInt8} {cursor : Cursor}
    (found : skipScanData offset bytes = .ok cursor) :
    ∃ length, cursor.offset = offset + length ∧ ∀ other : List UInt8,
      other.take (length + 2) = bytes.take (length + 2) → SameScanData bytes other := by
  obtain ⟨data, marker, rest, rfl, closes, rfl, each⟩ := skipScanData_exchange found
  refine ⟨data.length, rfl, fun other front => ?_⟩
  have split := List.take_append_drop (data.length + 2) other
  rw [front, List.take_length_add_append, List.append_assoc] at split
  rw [← split]
  exact (each marker _ closes).2

theorem sameScanData_drop {file other : List UInt8} {start : Nat} {cursor : Cursor}
    (found : skipScanData start (file.drop start) = .ok cursor)
    (same : other.take (cursor.offset + 2) = file.take (cursor.offset + 2)) :
    SameScanData (file.drop start) (other.drop start) := by
  obtain ⟨length, stop, each⟩ := skipScanData_same found
  apply each
  rw [List.take_drop, List.take_drop, ← Nat.add_assoc, ← stop, same]

theorem skipScanData_rest {offset : Nat} {bytes : List UInt8} {cursor : Cursor}
    (found : skipScanData offset bytes = .ok cursor) :
    ∃ length, cursor.offset = offset + length ∧ cursor.rest = bytes.drop length := by
  fun_induction skipScanData offset bytes with
  | case1 offset first next rest skipped inductionHypothesis =>
      obtain ⟨length, place, behind⟩ := inductionHypothesis found
      exact ⟨length + 1, by omega, behind⟩
  | case2 offset first next rest paired inside inductionHypothesis =>
      obtain ⟨length, place, behind⟩ := inductionHypothesis found
      exact ⟨length + 2, by omega, behind⟩
  | case3 =>
      cases found
      exact ⟨0, rfl, rfl⟩
  | case4 => cases found

def Cursor.In (file : List UInt8) (cursor : Cursor) : Prop :=
  cursor.rest = file.drop cursor.offset

theorem Cursor.In.advance {file : List UInt8} {cursor next : Cursor} {length : Nat}
    (inFile : cursor.In file) (place : next.offset = cursor.offset + length)
    (behind : next.rest = cursor.rest.drop length) : next.In file := by
  unfold In at inFile ⊢
  rw [behind, inFile, List.drop_drop, place]

theorem afterStart_in {file : List UInt8} {entry : Entry} {cursor : Cursor}
    (started : afterStart file = .ok (entry, cursor)) : cursor.In file := by
  obtain ⟨rest, rfl, -, rfl⟩ := afterStart_eq_ok started
  rfl

theorem WalksFrom.beyond {cursor : Cursor} {walk : FileWalk} (walks : WalksFrom cursor walk) :
    ∀ entry ∈ walk.entries, cursor.offset ≤ entry.offset := by
  induction walks with
  | ends found isEnd => exact List.forall_mem_singleton.mpr (nextEntry_offset found).1
  | scan found isScan skipped later inductionHypothesis =>
      obtain ⟨ahead, long⟩ := nextEntry_offset found
      obtain ⟨data, place, -⟩ := skipScanData_rest skipped
      refine List.forall_mem_cons.mpr ⟨ahead, fun other member => ?_⟩
      have further := inductionHypothesis other member
      omega
  | inner found notScan notEnd later inductionHypothesis =>
      obtain ⟨ahead, long⟩ := nextEntry_offset found
      refine List.forall_mem_cons.mpr ⟨ahead, fun other member => ?_⟩
      have further := inductionHypothesis other member
      omega

theorem WalksFrom.ends_scans {cursor : Cursor} {walk : FileWalk} (walks : WalksFrom cursor walk) :
    ∀ start ∈ walk.scanStarts, ∃ passed, start = cursor.offset + passed ∧
      ∃ stop, skipScanData start (cursor.rest.drop passed) = .ok stop := by
  induction walks with
  | ends found isEnd => exact List.forall_mem_nil _
  | @scan cursor next stop entry others found isScan skipped later inductionHypothesis =>
      obtain ⟨length, place, behind⟩ := nextEntry_rest found
      obtain ⟨data, stopPlace, stopBehind⟩ := skipScanData_rest skipped
      intro start member
      rcases List.mem_cons.mp member with rfl | inOthers
      · exact ⟨length, place, stop, behind ▸ skipped⟩
      · obtain ⟨passed, begins, ends⟩ := inductionHypothesis start inOthers
        refine ⟨length + (data + passed), by omega, ?_⟩
        rw [stopBehind, behind, List.drop_drop, List.drop_drop] at ends
        exact ends
  | inner found notScan notEnd later inductionHypothesis =>
      obtain ⟨length, place, behind⟩ := nextEntry_rest found
      intro start member
      obtain ⟨passed, begins, ends⟩ := inductionHypothesis start member
      refine ⟨length + passed, by omega, ?_⟩
      rw [behind, List.drop_drop] at ends
      exact ends

theorem walkFile_scanStarts {file : List UInt8} {walk : FileWalk}
    (walked : walkFile file = .ok walk) :
    ∀ start ∈ walk.scanStarts, ∃ stop, skipScanData start (file.drop start) = .ok stop := by
  obtain ⟨⟨entry, cursor⟩, started, rest⟩ := bind_eq_ok walked
  obtain ⟨others, later, last⟩ := bind_eq_ok rest
  cases last
  intro start member
  obtain ⟨passed, rfl, ends⟩ := (walksFrom_of_fileEntries later).ends_scans start member
  have inFile : cursor.rest = file.drop cursor.offset := afterStart_in started
  rw [inFile, List.drop_drop] at ends
  exact ends

end LosslessJpeg
