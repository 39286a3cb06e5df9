import LosslessJpeg.Marker.Walk
import LosslessJpeg.Proofs.Sequencing
import Mathlib.Data.List.TakeDrop

set_option autoImplicit false

/-!
What an entry of a file is made of, and where the next one stands. Whatever lies in front of it
says nothing, and neither does what lies behind it.
-/

namespace LosslessJpeg

theorem afterStart_eq_ok {file : List UInt8} {entry : Entry} {cursor : Cursor}
    (started : afterStart file = .ok (entry, cursor)) :
    ∃ rest, file = 0xFF :: Marker.startOfImage :: rest ∧
      entry = { marker := Marker.startOfImage, body := [], offset := 0 } ∧
      cursor = { offset := 2, rest := rest } := by
  unfold afterStart at started
  split at started
  · split at started
    · rename_i first second rest opens
      cases started
      exact ⟨rest, by rw [opens.1, opens.2], rfl, rfl⟩
    · cases started
  · cases started

section Entries

variable {offset : Nat} {marker : UInt8} {rest bytes : List UInt8} {entry : Entry}
  {cursor : Cursor}

theorem entryAt_eq_ok_iff :
    entryAt offset marker rest = .ok (entry, cursor) ↔
      (Marker.isStandalone marker = true ∧
          entry = { marker := marker, body := [], offset := offset } ∧
          cursor = { offset := offset + 2, rest := rest }) ∨
        (Marker.isStandalone marker = false ∧ Marker.isUnsupported marker = false) ∧
          ∃ high low behind, rest = high :: low :: (entry.body ++ behind) ∧
            word high low = entry.body.length + 2 ∧
            entry = { marker := marker, body := entry.body, offset := offset } ∧
            cursor = { offset := offset + 4 + entry.body.length, rest := behind } := by
  unfold entryAt
  cases alone : Marker.isStandalone marker with
  | true =>
      rw [if_pos rfl]
      constructor
      · intro found
        cases found
        exact Or.inl ⟨rfl, rfl, rfl⟩
      · rintro (⟨-, rfl, rfl⟩ | ⟨⟨notAlone, -⟩, -⟩)
        · rfl
        · cases notAlone
  | false =>
      rw [if_neg Bool.false_ne_true]
      cases unsupported : Marker.isUnsupported marker with
      | true =>
          rw [if_pos rfl]
          constructor
          · intro found
            cases found
          · rintro (⟨impossible, -⟩ | ⟨⟨-, supported⟩, -⟩)
            · cases impossible
            · cases supported
      | false =>
          rw [if_neg Bool.false_ne_true]
          constructor
          · intro found
            split at found
            · rename_i high low following
              dsimp only at found
              split at found
              · cases found
              · rename_i long
                split at found
                · cases found
                · rename_i enough
                  cases found
                  rw [List.length_take] at enough
                  have full : (following.take (word high low - 2)).length = word high low - 2 :=
                    List.length_take_of_le (by omega)
                  refine Or.inr ⟨⟨rfl, rfl⟩, high, low, following.drop (word high low - 2), ?_,
                    ?_, rfl, ?_⟩
                  · rw [List.take_append_drop]
                  · rw [full]
                    omega
                  · rw [full]
                    congr 1
                    omega
            · cases found
          · rintro (⟨impossible, -⟩ | ⟨-, high, low, behind, rfl, length, same, rfl⟩)
            · cases impossible
            · dsimp only
              rw [length, Nat.add_sub_cancel, List.take_left' rfl, List.drop_left' rfl,
                if_neg (by omega), if_neg (Nat.lt_irrefl _), ← same]
              congr 3
              omega

theorem entryAt_names (found : entryAt offset marker rest = .ok (entry, cursor)) :
    entry.marker = marker ∧ entry.offset = offset := by
  rcases entryAt_eq_ok_iff.mp found with ⟨-, rfl, -⟩ | ⟨-, _, _, _, -, -, same, -⟩
  · exact ⟨rfl, rfl⟩
  · rw [same]
    exact ⟨rfl, rfl⟩

theorem nextEntry_marker (notFill : marker ≠ 0xFF) (notStuffing : marker ≠ 0) :
    nextEntry offset (0xFF :: marker :: rest) = entryAt offset marker rest := by
  rw [nextEntry, if_neg (not_or.mpr ⟨not_not.mpr rfl, notFill⟩), if_neg notStuffing]

theorem nextEntry_eq_ok (found : nextEntry offset bytes = .ok (entry, cursor)) :
    ∃ gap rest, bytes = gap ++ 0xFF :: entry.marker :: rest ∧
      entry.offset = offset + gap.length ∧ (entry.marker ≠ 0xFF ∧ entry.marker ≠ 0) ∧
      entryAt entry.offset entry.marker rest = .ok (entry, cursor) ∧
      ∀ place other, nextEntry place (gap ++ 0xFF :: other) =
        nextEntry (place + gap.length) (0xFF :: other) := by
  -- The gap is what the walk passes over. That it passes over it whatever follows is part of the
  -- induction, since each step looks at one byte more than it takes.
  fun_induction nextEntry offset bytes with
  | case1 offset first next rest skipped inductionHypothesis =>
      obtain ⟨gap, behind, same, stands, marked, there, each⟩ := inductionHypothesis found
      refine ⟨first :: gap, behind, congrArg (first :: ·) same, ?_, marked, there,
        fun place other => ?_⟩
      · rw [stands, List.length_cons, Nat.add_comm gap.length, Nat.add_assoc]
      · -- The byte that decides is the next one of the gap, or the marker behind it.
        obtain ⟨others, front⟩ : ∃ others, gap ++ 0xFF :: other = next :: others := by
          cases gap with
          | nil => exact ⟨other, by rw [(List.cons.inj same).1]; rfl⟩
          | cons second gap => exact ⟨gap ++ 0xFF :: other, by rw [(List.cons.inj same).1]; rfl⟩
        rw [List.length_cons, Nat.add_comm gap.length, ← Nat.add_assoc, ← each, List.cons_append,
          front, nextEntry, if_pos skipped]
  | case2 offset first rest following inductionHypothesis =>
      obtain ⟨gap, behind, same, stands, marked, there, each⟩ := inductionHypothesis found
      refine ⟨first :: 0 :: gap, behind, congrArg (first :: 0 :: ·) same, ?_, marked, there,
        fun place other => ?_⟩
      · rw [stands, List.length_cons, List.length_cons, Nat.add_assoc, Nat.add_assoc,
          Nat.add_comm gap.length]
      · rw [List.length_cons, List.length_cons, Nat.add_assoc, Nat.add_comm gap.length,
          ← Nat.add_assoc, ← each, List.cons_append, List.cons_append, nextEntry,
          if_neg following, if_pos rfl]
  | case3 offset first next rest taken different =>
      obtain ⟨full, notFill⟩ := not_or.mp taken
      obtain ⟨rfl, rfl⟩ := entryAt_names found
      exact ⟨[], rest, by rw [not_not.mp full]; rfl, rfl, ⟨notFill, different⟩, found,
        fun place other => rfl⟩
  | case4 => cases found

/-- An entry stands at or behind the place where it is looked for, and it has at least its
marker. -/
theorem nextEntry_offset (found : nextEntry offset bytes = .ok (entry, cursor)) :
    offset ≤ entry.offset ∧ entry.offset + 2 ≤ cursor.offset := by
  obtain ⟨gap, rest, -, stands, -, there, -⟩ := nextEntry_eq_ok found
  refine ⟨stands ▸ Nat.le_add_right _ _, ?_⟩
  rcases entryAt_eq_ok_iff.mp there with ⟨-, -, rfl⟩ | ⟨-, _, _, _, -, -, -, rfl⟩
  · exact Nat.le_refl _
  · dsimp only
    omega

theorem nextEntry_offset_of_alone (found : nextEntry offset bytes = .ok (entry, cursor))
    (alone : Marker.isStandalone entry.marker = true) : cursor.offset = entry.offset + 2 := by
  obtain ⟨gap, rest, -, -, -, there, -⟩ := nextEntry_eq_ok found
  rcases entryAt_eq_ok_iff.mp there with ⟨-, -, rfl⟩ | ⟨⟨notAlone, -⟩, -⟩
  · rfl
  · exact absurd alone (Bool.eq_false_iff.mp notAlone)

theorem nextEntry_rest (found : nextEntry offset bytes = .ok (entry, cursor)) :
    ∃ length, cursor.offset = offset + length ∧ cursor.rest = bytes.drop length := by
  obtain ⟨gap, rest, same, stands, -, there, -⟩ := nextEntry_eq_ok found
  rw [same]
  rcases entryAt_eq_ok_iff.mp there with ⟨-, -, rfl⟩ | ⟨-, high, low, behind, rfl, -, -, rfl⟩
  · refine ⟨gap.length + 2, by dsimp only; omega, ?_⟩
    rw [List.drop_length_add_append]
    rfl
  · refine ⟨gap.length + (4 + entry.body.length), by dsimp only; omega, ?_⟩
    rw [List.drop_length_add_append, Nat.add_comm 4]
    exact (List.drop_left' rfl).symm

theorem nextEntry_body (found : nextEntry offset bytes = .ok (entry, cursor)) :
    entry.body.length ≤ 65533 := by
  obtain ⟨gap, rest, -, -, -, there, -⟩ := nextEntry_eq_ok found
  rcases entryAt_eq_ok_iff.mp there with ⟨-, empty, -⟩ | ⟨-, high, low, _, -, length, -⟩
  · rw [empty]
    exact Nat.zero_le _
  · have bound := word_lt high low
    omega

end Entries

/-- The course of a walk from a place to the end of the image. -/
inductive WalksFrom : Cursor → FileWalk → Prop
  | ends {cursor next : Cursor} {entry : Entry}
      (found : nextEntry cursor.offset cursor.rest = .ok (entry, next))
      (isEnd : entry.kind = .endOfImage) :
      WalksFrom cursor { entries := [entry], scanStarts := [] }
  | scan {cursor next stop : Cursor} {entry : Entry} {others : FileWalk}
      (found : nextEntry cursor.offset cursor.rest = .ok (entry, next))
      (isScan : entry.kind = .scan) (skipped : skipScanData next.offset next.rest = .ok stop)
      (later : WalksFrom stop others) :
      WalksFrom cursor
        { entries := entry :: others.entries
          scanStarts := next.offset :: others.scanStarts }
  | inner {cursor next : Cursor} {entry : Entry} {others : FileWalk}
      (found : nextEntry cursor.offset cursor.rest = .ok (entry, next))
      (notScan : entry.kind ≠ .scan) (notEnd : entry.kind ≠ .endOfImage)
      (later : WalksFrom next others) :
      WalksFrom cursor { others with entries := entry :: others.entries }

theorem walksFrom_of_fileEntries {cursor : Cursor} {walk : FileWalk}
    (walked : fileEntries cursor = .ok walk) : WalksFrom cursor walk := by
  fun_induction fileEntries cursor generalizing walk with
  | case1 => cases walked
  | case2 cursor entry next found isEnd =>
      cases walked
      exact .ends found isEnd
  | case3 => cases walked
  | case4 cursor entry next found inner isScan stop skipped inductionHypothesis =>
      obtain ⟨others, later, last⟩ := bind_eq_ok walked
      cases last
      exact .scan found isScan skipped (inductionHypothesis later)
  | case5 cursor entry next found notEnd notScan inductionHypothesis =>
      obtain ⟨others, later, last⟩ := bind_eq_ok walked
      cases last
      exact .inner found notScan notEnd (inductionHypothesis later)

end LosslessJpeg
