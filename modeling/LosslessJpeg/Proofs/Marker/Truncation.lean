import LosslessJpeg.Proofs.Marker.ScanData
import LosslessJpeg.Proofs.Marker.WrittenFile

set_option autoImplicit false

/-!
How much of a byte string a walk over it uses up. What lies behind makes no difference, and
every shorter front lacks data.
-/

namespace LosslessJpeg

/-- Reading uses up exactly `front` and leaves what is behind it, as `result` tells. -/
structure UsesUp {α : Type} (read : List UInt8 → Except CodecError α) (front : List UInt8)
    (result : List UInt8 → α) : Prop where
  extended : ∀ behind, read (front ++ behind) = .ok (result behind)
  truncated : ∀ length < front.length, read (front.take length) = .error .unexpectedEnd

namespace UsesUp

variable {α β : Type} {read : List UInt8 → Except CodecError α} {front : List UInt8}
  {result : List UInt8 → α}

/-- Reading that passes over some bytes and then goes on with others uses up both. It may look
at the first of the others, as long as it is there. -/
theorem passing {whole : List UInt8 → Except CodecError β} {final : List UInt8 → β}
    (usesUp : UsesUp read front result) (passed : List UInt8) (change : α → β)
    (goesOn : ∀ rest, (∀ next other, front.head? = some next → rest.head? = some other →
        other = next) → whole (passed ++ rest) = change <$> read rest)
    (tooShort : ∀ length < passed.length, whole (passed.take length) = .error .unexpectedEnd)
    (ends : ∀ behind, final behind = change (result behind)) :
    UsesUp whole (passed ++ front) final where
  extended := by
    intro behind
    rw [List.append_assoc, goesOn, usesUp.extended, ends]
    · rfl
    · intro next other isFirst found
      rw [List.head?_append, isFirst, Option.some_or] at found
      exact (Option.some.inj found).symm
  truncated := by
    intro length inside
    rw [List.length_append] at inside
    by_cases short : length < passed.length
    · rw [List.take_append_of_le_length (Nat.le_of_lt short)]
      exact tooShort length short
    · rw [List.take_append, List.take_of_length_le (Nat.not_lt.mp short), goesOn,
        usesUp.truncated _ (by omega)]
      · rfl
      · intro next other isFirst found
        rw [List.head?_take] at found
        split at found
        · cases found
        · exact Option.some.inj (found.symm.trans isFirst)

theorem head?_eq (usesUp : UsesUp read front result) (needs : ∀ value, read [] ≠ .ok value)
    {first : UInt8} {rest behind : List UInt8} (same : first :: rest = front ++ behind) :
    front.head? = some first := by
  cases front with
  | nil => exact absurd (usesUp.extended []) (needs _)
  | cons other others => exact congrArg some (List.cons.inj same).1.symm

/-- Reading leaves the bytes `ahead`, which what is done next takes up again. -/
theorem beforeAgain {next : α → Except CodecError β} {data ahead more : List UInt8}
    {place : List UInt8 → α} {final : List UInt8 → β}
    (usesUp : UsesUp read (data ++ ahead) fun behind => place (ahead ++ behind))
    (later : UsesUp (fun rest => next (place rest)) (ahead ++ more) final) :
    UsesUp (fun bytes => read bytes >>= next) (data ++ (ahead ++ more)) final where
  extended := by
    intro behind
    rw [← List.append_assoc data, List.append_assoc (data ++ ahead),
      bind_of_ok (usesUp.extended _), ← List.append_assoc ahead]
    exact later.extended behind
  truncated := by
    intro length inside
    rw [← List.append_assoc data] at inside ⊢
    rw [List.length_append] at inside
    by_cases short : length < (data ++ ahead).length
    · rw [List.take_append_of_le_length (Nat.le_of_lt short), usesUp.truncated length short]
      rfl
    · obtain ⟨kept, rfl⟩ := Nat.exists_eq_add_of_le (Nat.not_lt.mp short)
      rw [List.take_length_add_append, bind_of_ok (usesUp.extended _),
        ← List.take_length_add_append kept]
      refine later.truncated _ ?_
      rw [List.length_append]
      omega

theorem length_le (usesUp : UsesUp read front result) {needed : Nat}
    (needs : ∀ bytes value, bytes.length < needed → read bytes ≠ .ok value) :
    needed ≤ front.length := by
  by_contra short
  have done := usesUp.extended []
  rw [List.append_nil] at done
  exact needs front _ (Nat.not_le.mp short) done

theorem eq_result {bytes behind : List UInt8} {value : α} (usesUp : UsesUp read front result)
    (found : read bytes = .ok value) (same : bytes = front ++ behind) : value = result behind := by
  rw [same, usesUp.extended] at found
  exact (Except.ok.inj found).symm

end UsesUp

private theorem entryAt_usesUp {offset : Nat} {marker : UInt8} {rest : List UInt8}
    {entry : Entry} {cursor : Cursor}
    (found : entryAt offset marker rest = .ok (entry, cursor)) :
    ∃ front, rest = front ++ cursor.rest ∧
      UsesUp (entryAt offset marker) front fun behind =>
        (entry, { offset := offset + 2 + front.length, rest := behind }) := by
  rcases entryAt_eq_ok_iff.mp found with
    ⟨alone, same, rfl⟩ | ⟨inner, high, low, behind, rfl, long, same, rfl⟩
  · exact ⟨[], rfl, fun behind => entryAt_eq_ok_iff.mpr (Or.inl ⟨alone, same, rfl⟩),
      fun length inside => absurd inside (Nat.not_lt_zero _)⟩
  · refine ⟨high :: low :: entry.body, rfl, fun other => entryAt_eq_ok_iff.mpr (Or.inr
      ⟨inner, high, low, other, rfl, long, same, ?_⟩), fun length inside => ?_⟩
    · rw [List.length_cons, List.length_cons]
      congr 1
      omega
    · unfold entryAt
      rw [if_neg (Bool.eq_false_iff.mp inner.1), if_neg (Bool.eq_false_iff.mp inner.2)]
      match length with
      | 0 => rfl
      | 1 => rfl
      | length + 2 =>
          simp only [List.length_cons] at inside
          dsimp only [List.take_succ_cons]
          rw [if_neg (by omega), if_pos]
          rw [List.length_take, List.length_take]
          omega

theorem nextEntry_of_short {offset : Nat} {bytes : List UInt8} (short : bytes.length < 2) :
    nextEntry offset bytes = .error .unexpectedEnd := by
  rcases bytes with _ | ⟨first, _ | ⟨second, rest⟩⟩
  · rfl
  · rfl
  · simp only [List.length_cons] at short
    omega

theorem skipScanData_of_short {offset : Nat} {bytes : List UInt8} (short : bytes.length < 2) :
    skipScanData offset bytes = .error .unexpectedEnd := by
  rcases bytes with _ | ⟨first, _ | ⟨second, rest⟩⟩
  · rfl
  · rfl
  · simp only [List.length_cons] at short
    omega

private theorem nextEntry_usesFront {offset : Nat} {bytes : List UInt8} {entry : Entry}
    {cursor : Cursor}
    (found : nextEntry offset bytes = .ok (entry, cursor)) :
    ∃ front, bytes = front ++ cursor.rest ∧ UsesUp (nextEntry offset) front fun behind =>
      (entry, { offset := offset + front.length, rest := behind }) := by
  -- A byte that is no 0xFF is passed over only if another one follows, so the first byte behind
  -- what is passed over has to stay the same.
  fun_induction nextEntry offset bytes with
  | case1 offset first next rest skipped inductionHypothesis =>
      obtain ⟨front, same, usesUp⟩ := inductionHypothesis found
      have second := usesUp.head?_eq (fun value done => by cases done) same
      refine ⟨[first] ++ front, congrArg (first :: ·) same,
        usesUp.passing [first] id (fun rest agrees => ?_) (fun length short => ?_)
          fun behind => ?_⟩
      · cases rest with
        | nil => rfl
        | cons other others =>
            rw [agrees next other second rfl, List.singleton_append, nextEntry, if_pos skipped,
              id_map]
      · obtain rfl : length = 0 := Nat.lt_one_iff.mp short
        rfl
      · rw [List.length_append, List.length_singleton, ← Nat.add_assoc]
        rfl
  | case2 offset first rest following inductionHypothesis =>
      obtain ⟨front, same, usesUp⟩ := inductionHypothesis found
      refine ⟨[first, 0] ++ front, congrArg (first :: 0 :: ·) same,
        usesUp.passing [first, 0] id (fun rest agrees => ?_) (fun length short => ?_)
          fun behind => ?_⟩
      · rw [id_map, List.cons_append, List.singleton_append, nextEntry, if_neg following,
          if_pos rfl]
      · exact nextEntry_of_short (Nat.lt_of_le_of_lt (List.length_take_le _ _) short)
      · rw [List.length_append, ← Nat.add_assoc]
        rfl
  | case3 offset first next rest taken different =>
      obtain ⟨front, same, usesUp⟩ := entryAt_usesUp found
      refine ⟨[first, next] ++ front, congrArg (first :: next :: ·) same,
        usesUp.passing [first, next] id (fun rest agrees => ?_) (fun length short => ?_)
          fun behind => ?_⟩
      · rw [id_map, List.cons_append, List.singleton_append, nextEntry, if_neg taken,
          if_neg different]
      · exact nextEntry_of_short (Nat.lt_of_le_of_lt (List.length_take_le _ _) short)
      · rw [List.length_append, ← Nat.add_assoc]
        rfl
  | case4 => cases found

theorem nextEntry_usesUp {cursor next : Cursor} {entry : Entry}
    (found : nextEntry cursor.offset cursor.rest = .ok (entry, next)) :
    ∃ front, cursor.rest = front ++ next.rest ∧ next.offset = cursor.offset + front.length ∧
      UsesUp (nextEntry cursor.offset) front fun behind =>
        (entry, { offset := cursor.offset + front.length, rest := behind }) := by
  obtain ⟨front, same, usesUp⟩ := nextEntry_usesFront found
  exact ⟨front, same, congrArg (·.2.offset) (usesUp.eq_result found same), usesUp⟩

theorem skipScanData_usesUp {offset : Nat} {bytes : List UInt8} {cursor : Cursor}
    (found : skipScanData offset bytes = .ok cursor) :
    ∃ data marker behind, bytes = data ++ [0xFF, marker] ++ behind ∧
      cursor.rest = 0xFF :: marker :: behind ∧
      UsesUp (skipScanData offset) (data ++ [0xFF, marker]) fun behind =>
        { offset := offset + data.length, rest := 0xFF :: marker :: behind } := by
  fun_induction skipScanData offset bytes with
  | case1 offset first next rest skipped inductionHypothesis =>
      obtain ⟨data, marker, behind, same, left, usesUp⟩ := inductionHypothesis found
      have second := usesUp.head?_eq (fun value done => by cases done) same
      refine ⟨first :: data, marker, behind, congrArg (first :: ·) same, left,
        usesUp.passing [first] id (fun rest agrees => ?_) (fun length short => ?_)
          fun behind => ?_⟩
      · cases rest with
        | nil => rfl
        | cons other others =>
            rw [agrees next other second rfl, List.singleton_append, skipScanData,
              if_pos skipped, id_map]
      · obtain rfl : length = 0 := Nat.lt_one_iff.mp short
        rfl
      · rw [List.length_cons, Nat.add_comm data.length, ← Nat.add_assoc]
        rfl
  | case2 offset first next rest paired inside inductionHypothesis =>
      obtain ⟨data, marker, behind, same, left, usesUp⟩ := inductionHypothesis found
      refine ⟨first :: next :: data, marker, behind, congrArg (first :: next :: ·) same, left,
        usesUp.passing [first, next] id (fun rest agrees => ?_) (fun length short => ?_)
          fun behind => ?_⟩
      · rw [id_map, List.cons_append, List.singleton_append, skipScanData, if_neg paired,
          if_pos inside]
      · exact skipScanData_of_short (Nat.lt_of_le_of_lt (List.length_take_le _ _) short)
      · rw [List.length_cons, List.length_cons, Nat.add_assoc, Nat.add_comm data.length,
          ← Nat.add_assoc]
        rfl
  -- The marker is needed to see that the data ends, though it is left for the walk.
  | case3 offset first next rest paired outside =>
      cases found
      obtain rfl : first = 0xFF := not_not.mp (not_or.mp paired).1
      refine ⟨[], next, rest, rfl, rfl, fun behind => ?_, fun length short => ?_⟩
      · rw [List.nil_append, List.cons_append, List.singleton_append, skipScanData,
          if_neg paired, if_neg outside]
        rfl
      · exact skipScanData_of_short (Nat.lt_of_le_of_lt (List.length_take_le _ _) short)
  | case4 => cases found

theorem headerEntries_fails {cursor : Cursor} {failure : CodecError}
    (failed : nextEntry cursor.offset cursor.rest = .error failure) :
    headerEntries cursor = .error failure := by
  rw [headerEntries]
  split
  · rename_i other found
    rw [failed] at found
    cases found
    rfl
  · rename_i found
    rw [failed] at found
    cases found

theorem fileEntries_fails {cursor : Cursor} {failure : CodecError}
    (failed : nextEntry cursor.offset cursor.rest = .error failure) :
    fileEntries cursor = .error failure := by
  rw [fileEntries]
  split
  · rename_i other found
    rw [failed] at found
    cases found
    rfl
  · rename_i found
    rw [failed] at found
    cases found

theorem headerEntries_usesUp {cursor stop : Cursor} {entries : List Entry}
    (walked : headerEntries cursor = .ok (entries, stop)) :
    ∃ front, cursor.rest = front ++ stop.rest ∧
      UsesUp (fun rest => headerEntries { offset := cursor.offset, rest := rest }) front
        fun behind => (entries, { offset := cursor.offset + front.length, rest := behind }) := by
  fun_induction headerEntries cursor generalizing entries stop with
  | case1 => cases walked
  | case2 cursor entry next found last =>
      cases walked
      obtain ⟨front, same, -, usesUp⟩ := nextEntry_usesUp found
      exact ⟨front, same, fun behind => headerEntries_last (usesUp.extended behind) last,
        fun length short => headerEntries_fails (usesUp.truncated length short)⟩
  | case3 cursor entry next found notLast inductionHypothesis =>
      obtain ⟨⟨others, after⟩, later, last⟩ := bind_eq_ok walked
      cases last
      obtain ⟨front, same, place, usesUp⟩ := nextEntry_usesUp found
      obtain ⟨more, sameMore, laterUsesUp⟩ := inductionHypothesis later
      refine ⟨front ++ more, by rw [same, sameMore, List.append_assoc],
        laterUsesUp.passing front (fun later => (entry :: later.1, later.2))
          (fun rest _ => ?_) (fun length short => ?_) fun bytes => ?_⟩
      · rw [headerEntries_goesOn (usesUp.extended rest) notLast, place]
      · exact headerEntries_fails (usesUp.truncated length short)
      · rw [List.length_append, place, Nat.add_assoc]

private theorem marker_of_endOfImage : ∀ code : Fin 256,
    MarkerKind.of (UInt8.ofNat code.val) = .endOfImage →
      UInt8.ofNat code.val = Marker.endOfImage := by
  decide +kernel

theorem Entry.marker_of_kind {entry : Entry} (last : entry.kind = .endOfImage) :
    entry.marker = Marker.endOfImage := by
  have cases := marker_of_endOfImage ⟨entry.marker.toNat, entry.marker.toNat_lt⟩
  rw [UInt8.ofNat_toNat] at cases
  exact cases last

theorem WalksFrom.usesUp {cursor : Cursor} {walk : FileWalk} (walks : WalksFrom cursor walk) :
    ∃ front behind last, cursor.rest = front ++ behind ∧
      UsesUp (fun rest => fileEntries { offset := cursor.offset, rest := rest }) front
        (fun _ => walk) ∧
      walk.entries.getLast? = some last ∧ last.marker = Marker.endOfImage ∧
      last.offset + 2 = cursor.offset + front.length := by
  induction walks with
  | @ends cursor next entry found last =>
      obtain ⟨front, same, place, usesUp⟩ := nextEntry_usesUp found
      have marked := Entry.marker_of_kind last
      refine ⟨front, next.rest, entry, same,
        ⟨fun behind => fileEntries_end (usesUp.extended behind) last,
          fun length short => fileEntries_fails (usesUp.truncated length short)⟩,
        rfl, marked, ?_⟩
      rw [← nextEntry_offset_of_alone found (by rw [marked]; rfl)]
      exact place
  | @scan cursor next stop entry others found isScan skipped later inductionHypothesis =>
      obtain ⟨front, same, place, usesUp⟩ := nextEntry_usesUp found
      obtain ⟨data, marker, following, sameData, left, skips⟩ := skipScanData_usesUp skipped
      obtain ⟨more, behind, last, sameMore, laterUsesUp, isLast, marked, stops⟩ :=
        inductionHypothesis
      have stopPlace : stop.offset = next.offset + data.length :=
        congrArg (·.offset) (skips.eq_result skipped sameData)
      -- The data ends in front of a marker, which the walk over the rest takes as well.
      have marks : 2 ≤ more.length := laterUsesUp.length_le fun bytes value short done => by
        rw [fileEntries_fails (nextEntry_of_short short)] at done
        cases done
      obtain ⟨ahead, rfl⟩ : [0xFF, marker] <+: more :=
        List.prefix_of_prefix_length_le ⟨following, left.symm⟩ ⟨behind, sameMore.symm⟩ marks
      rw [stopPlace] at laterUsesUp
      have goesOn := skips.beforeAgain laterUsesUp
      refine ⟨front ++ (data ++ ([0xFF, marker] ++ ahead)), behind, last, ?_,
        goesOn.passing front
          (fun walk =>
            { entries := entry :: walk.entries
              scanStarts := next.offset :: walk.scanStarts })
          (fun rest _ => ?_) (fun length short => ?_) fun bytes => rfl, ?_, marked, ?_⟩
      · rw [same, sameData]
        rw [left] at sameMore
        simp only [List.append_assoc]
        exact congrArg (fun rest => front ++ (data ++ rest)) sameMore
      · rw [fileEntries_passesScan (usesUp.extended rest) isScan, place]
      · exact fileEntries_fails (usesUp.truncated length short)
      · rw [List.getLast?_cons, isLast, Option.getD_some]
      · rw [stops, stopPlace, place]
        simp only [List.length_append]
        omega
  | @inner cursor next entry others found notScan notEnd later inductionHypothesis =>
      obtain ⟨front, same, place, usesUp⟩ := nextEntry_usesUp found
      obtain ⟨more, behind, last, sameMore, laterUsesUp, isLast, marked, stops⟩ :=
        inductionHypothesis
      refine ⟨front ++ more, behind, last, by rw [same, sameMore, List.append_assoc],
        laterUsesUp.passing front
          (fun walk => { walk with entries := entry :: walk.entries })
          (fun rest _ => ?_) (fun length short => ?_) fun bytes => rfl, ?_, marked, ?_⟩
      · rw [fileEntries_goesOn (usesUp.extended rest) notScan notEnd, place]
      · exact fileEntries_fails (usesUp.truncated length short)
      · rw [List.getLast?_cons, isLast, Option.getD_some]
      · rw [stops, place, List.length_append, Nat.add_assoc]

end LosslessJpeg
