import LosslessJpeg.Proofs.Marker.Truncation

set_option autoImplicit false

/-!
Putting a segment into a file in front of one of its entries. A walk over the file comes to
the new segment there, and to the old entries that much later; the entropy-coded data of every
scan stays the same, since the new segment closes data just as the marker behind it does.
-/

namespace LosslessJpeg

def Entry.shift (distance : Nat) (entry : Entry) : Entry :=
  { entry with offset := entry.offset + distance }

def Cursor.shift (distance : Nat) (cursor : Cursor) : Cursor :=
  { cursor with offset := cursor.offset + distance }

def FileWalk.shift (distance : Nat) (walk : FileWalk) : FileWalk :=
  { entries := walk.entries.map (Entry.shift distance)
    scanStarts := walk.scanStarts.map (· + distance) }

theorem Entry.map_segment_shift (distance : Nat) (entries : List Entry) :
    (entries.map (Entry.shift distance)).map Entry.segment = entries.map Entry.segment := by
  rw [List.map_map]
  rfl

section Shift

variable {offset : Nat} {bytes : List UInt8} {entry : Entry} {cursor : Cursor}

private theorem entryAt_shift {marker : UInt8}
    (found : entryAt offset marker bytes = .ok (entry, cursor)) (distance : Nat) :
    entryAt (offset + distance) marker bytes =
      .ok (entry.shift distance, cursor.shift distance) := by
  refine entryAt_eq_ok_iff.mpr ?_
  rcases entryAt_eq_ok_iff.mp found with
    ⟨alone, rfl, rfl⟩ | ⟨inner, high, low, behind, same, length, whole, rfl⟩
  · refine Or.inl ⟨alone, rfl, ?_⟩
    unfold Cursor.shift
    rw [Nat.add_right_comm]
  · refine Or.inr ⟨inner, high, low, behind, same, length, ?_, ?_⟩
    · rw [whole]
      rfl
    · unfold Cursor.shift Entry.shift
      dsimp only
      congr 1
      omega

theorem nextEntry_shift (found : nextEntry offset bytes = .ok (entry, cursor)) (distance : Nat) :
    nextEntry (offset + distance) bytes = .ok (entry.shift distance, cursor.shift distance) := by
  obtain ⟨gap, rest, same, stands, ⟨notFill, notStuffing⟩, there, each⟩ := nextEntry_eq_ok found
  rw [same, each, nextEntry_marker notFill notStuffing, Nat.add_right_comm, ← stands]
  exact entryAt_shift there distance

theorem skipScanData_shift (found : skipScanData offset bytes = .ok cursor) (distance : Nat) :
    skipScanData (offset + distance) bytes = .ok (cursor.shift distance) := by
  fun_induction skipScanData offset bytes with
  | case1 offset first next rest skipped inductionHypothesis =>
      rw [skipScanData, if_pos skipped, Nat.add_right_comm]
      exact inductionHypothesis found
  | case2 offset first next rest paired inside inductionHypothesis =>
      rw [skipScanData, if_neg paired, if_pos inside, Nat.add_right_comm]
      exact inductionHypothesis found
  | case3 offset first next rest paired outside =>
      cases found
      rw [skipScanData, if_neg paired, if_neg outside]
      rfl
  | case4 => cases found

theorem WalksFrom.shift {walk : FileWalk} (walks : WalksFrom cursor walk) (distance : Nat) :
    WalksFrom (cursor.shift distance) (walk.shift distance) := by
  induction walks with
  | ends found isEnd => exact .ends (nextEntry_shift found distance) isEnd
  | @scan cursor next stop entry others found isScan skipped later inductionHypothesis =>
      have moved : nextEntry (cursor.shift distance).offset (cursor.shift distance).rest =
          .ok (entry.shift distance, next.shift distance) := nextEntry_shift found distance
      have passed : skipScanData (next.shift distance).offset (next.shift distance).rest =
          .ok (stop.shift distance) := skipScanData_shift skipped distance
      exact .scan moved isScan passed inductionHypothesis
  | @inner cursor next entry others found notScan notEnd later inductionHypothesis =>
      have moved : nextEntry (cursor.shift distance).offset (cursor.shift distance).rest =
          .ok (entry.shift distance, next.shift distance) := nextEntry_shift found distance
      exact .inner moved notScan notEnd inductionHypothesis

end Shift

section Places

variable {offset : Nat} {bytes : List UInt8} {entry : Entry} {cursor : Cursor}

/-- A walk depends on no more than the first entry and the place behind it. -/
theorem WalksFrom.congr {other : Cursor} {walk : FileWalk} (walks : WalksFrom cursor walk)
    (same : nextEntry other.offset other.rest = nextEntry cursor.offset cursor.rest) :
    WalksFrom other walk := by
  cases walks with
  | ends found isEnd => exact .ends (same.trans found) isEnd
  | scan found isScan skipped later => exact .scan (same.trans found) isScan skipped later
  | inner found notScan notEnd later => exact .inner (same.trans found) notScan notEnd later

theorem WalksFrom.places {walk : FileWalk} (walks : WalksFrom cursor walk) :
    ∃ entry next later, nextEntry cursor.offset cursor.rest = .ok (entry, next) ∧
      walk.entries = entry :: later ∧ ∀ other ∈ later, entry.offset + 2 ≤ other.offset := by
  cases walks with
  | ends found isEnd => exact ⟨_, _, [], found, rfl, List.forall_mem_nil _⟩
  | scan found isScan skipped later =>
      obtain ⟨-, long⟩ := nextEntry_offset found
      obtain ⟨data, place, -⟩ := skipScanData_rest skipped
      refine ⟨_, _, _, found, rfl, fun other member => ?_⟩
      have further := later.beyond other member
      omega
  | inner found notScan notEnd later =>
      obtain ⟨-, long⟩ := nextEntry_offset found
      refine ⟨_, _, _, found, rfl, fun other member => ?_⟩
      have further := later.beyond other member
      omega

end Places

/-! ### Putting in a segment -/

def insertBytes (place : Nat) (chunk bytes : List UInt8) : List UInt8 :=
  bytes.take place ++ chunk ++ bytes.drop place

theorem insertBytes_append (front rest chunk : List UInt8) (place : Nat) :
    insertBytes (front.length + place) chunk (front ++ rest) =
      front ++ insertBytes place chunk rest := by
  unfold insertBytes
  rw [List.take_length_add_append, List.drop_length_add_append]
  simp only [List.append_assoc]

theorem insertBytes_length (front rest chunk : List UInt8) :
    insertBytes front.length chunk (front ++ rest) = front ++ (chunk ++ rest) := by
  unfold insertBytes
  rw [List.take_left' rfl, List.drop_left' rfl, List.append_assoc]

def Cursor.insert (place : Nat) (chunk : List UInt8) (cursor : Cursor) : Cursor :=
  { cursor with rest := insertBytes place chunk cursor.rest }

theorem Cursor.insert_behind {cursor next : Cursor} {front : List UInt8}
    (same : cursor.rest = front ++ next.rest) (place : Nat) (chunk : List UInt8) :
    (cursor.insert (front.length + place) chunk).rest =
      front ++ insertBytes place chunk next.rest := by
  unfold Cursor.insert
  dsimp only
  rw [same, insertBytes_append]

/-- The same entropy-coded data begins at two places, one behind each cursor. -/
def SameDataAt (cursor other : Cursor) (start otherStart : Nat) : Prop :=
  ∃ passed otherPassed, start = cursor.offset + passed ∧ otherStart = other.offset + otherPassed ∧
    SameScanData (cursor.rest.drop passed) (other.rest.drop otherPassed)

theorem SameDataAt.passed {cursor other next otherNext : Cursor} {start otherStart : Nat}
    (same : SameDataAt next otherNext start otherStart) (front : List UInt8)
    (rest : cursor.rest = front ++ next.rest) (otherRest : other.rest = front ++ otherNext.rest)
    (place : next.offset = cursor.offset + front.length)
    (otherPlace : otherNext.offset = other.offset + front.length) :
    SameDataAt cursor other start otherStart := by
  obtain ⟨passed, otherPassed, begins, otherBegins, data⟩ := same
  refine ⟨front.length + passed, front.length + otherPassed, by omega, by omega, ?_⟩
  rw [rest, otherRest, List.drop_length_add_append, List.drop_length_add_append]
  exact data

def Segment.entry (segment : Segment) (offset : Nat) : Entry :=
  { marker := segment.marker
    body := segment.body
    offset := offset }

section Inserting

variable {segment : Segment} {chunk : List UInt8} {cursor : Cursor} {walk : FileWalk}
  {entry : Entry} {front behind : List Entry}

private theorem segmentBytes_front (written : segmentBytes segment = .ok chunk) :
    ∃ rest, chunk = 0xFF :: segment.marker :: rest :=
  ⟨_, (segmentBytes_eq_ok written).2⟩

/-- Data that is closed in front of an entry is closed, too, when a segment is put in there. -/
private theorem closes_insertBytes (metadata : Marker.isMetadata segment.marker = true)
    (written : segmentBytes segment = .ok chunk) {marker : UInt8}
    (closes : Marker.Closes marker) (rest : List UInt8) {place : Nat} (notInside : place ≠ 1) :
    ∃ other otherRest, insertBytes place chunk (0xFF :: marker :: rest) =
      0xFF :: other :: otherRest ∧ Marker.Closes other := by
  match place with
  | 0 =>
      obtain ⟨tail, rfl⟩ := segmentBytes_front written
      have inner := (Marker.isInner_of_isMetadata metadata).2
      refine ⟨segment.marker, tail ++ 0xFF :: marker :: rest, rfl, inner.2.1, inner.1, ?_⟩
      have notAlone := inner.2.2.1
      unfold Marker.isStandalone at notAlone
      exact Option.not_isSome_iff_eq_none.mp
        (Bool.eq_false_iff.mp (Bool.or_eq_false_iff.mp notAlone).2)
  | 1 => exact absurd rfl notInside
  | place + 2 => exact ⟨marker, _, rfl, closes⟩

private theorem place_ne_one {marker : UInt8} {rest : List UInt8} (closes : Marker.Closes marker)
    (front : cursor.rest = 0xFF :: marker :: rest) (walks : WalksFrom cursor walk)
    (member : entry ∈ walk.entries) : entry.offset ≠ cursor.offset + 1 := by
  obtain ⟨first, next, later, there, entries, beyond⟩ := walks.places
  have reached := (nextEntry_offset there).1
  rw [front, nextEntry_marker closes.1 closes.2.1] at there
  rw [entries] at member
  rcases List.mem_cons.mp member with rfl | inLater
  · have place := (entryAt_names there).2
    omega
  · have far := beyond entry inLater
    omega

private theorem WalksFrom.insert_first (metadata : Marker.isMetadata segment.marker = true)
    (written : segmentBytes segment = .ok chunk) (walks : WalksFrom cursor walk)
    (first : walk.entries = entry :: behind) :
    ∃ place other, entry.offset = cursor.offset + place ∧
      WalksFrom (cursor.insert place chunk) other ∧
      other.entries =
        segment.entry entry.offset :: (entry :: behind).map (Entry.shift chunk.length) ∧
      List.Forall₂ (SameDataAt cursor (cursor.insert place chunk)) walk.scanStarts
        other.scanStarts := by
  obtain ⟨-, inner⟩ := Marker.isInner_of_isMetadata metadata
  have walkable := inner.segment segment.body
  obtain ⟨found, next, later, there, entries, -⟩ := walks.places
  obtain ⟨rfl, rfl⟩ := List.cons.inj (entries.symm.trans first)
  obtain ⟨gap, _, same, place, -, -, each⟩ := nextEntry_eq_ok there
  obtain ⟨rest, same⟩ : ∃ rest, cursor.rest = gap ++ 0xFF :: rest := ⟨_, same⟩
  obtain ⟨tail, begins⟩ := segmentBytes_front written
  have inserted : (cursor.insert gap.length chunk).rest = gap ++ (chunk ++ 0xFF :: rest) := by
    unfold Cursor.insert
    rw [same]
    exact insertBytes_length gap (0xFF :: rest) chunk
  have passes : nextEntry cursor.offset (cursor.insert gap.length chunk).rest =
      .ok (segment.entry found.offset,
        { offset := found.offset + chunk.length, rest := 0xFF :: rest }) := by
    have reached := each cursor.offset (segment.marker :: tail ++ 0xFF :: rest)
    rw [← List.cons_append, ← begins, ← place] at reached
    rw [inserted, reached]
    exact nextEntry_segmentBytes walkable.toWalkable written found.offset (0xFF :: rest)
  -- Behind the new segment the walk goes on from the old entry itself, without the gap before it.
  have walksRest : WalksFrom { offset := found.offset, rest := 0xFF :: rest } walk :=
    walks.congr (by rw [same, each, ← place])
  refine ⟨gap.length,
    { walk.shift chunk.length with
        entries := segment.entry found.offset :: (walk.shift chunk.length).entries },
    place, ?_, ?_, ?_⟩
  · exact .inner passes walkable.notScan walkable.notEnd (walksRest.shift chunk.length)
  · rw [← first]
    rfl
  · refine List.forall₂_map_right_iff.mpr (List.forall₂_same.mpr fun start member => ?_)
    obtain ⟨passed, begins, stop, ends⟩ := walksRest.ends_scans start member
    obtain ⟨_, -, data⟩ := skipScanData_same ends
    refine ⟨gap.length + passed, gap.length + (chunk.length + passed), ?_, ?_, ?_⟩
    · rw [begins, place, Nat.add_assoc]
    · change start + chunk.length = cursor.offset + _
      rw [begins, place]
      simp only [Nat.add_assoc, Nat.add_comm passed]
    · rw [inserted, same, List.drop_length_add_append, List.drop_length_add_append,
        List.drop_length_add_append]
      exact data _ rfl

/-- The data of a scan stays as it is when a segment is put in somewhere behind it: the marker that
closes the data is not torn apart. -/
private theorem skipScanData_insert (metadata : Marker.isMetadata segment.marker = true)
    (written : segmentBytes segment = .ok chunk) {stop : Cursor} {place : Nat}
    (skipped : skipScanData cursor.offset cursor.rest = .ok stop) (later : WalksFrom stop walk)
    (member : entry ∈ walk.entries) (stands : entry.offset = stop.offset + place) :
    ∃ data, cursor.rest = data ++ stop.rest ∧ stop.offset = cursor.offset + data.length ∧
      skipScanData cursor.offset (data ++ insertBytes place chunk stop.rest) =
        .ok (stop.insert place chunk) ∧
      SameScanData cursor.rest (data ++ insertBytes place chunk stop.rest) := by
  obtain ⟨data, marker, rest, same, closes, rfl, each⟩ := skipScanData_exchange skipped
  have notInside : place ≠ 1 := by
    rintro rfl
    exact place_ne_one closes rfl later member stands
  obtain ⟨otherMarker, otherRest, closing, otherCloses⟩ :=
    closes_insertBytes metadata written closes rest notInside
  obtain ⟨skips, sameScan⟩ := each otherMarker otherRest otherCloses
  rw [← closing] at skips sameScan
  exact ⟨data, same, rfl, skips, sameScan⟩

theorem WalksFrom.insert (metadata : Marker.isMetadata segment.marker = true)
    (written : segmentBytes segment = .ok chunk) (walks : WalksFrom cursor walk)
    (split : walk.entries = front ++ entry :: behind) :
    ∃ place other, entry.offset = cursor.offset + place ∧
      WalksFrom (cursor.insert place chunk) other ∧
      other.entries = front ++ segment.entry entry.offset ::
        (entry :: behind).map (Entry.shift chunk.length) ∧
      List.Forall₂ (SameDataAt cursor (cursor.insert place chunk)) walk.scanStarts
        other.scanStarts := by
  -- Induction on the entries in front. Each is taken as before, as long as the bytes that it looks
  -- at are the same.
  induction front generalizing cursor walk with
  | nil => exact walks.insert_first metadata written split
  | cons head front inductionHypothesis =>
      cases walks with
      | ends found isEnd =>
          exact absurd (List.cons.inj split).2.symm
            (List.append_ne_nil_of_right_ne_nil _ (List.cons_ne_nil _ _))
      | @scan _ next stop found others there isScan skipped later =>
          obtain ⟨taken, same, reached, usesUp⟩ := nextEntry_usesUp there
          obtain ⟨rfl, splitLater⟩ := List.cons.inj split
          obtain ⟨place, other, stands, walksOther, entries, starts⟩ :=
            inductionHypothesis later splitLater
          obtain ⟨data, sameData, passed, skips, sameScan⟩ :=
            skipScanData_insert metadata written skipped later
              (splitLater ▸ List.mem_append_right front List.mem_cons_self) stands
          have whole : cursor.rest = (taken ++ data) ++ stop.rest := by
            rw [same, sameData, List.append_assoc]
          have further : stop.offset = cursor.offset + (taken ++ data).length := by
            rw [passed, reached, List.length_append, Nat.add_assoc]
          have inserted := Cursor.insert_behind whole place chunk
          have passes := usesUp.extended (data ++ insertBytes place chunk stop.rest)
          rw [← List.append_assoc, ← inserted, ← reached] at passes
          refine ⟨_, _, ?_, WalksFrom.scan passes isScan skips walksOther, ?_, ?_⟩
          · rw [stands, further, Nat.add_assoc]
          · exact congrArg (found :: ·) entries
          · refine List.Forall₂.cons ⟨taken.length, taken.length, reached, reached, ?_⟩
              (starts.imp fun start otherStart begins =>
                begins.passed (taken ++ data) whole inserted further further)
            rw [inserted, same, List.append_assoc, List.drop_left' rfl, List.drop_left' rfl]
            exact sameScan
      | @inner _ next found others there notScan notEnd later =>
          obtain ⟨taken, same, reached, usesUp⟩ := nextEntry_usesUp there
          obtain ⟨rfl, splitLater⟩ := List.cons.inj split
          obtain ⟨place, other, stands, walksOther, entries, starts⟩ :=
            inductionHypothesis later splitLater
          have inserted := Cursor.insert_behind same place chunk
          have passes := usesUp.extended (insertBytes place chunk next.rest)
          rw [← inserted, ← reached] at passes
          refine ⟨_, _, ?_, WalksFrom.inner passes notScan notEnd walksOther, ?_, ?_⟩
          · rw [stands, reached, Nat.add_assoc]
          · exact congrArg (found :: ·) entries
          · exact starts.imp fun start otherStart begins =>
              begins.passed taken same inserted reached reached

/-- Putting in a segment in front of an entry of a file other than its first. The walk over
the new file finds the same entropy-coded data behind every scan header. -/
theorem walkFile_insert {file : List UInt8}
    (metadata : Marker.isMetadata segment.marker = true)
    (written : segmentBytes segment = .ok chunk) (walked : walkFile file = .ok walk)
    (split : walk.entries = front ++ entry :: behind) (notFirst : front ≠ []) :
    ∃ other, walkFile (insertBytes entry.offset chunk file) = .ok other ∧
      other.entries = front ++ segment.entry entry.offset ::
        (entry :: behind).map (Entry.shift chunk.length) ∧
      List.Forall₂ (fun start otherStart => SameScanData (file.drop start)
        ((insertBytes entry.offset chunk file).drop otherStart)) walk.scanStarts
          other.scanStarts := by
  obtain ⟨head, front, rfl⟩ := List.exists_cons_of_ne_nil notFirst
  obtain ⟨⟨start, cursor⟩, started, rest⟩ := bind_eq_ok walked
  obtain ⟨others, later, last⟩ := bind_eq_ok rest
  cases last
  obtain ⟨rfl, splitLater⟩ := List.cons.inj split
  obtain ⟨place, other, stands, walksOther, entries, starts⟩ :=
    (walksFrom_of_fileEntries later).insert metadata written splitLater
  obtain ⟨behindStart, rfl, rfl, rfl⟩ := afterStart_eq_ok started
  have inserted : insertBytes entry.offset chunk (0xFF :: Marker.startOfImage :: behindStart) =
      0xFF :: Marker.startOfImage :: insertBytes place chunk behindStart := by
    rw [stands]
    exact insertBytes_append [0xFF, Marker.startOfImage] behindStart chunk place
  rw [inserted]
  refine ⟨_, bind_of_ok (fileEntries_of_walksFrom walksOther), congrArg _ entries, starts.imp ?_⟩
  rintro start otherStart ⟨passed, otherPassed, rfl, rfl, data⟩
  change SameScanData (([0xFF, Marker.startOfImage] ++ behindStart).drop (2 + passed))
    (([0xFF, Marker.startOfImage] ++ insertBytes place chunk behindStart).drop (2 + otherPassed))
  rw [← List.drop_drop, ← List.drop_drop]
  exact data

end Inserting

end LosslessJpeg
