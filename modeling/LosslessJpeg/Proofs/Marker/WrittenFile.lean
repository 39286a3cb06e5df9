import LosslessJpeg.Marker.Walk
import LosslessJpeg.Proofs.Bits.Writing
import LosslessJpeg.Proofs.Bytes
import LosslessJpeg.Proofs.Marker.Entries

set_option autoImplicit false

/-!
Walking a file that has been written as segments, the data of one scan and the end of the
image: the walk comes to these segments and to nothing else.
-/

namespace LosslessJpeg

structure Segment.Walkable (segment : Segment) : Prop where
  notStuffing : segment.marker ≠ 0
  notFill : segment.marker ≠ 0xFF
  notAlone : Marker.isStandalone segment.marker = false
  supported : Marker.isUnsupported segment.marker = false

theorem segmentBytes_eq_ok {segment : Segment} {bytes : List UInt8}
    (written : segmentBytes segment = .ok bytes) :
    segment.body.length ≤ 65533 ∧
      bytes = 0xFF :: segment.marker :: wordBytes (segment.body.length + 2) ++
        segment.body := by
  unfold segmentBytes at written
  split at written
  · cases written
  · cases written
    exact ⟨by omega, rfl⟩

theorem segmentBytes_of_length {segment : Segment} (short : segment.body.length ≤ 65533) :
    ∃ bytes, segmentBytes segment = .ok bytes := by
  unfold segmentBytes
  rw [if_neg (by omega)]
  exact ⟨_, rfl⟩

theorem nextEntry_segmentBytes {segment : Segment} {bytes : List UInt8}
    (walkable : segment.Walkable) (written : segmentBytes segment = .ok bytes)
    (offset : Nat) (rest : List UInt8) :
    nextEntry offset (bytes ++ rest) =
      .ok
        ({ marker := segment.marker
           body := segment.body
           offset := offset },
         { offset := offset + bytes.length
           rest := rest }) := by
  obtain ⟨short, rfl⟩ := segmentBytes_eq_ok written
  have length : word (UInt8.ofNat ((segment.body.length + 2) / 256))
      (UInt8.ofNat (segment.body.length + 2)) = segment.body.length + 2 :=
    word_wordBytes (by omega)
  change nextEntry offset (0xFF :: segment.marker ::
    UInt8.ofNat ((segment.body.length + 2) / 256) :: UInt8.ofNat (segment.body.length + 2) ::
      (segment.body ++ rest)) = _
  rw [nextEntry_marker walkable.notFill walkable.notStuffing]
  refine entryAt_eq_ok_iff.mpr (Or.inr
    ⟨⟨walkable.notAlone, walkable.supported⟩, _, _, rest, rfl, length, rfl, ?_⟩)
  congr 1
  change offset + (segment.body.length + 4) = offset + 4 + segment.body.length
  omega

theorem nextEntry_endOfImage (offset : Nat) (rest : List UInt8) :
    nextEntry offset (0xFF :: Marker.endOfImage :: rest) =
      .ok
        ({ marker := Marker.endOfImage
           body := []
           offset := offset },
         { offset := offset + 2
           rest := rest }) := by
  rw [nextEntry, if_neg (by decide), if_neg (by decide)]
  rfl

/-- The data of a scan ends where the image does. -/
theorem skipScanData_stuffed (offset : Nat) (data rest : List UInt8) :
    skipScanData offset (stuffed data ++ 0xFF :: Marker.endOfImage :: rest) =
      .ok
        { offset := offset + (stuffed data).length
          rest := 0xFF :: Marker.endOfImage :: rest } := by
  induction data generalizing offset with
  | nil =>
      rw [stuffed_nil, List.nil_append, skipScanData, if_neg (by decide), if_neg (by decide)]
      rfl
  | cons byte data inductionHypothesis =>
      rw [stuffed_cons]
      by_cases full : byte = 0xFF
      · rw [if_pos full, full]
        change skipScanData offset (0xFF :: 0 :: (stuffed data ++ _)) = _
        rw [skipScanData, if_neg (by decide), if_pos (Or.inl rfl), inductionHypothesis,
          List.length_append, Nat.add_assoc]
        rfl
      · rw [if_neg full]
        obtain ⟨next, others, same⟩ : ∃ next others,
            stuffed data ++ 0xFF :: Marker.endOfImage :: rest = next :: others :=
          List.exists_cons_of_ne_nil
            (List.append_ne_nil_of_right_ne_nil _ (List.cons_ne_nil _ _))
        have later := inductionHypothesis (offset + 1)
        rw [List.append_assoc, List.singleton_append]
        rw [same] at later ⊢
        rw [skipScanData, if_pos (Or.inl full), later, List.length_append, Nat.add_assoc]
        rfl

theorem headerEntries_last {cursor next : Cursor} {entry : Entry}
    (found : nextEntry cursor.offset cursor.rest = .ok (entry, next))
    (last : entry.kind = .scan ∨ entry.kind = .endOfImage) :
    headerEntries cursor = .ok ([entry], next) := by
  rw [headerEntries]
  split
  · rename_i failure failed
    rw [found] at failed
    cases failed
  · rename_i other after same
    rw [found] at same
    cases same
    rw [if_pos last]

theorem headerEntries_goesOn {cursor next : Cursor} {entry : Entry}
    (found : nextEntry cursor.offset cursor.rest = .ok (entry, next))
    (notLast : ¬ (entry.kind = .scan ∨ entry.kind = .endOfImage)) :
    headerEntries cursor =
      (fun later : List Entry × Cursor => (entry :: later.1, later.2)) <$>
        headerEntries next := by
  rw [headerEntries]
  split
  · rename_i failure failed
    rw [found] at failed
    cases failed
  · rename_i other after same
    rw [found] at same
    cases same
    rw [if_neg notLast]
    rfl

theorem headerEntries_inner {cursor next stop : Cursor} {entry : Entry}
    {entries : List Entry}
    (found : nextEntry cursor.offset cursor.rest = .ok (entry, next))
    (notScan : entry.kind ≠ .scan) (notEnd : entry.kind ≠ .endOfImage)
    (later : headerEntries next = .ok (entries, stop)) :
    headerEntries cursor = .ok (entry :: entries, stop) := by
  rw [headerEntries_goesOn found (not_or.mpr ⟨notScan, notEnd⟩), later]
  rfl

theorem fileEntries_goesOn {cursor next : Cursor} {entry : Entry}
    (found : nextEntry cursor.offset cursor.rest = .ok (entry, next))
    (notScan : entry.kind ≠ .scan) (notEnd : entry.kind ≠ .endOfImage) :
    fileEntries cursor =
      (fun walk : FileWalk => { walk with entries := entry :: walk.entries }) <$>
        fileEntries next := by
  rw [fileEntries]
  split
  · rename_i failure failed
    rw [found] at failed
    cases failed
  · rename_i other after same
    rw [found] at same
    cases same
    rw [if_neg notEnd, if_neg notScan]
    rfl

theorem fileEntries_inner {cursor next : Cursor} {entry : Entry} {walk : FileWalk}
    (found : nextEntry cursor.offset cursor.rest = .ok (entry, next))
    (notScan : entry.kind ≠ .scan) (notEnd : entry.kind ≠ .endOfImage)
    (later : fileEntries next = .ok walk) :
    fileEntries cursor = .ok { walk with entries := entry :: walk.entries } := by
  rw [fileEntries_goesOn found notScan notEnd, later]
  rfl

theorem fileEntries_passesScan {cursor next : Cursor} {entry : Entry}
    (found : nextEntry cursor.offset cursor.rest = .ok (entry, next))
    (isScan : entry.kind = .scan) :
    fileEntries cursor =
      (fun walk : FileWalk =>
        { entries := entry :: walk.entries
          scanStarts := next.offset :: walk.scanStarts }) <$>
        (skipScanData next.offset next.rest >>= fileEntries) := by
  rw [fileEntries]
  split
  · rename_i failure failed
    rw [found] at failed
    cases failed
  · rename_i other after same
    rw [found] at same
    cases same
    rw [if_neg (by rw [isScan]; decide), if_pos isScan]
    split
    · rename_i failure failed
      rw [failed]
      rfl
    · rename_i place skipped
      rw [skipped]
      rfl

theorem fileEntries_scan {cursor next stop : Cursor} {entry : Entry} {walk : FileWalk}
    (found : nextEntry cursor.offset cursor.rest = .ok (entry, next))
    (isScan : entry.kind = .scan) (skipped : skipScanData next.offset next.rest = .ok stop)
    (later : fileEntries stop = .ok walk) :
    fileEntries cursor =
      .ok
        { entries := entry :: walk.entries
          scanStarts := next.offset :: walk.scanStarts } := by
  rw [fileEntries_passesScan found isScan, bind_of_ok skipped, later]
  rfl

theorem fileEntries_end {cursor next : Cursor} {entry : Entry}
    (found : nextEntry cursor.offset cursor.rest = .ok (entry, next))
    (isEnd : entry.kind = .endOfImage) :
    fileEntries cursor = .ok { entries := [entry], scanStarts := [] } := by
  rw [fileEntries]
  split
  · rename_i failure failed
    rw [found] at failed
    cases failed
  · rename_i other after same
    rw [found] at same
    cases same
    rw [if_pos isEnd]

theorem fileEntries_of_walksFrom {cursor : Cursor} {walk : FileWalk}
    (walks : WalksFrom cursor walk) :
    fileEntries cursor = .ok walk := by
  induction walks with
  | ends found isEnd => exact fileEntries_end found isEnd
  | scan found isScan skipped later inductionHypothesis =>
      exact fileEntries_scan found isScan skipped inductionHypothesis
  | inner found notScan notEnd later inductionHypothesis =>
      exact fileEntries_inner found notScan notEnd inductionHypothesis

/-! ### The whole file -/

/-- A segment behind which a walk goes on. -/
structure Segment.Inner (segment : Segment) : Prop extends segment.Walkable where
  notScan : MarkerKind.of segment.marker ≠ .scan
  notEnd : MarkerKind.of segment.marker ≠ .endOfImage

def Marker.IsInner (marker : UInt8) : Prop :=
  marker ≠ 0 ∧ marker ≠ 0xFF ∧ isStandalone marker = false ∧ isUnsupported marker = false ∧
    MarkerKind.of marker ≠ .scan ∧ MarkerKind.of marker ≠ .endOfImage

instance (marker : UInt8) : Decidable (Marker.IsInner marker) :=
  inferInstanceAs (Decidable (_ ∧ _))

theorem Marker.IsInner.segment {marker : UInt8} (isInner : IsInner marker) (body : List UInt8) :
    Segment.Inner { marker := marker, body := body } where
  notStuffing := isInner.1
  notFill := isInner.2.1
  notAlone := isInner.2.2.1
  supported := isInner.2.2.2.1
  notScan := isInner.2.2.2.2.1
  notEnd := isInner.2.2.2.2.2

private theorem isMetadata_cases : ∀ code : Fin 256,
    Marker.isMetadata (UInt8.ofNat code.val) = true →
      MarkerKind.of (UInt8.ofNat code.val) = .metadata ∧
        Marker.IsInner (UInt8.ofNat code.val) := by
  decide +kernel

theorem Marker.isInner_of_isMetadata {marker : UInt8} (metadata : isMetadata marker = true) :
    MarkerKind.of marker = .metadata ∧ IsInner marker := by
  have cases := isMetadata_cases ⟨marker.toNat, marker.toNat_lt⟩
  rw [UInt8.ofNat_toNat] at cases
  exact cases metadata

section Walks

variable {front : List Segment} {scan : Segment} {chunks : List (List UInt8)}
  {scanBytes : List UInt8}

private theorem mapM_segmentBytes_cons {segment : Segment} {others : List Segment}
    (written : (segment :: others).mapM segmentBytes = .ok chunks) :
    ∃ bytes rest, segmentBytes segment = .ok bytes ∧ others.mapM segmentBytes = .ok rest ∧
      chunks = bytes :: rest := by
  obtain ⟨bytes, rest, first, later, same⟩ :=
    List.forall₂_cons_left_iff.mp (mapM_eq_ok_iff.mp written)
  exact ⟨bytes, rest, first, mapM_eq_ok_iff.mpr later, same⟩

private theorem headerEntries_written (inner : ∀ segment ∈ front, segment.Inner)
    (walkable : scan.Walkable) (isScan : MarkerKind.of scan.marker = .scan)
    (written : front.mapM segmentBytes = .ok chunks)
    (writtenScan : segmentBytes scan = .ok scanBytes) (offset : Nat) (rest : List UInt8) :
    ∃ entries stop, headerEntries
        { offset := offset
          rest := chunks.flatten ++ (scanBytes ++ rest) } = .ok (entries, stop) ∧
      entries.map Entry.segment = front ++ [scan] := by
  induction front generalizing chunks offset with
  | nil =>
      cases written
      exact ⟨_, _, headerEntries_last
        (nextEntry_segmentBytes walkable writtenScan offset rest) (Or.inl isScan), rfl⟩
  | cons segment others inductionHypothesis =>
      obtain ⟨bytes, later, first, writtenLater, rfl⟩ := mapM_segmentBytes_cons written
      have here := inner segment List.mem_cons_self
      obtain ⟨entries, stop, walked, same⟩ := inductionHypothesis
        (fun other member => inner other (List.mem_cons_of_mem _ member)) writtenLater
        (offset + bytes.length)
      rw [List.flatten_cons, List.append_assoc]
      refine ⟨_, _, headerEntries_inner
        (nextEntry_segmentBytes here.toWalkable first offset _) here.notScan here.notEnd
          walked, ?_⟩
      rw [List.map_cons, same]
      rfl

private theorem fileEntries_written (inner : ∀ segment ∈ front, segment.Inner)
    (walkable : scan.Walkable) (isScan : MarkerKind.of scan.marker = .scan)
    (written : front.mapM segmentBytes = .ok chunks)
    (writtenScan : segmentBytes scan = .ok scanBytes) (offset : Nat) (data rest : List UInt8) :
    ∃ walk, fileEntries
        { offset := offset
          rest := chunks.flatten ++ (scanBytes ++ (stuffed data ++
            0xFF :: Marker.endOfImage :: rest)) } = .ok walk ∧
      walk.entries.map Entry.segment =
        front ++ [scan, { marker := Marker.endOfImage, body := [] }] ∧
      walk.scanStarts = [offset + (chunks.flatten ++ scanBytes).length] ∧
      walk.entries.getLast?.map Entry.offset =
        some (offset + (chunks.flatten ++ scanBytes).length + (stuffed data).length) := by
  -- Induction on the segments before the scan header, each of which moves the start of the data.
  induction front generalizing chunks offset with
  | nil =>
      cases written
      exact ⟨_, fileEntries_scan (nextEntry_segmentBytes walkable writtenScan offset _) isScan
        (skipScanData_stuffed _ data rest)
        (fileEntries_end (nextEntry_endOfImage _ rest) rfl), rfl, rfl, rfl⟩
  | cons segment others inductionHypothesis =>
      obtain ⟨bytes, later, first, writtenLater, rfl⟩ := mapM_segmentBytes_cons written
      have here := inner segment List.mem_cons_self
      obtain ⟨walk, walked, same, starts, stops⟩ := inductionHypothesis
        (fun other member => inner other (List.mem_cons_of_mem _ member)) writtenLater
        (offset + bytes.length)
      obtain ⟨last, isLast, place⟩ := Option.map_eq_some_iff.mp stops
      rw [List.flatten_cons, List.append_assoc]
      refine ⟨_, fileEntries_inner (nextEntry_segmentBytes here.toWalkable first offset _)
        here.notScan here.notEnd walked, ?_, ?_, ?_⟩
      · rw [List.map_cons, same]
        rfl
      · rw [starts]
        simp only [List.length_append, Nat.add_assoc]
      · rw [List.getLast?_cons, isLast, Option.getD_some, Option.map_some, place]
        simp only [List.length_append, Nat.add_assoc]

private theorem mapM_segmentBytes_append
    (written : (front ++ [scan]).mapM segmentBytes = .ok chunks) :
    ∃ before bytes, front.mapM segmentBytes = .ok before ∧ segmentBytes scan = .ok bytes ∧
      chunks.flatten = before.flatten ++ bytes := by
  rw [List.mapM_append] at written
  obtain ⟨before, first, later⟩ := bind_eq_ok written
  obtain ⟨last, single, same⟩ := bind_eq_ok later
  obtain ⟨bytes, none, writtenScan, empty, rfl⟩ := mapM_segmentBytes_cons single
  cases empty
  cases same
  refine ⟨before, bytes, first, writtenScan, ?_⟩
  rw [List.flatten_append]
  exact congrArg _ (List.append_nil bytes)

theorem walkHeader_written (inner : ∀ segment ∈ front, segment.Inner)
    (walkable : scan.Walkable) (isScan : MarkerKind.of scan.marker = .scan)
    (written : (front ++ [scan]).mapM segmentBytes = .ok chunks) (rest : List UInt8) :
    ∃ walk, walkHeader ([0xFF, Marker.startOfImage] ++ chunks.flatten ++ rest) = .ok walk ∧
      walk.entries.map Entry.segment =
        { marker := Marker.startOfImage, body := [] } :: (front ++ [scan]) := by
  obtain ⟨before, bytes, writtenFront, writtenScan, flat⟩ := mapM_segmentBytes_append written
  obtain ⟨entries, stop, walked, same⟩ :=
    headerEntries_written inner walkable isScan writtenFront writtenScan 2 rest
  rw [← List.append_assoc, ← flat] at walked
  have opened : walkHeader ([0xFF, Marker.startOfImage] ++ chunks.flatten ++ rest) =
      (headerEntries { offset := 2, rest := chunks.flatten ++ rest } >>= fun found =>
        pure
          { entries := { marker := Marker.startOfImage, body := [], offset := 0 } :: found.1
            stop := found.2.offset }) := by
    rw [List.append_assoc]
    rfl
  exact ⟨_, opened.trans (bind_of_ok walked), congrArg _ same⟩

/-- The full walk over a written file comes to its segments, to the data of its scan and to the
end of the image behind this data. -/
theorem walkFile_written (inner : ∀ segment ∈ front, segment.Inner)
    (walkable : scan.Walkable) (isScan : MarkerKind.of scan.marker = .scan)
    (written : (front ++ [scan]).mapM segmentBytes = .ok chunks) (data : List UInt8) :
    ∃ walk start, walkFile ([0xFF, Marker.startOfImage] ++ chunks.flatten ++ stuffed data ++
        [0xFF, Marker.endOfImage]) = .ok walk ∧
      walk.entries.map Entry.segment =
        { marker := Marker.startOfImage, body := [] } ::
          (front ++ [scan, { marker := Marker.endOfImage, body := [] }]) ∧
      walk.scanStarts = [start] ∧
      ([0xFF, Marker.startOfImage] ++ chunks.flatten ++ stuffed data ++
        [0xFF, Marker.endOfImage]).drop start = stuffed data ++ [0xFF, Marker.endOfImage] ∧
      walk.entries.getLast?.map Entry.offset = some (start + (stuffed data).length) := by
  obtain ⟨before, bytes, writtenFront, writtenScan, flat⟩ := mapM_segmentBytes_append written
  obtain ⟨walk, walked, same, starts, stops⟩ :=
    fileEntries_written inner walkable isScan writtenFront writtenScan 2 data []
  obtain ⟨last, isLast, place⟩ := Option.map_eq_some_iff.mp stops
  rw [← List.append_assoc, ← flat] at walked
  rw [← flat] at starts place
  have opened : walkFile ([0xFF, Marker.startOfImage] ++ chunks.flatten ++ stuffed data ++
      [0xFF, Marker.endOfImage]) =
      (fileEntries
        { offset := 2
          rest := chunks.flatten ++ (stuffed data ++ [0xFF, Marker.endOfImage]) } >>= fun walk =>
        pure { walk with entries :=
          { marker := Marker.startOfImage, body := [], offset := 0 } :: walk.entries }) := by
    rw [List.append_assoc, List.append_assoc]
    rfl
  refine ⟨_, _, opened.trans (bind_of_ok walked), congrArg _ same, starts, ?_, ?_⟩
  · rw [List.append_assoc]
    apply List.drop_left'
    rw [List.length_append]
    rfl
  · rw [List.getLast?_cons, isLast, Option.getD_some, Option.map_some, place]

end Walks

end LosslessJpeg
