import LosslessJpeg.Bytes
import LosslessJpeg.Error
import LosslessJpeg.Marker.Basic

set_option autoImplicit false

/-!
Walking a file from marker to marker. Bytes before a marker that belong to no segment are
passed over. The header walk stops after the first scan header; the full walk steps over
the entropy-coded data of every scan and stops after the end of the image.
-/

namespace LosslessJpeg

structure Cursor where
  offset : Nat
  rest : List UInt8
  deriving DecidableEq, Repr

structure Entry where
  marker : UInt8
  body : List UInt8
  offset : Nat
  deriving DecidableEq, Repr

namespace Entry

def segment (entry : Entry) : Segment :=
  { marker := entry.marker
    body := entry.body }

def kind (entry : Entry) : MarkerKind :=
  MarkerKind.of entry.marker

end Entry

def entryAt (offset : Nat) (marker : UInt8) (rest : List UInt8) :
    Except CodecError (Entry × Cursor) :=
  if Marker.isStandalone marker then
    .ok ({ marker := marker, body := [], offset := offset },
      { offset := offset + 2, rest := rest })
  else if Marker.isUnsupported marker then
    .error (.unsupportedMarker marker)
  else
    match rest with
    | high :: low :: following =>
        let length := word high low
        let body := following.take (length - 2)
        if length < 2 then
          .error (.malformed .segmentLength)
        else if body.length < length - 2 then
          .error .unexpectedEnd
        else
          .ok
            ({ marker := marker
               body := body
               offset := offset },
             { offset := offset + 2 + length
               rest := following.drop (length - 2) })
    | _ => .error .unexpectedEnd

def nextEntry (offset : Nat) : List UInt8 → Except CodecError (Entry × Cursor)
  | first :: next :: rest =>
      -- Anything in front of a marker is passed over, and so is a fill byte.
      if first ≠ 0xFF ∨ next = 0xFF then
        nextEntry (offset + 1) (next :: rest)
      else if next = 0 then
        nextEntry (offset + 2) rest
      else
        entryAt offset next rest
  | _ => .error .unexpectedEnd

private theorem entryAt_length {offset : Nat} {marker : UInt8} {rest : List UInt8}
    {entry : Entry} {cursor : Cursor}
    (found : entryAt offset marker rest = .ok (entry, cursor)) :
    cursor.rest.length ≤ rest.length := by
  unfold entryAt at found
  split at found
  · cases found
    exact Nat.le_refl _
  · split at found
    · cases found
    · split at found
      · dsimp only at found
        split at found
        · cases found
        · split at found
          · cases found
          · cases found
            simp only [List.length_drop, List.length_cons]
            omega
      · cases found

theorem nextEntry_length {offset : Nat} {bytes : List UInt8} {entry : Entry}
    {cursor : Cursor} (found : nextEntry offset bytes = .ok (entry, cursor)) :
    cursor.rest.length < bytes.length := by
  fun_induction nextEntry offset bytes with
  | case1 offset first next rest skipped inductionHypothesis =>
      have shorter := inductionHypothesis found
      simp only [List.length_cons] at shorter ⊢
      omega
  | case2 offset first rest following inductionHypothesis =>
      have shorter := inductionHypothesis found
      simp only [List.length_cons] at shorter ⊢
      omega
  | case3 offset first next rest taken different =>
      have shorter := entryAt_length found
      simp only [List.length_cons]
      omega
  | case4 => cases found

def afterStart : List UInt8 → Except CodecError (Entry × Cursor)
  | first :: second :: rest =>
      if first = 0xFF ∧ second = Marker.startOfImage then
        .ok ({ marker := Marker.startOfImage, body := [], offset := 0 },
          { offset := 2, rest := rest })
      else
        .error .missingStart
  | _ => .error .missingStart

def headerEntries (cursor : Cursor) : Except CodecError (List Entry × Cursor) :=
  match _ : nextEntry cursor.offset cursor.rest with
  | .error failure => .error failure
  | .ok (entry, next) =>
      if entry.kind = .scan ∨ entry.kind = .endOfImage then
        .ok ([entry], next)
      else do
        let (entries, stop) ← headerEntries next
        pure (entry :: entries, stop)
termination_by cursor.rest.length
decreasing_by exact nextEntry_length (by assumption)

structure HeaderWalk where
  entries : List Entry
  /-- Where the data of the first scan begins, or the offset behind the end of an image
  without scans. -/
  stop : Nat
  deriving DecidableEq, Repr

def walkHeader (file : List UInt8) : Except CodecError HeaderWalk := do
  let (start, cursor) ← afterStart file
  let (entries, stop) ← headerEntries cursor
  pure
    { entries := start :: entries
      stop := stop.offset }

/-- The place of the marker that ends the entropy-coded data at the front of `bytes`.
Stuffed zeros and restart markers belong to the data. -/
def skipScanData (offset : Nat) : List UInt8 → Except CodecError Cursor
  | first :: next :: rest =>
      if first ≠ 0xFF ∨ next = 0xFF then
        skipScanData (offset + 1) (next :: rest)
      else if next = 0 ∨ (Marker.restartNumber? next).isSome then
        skipScanData (offset + 2) rest
      else
        .ok { offset := offset, rest := first :: next :: rest }
  | _ => .error .unexpectedEnd

theorem skipScanData_length {offset : Nat} {bytes : List UInt8} {cursor : Cursor}
    (found : skipScanData offset bytes = .ok cursor) :
    cursor.rest.length ≤ bytes.length := by
  fun_induction skipScanData offset bytes with
  | case1 offset first next rest skipped inductionHypothesis =>
      have shorter := inductionHypothesis found
      simp only [List.length_cons] at shorter ⊢
      omega
  | case2 offset first next rest data inside inductionHypothesis =>
      have shorter := inductionHypothesis found
      simp only [List.length_cons] at shorter ⊢
      omega
  | case3 =>
      cases found
      exact Nat.le_refl _
  | case4 => cases found

structure FileWalk where
  entries : List Entry
  scanStarts : List Nat
  deriving DecidableEq, Repr

def fileEntries (cursor : Cursor) : Except CodecError FileWalk :=
  match _ : nextEntry cursor.offset cursor.rest with
  | .error failure => .error failure
  | .ok (entry, next) =>
      if entry.kind = .endOfImage then
        .ok { entries := [entry], scanStarts := [] }
      else if entry.kind = .scan then
        match _ : skipScanData next.offset next.rest with
        | .error failure => .error failure
        | .ok stop => do
            let walk ← fileEntries stop
            pure
              { entries := entry :: walk.entries
                scanStarts := next.offset :: walk.scanStarts }
      else do
        let walk ← fileEntries next
        pure { walk with entries := entry :: walk.entries }
termination_by cursor.rest.length
decreasing_by
  · exact Nat.lt_of_le_of_lt (skipScanData_length (by assumption))
      (nextEntry_length (by assumption))
  · exact nextEntry_length (by assumption)

def walkFile (file : List UInt8) : Except CodecError FileWalk := do
  let (start, cursor) ← afterStart file
  let walk ← fileEntries cursor
  pure { walk with entries := start :: walk.entries }

/-- A marker with its segment. A body of more than 65533 bytes does not fit its length
field. -/
def segmentBytes (segment : Segment) : Except CodecError (List UInt8) :=
  if 65533 < segment.body.length then
    .error (.malformed .segmentTooLong)
  else
    .ok (0xFF :: segment.marker :: wordBytes (segment.body.length + 2) ++ segment.body)

end LosslessJpeg
