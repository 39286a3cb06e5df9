import LosslessJpeg.Proofs.Checked.Basic
import LosslessJpeg.Proofs.Marker.Truncation

set_option autoImplicit false

/-!
The walk from marker to marker with every position of the file checked before the byte there
is read. It ends like the walk over the bytes that remain.
-/

namespace LosslessJpeg

namespace Checked

/-- The first position, from one on, that does not lie so far before a byte that passes the
test. -/
def passWhile (file : List UInt8) (ahead : Nat) (test : UInt8 → Bool) (position : Nat) :
    Checked CodecError Nat := do
  fits 64 (position + ahead)
  if _inside : position + ahead < file.length then
    let byte ← item file (position + ahead)
    if test byte then
      fits 64 (position + 1)
      passWhile file ahead test (position + 1)
    else
      pure position
  else
    pure position
termination_by file.length - position

/-- The position of the next 0xFF that is followed by another byte, if one is. -/
def markerPlace (file : List UInt8) (position : Nat) : Checked CodecError Nat := do
  let first ← passWhile file 0 (· ≠ 0xFF) position
  passWhile file 1 (· = 0xFF) first

def entryAt (file : List UInt8) (offset : Nat) (marker : UInt8) :
    Checked CodecError (Entry × Nat) :=
  let position := offset + 2
  if Marker.isStandalone marker then
    pure ({ marker := marker, body := [], offset := offset }, position)
  else if Marker.isUnsupported marker then
    fail (.unsupportedMarker marker)
  else do
    fits 64 (position + 2)
    if file.length < position + 2 then
      fail .unexpectedEnd
    else do
      let high ← item file position
      let low ← item file (position + 1)
      let length := word high low
      if length < 2 then
        fail (.malformed .segmentLength)
      else do
        fits 64 (position + length)
        if file.length < position + length then
          fail .unexpectedEnd
        else do
          let body ← slice file (position + 2) (position + length)
          pure
            ({ marker := marker
               body := body
               offset := offset }, position + length)

section PassWhile

variable {file : List UInt8} {ahead position : Nat} {test : UInt8 → Bool}

theorem le_of_passWhile {place : Nat} (passed : passWhile file ahead test position = .ok place) :
    position ≤ place := by
  fun_induction passWhile file ahead test position with
  | case1 position inductionHypothesis =>
      obtain ⟨-, -, looked⟩ := bind_eq_ok passed
      split at looked
      · rename_i inside
        obtain ⟨byte, -, tested⟩ := bind_eq_ok looked
        split at tested
        · obtain ⟨-, -, later⟩ := bind_eq_ok tested
          have behind := inductionHypothesis inside later
          omega
        · cases tested
          exact Nat.le_refl _
      · cases looked
        exact Nat.le_refl _

theorem passWhile_eq (addressable : file.length < 2 ^ 63) (near : ahead ≤ 1)
    (within : position ≤ file.length) :
    passWhile file ahead test position =
      .ok (position + ((file.drop (position + ahead)).takeWhile test).length) := by
  fun_induction passWhile file ahead test position with
  | case1 position inductionHypothesis =>
      rw [bind_of_ok (fits_of_lt (by omega))]
      split
      · rename_i inside
        rw [bind_of_ok (item_of_lt inside), List.drop_eq_getElem_cons inside,
          List.takeWhile_cons]
        split
        · rw [bind_of_ok (fits_of_lt (by omega)), inductionHypothesis inside (by omega),
            List.length_cons, Nat.add_right_comm position ahead 1]
          congr 1
          omega
        · rfl
      · rw [List.drop_eq_nil_of_le (by omega)]
        rfl

end PassWhile

theorem le_of_markerPlace {file : List UInt8} {position place : Nat}
    (found : markerPlace file position = .ok place) : position ≤ place := by
  obtain ⟨first, toFirst, toPlace⟩ := bind_eq_ok found
  exact Nat.le_trans (le_of_passWhile toFirst) (le_of_passWhile toPlace)

def nextEntry (file : List UInt8) (position : Nat) : Checked CodecError (Entry × Nat) :=
  match _ : markerPlace file position with
  | .error stop => .error stop
  | .ok place => do
      fits 64 (place + 1)
      if _inside : place + 1 < file.length then
        let marker ← item file (place + 1)
        fits 64 (place + 2)
        if marker = 0 then
          nextEntry file (place + 2)
        else
          entryAt file place marker
      else
        fail .unexpectedEnd
termination_by file.length - position
decreasing_by
  have behind := le_of_markerPlace (by assumption)
  omega

private theorem entryAt_stop {file : List UInt8} {offset stop : Nat} {marker : UInt8}
    {entry : Entry} (within : offset + 2 ≤ file.length)
    (found : entryAt file offset marker = .ok (entry, stop)) :
    offset + 2 ≤ stop ∧ stop ≤ file.length := by
  unfold entryAt at found
  dsimp only at found
  split at found
  · cases found
    omega
  · split at found
    · cases found
    · obtain ⟨-, -, found⟩ := bind_eq_ok found
      split at found
      · cases found
      · obtain ⟨high, -, found⟩ := bind_eq_ok found
        obtain ⟨low, -, found⟩ := bind_eq_ok found
        split at found
        · cases found
        · obtain ⟨-, -, found⟩ := bind_eq_ok found
          split at found
          · cases found
          · obtain ⟨body, -, found⟩ := bind_eq_ok found
            cases found
            omega

theorem nextEntry_stop {file : List UInt8} {position stop : Nat} {entry : Entry}
    (found : nextEntry file position = .ok (entry, stop)) :
    position < stop ∧ stop ≤ file.length := by
  fun_induction nextEntry file position with
  | case1 => cases found
  | case2 position place placed inductionHypothesis =>
      have behind := le_of_markerPlace placed
      obtain ⟨-, -, found⟩ := bind_eq_ok found
      split at found
      · rename_i inside
        obtain ⟨marker, -, found⟩ := bind_eq_ok found
        obtain ⟨-, -, found⟩ := bind_eq_ok found
        split at found
        · have later := inductionHypothesis inside found
          omega
        · have later := entryAt_stop inside found
          omega
      · cases found

def skipScanData (file : List UInt8) (position : Nat) : Checked CodecError Nat :=
  if _inside : position < file.length then do
    let first ← item file position
    fits 64 (position + 1)
    if first ≠ 0xFF then
      skipScanData file (position + 1)
    else if file.length ≤ position + 1 then
      fail .unexpectedEnd
    else do
      let next ← item file (position + 1)
      fits 64 (position + 2)
      if next = 0 ∨ (Marker.restartNumber? next).isSome then
        skipScanData file (position + 2)
      else if next = 0xFF then
        skipScanData file (position + 1)
      else
        pure position
  else
    fail .unexpectedEnd
termination_by file.length - position

theorem skipScanData_stop {file : List UInt8} {position stop : Nat}
    (found : skipScanData file position = .ok stop) : position ≤ stop ∧ stop < file.length := by
  fun_induction skipScanData file position with
  | case1 position inside one two three =>
      obtain ⟨first, -, found⟩ := bind_eq_ok found
      obtain ⟨-, -, found⟩ := bind_eq_ok found
      split at found
      · have later := one found
        omega
      · split at found
        · cases found
        · rename_i followed
          obtain ⟨next, -, found⟩ := bind_eq_ok found
          obtain ⟨-, -, found⟩ := bind_eq_ok found
          split at found
          · have later := two followed found
            omega
          · split at found
            · have later := three followed found
              omega
            · cases found
              exact ⟨Nat.le_refl _, inside⟩
  | case2 => cases found

def headerEntries (file : List UInt8) (position : Nat) : Checked CodecError (List Entry × Nat) :=
  match _ : nextEntry file position with
  | .error stop => .error stop
  | .ok (entry, next) =>
      if entry.kind = .scan ∨ entry.kind = .endOfImage then
        .ok ([entry], next)
      else do
        let (entries, stop) ← headerEntries file next
        pure (entry :: entries, stop)
termination_by file.length - position
decreasing_by
  have behind := nextEntry_stop (by assumption)
  omega

def startEntry (file : List UInt8) : Checked CodecError Entry :=
  if file.length < 2 then
    fail .missingStart
  else do
    let first ← item file 0
    let second ← item file 1
    if first ≠ 0xFF ∨ second ≠ Marker.startOfImage then
      fail .missingStart
    else
      pure { marker := Marker.startOfImage, body := [], offset := 0 }

def walkHeader (file : List UInt8) : Checked CodecError HeaderWalk := do
  let start ← startEntry file
  let (entries, stop) ← headerEntries file 2
  pure
    { entries := start :: entries
      stop := stop }

def fileEntries (file : List UInt8) (position : Nat) : Checked CodecError FileWalk :=
  match _ : nextEntry file position with
  | .error stop => .error stop
  | .ok (entry, next) =>
      if entry.kind = .endOfImage then
        .ok { entries := [entry], scanStarts := [] }
      else if entry.kind = .scan then
        match _ : skipScanData file next with
        | .error stop => .error stop
        | .ok following => do
            let walk ← fileEntries file following
            pure
              { entries := entry :: walk.entries
                scanStarts := next :: walk.scanStarts }
      else do
        let walk ← fileEntries file next
        pure { walk with entries := entry :: walk.entries }
termination_by file.length - position
decreasing_by
  · have behind := nextEntry_stop (by assumption)
    have later := skipScanData_stop (by assumption)
    omega
  · have behind := nextEntry_stop (by assumption)
    omega

def walkFile (file : List UInt8) : Checked CodecError FileWalk := do
  let start ← startEntry file
  let walk ← fileEntries file 2
  pure { walk with entries := start :: walk.entries }

/-! ### The same entries -/

private theorem nextEntry_dropWhile (offset : Nat) (bytes : List UInt8) :
    LosslessJpeg.nextEntry offset bytes =
      LosslessJpeg.nextEntry (offset + (bytes.takeWhile (· ≠ 0xFF)).length)
        (bytes.dropWhile (· ≠ 0xFF)) := by
  induction bytes generalizing offset with
  | nil => rfl
  | cons first rest inductionHypothesis =>
      by_cases marked : first = 0xFF
      · rw [List.takeWhile_cons_of_neg (by simpa using marked),
          List.dropWhile_cons_of_neg (by simpa using marked)]
        rfl
      · rw [List.takeWhile_cons_of_pos (by simpa using marked),
          List.dropWhile_cons_of_pos (by simpa using marked), List.length_cons,
          Nat.add_comm _ 1, ← Nat.add_assoc, ← inductionHypothesis (offset + 1)]
        cases rest with
        | nil => rfl
        | cons next rest => rw [LosslessJpeg.nextEntry, if_pos (Or.inl marked)]

private theorem nextEntry_fill (offset : Nat) (rest : List UInt8) :
    LosslessJpeg.nextEntry offset (0xFF :: rest) =
      LosslessJpeg.nextEntry (offset + (rest.takeWhile (· = 0xFF)).length)
        (0xFF :: rest.dropWhile (· = 0xFF)) := by
  induction rest generalizing offset with
  | nil => rfl
  | cons next rest inductionHypothesis =>
      by_cases fill : next = 0xFF
      · rw [List.takeWhile_cons_of_pos (by simpa using fill),
          List.dropWhile_cons_of_pos (by simpa using fill), List.length_cons,
          Nat.add_comm _ 1, ← Nat.add_assoc, ← inductionHypothesis (offset + 1),
          LosslessJpeg.nextEntry, if_pos (Or.inr fill), fill]
      · rw [List.takeWhile_cons_of_neg (by simpa using fill),
          List.dropWhile_cons_of_neg (by simpa using fill)]
        rfl

private theorem drop_fill (rest : List UInt8) :
    (0xFF :: rest).drop (rest.takeWhile (· = 0xFF)).length =
      0xFF :: rest.dropWhile (· = 0xFF) := by
  induction rest with
  | nil => rfl
  | cons next rest inductionHypothesis =>
      by_cases fill : next = 0xFF
      · rw [List.takeWhile_cons_of_pos (by simpa using fill),
          List.dropWhile_cons_of_pos (by simpa using fill), List.length_cons,
          List.drop_succ_cons, fill, inductionHypothesis]
      · rw [List.takeWhile_cons_of_neg (by simpa using fill),
          List.dropWhile_cons_of_neg (by simpa using fill)]
        rfl

theorem drop_takeWhile_length (test : UInt8 → Bool) (bytes : List UInt8) :
    bytes.drop (bytes.takeWhile test).length = bytes.dropWhile test := by
  conv_lhs => rw [← List.takeWhile_append_dropWhile (p := test) (l := bytes)]
  exact List.drop_left' (by rw [List.takeWhile_append_dropWhile])

theorem not_of_dropWhile {test : UInt8 → Bool} {bytes rest : List UInt8} {first : UInt8}
    (behind : bytes.dropWhile test = first :: rest) : test first = false := by
  have stopped := List.head?_dropWhile_not test bytes
  rw [behind] at stopped
  exact stopped

variable {file : List UInt8}

/-- From the place of a marker the walk goes on as from the position before it. -/
private theorem markerPlace_spec (addressable : file.length < 2 ^ 63) {position : Nat}
    (within : position ≤ file.length) :
    ∃ place, markerPlace file position = .ok place ∧ place ≤ file.length ∧
      LosslessJpeg.nextEntry position (file.drop position) =
        LosslessJpeg.nextEntry place (file.drop place) ∧
      ∀ first next rest, file.drop place = first :: next :: rest →
        first = 0xFF ∧ next ≠ 0xFF := by
  have passed := drop_takeWhile_length (· ≠ 0xFF) (file.drop position)
  have few : ((file.drop position).takeWhile (· ≠ 0xFF)).length ≤ file.length - position := by
    rw [← List.length_drop]
    exact (List.takeWhile_sublist _).length_le
  have start_le : position + ((file.drop position).takeWhile (· ≠ 0xFF)).length ≤ file.length := by
    omega
  rw [List.drop_drop] at passed
  rw [markerPlace, bind_of_ok (passWhile_eq addressable (Nat.zero_le 1) within),
    nextEntry_dropWhile, Nat.add_zero, passWhile_eq addressable (Nat.le_refl 1) (by omega),
    ← List.drop_drop, passed]
  generalize position + ((file.drop position).takeWhile (· ≠ 0xFF)).length = start at *
  -- The place is that of the last fill byte, from which the walk comes to the same entry.
  cases behind : (file.drop position).dropWhile (· ≠ 0xFF) with
  | nil =>
      rw [behind] at passed
      refine ⟨start, rfl, by omega, by rw [passed], ?_⟩
      intro first next rest marked
      rw [passed] at marked
      cases marked
  | cons first rest =>
      rw [behind] at passed
      have isMarker : first = 0xFF := by simpa using not_of_dropWhile behind
      subst isMarker
      have inRest : start + 1 + rest.length = file.length := by
        have length := congrArg List.length passed
        rw [List.length_drop, List.length_cons] at length
        omega
      have fewer := (List.takeWhile_sublist (l := rest) (· = 0xFF)).length_le
      refine ⟨start + (rest.takeWhile (· = 0xFF)).length, rfl, by omega, ?_, ?_⟩
      · rw [nextEntry_fill, ← List.drop_drop, passed, drop_fill]
      · intro first next others marked
        rw [← List.drop_drop, passed, drop_fill] at marked
        obtain ⟨isFirst, others⟩ := List.cons.inj marked
        exact ⟨isFirst.symm, by simpa using not_of_dropWhile others⟩

theorem getElem?_of_drop {position : Nat} {first : UInt8} {rest : List UInt8}
    (behind : file.drop position = first :: rest) :
    file[position]? = some first ∧ file.drop (position + 1) = rest := by
  constructor
  · rw [← Nat.add_zero position, ← List.getElem?_drop, behind]
    rfl
  · rw [← List.drop_drop, behind]
    rfl

/-- An entry with the position behind it. -/
def behindEntry (found : Entry × Cursor) : Entry × Nat :=
  (found.1, found.2.offset)

private theorem entryAt_eq (addressable : file.length < 2 ^ 63) {offset : Nat} (marker : UInt8)
    (within : offset + 2 ≤ file.length) :
    entryAt file offset marker =
      of ((LosslessJpeg.entryAt offset marker (file.drop (offset + 2))).map behindEntry) := by
  unfold entryAt LosslessJpeg.entryAt
  dsimp only
  split
  · rfl
  · split
    · rfl
    · rw [bind_of_ok (fits_of_lt (by omega))]
      -- The length field may be cut off, which the check of the position finds out in advance.
      cases behind : file.drop (offset + 2) with
      | nil =>
          have length := congrArg List.length behind
          rw [List.length_drop, List.length_nil] at length
          rw [if_pos (by omega)]
          rfl
      | cons high rest =>
          obtain ⟨highThere, behindHigh⟩ := getElem?_of_drop behind
          have length := congrArg List.length behindHigh
          rw [List.length_drop] at length
          cases rest with
          | nil =>
              rw [List.length_nil] at length
              rw [if_pos (by omega)]
              rfl
          | cons low following =>
              obtain ⟨lowThere, behindLow⟩ := getElem?_of_drop behindHigh
              rw [List.length_cons] at length
              have small := word_lt high low
              rw [if_neg (by omega), bind_of_ok (item_of_getElem? highThere),
                bind_of_ok (item_of_getElem? lowThere)]
              dsimp only
              split
              · rfl
              · rename_i long
                rw [bind_of_ok (fits_of_lt (by omega)), List.length_take]
                by_cases cut : file.length < offset + 2 + word high low
                · rw [if_pos cut, if_pos (by omega)]
                  rfl
                · rw [if_neg cut, if_neg (by omega),
                    bind_of_ok (slice_of_le (by omega) (by omega)), List.drop_take,
                    ← behindLow]
                  have taken : offset + 2 + word high low - (offset + 2 + 2) =
                      word high low - 2 := by omega
                  rw [taken]
                  rfl

theorem nextEntry_eq (addressable : file.length < 2 ^ 63) {position : Nat}
    (within : position ≤ file.length) :
    nextEntry file position =
      of ((LosslessJpeg.nextEntry position (file.drop position)).map behindEntry) := by
  fun_induction nextEntry file position with
  | case1 position stop found =>
      obtain ⟨place, there, -⟩ := markerPlace_spec addressable within
      rw [found] at there
      cases there
  | case2 position place found inductionHypothesis =>
      obtain ⟨other, there, inFile, same, marked⟩ := markerPlace_spec addressable within
      rw [found] at there
      cases there
      rw [bind_of_ok (fits_of_lt (by omega)), same]
      split
      · rename_i inside
        have behind := List.drop_eq_getElem_cons (Nat.lt_of_succ_lt inside)
        rw [List.drop_eq_getElem_cons inside] at behind
        obtain ⟨isFirst, notFill⟩ := marked _ _ _ behind
        have isMarker : ¬ (file[place] ≠ 0xFF ∨ file[place + 1] = 0xFF) :=
          not_or.mpr ⟨not_not.mpr isFirst, notFill⟩
        rw [behind, bind_of_ok (item_of_lt inside), bind_of_ok (fits_of_lt (by omega)),
          LosslessJpeg.nextEntry, if_neg isMarker]
        by_cases stuffed : file[place + 1] = 0
        · rw [if_pos stuffed, if_pos stuffed]
          exact inductionHypothesis inside (by omega)
        · rw [if_neg stuffed, if_neg stuffed]
          exact entryAt_eq addressable _ inside
      · rename_i outside
        rw [nextEntry_of_short (by rw [List.length_drop]; omega)]
        rfl

private theorem skipScanData_cons (offset : Nat) {first : UInt8} (rest : List UInt8)
    (passed : first ≠ 0xFF ∨ rest.head? = some 0xFF) :
    LosslessJpeg.skipScanData offset (first :: rest) =
      LosslessJpeg.skipScanData (offset + 1) rest := by
  cases rest with
  | nil => rfl
  | cons next rest =>
      rw [LosslessJpeg.skipScanData, if_pos (passed.imp_right Option.some.inj)]

theorem skipScanData_eq (addressable : file.length < 2 ^ 63) (position : Nat) :
    skipScanData file position =
      of ((LosslessJpeg.skipScanData position (file.drop position)).map Cursor.offset) := by
  fun_induction skipScanData file position with
  | case1 position inside afterOne afterTwo afterFill =>
      rw [bind_of_ok (item_of_lt inside), bind_of_ok (fits_of_lt (by omega)),
        List.drop_eq_getElem_cons inside]
      -- One step passes a byte of data, a fill byte or a pair, or stops in front of a marker.
      by_cases plain : file[position] ≠ 0xFF
      · rw [if_pos plain, skipScanData_cons _ _ (Or.inl plain)]
        exact afterOne
      · rw [if_neg plain]
        by_cases last : file.length ≤ position + 1
        · rw [if_pos last, List.drop_eq_nil_of_le last]
          rfl
        · have more := Nat.lt_of_not_le last
          rw [if_neg last, bind_of_ok (item_of_lt more), bind_of_ok (fits_of_lt (by omega))]
          by_cases fill : file[position + 1] = 0xFF
          · have notData : ¬ (file[position + 1] = 0 ∨
                (Marker.restartNumber? file[position + 1]).isSome) := by
              rw [fill]
              decide
            rw [if_neg notData, if_pos fill, skipScanData_cons _ _ (Or.inr ?_)]
            · exact afterFill last
            · rw [List.head?_drop, List.getElem?_eq_getElem more, fill]
          · have isMarker : ¬ (file[position] ≠ 0xFF ∨ file[position + 1] = 0xFF) :=
              not_or.mpr ⟨plain, fill⟩
            rw [if_neg fill, List.drop_eq_getElem_cons more, LosslessJpeg.skipScanData,
              if_neg isMarker]
            split
            · exact afterTwo last
            · rfl
  | case2 position outside =>
      rw [List.drop_eq_nil_of_le (by omega)]
      rfl

/-- A checked place is the offset of one in the same bytes of the file. -/
def SamePlace (file : List UInt8) (position : Nat) (cursor : Cursor) : Prop :=
  cursor = { offset := position, rest := file.drop position }

theorem samePlace_of_in {cursor : Cursor} (inFile : cursor.In file) :
    SamePlace file cursor.offset cursor := by
  cases cursor
  exact congrArg _ inFile

theorem nextEntry_follows (addressable : file.length < 2 ^ 63) {position : Nat}
    (within : position ≤ file.length) :
    Follows (fun found other => found.1 = other.1 ∧ SamePlace file found.2 other.2)
      (nextEntry file position) (LosslessJpeg.nextEntry position (file.drop position)) := by
  rw [nextEntry_eq addressable within]
  cases found : LosslessJpeg.nextEntry position (file.drop position) with
  | error failure => exact .failure failure
  | ok result =>
      obtain ⟨length, place, behind⟩ := nextEntry_rest found
      rw [List.drop_drop, ← place] at behind
      exact .ok ⟨rfl, samePlace_of_in behind⟩

theorem skipScanData_follows (addressable : file.length < 2 ^ 63) (position : Nat) :
    Follows (SamePlace file) (skipScanData file position)
      (LosslessJpeg.skipScanData position (file.drop position)) := by
  rw [skipScanData_eq addressable]
  cases found : LosslessJpeg.skipScanData position (file.drop position) with
  | error failure => exact .failure failure
  | ok cursor =>
      obtain ⟨length, place, behind⟩ := skipScanData_rest found
      rw [List.drop_drop, ← place] at behind
      exact .ok (samePlace_of_in behind)

/-! ### The same walks -/

theorem startEntry_follows (file : List UInt8) :
    Follows (fun start other => start = other.1 ∧ SamePlace file 2 other.2 ∧ 2 ≤ file.length)
      (startEntry file) (afterStart file) := by
  match file with
  | [] => exact .failure _
  | [first] => exact .failure _
  | first :: second :: rest =>
      change Follows _ (if first ≠ 0xFF ∨ second ≠ Marker.startOfImage then _ else _)
        (if first = 0xFF ∧ second = Marker.startOfImage then _ else _)
      by_cases started : first = 0xFF ∧ second = Marker.startOfImage
      · rw [if_pos started, if_neg (by simpa using started)]
        exact .ok ⟨rfl, rfl, by simp⟩
      · rw [if_neg started, if_pos (by simpa using not_and_or.mp started)]
        exact .failure _

/-- A step of a walk that comes to an entry comes to the same entry in the model. -/
private theorem nextEntry_of_ok (addressable : file.length < 2 ^ 63) {position next : Nat}
    {entry : Entry} (within : position ≤ file.length)
    (found : nextEntry file position = .ok (entry, next)) :
    LosslessJpeg.nextEntry position (file.drop position) =
        .ok (entry, { offset := next, rest := file.drop next }) ∧ next ≤ file.length := by
  have step := nextEntry_follows addressable within
  rw [found] at step
  generalize same : LosslessJpeg.nextEntry position (file.drop position) = other at step
  cases step with
  | @ok _ other alike =>
      obtain ⟨otherEntry, cursor⟩ := other
      obtain ⟨rfl, rfl⟩ := alike
      exact ⟨rfl, (nextEntry_stop found).2⟩

private theorem nextEntry_of_error (addressable : file.length < 2 ^ 63) {position : Nat}
    {stop : Stop CodecError} (within : position ≤ file.length)
    (found : nextEntry file position = .error stop) :
    ∃ cause, stop = .failure cause ∧
      LosslessJpeg.nextEntry position (file.drop position) = .error cause := by
  have step := nextEntry_follows addressable within
  rw [found] at step
  generalize same : LosslessJpeg.nextEntry position (file.drop position) = other at step
  cases step with
  | failure cause => exact ⟨cause, rfl, rfl⟩

theorem headerEntries_follows (addressable : file.length < 2 ^ 63) {position : Nat}
    (within : position ≤ file.length) :
    Follows (fun walked other => walked.1 = other.1 ∧ walked.2 = other.2.offset)
      (headerEntries file position)
      (LosslessJpeg.headerEntries { offset := position, rest := file.drop position }) := by
  fun_induction headerEntries file position with
  | case1 position stop found =>
      obtain ⟨cause, rfl, failed⟩ := nextEntry_of_error addressable within found
      rw [headerEntries_fails failed]
      exact .failure cause
  | case2 position entry next found last =>
      obtain ⟨same, -⟩ := nextEntry_of_ok addressable within found
      rw [headerEntries_last same last]
      exact .ok ⟨rfl, rfl⟩
  | case3 position entry next found notLast inductionHypothesis =>
      obtain ⟨same, inFile⟩ := nextEntry_of_ok addressable within found
      rw [headerEntries_goesOn same notLast]
      refine (inductionHypothesis inFile).map (fun walked other alike => ?_)
      exact ⟨by rw [alike.1], alike.2⟩

theorem fileEntries_follows (addressable : file.length < 2 ^ 63) {position : Nat}
    (within : position ≤ file.length) :
    Follows Eq (fileEntries file position)
      (LosslessJpeg.fileEntries { offset := position, rest := file.drop position }) := by
  fun_induction fileEntries file position with
  | case1 position stop found =>
      obtain ⟨cause, rfl, failed⟩ := nextEntry_of_error addressable within found
      rw [fileEntries_fails failed]
      exact .failure cause
  | case2 position entry next found last =>
      obtain ⟨same, -⟩ := nextEntry_of_ok addressable within found
      rw [fileEntries_end same last]
      exact .ok rfl
  | case3 position entry next found notLast isScan stop skipped =>
      obtain ⟨same, -⟩ := nextEntry_of_ok addressable within found
      have step := skipScanData_follows addressable next
      rw [fileEntries_passesScan same isScan]
      rw [skipped] at step
      generalize LosslessJpeg.skipScanData next (file.drop next) = other at step
      cases step with
      | failure cause => exact .failure cause
  | case4 position entry next found notLast isScan stop skipped inductionHypothesis =>
      obtain ⟨same, -⟩ := nextEntry_of_ok addressable within found
      have step := skipScanData_follows addressable next
      rw [fileEntries_passesScan same isScan]
      rw [skipped] at step
      generalize LosslessJpeg.skipScanData next (file.drop next) = other at step
      cases step with
      | ok place =>
          rw [place, bind_of_ok rfl]
          refine (inductionHypothesis (Nat.le_of_lt (skipScanData_stop skipped).2)).map
            (fun walk other alike => ?_)
          rw [alike]
  | case5 position entry next found notLast notScan inductionHypothesis =>
      obtain ⟨same, inFile⟩ := nextEntry_of_ok addressable within found
      rw [fileEntries_goesOn same notScan notLast]
      refine (inductionHypothesis inFile).map (fun walk other alike => ?_)
      rw [alike]

theorem walkHeader_follows (addressable : file.length < 2 ^ 63) :
    Follows Eq (walkHeader file) (LosslessJpeg.walkHeader file) := by
  refine (startEntry_follows file).bind ?_
  rintro start ⟨other, cursor⟩ ⟨rfl, rfl, within⟩
  refine (headerEntries_follows addressable within).bind ?_
  rintro walked ⟨entries, stop⟩ ⟨sameEntries, sameStop⟩
  refine .ok ?_
  rw [sameEntries, sameStop]

theorem walkFile_follows (addressable : file.length < 2 ^ 63) :
    Follows Eq (walkFile file) (LosslessJpeg.walkFile file) := by
  refine (startEntry_follows file).bind ?_
  rintro start ⟨other, cursor⟩ ⟨rfl, rfl, within⟩
  refine (fileEntries_follows addressable within).bind ?_
  rintro walk other rfl
  exact .ok rfl

private theorem fileEntries_length {position : Nat} {walk : FileWalk}
    (walked : fileEntries file position = .ok walk) :
    walk.entries.length + position ≤ file.length := by
  fun_induction fileEntries file position generalizing walk with
  | case1 => cases walked
  | case2 position entry next found last =>
      cases walked
      have stop := nextEntry_stop found
      rw [List.length_singleton]
      omega
  | case3 => cases walked
  | case4 position entry next found notLast isScan stop skipped inductionHypothesis =>
      obtain ⟨others, later, last⟩ := bind_eq_ok walked
      cases last
      have counted := inductionHypothesis later
      have behind := nextEntry_stop found
      have passed := skipScanData_stop skipped
      rw [List.length_cons]
      omega
  | case5 position entry next found notLast notScan inductionHypothesis =>
      obtain ⟨others, later, last⟩ := bind_eq_ok walked
      cases last
      have counted := inductionHypothesis later
      have behind := nextEntry_stop found
      rw [List.length_cons]
      omega

/-- A file has no more entries than bytes. -/
theorem walkFile_length {walk : FileWalk} (walked : walkFile file = .ok walk) :
    walk.entries.length ≤ file.length := by
  obtain ⟨start, -, walked⟩ := bind_eq_ok walked
  obtain ⟨others, later, last⟩ := bind_eq_ok walked
  cases last
  have counted := fileEntries_length later
  rw [List.length_cons]
  omega

private theorem fileEntries_starts {position : Nat} {walk : FileWalk}
    (walked : fileEntries file position = .ok walk) :
    ∀ start ∈ walk.scanStarts, start ≤ file.length := by
  fun_induction fileEntries file position generalizing walk with
  | case1 => cases walked
  | case2 position entry next found last =>
      cases walked
      intro start member
      cases member
  | case3 => cases walked
  | case4 position entry next found notLast isScan stop skipped inductionHypothesis =>
      obtain ⟨others, later, last⟩ := bind_eq_ok walked
      cases last
      intro start member
      rcases List.mem_cons.mp member with same | inOthers
      · rw [same]
        exact (nextEntry_stop found).2
      · exact inductionHypothesis later start inOthers
  | case5 position entry next found notLast notScan inductionHypothesis =>
      obtain ⟨others, later, last⟩ := bind_eq_ok walked
      cases last
      intro start member
      exact inductionHypothesis later start member

theorem walkFile_starts {walk : FileWalk} (walked : walkFile file = .ok walk) :
    ∀ start ∈ walk.scanStarts, start ≤ file.length := by
  obtain ⟨start, -, walked⟩ := bind_eq_ok walked
  obtain ⟨others, later, last⟩ := bind_eq_ok walked
  cases last
  intro start member
  exact fileEntries_starts later start member

end Checked

end LosslessJpeg
