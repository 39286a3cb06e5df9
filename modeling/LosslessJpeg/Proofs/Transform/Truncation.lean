import LosslessJpeg.Proofs.Marker.Places
import LosslessJpeg.Proofs.Scan.Confinement
import LosslessJpeg.Proofs.Transform.Completion

set_option autoImplicit false

/-!
Where a file ends. Bytes behind the end of the image are not looked at, and a file that is
cut anywhere before it is rejected as malformed.
-/

namespace LosslessJpeg

def lackAt (length : Nat) : CodecError :=
  if length < 2 then .missingStart else .unexpectedEnd

/-- A walk over a file takes a number of its bytes, no fewer, and looks at no others. -/
structure Stops {α : Type} (walk : List UInt8 → Except CodecError α) (file : List UInt8)
    (stop : Nat) (value : α) : Prop where
  inside : stop ≤ file.length
  determined : ∀ other : List UInt8, other.take stop = file.take stop → walk other = .ok value
  truncated : ∀ length < stop, walk (file.take length) = .error (lackAt length)

theorem stops_of_usesUp {α β : Type} {later : Cursor → Except CodecError α}
    {front behind : List UInt8} {result : List UInt8 → α} {value : β}
    {walk : List UInt8 → Except CodecError β} {file : List UInt8} {start : Entry}
    {cursor : Cursor} (change : Entry → α → β)
    (started : afterStart file = .ok (start, cursor)) (same : cursor.rest = front ++ behind)
    (usesUp : UsesUp (fun rest => later { offset := cursor.offset, rest := rest }) front result)
    (walks : ∀ bytes, walk bytes =
      afterStart bytes >>= fun opened => change opened.1 <$> later opened.2)
    (gives : ∀ bytes, change start (result bytes) = value) :
    Stops walk file (cursor.offset + front.length) value := by
  obtain ⟨rest, rfl, rfl, rfl⟩ := afterStart_eq_ok started
  dsimp only at same usesUp ⊢
  have opened : ∀ bytes, walk (0xFF :: Marker.startOfImage :: bytes) =
      change { marker := Marker.startOfImage, body := [], offset := 0 } <$>
        later { offset := 2, rest := bytes } := fun bytes => walks _
  rw [same, Nat.add_comm]
  refine ⟨by simp, fun other agrees => ?_, fun length short => ?_⟩
  · rw [List.take_succ_cons, List.take_succ_cons, List.take_left' rfl] at agrees
    have split := List.take_append_drop (front.length + 2) other
    rw [agrees, List.cons_append, List.cons_append] at split
    rw [← split, opened, usesUp.extended, ← gives]
    rfl
  · match length with
    | 0 => exact walks []
    | 1 => exact walks [0xFF]
    | length + 2 =>
        have inFront : length < front.length := by omega
        rw [List.take_succ_cons, List.take_succ_cons, opened,
          List.take_append_of_le_length (Nat.le_of_lt inFront), usesUp.truncated length inFront]
        rfl

theorem walkHeader_stops {file : List UInt8} {walk : HeaderWalk}
    (walked : walkHeader file = .ok walk) : ∃ stop, Stops walkHeader file stop walk := by
  obtain ⟨⟨start, cursor⟩, started, rest⟩ := bind_eq_ok walked
  obtain ⟨⟨entries, place⟩, later, last⟩ := bind_eq_ok rest
  cases last
  obtain ⟨front, same, usesUp⟩ := headerEntries_usesUp later
  have placed : place.offset = cursor.offset + front.length :=
    congrArg (·.2.offset) (usesUp.eq_result later same)
  refine ⟨_, stops_of_usesUp
    (fun start walked => { entries := start :: walked.1, stop := walked.2.offset })
    started same usesUp (fun bytes => rfl) fun bytes => ?_⟩
  rw [placed]

theorem walkFile_stops {file : List UInt8} {walk : FileWalk} (walked : walkFile file = .ok walk) :
    ∃ last, walk.entries.getLast? = some last ∧ last.marker = Marker.endOfImage ∧
      Stops walkFile file (last.offset + 2) walk := by
  obtain ⟨⟨start, cursor⟩, started, rest⟩ := bind_eq_ok walked
  obtain ⟨others, later, ended⟩ := bind_eq_ok rest
  cases ended
  obtain ⟨front, behind, last, same, usesUp, isLast, marked, place⟩ :=
    (walksFrom_of_fileEntries later).usesUp
  refine ⟨last, ?_, marked, ?_⟩
  · rw [List.getLast?_cons, isLast, Option.getD_some]
  · rw [place]
    exact stops_of_usesUp (fun start walk => { walk with entries := start :: walk.entries })
      started same usesUp (fun bytes => rfl) fun bytes => rfl

theorem Stops.header_le {file : List UInt8} {headerStop stop : Nat} {header : HeaderWalk}
    {walk : FileWalk} (headerStops : Stops walkHeader file headerStop header)
    (stops : Stops walkFile file stop walk) : headerStop ≤ stop := by
  by_contra beyond
  have cut := headerStops.truncated stop (Nat.not_le.mp beyond)
  have walked := stops.determined (file.take stop)
    (by rw [List.take_take, Nat.min_self])
  obtain ⟨other, found, -⟩ := walkHeader_beginning walked
  rw [cut] at found
  cases found

theorem skipScanData_inside {start : Nat} {file : List UInt8} {cursor : Cursor}
    (found : skipScanData start (file.drop start) = .ok cursor) :
    cursor.offset + 2 ≤ file.length := by
  obtain ⟨data, marker, behind, same, -, usesUp⟩ := skipScanData_usesUp found
  have place : cursor.offset = start + data.length :=
    congrArg (·.offset) (usesUp.eq_result found same)
  have long := congrArg List.length same
  simp only [List.length_drop, List.length_append, List.length_cons, List.length_nil] at long
  omega

namespace ReadState

variable {file other : List UInt8} {frame : Frame}

/-- An entry is taken in alike from files that hold the same scan data. -/
theorem addEntry_congr {state : ReadState} (entry : Entry)
    (data : ∀ start ∈ state.scanStarts, SameScanData (file.drop start) (other.drop start)) :
    state.addEntry other frame entry = state.addEntry file frame entry := by
  unfold addEntry
  split <;> try rfl
  unfold decodeScan
  split
  · rfl
  · rename_i start later starts
    have same := data start (starts ▸ List.mem_cons_self)
    congr 1
    funext scan
    dsimp only
    congr 1
    funext settled
    rw [(Scan.decode_confined same frame scan _ _ _).1]

theorem foldlM_addEntry_congr {state : ReadState} (entries : List Entry)
    (data : ∀ start ∈ state.scanStarts, SameScanData (file.drop start) (other.drop start)) :
    entries.foldlM (addEntry other frame) state = entries.foldlM (addEntry file frame) state := by
  induction entries generalizing state with
  | nil => rfl
  | cons entry rest inductionHypothesis =>
      rw [List.foldlM_cons, List.foldlM_cons, addEntry_congr entry data]
      cases first : state.addEntry file frame entry with
      | error failure => rfl
      | ok after =>
          refine inductionHypothesis fun start member => data start ?_
          rw [(takes_of_addEntry first).scanStarts] at member
          split at member
          · exact List.mem_of_mem_tail member
          · exact member

end ReadState

theorem JpegImage.ofHeader_take {file : List UInt8} {stop : Nat} {walk : FileWalk}
    (stops : Stops walkFile file stop walk) {other : List UInt8}
    (same : other.take stop = file.take stop) (header : FileHeader) :
    ofHeader other header = ofHeader (file.take stop) header := by
  have walked := stops.determined (file.take stop) (by rw [List.take_take, Nat.min_self])
  have data : ∀ start ∈ walk.scanStarts,
      SameScanData ((file.take stop).drop start) (other.drop start) := by
    intro start member
    obtain ⟨cursor, found⟩ := walkFile_scanStarts walked start member
    have inside := skipScanData_inside found
    rw [List.length_take] at inside
    refine sameScanData_drop found ?_
    rw [← same, List.take_take, Nat.min_eq_left (by omega)]
  unfold ofHeader
  rw [bind_of_ok (stops.determined other same), bind_of_ok walked,
    ReadState.foldlM_addEntry_congr walk.entries data]

theorem FileHeader.read_congr {file other : List UInt8}
    (same : walkHeader other = walkHeader file) : read other = read file := by
  unfold read
  rw [same]

theorem FileHeader.read_of_error {file : List UInt8} {failure : CodecError}
    (failed : walkHeader file = .error failure) : read file = .error failure := by
  unfold read
  rw [failed]
  rfl

theorem JpegImage.ofHeader_of_error {file : List UInt8} {failure : CodecError}
    (failed : walkFile file = .error failure) (header : FileHeader) :
    ofHeader file header = .error failure := by
  unfold ofHeader
  rw [failed]
  rfl

theorem reading_lackAt {α : Type} (length : Nat) :
    (reading (.error (lackAt length)) : Except TransformError α) =
      .error (.malformedStream (if length < 2 then .missingStart else .unexpectedEnd)) := by
  unfold lackAt
  split
  · rfl
  · rfl

section Transforming

variable {file other : List UInt8} {directive : Directive} {options : TransformOptions}

theorem transform_congr (headers : FileHeader.read other = FileHeader.read file)
    (images : ∀ header, JpegImage.ofHeader other header = JpegImage.ofHeader file header) :
    transform other directive options = transform file directive options := by
  unfold transform
  rw [headers]
  simp only [images]

/-- A file that can be transformed may have anything behind the end of the image, but nothing
may be missing before. -/
theorem transform_cut {transformed : Transformed}
    (done : transform file directive options = .ok transformed) :
    ∃ walk last, walkFile file = .ok walk ∧ walk.entries.getLast? = some last ∧
      last.marker = Marker.endOfImage ∧ last.offset + 2 ≤ file.length ∧
      (∀ behind, transform (file.take (last.offset + 2) ++ behind) directive options =
        .ok transformed) ∧
      ∀ length < last.offset + 2, transform (file.take length) directive options =
        .error (.malformedStream (if length < 2 then .missingStart else .unexpectedEnd)) := by
  obtain ⟨header, transformation, source, result, headed, made, read, -, -⟩ :=
    transform_eq_ok done
  obtain ⟨headerWalk, walkedHeader, -⟩ := bind_eq_ok headed
  obtain ⟨walk, walked, -⟩ := bind_eq_ok read
  obtain ⟨headerStop, headerStops⟩ := walkHeader_stops walkedHeader
  obtain ⟨last, isLast, marked, stops⟩ := walkFile_stops walked
  have headerInside := headerStops.header_le stops
  -- As long as the header is there, it says what it says in the whole file.
  have sameHeader : ∀ bytes : List UInt8, bytes.take headerStop = file.take headerStop →
      FileHeader.read bytes = FileHeader.read file := fun bytes same =>
    FileHeader.read_congr ((headerStops.determined bytes same).trans walkedHeader.symm)
  refine ⟨walk, last, walked, isLast, marked, stops.inside, fun behind => ?_,
    fun length short => ?_⟩
  · have same : (file.take (last.offset + 2) ++ behind).take (last.offset + 2) =
        file.take (last.offset + 2) :=
      List.take_left' (List.length_take_of_le stops.inside)
    rw [← done]
    refine transform_congr (sameHeader _ ?_) fun header => ?_
    · have front := congrArg (List.take headerStop) same
      rw [List.take_take, List.take_take, Nat.min_eq_left headerInside] at front
      exact front
    · rw [JpegImage.ofHeader_take stops same, JpegImage.ofHeader_take stops rfl]
  · unfold transform
    by_cases inHeader : length < headerStop
    · rw [FileHeader.read_of_error (headerStops.truncated length inHeader), reading_lackAt]
      rfl
    · have front : (file.take length).take headerStop = file.take headerStop := by
        rw [List.take_take, Nat.min_eq_left (Nat.not_lt.mp inHeader)]
      rw [bind_of_ok (reading_eq_ok.mpr ((sameHeader _ front).trans headed)), bind_of_ok made,
        JpegImage.ofHeader_of_error (stops.truncated length short), reading_lackAt]
      rfl

theorem transform_cut_coarseFile :
    (∀ behind, ∃ transformed,
      transform (coarseFile ++ behind) (.orient .rotate90) {} = .ok transformed ∧
        transform coarseFile (.orient .rotate90) {} = .ok transformed) ∧
      ∀ length < coarseFile.length,
        transform (coarseFile.take length) (.orient .rotate90) {} =
          .error (.malformedStream (if length < 2 then .missingStart else .unexpectedEnd)) := by
  have planned : measured coarseFile (.orient .rotate90) {} (fun _ _ _ => ()) = .ok (3, ()) := by
    decide +kernel
  obtain ⟨-, -, -, -, transformed, -, -, -, -, done, -⟩ :=
    exists_transformed_of_measured planned (by decide)
  obtain ⟨walk, last, walked, isLast, -, -, extended, truncated⟩ := transform_cut done
  have stop : (walkFile coarseFile).map (fun walk => walk.entries.getLast?.map (·.offset + 2)) =
      .ok (some coarseFile.length) := by
    decide +kernel
  obtain ⟨same, walkedSame, place⟩ := map_eq_ok stop
  cases walked.symm.trans walkedSame
  rw [isLast] at place
  have place : last.offset + 2 = coarseFile.length := Option.some.inj place
  rw [place, List.take_length] at extended
  rw [place] at truncated
  exact ⟨fun behind => ⟨transformed, extended behind, done⟩, truncated⟩

end Transforming

end LosslessJpeg
