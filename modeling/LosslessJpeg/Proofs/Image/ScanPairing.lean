import LosslessJpeg.Proofs.Image.ReadSteps
import LosslessJpeg.Proofs.Marker.Places
import LosslessJpeg.Proofs.Scan.Confinement

set_option autoImplicit false

/-!
Scan headers and their data. A reader has the entries of its file and the places where scans
begin from one and the same walk, and it uses up one place with each scan header. So a scan
header always comes upon the data behind it, and never upon none.
-/

namespace LosslessJpeg

def CodecError.Supplied (failure : CodecError) : Prop :=
  failure ≠ .malformed .scanWithoutData

open CodecError (Supplied)

private theorem supplied_entryAt (offset : Nat) (marker : UInt8) (rest : List UInt8) :
    FailsOnly Supplied (entryAt offset marker rest) := by
  unfold entryAt
  dsimp only
  repeat' split
  all_goals first
    | exact .ofOk _
    | exact .ofError (by rintro ⟨⟩)

private theorem supplied_nextEntry (offset : Nat) (bytes : List UInt8) :
    FailsOnly Supplied (nextEntry offset bytes) := by
  fun_induction nextEntry offset bytes with
  | case1 offset first next rest skipped inductionHypothesis => exact inductionHypothesis
  | case2 offset first rest following inductionHypothesis => exact inductionHypothesis
  | case3 offset first next rest taken different => exact supplied_entryAt _ _ _
  | case4 => exact .ofError (by rintro ⟨⟩)

private theorem supplied_skipScanData (offset : Nat) (bytes : List UInt8) :
    FailsOnly Supplied (skipScanData offset bytes) := by
  fun_induction skipScanData offset bytes with
  | case1 offset first next rest skipped inductionHypothesis => exact inductionHypothesis
  | case2 offset first next rest paired inside inductionHypothesis => exact inductionHypothesis
  | case3 => exact .ofOk _
  | case4 => exact .ofError (by rintro ⟨⟩)

private theorem supplied_fileEntries (cursor : Cursor) :
    FailsOnly Supplied (fileEntries cursor) := by
  fun_induction fileEntries cursor with
  | case1 cursor failure failed => exact .ofError (supplied_nextEntry _ _ failure failed)
  | case2 => exact .ofOk _
  | case3 cursor entry next found inner isScan failure failed =>
      exact .ofError (supplied_skipScanData _ _ failure failed)
  | case4 cursor entry next found inner isScan stop skipped inductionHypothesis =>
      exact .bind inductionHypothesis fun _ _ => .ofOk _
  | case5 cursor entry next found notEnd notScan inductionHypothesis =>
      exact .bind inductionHypothesis fun _ _ => .ofOk _

private theorem supplied_walkFile (file : List UInt8) : FailsOnly Supplied (walkFile file) := by
  have opens : FailsOnly Supplied (afterStart file) := by
    unfold afterStart
    repeat' split
    all_goals first
      | exact .ofOk _
      | exact .ofError (by rintro ⟨⟩)
  exact .bind opens fun _ _ => .bind (supplied_fileEntries _) fun _ _ => .ofOk _

private theorem supplied_quantizersOfBody (body : List UInt8) :
    FailsOnly Supplied (quantizersOfBody body) := by
  have takes (precision : Nat) (bytes : List UInt8) :
      FailsOnly Supplied (takeQuantizers precision bytes) := by
    unfold takeQuantizers
    dsimp only
    repeat' split
    all_goals first
      | exact .ofOk _
      | exact .ofError (by rintro ⟨⟩)
  fun_induction quantizersOfBody body with
  | case1 => exact .ofOk _
  | case2 head entries inRange failure failed => exact .ofError (takes _ _ failure failed)
  | case3 => exact .ofError (by rintro ⟨⟩)
  | case4 head entries inRange values rest taken nonzero inductionHypothesis =>
      exact .bind inductionHypothesis fun _ _ => .ofOk _
  | case5 => exact .ofError (by rintro ⟨⟩)

private theorem supplied_huffmanTablesOfBody (body : List UInt8) :
    FailsOnly Supplied (huffmanTablesOfBody body) := by
  have takes (head : UInt8) (bytes : List UInt8) :
      FailsOnly Supplied (takeHuffmanTable head bytes) := by
    unfold takeHuffmanTable
    dsimp only
    repeat' split
    all_goals first
      | exact .ofOk _
      | exact .ofError (by rintro ⟨⟩)
  fun_induction huffmanTablesOfBody body with
  | case1 => exact .ofOk _
  | case2 => exact .ofError (by rintro ⟨⟩)
  | case3 head rest inRange failure failed => exact .ofError (takes _ _ failure failed)
  | case4 head rest inRange table following taken inductionHypothesis =>
      exact .bind inductionHypothesis fun _ _ => .ofOk _

private theorem supplied_restartIntervalOfBody (body : List UInt8) :
    FailsOnly Supplied (restartIntervalOfBody body) := by
  unfold restartIntervalOfBody
  split
  · exact .ofOk _
  · exact .ofError (by rintro ⟨⟩)

private theorem supplied_scanOfBytes (frame : Frame) (body : List UInt8) :
    FailsOnly Supplied (Scan.ofBytes frame body) := by
  have header : FailsOnly Supplied (ScanHeader.ofBytes body) := by
    unfold ScanHeader.ofBytes
    repeat' split
    all_goals first
      | exact .ofOk _
      | exact .ofError (by rintro ⟨⟩)
  refine .bind header fun scan _ => .bind (.ofMapM fun selector _ => ?_) fun _ _ => .ofOk _
  unfold ScanSelector.resolve
  split
  · exact .ofOk _
  · exact .ofError (by rintro ⟨⟩)

namespace ReadState

variable {file : List UInt8} {frame : Frame} {state after : ReadState} {entry : Entry}
  {later : List Entry}

private theorem supplied_settle (state : ReadState) (component : Component) :
    FailsOnly Supplied (state.settle component) := by
  unfold settle
  dsimp only
  repeat' split
  all_goals first
    | exact .ofOk _
    | exact .ofError (by rintro ⟨⟩)

/-- Whether a reader knows where the data of every scan begins that is still to come. -/
def Paired (state : ReadState) (later : List Entry) : Prop :=
  state.scanStarts = (later.filter fun entry => entry.kind = .scan).map Entry.stop

theorem Paired.head_of_scan (paired : state.Paired (entry :: later))
    (isScan : entry.kind = .scan) :
    state.scanStarts =
      entry.stop :: (later.filter fun entry => entry.kind = .scan).map Entry.stop := by
  rw [paired, List.filter_cons, if_pos (decide_eq_true isScan), List.map_cons]

theorem Paired.addEntry (paired : state.Paired (entry :: later))
    (done : state.addEntry file frame entry = .ok after) : after.Paired later := by
  unfold Paired
  rw [(takes_of_addEntry done).scanStarts]
  by_cases isScan : entry.kind = .scan
  · rw [if_pos isScan, paired.head_of_scan isScan]
    rfl
  · rw [if_neg isScan, paired, List.filter_cons, if_neg (by simpa using isScan)]

theorem Paired.foldlM {front : List Entry} (paired : state.Paired (front ++ later))
    (done : front.foldlM (ReadState.addEntry file frame) state = .ok after) :
    after.Paired later := by
  induction front generalizing state with
  | nil =>
      cases done
      exact paired
  | cons entry rest inductionHypothesis =>
      rw [List.foldlM_cons] at done
      obtain ⟨between, first, others⟩ := bind_eq_ok done
      exact inductionHypothesis (paired.addEntry first) others

private theorem supplied_addEntry (paired : state.Paired (entry :: later))
    (closed : ∀ start ∈ state.scanStarts, ∃ stop, skipScanData start (file.drop start) = .ok stop) :
    FailsOnly Supplied (state.addEntry file frame entry) := by
  unfold ReadState.addEntry
  split <;> rename_i kind
  · exact .bind (supplied_quantizersOfBody _) fun _ _ => .ofOk _
  · exact .bind (supplied_huffmanTablesOfBody _) fun _ _ => .ofOk _
  · exact .bind (supplied_restartIntervalOfBody _) fun _ _ => .ofOk _
  · split
    · exact .ofOk _
    · exact .ofOk _
  · have starts := paired.head_of_scan kind
    obtain ⟨stop, skipped⟩ := closed entry.stop (starts ▸ List.mem_cons_self)
    unfold decodeScan
    rw [starts]
    refine .bind (supplied_scanOfBytes frame entry.body) fun scan _ => ?_
    refine .bind (.ofFoldlM (fun component _ state => supplied_settle state component) state)
      fun settled _ => ?_
    split
    · rename_i failure grids failed
      exact .ofError ((Scan.decode_confined (sameScanData_drop skipped rfl) frame scan _ _ _).2
        failure grids failed).2
    · exact .ofOk _
  · exact .ofOk _

private theorem supplied_foldlM {entries : List Entry} (paired : state.Paired entries)
    (closed : ∀ start ∈ state.scanStarts, ∃ stop, skipScanData start (file.drop start) = .ok stop) :
    FailsOnly Supplied (entries.foldlM (ReadState.addEntry file frame) state) := by
  induction entries generalizing state with
  | nil => exact .ofOk _
  | cons entry rest inductionHypothesis =>
      rw [List.foldlM_cons]
      refine .bind (supplied_addEntry paired closed) fun between first => ?_
      refine inductionHypothesis (paired.addEntry first) fun start member => closed start ?_
      rw [(takes_of_addEntry first).scanStarts] at member
      split at member
      · exact List.mem_of_mem_tail member
      · exact member

end ReadState

/-- The two walks over a file agree, and what they say is so. The header is the front of the
whole file, every entry stands at its place, and every scan header that is read has its data
behind it. No file is said to have a scan without data. -/
theorem walkFile_agrees (file : List UInt8) :
    (∀ walk, walkFile file = .ok walk →
      (∃ header, walkHeader file = .ok header ∧ walk.BeginsWith header.entries header.stop) ∧
        walk.Placed file ∧
        ∀ (header : FileHeader) (front later : List Entry) (entry : Entry) (state : ReadState),
          walk.entries = front ++ entry :: later → entry.kind = .scan →
            front.foldlM (ReadState.addEntry file header.frame)
                (ReadState.start header walk.scanStarts) = .ok state →
              state.scanStarts.head? = some entry.stop) ∧
      ∀ header, JpegImage.ofHeader file header ≠ .error (.malformed .scanWithoutData) := by
  constructor
  · intro walk walked
    have placed := walkFile_placed walked
    refine ⟨walkHeader_beginning walked, placed, ?_⟩
    intro header front later entry state whole isScan done
    have paired : (ReadState.start header walk.scanStarts).Paired (front ++ entry :: later) := by
      rw [← whole]
      exact placed.starts
    rw [(paired.foldlM done).head_of_scan isScan]
    rfl
  · intro header failed
    have spared : FailsOnly Supplied (JpegImage.ofHeader file header) := by
      refine .bind (supplied_walkFile file) fun walk walked => ?_
      have paired : (ReadState.start header walk.scanStarts).Paired walk.entries :=
        (walkFile_placed walked).starts
      refine .bind (ReadState.supplied_foldlM paired (walkFile_scanStarts walked)) fun scanned _ =>
        ?_
      exact .bind (.ofFoldlM (fun component _ state => ReadState.supplied_settle state component)
        scanned) fun _ _ => .ofOk _
    exact spared _ failed rfl

/-- Stray bytes and a fill byte before a comment, a stuffed zero outside of data, and two scans,
the first of which holds a stuffed zero and a restart marker. -/
private def strayFile : List UInt8 :=
  [0xFF, 0xD8, 0x12, 0x34, 0xFF, 0xFF, 0xFE, 0x00, 0x03, 0x21, 0xFF, 0x00,
   0xFF, 0xDA, 0x00, 0x02, 0x55, 0xFF, 0x00, 0xFF, 0xD1,
   0xFF, 0xDA, 0x00, 0x03, 0x07, 0x11, 0xFF, 0xD9]

theorem walkFile_agrees_strayFile :
    ∃ walk header, walkFile strayFile = .ok walk ∧ walkHeader strayFile = .ok header ∧
      walk.BeginsWith header.entries header.stop ∧ walk.Placed strayFile ∧
      (walk.entries.map fun entry => (entry.marker, entry.offset)) =
        [(0xD8, 0), (0xFE, 5), (0xDA, 12), (0xDA, 21), (0xD9, 27)] ∧
      walk.scanStarts = [16, 26] ∧ header.entries.length = 3 ∧ header.stop = 16 := by
  have walks : (walkFile strayFile).map (fun walk =>
      (walk.entries.map (fun entry => (entry.marker, entry.offset)), walk.scanStarts)) =
        .ok ([(0xD8, 0), (0xFE, 5), (0xDA, 12), (0xDA, 21), (0xD9, 27)], [16, 26]) := by
    decide +kernel
  have heads : (walkHeader strayFile).map (fun header => (header.entries.length, header.stop)) =
      .ok (3, 16) := by
    decide +kernel
  obtain ⟨walk, walked, seen⟩ := map_eq_ok walks
  obtain ⟨header, headed, stops⟩ := map_eq_ok heads
  obtain ⟨⟨header', headed', begins⟩, placed, -⟩ := (walkFile_agrees strayFile).1 walk walked
  cases headed.symm.trans headed'
  obtain ⟨entries, starts⟩ := Prod.mk.inj seen
  obtain ⟨count, stop⟩ := Prod.mk.inj stops
  exact ⟨walk, header, walked, headed, begins, placed, entries, starts, count, stop⟩

end LosslessJpeg
