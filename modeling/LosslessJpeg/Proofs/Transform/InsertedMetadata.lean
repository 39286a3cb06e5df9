import LosslessJpeg.Proofs.Image.ReadSteps
import LosslessJpeg.Proofs.Marker.Insertion
import LosslessJpeg.Proofs.Scan.Confinement
import LosslessJpeg.Proofs.Transform.CarriedMetadata
import LosslessJpeg.Proofs.Transform.Truncation

set_option autoImplicit false

/-!
A segment that describes an image may be put into its file in front of any marker. Two readers,
one of the file and one of the file with the segment, take in the same entries and decode the
same data, so that they never differ but in where scans begin and in what describes the image.
-/

namespace LosslessJpeg

def MarkerKind.isFrame : MarkerKind → Bool
  | .frame _ => true
  | _ => false

namespace FileHeader

def frameSegments (entries : List Entry) : List Segment :=
  ((entries.takeWhile fun entry => entry.kind ≠ .scan).map Entry.segment).filter fun segment =>
    (MarkerKind.of segment.marker).isFrame

private theorem frameOf_filter (segments : List Segment) :
    frameOf ((segments.filter fun segment => (MarkerKind.of segment.marker).isFrame).map
      Entry.ofSegment) = frameOf (segments.map Entry.ofSegment) := by
  unfold frameOf
  rw [List.foldlM_map, List.foldlM_map, List.foldlM_filter]
  congr 1
  funext found segment
  split
  · rfl
  · rename_i notFrame
    split
    · rename_i kind
      have kind : MarkerKind.of segment.marker = .frame _ := kind
      exact absurd (kind ▸ rfl) notFrame
    · rename_i kind
      have kind : MarkerKind.of segment.marker = .frame _ := kind
      exact absurd (kind ▸ rfl) notFrame
    · rfl

theorem frameOf_front {entries front later : List Entry} {scan : Entry}
    (whole : entries = front ++ scan :: later) (noScan : ∀ entry ∈ front, entry.kind ≠ .scan)
    (isScan : scan.kind = .scan) :
    frameOf (front ++ [scan]) = frameOf ((frameSegments entries).map Entry.ofSegment) := by
  have notAhead : ¬ decide (scan.kind ≠ .scan) = true := by
    rw [isScan]
    decide
  have ahead : (entries.takeWhile fun entry => entry.kind ≠ .scan) = front := by
    rw [whole, List.takeWhile_append_of_pos fun entry member =>
      decide_eq_true (noScan entry member), List.takeWhile_cons, if_neg notAhead, List.append_nil]
  have noFrame : ¬ (MarkerKind.of scan.segment.marker).isFrame = true := by
    rw [show MarkerKind.of scan.segment.marker = .scan from isScan]
    decide
  unfold frameSegments
  rw [ahead, frameOf_ofSegments, List.map_append, ← frameOf_filter, List.filter_append,
    List.map_singleton, List.filter_cons, if_neg noFrame, List.filter_nil, List.append_nil]

theorem read_of_frameSegments {file : List UInt8} {walk : FileWalk} {frame : Frame}
    (walked : walkFile file = .ok walk)
    (framed : frameOf ((frameSegments walk.entries).map Entry.ofSegment) = .ok (some frame))
    (hasScan : ∃ entry ∈ walk.entries, entry.kind = .scan) :
    ∃ header, read file = .ok header ∧ header.frame = frame := by
  obtain ⟨header, walkedHeader, front, last, later, same, whole, inner, ends⟩ :=
    walkHeader_beginning walked
  have noScan : ∀ entry ∈ front, entry.kind ≠ .scan := fun entry member => (inner entry member).1
  have isScan : last.kind = .scan := by
    obtain ⟨entry, member, kind⟩ := hasScan
    rcases ends with ⟨isScan, -⟩ | ⟨-, rfl, -⟩
    · exact isScan
    rw [whole] at member
    rcases List.mem_append.mp member with inFront | isLast
    · exact absurd kind (noScan entry inFront)
    · rwa [List.mem_singleton.mp isLast] at kind
  rw [← frameOf_front whole noScan isScan, ← same] at framed
  have scans : (header.entries.any fun entry => entry.kind = .scan) = true := by
    rw [same]
    exact List.any_eq_true.mpr
      ⟨last, List.mem_append_right front List.mem_cons_self, decide_eq_true isScan⟩
  refine ⟨{ frame := frame, metadata := metadataOf header.entries }, ?_, rfl⟩
  unfold read
  rw [bind_of_ok walkedHeader, bind_of_ok framed]
  dsimp only
  rw [if_pos scans]
  rfl

theorem frameSegments_insert {front behind : List Entry} {entry : Entry}
    (metadata : entry.kind = .metadata) (distance : Nat) :
    frameSegments (front ++ entry :: behind.map (Entry.shift distance)) =
      frameSegments (front ++ behind) := by
  have notScan : decide (entry.kind ≠ .scan) = true := by
    rw [metadata]
    decide
  have noFrame : ¬ (MarkerKind.of entry.segment.marker).isFrame = true := by
    rw [show MarkerKind.of entry.segment.marker = .metadata from metadata]
    decide
  have moved : ((behind.map (Entry.shift distance)).takeWhile fun entry =>
      entry.kind ≠ .scan).map Entry.segment =
        (behind.takeWhile fun entry => entry.kind ≠ .scan).map Entry.segment := by
    rw [List.takeWhile_map]
    exact Entry.map_segment_shift distance _
  unfold frameSegments
  rw [List.takeWhile_append, List.takeWhile_append]
  split
  · rw [List.takeWhile_cons, if_pos notScan, List.map_append, List.map_append, List.map_cons,
      List.filter_append, List.filter_append, List.filter_cons, if_neg noFrame, moved]
  · rfl

theorem metadataOf_insert {entry : Entry} (metadata : entry.kind = .metadata)
    (front behind : List Entry) (distance : Nat) :
    metadataOf (front ++ entry :: behind.map (Entry.shift distance)) =
      metadataOf front ++ entry.segment :: metadataOf behind := by
  have moved : metadataOf (behind.map (Entry.shift distance)) = metadataOf behind := by
    rw [metadataOf_eq, Entry.map_segment_shift, metadataOf_eq]
  rw [metadataOf_append, ← moved]
  congr 1
  unfold metadataOf
  rw [List.filter_cons, if_pos (decide_eq_true metadata), List.map_cons]

theorem read_insert {file otherFile : List UInt8} {header : FileHeader} {walk other : FileWalk}
    {front behind : List Entry} {entry : Entry} {distance : Nat}
    (headed : read file = .ok header) (walked : walkFile file = .ok walk)
    (split : walk.entries = front ++ behind) (metadata : entry.kind = .metadata)
    (walkedOther : walkFile otherFile = .ok other)
    (entries : other.entries = front ++ entry :: behind.map (Entry.shift distance)) :
    ∃ otherHeader, read otherFile = .ok otherHeader ∧ otherHeader.frame = header.frame := by
  obtain ⟨ahead, scan, later, whole, noScan, isScan, -, framed⟩ := read_front headed walked
  refine read_of_frameSegments walkedOther ?_ ?_
  · rw [entries, frameSegments_insert metadata, ← split, ← frameOf_front whole noScan isScan,
      framed]
  · have member : scan ∈ walk.entries := by
      rw [whole]
      exact List.mem_append_right ahead List.mem_cons_self
    rw [split] at member
    rw [entries]
    rcases List.mem_append.mp member with inFront | isBehind
    · exact ⟨scan, List.mem_append_left _ inFront, isScan⟩
    · exact ⟨scan.shift distance, List.mem_append_right front (List.mem_cons_of_mem _
        (List.mem_map_of_mem isBehind)), isScan⟩

end FileHeader

namespace ReadState

variable {file other : List UInt8} {frame : Frame} {before otherBefore after : ReadState}

/-- What two readers know that have decoded the same data: all but where scans begin and what
describes the image is the same, and so is the data of the scans that are still to come. -/
def Alike (file other : List UInt8) (state otherState : ReadState) : Prop :=
  ∃ scanStarts metadata,
    otherState = { state with scanStarts := scanStarts, metadata := metadata } ∧
      List.Forall₂ (fun start otherStart =>
        SameScanData (file.drop start) (other.drop otherStart)) state.scanStarts scanStarts

theorem Alike.foldlM_settle {components : List Component}
    (alike : Alike file other before otherBefore)
    (done : components.foldlM ReadState.settle before = .ok after) :
    ∃ otherAfter, components.foldlM ReadState.settle otherBefore = .ok otherAfter ∧
      Alike file other after otherAfter := by
  obtain ⟨scanStarts, metadata, rfl, scans⟩ := alike
  obtain ⟨rfl, known⟩ := foldlM_settle_eq_ok_iff.mp done
  exact ⟨_, foldlM_settle_eq_ok_iff.mpr ⟨rfl, known⟩, scanStarts, metadata, rfl, scans⟩

theorem Alike.takes {entry : Entry} (alike : Alike file other before otherBefore)
    (takes : Takes file frame entry before after) :
    ∃ otherAfter, Takes other frame entry otherBefore otherAfter ∧
      Alike file other after otherAfter := by
  obtain ⟨scanStarts, metadata, rfl, scans⟩ := alike
  cases takes with
  | quantizers kind read =>
      refine ⟨_, .quantizers kind read, scanStarts, metadata, ?_, ?_⟩
      · rw [foldl_define, foldl_define]
      · rw [foldl_define]
        exact scans
  | huffman kind read => exact ⟨_, .huffman kind read, scanStarts, metadata, rfl, scans⟩
  | interval kind read => exact ⟨_, .interval kind read, scanStarts, metadata, rfl, scans⟩
  | gathers kind seen => exact ⟨_, .gathers kind seen, scanStarts, _, rfl, scans⟩
  | @decodes kind scan scanStart later grids read starts known decoded =>
      rw [starts] at scans
      obtain ⟨otherStart, otherLater, data, laterData, rfl⟩ := List.forall₂_cons_left_iff.mp scans
      rw [← (Scan.decode_confined data frame scan _ _ _).1] at decoded
      exact ⟨_, .decodes kind read rfl known decoded, otherLater, metadata, rfl, laterData⟩
  | passes notQuantizers notHuffman notInterval notScan unseen =>
      exact ⟨_, .passes notQuantizers notHuffman notInterval notScan unseen, scanStarts, metadata,
        rfl, scans⟩

theorem Alike.addMetadata {entry : Entry} (alike : Alike file other before otherBefore)
    (metadata : entry.kind = .metadata) (frame : Frame) :
    ∃ otherAfter, otherBefore.addEntry other frame entry = .ok otherAfter ∧
      Alike file other before otherAfter := by
  obtain ⟨scanStarts, gathered, rfl, scans⟩ := alike
  unfold ReadState.addEntry
  rw [metadata]
  dsimp only
  split
  · exact ⟨_, rfl, scanStarts, _, rfl, scans⟩
  · exact ⟨_, rfl, scanStarts, _, rfl, scans⟩

theorem Alike.foldlM_addEntry {entries : List Entry}
    (alike : Alike file other before otherBefore)
    (done : entries.foldlM (ReadState.addEntry file frame) before = .ok after) :
    ∃ otherAfter, entries.foldlM (ReadState.addEntry other frame) otherBefore = .ok otherAfter ∧
      Alike file other after otherAfter := by
  refine foldlM_alongside (Alike file other) ?_ alike done
  intro entry _ before otherBefore after alike step
  obtain ⟨otherAfter, takes, still⟩ := alike.takes (takes_of_addEntry step)
  exact ⟨otherAfter, takes.addEntry, still⟩

/-- Readers stay alike when the second takes in a segment that the first has not. -/
theorem Alike.foldlM_insert {front behind : List Entry} {entry : Entry}
    (alike : Alike file other before otherBefore) (metadata : entry.kind = .metadata)
    (distance : Nat)
    (done : (front ++ behind).foldlM (ReadState.addEntry file frame) before = .ok after) :
    ∃ otherAfter, (front ++ entry :: behind.map (Entry.shift distance)).foldlM
        (ReadState.addEntry other frame) otherBefore = .ok otherAfter ∧
      Alike file other after otherAfter := by
  rw [List.foldlM_append] at done
  obtain ⟨between, first, later⟩ := bind_eq_ok done
  obtain ⟨otherBetween, otherFirst, still⟩ := alike.foldlM_addEntry first
  obtain ⟨otherNext, passed, still⟩ := still.addMetadata metadata frame
  obtain ⟨otherAfter, otherLater, still⟩ := still.foldlM_addEntry later
  refine ⟨otherAfter, ?_, still⟩
  rw [List.foldlM_append, bind_of_ok otherFirst, List.foldlM_cons, bind_of_ok passed,
    List.foldlM_map]
  exact otherLater

end ReadState

namespace JpegImage

variable {file : List UInt8} {image : JpegImage} {segment : Segment}

theorem ofBytes_metadata (read : ofBytes file = .ok image) :
    ∃ walk, walkFile file = .ok walk ∧ image.metadata = FileHeader.metadataOf walk.entries := by
  obtain ⟨header, headed, rest⟩ := bind_eq_ok read
  obtain ⟨walk, walked, metadata⟩ := ofHeader_metadata headed rest
  exact ⟨walk, walked, metadata.trans (FileWalk.descriptions_eq walk)⟩

theorem ofHeader_insert {otherFile : List UInt8} {header otherHeader : FileHeader}
    {walk other : FileWalk} {front behind : List Entry} {entry : Entry} {distance : Nat}
    (read : ofHeader file header = .ok image) (walked : walkFile file = .ok walk)
    (split : walk.entries = front ++ behind) (metadata : entry.kind = .metadata)
    (walkedOther : walkFile otherFile = .ok other)
    (entries : other.entries = front ++ entry :: behind.map (Entry.shift distance))
    (data : List.Forall₂ (fun start otherStart =>
      SameScanData (file.drop start) (otherFile.drop otherStart)) walk.scanStarts other.scanStarts)
    (sameFrame : otherHeader.frame = header.frame) :
    ∃ gathered, ofHeader otherFile otherHeader = .ok { image with metadata := gathered } := by
  obtain ⟨walkAgain, walkedAgain, rest⟩ := bind_eq_ok read
  cases walked.symm.trans walkedAgain
  obtain ⟨scanned, taken, rest⟩ := bind_eq_ok rest
  obtain ⟨state, settled, last⟩ := bind_eq_ok rest
  cases last
  have begin : ReadState.Alike file otherFile (ReadState.start header walk.scanStarts)
      (ReadState.start otherHeader other.scanStarts) := by
    refine ⟨other.scanStarts, otherHeader.metadata, ?_, data⟩
    unfold ReadState.start
    rw [sameFrame]
  rw [split] at taken
  obtain ⟨otherScanned, otherTaken, alike⟩ := begin.foldlM_insert metadata distance taken
  obtain ⟨otherState, otherSettled, scanStarts, gathered, rfl, -⟩ := alike.foldlM_settle settled
  refine ⟨gathered, ?_⟩
  unfold ofHeader
  rw [bind_of_ok walkedOther, entries, sameFrame, bind_of_ok otherTaken, bind_of_ok otherSettled]
  rfl

/-- A segment that describes the image may be put into its file in front of every entry but
the first. The file holds the same image then, and the segment among those that describe it. -/
theorem ofBytes_insert (read : ofBytes file = .ok image)
    (metadata : Marker.isMetadata segment.marker = true) (short : segment.body.length ≤ 65533) :
    ∃ walk chunk, walkFile file = .ok walk ∧ segmentBytes segment = .ok chunk ∧
      ∀ front entry behind, walk.entries = front ++ entry :: behind → front ≠ [] →
        image.metadata =
            FileHeader.metadataOf front ++ FileHeader.metadataOf (entry :: behind) ∧
          ofBytes (insertBytes entry.offset chunk file) =
            .ok
              { image with
                metadata := FileHeader.metadataOf front ++
                  segment :: FileHeader.metadataOf (entry :: behind) } := by
  obtain ⟨header, headed, readImage⟩ := bind_eq_ok read
  obtain ⟨walk, walked, described⟩ := ofBytes_metadata read
  obtain ⟨chunk, written⟩ := segmentBytes_of_length short
  refine ⟨walk, chunk, walked, written, fun front entry behind split notFirst => ?_⟩
  have isMetadata : (segment.entry entry.offset).kind = .metadata :=
    (Marker.isInner_of_isMetadata metadata).1
  obtain ⟨other, walkedOther, entries, data⟩ :=
    walkFile_insert metadata written walked split notFirst
  obtain ⟨otherHeader, otherHeaded, sameFrame⟩ :=
    FileHeader.read_insert headed walked split isMetadata walkedOther entries
  obtain ⟨gathered, otherRead⟩ :=
    ofHeader_insert readImage walked split isMetadata walkedOther entries data sameFrame
  have done : ofBytes (insertBytes entry.offset chunk file) =
      .ok { image with metadata := gathered } :=
    (bind_of_ok otherHeaded).trans otherRead
  refine ⟨by rw [described, split, FileHeader.metadataOf_append], ?_⟩
  -- Where the new segment ends up among the metadata is read off the walk over the new file.
  obtain ⟨walkAgain, walkedAgain, otherDescribed⟩ := ofBytes_metadata done
  cases walkedOther.symm.trans walkedAgain
  rw [entries, FileHeader.metadataOf_insert isMetadata] at otherDescribed
  have otherDescribed : gathered = FileHeader.metadataOf front ++
      segment :: FileHeader.metadataOf (entry :: behind) := otherDescribed
  rw [done, otherDescribed]

/-- A segment that looks like a scan header, directly behind the data of the first scan. -/
theorem ofBytes_insert_annotatedFile :
    ∃ image, ofBytes annotatedFile = .ok image ∧
      ofBytes (annotatedFile.take 159 ++ [0xFF, 0xED, 0, 6, 0xFF, 0xDA, 0, 8] ++
          annotatedFile.drop 159) =
        .ok
          { image with
            metadata := image.metadata.take 2 ++
              { marker := 0xED, body := [0xFF, 0xDA, 0, 8] } :: image.metadata.drop 2 } := by
  have readable : (ofBytes annotatedFile).map (fun _ => ()) = .ok () := by
    decide +kernel
  obtain ⟨image, read, -⟩ := map_eq_ok readable
  obtain ⟨walk, chunk, walked, written, each⟩ :=
    @ofBytes_insert _ _ { marker := 0xED, body := [0xFF, 0xDA, 0, 8] } read (by decide) (by decide)
  obtain rfl : [0xFF, 0xED, 0, 6, 0xFF, 0xDA, 0, 8] = chunk := Except.ok.inj written
  have placed : (walkFile annotatedFile).map (fun walk =>
      (walk.entries[7]?.map Entry.offset,
        (FileHeader.metadataOf (walk.entries.take 7)).length)) = .ok (some 159, 2) := by
    decide +kernel
  obtain ⟨walkAgain, walkedAgain, place⟩ := map_eq_ok placed
  cases walked.symm.trans walkedAgain
  obtain ⟨found, ahead⟩ := Prod.ext_iff.mp place
  obtain ⟨entry, there, offset⟩ := Option.map_eq_some_iff.mp found
  obtain ⟨inside, same⟩ := List.getElem?_eq_some_iff.mp there
  have split : walk.entries = walk.entries.take 7 ++ entry :: walk.entries.drop 8 := by
    rw [← same, ← List.drop_eq_getElem_cons inside, List.take_append_drop]
  obtain ⟨metadata, inserted⟩ := each _ entry _ split (by
    intro empty
    rw [empty] at ahead
    cases ahead)
  refine ⟨image, read, ?_⟩
  rw [metadata, List.take_left' ahead, List.drop_left' ahead, ← offset]
  exact inserted

end JpegImage

end LosslessJpeg
