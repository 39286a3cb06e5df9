import LosslessJpeg.Proofs.Image.Framing
import LosslessJpeg.Proofs.Marker.Places
import LosslessJpeg.Proofs.Transform.Completion

set_option autoImplicit false

/-!
The segments that describe an image go through a transformation once each. The header of a
file ends with its first scan header, and what the reader gathers behind that begins there, so
that nothing is lost between the two and nothing is taken twice.
-/

namespace LosslessJpeg

def FileWalk.descriptions (walk : FileWalk) : List Segment :=
  (walk.entries.map Entry.segment).filter fun segment => Marker.isMetadata segment.marker

theorem FileWalk.descriptions_eq (walk : FileWalk) :
    walk.descriptions = FileHeader.metadataOf walk.entries := by
  rw [FileHeader.metadataOf_eq]
  refine List.filter_congr fun segment _ => ?_
  rw [Bool.eq_iff_iff, decide_eq_true_iff]
  exact ⟨fun metadata => (Marker.isInner_of_isMetadata metadata).1, Marker.isMetadata_of_kind⟩

theorem FileHeader.metadataOf_append (front later : List Entry) :
    metadataOf (front ++ later) = metadataOf front ++ metadataOf later := by
  unfold metadataOf
  rw [List.filter_append, List.map_append]

theorem FileHeader.metadataOf_singleton (entry : Entry) :
    metadataOf [entry] = if entry.kind = .metadata then [entry.segment] else [] := by
  unfold metadataOf
  by_cases kind : entry.kind = .metadata
  · rw [List.filter_cons, if_pos (decide_eq_true kind), if_pos kind]
    rfl
  · rw [List.filter_cons, if_neg (by simpa using kind), if_neg kind]
    rfl

theorem afterStart_kind {file : List UInt8} {entry : Entry} {cursor : Cursor}
    (started : afterStart file = .ok (entry, cursor)) : entry.kind = .other := by
  obtain ⟨-, -, rfl, -⟩ := afterStart_eq_ok started
  rfl

namespace ReadState

variable {file : List UInt8} {frame : Frame} {before after : ReadState}

/-- An entry is gathered if it describes the image and stands behind a scan header. -/
theorem Takes.gathered {entry : Entry} (takes : Takes file frame entry before after) :
    after.scanSeen = (before.scanSeen || entry.kind = .scan) ∧
      after.metadata = before.metadata ++
        if before.scanSeen then FileHeader.metadataOf [entry] else [] := by
  rw [FileHeader.metadataOf_singleton]
  cases takes with
  | quantizers kind =>
      rw [foldl_define]
      simp [kind]
  | huffman kind | interval kind | decodes kind => simp [kind]
  | gathers kind seen => simp [kind, seen]
  | passes _ _ _ notScan unseen =>
      by_cases kind : entry.kind = .metadata
      · simp [kind, unseen kind]
      · simp [kind, notScan]

theorem foldlM_addEntry_unseen {entries : List Entry} (unseen : before.scanSeen = false)
    (noScan : ∀ entry ∈ entries, entry.kind ≠ .scan)
    (done : entries.foldlM (addEntry file frame) before = .ok after) :
    after.scanSeen = false ∧ after.metadata = before.metadata := by
  refine foldlM_preserves
    (fun state : ReadState => state.scanSeen = false ∧ state.metadata = before.metadata)
    (fun entry member _ _ holds step => ?_) ⟨unseen, rfl⟩ done
  obtain ⟨seen, gathered⟩ := (takes_of_addEntry step).gathered
  rw [holds.1, if_neg Bool.false_ne_true, List.append_nil] at gathered
  rw [holds.1, decide_eq_false (noScan entry member)] at seen
  exact ⟨seen, gathered.trans holds.2⟩

theorem foldlM_addEntry_seen {entries : List Entry} (seen : before.scanSeen = true)
    (done : entries.foldlM (addEntry file frame) before = .ok after) :
    after.metadata = before.metadata ++ FileHeader.metadataOf entries := by
  induction entries generalizing before with
  | nil =>
      cases done
      exact (List.append_nil _).symm
  | cons entry rest inductionHypothesis =>
      rw [List.foldlM_cons] at done
      obtain ⟨between, first, later⟩ := bind_eq_ok done
      obtain ⟨stillSeen, gathered⟩ := (takes_of_addEntry first).gathered
      rw [seen] at stillSeen gathered
      rw [inductionHypothesis stillSeen later, gathered, if_pos rfl, List.append_assoc,
        ← FileHeader.metadataOf_append]
      rfl

end ReadState

theorem FileHeader.read_eq_ok {file : List UInt8} {header : FileHeader}
    (read : FileHeader.read file = .ok header) :
    ∃ walk, walkHeader file = .ok walk ∧ header.metadata = metadataOf walk.entries ∧
      frameOf walk.entries = .ok (some header.frame) ∧
      (walk.entries.any fun entry => entry.kind = .scan) = true := by
  obtain ⟨walk, walked, rest⟩ := bind_eq_ok read
  obtain ⟨found, framed, last⟩ := bind_eq_ok rest
  cases found with
  | none => cases last
  | some frame =>
      dsimp only at last
      split at last
      · rename_i scan
        cases last
        exact ⟨walk, walked, rfl, framed, scan⟩
      · cases last

theorem FileHeader.read_front {file : List UInt8} {header : FileHeader} {walk : FileWalk}
    (read : FileHeader.read file = .ok header) (walked : walkFile file = .ok walk) :
    ∃ front scan later, walk.entries = front ++ scan :: later ∧
      (∀ entry ∈ front, entry.kind ≠ .scan) ∧ scan.kind = .scan ∧
      header.metadata = metadataOf (front ++ [scan]) ∧
      frameOf (front ++ [scan]) = .ok (some header.frame) := by
  obtain ⟨headerWalk, walkedHeader, metadata, framed, hasScan⟩ := FileHeader.read_eq_ok read
  obtain ⟨_, walkedAgain, front, last, later, same, whole, inner, -⟩ := walkHeader_beginning walked
  cases walkedHeader.symm.trans walkedAgain
  have noScan : ∀ entry ∈ front, entry.kind ≠ .scan := fun entry member => (inner entry member).1
  rw [same] at metadata framed hasScan
  refine ⟨front, last, later, whole, noScan, ?_, metadata, framed⟩
  obtain ⟨entry, member, kind⟩ := List.any_eq_true.mp hasScan
  have kind := of_decide_eq_true kind
  rcases List.mem_append.mp member with inFront | isLast
  · exact absurd kind (noScan entry inFront)
  · rwa [List.mem_singleton.mp isLast] at kind

/-- The metadata of an image is that of its file, wherever in the file it stands. -/
theorem JpegImage.ofHeader_metadata {file : List UInt8} {header : FileHeader}
    {image : JpegImage} (headed : FileHeader.read file = .ok header)
    (read : ofHeader file header = .ok image) :
    ∃ walk, walkFile file = .ok walk ∧ image.metadata = walk.descriptions := by
  obtain ⟨walk, walked, rest⟩ := bind_eq_ok read
  refine ⟨walk, walked, ?_⟩
  obtain ⟨scanned, gathered, rest⟩ := bind_eq_ok rest
  obtain ⟨state, settled, last⟩ := bind_eq_ok rest
  cases last
  obtain ⟨front, scan, later, whole, noScan, isScan, metadata, -⟩ :=
    FileHeader.read_front headed walked
  -- Up to the first scan header the metadata is that of the header.
  rw [whole, List.foldlM_append] at gathered
  obtain ⟨reached, untilScan, rest⟩ := bind_eq_ok gathered
  obtain ⟨unseen, same⟩ := ReadState.foldlM_addEntry_unseen rfl noScan untilScan
  rw [List.foldlM_cons] at rest
  obtain ⟨decoded, step, behind⟩ := bind_eq_ok rest
  obtain ⟨seen, none⟩ := (ReadState.takes_of_addEntry step).gathered
  rw [unseen, isScan] at seen
  rw [unseen, if_neg Bool.false_ne_true, List.append_nil, same] at none
  rw [FileWalk.descriptions_eq, whole, List.append_cons, FileHeader.metadataOf_append, ← metadata]
  obtain ⟨rfl, -⟩ := ReadState.foldlM_settle_eq_ok_iff.mp settled
  dsimp only
  rw [ReadState.foldlM_addEntry_seen seen behind, none]
  rfl

namespace JpegImage

variable {image : JpegImage} {file : List UInt8}

theorem toBytes_metadata (written : image.toBytes = .ok file) :
    ∃ tail, ∀ metadata chunks, metadata.mapM segmentBytes = .ok chunks →
      { image with metadata := metadata }.toBytes =
        .ok ([0xFF, Marker.startOfImage] ++ chunks.flatten ++ tail) := by
  obtain ⟨tokens, tokenized, rest⟩ := bind_eq_ok written
  obtain ⟨scan, writtenScan, rest⟩ := bind_eq_ok rest
  obtain ⟨chunks, writtenSegments, -⟩ := bind_eq_ok rest
  unfold segments at writtenSegments
  rw [List.mapM_append] at writtenSegments
  obtain ⟨own, writtenOwn, later⟩ := bind_eq_ok writtenSegments
  obtain ⟨others, writtenOthers, -⟩ := bind_eq_ok later
  refine ⟨others.flatten ++ scan ++ [0xFF, Marker.endOfImage], fun metadata front writtenFront =>
    ?_⟩
  have all : (segments { image with metadata := metadata }
      (image.optimalSlots (SymbolCounts.ofTokens tokens))).mapM segmentBytes =
        .ok (front ++ others) := by
    unfold segments
    rw [List.mapM_append, bind_of_ok writtenFront]
    exact (bind_of_ok writtenOthers).trans rfl
  unfold toBytes
  refine (bind_of_ok tokenized).trans ((bind_of_ok writtenScan).trans ((bind_of_ok all).trans ?_))
  rw [List.flatten_append]
  simp only [List.append_assoc]
  rfl

theorem descriptions_toBytes
    (described : ∀ segment ∈ image.metadata, Marker.isMetadata segment.marker = true)
    (written : image.toBytes = .ok file) :
    ∃ walk, walkFile file = .ok walk ∧ walk.descriptions = image.metadata := by
  obtain ⟨slots, -, walk, -, walked, segments, -⟩ := walkFile_toBytes described written
  refine ⟨walk, walked, ?_⟩
  rw [FileWalk.descriptions_eq, FileHeader.metadataOf_eq, segments, List.filter_append,
    filter_entries described]
  exact List.append_nil _

end JpegImage

theorem segmentBytes_of_short {segments : List Segment}
    (short : ∀ segment ∈ segments, segment.body.length ≤ 65533) :
    ∃ chunks, segments.mapM segmentBytes = .ok chunks := by
  have each (segment : Segment) (member : segment ∈ segments) :
      ∃ chunk, segmentBytes segment = .ok chunk ∧ True :=
    ⟨_, if_neg (Nat.not_lt.mpr (short segment member)), trivial⟩
  obtain ⟨chunks, written, -⟩ := mapM_of_forall each
  exact ⟨chunks, written⟩

section Transforming

variable {file : List UInt8} {directive : Directive} {options : TransformOptions}
  {transformed : Transformed}

theorem Transformation.make_grayscale {frame : Frame} {transformation : Transformation}
    (made : make frame directive options = .ok transformation) :
    transformation.grayscale = (options.grayscale && frame.components.length != 1) := by
  obtain ⟨grayscale, colour, rest⟩ := bind_eq_ok made
  obtain ⟨plan, -, rest⟩ := bind_eq_ok rest
  obtain ⟨placement, -, last⟩ := bind_eq_ok rest
  cases last
  unfold dropsColour at colour
  dsimp only at colour
  split at colour
  · cases colour
  · cases colour
    rfl

theorem Transformation.apply_policy {transformation : Transformation} {policy : MetadataPolicy}
    {source result : JpegImage} (applied : transformation.apply policy source = .ok result)
    (other : MetadataPolicy) :
    transformation.apply other source =
      .ok { result with metadata := other.select transformation.grayscale source.metadata } := by
  obtain ⟨frame, framed, rest⟩ := bind_eq_ok applied
  obtain ⟨built, grids, quantizers, -, wellFormed⟩ :=
    JpegImage.ofGrids_eq_ok (writing_eq_ok.mp rest)
  refine (bind_of_ok framed).trans (writing_eq_ok.mpr ?_)
  rw [← grids, JpegImage.ofGrids_of_fits built wellFormed.fits
    (quantizers ▸ wellFormed.quantized), ← quantizers]

/-- The segments of a file that describe its image are those of its source, as many as the
policy keeps, in order and as they were. The bytes behind them do not depend on the policy. -/
theorem transform_metadata (done : transform file directive options = .ok transformed) :
    ∃ header source written tail, FileHeader.read file = .ok header ∧
      walkFile file = .ok source ∧ walkFile transformed.bytes = .ok written ∧
      written.descriptions = source.descriptions.filter (fun segment =>
        options.metadata.keeps segment &&
          !((options.grayscale && header.frame.components.length != 1) && segment.isAdobe)) ∧
      ∀ policy : MetadataPolicy, ∃ chunks,
        (policy.select (options.grayscale && header.frame.components.length != 1)
          source.descriptions).mapM segmentBytes = .ok chunks ∧
        transform file directive { options with metadata := policy } =
          .ok
            { transformed with
              bytes := [0xFF, Marker.startOfImage] ++ chunks.flatten ++ tail } := by
  obtain ⟨header, transformation, source, result, headed, made, read, applied, toBytes, edge⟩ :=
    transform_eq_ok done
  obtain ⟨walk, walked, metadata⟩ := JpegImage.ofHeader_metadata headed read
  obtain ⟨tail, others⟩ := JpegImage.toBytes_metadata toBytes
  have sound := JpegImage.sound_of_ofHeader (FileHeader.sound_of_read headed) read
  have carried : ∀ policy : MetadataPolicy, ∀ segment ∈
      policy.select transformation.grayscale source.metadata, segment.Describes :=
    fun policy segment member => sound.metadata segment (MetadataPolicy.mem_of_mem_select member)
  have own := (Transformation.apply_eq_ok applied).2.2.2.1
  obtain ⟨written, rewalked, same⟩ := JpegImage.descriptions_toBytes
    (own ▸ fun segment member => (carried _ segment member).1) toBytes
  rw [own, MetadataPolicy.select, Transformation.make_grayscale made, metadata] at same
  refine ⟨header, walk, written, tail, headed, walked, rewalked, same, fun policy => ?_⟩
  obtain ⟨chunks, short⟩ := segmentBytes_of_short fun segment member =>
    (carried policy segment member).2
  refine ⟨chunks, ?_, ?_⟩
  · rw [Transformation.make_grayscale made, metadata] at short
    exact short
  · unfold transform
    -- The policy takes part in no step but the last one before writing.
    have remade : Transformation.make header.frame directive { options with metadata := policy } =
        .ok transformation := made
    rw [bind_of_ok (reading_eq_ok.mpr headed), bind_of_ok remade,
      bind_of_ok (reading_eq_ok.mpr read), bind_of_ok (Transformation.apply_policy applied policy),
      bind_of_ok (writing_eq_ok.mpr (others _ _ short))]
    rw [edge]
    rfl

end Transforming

/-- A file of three scans with a comment between the first and the second, and more to say
behind the last. -/
def annotatedFile : List UInt8 :=
  [0xFF, 0xD8, 0xFF, 0xE0, 0, 7, 0x4A, 0x46, 0x49, 0x46, 0, 0xFF, 0xDB, 0, 67, 0] ++
    List.replicate 64 1 ++
    [0xFF, 0xEE, 0, 7, 0x41, 0x64, 0x6F, 0x62, 0x65,
     0xFF, 0xC0, 0, 17, 8, 0, 8, 0, 8, 3, 1, 0x11, 0, 2, 0x11, 0, 3, 0x11, 0,
     0xFF, 0xC4, 0, 38,
     0x00, 1, 0, 0, 0, 0, 0, 0, 0, 0, 0, 0, 0, 0, 0, 0, 0, 0,
     0x10, 1, 0, 0, 0, 0, 0, 0, 0, 0, 0, 0, 0, 0, 0, 0, 0, 0,
     0xFF, 0xDA, 0, 8, 1, 1, 0, 0, 63, 0, 0x3F, 0xFF, 0xFE, 0, 4, 0x68, 0x69,
     0xFF, 0xDA, 0, 8, 1, 2, 0, 0, 63, 0, 0x3F,
     0xFF, 0xDA, 0, 8, 1, 3, 0, 0, 63, 0, 0x3F, 0xFF, 0xE1, 0, 3, 0x2A,
     0xFF, 0xFE, 0, 3, 0x21, 0xFF, 0xD9]

theorem transform_metadata_annotatedFile : ∃ transformed written,
    transform annotatedFile (.orient .rotate90) { grayscale := true, metadata := .comments } =
      .ok transformed ∧
      walkFile transformed.bytes = .ok written ∧
      written.descriptions =
        [{ marker := 0xE0, body := [0x4A, 0x46, 0x49, 0x46, 0] },
         { marker := Marker.comment, body := [0x68, 0x69] },
         { marker := Marker.comment, body := [0x21] }] := by
  have planned : measured annotatedFile (.orient .rotate90)
      { grayscale := true, metadata := .comments } (fun _ source _ => source.components.length) =
        .ok (0, 3) := by
    decide +kernel
  obtain ⟨header, -, image, -, transformed, headed, -, read, -, done, count⟩ :=
    exists_transformed_of_measured planned (by decide)
  obtain ⟨header', source, written, -, headed', walked, rewalked, same, -⟩ :=
    transform_metadata done
  cases headed.symm.trans headed'
  have described : (walkFile annotatedFile).map FileWalk.descriptions =
      .ok
        [{ marker := 0xE0, body := [0x4A, 0x46, 0x49, 0x46, 0] },
         { marker := 0xEE, body := [0x41, 0x64, 0x6F, 0x62, 0x65] },
         { marker := Marker.comment, body := [0x68, 0x69] },
         { marker := 0xE1, body := [0x2A] },
         { marker := Marker.comment, body := [0x21] }] := by
    decide +kernel
  obtain ⟨source', walked', segments⟩ := map_eq_ok described
  cases walked.symm.trans walked'
  refine ⟨transformed, written, done, rewalked, ?_⟩
  rw [same, segments, ← JpegImage.ofHeader_frame read, count]
  decide

end LosslessJpeg
