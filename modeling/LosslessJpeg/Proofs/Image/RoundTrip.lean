import LosslessJpeg.Proofs.Image.ReadSteps
import LosslessJpeg.Proofs.Image.WellFormed
import LosslessJpeg.Proofs.Image.WrittenTables
import LosslessJpeg.Proofs.Marker.WrittenFile

set_option autoImplicit false

/-!
Reading the file of an image: everything but the coefficients comes back in any case, and
the coefficients come back exactly if they are representable.
-/

namespace LosslessJpeg

namespace JpegImage

structure Recoverable (image : JpegImage) : Prop extends image.WellFormed where
  sequential : image.frame.progressive = false
  distinct : (image.frame.components.map (·.id)).Nodup
  definable : ∀ component ∈ image.frame.components, ∀ table,
    image.quantizers[component.quantizer]?.join = some table → table.Definable
  metadata : ∀ segment ∈ image.metadata, Marker.isMetadata segment.marker = true

/-- What the file of an image says: tables that no component uses are left out. -/
def written (image : JpegImage) : JpegImage :=
  { image with quantizers := image.usedQuantizers }

variable {image : JpegImage}

theorem usedQuantizers_get (id : Fin 4) :
    image.usedQuantizers.get id =
      if image.frame.components.any fun component => component.quantizer = id.val then
        image.quantizers.get id
      else
        none :=
  get_ofFn _ id

theorem Recoverable.definable_used (recoverable : image.Recoverable) {id : Fin 4}
    {table : QuantizerTable} (used : image.usedQuantizers.get id = some table) :
    table.Definable := by
  rw [usedQuantizers_get] at used
  split at used
  · rename_i uses
    obtain ⟨component, member, same⟩ := List.any_eq_true.mp uses
    apply recoverable.definable component member table
    rw [of_decide_eq_true same, getElem?_join_val, used]
  · cases used

theorem WellFormed.used (wellFormed : image.WellFormed) {component : Component}
    (member : component ∈ image.frame.components) :
    ∃ id : Fin 4, component.quantizer = id.val ∧ (image.usedQuantizers.get id).isSome := by
  obtain ⟨table, slot⟩ := wellFormed.quantized component member
  have small := (image.frame.admissible component member).2.2.2.2
  refine ⟨⟨component.quantizer, small⟩, rfl, ?_⟩
  have uses : (image.frame.components.any fun other =>
      other.quantizer = component.quantizer) = true :=
    List.any_eq_true.mpr ⟨component, member, decide_eq_true rfl⟩
  rw [usedQuantizers_get, if_pos uses, ← getElem?_join_val, slot]
  rfl

def front (image : JpegImage) (slots : HuffmanSlots) : List Segment :=
  image.metadata ++
    [{ marker := Marker.quantizerTables, body := quantizerBody image.usedQuantizers },
     { marker := image.frameMarker, body := image.frame.bytes },
     { marker := Marker.huffmanTables, body := huffmanBody slots.tables }]

def scanSegment (image : JpegImage) : Segment :=
  { marker := Marker.startOfScan
    body := image.scanHeaderBytes }

theorem segments_eq (slots : HuffmanSlots) :
    image.segments slots = image.front slots ++ [image.scanSegment] := by
  unfold segments front
  rw [List.append_assoc]
  rfl

theorem frameMarker_eq (image : JpegImage) :
    image.frameMarker = Marker.baselineFrame ∨ image.frameMarker = Marker.extendedFrame := by
  unfold frameMarker
  split
  · exact Or.inl rfl
  · exact Or.inr rfl

theorem kind_frameMarker (image : JpegImage) :
    MarkerKind.of image.frameMarker = .frame false :=
  if_pos image.frameMarker_eq

theorem front_inner
    (described : ∀ segment ∈ image.metadata, Marker.isMetadata segment.marker = true)
    (slots : HuffmanSlots) : ∀ segment ∈ image.front slots, segment.Inner := by
  intro segment member
  rcases List.mem_append.mp member with metadata | own
  · exact (Marker.isInner_of_isMetadata (described segment metadata)).2.segment _
  · have frameInner : Marker.IsInner image.frameMarker := by
      rcases frameMarker_eq image with same | same
      · rw [same]
        decide
      · rw [same]
        decide
    simp only [List.mem_cons, List.not_mem_nil, or_false] at own
    rcases own with rfl | rfl | rfl
    · exact Marker.IsInner.segment (by decide) _
    · exact frameInner.segment _
    · exact Marker.IsInner.segment (by decide) _

theorem scanSegment_walkable : image.scanSegment.Walkable where
  notStuffing := (by decide : Marker.startOfScan ≠ 0)
  notFill := (by decide : Marker.startOfScan ≠ 0xFF)
  notAlone := (by decide : Marker.isStandalone Marker.startOfScan = false)
  supported := (by decide : Marker.isUnsupported Marker.startOfScan = false)

private theorem frameOf_metadata {segments : List Segment}
    (metadata : ∀ segment ∈ segments, Marker.isMetadata segment.marker = true)
    (rest : List Entry) :
    FileHeader.frameOf (segments.map Entry.ofSegment ++ rest) = FileHeader.frameOf rest := by
  induction segments with
  | nil => rfl
  | cons segment others inductionHypothesis =>
      have kind : (Entry.ofSegment segment).kind = .metadata :=
        (Marker.isInner_of_isMetadata (metadata segment List.mem_cons_self)).1
      rw [List.map_cons, List.cons_append, FileHeader.frameOf_cons (by rw [kind]; nofun)]
      exact inductionHypothesis fun other member =>
        metadata other (List.mem_cons_of_mem _ member)

private theorem filter_metadata {segments : List Segment}
    (metadata : ∀ segment ∈ segments, Marker.isMetadata segment.marker = true) :
    segments.filter (fun segment => MarkerKind.of segment.marker = .metadata) = segments := by
  rw [List.filter_eq_self]
  intro segment member
  exact decide_eq_true (Marker.isInner_of_isMetadata (metadata segment member)).1

def entries (image : JpegImage) (slots : HuffmanSlots) : List Segment :=
  { marker := Marker.startOfImage, body := [] } :: (image.front slots ++ [image.scanSegment])

private theorem frameOf_entries
    (normal : soleComponent image.frame.components = image.frame.components)
    (sequential : image.frame.progressive = false)
    (described : ∀ segment ∈ image.metadata, Marker.isMetadata segment.marker = true)
    (slots : HuffmanSlots) :
    FileHeader.frameOf ((image.entries slots).map Entry.ofSegment) = .ok (some image.frame) := by
  have startKind : (Entry.ofSegment { marker := Marker.startOfImage, body := [] }).kind =
      .other := rfl
  have tableKind : (Entry.ofSegment { marker := Marker.quantizerTables
                                      body := quantizerBody image.usedQuantizers }).kind =
      .quantizerTables := rfl
  rw [entries, front, List.map_cons, List.map_append, List.map_append, List.append_assoc,
    FileHeader.frameOf_cons (by rw [startKind]; nofun), frameOf_metadata described,
    List.map_cons, List.cons_append, FileHeader.frameOf_cons (by rw [tableKind]; nofun)]
  unfold FileHeader.frameOf
  rw [List.map_cons, List.cons_append, List.foldlM_cons]
  have kind : (Entry.ofSegment { marker := image.frameMarker
                                 body := image.frame.bytes }).kind = .frame false :=
    image.kind_frameMarker
  rw [kind]
  have read := Frame.ofBytes_bytes normal sequential
  change (Except.map some (Frame.ofBytes false image.frame.bytes) >>= _) = _
  rw [read]
  rfl

theorem filter_entries
    (described : ∀ segment ∈ image.metadata, Marker.isMetadata segment.marker = true)
    (slots : HuffmanSlots) :
    (image.entries slots).filter (fun segment => MarkerKind.of segment.marker = .metadata) =
      image.metadata := by
  have noMetadata : MarkerKind.of image.frameMarker ≠ .metadata := by
    rw [image.kind_frameMarker]
    nofun
  rw [entries, front, List.append_assoc, List.filter_cons_of_neg (by decide),
    List.filter_append, filter_metadata described, List.append_right_eq_self,
    List.filter_eq_nil_iff]
  intro segment member
  rw [decide_eq_true_eq]
  simp only [List.mem_append, List.mem_cons, List.not_mem_nil, or_false] at member
  rcases member with (rfl | rfl | rfl) | rfl
  · nofun
  · exact noMetadata
  · nofun
  · nofun

/-- The header of a written file says what its image says, even if its components cannot be
told apart. -/
theorem read_written_header
    (normal : soleComponent image.frame.components = image.frame.components)
    (sequential : image.frame.progressive = false)
    (described : ∀ segment ∈ image.metadata, Marker.isMetadata segment.marker = true)
    {slots : HuffmanSlots} {chunks : List (List UInt8)}
    (written : (image.segments slots).mapM segmentBytes = .ok chunks) (rest : List UInt8) :
    FileHeader.read ([0xFF, Marker.startOfImage] ++ chunks.flatten ++ rest) =
      .ok
        { frame := image.frame
          metadata := image.metadata } := by
  rw [segments_eq] at written
  obtain ⟨walk, walked, segments⟩ := walkHeader_written
    (front_inner described slots) scanSegment_walkable rfl written rest
  change walk.entries.map Entry.segment = image.entries slots at segments
  have frame : FileHeader.frameOf walk.entries = .ok (some image.frame) := by
    rw [FileHeader.frameOf_ofSegments, segments]
    exact frameOf_entries normal sequential described slots
  have metadata : FileHeader.metadataOf walk.entries = image.metadata := by
    rw [FileHeader.metadataOf_eq, segments]
    exact filter_entries described slots
  have scanned : (walk.entries.any fun entry => entry.kind = .scan) = true := by
    rw [FileHeader.any_scan_eq, segments]
    exact List.any_eq_true.mpr ⟨image.scanSegment,
      List.mem_cons_of_mem _ (List.mem_append_right _ (List.mem_singleton.mpr rfl)),
      decide_eq_true rfl⟩
  unfold FileHeader.read
  rw [bind_of_ok walked, bind_of_ok frame]
  dsimp only
  rw [if_pos scanned, metadata]
  rfl

open ReadState (addEntry)

variable {file : List UInt8} {frame : Frame} {state : ReadState}

private theorem addEntry_metadata {segments : List Segment} (unseen : state.scanSeen = false)
    (metadata : ∀ segment ∈ segments, Marker.isMetadata segment.marker = true)
    (rest : List Entry) :
    (segments.map Entry.ofSegment ++ rest).foldlM (addEntry file frame) state =
      rest.foldlM (addEntry file frame) state := by
  induction segments with
  | nil => rfl
  | cons segment others inductionHypothesis =>
      have kind : (Entry.ofSegment segment).kind = .metadata :=
        (Marker.isInner_of_isMetadata (metadata segment List.mem_cons_self)).1
      have unchanged : addEntry file frame state (Entry.ofSegment segment) = .ok state := by
        unfold addEntry
        rw [kind, unseen]
        rfl
      rw [List.map_cons, List.cons_append, List.foldlM_cons, bind_of_ok unchanged]
      exact inductionHypothesis fun other member =>
        metadata other (List.mem_cons_of_mem _ member)

private theorem addEntry_quantizers (recoverable : image.Recoverable)
    (undefined : state.defined = Vector.replicate 4 none) :
    addEntry file frame state (Entry.ofSegment { marker := Marker.quantizerTables
                                                 body := quantizerBody image.usedQuantizers }) =
      .ok { state with defined := image.usedQuantizers } := by
  have read := quantizersOfBody_quantizerBody fun id table => recoverable.definable_used
  have defined : (presentQuantizers image.usedQuantizers (List.finRange 4)).foldl
      (fun slots table => slots.set table.1.val (some table.2) table.1.isLt) state.defined =
        image.usedQuantizers := by
    apply ext_get
    intro id
    rw [ReadState.foldl_set_presentQuantizers, undefined, get_replicate]
    cases image.usedQuantizers.get id with
    | none => exact ite_self _
    | some table => exact if_pos ⟨List.mem_finRange id, rfl⟩
  refine (bind_of_ok read).trans ?_
  rw [ReadState.foldl_define, defined]
  rfl

private theorem addEntry_frame :
    addEntry file frame state (Entry.ofSegment { marker := image.frameMarker
                                                 body := image.frame.bytes }) = .ok state := by
  have kind : (Entry.ofSegment { marker := image.frameMarker
                                 body := image.frame.bytes }).kind = .frame false :=
    image.kind_frameMarker
  unfold addEntry
  rw [kind]

private theorem addEntry_huffman (counts : SymbolCounts)
    (empty : state.huffman = HuffmanSlots.empty) :
    addEntry file frame state (Entry.ofSegment
        { marker := Marker.huffmanTables
          body := huffmanBody (image.optimalSlots counts).tables }) =
      .ok { state with huffman := image.optimalSlots counts } := by
  have read := huffmanTablesOfBody_huffmanBody (image.definable_optimalSlots counts)
  have installed := image.install_optimalSlots counts
  rw [← empty] at installed
  refine (bind_of_ok read).trans ?_
  rw [installed]
  rfl

private def announced (image : JpegImage) (slots : HuffmanSlots) (scanStarts : List Nat) :
    ReadState :=
  { ReadState.start { frame := image.frame, metadata := image.metadata } scanStarts with
    defined := image.usedQuantizers
    huffman := slots }

/-- The segments before the scan header define the tables that the scan uses. -/
private theorem foldlM_front (recoverable : image.Recoverable) (counts : SymbolCounts)
    (scanStarts : List Nat) (rest : List Entry) :
    (((image.front (image.optimalSlots counts)).map Entry.ofSegment) ++ rest).foldlM
        (addEntry file frame) (ReadState.start
          { frame := image.frame, metadata := image.metadata } scanStarts) =
      rest.foldlM (addEntry file frame)
        (image.announced (image.optimalSlots counts) scanStarts) := by
  rw [front, List.map_append, List.append_assoc, addEntry_metadata rfl recoverable.metadata,
    List.map_cons, List.map_cons, List.map_singleton, List.cons_append, List.foldlM_cons,
    bind_of_ok (addEntry_quantizers recoverable rfl), List.cons_append, List.foldlM_cons,
    bind_of_ok addEntry_frame, List.cons_append, List.foldlM_cons,
    bind_of_ok (addEntry_huffman counts rfl), List.nil_append]
  rfl

/-! ### The scan -/

private theorem filterMap_range' (components : List Component) :
    (List.range components.length).filterMap (components[·]?) = components := by
  induction components with
  | nil => rfl
  | cons component rest inductionHypothesis =>
      rw [List.length_cons, List.range_succ_eq_map, List.filterMap_cons, List.filterMap_map]
      exact congrArg _ inductionHypothesis

private theorem coded_wholeScan {tables : List (Fin 4)}
    (tabled : tables.length = frame.components.length) :
    ((wholeScan tables).components.filterMap fun component =>
      frame.components[component.index]?) = frame.components := by
  have places : tables.zipIdx.map Prod.snd = List.range frame.components.length := by
    rw [List.zipIdx_map_snd, tabled, List.range_eq_range']
  unfold wholeScan
  rw [List.filterMap_map]
  refine Eq.trans ?_ (filterMap_range' frame.components)
  rw [← places, List.filterMap_map]
  rfl

private def scanned (image : JpegImage) (slots : HuffmanSlots) (grids : Array Grid) :
    ReadState :=
  { image.announced slots [] with
    settled := image.usedQuantizers
    scanSeen := true
    grids := grids }

private theorem settle_announced (recoverable : image.Recoverable) (slots : HuffmanSlots)
    (scanStarts : List Nat) :
    image.frame.components.foldlM ReadState.settle (image.announced slots scanStarts) =
      .ok { image.announced slots scanStarts with settled := image.usedQuantizers } := by
  have undefined : (image.announced slots scanStarts).settled = Vector.replicate 4 none := rfl
  have defined : (image.announced slots scanStarts).defined = image.usedQuantizers := rfl
  have settled : (image.announced slots scanStarts).settledAfter image.frame.components =
      image.usedQuantizers := by
    apply ext_get
    intro id
    rw [ReadState.settledAfter_get, undefined, defined, get_replicate, Option.none_or,
      usedQuantizers_get]
    split
    · rfl
    · rfl
  rw [ReadState.foldlM_settle, settled]
  intro component member
  obtain ⟨id, named, present⟩ := recoverable.used member
  refine ⟨id, named, ?_⟩
  rw [undefined, defined, get_replicate, Option.none_or]
  exact present

private theorem settle_scanned (recoverable : image.Recoverable) (slots : HuffmanSlots)
    (grids : Array Grid) :
    image.frame.components.foldlM ReadState.settle (image.scanned slots grids) =
      .ok (image.scanned slots grids) := by
  have settled : (image.scanned slots grids).settled = image.usedQuantizers := rfl
  have defined : (image.scanned slots grids).defined = image.usedQuantizers := rfl
  have same : (image.scanned slots grids).settledAfter image.frame.components =
      (image.scanned slots grids).settled := by
    apply ext_get
    intro id
    rw [ReadState.settledAfter_get, settled, defined, Option.or_self, ite_self]
  rw [ReadState.foldlM_settle, same]
  intro component member
  obtain ⟨id, named, present⟩ := recoverable.used member
  refine ⟨id, named, ?_⟩
  rw [settled, defined, Option.or_self]
  exact present

private theorem addEntry_scan (recoverable : image.Recoverable) (counts : SymbolCounts)
    (start : Nat) :
    addEntry file image.frame (image.announced (image.optimalSlots counts) [start])
        (Entry.ofSegment image.scanSegment) =
      match Scan.decode image.frame (wholeScan image.tableIds) (image.optimalSlots counts) 0
          (file.drop start) image.frame.zeroGrids with
      | .error failure _ => .error failure
      | .ok () grids => .ok (image.scanned (image.optimalSlots counts) grids) := by
  have tabled : image.tableIds.length = image.frame.components.length := by
    rw [tableIds_length, recoverable.fits.size]
  have header : Scan.ofBytes image.frame image.scanHeaderBytes =
      .ok (wholeScan image.tableIds) := Scan.ofBytes_header recoverable.distinct tabled
  refine (bind_of_ok header).trans ?_
  rw [coded_wholeScan tabled]
  refine (bind_of_ok (settle_announced recoverable _ [start])).trans ?_
  rfl

/-- Reading a written file comes down to decoding its scan. -/
private theorem ofBytes_written (recoverable : image.Recoverable) (counts : SymbolCounts)
    {chunks : List (List UInt8)}
    (written : (image.segments (image.optimalSlots counts)).mapM segmentBytes = .ok chunks)
    (data : List UInt8) :
    ofBytes ([0xFF, Marker.startOfImage] ++ chunks.flatten ++ stuffed data ++
        [0xFF, Marker.endOfImage]) =
      match Scan.decode image.frame (wholeScan image.tableIds) (image.optimalSlots counts) 0
          (stuffed data ++ [0xFF, Marker.endOfImage]) image.frame.zeroGrids with
      | .error failure _ => .error failure
      | .ok () grids => .ok { image.written with grids := grids } := by
  have header := read_written_header recoverable.normal recoverable.sequential
    recoverable.metadata written (stuffed data ++ [0xFF, Marker.endOfImage])
  rw [← List.append_assoc] at header
  rw [segments_eq] at written
  obtain ⟨walk, start, walked, segments, starts, behind, -⟩ := walkFile_written
    (front_inner recoverable.metadata _) scanSegment_walkable rfl written data
  -- The start of the image is an entry of the walk, but it changes nothing.
  have startEntry : ∀ state, addEntry ([0xFF, Marker.startOfImage] ++ chunks.flatten ++
      stuffed data ++ [0xFF, Marker.endOfImage]) image.frame state
        (Entry.ofSegment { marker := Marker.startOfImage, body := [] }) = .ok state :=
    fun _ => rfl
  unfold ofBytes ofHeader
  rw [bind_of_ok header, bind_of_ok walked]
  dsimp only
  rw [ReadState.foldlM_addEntry_ofSegments, segments, starts, List.map_cons,
    List.foldlM_cons, bind_of_ok (startEntry _), List.map_append, foldlM_front recoverable,
    List.map_cons, List.foldlM_cons, addEntry_scan recoverable, behind]
  cases Scan.decode image.frame (wholeScan image.tableIds) (image.optimalSlots counts) 0
    (stuffed data ++ [0xFF, Marker.endOfImage]) image.frame.zeroGrids with
  | error failure grids => rfl
  | ok _ grids =>
      refine (bind_of_ok (settle_scanned recoverable _ grids)).trans ?_
      rfl

/-! ### The round trip -/

/-- The coefficients come back from a file exactly if they are representable. Everything
else comes back whenever anything does. -/
theorem ofBytes_toBytes (recoverable : image.Recoverable) (done : image.toBytes = .ok file) :
    (ofBytes file = .ok image.written ↔ Representable image.frame image.grids) ∧
      ∀ returned, ofBytes file = .ok returned →
        returned = { image.written with grids := returned.grids } := by
  obtain ⟨tokens, collected, rest⟩ := bind_eq_ok done
  obtain ⟨scan, writtenScan, rest⟩ := bind_eq_ok rest
  obtain ⟨chunks, written, last⟩ := bind_eq_ok rest
  cases last
  obtain ⟨-, data, padding, rfl, -, -⟩ := tokenBytes_eq_ok writtenScan
  have size : image.frame.zeroGrids.size = image.grids.size := by
    rw [image.frame.fits_zeroGrids.size, recoverable.fits.size]
  obtain ⟨parts, coded, components, reads⟩ := codedComponents_tableIds
    (SymbolCounts.ofTokens tokens) recoverable.sequential recoverable.fits.size
  rw [← size] at coded
  have decoded : Scan.decode image.frame (wholeScan image.tableIds)
      (image.optimalSlots (SymbolCounts.ofTokens tokens)) 0
      (stuffed data ++ [0xFF, Marker.endOfImage]) image.frame.zeroGrids = .ok () image.grids ↔
        Representable image.frame image.grids :=
    Scan.decode_tokenBytes { marker := Marker.endOfImage, after := [] } recoverable.normal coded
      components reads recoverable.fits collected writtenScan (by decide) (by decide)
  rw [ofBytes_written recoverable _ written, ← decoded]
  constructor
  · constructor
    · intro read
      split at read
      · cases read
      · rename_i grids found
        have same : grids = image.grids := congrArg JpegImage.grids (Except.ok.inj read)
        rw [found, same]
    · intro found
      rw [found]
      rfl
  · intro returned read
    split at read
    · cases read
    · cases read
      rfl

private theorem scanHeaderBytes_length (image : JpegImage) :
    image.scanHeaderBytes.length ≤ 12 := by
  have few := image.frame.components_length
  have pairs : ∀ entries : List (Component × Fin 4), (entries.flatMap fun entry =>
      [entry.1.id, nibbles entry.2.val entry.2.val]).length = 2 * entries.length := by
    intro entries
    induction entries with
    | nil => rfl
    | cons entry rest inductionHypothesis =>
        rw [List.flatMap_cons, List.length_append, inductionHypothesis]
        change 2 + _ = 2 * (rest.length + 1)
        omega
  unfold scanHeaderBytes
  rw [List.length_append, List.length_cons, pairs, List.length_zip]
  change 2 * min _ _ + 1 + 3 ≤ 12
  omega

theorem toBytes_of_few (fits : image.frame.Fits image.grids)
    (tail : ((image.grids.toList.drop 1).map fun grid => grid.blocks.size).sum ≤ 2 ^ 26)
    (short : ∀ segment ∈ image.metadata, segment.body.length ≤ 65533) :
    ∃ file, image.toBytes = .ok file := by
  obtain ⟨tokens, collected⟩ := scanTokens_of_fits fits image.tableIds_length
  obtain ⟨scan, writtenScan⟩ := tokenBytes_of_encodes (encodes_scanTokens fits tail collected)
  have writable : ∀ segment ∈ image.segments (image.optimalSlots (SymbolCounts.ofTokens tokens)),
      ∃ bytes, segmentBytes segment = .ok bytes ∧ True := by
    intro segment member
    refine (segmentBytes_of_length ?_).imp fun _ written => ⟨written, trivial⟩
    rcases List.mem_append.mp member with metadata | own
    · exact short segment metadata
    · simp only [List.mem_cons, List.not_mem_nil, or_false] at own
      rcases own with rfl | rfl | rfl | rfl
      · exact Nat.le_trans (quantizerBody_length _) (by decide)
      · exact Nat.le_trans image.frame.bytes_length (by decide)
      · have few := tables_length_le (image.optimalSlots (SymbolCounts.ofTokens tokens))
        have length := huffmanBody_length
          (image.definable_optimalSlots (SymbolCounts.ofTokens tokens))
        exact Nat.le_trans length (by omega)
      · exact Nat.le_trans image.scanHeaderBytes_length (by decide)
  obtain ⟨chunks, written, -⟩ := mapM_of_forall writable
  exact ⟨_, (bind_of_ok collected).trans ((bind_of_ok writtenScan).trans (bind_of_ok written))⟩

section Built

variable {parameters : CodingParameters} {width height : UInt16} {grids : Array Grid}
  {metadata : List Segment}

/-- An image that is built of representable grids has a file, and this file reads as the
same image, without the tables that no component uses. -/
theorem ofGrids_roundTrip
    (built : ofGrids parameters width height grids metadata = .ok image)
    (distinct : (image.frame.components.map (·.id)).Nodup)
    (nonzero : ∀ component ∈ image.frame.components, ∀ table,
      parameters.quantizers[component.quantizer]?.join = some table →
        ∀ position, table.get position ≠ 0)
    (described : ∀ segment ∈ metadata,
      Marker.isMetadata segment.marker = true ∧ segment.body.length ≤ 65533)
    (few : ((grids.toList.drop 1).map fun grid => grid.blocks.size).sum ≤ 2 ^ 26)
    (representable : Representable image.frame grids) :
    ∃ file returned, image.toBytes = .ok file ∧ ofBytes file = .ok returned ∧
      returned.frame = image.frame ∧ returned.frame.width = width ∧
      returned.frame.height = height ∧ returned.frame.progressive = false ∧
      returned.grids = grids ∧ returned.metadata = metadata ∧
      ∀ id : Fin 4, returned.quantizers.get id =
        if ∃ component ∈ image.frame.components, component.quantizer = id.val then
          parameters.quantizers.get id
        else
          none := by
  obtain ⟨frameBuilt, rfl, quantizers, rfl, wellFormed⟩ := ofGrids_eq_ok built
  obtain ⟨sameWidth, sameHeight, -, sequential⟩ := Frame.build_eq_ok frameBuilt
  have recoverable : image.Recoverable :=
    { wellFormed with
      sequential := sequential
      distinct := distinct
      definable := by
        rw [quantizers]
        exact nonzero
      metadata := fun segment member => (described segment member).1 }
  obtain ⟨file, done⟩ := toBytes_of_few wellFormed.fits few
    fun segment member => (described segment member).2
  -- Everything but the coefficients comes back anyway, so that their condition is the only one.
  have read := (ofBytes_toBytes recoverable done).1.mpr representable
  refine ⟨file, image.written, done, read, rfl, sameWidth, sameHeight, sequential, rfl, rfl,
    fun id => ?_⟩
  refine (usedQuantizers_get id).trans ?_
  rw [quantizers]
  refine if_congr ?_ rfl rfl
  rw [List.any_eq_true]
  simp only [decide_eq_true_eq]

private def spot (dc ac : Int16) : Block :=
  (Block.zero.setIfInBounds 0 dc).setIfInBounds 9 ac

private def wideRow : Grid :=
  { blocksWide := 4
    blocksTall := 1
    blocks := #[spot 5 (-3), spot (-700) 0, spot 32000 1, spot 32000 (-1)]
    blocks_size := rfl }

private def narrowRow : Grid :=
  { blocksWide := 2
    blocksTall := 1
    blocks := #[spot (-9) 0, spot 40 2]
    blocks_size := rfl }

/-- A component of full resolution and one of half the width, with tables of their own. -/
private def halved : CodingParameters :=
  { quantizers := #v[some (Vector.replicate 64 7), some (Vector.replicate 64 9), none, none]
    components :=
      [{ id := 1, across := 2, down := 1, quantizer := 0 },
        { id := 2, across := 1, down := 1, quantizer := 1 }] }

theorem ofGrids_roundTrip_halved :
    ∃ image file returned, ofGrids halved 32 8 #[wideRow, narrowRow]
        [{ marker := Marker.comment, body := [0x68, 0x69] }] = .ok image ∧
      image.toBytes = .ok file ∧ ofBytes file = .ok returned ∧
      returned.grids = #[wideRow, narrowRow] := by
  have built : ofGrids halved 32 8 #[wideRow, narrowRow]
        [{ marker := Marker.comment, body := [0x68, 0x69] }] =
      .ok
        { frame :=
            { width := 32
              height := 8
              components := halved.components
              progressive := false
              width_ne_zero := by decide
              height_ne_zero := by decide
              components_ne_nil := by decide
              components_length := by decide
              admissible := by decide }
          grids := #[wideRow, narrowRow]
          quantizers := halved.quantizers
          metadata := [{ marker := Marker.comment, body := [0x68, 0x69] }] } := rfl
  have nonzero : ∀ component ∈ halved.components, ∀ table,
      halved.quantizers[component.quantizer]?.join = some table →
        ∀ position, table.get position ≠ 0 := by
    intro component member table slot position
    rcases List.mem_cons.mp member with rfl | other
    · cases slot
      rw [get_replicate]
      decide
    · rw [List.mem_singleton.mp other] at slot
      cases slot
      rw [get_replicate]
      decide
  obtain ⟨file, returned, written, read, -, -, -, -, same, -⟩ := ofGrids_roundTrip built
    (by decide) nonzero (by decide) (by decide) (by decide)
  exact ⟨_, file, returned, built, written, read, same⟩

end Built

end JpegImage

end LosslessJpeg
