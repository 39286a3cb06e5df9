import LosslessJpeg.Proofs.Image.ReadSteps
import LosslessJpeg.Proofs.Image.WellFormed
import LosslessJpeg.Proofs.Marker.WrittenFile
import LosslessJpeg.Proofs.Scan.ScanDecoding

set_option autoImplicit false

/-!
What every image has that has been read from a file: grids that fill its frame, a
quantization table without zeros for every component, and metadata that fits its segments.
-/

namespace LosslessJpeg

theorem headerEntries_body {cursor stop : Cursor} {entries : List Entry}
    (walked : headerEntries cursor = .ok (entries, stop)) :
    ∀ entry ∈ entries, entry.body.length ≤ 65533 := by
  fun_induction headerEntries cursor generalizing entries stop with
  | case1 => cases walked
  | case2 cursor entry next found last =>
      cases walked
      intro other member
      rw [List.mem_singleton.mp member]
      exact nextEntry_body found
  | case3 cursor entry next found inner inductionHypothesis =>
      obtain ⟨⟨others, end'⟩, later, last⟩ := bind_eq_ok walked
      cases last
      intro other member
      rcases List.mem_cons.mp member with same | inOthers
      · rw [same]
        exact nextEntry_body found
      · exact inductionHypothesis later other inOthers

theorem WalksFrom.body {cursor : Cursor} {walk : FileWalk} (walks : WalksFrom cursor walk) :
    ∀ entry ∈ walk.entries, entry.body.length ≤ 65533 := by
  induction walks with
  | ends found isEnd => exact List.forall_mem_singleton.mpr (nextEntry_body found)
  | scan found isScan skipped later inductionHypothesis =>
      exact List.forall_mem_cons.mpr ⟨nextEntry_body found, inductionHypothesis⟩
  | inner found notScan notEnd later inductionHypothesis =>
      exact List.forall_mem_cons.mpr ⟨nextEntry_body found, inductionHypothesis⟩

private theorem afterStart_body {file : List UInt8} {entry : Entry} {cursor : Cursor}
    (started : afterStart file = .ok (entry, cursor)) : entry.body = [] := by
  obtain ⟨-, -, rfl, -⟩ := afterStart_eq_ok started
  rfl

theorem walkHeader_body {file : List UInt8} {walk : HeaderWalk}
    (walked : walkHeader file = .ok walk) :
    ∀ entry ∈ walk.entries, entry.body.length ≤ 65533 := by
  obtain ⟨⟨start, cursor⟩, started, rest⟩ := bind_eq_ok walked
  obtain ⟨⟨entries, stop⟩, later, last⟩ := bind_eq_ok rest
  cases last
  intro entry member
  rcases List.mem_cons.mp member with same | inEntries
  · rw [same, afterStart_body started]
    exact Nat.zero_le _
  · exact headerEntries_body later entry inEntries

theorem walkFile_body {file : List UInt8} {walk : FileWalk} (walked : walkFile file = .ok walk) :
    ∀ entry ∈ walk.entries, entry.body.length ≤ 65533 := by
  obtain ⟨⟨start, cursor⟩, started, rest⟩ := bind_eq_ok walked
  obtain ⟨others, later, last⟩ := bind_eq_ok rest
  cases last
  intro entry member
  rcases List.mem_cons.mp member with same | inOthers
  · rw [same, afterStart_body started]
    exact Nat.zero_le _
  · exact (walksFrom_of_fileEntries later).body entry inOthers

def Segment.Describes (segment : Segment) : Prop :=
  Marker.isMetadata segment.marker = true ∧ segment.body.length ≤ 65533

theorem Marker.isMetadata_of_kind {marker : UInt8}
    (kind : MarkerKind.of marker = .metadata) : isMetadata marker = true := by
  unfold MarkerKind.of at kind
  repeat' split at kind
  all_goals first
    | assumption
    | cases kind

private theorem describes_of_kind {entry : Entry} (kind : entry.kind = .metadata)
    (short : entry.body.length ≤ 65533) : entry.segment.Describes :=
  ⟨Marker.isMetadata_of_kind kind, short⟩

theorem Frame.ofBytes_normal {progressive : Bool} {body : List UInt8} {frame : Frame}
    (read : Frame.ofBytes progressive body = .ok frame) :
    soleComponent frame.components = frame.components := by
  unfold Frame.ofBytes at read
  split at read
  · dsimp only at read
    split at read
    · cases read
    · split at read
      · cases read
      · split at read
        · cases read
        · exact Frame.normal_of_build read
  · cases read

private theorem frameOf_normal {entries : List Entry} {frame : Frame}
    (found : FileHeader.frameOf entries = .ok (some frame)) :
    soleComponent frame.components = frame.components := by
  refine foldlM_preserves (fun found : Option Frame => ∀ frame, found = some frame →
    soleComponent frame.components = frame.components) ?_ ?_ found frame rfl
  · intro entry _ before after normal step
    split at step
    · cases step
    · obtain ⟨first, read, rfl⟩ := map_eq_ok step
      intro other same
      cases same
      exact Frame.ofBytes_normal read
    · cases step
      exact normal
  · intro other none
    cases none

structure FileHeader.Sound (header : FileHeader) : Prop where
  normal : soleComponent header.frame.components = header.frame.components
  metadata : ∀ segment ∈ header.metadata, segment.Describes

theorem FileHeader.sound_of_read {file : List UInt8} {header : FileHeader}
    (read : FileHeader.read file = .ok header) : header.Sound := by
  obtain ⟨walk, walked, rest⟩ := bind_eq_ok read
  obtain ⟨found, framed, last⟩ := bind_eq_ok rest
  cases found with
  | none => cases last
  | some frame =>
      dsimp only at last
      split at last
      · cases last
        refine ⟨frameOf_normal framed, fun segment member => ?_⟩
        obtain ⟨entry, listed, rfl⟩ := List.mem_map.mp member
        obtain ⟨listed, kind⟩ := List.mem_filter.mp listed
        exact describes_of_kind (of_decide_eq_true kind) (walkHeader_body walked entry listed)
      · cases last

namespace ScanDecoder

variable {frame : Frame} {parts : Array CodedComponent} {before after : ScanState}

private theorem beginUnit_grids {interval unit : Nat}
    (done : beginUnit interval unit before = .ok () after) : after.grids = before.grids := by
  unfold beginUnit at done
  split at done
  · split at done
    · cases done
      rfl
    · cases done
  · cases done
    rfl

theorem decodeUnits_fits {layout : ScanLayout} {interval remaining unit : Nat}
    (fits : frame.Fits before.grids)
    (done : decodeUnits parts layout interval remaining unit before = .ok () after) :
    frame.Fits after.grids := by
  induction remaining generalizing unit before with
  | zero =>
      cases done
      exact fits
  | succ remaining inductionHypothesis =>
      obtain ⟨_, between, here, later⟩ := run_bind_eq_ok done
      obtain ⟨_, begun, started, blocks⟩ := run_bind_eq_ok here
      rw [← beginUnit_grids started] at fits
      exact inductionHypothesis (decodeBlocks_fits fits blocks) later

end ScanDecoder

theorem Scan.decode_fits {frame : Frame} {scan : Scan} {slots : HuffmanSlots} {interval : Nat}
    {bytes : List UInt8} {before after : Array Grid} (fits : frame.Fits before)
    (done : scan.decode frame slots interval bytes before = .ok () after) :
    frame.Fits after := by
  unfold Scan.decode at done
  split at done
  · cases done
  · dsimp only at done
    split at done
    · rename_i decoded
      cases done
      exact ScanDecoder.decodeUnits_fits fits decoded
    · cases done

def QuantizerSlots.Definable (slots : QuantizerSlots) : Prop :=
  ∀ id table, slots.get id = some table → table.Definable

theorem QuantizerSlots.Definable.set {slots : QuantizerSlots} (definable : Definable slots)
    {table : QuantizerTable} (nonzero : table.Definable) (id : Fin 4) :
    Definable (slots.set id.val (some table)) := by
  intro other entry found
  rw [get_set] at found
  split at found
  · cases found
    exact nonzero
  · exact definable other entry found

theorem QuantizerSlots.definable_empty : Definable (Vector.replicate 4 none) := by
  intro id table found
  rw [get_replicate] at found
  cases found

/-- What a reader has gathered at any point of a file. -/
structure ReadState.Sound (frame : Frame) (state : ReadState) : Prop where
  fits : frame.Fits state.grids
  defined : QuantizerSlots.Definable state.defined
  settled : QuantizerSlots.Definable state.settled
  metadata : ∀ segment ∈ state.metadata, segment.Describes

namespace ReadState

variable {frame : Frame} {before after : ReadState}

theorem sound_start {header : FileHeader} (sound : header.Sound) (scanStarts : List Nat) :
    Sound header.frame (start header scanStarts) where
  fits := header.frame.fits_zeroGrids
  defined := QuantizerSlots.definable_empty
  settled := QuantizerSlots.definable_empty
  metadata := sound.metadata

theorem Sound.define (sound : Sound frame before) {tables : List (Fin 4 × QuantizerTable)}
    (definable : ∀ table ∈ tables, table.2.Definable) :
    Sound frame (tables.foldl ReadState.define before) := by
  induction tables generalizing before with
  | nil => exact sound
  | cons table rest inductionHypothesis =>
      refine inductionHypothesis ?_ fun other member =>
        definable other (List.mem_cons_of_mem _ member)
      exact { sound with
        defined := sound.defined.set (definable table List.mem_cons_self) table.1 }

theorem Sound.settledAfter (sound : Sound frame before) (components : List Component) :
    QuantizerSlots.Definable (before.settledAfter components) := by
  intro id table found
  rw [settledAfter_get] at found
  split at found
  · rcases Option.or_eq_some_iff.mp found with settled | ⟨-, defined⟩
    · exact sound.settled id table settled
    · exact sound.defined id table defined
  · exact sound.settled id table found

theorem Sound.addEntry (sound : Sound frame before) {file : List UInt8} {entry : Entry}
    (short : entry.body.length ≤ 65533)
    (done : before.addEntry file frame entry = .ok after) : Sound frame after := by
  cases takes_of_addEntry done with
  | quantizers kind read => exact sound.define (definable_of_quantizersOfBody read)
  | huffman kind read => exact { sound with }
  | interval kind read => exact { sound with }
  | gathers kind seen =>
      refine { sound with metadata := fun segment member => ?_ }
      rcases List.mem_append.mp member with earlier | new
      · exact sound.metadata segment earlier
      · rw [List.mem_singleton.mp new]
        exact describes_of_kind kind short
  | decodes kind read starts known decoded =>
      exact
        { sound with
          fits := Scan.decode_fits sound.fits decoded
          settled := sound.settledAfter _ }
  | passes => exact sound

theorem Sound.foldlM_addEntry (sound : Sound frame before) {file : List UInt8}
    {entries : List Entry} (short : ∀ entry ∈ entries, entry.body.length ≤ 65533)
    (done : entries.foldlM (ReadState.addEntry file frame) before = .ok after) :
    Sound frame after :=
  foldlM_preserves (Sound frame)
    (fun entry member _ _ sound step => Sound.addEntry sound (short entry member) step) sound done

end ReadState

namespace JpegImage

/-- What every image has that has been read from a file. -/
structure Sound (image : JpegImage) : Prop extends image.WellFormed where
  definable : QuantizerSlots.Definable image.quantizers
  metadata : ∀ segment ∈ image.metadata, segment.Describes

variable {file : List UInt8} {image : JpegImage}

theorem ofHeader_frame {header : FileHeader} (read : ofHeader file header = .ok image) :
    image.frame = header.frame := by
  obtain ⟨walk, walked, rest⟩ := bind_eq_ok read
  obtain ⟨scanned, gathered, rest⟩ := bind_eq_ok rest
  obtain ⟨state, settled, last⟩ := bind_eq_ok rest
  cases last
  rfl

theorem sound_of_ofHeader {header : FileHeader} (sound : header.Sound)
    (read : ofHeader file header = .ok image) : image.Sound := by
  obtain ⟨walk, walked, rest⟩ := bind_eq_ok read
  obtain ⟨scanned, gathered, rest⟩ := bind_eq_ok rest
  obtain ⟨state, settled, last⟩ := bind_eq_ok rest
  cases last
  have all := (ReadState.sound_start sound walk.scanStarts).foldlM_addEntry
    (walkFile_body walked) gathered
  obtain ⟨rfl, known⟩ := ReadState.foldlM_settle_eq_ok_iff.mp settled
  refine ⟨⟨sound.normal, all.fits, fun component member => ?_⟩, all.settledAfter _,
    all.metadata⟩
  obtain ⟨id, named, present⟩ := known component member
  rw [named, getElem?_join_val]
  dsimp only
  rw [ReadState.settledAfter_get_of_mem _ member named]
  exact Option.isSome_iff_exists.mp present

theorem sound_of_ofBytes (read : ofBytes file = .ok image) : image.Sound := by
  obtain ⟨header, headed, rest⟩ := bind_eq_ok read
  exact sound_of_ofHeader (FileHeader.sound_of_read headed) rest

end JpegImage

end LosslessJpeg
