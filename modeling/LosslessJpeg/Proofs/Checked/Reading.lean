import LosslessJpeg.Proofs.Checked.Scans
import LosslessJpeg.Proofs.Image.ReadInvariant

set_option autoImplicit false

/-!
Reading a file into grids. The scans are counted, and tables are looked up by their
identifiers.
-/

namespace LosslessJpeg

namespace Checked

def addFrame (found : Option Frame) (entry : Entry) : Checked CodecError (Option Frame) :=
  match entry.kind, found with
  | .frame _, some _ => fail (.malformed .severalFrames)
  | .frame progressive, none => some <$> frameOfBytes progressive entry.body
  | _, _ => pure found

def readHeader (file : List UInt8) : Checked CodecError FileHeader := do
  let walk ← walkHeader file
  let found ← walk.entries.foldlM addFrame none
  match found with
  | none => fail .missingFrame
  | some frame =>
      if walk.entries.any fun entry => entry.kind = .scan then
        pure
          { frame := frame
            metadata := FileHeader.metadataOf walk.entries }
      else
        fail (.malformed .noScan)

structure ScansRead where
  defined : QuantizerSlots
  settled : QuantizerSlots
  huffman : HuffmanSlots
  restartInterval : Nat
  scanStarts : List Nat
  scans : Nat
  grids : List Grid
  metadata : List Segment

/-- The grid of a component, filled up to whole MCUs. Its coefficients take two bytes each. -/
def emptyGrid {ε : Type} (wide tall : Nat) : Checked ε Grid := do
  fits 64 (wide * tall)
  fits 64 (wide * tall * 64)
  fits 63 (wide * tall * 64 * 2)
  pure (Grid.zero wide tall)

def blocksAcross {ε : Type} (frame : Frame) (component : Nat) : Checked ε (Nat × Nat) := do
  let component ← item frame.components component
  fits 64 (frame.mcusWide * component.across)
  fits 64 (frame.mcusTall * component.down)
  pure (frame.blocksWide component, frame.blocksTall component)

def emptyGrids (frame : Frame) : Checked CodecError (List Grid) :=
  (List.range frame.components.length).mapM fun component => do
    let (wide, tall) ← blocksAcross frame component
    emptyGrid wide tall

def scanOfBytes (frame : Frame) (body : List UInt8) : Checked CodecError Scan := do
  let header ← scanHeaderOfBytes body
  let components ← of (header.selectors.mapM (ScanSelector.resolve frame))
  pure
    { components := components
      band := header.band }

namespace ScansRead

def define (progress : ScansRead) (table : Fin 4 × QuantizerTable) :
    Checked CodecError ScansRead := do
  inside 4 table.1.val
  pure
    { progress with
      defined := progress.defined.setIfInBounds table.1.val (some table.2) }

def install (progress : ScansRead) (table : HuffmanTable) : Checked CodecError ScansRead := do
  inside 4 (table.id.toNat % 4)
  pure { progress with huffman := progress.huffman.install table }

def settle (progress : ScansRead) (component : Component) : Checked CodecError ScansRead := do
  let settled ← item progress.settled.toList component.quantizer
  match settled with
  | some _ => pure progress
  | none => do
      let defined ← item progress.defined.toList component.quantizer
      match defined with
      | some table =>
          pure
            { progress with
              settled := progress.settled.setIfInBounds component.quantizer (some table) }
      | none => fail (.quantizerId component.quantizer)

def settleAt (frame : Frame) (progress : ScansRead) (named : ScanComponent) :
    Checked CodecError ScansRead := do
  let component ← item frame.components named.index
  settle progress component

def addScan (file : List UInt8) (frame : Frame) (progress : ScansRead) (body : List UInt8) :
    Checked CodecError ScansRead :=
  match progress.scanStarts with
  | [] => fail (.malformed .scanWithoutData)
  | start :: later => do
      let scan ← scanOfBytes frame body
      let settled ← scan.components.foldlM (settleAt frame) progress
      let (_, grids) ← decodeScan file frame scan settled.huffman settled.restartInterval start
        settled.grids
      fits 64 (settled.scans + 1)
      pure
        { settled with
          scanStarts := later
          scans := settled.scans + 1
          grids := grids }

def addEntry (file : List UInt8) (frame : Frame) (progress : ScansRead) (entry : Entry) :
    Checked CodecError ScansRead :=
  match entry.kind with
  | .quantizerTables => do
      let tables ← quantizersFrom entry.body 0
      tables.foldlM define progress
  | .huffmanTables => do
      let tables ← huffmanTablesFrom entry.body 0
      tables.foldlM install progress
  | .restartInterval => do
      let interval ← restartIntervalOfBody entry.body
      pure { progress with restartInterval := interval }
  | .metadata =>
      if 0 < progress.scans then
        pure { progress with metadata := progress.metadata ++ [entry.segment] }
      else
        pure progress
  | .scan => addScan file frame progress entry.body
  | _ => pure progress

end ScansRead

def readCoefficients (file : List UInt8) (header : FileHeader) : Checked CodecError JpegImage := do
  let walk ← walkFile file
  let grids ← emptyGrids header.frame
  let scanned ← walk.entries.foldlM (ScansRead.addEntry file header.frame)
    { defined := Vector.replicate 4 none
      settled := Vector.replicate 4 none
      huffman := HuffmanSlots.empty
      restartInterval := 0
      scanStarts := walk.scanStarts
      scans := 0
      grids := grids
      metadata := header.metadata }
  let progress ← header.frame.components.foldlM ScansRead.settle scanned
  pure
    { frame := header.frame
      grids := progress.grids.toArray
      quantizers := progress.settled
      metadata := progress.metadata }

theorem readHeader_follows {file : List UInt8} (addressable : file.length < 2 ^ 63) :
    Follows Eq (readHeader file) (FileHeader.read file) := by
  rw [readHeader, FileHeader.read]
  have walks := (walkHeader_follows addressable).eq_of
  cases walked : LosslessJpeg.walkHeader file with
  | error cause =>
      rw [walks, walked]
      exact .failure cause
  | ok walk =>
      rw [walks, walked, of_ok, bind_of_ok rfl]
      have found : Follows Eq (walk.entries.foldlM addFrame none)
          (FileHeader.frameOf walk.entries) := by
        refine Follows.foldlM (fun entry member found other same => ?_) rfl
        subst same
        have short := walkHeader_body walked entry member
        unfold addFrame
        cases entry.kind with
        | frame progressive =>
            cases found with
            | some frame => exact .failure _
            | none =>
                dsimp only
                rw [frameOfBytes_eq progressive short]
                cases Frame.ofBytes progressive entry.body with
                | ok frame => exact .ok rfl
                | error cause => exact .failure cause
        | _ => exact .ok rfl
      refine found.bind ?_
      rintro frame _ rfl
      cases frame with
      | none => exact .failure _
      | some frame =>
          dsimp only
          split
          · exact .ok rfl
          · exact .failure _

/-! ### The same tables -/

namespace ScansRead

/-- The reading of a file in which so many scans have been decoded at most. -/
structure Represents (file : List UInt8) (frame : Frame) (most : Nat) (progress : ScansRead)
    (other : ReadState) : Prop where
  defined : other.defined = progress.defined
  settled : other.settled = progress.settled
  huffman : other.huffman = progress.huffman
  restartInterval : other.restartInterval = progress.restartInterval
  scanStarts : other.scanStarts = progress.scanStarts
  starts : ∀ start ∈ progress.scanStarts, start ≤ file.length
  seen : other.scanSeen = decide (0 < progress.scans)
  few : progress.scans ≤ most
  grids : other.grids.toList = progress.grids
  fits : frame.Fits other.grids
  metadata : other.metadata = progress.metadata

variable {file : List UInt8} {frame : Frame} {most : Nat} {progress : ScansRead}
  {other : ReadState}

private theorem Represents.define (represents : Represents file frame most progress other)
    (tables : List (Fin 4 × QuantizerTable)) :
    ∃ after, tables.foldlM define progress = .ok after ∧
      Represents file frame most after (tables.foldl ReadState.define other) := by
  induction tables generalizing progress other with
  | nil => exact ⟨progress, rfl, represents⟩
  | cons table rest inductionHypothesis =>
      have step : ScansRead.define progress table =
          .ok { progress with
            defined := progress.defined.set table.1.val (some table.2) } := by
        rw [ScansRead.define, bind_of_ok (inside_of_lt table.1.isLt), setIfInBounds_val]
        rfl
      have defined : Represents file frame most
          { progress with defined := progress.defined.set table.1.val (some table.2) }
          (other.define table) :=
        { represents with
          defined := by
            rw [ReadState.define]
            dsimp only
            rw [represents.defined] }
      rw [List.foldlM_cons, bind_of_ok step]
      exact inductionHypothesis defined

private theorem Represents.install (represents : Represents file frame most progress other)
    (tables : List HuffmanTable) :
    ∃ after, tables.foldlM install progress = .ok after ∧
      Represents file frame most after
        { other with huffman := tables.foldl HuffmanSlots.install other.huffman } := by
  induction tables generalizing progress other with
  | nil => exact ⟨progress, rfl, represents⟩
  | cons table rest inductionHypothesis =>
      have step : ScansRead.install progress table =
          .ok { progress with huffman := progress.huffman.install table } := by
        rw [ScansRead.install, bind_of_ok (inside_of_lt (Nat.mod_lt _ (by decide)))]
        rfl
      have installed : Represents file frame most
          { progress with huffman := progress.huffman.install table }
          { other with huffman := other.huffman.install table } :=
        { represents with
          huffman := by
            dsimp only
            rw [represents.huffman] }
      rw [List.foldlM_cons, bind_of_ok step]
      exact inductionHypothesis installed

private theorem Represents.settle (represents : Represents file frame most progress other)
    {component : Component} (small : component.quantizer < 4) :
    Follows (Represents file frame most) (settle progress component)
      (other.settle component) := by
  have slot (slots : QuantizerSlots) : ∃ entry, slots[component.quantizer]?.join = entry ∧
      (item slots.toList component.quantizer : Checked CodecError _) = .ok entry := by
    have inside : component.quantizer < slots.toList.length := by
      rw [Vector.length_toList]
      exact small
    refine ⟨slots.toList[component.quantizer], ?_, item_of_lt inside⟩
    rw [← Vector.getElem?_toList, List.getElem?_eq_getElem inside, Option.join_some]
  obtain ⟨settled, settledHere, settledItem⟩ := slot progress.settled
  obtain ⟨defined, definedHere, definedItem⟩ := slot progress.defined
  rw [ScansRead.settle, bind_of_ok settledItem, ReadState.settle, represents.settled, settledHere]
  cases settled with
  | some table => exact .ok represents
  | none =>
      dsimp only
      rw [bind_of_ok definedItem, represents.defined, definedHere]
      cases defined with
      | some table =>
          exact .ok
            { represents with
              defined := rfl
              settled := rfl }
      | none => exact .failure _

private theorem Represents.settleAll (represents : Represents file frame most progress other)
    {components : List Component} (small : ∀ component ∈ components, component.quantizer < 4) :
    Follows (Represents file frame most) (components.foldlM ScansRead.settle progress)
      (components.foldlM ReadState.settle other) :=
  Follows.foldlM (fun component member _ _ related => related.settle (small component member))
    represents

/-! ### The same scans -/

private theorem limits_of_header {body : List UInt8} {header : ScanHeader}
    (read : ScanHeader.ofBytes body = .ok header) :
    header.band.last ≤ 63 ∧ header.band.low ≤ 13 := by
  unfold ScanHeader.ofBytes at read
  split at read
  · cases read
  · split at read
    · cases read
    · split at read
      · split at read
        · cases read
        · rename_i first last approximation _ _ limited
          cases read
          rw [not_or, not_or, UInt8.not_lt, UInt8.not_lt, Nat.not_lt] at limited
          exact ⟨UInt8.le_iff_toNat_le.mp limited.2.1, limited.2.2⟩
      · cases read

private theorem index_of_resolve {selector : ScanSelector} {named : ScanComponent}
    (resolved : selector.resolve frame = .ok named) : named.index < frame.components.length := by
  unfold ScanSelector.resolve at resolved
  split at resolved
  · rename_i found
    cases resolved
    exact (List.findIdx?_eq_some_iff_getElem.mp found).1
  · cases resolved

private theorem scanOfBytes_follows (frame : Frame) (body : List UInt8) :
    Follows (fun scan other => scan = other ∧
        (∀ named ∈ scan.components, named.index < frame.components.length) ∧
        scan.band.last ≤ 63 ∧ scan.band.low ≤ 13)
      (scanOfBytes frame body) (Scan.ofBytes frame body) := by
  rw [scanOfBytes, Scan.ofBytes, scanHeaderOfBytes_eq]
  cases read : ScanHeader.ofBytes body with
  | error cause => exact .failure cause
  | ok header =>
      rw [of_ok, bind_of_ok rfl, LosslessJpeg.bind_of_ok rfl]
      cases resolved : header.selectors.mapM (ScanSelector.resolve frame) with
      | error cause => exact .failure cause
      | ok components =>
          refine .ok ⟨rfl, fun named member => ?_, limits_of_header read⟩
          obtain ⟨selector, -, here⟩ := mapM_eq_ok_mem resolved member
          exact index_of_resolve here

private theorem Represents.settleAt (represents : Represents file frame most progress other)
    {components : List ScanComponent}
    (inFrame : ∀ named ∈ components, named.index < frame.components.length) :
    Follows (Represents file frame most) (components.foldlM (settleAt frame) progress)
      ((components.filterMap fun named => frame.components[named.index]?).foldlM
        ReadState.settle other) := by
  induction components generalizing progress other with
  | nil => exact .ok represents
  | cons named rest inductionHypothesis =>
      have inside := inFrame named List.mem_cons_self
      have coded : (named :: rest).filterMap (fun named => frame.components[named.index]?) =
          frame.components[named.index] ::
            rest.filterMap fun named => frame.components[named.index]? := by
        rw [List.filterMap_cons, List.getElem?_eq_getElem inside]
      have small := (frame.admissible _ (List.getElem_mem inside)).2.2.2.2
      rw [coded, List.foldlM_cons, List.foldlM_cons, ScansRead.settleAt,
        bind_of_ok (item_of_lt inside)]
      exact (represents.settle small).bind fun _ _ related =>
        inductionHypothesis related fun other member =>
          inFrame other (List.mem_cons_of_mem named member)

private theorem Represents.addScan (represents : Represents file frame most progress other)
    (addressable : file.length < 2 ^ 63) (room : most < 2 ^ 63) (body : List UInt8) :
    Follows (Represents file frame (most + 1)) (addScan file frame progress body)
      (other.decodeScan file frame body) := by
  unfold ScansRead.addScan ReadState.decodeScan
  rw [represents.scanStarts]
  have starts := represents.starts
  cases listed : progress.scanStarts with
  | nil => exact .failure _
  | cons start later =>
      rw [listed] at starts
      refine (scanOfBytes_follows frame body).bind ?_
      rintro scan _ ⟨rfl, inFrame, inside, few⟩
      refine (represents.settleAt inFrame).bind ?_
      intro settled otherSettled representsSettled
      have decoded := decodeScan_follows addressable inside few settled.huffman
        settled.restartInterval (starts start List.mem_cons_self) representsSettled.fits
      rw [representsSettled.grids] at decoded
      rw [representsSettled.huffman, representsSettled.restartInterval]
      -- Both results are related already, so only their forms matter from here on.
      generalize decodeScan _ _ _ _ _ _ _ = decoding at decoded
      generalize scan.decode _ _ _ _ _ = result at decoded
      cases decoded with
      | failure cause after => exact .failure cause
      | @ok _ _ grids otherGrids same related =>
          have counted := representsSettled.few
          rw [bind_of_ok rfl]
          dsimp only
          rw [bind_of_ok (fits_of_lt (by omega))]
          exact .ok
            { representsSettled with
              huffman := rfl
              restartInterval := rfl
              scanStarts := rfl
              starts := fun other member => starts other (List.mem_cons_of_mem start member)
              seen := (decide_eq_true (Nat.succ_pos settled.scans)).symm
              few := Nat.succ_le_succ counted
              grids := related.1
              fits := related.2 }

private theorem Represents.addEntry (represents : Represents file frame most progress other)
    (addressable : file.length < 2 ^ 63) (room : most < 2 ^ 63) {entry : Entry}
    (short : entry.body.length ≤ 65533) :
    Follows (Represents file frame (most + 1)) (addEntry file frame progress entry)
      (other.addEntry file frame entry) := by
  have kept {after : ScansRead} {otherAfter : ReadState}
      (related : Represents file frame most after otherAfter) :
      Represents file frame (most + 1) after otherAfter :=
    { related with few := Nat.le_succ_of_le related.few }
  unfold ScansRead.addEntry ReadState.addEntry
  -- Only a scan header raises the count of scans, which has to stay a machine number.
  cases entry.kind with
  | quantizerTables =>
      refine (quantizersFrom_follows short 0).bind ?_
      rintro tables _ rfl
      obtain ⟨after, defined, related⟩ := represents.define tables
      rw [defined]
      exact .ok (kept related)
  | huffmanTables =>
      refine (huffmanTablesFrom_follows short 0).bind ?_
      rintro tables _ rfl
      obtain ⟨after, installed, related⟩ := represents.install tables
      rw [installed]
      exact .ok (kept related)
  | restartInterval =>
      dsimp only
      rw [restartIntervalOfBody_eq]
      cases LosslessJpeg.restartIntervalOfBody entry.body with
      | error cause => exact .failure cause
      | ok interval => exact .ok { kept represents with restartInterval := rfl }
  | metadata =>
      dsimp only
      rw [represents.seen]
      by_cases some : 0 < progress.scans
      · rw [if_pos some, if_pos (decide_eq_true some)]
        exact .ok
          { kept represents with
            seen := rfl
            metadata := by
              dsimp only
              rw [represents.metadata] }
      · rw [if_neg some, if_neg (by rw [decide_eq_false some]; decide)]
        exact .ok (kept represents)
  | scan => exact represents.addScan addressable room entry.body
  | _ => exact .ok (kept represents)

private theorem Represents.addEntries (represents : Represents file frame most progress other)
    (addressable : file.length < 2 ^ 63) {entries : List Entry}
    (room : most + entries.length < 2 ^ 63)
    (short : ∀ entry ∈ entries, entry.body.length ≤ 65533) :
    Follows (Represents file frame (most + entries.length))
      (entries.foldlM (ScansRead.addEntry file frame) progress)
      (entries.foldlM (ReadState.addEntry file frame) other) := by
  induction entries generalizing most progress other with
  | nil => exact .ok represents
  | cons entry rest inductionHypothesis =>
      rw [List.length_cons] at room ⊢
      rw [List.foldlM_cons, List.foldlM_cons, Nat.add_comm rest.length, ← Nat.add_assoc]
      refine (represents.addEntry addressable (by omega) (short entry List.mem_cons_self)).bind ?_
      intro after otherAfter related
      exact inductionHypothesis related (by omega) fun other member =>
        short other (List.mem_cons_of_mem entry member)

end ScansRead

theorem emptyGrid_eq {ε : Type} {wide tall : Nat} (few : wide ≤ 8195) (short : tall ≤ 8195) :
    (emptyGrid wide tall : Checked ε Grid) = .ok (Grid.zero wide tall) := by
  have product := Nat.mul_le_mul few short
  rw [emptyGrid, bind_of_ok (fits_of_lt (by omega)), bind_of_ok (fits_of_lt (by omega)),
    bind_of_ok (fits_of_lt (by omega))]
  rfl

theorem blocksAcross_eq {ε : Type} {frame : Frame} {place : Nat}
    (inside : place < frame.components.length) :
    (blocksAcross frame place : Checked ε (Nat × Nat)) =
      .ok (frame.blocksWide frame.components[place], frame.blocksTall frame.components[place]) := by
  have wide := frame.blocksWide_le (List.getElem_mem inside)
  have tall := frame.blocksTall_le (List.getElem_mem inside)
  have acrossFits : frame.mcusWide * frame.components[place].across < 2 ^ 64 :=
    Nat.lt_of_le_of_lt wide (by decide)
  have downFits : frame.mcusTall * frame.components[place].down < 2 ^ 64 :=
    Nat.lt_of_le_of_lt tall (by decide)
  rw [blocksAcross, bind_of_ok (item_of_lt inside), bind_of_ok (fits_of_lt acrossFits),
    bind_of_ok (fits_of_lt downFits)]
  rfl

private theorem emptyGrids_eq (frame : Frame) :
    emptyGrids frame = .ok frame.zeroGrids.toList := by
  have listed : frame.zeroGrids.toList = frame.components.map fun component =>
      Grid.zero (frame.blocksWide component) (frame.blocksTall component) := rfl
  rw [emptyGrids, listed, mapM_eq_ok_iff, List.forall₂_iff_get]
  refine ⟨by rw [List.length_range, List.length_map], fun place inside _ => ?_⟩
  rw [List.length_range] at inside
  have member := List.getElem_mem inside
  rw [List.get_eq_getElem, List.get_eq_getElem, List.getElem_range, List.getElem_map,
    bind_of_ok (blocksAcross_eq inside)]
  exact emptyGrid_eq (frame.blocksWide_le member) (frame.blocksTall_le member)

/-- Reading all scans of a file comes to no fault, and gives the image that the file codes. -/
theorem readCoefficients_follows {file : List UInt8} (addressable : file.length < 2 ^ 63)
    (header : FileHeader) :
    Follows Eq (readCoefficients file header) (JpegImage.ofHeader file header) := by
  rw [readCoefficients, JpegImage.ofHeader]
  have walks := (walkFile_follows addressable).eq_of
  cases walked : LosslessJpeg.walkFile file with
  | error cause =>
      rw [walks, walked]
      exact .failure cause
  | ok walk =>
      rw [walked, of_ok] at walks
      have start : ScansRead.Represents file header.frame 0
          { defined := Vector.replicate 4 none
            settled := Vector.replicate 4 none
            huffman := HuffmanSlots.empty
            restartInterval := 0
            scanStarts := walk.scanStarts
            scans := 0
            grids := header.frame.zeroGrids.toList
            metadata := header.metadata }
          (ReadState.start header walk.scanStarts) :=
        { defined := rfl
          settled := rfl
          huffman := rfl
          restartInterval := rfl
          scanStarts := rfl
          starts := walkFile_starts walks
          seen := rfl
          few := Nat.le_refl 0
          grids := rfl
          fits := header.frame.fits_zeroGrids
          metadata := rfl }
      have entries := walkFile_length walks
      rw [walks, bind_of_ok rfl, bind_of_ok (emptyGrids_eq header.frame)]
      refine (start.addEntries addressable (by omega) (walkFile_body walked)).bind ?_
      intro scanned otherScanned representsScanned
      refine (representsScanned.settleAll fun component member =>
        (header.frame.admissible component member).2.2.2.2).bind ?_
      intro after otherAfter representsAfter
      refine .ok ?_
      rw [← representsAfter.grids, representsAfter.settled, representsAfter.metadata]

end Checked

end LosslessJpeg
