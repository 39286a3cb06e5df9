import LosslessJpeg.Proofs.Image.QuantizerTables
import LosslessJpeg.Proofs.Scan.Footprint
import Mathlib.Data.List.Forall2
import Mathlib.Data.List.Nodup
import Mathlib.Data.List.Pairwise
import Mathlib.Data.List.Perm.Subperm

set_option autoImplicit false

/-!
Which components a scan header selects. A selector stands for the first component of the frame
that has its identifier. So a scan goes over no block twice exactly if its selectors name
different identifiers. That they do is checked nowhere, and neither is it that the identifiers of
a frame differ: a component that has the identifier of an earlier one is selected by no scan and
keeps its zeros.
-/

namespace LosslessJpeg

/-- A place in a frame at which an identifier occurs first. -/
def Frame.Introduces (frame : Frame) (id : UInt8) (index : Nat) : Prop :=
  (∃ component, frame.components[index]? = some component ∧ component.id = id) ∧
    ∀ earlier < index, ∀ component, frame.components[earlier]? = some component →
      component.id ≠ id

def ScanHeader.ids (header : ScanHeader) : List UInt8 :=
  header.selectors.map (·.id)

def ScanDecoder.visited (frame : Frame) (parts : List CodedComponent) : List BlockAddress :=
  (ScanLayout.ofComponents frame (parts.map (·.component))).order.filterMap fun address =>
    (parts[address.component]?).map (placeOf · address)

/-- What it comes to that a scan header has been resolved to some parts of a frame. -/
structure ScanHeader.Selects (header : ScanHeader) (frame : Frame)
    (parts : List CodedComponent) : Prop where
  first : List.Forall₂ frame.Introduces header.ids (parts.map (·.index))
  distinct : (parts.map (·.index)).Nodup ↔ header.ids.Nodup
  once : (ScanDecoder.visited frame parts).Nodup ↔ header.ids.Nodup
  all : header.ids.length = frame.components.length →
    ((∀ index < frame.components.length, index ∈ parts.map (·.index)) ↔ header.ids.Nodup)

namespace Frame

variable {frame : Frame}

theorem introduces_biUnique (frame : Frame) : Relator.BiUnique frame.Introduces := by
  constructor
  · rintro id other index ⟨⟨component, found, rfl⟩, -⟩ ⟨⟨component', found', rfl⟩, -⟩
    rw [Option.some.inj (found.symm.trans found')]
  · rintro id index other ⟨⟨component, found, named⟩, fresh⟩ ⟨⟨component', found', named'⟩, fresh'⟩
    rcases Nat.lt_trichotomy index other with before | same | behind
    · exact absurd named (fresh' index before component found)
    · exact same
    · exact absurd named' (fresh other behind component' found')

end Frame

theorem ScanSelector.introduces_of_resolve {frame : Frame} {selector : ScanSelector}
    {component : ScanComponent} (resolved : selector.resolve frame = .ok component) :
    frame.Introduces selector.id component.index := by
  unfold resolve at resolved
  split at resolved
  · rename_i index located
    cases resolved
    obtain ⟨inside, named, fresh⟩ := List.findIdx?_eq_some_iff_getElem.mp located
    refine ⟨⟨_, List.getElem?_eq_getElem inside, eq_of_beq named⟩, ?_⟩
    intro earlier before other found
    obtain ⟨_, rfl⟩ := List.getElem?_eq_some_iff.mp found
    exact fun same => fresh earlier before (beq_iff_eq.mpr same)
  · cases resolved

theorem Scan.introduces_of_ofBytes {frame : Frame} {body : List UInt8} {scan : Scan}
    (read : Scan.ofBytes frame body = .ok scan) :
    ∃ header, ScanHeader.ofBytes body = .ok header ∧
      List.Forall₂ frame.Introduces header.ids (scan.components.map (·.index)) ∧
      ∀ component ∈ scan.components, ∃ id, frame.Introduces id component.index := by
  obtain ⟨header, parsed, rest⟩ := bind_eq_ok read
  obtain ⟨components, resolved, last⟩ := bind_eq_ok rest
  cases last
  refine ⟨header, parsed, ?_, fun component member => ?_⟩
  · unfold ScanHeader.ids
    rw [List.forall₂_map_left_iff, List.forall₂_map_right_iff]
    exact (mapM_eq_ok_iff.mp resolved).imp fun _ _ => ScanSelector.introduces_of_resolve
  · obtain ⟨selector, -, here⟩ := mapM_eq_ok_mem resolved member
    exact ⟨selector.id, ScanSelector.introduces_of_resolve here⟩

theorem forall_mem_iff_nodup {indices : List Nat} {count : Nat}
    (inside : ∀ index ∈ indices, index < count) (length : indices.length = count) :
    (∀ index < count, index ∈ indices) ↔ indices.Nodup := by
  constructor
  · intro all
    have within : (List.range count).Subperm indices :=
      List.nodup_range.subperm fun index member => all index (List.mem_range.mp member)
    have permuted := within.perm_of_length_le (by rw [length, List.length_range])
    exact permuted.nodup_iff.mp List.nodup_range
  · intro distinct index bound
    have within : indices.Subperm (List.range count) :=
      distinct.subperm fun index member => List.mem_range.mpr (inside index member)
    have permuted := within.perm_of_length_le (by rw [length, List.length_range])
    exact permuted.mem_iff.mpr (List.mem_range.mpr bound)

theorem nodup_filterMap_iff {α β : Type} {items : List α} (distinct : items.Nodup)
    {select : α → Option β} :
    (items.filterMap select).Nodup ↔
      ∀ first ∈ items, ∀ second ∈ items, first ≠ second → ∀ image,
        select first = some image → select second ≠ some image := by
  unfold List.Nodup
  rw [List.pairwise_filterMap]
  constructor
  · intro apart first inFirst second inSecond different image here there
    have : Std.Symm fun first second => ∀ image, select first = some image →
        ∀ other, select second = some other → image ≠ other :=
      ⟨fun _ _ apart image here other there same => apart other there image here same.symm⟩
    exact apart.forall inFirst inSecond different image here image there rfl
  · intro apart
    refine distinct.pairwise_of_forall_ne fun first inFirst second inSecond different => ?_
    rintro image here _ there rfl
    exact apart first inFirst second inSecond different image here there

namespace Scan

variable {frame : Frame} {scan : Scan} {slots : HuffmanSlots} {parts : List CodedComponent}

theorem index_of_codedComponents {gridCount : Nat}
    (coded : scan.codedComponents frame slots gridCount = .ok parts) :
    parts.map (·.index) = scan.components.map (·.index) := by
  obtain ⟨kind, -, found⟩ := bind_eq_ok coded
  have same : List.Forall₂ (· = ·) (scan.components.map (·.index)) (parts.map (·.index)) := by
    rw [List.forall₂_map_left_iff, List.forall₂_map_right_iff]
    refine (mapM_eq_ok_iff.mp found).imp fun component part here => ?_
    unfold codedComponent at here
    split at here
    · obtain ⟨coding, -, last⟩ := bind_eq_ok here
      cases last
      rfl
    · cases here
  rw [List.forall₂_eq_eq_eq] at same
  exact same.symm

theorem corner_mem_order
    (coded : scan.codedComponents frame slots frame.components.length = .ok parts) {place : Nat}
    {part : CodedComponent} (there : parts[place]? = some part) :
    { component := place, row := 0, column := 0 } ∈
      (ScanLayout.ofComponents frame (parts.map (·.component))).order := by
  have member : part.component ∈ frame.components :=
    List.mem_of_getElem? (inFrame_of_coded coded (List.mem_of_getElem? there))
  have tall := frame.imageBlocksTall_pos member
  have wide := frame.imageBlocksWide_pos member
  have listed : (parts.map (·.component))[place]? = some part.component := by
    rw [List.getElem?_map, there]
    rfl
  have admissible := admissible_of_coded coded
  generalize parts.map (·.component) = components at listed admissible ⊢
  unfold ScanLayout.ofComponents
  split
  · obtain ⟨inside, sole⟩ := List.getElem?_eq_some_iff.mp listed
    obtain rfl : place = 0 := Nat.lt_one_iff.mp inside
    cases sole
    exact ScanLayout.mem_order_raster.mpr ⟨rfl, tall, wide⟩
  · exact (ScanLayout.mem_order_of_components admissible).mpr
      ⟨part.component, listed, Nat.lt_of_lt_of_le tall (frame.imageBlocksTall_le _),
        Nat.lt_of_lt_of_le wide (frame.imageBlocksWide_le _)⟩

/-- A scan goes over a block twice exactly if two of its parts are the same component. -/
theorem visited_nodup_iff
    (coded : scan.codedComponents frame slots frame.components.length = .ok parts) :
    (ScanDecoder.visited frame parts).Nodup ↔ (parts.map (·.index)).Nodup := by
  unfold ScanDecoder.visited
  rw [nodup_filterMap_iff (ScanLayout.order_ofComponents_nodup (admissible_of_coded coded))]
  constructor
  · -- If a component is selected twice, both parts go over its block in the corner.
    intro apart
    rw [List.nodup_iff_getElem?_ne_getElem?]
    intro place later before inside same
    rw [List.length_map] at inside
    have here := List.getElem?_eq_getElem (Nat.lt_trans before inside)
    have there := List.getElem?_eq_getElem inside
    rw [List.getElem?_map, List.getElem?_map, here, there, Option.map_some, Option.map_some] at same
    refine apart _ (corner_mem_order coded here) _ (corner_mem_order coded there) ?_
      (ScanDecoder.placeOf parts[place] { component := place, row := 0, column := 0 }) ?_ ?_
    · intro equal
      exact absurd (congrArg BlockAddress.component equal) (Nat.ne_of_lt before)
    · dsimp only
      rw [here]
      rfl
    · dsimp only
      rw [there]
      unfold ScanDecoder.placeOf
      rw [Option.map_some, ← Option.some.inj same]
  · intro distinct first _ second _ different place here there
    obtain ⟨part, found, rfl⟩ := Option.map_eq_some_iff.mp here
    obtain ⟨part', found', same⟩ := Option.map_eq_some_iff.mp there
    obtain ⟨inside, -⟩ := List.getElem?_eq_some_iff.mp found
    obtain ⟨indices, rows, columns⟩ := BlockAddress.mk.inj same
    have components : first.component = second.component := by
      apply (List.getElem?_inj (by rw [List.length_map]; exact inside) distinct).mp
      rw [List.getElem?_map, List.getElem?_map, found, found']
      exact congrArg some indices.symm
    apply different
    cases first
    cases second
    cases components
    cases rows
    cases columns
    rfl

end Scan

theorem ScanHeader.selects_of_coded {frame : Frame} {header : ScanHeader} {scan : Scan}
    {slots : HuffmanSlots} {parts : List CodedComponent}
    (resolved : List.Forall₂ frame.Introduces header.ids (scan.components.map (·.index)))
    (coded : scan.codedComponents frame slots frame.components.length = .ok parts) :
    header.Selects frame parts := by
  rw [← Scan.index_of_codedComponents coded] at resolved
  have distinct := List.rel_nodup frame.introduces_biUnique resolved
  have length : header.ids.length = (parts.map (·.index)).length := resolved.length_eq
  refine ⟨resolved, distinct.symm, (Scan.visited_nodup_iff coded).trans distinct.symm, ?_⟩
  intro count
  refine (forall_mem_iff_nodup ?_ ?_).trans distinct.symm
  · intro index listed
    obtain ⟨part, isPart, rfl⟩ := List.mem_map.mp listed
    exact (List.getElem?_eq_some_iff.mp (Scan.inFrame_of_coded coded isPart)).1
  · exact length.symm.trans count

/-! ### Files -/

theorem Scan.coded_of_decode {frame : Frame} {scan : Scan} {slots : HuffmanSlots} {interval : Nat}
    {bytes : List UInt8} {before after : Array Grid}
    (done : scan.decode frame slots interval bytes before = .ok () after) :
    ∃ parts, scan.codedComponents frame slots before.size = .ok parts := by
  unfold decode at done
  split at done
  · cases done
  · rename_i parts coded
    exact ⟨parts, coded⟩

namespace ReadState

variable {file : List UInt8} {frame : Frame} {before after : ReadState} {index : Nat}
  {component : Component}

/-- No scan changes a component that has the identifier of an earlier one. -/
theorem Takes.shadowed (inFrame : frame.components[index]? = some component)
    (shadowed : ¬ frame.Introduces component.id index) {entry : Entry}
    (fits : frame.Fits before.grids) (takes : Takes file frame entry before after) :
    after.grids[index]? = before.grids[index]? := by
  by_cases isScan : entry.kind = .scan
  · obtain ⟨scan, scanStart, later, grids, read, -, -, decoded, rfl⟩ := takes.of_scan isScan
    obtain ⟨header, -, -, introduced⟩ := Scan.introduces_of_ofBytes read
    have touches := Scan.touches_decode frame scan before.huffman before.restartInterval
      (file.drop scanStart)
    have kept : (stateAfter (scan.decode frame before.huffman before.restartInterval
        (file.drop scanStart) before.grids))[index]? = before.grids[index]? := by
      refine touches.keeps_grid fits fun address position owns here => ?_
      obtain ⟨named, member, same⟩ := owns.named
      obtain ⟨id, ⟨found, there, rfl⟩, fresh⟩ := introduced named member
      rw [same.trans here] at there fresh
      cases there.symm.trans inFrame
      exact shadowed ⟨⟨component, inFrame, rfl⟩, fresh⟩
    rw [decoded] at kept
    exact kept
  · rw [(takes.of_notScan isScan).2.2]

theorem foldlM_addEntry_shadowed (inFrame : frame.components[index]? = some component)
    (shadowed : ¬ frame.Introduces component.id index) {entries : List Entry}
    (short : ∀ entry ∈ entries, entry.body.length ≤ 65533) (sound : before.Sound frame)
    (done : entries.foldlM (addEntry file frame) before = .ok after) :
    after.grids[index]? = before.grids[index]? := by
  refine (foldlM_preserves (fun state : ReadState => state.Sound frame ∧
    state.grids[index]? = before.grids[index]?) ?_ ⟨sound, rfl⟩ done).2
  rintro entry member first second ⟨sound, same⟩ step
  exact ⟨sound.addEntry (short entry member) step,
    ((takes_of_addEntry step).shadowed inFrame shadowed sound.fits).trans same⟩

end ReadState

namespace JpegImage

/-- In every file that is read, each selector of a scan header stands for the first component
that has its identifier. The selectors stand for different components, the scan goes over no
block twice, and a scan of as many selectors as there are components covers all of these,
exactly if the header names no identifier twice. A component that has the identifier of an
earlier one is left at zero by all scans. -/
theorem ofBytes_selectors {file : List UInt8} {image : JpegImage}
    (read : ofBytes file = .ok image) :
    ∃ header walk, FileHeader.read file = .ok header ∧ walkFile file = .ok walk ∧
      (∀ front entry later, walk.entries = front ++ entry :: later → entry.kind = .scan →
        ∃ state selection scan parts,
          front.foldlM (ReadState.addEntry file image.frame)
              (ReadState.start header walk.scanStarts) = .ok state ∧
            ScanHeader.ofBytes entry.body = .ok selection ∧
            Scan.ofBytes image.frame entry.body = .ok scan ∧
            scan.codedComponents image.frame state.huffman state.grids.size = .ok parts ∧
            selection.Selects image.frame parts) ∧
      ∀ (index : Nat) (component : Component), image.frame.components[index]? = some component →
        ¬ image.frame.Introduces component.id index →
          image.grids[index]? = some (Grid.zero (image.frame.blocksWide component)
            (image.frame.blocksTall component)) := by
  obtain ⟨header, headed, rest⟩ := bind_eq_ok read
  obtain ⟨walk, walked, rest⟩ := bind_eq_ok rest
  obtain ⟨scanned, gathered, rest⟩ := bind_eq_ok rest
  obtain ⟨state, settled, last⟩ := bind_eq_ok rest
  cases last
  have start := ReadState.sound_start (FileHeader.sound_of_read headed) walk.scanStarts
  have short := walkFile_body walked
  refine ⟨header, walk, headed, walked, ?_, ?_⟩
  · intro front entry later whole isScan
    rw [whole] at gathered short
    -- The state that a scan header meets is the one that the entries before it have left.
    rw [List.foldlM_append] at gathered
    obtain ⟨before, early, late⟩ := bind_eq_ok gathered
    rw [List.foldlM_cons] at late
    obtain ⟨after, here, -⟩ := bind_eq_ok late
    have sound := start.foldlM_addEntry
      (fun other member => short other (List.mem_append_left _ member)) early
    obtain ⟨scan, scanStart, others, grids, parsed, -, -, decoded, -⟩ :=
      (ReadState.takes_of_addEntry here).of_scan isScan
    obtain ⟨selection, selected, resolved, -⟩ := Scan.introduces_of_ofBytes parsed
    obtain ⟨parts, coded⟩ := Scan.coded_of_decode decoded
    refine ⟨before, selection, scan, parts, early, selected, parsed, coded, ?_⟩
    rw [sound.fits.size] at coded
    exact ScanHeader.selects_of_coded resolved coded
  · intro index component inFrame shadowed
    have zero : (ReadState.start header walk.scanStarts).grids[index]? =
        some (Grid.zero (header.frame.blocksWide component)
          (header.frame.blocksTall component)) := by
      unfold ReadState.start
      dsimp only at inFrame ⊢
      rw [List.getElem?_toArray, List.getElem?_map, inFrame]
      rfl
    have kept := ReadState.foldlM_addEntry_shadowed inFrame shadowed short start gathered
    obtain ⟨rfl, -⟩ := ReadState.foldlM_settle_eq_ok_iff.mp settled
    exact kept.trans zero

/-- Two blocks of a component each, of which the first component has the identifier 1. The second
component has the given identifier, and so has the second selector of the only scan. The data
codes the coefficient 1, then -1. -/
private def namedFile (id : UInt8) : List UInt8 :=
  [0xFF, 0xD8, 0xFF, 0xDB, 0, 67, 0] ++ List.replicate 64 1 ++
    [0xFF, 0xC0, 0, 14, 8, 0, 8, 0, 8, 2, 1, 0x11, 0, id, 0x11, 0,
     0xFF, 0xC4, 0, 38,
     0x00, 0, 0, 0, 0, 0, 0, 0, 0, 1, 0, 0, 0, 0, 0, 0, 0, 1,
     0x10, 0, 0, 0, 0, 0, 0, 0, 0, 1, 0, 0, 0, 0, 0, 0, 0, 0,
     0xFF, 0xDA, 0, 10, 2, 1, 0, id, 0, 0, 63, 0, 0x00, 0x40, 0x00, 0x00, 0x03,
     0xFF, 0xD9]

private def dcCoefficients (image : JpegImage) : List (List Int16) :=
  image.grids.toList.map fun grid => grid.blocks.toList.map (·.get 0)

private def selected (file : List UInt8) :
    Except CodecError (Nat × List (List Int16) × List (List UInt8 × List Nat)) := do
  let image ← ofBytes file
  let walk ← walkFile file
  let scans ← (walk.entries.filter fun entry => entry.kind = .scan).mapM fun entry => do
    let header ← ScanHeader.ofBytes entry.body
    let scan ← Scan.ofBytes image.frame entry.body
    pure (header.ids, scan.components.map (·.index))
  pure (image.frame.components.length, dcCoefficients image, scans)

private theorem selected_eq_ok {file : List UInt8} {count : Nat} {coefficients : List (List Int16)}
    {scans : List (List UInt8 × List Nat)} (done : selected file = .ok (count, coefficients, scans))
    {ids : List UInt8} {indices : List Nat} (listed : (ids, indices) ∈ scans) :
    ∃ image walk entry header scan, ofBytes file = .ok image ∧ walkFile file = .ok walk ∧
      entry ∈ walk.entries ∧ entry.kind = .scan ∧ ScanHeader.ofBytes entry.body = .ok header ∧
      Scan.ofBytes image.frame entry.body = .ok scan ∧ header.ids = ids ∧
      scan.components.map (·.index) = indices ∧ image.frame.components.length = count ∧
      dcCoefficients image = coefficients := by
  obtain ⟨image, read, rest⟩ := bind_eq_ok done
  obtain ⟨walk, walked, rest⟩ := bind_eq_ok rest
  obtain ⟨found, each, last⟩ := bind_eq_ok rest
  cases last
  obtain ⟨entry, filtered, here⟩ := mapM_eq_ok_mem each listed
  obtain ⟨member, isScan⟩ := List.mem_filter.mp filtered
  obtain ⟨header, parsed, rest⟩ := bind_eq_ok here
  obtain ⟨scan, resolved, last⟩ := bind_eq_ok rest
  cases last
  exact ⟨image, walk, entry, header, scan, read, walked, member, of_decide_eq_true isScan, parsed,
    resolved, rfl, rfl, rfl, rfl⟩

/-- With two identifiers, each component gets its own block. -/
theorem ofBytes_selectors_namedFile : ∃ image walk entry parts,
    ofBytes (namedFile 2) = .ok image ∧ walkFile (namedFile 2) = .ok walk ∧
      entry ∈ walk.entries ∧ entry.kind = .scan ∧ dcCoefficients image = [[1], [-1]] ∧
      (∃ scan slots gridCount, Scan.ofBytes image.frame entry.body = .ok scan ∧
        scan.codedComponents image.frame slots gridCount = .ok parts) ∧
      (ScanDecoder.visited image.frame parts).Nodup ∧
      ∀ index < image.frame.components.length, index ∈ parts.map (·.index) := by
  have evaluated : selected (namedFile 2) = .ok (2, [[1], [-1]], [([1, 2], [0, 1])]) := by
    decide +kernel
  obtain ⟨image, walk, entry, header, scan, read, walked, member, isScan, parsed, resolved, ids,
    indices, count, coefficients⟩ := selected_eq_ok evaluated List.mem_cons_self
  obtain ⟨start, walk', -, walked', scans, -⟩ := ofBytes_selectors read
  cases walked.symm.trans walked'
  obtain ⟨front, later, whole⟩ := List.append_of_mem member
  obtain ⟨state, header', scan', parts, -, parsed', resolved', coded, selects⟩ :=
    scans front entry later whole isScan
  cases parsed.symm.trans parsed'
  have distinct : header.ids.Nodup := by
    rw [ids]
    decide
  have named : header.ids.length = image.frame.components.length := by
    rw [ids, count]
    rfl
  exact ⟨image, walk, entry, parts, read, walked, member, isScan, coefficients,
    ⟨scan', state.huffman, state.grids.size, resolved', coded⟩, selects.once.mpr distinct,
    (selects.all named).mpr distinct⟩

/-- With one identifier for both, the second block overwrites the first, and the second component
keeps its zeros, although the scan names as many components as there are. -/
theorem ofBytes_namedFile_overwrites : ∃ image walk entry header scan,
    ofBytes (namedFile 1) = .ok image ∧ walkFile (namedFile 1) = .ok walk ∧
      entry ∈ walk.entries ∧ entry.kind = .scan ∧ ScanHeader.ofBytes entry.body = .ok header ∧
      Scan.ofBytes image.frame entry.body = .ok scan ∧
      header.ids.length = image.frame.components.length ∧
      ¬ (scan.components.map (·.index)).Nodup ∧ 1 ∉ scan.components.map (·.index) ∧
      dcCoefficients image = [[-1], [0]] := by
  have evaluated : selected (namedFile 1) = .ok (2, [[-1], [0]], [([1, 1], [0, 0])]) := by
    decide +kernel
  obtain ⟨image, walk, entry, header, scan, read, walked, member, isScan, parsed, resolved, ids,
    indices, count, coefficients⟩ := selected_eq_ok evaluated List.mem_cons_self
  refine ⟨image, walk, entry, header, scan, read, walked, member, isScan, parsed, resolved, ?_, ?_,
    ?_, coefficients⟩
  · rw [ids, count]
    rfl
  · rw [indices]
    decide
  · rw [indices]
    decide

end JpegImage

end LosslessJpeg
