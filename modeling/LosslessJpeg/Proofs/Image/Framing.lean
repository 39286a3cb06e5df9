import LosslessJpeg.Proofs.Image.RoundTrip

set_option autoImplicit false

/-!
How the file of an image is framed: its segments in order, the data of one scan, in which no
byte can be taken for a marker, and the end of the image.
-/

namespace LosslessJpeg

theorem stuffed_followed (data behind : List UInt8) {index : Nat}
    (inside : index < (stuffed data).length)
    (full : (stuffed data ++ behind)[index]? = some 0xFF) :
    (stuffed data ++ behind)[index + 1]? = some 0 := by
  induction data generalizing index with
  | nil => exact absurd inside (Nat.not_lt_zero index)
  | cons byte data inductionHypothesis =>
      rw [stuffed_cons, List.append_assoc] at full ⊢
      rw [stuffed_cons, List.length_append] at inside
      by_cases escaped : byte = 0xFF
      · rw [if_pos escaped] at full inside ⊢
        match index with
        | 0 => rfl
        | 1 => cases full
        | index + 2 =>
            change index + 2 < 2 + (stuffed data).length at inside
            exact inductionHypothesis (by omega) full
      · rw [if_neg escaped] at full inside ⊢
        match index with
        | 0 =>
            cases full
            exact absurd rfl escaped
        | index + 1 =>
            change index + 1 < 1 + (stuffed data).length at inside
            exact inductionHypothesis (by omega) full

namespace JpegImage

variable {image : JpegImage} {file : List UInt8}

theorem walkFile_toBytes
    (described : ∀ segment ∈ image.metadata, Marker.isMetadata segment.marker = true)
    (written : image.toBytes = .ok file) :
    ∃ slots data walk start, walkFile file = .ok walk ∧
      walk.entries.map Entry.segment =
        image.entries slots ++ [{ marker := Marker.endOfImage, body := [] }] ∧
      walk.scanStarts = [start] ∧
      file.drop start = stuffed data ++ [0xFF, Marker.endOfImage] ∧
      walk.entries.getLast?.map Entry.offset = some (start + (stuffed data).length) := by
  obtain ⟨tokens, -, rest⟩ := bind_eq_ok written
  obtain ⟨scan, writtenScan, rest⟩ := bind_eq_ok rest
  obtain ⟨chunks, writtenSegments, last⟩ := bind_eq_ok rest
  cases last
  obtain ⟨-, data, -, rfl, -, -⟩ := tokenBytes_eq_ok writtenScan
  rw [segments_eq] at writtenSegments
  obtain ⟨walk, start, walked, segments, starts, behind, stops⟩ :=
    walkFile_written (front_inner described _) scanSegment_walkable rfl writtenSegments data
  refine ⟨image.optimalSlots (SymbolCounts.ofTokens tokens), data, walk, start, walked,
    segments.trans ?_, starts, behind, stops⟩
  rw [entries, List.cons_append, List.append_assoc]
  rfl

/-- The file of an image holds its metadata, one segment each for the quantization tables, the
frame, the Huffman tables and the scan header, and the data of this scan up to the end of the
image. Inside the data there are no markers. -/
theorem toBytes_framed
    (described : ∀ segment ∈ image.metadata, Marker.isMetadata segment.marker = true)
    (written : image.toBytes = .ok file) :
    ∃ walk huffmanTables start last, walkFile file = .ok walk ∧
      walk.entries.map Entry.segment =
        { marker := Marker.startOfImage, body := [] } :: image.metadata ++
          [{ marker := Marker.quantizerTables, body := quantizerBody image.usedQuantizers },
           { marker := image.frameMarker, body := image.frame.bytes },
           { marker := Marker.huffmanTables, body := huffmanTables },
           { marker := Marker.startOfScan, body := image.scanHeaderBytes },
           { marker := Marker.endOfImage, body := [] }] ∧
      (image.frameMarker = Marker.baselineFrame ∨
        image.frameMarker = Marker.extendedFrame) ∧
      walk.scanStarts = [start] ∧ walk.entries.getLast? = some last ∧
      last.offset + 2 = file.length ∧ start ≤ last.offset ∧
      ∀ index, start ≤ index → index < last.offset → file[index]? = some 0xFF →
        file[index + 1]? = some 0 := by
  obtain ⟨slots, data, walk, start, walked, segments, starts, behind, stops⟩ :=
    walkFile_toBytes described written
  obtain ⟨last, isLast, place⟩ := Option.map_eq_some_iff.mp stops
  have length := congrArg List.length behind
  rw [List.length_drop, List.length_append] at length
  change file.length - start = (stuffed data).length + 2 at length
  refine ⟨walk, huffmanBody slots.tables, start, last, walked, segments.trans ?_,
    frameMarker_eq image, starts, isLast, by omega, by omega, ?_⟩
  · rw [entries, front, List.cons_append, List.cons_append, List.append_assoc, List.append_assoc]
    rfl
  · -- A 0xFF between the start of the data and the last marker lies in stuffed data.
    intro index behindStart inside full
    obtain ⟨offset, rfl⟩ := Nat.exists_eq_add_of_le behindStart
    rw [← List.getElem?_drop, behind] at full
    rw [Nat.add_assoc, ← List.getElem?_drop, behind]
    exact stuffed_followed data _ (by omega) full

/-- A block with a coefficient that no code states, and with segments that look like markers. -/
private def glaring : JpegImage :=
  { frame :=
      { width := 3
        height := 2
        components := [{ id := 1, across := 1, down := 1, quantizer := 2 }]
        progressive := false
        width_ne_zero := by decide
        height_ne_zero := by decide
        components_ne_nil := by decide
        components_length := by decide
        admissible := by decide }
    grids :=
      #[{ blocksWide := 1
          blocksTall := 1
          blocks := #[(Block.zero.setIfInBounds 0 (-32768)).setIfInBounds 63 (-32768)]
          blocks_size := rfl }]
    quantizers := #v[none, none, some (Vector.replicate 64 300), none]
    metadata :=
      [{ marker := 0xE1, body := [0xFF, 0xD9, 0xFF, 0xDA, 0, 2] },
       { marker := Marker.comment, body := [0xFF] }] }

theorem toBytes_framed_glaring :
    ∃ file walk start last, glaring.toBytes = .ok file ∧ walkFile file = .ok walk ∧
      walk.scanStarts = [start] ∧ walk.entries.getLast? = some last ∧
      last.offset + 2 = file.length ∧
      ∀ index, start ≤ index → index < last.offset → file[index]? = some 0xFF →
        file[index + 1]? = some 0 := by
  have fits : glaring.frame.Fits glaring.grids :=
    { size := rfl
      grid := by
        intro index component grid found there
        match index with
        | 0 =>
            cases found
            cases there
            exact ⟨rfl, rfl⟩
        | index + 1 => cases found }
  obtain ⟨file, written⟩ := toBytes_of_few fits (by decide) (by decide)
  obtain ⟨walk, -, start, last, walked, -, -, starts, isLast, length, -, followed⟩ :=
    toBytes_framed (by decide) written
  exact ⟨file, walk, start, last, written, walked, starts, isLast, length, followed⟩

end JpegImage

end LosslessJpeg
