import LosslessJpeg.Proofs.Bits.Confinement
import LosslessJpeg.Proofs.Scan.SideBySide

set_option autoImplicit false

/-!
Decoding a scan stays inside its entropy-coded data: it never lacks data, and what lies
behind the marker that closes the data makes no difference to it, whether it succeeds or
fails.
-/

namespace LosslessJpeg

theorem BitReader.respected_alongside : Respected (· = .undecodable) Alongside where
  undecodable := rfl
  peekBits count := (assured_peekBits count).mono fun _ never => never.elim
  skipBits count := (assured_skipBits count).mono fun _ never => never.elim
  takeRestart := assured_takeRestart.mono fun _ never => never.elim

namespace Scan

/-- Whether a scan fails although it has all of its data. -/
def DespiteData (failure : CodecError) : Prop :=
  failure ≠ .unexpectedEnd ∧ failure ≠ .malformed .scanWithoutData

private theorem decoderAt_despiteData (tables : Vector (Option HuffmanTable) 4) (id : Nat) :
    FailsOnly DespiteData (decoderAt tables id) := by
  unfold decoderAt HuffmanDecoder.ofTable HuffmanDecoder.build
  dsimp only
  repeat' split
  all_goals first
    | exact .ofOk _
    | exact .ofError ⟨nofun, nofun⟩

private theorem codingOf_despiteData (kind : ScanKind) (scan : Scan) (slots : HuffmanSlots)
    (component : ScanComponent) : FailsOnly DespiteData (codingOf kind scan slots component) := by
  have dc := decoderAt_despiteData slots.dc component.dcTable
  have ac := decoderAt_despiteData slots.ac component.acTable
  cases kind with
  | sequential => exact .bind dc fun _ _ => .bind ac fun _ _ => .ofOk _
  | dcFirst => exact .bind dc fun _ _ => .ofOk _
  | dcRefinement => exact .ofOk _
  | acFirst => exact .bind ac fun _ _ => .ofOk _
  | acRefinement => exact .bind ac fun _ _ => .ofOk _

private theorem kind_despiteData (frame : Frame) (scan : Scan) :
    FailsOnly DespiteData (scan.kind frame) := by
  unfold Scan.kind
  dsimp only
  repeat' split
  all_goals first
    | exact .ofOk _
    | exact .ofError ⟨nofun, nofun⟩

private theorem codedComponents_despiteData (frame : Frame) (scan : Scan) (slots : HuffmanSlots)
    (gridCount : Nat) : FailsOnly DespiteData (scan.codedComponents frame slots gridCount) := by
  refine .bind (kind_despiteData frame scan) fun kind _ => .ofMapM fun component _ => ?_
  unfold codedComponent
  split
  · exact .bind (codingOf_despiteData kind scan slots component) fun _ _ => .ofOk _
  · exact .ofError ⟨nofun, nofun⟩

theorem decode_confined {bytes other : List UInt8} (same : SameScanData bytes other)
    (frame : Frame) (scan : Scan) (slots : HuffmanSlots) (interval : Nat) (grids : Array Grid) :
    scan.decode frame slots interval other grids =
        scan.decode frame slots interval bytes grids ∧
      ∀ failure after, scan.decode frame slots interval bytes grids = .error failure after →
        DespiteData failure := by
  obtain ⟨alike, fails⟩ := decode_readAlike BitReader.respected_alongside
    (BitReader.alongside_ofBytes same) frame scan slots interval grids
  refine ⟨alike, fun failure after failed => ?_⟩
  rcases fails failure after failed with undecodable | coded
  · rw [undecodable]
    exact ⟨nofun, nofun⟩
  · exact codedComponents_despiteData frame scan slots grids.size failure coded

end Scan

/-- Reading bits and walking over a file agree on where entropy-coded data ends. Whatever is
asked of a reader of the data, it answers, and neither it nor the decoder of a scan depends on
what follows the closing marker. -/
theorem scanData_confines_reading (file other : List UInt8) :
    (∀ start cursor, skipScanData start (file.drop start) = .ok cursor →
      other.take (cursor.offset + 2) = file.take (cursor.offset + 2) →
      ∀ operations : List BitReader.Operation, ∃ answers left otherLeft,
        operations.mapM BitReader.Operation.run (BitReader.ofBytes (file.drop start)) =
            .ok answers left ∧
          operations.mapM BitReader.Operation.run (BitReader.ofBytes (other.drop start)) =
            .ok answers otherLeft) ∧
      ∀ walk, walkFile file = .ok walk → ∀ start ∈ walk.scanStarts,
        ∃ cursor, skipScanData start (file.drop start) = .ok cursor ∧
          ∀ (frame : Frame) (scan : Scan) (slots : HuffmanSlots) (interval : Nat)
            (grids : Array Grid),
            (∀ after, scan.decode frame slots interval (file.drop start) grids ≠
                .error .unexpectedEnd after) ∧
              (other.take (cursor.offset + 2) = file.take (cursor.offset + 2) →
                scan.decode frame slots interval (other.drop start) grids =
                  scan.decode frame slots interval (file.drop start) grids) := by
  constructor
  · intro start cursor stops same operations
    have data := sameScanData_drop stops same
    obtain ⟨answers, left, otherLeft, answered, otherAnswered, -⟩ :=
      (BitReader.assured_operations operations).eq_ok (BitReader.alongside_ofBytes data)
    exact ⟨answers, left, otherLeft, answered, otherAnswered⟩
  · intro walk walked start member
    obtain ⟨cursor, stops⟩ := walkFile_scanStarts walked start member
    refine ⟨cursor, stops, fun frame scan slots interval grids => ⟨?_, fun same => ?_⟩⟩
    · obtain ⟨-, fails⟩ :=
        Scan.decode_confined (sameScanData_drop stops rfl) frame scan slots interval grids
      exact fun after failed => (fails _ after failed).1 rfl
    · exact (Scan.decode_confined (sameScanData_drop stops same) frame scan slots interval grids).1

/-- A scan header, data with a stuffed zero and a restart marker, a fill byte, a comment and
the end of the image. -/
private def restartedFile : List UInt8 :=
  [0xFF, 0xD8, 0xFF, 0xDA, 0x00, 0x08, 1, 1, 0x00, 0, 63, 0,
   0x12, 0xFF, 0x00, 0x34, 0xFF, 0xD0, 0x56, 0xFF, 0xFF, 0xFE, 0x00, 0x04, 0x68, 0x69,
   0xFF, 0xD9]

theorem scanData_confines_reading_restarted :
    (∃ left otherLeft,
      [.peek 9, .skip 4, .read 16, .restart, .read 8, .read 16, .restart].mapM
          BitReader.Operation.run (BitReader.ofBytes (restartedFile.drop 12)) =
          .ok [some 37, none, some 12275, some 0, some 86, some 0, none] left ∧
        [.peek 9, .skip 4, .read 16, .restart, .read 8, .read 16, .restart].mapM
          BitReader.Operation.run (BitReader.ofBytes ((restartedFile.take 22).drop 12)) =
          .ok [some 37, none, some 12275, some 0, some 86, some 0, none] otherLeft) ∧
      ∀ (frame : Frame) (scan : Scan) (slots : HuffmanSlots) (interval : Nat)
        (grids : Array Grid),
        scan.decode frame slots interval ((restartedFile.take 22).drop 12) grids =
          scan.decode frame slots interval (restartedFile.drop 12) grids := by
  obtain ⟨answers, decoding⟩ := scanData_confines_reading restartedFile (restartedFile.take 22)
  have stops : skipScanData 12 (restartedFile.drop 12) =
      .ok { offset := 20, rest := restartedFile.drop 20 } := by
    decide
  constructor
  · obtain ⟨found, left, otherLeft, answered, otherAnswered⟩ := answers 12 _ stops (by decide)
      [.peek 9, .skip 4, .read 16, .restart, .read 8, .read 16, .restart]
    have known : found = [some 37, none, some 12275, some 0, some 86, some 0, none] := by
      cases answered
      rfl
    exact ⟨left, otherLeft, known ▸ answered, known ▸ otherAnswered⟩
  · have starts : (walkFile restartedFile).map FileWalk.scanStarts = .ok [12] := by
      decide +kernel
    obtain ⟨walk, walked, starts⟩ := map_eq_ok starts
    obtain ⟨cursor, stops', each⟩ := decoding walk walked 12 (starts ▸ List.mem_singleton.mpr rfl)
    cases stops.symm.trans stops'
    intro frame scan slots interval grids
    exact (each frame scan slots interval grids).2 (by decide)

end LosslessJpeg
