import LosslessJpeg.Proofs.Marker.ScanData
import LosslessJpeg.Proofs.Scan.ScanParts
import LosslessJpeg.Proofs.Scan.ScanPieces

set_option autoImplicit false

/-!
Progressive scans of one band, bit after bit: a first scan that leaves out the lowest bits of
the coefficients, and one scan for each of these bits, from the highest on.
-/

namespace LosslessJpeg

open BitReader (Supplies)

def ScanBand.plane (first last top low : Nat) : ScanBand :=
  { first := first
    last := last
    high := if low = top then 0 else low + 1
    low := low }

def planeScan (selected : List ScanPart) (first last top low : Nat) : Scan :=
  Scan.ofParts selected (.plane first last top low)

/-- Decode the scans that carry the bits below `count`, from the highest of them on. Each has its
own tables in effect and its own data. -/
def decodePlanes (frame : Frame) (selected : List ScanPart) (first last top : Nat)
    (slots : Nat → HuffmanSlots) (bytes : Nat → List UInt8) :
    Nat → EStateM CodecError (Array Grid) Unit
  | 0 => pure ()
  | low + 1 => do
      (planeScan selected first last top low).decode frame (slots low) 0 (bytes low)
      decodePlanes frame selected first last top slots bytes low

section Planes

variable {frame : Frame} {selected : List ScanPart} {first last top : Nat}
  {slots : Nat → HuffmanSlots}

private theorem decodePlanes_replaces {bytes : Nat → List UInt8}
    {plane : Nat → BlockAddress → Block}
    (refinement : ∀ low < top, ∀ grids,
      frame.Replaced (fun _ => Block.zero) (plane (low + 1)) (covered frame selected) grids →
        ∃ after, (planeScan selected first last top low).decode frame (slots low) 0 (bytes low)
            grids = .ok () after ∧
          frame.Replaced (fun _ => Block.zero) (plane low) (covered frame selected) after)
    {low : Nat} (inside : low ≤ top) {grids : Array Grid}
    (replaced : frame.Replaced (fun _ => Block.zero) (plane low) (covered frame selected) grids) :
    ∃ after, decodePlanes frame selected first last top slots bytes low grids = .ok () after ∧
      frame.Replaced (fun _ => Block.zero) (plane 0) (covered frame selected) after := by
  induction low generalizing grids with
  | zero => exact ⟨grids, rfl, replaced⟩
  | succ low inductionHypothesis =>
      obtain ⟨between, decoded, replacedNext⟩ := refinement low inside grids replaced
      obtain ⟨after, others, replacedAfter⟩ :=
        inductionHypothesis (Nat.le_of_succ_le inside) replacedNext
      exact ⟨after, (run_bind_of_ok decoded).trans others, replacedAfter⟩

/-- When the first scan makes plane `top` of all blocks that it covers, and every other scan makes
the next plane of the plane before, all scans together make plane zero. -/
theorem decodePlanes_pieces {pieces : Nat → List ScanPiece} {closing : Nat → Closing}
    (plane : Nat → BlockAddress → Block)
    (encodes : ∀ low ≤ top, ∀ piece ∈ pieces low,
      (ScanEncoder.ofSlots (slots low)).EncodesPiece piece)
    (closes : ∀ low ≤ top, Marker.Closes (closing low).marker)
    (firstScan : ∀ bytes more, Supplies (closing top) (BitReader.ofBytes bytes)
        ((ScanEncoder.ofSlots (slots top)).piecesBits (pieces top) ++ more) →
      ∃ grids, (planeScan selected first last top top).decode frame (slots top) 0 bytes
          frame.zeroGrids = .ok () grids ∧
        frame.Replaced (fun _ => Block.zero) (plane top) (covered frame selected) grids)
    (refinement : ∀ low < top, ∀ bytes more, Supplies (closing low) (BitReader.ofBytes bytes)
        ((ScanEncoder.ofSlots (slots low)).piecesBits (pieces low) ++ more) →
      ∀ grids, frame.Replaced (fun _ => Block.zero) (plane (low + 1)) (covered frame selected)
          grids →
        ∃ after, (planeScan selected first last top low).decode frame (slots low) 0 bytes grids =
            .ok () after ∧
          frame.Replaced (fun _ => Block.zero) (plane low) (covered frame selected) after) :
    ∃ data : Nat → List UInt8,
      (∀ low ≤ top, pieceBytes (slots low) (pieces low) = .ok (data low)) ∧
      ∃ grids, decodePlanes frame selected first last top slots
          (fun low => data low ++ 0xFF :: (closing low).marker :: (closing low).after) (top + 1)
          frame.zeroGrids = .ok () grids ∧
        frame.Replaced (fun _ => Block.zero) (plane 0) (covered frame selected) grids := by
  have written := fun low inside => pieceBytes_supplies (encodes low inside)
  -- The data of all scans is chosen first, as it does not depend on what they decode to.
  choose! data coded supplied using written
  have supplies : ∀ low ≤ top, ∃ more, Supplies (closing low)
      (BitReader.ofBytes (data low ++ 0xFF :: (closing low).marker :: (closing low).after))
      ((ScanEncoder.ofSlots (slots low)).piecesBits (pieces low) ++ more) := by
    intro low inside
    exact supplied low inside (closing low) (closes low inside).2.1 (closes low inside).1
  refine ⟨data, coded, ?_⟩
  obtain ⟨more, suppliesFirst⟩ := supplies top (Nat.le_refl top)
  obtain ⟨grids, decoded, replaced⟩ := firstScan _ more suppliesFirst
  obtain ⟨after, others, replacedAfter⟩ := decodePlanes_replaces
    (fun low inside grids replacedBefore => by
      obtain ⟨more, suppliesHere⟩ := supplies low (Nat.le_of_lt inside)
      exact refinement low inside _ more suppliesHere grids replacedBefore)
    (Nat.le_refl top) replaced
  exact ⟨after, (run_bind_of_ok decoded).trans others, replacedAfter⟩

end Planes

end LosslessJpeg
