import LosslessJpeg.Proofs.Agreement
import LosslessJpeg.Scan.Decoder

set_option autoImplicit false

/-!
Decoding side by side. A relation between the states of two block decoders that survives each
thing that decoders do to states survives the decoding of blocks in every coding, and a relation
between scan decoders that survives the decoding of each block survives that of a whole scan. A
relation between readers gives rise to one of either kind.
-/

namespace LosslessJpeg

structure BitReader.Respected (admits : CodecError → Prop)
    (related : BitReader → BitReader → Prop) : Prop where
  undecodable : admits .undecodable
  peekBits : ∀ count : Nat,
    RunsAlike admits related (BitReader.peekBits count) (BitReader.peekBits count)
  skipBits : ∀ count : Nat,
    RunsAlike admits related (BitReader.skipBits count) (BitReader.skipBits count)
  takeRestart : RunsAlike admits related BitReader.takeRestart BitReader.takeRestart

namespace BitReader.Respected

variable {admits : CodecError → Prop} {related : BitReader → BitReader → Prop}

theorem runs_readBits (respected : Respected admits related) (count : Nat) :
    RunsAlike admits related (readBits count) (readBits count) :=
  .bind (respected.peekBits count) fun _ => .bind (respected.skipBits count) fun _ => .ofPure _

theorem runs_readBit (respected : Respected admits related) :
    RunsAlike admits related readBit readBit :=
  .bind (respected.runs_readBits 1) fun _ => .ofPure _

theorem runs_decodeLong (respected : Respected admits related) (symbols : Array UInt8)
    (length : Nat) (ranges : List CodeRange) :
    RunsAlike admits related (HuffmanDecoder.decodeLong symbols length ranges)
      (HuffmanDecoder.decodeLong symbols length ranges) := by
  induction ranges generalizing length with
  | nil => exact .ofThrow respected.undecodable
  | cons range longer inductionHypothesis =>
      refine .bind (respected.peekBits length) fun bits => ?_
      split
      · refine .bind (respected.skipBits length) fun _ => ?_
        split
        · exact .ofPure _
        · exact .ofThrow respected.undecodable
      · exact inductionHypothesis (length + 1)

theorem runs_decode (respected : Respected admits related) (decoder : HuffmanDecoder) :
    RunsAlike admits related decoder.decode decoder.decode := by
  refine .bind (respected.peekBits 9) fun group => ?_
  split
  · exact .bind (respected.skipBits _) fun _ => .ofPure _
  · exact respected.runs_decodeLong _ _ _

end BitReader.Respected

namespace BlockDecoder

/-- Related states are read alike, they agree on what decoders look at, and they stay related
when the same is done to both. Of a block, only the coefficients at the positions of `band` are
looked at and changed. -/
structure Respected (admits : CodecError → Prop) (band : Fin 64 → Prop)
    (related : BlockState → BlockState → Prop) : Prop where
  undecodable : admits .undecodable
  symbol : ∀ decoder : HuffmanDecoder,
    RunsAlike admits related (BlockDecoder.symbol decoder) (BlockDecoder.symbol decoder)
  bits : ∀ count : Nat,
    RunsAlike admits related (BlockDecoder.bits count) (BlockDecoder.bits count)
  bit : RunsAlike admits related BlockDecoder.bit BlockDecoder.bit
  predictor : ∀ state other, related state other → state.predictor = other.predictor
  endOfBandRun : ∀ state other, related state other → state.endOfBandRun = other.endOfBandRun
  coefficient : ∀ state other, related state other → ∀ position, band position →
    state.block.get position = other.block.get position
  setPredictor : ∀ state other, related state other → ∀ value : Int,
    related { state with predictor := value } { other with predictor := value }
  setEndOfBandRun : ∀ state other, related state other → ∀ run : Nat,
    related { state with endOfBandRun := run } { other with endOfBandRun := run }
  setCoefficient : ∀ state other, related state other → ∀ position, band position →
    ∀ value : Int16,
      related { state with block := state.block.set position.val value position.isLt }
        { other with block := other.block.set position.val value position.isLt }

namespace Respected

variable {admits : CodecError → Prop} {band : Fin 64 → Prop}
  {related : BlockState → BlockState → Prop}

theorem runs_magnitude (respected : Respected admits band related) (size : Nat) :
    RunsAlike admits related (magnitude size) (magnitude size) := by
  unfold magnitude
  split
  · exact .ofPure _
  · split
    · exact .bind (respected.bits size) fun _ => .ofPure _
    · exact .ofThrow respected.undecodable

theorem runs_placed {α : Type} (respected : Respected admits band related)
    {target : Option (Fin 64)} {next : Fin 64 → BlockDecoder α}
    (later : ∀ position, target = some position →
      RunsAlike admits related (next position) (next position)) :
    RunsAlike admits related (placed target >>= next) (placed target >>= next) := by
  cases target with
  | some position => exact later position rfl
  | none =>
      change RunsAlike admits related (throw CodecError.undecodable) (throw .undecodable)
      exact .ofThrow respected.undecodable

theorem runs_setCoefficient (respected : Respected admits band related) {position : Fin 64}
    (inside : band position) (value : Int16) :
    RunsAlike admits related (BlockDecoder.setCoefficient position value)
      (BlockDecoder.setCoefficient position value) :=
  .ofModify fun state other same => respected.setCoefficient state other same position inside value

theorem runs_setEndOfBandRun (respected : Respected admits band related) (run : Nat) :
    RunsAlike admits related (BlockDecoder.setEndOfBandRun run)
      (BlockDecoder.setEndOfBandRun run) :=
  .ofModify fun state other same => respected.setEndOfBandRun state other same run

theorem runs_dcCoefficient (respected : Respected admits band related) (first : band 0)
    (dc : HuffmanDecoder) (low : Nat) :
    RunsAlike admits related (dcCoefficient dc low) (dcCoefficient dc low) := by
  apply RunsAlike.bind (respected.symbol dc)
  intro size
  apply RunsAlike.bind (respected.runs_magnitude _)
  intro difference
  apply RunsAlike.ofGet
  intro before otherBefore same
  dsimp only
  rw [respected.predictor before otherBefore same]
  generalize otherBefore.predictor + difference.toInt = value
  split
  · exact .ofThrow respected.undecodable
  · apply RunsAlike.ofModify
    intro state other same
    exact respected.setCoefficient _ _ (respected.setPredictor state other same value) 0 first
      (scaled value low)

theorem runs_endOfBand (respected : Respected admits band related) (category : Nat) :
    RunsAlike admits related (endOfBand category) (endOfBand category) := by
  unfold endOfBand
  split
  · exact .ofPure _
  · exact .bind (respected.bits category) fun _ => .ofPure _

theorem runs_acCoefficients (respected : Respected admits band related) (ac : HuffmanDecoder)
    (low : Nat) (spanning : Bool) {positions : List (Option (Fin 64))}
    (inside : ∀ position, some position ∈ positions → band position) :
    RunsAlike admits related (acCoefficients ac low spanning positions)
      (acCoefficients ac low spanning positions) := by
  -- The recursion drops as many positions as a symbol tells, so it is not on the list itself.
  induction positions using acCoefficients.induct with
  | case1 =>
      unfold acCoefficients
      exact .ofPure ()
  | case2 first others behindZeros behindValue =>
      unfold acCoefficients
      apply RunsAlike.bind (respected.symbol ac)
      intro symbol
      dsimp only
      split
      · split
        · apply behindZeros
          intro position member
          exact inside position (List.mem_cons_of_mem _ (List.mem_of_mem_drop member))
        · split
          · exact .ofThrow respected.undecodable
          · exact .bind (respected.runs_endOfBand _) fun _ => respected.runs_setEndOfBandRun _
      · split
        · exact .ofThrow respected.undecodable
        · rename_i target rest found
          have later : ∀ place ∈ target :: rest, place ∈ first :: others :=
            fun place member => List.mem_of_mem_drop (found ▸ member)
          apply RunsAlike.bind (respected.runs_magnitude _)
          intro value
          apply respected.runs_placed
          intro position here
          have member := inside position (later _ (here ▸ List.mem_cons_self))
          apply RunsAlike.bind (respected.runs_setCoefficient member _)
          intro _
          apply behindValue symbol target rest found
          intro other listed
          exact inside other (later _ (List.mem_cons_of_mem _ listed))

theorem runs_acBand (respected : Respected admits band related) (ac : HuffmanDecoder)
    (low : Nat) (spanning : Bool) {positions : List (Option (Fin 64))}
    (inside : ∀ position, some position ∈ positions → band position) :
    RunsAlike admits related (acBand ac low spanning positions)
      (acBand ac low spanning positions) := by
  apply RunsAlike.ofGet
  intro state other same
  rw [respected.endOfBandRun state other same]
  split
  · exact respected.runs_setEndOfBandRun _
  · exact respected.runs_acCoefficients ac low spanning inside

theorem runs_correctCoefficient (respected : Respected admits band related) {position : Fin 64}
    (inside : band position) (low : Nat) :
    RunsAlike admits related (correctCoefficient position low)
      (correctCoefficient position low) := by
  apply RunsAlike.bind respected.bit
  intro correction
  apply RunsAlike.ofGet
  intro state other same
  dsimp only
  rw [respected.coefficient state other same position inside]
  split
  · exact respected.runs_setCoefficient inside _
  · exact .ofPure _

theorem runs_refinement (respected : Respected admits band related) (ac : HuffmanDecoder)
    (low : Nat) : RunsAlike admits related (refinement ac low) (refinement ac low) := by
  apply RunsAlike.bind (respected.symbol ac)
  intro symbol
  dsimp only
  split
  · split
    · exact .ofPure _
    · apply RunsAlike.bind (respected.runs_endOfBand _)
      intro blocks
      exact .bind (respected.runs_setEndOfBandRun blocks) fun _ => .ofPure _
  · split
    · exact .bind respected.bit fun _ => .ofPure _
    · exact .ofThrow respected.undecodable

theorem runs_refineCoefficients (respected : Respected admits band related) (ac : HuffmanDecoder)
    (low : Nat) (pending : Option Refinement) {positions : List (Option (Fin 64))}
    (inside : ∀ position, some position ∈ positions → band position) :
    RunsAlike admits related (refineCoefficients ac low pending positions)
      (refineCoefficients ac low pending positions) := by
  induction positions generalizing pending with
  | nil =>
      unfold refineCoefficients
      exact .ofPure ()
  | cons target rest inductionHypothesis =>
      have onward := fun next => inductionHypothesis next fun position member =>
        inside position (List.mem_cons_of_mem _ member)
      -- The next symbol may be pending or still to be read. Both come down to a symbol that is
      -- known.
      have walk : ∀ current, RunsAlike admits related
          (refineCoefficients ac low (some current) (target :: rest))
          (refineCoefficients ac low (some current) (target :: rest)) := by
        intro current
        unfold refineCoefficients
        apply RunsAlike.bind (.ofPure current)
        intro current
        apply respected.runs_placed
        intro position here
        have member := inside position (here ▸ List.mem_cons_self)
        apply RunsAlike.ofGet
        intro state other same
        dsimp only
        rw [respected.coefficient state other same position member]
        split
        · exact .bind (respected.runs_correctCoefficient member low) fun _ => onward _
        · cases current with
          | endOfBand => exact onward _
          | zeros count value =>
              cases count with
              | succ count => exact onward _
              | zero =>
                  cases value with
                  | none => exact onward none
                  | some coefficient =>
                      exact .bind (respected.runs_setCoefficient member _) fun _ => onward none
      cases pending with
      | some current => exact walk current
      | none =>
          unfold refineCoefficients
          exact .bind (respected.runs_refinement ac low) walk

theorem runs_refineBand (respected : Respected admits band related) (ac : HuffmanDecoder)
    (low : Nat) {positions : List (Option (Fin 64))}
    (inside : ∀ position, some position ∈ positions → band position) :
    RunsAlike admits related (refineBand ac low positions) (refineBand ac low positions) := by
  apply RunsAlike.ofGet
  intro state other same
  rw [respected.endOfBandRun state other same]
  apply RunsAlike.bind (respected.runs_refineCoefficients ac low _ inside)
  intro _
  apply RunsAlike.ofModify
  intro state other same
  rw [respected.endOfBandRun state other same]
  exact respected.setEndOfBandRun state other same _

theorem runs_refineDc (respected : Respected admits band related) (first : band 0) (low : Nat) :
    RunsAlike admits related (refineDc low) (refineDc low) := by
  apply RunsAlike.bind respected.bit
  intro set
  split
  · apply RunsAlike.ofModify
    intro state other same
    rw [respected.coefficient state other same 0 first]
    exact respected.setCoefficient state other same 0 first _
  · exact .ofPure _

end Respected

def ReadAlike (related : BitReader → BitReader → Prop) (state other : BlockState) : Prop :=
  ∃ reader, related state.reader reader ∧ other = { state with reader := reader }

theorem runs_ofBits {α : Type} {admits : CodecError → Prop}
    {related : BitReader → BitReader → Prop} {step : BitDecoder α}
    (runs : RunsAlike admits related step step) :
    RunsAlike admits (ReadAlike related) (ofBits step) (ofBits step) := by
  rintro state other ⟨reader, same, rfl⟩
  have ends := runs state.reader reader same
  unfold ofBits
  dsimp only
  generalize step state.reader = result at ends ⊢
  generalize step reader = otherResult at ends ⊢
  cases ends with
  | ok value same => exact .ok value ⟨_, same, rfl⟩
  | error admitted same => exact .error admitted ⟨_, same, rfl⟩

/-- Readers are nothing that decoders of blocks look at. -/
theorem respected_readAlike {admits : CodecError → Prop} {related : BitReader → BitReader → Prop}
    (respected : BitReader.Respected admits related) (band : Fin 64 → Prop) :
    Respected admits band (ReadAlike related) where
  undecodable := respected.undecodable
  symbol decoder := runs_ofBits (respected.runs_decode decoder)
  bits count := runs_ofBits (respected.runs_readBits count)
  bit := runs_ofBits respected.runs_readBit
  predictor := by
    rintro state _ ⟨reader, -, rfl⟩
    rfl
  endOfBandRun := by
    rintro state _ ⟨reader, -, rfl⟩
    rfl
  coefficient := by
    rintro state _ ⟨reader, -, rfl⟩ position _
    rfl
  setPredictor := by
    rintro state _ ⟨reader, same, rfl⟩ value
    exact ⟨reader, same, rfl⟩
  setEndOfBandRun := by
    rintro state _ ⟨reader, same, rfl⟩ run
    exact ⟨reader, same, rfl⟩
  setCoefficient := by
    rintro state _ ⟨reader, same, rfl⟩ position _ value
    exact ⟨reader, same, rfl⟩

end BlockDecoder

namespace BlockCoding

/-- The positions whose coefficients a scan carries in this coding. -/
def Carries : BlockCoding → Fin 64 → Prop
  | .sequential _ _, _ => True
  | .dcFirst _ _, position => position = 0
  | .dcRefinement _, position => position = 0
  | .acFirst _ positions _, position => some position ∈ positions
  | .acRefinement _ positions _, position => some position ∈ positions

theorem runs_decode {admits : CodecError → Prop} {band : Fin 64 → Prop}
    {related : BlockState → BlockState → Prop}
    (respected : BlockDecoder.Respected admits band related) {coding : BlockCoding}
    (inside : ∀ position, coding.Carries position → band position) :
    RunsAlike admits related coding.decode coding.decode := by
  cases coding with
  | sequential dc ac =>
      have all : ∀ position, band position := fun position => inside position trivial
      exact .bind (respected.runs_dcCoefficient (all 0) dc 0) fun _ =>
        respected.runs_acBand ac 0 false fun position _ => all position
  | dcFirst dc low => exact respected.runs_dcCoefficient (inside 0 rfl) dc low
  | dcRefinement low => exact respected.runs_refineDc (inside 0 rfl) low
  | acFirst ac positions low => exact respected.runs_acBand ac low true inside
  | acRefinement ac positions low => exact respected.runs_refineBand ac low inside

end BlockCoding

/-! ### Scans -/

namespace ScanDecoder

variable {admits : CodecError → Prop} {related : ScanState → ScanState → Prop}
  {parts : Array CodedComponent} {layout : ScanLayout} {interval : Nat}

theorem runs_decodeUnit {unit : Nat}
    (begins : ∀ unit, RunsAlike admits related (beginUnit interval unit) (beginUnit interval unit))
    (each : ∀ address ∈ layout.blocks unit,
      RunsAlike admits related (decodeBlock parts address) (decodeBlock parts address)) :
    RunsAlike admits related (decodeUnit parts layout interval unit)
      (decodeUnit parts layout interval unit) :=
  .bind (begins unit) fun _ => .ofForM each

theorem runs_decodeUnits {remaining unit : Nat}
    (begins : ∀ unit, RunsAlike admits related (beginUnit interval unit) (beginUnit interval unit))
    (each : ∀ address ∈ layout.order,
      RunsAlike admits related (decodeBlock parts address) (decodeBlock parts address))
    (within : unit + remaining ≤ layout.units) :
    RunsAlike admits related (decodeUnits parts layout interval remaining unit)
      (decodeUnits parts layout interval remaining unit) := by
  induction remaining generalizing unit with
  | zero => exact .ofPure ()
  | succ remaining inductionHypothesis =>
      have here : RunsAlike admits related (decodeUnit parts layout interval unit)
          (decodeUnit parts layout interval unit) := by
        apply runs_decodeUnit begins
        intro address member
        apply each
        exact List.mem_flatMap.mpr ⟨unit, List.mem_range.mpr (by omega), member⟩
      exact .bind here fun _ => inductionHypothesis (by omega)

def ReadAlike (related : BitReader → BitReader → Prop) (state other : ScanState) : Prop :=
  ∃ reader, related state.reader reader ∧ other = { state with reader := reader }

section

variable {read : BitReader → BitReader → Prop}

theorem runs_decodeBlock_readAlike (respected : BitReader.Respected admits read)
    (parts : Array CodedComponent) (address : BlockAddress) :
    RunsAlike admits (ReadAlike read) (decodeBlock parts address) (decodeBlock parts address) := by
  rintro state other ⟨reader, same, rfl⟩
  unfold decodeBlock
  cases parts[address.component]? with
  | none => exact .ok () ⟨reader, same, rfl⟩
  | some part =>
      have runs : RunsAlike admits (BlockDecoder.ReadAlike read) part.coding.decode
          part.coding.decode :=
        BlockCoding.runs_decode (BlockDecoder.respected_readAlike respected fun _ => True)
          fun _ _ => trivial
      have ends := runs (blockState state part address)
        (blockState { state with reader := reader } part address) ⟨reader, same, rfl⟩
      dsimp only
      generalize part.coding.decode (blockState state part address) = result at ends ⊢
      generalize part.coding.decode (blockState { state with reader := reader } part address) =
        otherResult at ends ⊢
      cases ends with
      | ok value same =>
          obtain ⟨left, same, rfl⟩ := same
          exact .ok () ⟨left, same, rfl⟩
      | error admitted same =>
          obtain ⟨left, same, rfl⟩ := same
          exact .error admitted ⟨left, same, rfl⟩

theorem runs_beginUnit_readAlike (respected : BitReader.Respected admits read)
    (interval unit : Nat) :
    RunsAlike admits (ReadAlike read) (beginUnit interval unit) (beginUnit interval unit) := by
  rintro state other ⟨reader, same, rfl⟩
  unfold beginUnit
  dsimp only
  split
  · have ends := respected.takeRestart state.reader reader same
    generalize BitReader.takeRestart state.reader = result at ends ⊢
    generalize BitReader.takeRestart reader = otherResult at ends ⊢
    cases ends with
    | ok number same => exact .ok () ⟨_, same, rfl⟩
    | error admitted same => exact .error admitted ⟨_, same, rfl⟩
  · exact .ok () ⟨reader, same, rfl⟩

theorem runs_decodeUnits_readAlike (respected : BitReader.Respected admits read)
    (parts : Array CodedComponent) (layout : ScanLayout) (interval : Nat) :
    RunsAlike admits (ReadAlike read) (decodeUnits parts layout interval layout.units 0)
      (decodeUnits parts layout interval layout.units 0) :=
  runs_decodeUnits (runs_beginUnit_readAlike respected interval)
    (fun address _ => runs_decodeBlock_readAlike respected parts address)
    (Nat.le_of_eq (Nat.zero_add _))

end

end ScanDecoder

/-- A scan decodes to the same from data that is read alike. Unless it cannot begin, it fails as
reading does. -/
theorem Scan.decode_readAlike {admits : CodecError → Prop} {read : BitReader → BitReader → Prop}
    (respected : BitReader.Respected admits read) {bytes other : List UInt8}
    (same : read (BitReader.ofBytes bytes) (BitReader.ofBytes other)) (frame : Frame) (scan : Scan)
    (slots : HuffmanSlots) (interval : Nat) (grids : Array Grid) :
    scan.decode frame slots interval other grids = scan.decode frame slots interval bytes grids ∧
      ∀ failure after, scan.decode frame slots interval bytes grids = .error failure after →
        admits failure ∨ scan.codedComponents frame slots grids.size = .error failure := by
  unfold decode
  cases coded : scan.codedComponents frame slots grids.size with
  | error failure =>
      refine ⟨rfl, fun other after failed => Or.inr ?_⟩
      cases failed
      rfl
  | ok parts =>
      dsimp only
      have ends := ScanDecoder.runs_decodeUnits_readAlike respected parts.toArray
        (ScanLayout.ofComponents frame (parts.map (·.component))) interval
        { reader := BitReader.ofBytes bytes
          predictors := Array.replicate parts.length 0
          endOfBandRun := 0
          grids := grids }
        { reader := BitReader.ofBytes other
          predictors := Array.replicate parts.length 0
          endOfBandRun := 0
          grids := grids } ⟨_, same, rfl⟩
      generalize ScanDecoder.decodeUnits parts.toArray _ interval _ 0 _ = result at ends ⊢
      generalize ScanDecoder.decodeUnits parts.toArray _ interval _ 0 _ = otherResult at ends ⊢
      cases ends with
      | ok value alike =>
          obtain ⟨reader, -, rfl⟩ := alike
          exact ⟨rfl, nofun⟩
      | error admitted alike =>
          obtain ⟨reader, -, rfl⟩ := alike
          refine ⟨rfl, fun failure after failed => Or.inl ?_⟩
          cases failed
          exact admitted

end LosslessJpeg
