import LosslessJpeg.Proofs.Block.Sampling
import LosslessJpeg.Proofs.Scan.CodedComponents
import LosslessJpeg.Proofs.Scan.SideBySide

set_option autoImplicit false

/-!
The footprint of a scan: the coefficients of its band in the blocks of its components, those
beyond the image left out if it has one component only. A scan changes nothing else, even if it
fails midway, and nothing else makes a difference to it. So two scans of different components or
of different bands can be decoded in either order.
-/

namespace LosslessJpeg

def ScanBand.Holds (band : ScanBand) (position : Fin 64) : Prop :=
  ∃ frequency, band.first ≤ frequency ∧ frequency ≤ band.last ∧
    zigzag[frequency]? = some position

/-- A coefficient that a scan of a frame may change. -/
structure Scan.Owns (frame : Frame) (scan : Scan) (address : BlockAddress)
    (position : Fin 64) : Prop where
  named : ∃ component ∈ scan.components, component.index = address.component
  inImage : scan.components.length = 1 → address.InImage frame
  inBand : scan.band.Holds position

def Scan.Apart (scan other : Scan) : Prop :=
  (∀ component ∈ scan.components, ∀ third ∈ other.components, component.index ≠ third.index) ∨
    ∀ frequency, scan.band.first ≤ frequency → frequency ≤ scan.band.last →
      other.band.first ≤ frequency → other.band.last < frequency

theorem mem_bandPositions {first last : Nat} {position : Fin 64} :
    some position ∈ bandPositions first last ↔
      ∃ frequency, first ≤ frequency ∧ frequency ≤ last ∧ zigzag[frequency]? = some position := by
  unfold bandPositions
  rw [List.mem_map]
  constructor
  · rintro ⟨frequency, member, here⟩
    rw [List.mem_range'_1] at member
    exact ⟨frequency, by omega, by omega, here⟩
  · rintro ⟨frequency, low, high, here⟩
    exact ⟨frequency, List.mem_range'_1.mpr (by omega), here⟩

theorem Scan.Apart.not_owns {scan other : Scan} (apart : scan.Apart other) {frame : Frame}
    {address : BlockAddress} {position : Fin 64} (owns : scan.Owns frame address position) :
    ¬ other.Owns frame address position := by
  intro otherOwns
  cases apart with
  | inl differentComponents =>
      obtain ⟨component, member, same⟩ := owns.named
      obtain ⟨third, otherMember, otherSame⟩ := otherOwns.named
      exact differentComponents component member third otherMember (same.trans otherSame.symm)
  | inr differentBands =>
      obtain ⟨frequency, low, high, here⟩ := owns.inBand
      obtain ⟨third, otherLow, otherHigh, there⟩ := otherOwns.inBand
      have inside := (List.getElem?_eq_some_iff.mp here).1
      have same : frequency = third :=
        (List.getElem?_inj inside zigzag_nodup).mp (here.trans there.symm)
      have beyond := differentBands frequency low high (same ▸ otherLow)
      omega

namespace BlockDecoder

structure Alike (band : Fin 64 → Prop) (first second : Block) (state other : BlockState) :
    Prop where
  reader : state.reader = other.reader
  predictor : state.predictor = other.predictor
  endOfBandRun : state.endOfBandRun = other.endOfBandRun
  inside : ∀ position, band position → state.block.get position = other.block.get position
  outside : ∀ position, ¬ band position →
    state.block.get position = first.get position ∧ other.block.get position = second.get position

variable {band : Fin 64 → Prop} {first second : Block}

private theorem alike_ofBits {α : Type} (step : BitDecoder α) :
    RunsAlike (fun _ : CodecError => True) (Alike band first second) (ofBits step)
      (ofBits step) := by
  intro state other alike
  unfold ofBits
  rw [alike.reader]
  cases step other.reader with
  | ok value reader => exact .ok value { alike with reader := rfl }
  | error failure reader => exact .error trivial { alike with reader := rfl }

/-- Decoders of blocks look at the coefficients of their band alone. -/
theorem respected_alike : Respected (fun _ => True) band (Alike band first second) where
  undecodable := trivial
  symbol decoder := alike_ofBits decoder.decode
  bits count := alike_ofBits (BitReader.readBits count)
  bit := alike_ofBits BitReader.readBit
  predictor state other alike := alike.predictor
  endOfBandRun state other alike := alike.endOfBandRun
  coefficient state other alike := alike.inside
  setPredictor state other alike value := { alike with predictor := rfl }
  setEndOfBandRun state other alike run := { alike with endOfBandRun := rfl }
  setCoefficient state other alike position member value :=
    { alike with
      inside := by
        intro place inBand
        rw [get_set, get_set, alike.inside place inBand]
      outside := by
        intro place notInBand
        have different : position ≠ place := fun same => notInBand (same ▸ member)
        rw [get_set, get_set, if_neg different, if_neg different]
        exact alike.outside place notInBand }

end BlockDecoder

/-- Grids that agree on the coefficients owned, while of all others each has those of grids of
its own. -/
structure Frame.Alike (frame : Frame) (owned : BlockAddress → Fin 64 → Prop)
    (first second grids others : Array Grid) : Prop where
  fits : frame.Fits grids
  fitsToo : frame.Fits others
  inside : ∀ address position, address.Inside frame → owned address position →
    (blockAt grids address).get position = (blockAt others address).get position
  outside : ∀ address position, address.Inside frame → ¬ owned address position →
    (blockAt grids address).get position = (blockAt first address).get position ∧
      (blockAt others address).get position = (blockAt second address).get position

/-- Whatever it ends in, a step changes no coefficient but those owned, and no other makes a
difference to it. -/
def Frame.Touches (frame : Frame) (owned : BlockAddress → Fin 64 → Prop)
    (step : EStateM CodecError (Array Grid) Unit) : Prop :=
  ∀ first second, RunsAlike (fun _ => True) (frame.Alike owned first second) step step

section Alike

variable {frame : Frame} {owned : BlockAddress → Fin 64 → Prop}
  {first second grids others : Array Grid}

theorem Frame.Alike.modify (alike : frame.Alike owned first second grids others)
    {address : BlockAddress} (placed : address.Inside frame) {block other : Block}
    (agree : ∀ position, owned address position → block.get position = other.get position)
    (keep : ∀ position, ¬ owned address position →
      block.get position = (blockAt first address).get position ∧
        other.get position = (blockAt second address).get position) :
    frame.Alike owned first second
      (grids.modify address.component (·.setBlock address.row address.column block))
      (others.modify address.component (·.setBlock address.row address.column other)) where
  fits := alike.fits.modify _ _ _ _
  fitsToo := alike.fitsToo.modify _ _ _ _
  inside := by
    intro place position placeInside member
    rw [alike.fits.blockAt_modify placed placeInside,
      alike.fitsToo.blockAt_modify placed placeInside]
    by_cases same : place = address
    · rw [if_pos same, if_pos same]
      exact agree position (same ▸ member)
    · rw [if_neg same, if_neg same]
      exact alike.inside place position placeInside member
  outside := by
    intro place position placeInside notMember
    rw [alike.fits.blockAt_modify placed placeInside,
      alike.fitsToo.blockAt_modify placed placeInside]
    by_cases same : place = address
    · rw [if_pos same, if_pos same, same]
      exact keep position (same ▸ notMember)
    · rw [if_neg same, if_neg same]
      exact alike.outside place position placeInside notMember

end Alike

/-! ### Scans -/

namespace ScanDecoder

def placeOf (part : CodedComponent) (address : BlockAddress) : BlockAddress :=
  { address with component := part.index }

structure Alike (frame : Frame) (owned : BlockAddress → Fin 64 → Prop)
    (first second : Array Grid) (state other : ScanState) : Prop where
  reader : state.reader = other.reader
  predictors : state.predictors = other.predictors
  endOfBandRun : state.endOfBandRun = other.endOfBandRun
  grids : frame.Alike owned first second state.grids other.grids

variable {frame : Frame} {owned : BlockAddress → Fin 64 → Prop} {first second : Array Grid}
  {parts : Array CodedComponent}

theorem Alike.blockState {state other : ScanState}
    (alike : Alike frame owned first second state other) {part : CodedComponent}
    {address : BlockAddress} (placed : (placeOf part address).Inside frame) :
    BlockDecoder.Alike (owned (placeOf part address)) (blockAt first (placeOf part address))
      (blockAt second (placeOf part address)) (blockState state part address)
      (blockState other part address) where
  reader := alike.reader
  predictor := by
    unfold ScanDecoder.blockState
    rw [alike.predictors]
  endOfBandRun := alike.endOfBandRun
  inside position := alike.grids.inside (placeOf part address) position placed
  outside position := alike.grids.outside (placeOf part address) position placed

theorem Alike.store {state other : ScanState}
    (alike : Alike frame owned first second state other) {part : CodedComponent}
    {address : BlockAddress} (placed : (placeOf part address).Inside frame)
    {block otherBlock : BlockState}
    (blocksAlike : BlockDecoder.Alike (owned (placeOf part address))
      (blockAt first (placeOf part address)) (blockAt second (placeOf part address)) block
      otherBlock) :
    Alike frame owned first second (store state part address block)
      (store other part address otherBlock) where
  reader := blocksAlike.reader
  predictors := by
    unfold ScanDecoder.store
    rw [alike.predictors, blocksAlike.predictor]
  endOfBandRun := blocksAlike.endOfBandRun
  grids := alike.grids.modify placed blocksAlike.inside blocksAlike.outside

/-- The blocks at which a part of a scan stands, and the coefficients of them that it carries,
are owned. -/
def Owning (frame : Frame) (owned : BlockAddress → Fin 64 → Prop)
    (parts : Array CodedComponent) (address : BlockAddress) : Prop :=
  ∀ part, parts[address.component]? = some part → (placeOf part address).Inside frame ∧
    ∀ position, part.coding.Carries position → owned (placeOf part address) position

theorem alike_decodeBlock {address : BlockAddress} (owning : Owning frame owned parts address) :
    RunsAlike (fun _ => True) (Alike frame owned first second) (decodeBlock parts address)
      (decodeBlock parts address) := by
  intro state other alike
  unfold decodeBlock
  cases found : parts[address.component]? with
  | none => exact .ok () alike
  | some part =>
      obtain ⟨placed, carried⟩ := owning part found
      have ends := BlockCoding.runs_decode BlockDecoder.respected_alike carried _ _
        (alike.blockState placed)
      dsimp only
      generalize part.coding.decode (blockState state part address) = result at ends ⊢
      generalize part.coding.decode (blockState other part address) = otherResult at ends ⊢
      cases ends with
      | ok value blocksAlike => exact .ok () (alike.store placed blocksAlike)
      | error admitted blocksAlike => exact .error trivial (alike.store placed blocksAlike)

theorem alike_beginUnit (interval unit : Nat) :
    RunsAlike (fun _ => True) (Alike frame owned first second) (beginUnit interval unit)
      (beginUnit interval unit) := by
  intro state other alike
  unfold beginUnit
  rw [alike.reader]
  split
  · cases BitReader.takeRestart other.reader with
    | ok number reader =>
        exact .ok ()
          { reader := rfl
            predictors := by rw [alike.predictors]
            endOfBandRun := rfl
            grids := alike.grids }
    | error failure reader => exact .error trivial { alike with reader := rfl }
  · exact .ok () alike

theorem alike_decodeUnits {layout : ScanLayout} (interval : Nat)
    (owning : ∀ address ∈ layout.order, Owning frame owned parts address) :
    RunsAlike (fun _ => True) (Alike frame owned first second)
      (decodeUnits parts layout interval layout.units 0)
      (decodeUnits parts layout interval layout.units 0) :=
  runs_decodeUnits (alike_beginUnit interval)
    (fun address member => alike_decodeBlock (owning address member))
    (Nat.le_of_eq (Nat.zero_add _))

end ScanDecoder

namespace Scan

variable {frame : Frame} {scan : Scan} {slots : HuffmanSlots}

theorem holds_of_carries {kind : ScanKind} (isKind : scan.kind frame = .ok kind)
    {component : ScanComponent} {coding : BlockCoding}
    (built : scan.codingOf kind slots component = .ok coding) {position : Fin 64}
    (carried : coding.Carries position) : scan.band.Holds position := by
  have band := band_of_kind isKind
  have isFirst : scan.band.first = 0 ∧ scan.band.last = 0 → position = 0 →
      scan.band.Holds position := by
    rintro ⟨first, last⟩ rfl
    exact ⟨0, Nat.le_of_eq first, Nat.zero_le _, rfl⟩
  unfold codingOf at built
  -- The kind of a scan settles its band, so a decoder carries no position that the header leaves
  -- out.
  cases kind with
  | sequential =>
      change scan.band = ScanBand.whole at band
      rw [band]
      obtain ⟨frequency, here⟩ := List.mem_iff_getElem?.mp (mem_zigzag position)
      have inside := (List.getElem?_eq_some_iff.mp here).1
      rw [zigzag_length] at inside
      exact ⟨frequency, Nat.zero_le _, Nat.le_of_lt_succ inside, here⟩
  | dcFirst =>
      obtain ⟨dc, -, last⟩ := bind_eq_ok built
      cases last
      exact isFirst band carried
  | dcRefinement =>
      cases built
      exact isFirst band carried
  | acFirst =>
      obtain ⟨ac, -, last⟩ := bind_eq_ok built
      cases last
      exact mem_bandPositions.mp carried
  | acRefinement =>
      obtain ⟨ac, -, last⟩ := bind_eq_ok built
      cases last
      exact mem_bandPositions.mp carried

private theorem inImage_of_mem {parts : List CodedComponent} {address : BlockAddress}
    (member : address ∈ (ScanLayout.ofComponents frame (parts.map (·.component))).order)
    (alone : parts.length = 1) {part : CodedComponent}
    (there : parts[address.component]? = some part) :
    address.row < frame.imageBlocksTall part.component ∧
      address.column < frame.imageBlocksWide part.component := by
  obtain ⟨sole, rfl⟩ := List.length_eq_one_iff.mp alone
  obtain ⟨first, row, column⟩ := ScanLayout.mem_order_raster.mp member
  rw [first] at there
  cases there
  exact ⟨row, column⟩

section Coded

variable {parts : List CodedComponent}

theorem inFrame_of_coded
    (coded : scan.codedComponents frame slots frame.components.length = .ok parts)
    {part : CodedComponent} (listed : part ∈ parts) :
    frame.components[part.index]? = some part.component := by
  obtain ⟨kind, -, -, each⟩ := codedComponents_eq_ok coded
  obtain ⟨component, -, index, inside, same, -⟩ := each part listed
  rw [index, same, List.getElem?_eq_getElem inside]
  rfl

theorem admissible_of_coded
    (coded : scan.codedComponents frame slots frame.components.length = .ok parts) :
    ∀ component ∈ parts.map (·.component), component.Admissible := by
  intro component listed
  obtain ⟨part, isPart, rfl⟩ := List.mem_map.mp listed
  exact frame.admissible _ (List.mem_of_getElem? (inFrame_of_coded coded isPart))

theorem placed_of_coded
    (coded : scan.codedComponents frame slots frame.components.length = .ok parts)
    {address : BlockAddress}
    (member : address ∈ (ScanLayout.ofComponents frame (parts.map (·.component))).order) :
    ∃ part, parts[address.component]? = some part ∧
      frame.components[part.index]? = some part.component ∧
      (ScanDecoder.placeOf part address).Inside frame := by
  obtain ⟨component, place, row, column⟩ :=
    ScanLayout.mem_order_ofComponents (admissible_of_coded coded) member
  rw [List.getElem?_map] at place
  obtain ⟨part, there, rfl⟩ := Option.map_eq_some_iff.mp place
  have inFrame := inFrame_of_coded coded (List.mem_of_getElem? there)
  exact ⟨part, there, inFrame, part.component, inFrame, row, column⟩

theorem owning_of_coded
    (coded : scan.codedComponents frame slots frame.components.length = .ok parts)
    {address : BlockAddress}
    (member : address ∈ (ScanLayout.ofComponents frame (parts.map (·.component))).order) :
    ScanDecoder.Owning frame (scan.Owns frame) parts.toArray address := by
  obtain ⟨kind, isKind, length, each⟩ := codedComponents_eq_ok coded
  obtain ⟨owner, place, inFrame, placed⟩ := placed_of_coded coded member
  intro part there
  rw [List.getElem?_toArray, place] at there
  cases there
  obtain ⟨component, isComponent, index, -, -, built⟩ :=
    each owner (List.mem_of_getElem? place)
  refine ⟨placed, fun position carried => ?_⟩
  exact
    { named := ⟨component, isComponent, index.symm⟩
      inImage := fun alone => ⟨owner.component, inFrame,
        inImage_of_mem member (length.trans alone) place⟩
      inBand := holds_of_carries isKind built carried }

end Coded

theorem touches_decode (frame : Frame) (scan : Scan) (slots : HuffmanSlots) (interval : Nat)
    (bytes : List UInt8) :
    frame.Touches (scan.Owns frame) (scan.decode frame slots interval bytes) := by
  intro first second grids others alike
  unfold decode
  rw [alike.fits.size, alike.fitsToo.size]
  cases coded : scan.codedComponents frame slots frame.components.length with
  | error failure => exact .error trivial alike
  | ok parts =>
      dsimp only
      have ends := ScanDecoder.alike_decodeUnits interval
        (fun address member => owning_of_coded coded member)
        { reader := BitReader.ofBytes bytes
          predictors := Array.replicate parts.length 0
          endOfBandRun := 0
          grids := grids }
        { reader := BitReader.ofBytes bytes
          predictors := Array.replicate parts.length 0
          endOfBandRun := 0
          grids := others }
        { reader := rfl
          predictors := rfl
          endOfBandRun := rfl
          grids := alike }
      generalize ScanDecoder.decodeUnits parts.toArray _ interval _ 0 _ = result at ends ⊢
      generalize ScanDecoder.decodeUnits parts.toArray _ interval _ 0 _ = otherResult at ends ⊢
      cases ends with
      | ok value same => exact .ok () same.grids
      | error admitted same => exact .error trivial same.grids

end Scan

/-! ### Steps that touch different coefficients -/

section Touches

variable {frame : Frame} {owned otherOwned : BlockAddress → Fin 64 → Prop}
  {step other : EStateM CodecError (Array Grid) Unit} {grids others after : Array Grid}

def Frame.SameOn (frame : Frame) (holds : BlockAddress → Fin 64 → Prop)
    (grids others : Array Grid) : Prop :=
  ∀ address position, address.Inside frame → holds address position →
    (blockAt grids address).get position = (blockAt others address).get position

theorem Frame.Touches.keeps (touches : frame.Touches owned step) (fits : frame.Fits grids) :
    frame.Fits (stateAfter (step grids)) ∧
      frame.SameOn (fun address position => ¬ owned address position)
        (stateAfter (step grids)) grids := by
  have alike : frame.Alike owned grids grids grids grids :=
    { fits := fits
      fitsToo := fits
      inside := fun _ _ _ _ => rfl
      outside := fun _ _ _ _ => ⟨rfl, rfl⟩ }
  have ended := (touches grids grids grids grids alike).stateAfter
  exact ⟨ended.fits, fun address position inside notOwned =>
    (ended.outside address position inside notOwned).1⟩

theorem Frame.Touches.keeps_grid (touches : frame.Touches owned step) (fits : frame.Fits grids)
    {index : Nat} (spared : ∀ address position, owned address position →
      address.component ≠ index) : (stateAfter (step grids))[index]? = grids[index]? := by
  obtain ⟨fitsAfter, keeps⟩ := touches.keeps fits
  apply fitsAfter.getElem?_eq fits
  intro address here inside
  apply ext_get
  intro position
  exact keeps address position inside fun owns => spared address position owns here

theorem Frame.Touches.follows (touches : frame.Touches owned step) (fits : frame.Fits grids)
    (fitsToo : frame.Fits others) (same : frame.SameOn owned grids others) :
    EndsAlike (fun _ => True) (frame.SameOn owned) (step grids) (step others) := by
  have alike : frame.Alike owned grids others grids others :=
    { fits := fits
      fitsToo := fitsToo
      inside := same
      outside := fun _ _ _ _ => ⟨rfl, rfl⟩ }
  exact (touches grids others grids others alike).imp fun _ _ ended => ended.inside

theorem Frame.Touches.follows_ok (touches : frame.Touches owned step) (fits : frame.Fits grids)
    (fitsToo : frame.Fits others) (same : frame.SameOn owned grids others)
    (done : step grids = .ok () after) :
    ∃ otherAfter, step others = .ok () otherAfter ∧ frame.SameOn owned after otherAfter := by
  have ends := touches.follows fits fitsToo same
  rw [done] at ends
  generalize step others = result at ends
  cases ends with
  | ok value sameAfter => exact ⟨_, rfl, sameAfter⟩

theorem Frame.Touches.keeps_ok (touches : frame.Touches owned step) (fits : frame.Fits grids)
    (done : step grids = .ok () after) :
    frame.Fits after ∧
      frame.SameOn (fun address position => ¬ owned address position) after grids := by
  have kept := touches.keeps fits
  rw [done] at kept
  exact kept

theorem Frame.SameOn.symm {holds : BlockAddress → Fin 64 → Prop}
    (same : frame.SameOn holds grids others) : frame.SameOn holds others grids :=
  fun address position inside member => (same address position inside member).symm

theorem Frame.SameOn.mono {holds : BlockAddress → Fin 64 → Prop}
    (same : frame.SameOn holds grids others)
    (fewer : ∀ address position, otherOwned address position → holds address position) :
    frame.SameOn otherOwned grids others :=
  fun address position inside member => same address position inside (fewer address position member)

/-- Two steps that touch different coefficients can be taken in either order. -/
theorem Frame.Touches.swap (touches : frame.Touches owned step)
    (otherTouches : frame.Touches otherOwned other)
    (apart : ∀ address position, owned address position → ¬ otherOwned address position)
    (fits : frame.Fits grids) (done : (step >>= fun _ => other) grids = .ok () after) :
    (other >>= fun _ => step) grids = .ok () after := by
  have apartToo : ∀ address position, otherOwned address position → ¬ owned address position :=
    fun address position theirs mine => apart address position mine theirs
  obtain ⟨_, between, first, second⟩ := run_bind_eq_ok done
  obtain ⟨fitsBetween, firstKeeps⟩ := touches.keeps_ok fits first
  obtain ⟨fitsAfter, secondKeeps⟩ := otherTouches.keeps_ok fitsBetween second
  -- The other step finds its own coefficients as they are behind the first.
  obtain ⟨otherBetween, otherFirst, theirs⟩ :=
    otherTouches.follows_ok fitsBetween fits (firstKeeps.mono apartToo) second
  obtain ⟨fitsOther, otherKeeps⟩ := otherTouches.keeps_ok fits otherFirst
  obtain ⟨final, otherSecond, mine⟩ :=
    touches.follows_ok fits fitsOther (otherKeeps.mono apart).symm first
  obtain ⟨fitsFinal, finalKeeps⟩ := touches.keeps_ok fitsOther otherSecond
  rw [run_bind_of_ok otherFirst, otherSecond]
  congr 1
  apply fitsFinal.ext fitsAfter
  intro address inside
  apply ext_get
  intro position
  by_cases isMine : owned address position
  · rw [← mine address position inside isMine,
      secondKeeps address position inside (apart address position isMine)]
  · rw [finalKeeps address position inside isMine]
    by_cases isTheirs : otherOwned address position
    · exact (theirs address position inside isTheirs).symm
    · rw [otherKeeps address position inside isTheirs,
        secondKeeps address position inside isTheirs, firstKeeps address position inside isMine]

end Touches

/-- A scan changes what it owns alone and depends on nothing else, whether it succeeds or fails.
Two scans that are apart come to the same grids in either order. -/
theorem Scan.decode_footprint {frame : Frame} {grids : Array Grid} (fits : frame.Fits grids)
    (scan : Scan) (slots : HuffmanSlots) (interval : Nat) (bytes : List UInt8) :
    (frame.Fits (stateAfter (scan.decode frame slots interval bytes grids)) ∧
      (∀ index, (∀ component ∈ scan.components, component.index ≠ index) →
        (stateAfter (scan.decode frame slots interval bytes grids))[index]? = grids[index]?) ∧
      frame.SameOn (fun address position => ¬ scan.Owns frame address position)
        (stateAfter (scan.decode frame slots interval bytes grids)) grids) ∧
    (∀ others, frame.Fits others → frame.SameOn (scan.Owns frame) grids others →
      EndsAlike (fun _ => True) (frame.SameOn (scan.Owns frame))
        (scan.decode frame slots interval bytes grids)
        (scan.decode frame slots interval bytes others)) ∧
    ∀ (other : Scan) (otherSlots : HuffmanSlots) (otherInterval : Nat) (otherBytes : List UInt8),
      scan.Apart other →
        (∀ after,
          (do
            scan.decode frame slots interval bytes
            other.decode frame otherSlots otherInterval otherBytes) grids = .ok () after ↔
          (do
            other.decode frame otherSlots otherInterval otherBytes
            scan.decode frame slots interval bytes) grids = .ok () after) ∧
        ∀ between otherBetween,
          scan.decode frame slots interval bytes grids = .ok () between →
          other.decode frame otherSlots otherInterval otherBytes grids = .ok () otherBetween →
          ∃ after,
            (do
              scan.decode frame slots interval bytes
              other.decode frame otherSlots otherInterval otherBytes) grids = .ok () after ∧
            (do
              other.decode frame otherSlots otherInterval otherBytes
              scan.decode frame slots interval bytes) grids = .ok () after := by
  have touches := touches_decode frame scan slots interval bytes
  obtain ⟨fitsAfter, keeps⟩ := touches.keeps fits
  refine ⟨⟨fitsAfter, ?_, keeps⟩, ?_, ?_⟩
  · intro index notNamed
    refine touches.keeps_grid fits fun address position owns here => ?_
    obtain ⟨component, member, same⟩ := owns.named
    exact notNamed component member (same.trans here)
  · intro others fitsToo same
    exact touches.follows fits fitsToo same
  · -- Each scan keeps what the other one owns, so each runs behind the other as it does alone.
    intro other otherSlots otherInterval otherBytes apart
    have otherTouches := touches_decode frame other otherSlots otherInterval otherBytes
    have apartHere : ∀ address position, scan.Owns frame address position →
        ¬ other.Owns frame address position :=
      fun _ _ mine => apart.not_owns mine
    have apartToo : ∀ address position, other.Owns frame address position →
        ¬ scan.Owns frame address position :=
      fun _ _ theirs mine => apart.not_owns mine theirs
    refine ⟨fun after => ⟨touches.swap otherTouches apartHere fits,
      otherTouches.swap touches apartToo fits⟩, ?_⟩
    intro between otherBetween first otherFirst
    obtain ⟨fitsBetween, kept⟩ := touches.keeps_ok fits first
    obtain ⟨after, second, -⟩ :=
      otherTouches.follows_ok fits fitsBetween (kept.mono apartToo).symm otherFirst
    have done : (do
        scan.decode frame slots interval bytes
        other.decode frame otherSlots otherInterval otherBytes) grids = .ok () after :=
      (run_bind_of_ok first).trans second
    exact ⟨after, done, touches.swap otherTouches apartHere fits done⟩

/-- Four blocks, of which the second row and the second column are cut by the edge. -/
private def quarters : Frame :=
  { width := 13
    height := 11
    components := [{ id := 4, across := 1, down := 1, quantizer := 0 }]
    progressive := true
    width_ne_zero := by decide
    height_ne_zero := by decide
    components_ne_nil := by decide
    components_length := by decide
    admissible := by decide }

private def quarterSlots : HuffmanSlots :=
  (HuffmanSlots.empty.install
    { tableClass := 0
      id := 0
      counts := #v[0, 0, 0, 0, 0, 0, 0, 4, 0, 0, 0, 0, 0, 0, 0, 0]
      symbols := [0, 1, 2, 3] }).install
    { tableClass := 1
      id := 0
      counts := #v[0, 0, 0, 0, 0, 0, 0, 3, 0, 0, 0, 0, 0, 0, 0, 0]
      symbols := [0, 0x01, 0x11] }

private def quarterScan (first last : Nat) : Scan :=
  { components := [{ index := 0, dcTable := 0, acTable := 0 }]
    band := { first := first, last := last, high := 0, low := 0 } }

private def quarterDc : List UInt8 :=
  [0x01, 0x80, 0x00, 0x80, 0xBF, 0xFF, 0xD9]

private def quarterAc : List UInt8 :=
  [0x01, 0x80, 0x00, 0x01, 0x00, 0x00, 0x3F, 0xFF, 0xD9]

private def quarterGrid : Grid :=
  { blocksWide := 2
    blocksTall := 2
    blocks :=
      #[(Block.zero.setIfInBounds 0 1).setIfInBounds 1 1, Block.zero.setIfInBounds 0 1,
        Block.zero.setIfInBounds 8 (-1), Block.zero.setIfInBounds 0 3]
    blocks_size := rfl }

theorem Scan.decode_footprint_quarters :
    (do
      (quarterScan 1 5).decode quarters quarterSlots 0 quarterAc
      (quarterScan 0 0).decode quarters quarterSlots 0 quarterDc) quarters.zeroGrids =
        .ok () #[quarterGrid] ∧
      EndsAlike (fun _ => True) (quarters.SameOn ((quarterScan 0 0).Owns quarters))
        ((quarterScan 0 0).decode quarters quarterSlots 0 quarterDc quarters.zeroGrids)
        ((quarterScan 0 0).decode quarters quarterSlots 0 quarterDc
          (stateAfter ((quarterScan 1 5).decode quarters quarterSlots 0 quarterAc
            quarters.zeroGrids))) := by
  have apart : (quarterScan 0 0).Apart (quarterScan 1 5) := by
    apply Or.inr
    intro frequency _ last first
    change frequency ≤ 0 at last
    change 1 ≤ frequency at first
    omega
  obtain ⟨-, follows, swaps⟩ := Scan.decode_footprint quarters.fits_zeroGrids (quarterScan 0 0)
    quarterSlots 0 quarterDc
  obtain ⟨⟨fits, -, keeps⟩, -, -⟩ := Scan.decode_footprint quarters.fits_zeroGrids
    (quarterScan 1 5) quarterSlots 0 quarterAc
  constructor
  · apply ((swaps _ _ _ _ apart).1 _).mp
    decide +kernel
  · apply follows _ fits
    intro address position inside owns
    exact (keeps address position inside (apart.not_owns owns)).symm

end LosslessJpeg
