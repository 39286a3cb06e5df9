import LosslessJpeg.Proofs.Block.Sampling
import LosslessJpeg.Proofs.Checked.ScanTables
import LosslessJpeg.Proofs.Scan.CodedComponents

set_option autoImplicit false

/-!
Decoding a scan into grids whose coefficients lie block after block. The blocks that a scan
codes lie inside of the grids, since a grid is filled up to whole MCUs.
-/

namespace LosslessJpeg

namespace Checked

structure BufferedScan where
  reader : BufferedReader
  predictors : List Int
  endOfBandRun : Nat
  units : Nat
  grids : List Grid

abbrev ScanChecker := CheckedState CodecError BufferedScan

/-- The coefficients of a block are a slice of those of its grid. -/
def coefficientBounds {ε : Type} (grid : Grid) (row column : Nat) : Checked ε Unit := do
  fits 64 (row * grid.blocksWide)
  fits 64 (row * grid.blocksWide + column)
  fits 64 ((row * grid.blocksWide + column) * 64)
  fits 64 ((row * grid.blocksWide + column) * 64 + 64)
  bounds (grid.blocks.size * 64) ((row * grid.blocksWide + column) * 64)
    ((row * grid.blocksWide + column) * 64 + 64)

def sampledExtent (samples factor greatest : Nat) : Checked CodecError Nat := do
  fits 64 (samples * factor)
  divides greatest
  pure (sampledBlocks samples factor greatest)

/-- The blocks of a scan in their order. The extent of a scan of one component is that of the
samples of the image. -/
def layoutOf (frame : Frame) (components : List ScanComponent) :
    Checked CodecError ScanLayout := do
  let coded ← components.mapM fun named => item frame.components named.index
  match coded with
  | [component] => do
      let tall ← sampledExtent frame.height.toNat component.down frame.maxDown
      let wide ← sampledExtent frame.width.toNat component.across frame.maxAcross
      pure (ScanLayout.raster wide tall)
  | _ => pure (ScanLayout.interleaved frame coded)

namespace BufferedScan

variable (file : List UInt8)

def restart : ScanChecker Unit := do
  let state ← get
  let (_, reader) ← lift (BufferedReader.takeRestart file state.reader)
  set
    { state with
      reader := reader
      predictors := state.predictors.map fun _ => 0
      endOfBandRun := 0 }

def countUnit : ScanChecker Unit := do
  let state ← get
  lift (fits 64 (state.units + 1))
  set { state with units := state.units + 1 }

def beginUnit (interval : Nat) : ScanChecker Unit := do
  let state ← get
  if 0 < interval ∧ 0 < state.units then do
    lift (divides interval)
    if state.units % interval = 0 then
      restart file
    else
      pure ()
  else
    pure ()
  countUnit

def decodeAddress (frame : Frame) (tables : ScanTables) (components : List ScanComponent)
    (address : BlockAddress) : ScanChecker Unit := do
  let named ← lift (item components address.component)
  let _ ← lift (item frame.components named.index)
  lift (fits 64 address.row)
  lift (fits 64 address.column)
  let state ← get
  let grid ← lift (item state.grids named.index)
  lift (coefficientBounds grid address.row address.column)
  let predictor ← lift (item state.predictors address.component)
  let (_, after) ← lift (decodeBlock file tables named
    { reader := state.reader
      predictor := predictor
      endOfBandRun := state.endOfBandRun
      block := grid.block address.row address.column })
  set
    { state with
      reader := after.reader
      predictors := state.predictors.set address.component after.predictor
      endOfBandRun := after.endOfBandRun
      grids := state.grids.set named.index
        (grid.setBlock address.row address.column after.block) }

def decodeAddresses (frame : Frame) (tables : ScanTables) (components : List ScanComponent) :
    List BlockAddress → ScanChecker Unit
  | [] => pure ()
  | address :: rest => do
      decodeAddress file frame tables components address
      decodeAddresses frame tables components rest

def decodeUnits (frame : Frame) (tables : ScanTables) (components : List ScanComponent)
    (layout : ScanLayout) (interval : Nat) : Nat → Nat → ScanChecker Unit
  | 0, _ => pure ()
  | remaining + 1, unit => do
      beginUnit file interval
      decodeAddresses file frame tables components (layout.blocks unit)
      decodeUnits frame tables components layout interval remaining (unit + 1)

end BufferedScan

def decodeScan (file : List UInt8) (frame : Frame) (scan : Scan) (slots : HuffmanSlots)
    (interval start : Nat) : CheckedState CodecError (List Grid) Unit := fun grids => do
  let kind ← of (scan.kind frame)
  let tables ← enterComponents slots grids.length scan.components
    (ScanTables.blank kind scan.band)
  let layout ← layoutOf frame scan.components
  let (_, after) ← BufferedScan.decodeUnits file frame tables scan.components layout interval
    layout.units 0
    { reader := BufferedReader.ofPosition start
      predictors := List.replicate scan.components.length 0
      endOfBandRun := 0
      units := 0
      grids := grids }
  pure ((), after.grids)

theorem coefficientBounds_of_lt {ε : Type} {grid : Grid} {row column : Nat}
    (rowInside : row < grid.blocksTall) (columnInside : column < grid.blocksWide)
    (wide : grid.blocksWide ≤ 8195) (tall : grid.blocksTall ≤ 8195) :
    (coefficientBounds grid row column : Checked ε Unit) = .ok () := by
  have place : row * grid.blocksWide + column < grid.blocks.size :=
    Grid.index_lt rowInside columnInside
  have size : grid.blocks.size ≤ 8195 * 8195 := by
    rw [grid.blocks_size]
    exact Nat.mul_le_mul tall wide
  rw [coefficientBounds, bind_of_ok (fits_of_lt (by omega)), bind_of_ok (fits_of_lt (by omega)),
    bind_of_ok (fits_of_lt (by omega)), bind_of_ok (fits_of_lt (by omega))]
  exact bounds_of_le (by omega) (by omega)

private theorem sampledExtent_eq {samples factor greatest : Nat} (small : samples < 65536)
    (few : factor ≤ 4) (positive : 0 < greatest) :
    sampledExtent samples factor greatest = .ok (sampledBlocks samples factor greatest) := by
  have product := Nat.mul_le_mul (Nat.le_of_lt small) few
  rw [sampledExtent, bind_of_ok (fits_of_lt (by omega)),
    bind_of_ok (divides_of_ne (Nat.ne_of_gt positive))]
  rfl

section Layout

variable {frame : Frame} {tables : ScanTables} {components : List ScanComponent}
  {parts : List CodedComponent}

private theorem ScanTables.Codes.getElem? {named : ScanComponent} {part : CodedComponent}
    (codes : tables.Codes frame frame.components.length named part) :
    frame.components[named.index]? = some part.component := by
  rw [codes.component, List.getElem?_eq_getElem codes.inside, Option.getD_some]

private theorem items_of_codes
    (codes : List.Forall₂ (tables.Codes frame frame.components.length) components parts) :
    (components.mapM fun named => item frame.components named.index : Checked CodecError _) =
      .ok (parts.map (·.component)) := by
  induction codes with
  | nil => rfl
  | cons first rest inductionHypothesis =>
      rw [List.mapM_cons, bind_of_ok (item_of_getElem? first.getElem?),
        bind_of_ok inductionHypothesis]
      rfl

private theorem mem_of_codes
    (codes : List.Forall₂ (tables.Codes frame frame.components.length) components parts) :
    ∀ component ∈ parts.map (·.component), component ∈ frame.components := by
  induction codes with
  | nil =>
      intro component member
      cases member
  | cons first rest inductionHypothesis =>
      intro component member
      rcases List.mem_cons.mp member with same | later
      · rw [same]
        exact List.mem_of_getElem? first.getElem?
      · exact inductionHypothesis component later

private theorem exists_codes {place : Nat} {part : CodedComponent}
    (codes : List.Forall₂ (tables.Codes frame frame.components.length) components parts)
    (there : parts[place]? = some part) :
    ∃ named, components[place]? = some named ∧
      tables.Codes frame frame.components.length named part := by
  induction codes generalizing place with
  | nil => cases there
  | cons first rest inductionHypothesis =>
      cases place with
      | zero =>
          cases there
          exact ⟨_, rfl, first⟩
      | succ place => exact inductionHypothesis there

theorem layoutOf_eq
    (codes : List.Forall₂ (tables.Codes frame frame.components.length) components parts) :
    layoutOf frame components =
      .ok (ScanLayout.ofComponents frame (parts.map (·.component))) := by
  have inFrame := mem_of_codes codes
  rw [layoutOf, bind_of_ok (items_of_codes codes)]
  generalize parts.map (·.component) = coded at inFrame
  match coded, inFrame with
  | [], _ => rfl
  | [component], inFrame =>
      have admissible := frame.admissible component (inFrame component (List.mem_singleton.mpr rfl))
      dsimp only
      rw [bind_of_ok (sampledExtent_eq frame.height.toNat_lt admissible.2.2.2.1
          frame.maxDown_pos),
        bind_of_ok (sampledExtent_eq frame.width.toNat_lt admissible.2.1 frame.maxAcross_pos)]
      rfl
  | _ :: _ :: _, _ => rfl

private theorem ceilDiv_le (count : Nat) {size : Nat} (positive : 0 < size) :
    ceilDiv count size ≤ count := by
  unfold ceilDiv
  rw [Nat.div_le_iff_le_mul_add_pred positive]
  have more := Nat.le_mul_of_pos_left count positive
  omega

private theorem units_lt {coded : List Component}
    (inFrame : ∀ component ∈ coded, component ∈ frame.components) :
    (ScanLayout.ofComponents frame coded).units < 2 ^ 33 := by
  have interleaved : (ScanLayout.interleaved frame coded).units < 2 ^ 33 := by
    have width := frame.width.toNat_lt
    have height := frame.height.toNat_lt
    have wide : frame.mcusWide ≤ frame.width.toNat := ceilDiv_le _ frame.mcuWidth_pos
    have tall : frame.mcusTall ≤ frame.height.toNat := ceilDiv_le _ frame.mcuHeight_pos
    have product : frame.mcusTall * frame.mcusWide ≤ 65536 * 65536 :=
      Nat.mul_le_mul (by omega) (by omega)
    exact Nat.lt_of_le_of_lt product (by decide)
  match coded, inFrame, interleaved with
  | [component], inFrame, _ =>
      have member := inFrame component (List.mem_singleton.mpr rfl)
      have tall := Nat.le_trans (frame.imageBlocksTall_le component) (frame.blocksTall_le member)
      have wide := Nat.le_trans (frame.imageBlocksWide_le component) (frame.blocksWide_le member)
      exact Nat.lt_of_le_of_lt (Nat.mul_le_mul tall wide) (by decide)
  | [], _, interleaved => exact interleaved
  | _ :: _ :: _, _, interleaved => exact interleaved

end Layout

namespace BufferedScan

/-! ### The same blocks -/

/-- A scan with its buffer, of which so many units have been begun, stands for one with its
reader. -/
structure Represents (file : List UInt8) (frame : Frame) (parts : List CodedComponent)
    (begun : Nat) (state : BufferedScan) (other : ScanState) : Prop where
  reader : state.reader.Represents file other.reader
  predictors : other.predictors.toList = state.predictors
  components : state.predictors.length = parts.length
  run : other.endOfBandRun = state.endOfBandRun
  units : state.units = begun
  grids : other.grids.toList = state.grids
  fits : frame.Fits other.grids

variable {file : List UInt8} {frame : Frame} {tables : ScanTables}
  {components : List ScanComponent} {parts : List CodedComponent} {begun : Nat}
  {state : BufferedScan} {other : ScanState}

private theorem Represents.countUnit (represents : Represents file frame parts begun state other)
    (few : begun < 2 ^ 33) :
    FollowsState Eq (Represents file frame parts (begun + 1)) (countUnit state)
      (.ok () other : EStateM.Result CodecError _ _) := by
  have units := represents.units
  rw [BufferedScan.countUnit, run_get, run_lift (fits_of_lt (by omega))]
  exact .ok rfl { represents with units := congrArg (· + 1) units }

private theorem Represents.restart (represents : Represents file frame parts begun state other)
    (addressable : file.length < 2 ^ 63) :
    FollowsState Eq (Represents file frame parts begun) (restart file state)
      (match BitReader.takeRestart other.reader with
      | .ok _ reader =>
          .ok ()
            { other with
              reader := reader
              predictors := other.predictors.map fun _ => 0
              endOfBandRun := 0 }
      | .error failure reader => .error failure { other with reader := reader }) := by
  have taken := represents.reader.takeRestart addressable
  rw [BufferedScan.restart, run_get]
  generalize BitReader.takeRestart other.reader = result at taken
  generalize BufferedReader.takeRestart file state.reader = taking at taken
  cases taken with
  | ok same related =>
      refine .ok rfl
        { represents with
          reader := related
          predictors := ?_
          components := ?_
          run := rfl }
      · dsimp only
        rw [Array.toList_map, represents.predictors]
      · dsimp only
        rw [List.length_map, represents.components]
  | failure cause after => exact .failure cause _

private theorem Represents.beginUnit (represents : Represents file frame parts begun state other)
    (addressable : file.length < 2 ^ 63) (few : begun < 2 ^ 33) (interval : Nat) :
    FollowsState Eq (Represents file frame parts (begun + 1)) (beginUnit file interval state)
      (ScanDecoder.beginUnit interval begun other) := by
  unfold BufferedScan.beginUnit ScanDecoder.beginUnit
  rw [run_get, represents.units]
  by_cases between : 0 < interval ∧ 0 < begun
  · rw [if_pos between, run_lift (divides_of_ne (Nat.ne_of_gt between.1))]
    by_cases due : begun % interval = 0
    · rw [if_pos due, if_pos ⟨between.1, between.2, due⟩]
      refine (represents.restart addressable).alone ?_
      rintro _ _ after otherAfter - representsAfter
      exact representsAfter.countUnit few
    · rw [if_neg due, if_neg fun all => due all.2.2]
      exact represents.countUnit few
  · rw [if_neg between, if_neg fun all => between ⟨all.1, all.2.1⟩]
    exact represents.countUnit few

/-- The block at an address, with what a scan of its component carries from block to block. -/
private theorem Represents.block (represents : Represents file frame parts begun state other)
    {part : CodedComponent} {address : BlockAddress} {grid : Grid}
    (there : state.grids[part.index]? = some grid)
    (placed : address.component < state.predictors.length) :
    BufferedBlock.Represents file state.endOfBandRun
      { reader := state.reader
        predictor := state.predictors[address.component]
        endOfBandRun := state.endOfBandRun
        block := grid.block address.row address.column }
      (ScanDecoder.blockState other part address) := by
  have predicted : other.predictors[address.component]? =
      some state.predictors[address.component] := by
    rw [← Array.getElem?_toList, represents.predictors, List.getElem?_eq_getElem placed]
  have listed : other.grids[part.index]? = some grid := by
    rw [← Array.getElem?_toList, represents.grids, there]
  refine
    { reader := represents.reader
      predictor := ?_
      run := rfl
      otherRun := represents.run
      block := ?_ }
  · rw [ScanDecoder.blockState, Array.getD_eq_getD_getElem?, predicted, Option.getD_some]
  · rw [ScanDecoder.blockState, listed, Option.map_some, Option.getD_some]

private theorem Represents.store (represents : Represents file frame parts begun state other)
    {part : CodedComponent} (address : BlockAddress) {grid : Grid}
    (there : state.grids[part.index]? = some grid) {after : BufferedBlock}
    {otherAfter : BlockState} (related : BufferedBlock.Covers file after otherAfter) :
    Represents file frame parts begun
      { state with
        reader := after.reader
        predictors := state.predictors.set address.component after.predictor
        endOfBandRun := after.endOfBandRun
        grids := state.grids.set part.index
          (grid.setBlock address.row address.column after.block) }
      (ScanDecoder.store other part address otherAfter) := by
  obtain ⟨covered, related⟩ := related
  refine
    { reader := related.reader
      predictors := ?_
      components := ?_
      run := related.otherRun.trans related.run.symm
      units := represents.units
      grids := ?_
      fits := represents.fits.modify _ _ _ _ }
  · rw [ScanDecoder.store, Array.toList_setIfInBounds, represents.predictors, related.predictor]
  · rw [List.length_set, represents.components]
  · rw [ScanDecoder.store, Array.toList_modify, represents.grids, List.modify_eq_set_getElem?,
      there, related.block]
    rfl

private theorem Represents.decodeAddress
    (represents : Represents file frame parts begun state other)
    (addressable : file.length < 2 ^ 63) (inside : tables.band.last ≤ 63)
    (few : tables.band.low ≤ 13)
    (codes : List.Forall₂ (tables.Codes frame frame.components.length) components parts)
    {address : BlockAddress} {component : Component}
    (there : (parts.map (·.component))[address.component]? = some component)
    (rowInside : address.row < frame.blocksTall component)
    (columnInside : address.column < frame.blocksWide component) :
    FollowsState Eq (Represents file frame parts begun)
      (decodeAddress file frame tables components address state)
      (ScanDecoder.decodeBlock parts.toArray address other) := by
  rw [List.getElem?_map] at there
  obtain ⟨part, partThere, rfl⟩ := Option.map_eq_some_iff.mp there
  obtain ⟨named, namedThere, coded⟩ := exists_codes codes partThere
  have componentThere := coded.getElem?
  have member := List.mem_of_getElem? componentThere
  have tall := frame.blocksTall_le member
  have wide := frame.blocksWide_le member
  obtain ⟨grid, gridThere, gridWide, gridTall⟩ := represents.fits.exists_grid componentThere
  have listed : state.grids[named.index]? = some grid := by
    rw [← represents.grids, Array.getElem?_toList, gridThere]
  have placed : address.component < state.predictors.length := by
    rw [represents.components]
    exact (List.getElem?_eq_some_iff.mp partThere).1
  rw [BufferedScan.decodeAddress, run_lift (item_of_getElem? namedThere),
    run_lift (item_of_getElem? componentThere), run_lift (fits_of_lt (by omega)),
    run_lift (fits_of_lt (by omega)), run_get, run_lift (item_of_getElem? listed),
    run_lift (coefficientBounds_of_lt (by omega) (by omega) (by omega) (by omega)),
    run_lift (item_of_lt placed)]
  have block := decodeBlock_follows addressable inside few coded.serves
    (represents.block (coded.index ▸ listed) placed)
  have listedPart : parts.toArray[address.component]? = some part := by
    rw [List.getElem?_toArray, partThere]
  unfold ScanDecoder.decodeBlock
  rw [listedPart]
  dsimp only
  generalize decodeBlock file tables named _ = decoding at block
  generalize part.coding.decode _ = result at block
  cases block with
  | failure cause after => exact .failure cause _
  | ok same related =>
      have stored := represents.store address (coded.index ▸ listed) related
      rw [coded.index] at stored
      exact .ok rfl stored

private theorem Represents.decodeAddresses
    (represents : Represents file frame parts begun state other)
    (addressable : file.length < 2 ^ 63) (inside : tables.band.last ≤ 63)
    (few : tables.band.low ≤ 13)
    (codes : List.Forall₂ (tables.Codes frame frame.components.length) components parts)
    {addresses : List BlockAddress}
    (placed : ∀ address ∈ addresses, ∃ component,
      (parts.map (·.component))[address.component]? = some component ∧
        address.row < frame.blocksTall component ∧ address.column < frame.blocksWide component) :
    FollowsState Eq (Represents file frame parts begun)
      (decodeAddresses file frame tables components addresses state)
      (ScanDecoder.decodeBlocks parts.toArray addresses other) := by
  induction addresses generalizing state other with
  | nil => exact .ok rfl represents
  | cons address rest inductionHypothesis =>
      obtain ⟨component, there, rowInside, columnInside⟩ := placed address List.mem_cons_self
      rw [ScanDecoder.decodeBlocks_cons, BufferedScan.decodeAddresses]
      refine (represents.decodeAddress addressable inside few codes there rowInside
        columnInside).bind ?_
      rintro - - after otherAfter - representsAfter
      exact inductionHypothesis representsAfter fun other member =>
        placed other (List.mem_cons_of_mem address member)

private theorem Represents.decodeUnits
    (represents : Represents file frame parts begun state other)
    (addressable : file.length < 2 ^ 63) (inside : tables.band.last ≤ 63)
    (few : tables.band.low ≤ 13)
    (codes : List.Forall₂ (tables.Codes frame frame.components.length) components parts)
    {layout : ScanLayout} (same : layout = .ofComponents frame (parts.map (·.component)))
    (interval : Nat) {remaining : Nat} (total : begun + remaining = layout.units) :
    FollowsState Eq (Represents file frame parts layout.units)
      (decodeUnits file frame tables components layout interval remaining begun state)
      (ScanDecoder.decodeUnits parts.toArray layout interval remaining begun other) := by
  have inFrame := mem_of_codes codes
  have units : layout.units < 2 ^ 33 := by
    rw [same]
    exact units_lt inFrame
  -- The number of units begun grows with each step and never exceeds that of the layout.
  induction remaining generalizing begun state other with
  | zero =>
      rw [← total]
      exact .ok rfl represents
  | succ remaining inductionHypothesis =>
      rw [BufferedScan.decodeUnits, ScanDecoder.decodeUnits, ScanDecoder.decodeUnit, bind_assoc]
      refine (represents.beginUnit addressable (by omega) interval).bind ?_
      rintro - - started otherStarted - representsStarted
      have placed : ∀ address ∈ layout.blocks begun, ∃ component,
          (parts.map (·.component))[address.component]? = some component ∧
            address.row < frame.blocksTall component ∧
            address.column < frame.blocksWide component := by
        intro address member
        apply ScanLayout.mem_order_ofComponents fun component listed =>
          frame.admissible component (inFrame component listed)
        rw [← same]
        exact List.mem_flatMap.mpr ⟨begun, List.mem_range.mpr (by omega), member⟩
      refine (representsStarted.decodeAddresses addressable inside few codes placed).bind ?_
      rintro - - after otherAfter - representsAfter
      exact inductionHypothesis representsAfter (by omega)

end BufferedScan

/-- Decoding a scan with all its tables and blocks looked up comes to no fault, and decodes what
the scan codes. -/
theorem decodeScan_follows {file : List UInt8} (addressable : file.length < 2 ^ 63)
    {frame : Frame} {scan : Scan} (inside : scan.band.last ≤ 63) (few : scan.band.low ≤ 13)
    (slots : HuffmanSlots) (interval : Nat) {start : Nat} (within : start ≤ file.length)
    {grids : Array Grid} (fits : frame.Fits grids) :
    FollowsState Eq (fun after other => other.toList = after ∧ frame.Fits other)
      (decodeScan file frame scan slots interval start grids.toList)
      (scan.decode frame slots interval (file.drop start) grids) := by
  unfold decodeScan Scan.decode Scan.codedComponents
  cases kindOf : scan.kind frame with
  | error cause => exact .failure cause grids
  | ok kind =>
      have entered : Follows (fun after parts => (ScanTables.blank kind scan.band).Grows after ∧
          List.Forall₂ (after.Codes frame frame.components.length) scan.components parts)
          (enterComponents slots grids.toList.length scan.components
            (ScanTables.blank kind scan.band))
          (scan.components.mapM (scan.codedComponent frame kind slots grids.size)) := by
        rw [Array.length_toList, fits.size]
        refine enterComponents_follows (ScanTables.prepared_blank slots kind scan.band) ?_
        rintro rfl
        exact Scan.band_of_kind kindOf
      have resolves : (Except.ok kind >>= fun kind => scan.components.mapM
          (scan.codedComponent frame kind slots grids.size)) =
          scan.components.mapM (scan.codedComponent frame kind slots grids.size) := rfl
      rw [resolves, bind_of_ok (of_ok kind)]
      generalize scan.components.mapM
        (scan.codedComponent frame kind slots grids.size) = resolved at entered
      generalize enterComponents _ _ _ _ = entering at entered
      cases entered with
      | failure cause => exact .failure cause grids
      | @ok tables parts codes =>
          obtain ⟨grows, codes⟩ := codes
          have start : BufferedScan.Represents file frame parts 0
              { reader := BufferedReader.ofPosition start
                predictors := List.replicate scan.components.length 0
                endOfBandRun := 0
                units := 0
                grids := grids.toList }
              { reader := BitReader.ofBytes (file.drop start)
                predictors := Array.replicate parts.length 0
                endOfBandRun := 0
                grids := grids } :=
            { reader := BufferedReader.represents_ofPosition within
              predictors := by rw [Array.toList_replicate, codes.length_eq]
              components := by rw [List.length_replicate, codes.length_eq]
              run := rfl
              units := rfl
              grids := rfl
              fits := fits }
          have units := start.decodeUnits addressable (by rw [grows.band]; exact inside)
            (by rw [grows.band]; exact few) codes rfl interval (Nat.zero_add _)
          rw [bind_of_ok rfl, bind_of_ok (layoutOf_eq codes)]
          dsimp only
          generalize BufferedScan.decodeUnits _ _ _ _ _ _ _ _ _ = decoding at units
          generalize ScanDecoder.decodeUnits _ _ _ _ _ _ = result at units
          cases units with
          | failure cause after => exact .failure cause _
          | ok same related => exact .ok rfl ⟨related.grids, related.fits⟩

end Checked

end LosslessJpeg
