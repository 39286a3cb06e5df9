import LosslessJpeg.Proofs.Scan.ScanParts

set_option autoImplicit false

/-!
The components of a sequential frame in scans of their own. A scan of one component goes over
the blocks that hold samples of the image, row by row; the interleaved scan goes over these and
over those that fill up MCUs. Both carry the same grids, if the blocks beyond the image are
zero.
-/

namespace LosslessJpeg

open BitReader (Supplies)
open BlockDecoder (RepresentableAfter decode_blockTokens)

def Frame.componentLayout (frame : Frame) (component : Component) : ScanLayout :=
  ScanLayout.raster (frame.imageBlocksWide component) (frame.imageBlocksTall component)

def componentTokens (frame : Frame) (component : Component) (grid : Grid) (table : Fin 4) :
    Array Token :=
  let layout := frame.componentLayout component
  (TokenState.addUnits #[grid] [table] layout layout.units 0
    { predictors := #[0]
      tokens := #[] }).tokens

def componentDcSequence (frame : Frame) (component : Component) (grid : Grid) : List Int :=
  (frame.componentLayout component).order.map fun address =>
    ((grid.block address.row address.column).get 0).toInt

def componentPart (table : Nat → Fin 4) (index : Nat) : ScanPart :=
  { index := index
    dcTable := table index
    acTable := table index }

theorem componentPart_component (table : Nat → Fin 4) {frame : Frame} {index : Nat}
    {component : Component} (found : frame.components[index]? = some component) :
    (componentPart table index).component frame = component := by
  unfold ScanPart.component componentPart
  rw [found]
  rfl

/-- Decode the scans of the components in some order. Each has its own tables in effect and its
own data. -/
def decodeComponents (frame : Frame) (table : Nat → Fin 4) (slots : Nat → HuffmanSlots)
    (bytes : Nat → List UInt8) : List Nat → EStateM CodecError (Array Grid) Unit
  | [] => pure ()
  | index :: rest => do
      (Scan.ofParts [componentPart table index] ScanBand.whole).decode frame (slots index) 0
        (bytes index)
      decodeComponents frame table slots bytes rest

section Component

variable {frame : Frame} {component : Component} {grid : Grid} {table : Fin 4}

theorem componentTokens_eq :
    (componentTokens frame component grid table).toList =
      tokensAlong #[grid] [table] #[0] (frame.componentLayout component).order := by
  have inside : ∀ address ∈ (List.range' 0 (frame.componentLayout component).units).flatMap
      (frame.componentLayout component).blocks,
      address.component < #[grid].size ∧ address.component < [table].length := by
    intro address member
    rw [← List.range_eq_range'] at member
    rw [(ScanLayout.mem_order_raster.mp member).1]
    exact ⟨Nat.one_pos, Nat.one_pos⟩
  unfold componentTokens
  dsimp only
  rw [addUnits_tokens inside, ← List.range_eq_range']
  rfl

theorem representableAlong_sole {predictor : Int} {addresses : List BlockAddress}
    (sole : ∀ address ∈ addresses, address.component = 0)
    (close : (predictor :: addresses.map fun address =>
      ((grid.block address.row address.column).get 0).toInt).IsChain fun before value =>
        (value - before).natAbs ≤ 32767)
    (small : ∀ address ∈ addresses, ∀ position : Fin 64, position ≠ 0 →
      (grid.block address.row address.column).get position ≠ -32768) :
    RepresentableAlong #[grid] #[predictor] addresses := by
  induction addresses generalizing predictor with
  | nil => trivial
  | cons address rest inductionHypothesis =>
      obtain ⟨place, row, column⟩ := address
      have first : place = 0 := sole _ List.mem_cons_self
      subst first
      rw [List.map_cons, List.isChain_cons_cons] at close
      refine ⟨⟨close.1, small _ List.mem_cons_self⟩, ?_⟩
      exact inductionHypothesis (fun other member => sole other (List.mem_cons_of_mem _ member))
        close.2 fun other member => small other (List.mem_cons_of_mem _ member)

end Component

namespace Scan

variable {frame : Frame} {grids : Array Grid} {slots : HuffmanSlots} {closing : Closing}

/-- The reader supplies the tokens of the blocks left, and all of them can be coded. -/
private structure AwaitsTokens (encoder : ScanEncoder) (grid : Grid) (table : Fin 4)
    (closing : Closing) (more : List Bool) (addresses : List BlockAddress)
    (state : ScanState) : Prop where
  between : state.endOfBandRun = 0
  representable : RepresentableAlong #[grid] state.predictors addresses
  encodes : ∀ token ∈ tokensAlong #[grid] [table] state.predictors addresses,
    encoder.Encodes token
  supplies : Supplies closing state.reader
    (encoder.bits (tokensAlong #[grid] [table] state.predictors addresses) ++ more)

private def ReadsTokens (encoder : ScanEncoder) (part : ScanPart) (coding : BlockCoding) : Prop :=
  ∃ dc ac, coding = .sequential dc ac ∧ encoder.ReadBy part.dcTable dc ac

private theorem AwaitsTokens.decode {encoder : ScanEncoder} {grid : Grid} {table : Fin 4}
    {more : List Bool} {row column : Nat} {rest : List BlockAddress} {state : ScanState}
    {dc ac : HuffmanDecoder} (readBy : encoder.ReadBy table dc ac)
    (awaits : AwaitsTokens encoder grid table closing more
      ({ component := 0, row := row, column := column } :: rest) state) :
    ∃ left, (BlockCoding.sequential dc ac).decode
        { reader := state.reader
          predictor := state.predictors.getD 0 0
          endOfBandRun := state.endOfBandRun
          block := Block.zero } = .ok ()
        { reader := left
          predictor := ((grid.block row column).get 0).toInt
          endOfBandRun := state.endOfBandRun
          block := grid.block row column } ∧
      ∀ grids, AwaitsTokens encoder grid table closing more rest
        { reader := left
          predictors := state.predictors.setIfInBounds 0 ((grid.block row column).get 0).toInt
          endOfBandRun := state.endOfBandRun
          grids := grids } := by
  obtain ⟨between, ⟨here, later⟩, encodes, supplies⟩ := awaits
  rw [tokensAlong, ScanEncoder.bits_append, List.append_assoc] at supplies
  obtain ⟨left, decoded, suppliesLeft⟩ := (decode_blockTokens readBy
    { reader := state.reader
      predictor := state.predictors.getD 0 0
      endOfBandRun := state.endOfBandRun
      block := Block.zero }
    (grid.block row column) (fun token member => encodes token (List.mem_append_left _ member))
    supplies between rfl).1 here
  exact ⟨left, decoded, fun grids => ⟨between, later,
    fun token member => encodes token (List.mem_append_right _ member), suppliesLeft⟩⟩

private theorem scanOrder_component (table : Nat → Fin 4) {index : Nat} {component : Component}
    (found : frame.components[index]? = some component) :
    scanOrder frame [componentPart table index] = (frame.componentLayout component).order := by
  change (ScanLayout.ofComponents frame [(componentPart table index).component frame]).order = _
  rw [componentPart_component table found]
  rfl

private theorem reads_componentPart {table : Nat → Fin 4} {index : Nat}
    (served : Serves slots.dc (table index) ∧ Serves slots.ac (table index)) :
    ∃ coding,
      codingOf .sequential (ofParts [componentPart table index] ScanBand.whole) slots
          (componentPart table index).named = .ok coding ∧
        ReadsTokens (ScanEncoder.ofSlots slots) (componentPart table index) coding := by
  obtain ⟨⟨dc, dcFound⟩, ac, acFound⟩ := served
  exact ⟨_, (bind_of_ok dcFound).trans (bind_of_ok acFound), dc, ac, rfl,
    readWith_of_decoderAt dcFound, readWith_of_decoderAt acFound⟩

private theorem placed_notMem_front {part : ScanPart} {front rest : List BlockAddress}
    {address : BlockAddress} (split : scanOrder frame [part] = front ++ address :: rest) :
    placed [part] address ∉ front.map (placed [part]) := by
  have nodup : (covered frame [part]).Nodup := covered_sole_nodup part
  unfold covered at nodup
  rw [split, List.map_append, List.map_cons] at nodup
  exact fun earlier => List.disjoint_of_nodup_append nodup earlier List.mem_cons_self

theorem decode_component {table : Nat → Fin 4} {index : Nat} {component : Component} {grid : Grid}
    {before : Array Grid} {data : List UInt8} (sequential : frame.progressive = false)
    (found : frame.components[index]? = some component) (there : grids[index]? = some grid)
    (served : Serves slots.dc (table index) ∧ Serves slots.ac (table index))
    (representable : RepresentableAlong #[grid] #[0] (frame.componentLayout component).order)
    (written : tokenBytes slots (componentTokens frame component grid (table index)) = .ok data)
    (notStuffing : closing.marker ≠ 0) (notFill : closing.marker ≠ 0xFF)
    (fits : frame.Fits before)
    (blank : ∀ address ∈ covered frame [componentPart table index],
      blockAt before address = Block.zero) :
    ∃ after, (ofParts [componentPart table index] ScanBand.whole).decode frame slots 0
        (data ++ 0xFF :: closing.marker :: closing.after) before = .ok () after ∧
      frame.Replaced (blockAt before) (blockAt grids) (covered frame [componentPart table index])
        after := by
  obtain ⟨encodes, content, padding, rfl, -, held⟩ := tokenBytes_eq_ok written
  rw [componentTokens_eq] at encodes held
  have isKind : (ofParts [componentPart table index] ScanBand.whole).kind frame =
      .ok .sequential := by
    simp [kind, ofParts, sequential]
  have order := scanOrder_component table found
  have inFrame : ∀ part ∈ [componentPart table index], part.index < frame.components.length := by
    intro part member
    rw [List.mem_singleton.mp member]
    exact (List.getElem?_eq_some_iff.mp found).1
  have codings : ∀ part ∈ [componentPart table index], ∃ coding,
      codingOf .sequential (ofParts [componentPart table index] ScanBand.whole) slots
          part.named = .ok coding ∧
        ReadsTokens (ScanEncoder.ofSlots slots) part coding := by
    intro part member
    rw [List.mem_singleton.mp member]
    exact reads_componentPart served
  refine decode_ofParts_replaces (blockAt grids) (ReadsTokens (ScanEncoder.ofSlots slots))
    (AwaitsTokens (ScanEncoder.ofSlots slots) grid (table index) closing
      (List.replicate padding true)) isKind inFrame codings fits ?_ ?_
  · intro front address rest state part coding split here reads inside awaits replaced
    obtain ⟨dc, ac, rfl, readBy⟩ := reads
    have member : address ∈ scanOrder frame [componentPart table index] :=
      split ▸ List.mem_append_right _ List.mem_cons_self
    obtain ⟨place, row, column⟩ := address
    have first : place = 0 := by
      rw [order] at member
      exact (ScanLayout.mem_order_raster.mp member).1
    subst first
    cases List.mem_singleton.mp (List.mem_of_getElem? here)
    -- No block comes twice, so that this one is as it was before the scan.
    have empty : blockAt state.grids
        (placed [componentPart table index] { component := 0, row, column }) = Block.zero := by
      rw [replaced.block _ inside, if_neg (placed_notMem_front split)]
      exact blank _ (List.mem_map_of_mem member)
    have target : blockAt grids
        (placed [componentPart table index] { component := 0, row, column }) =
          grid.block row column := by
      rw [placed_of_getElem? here]
      unfold blockAt componentPart
      rw [there]
      rfl
    obtain ⟨left, decoded, awaitsRest⟩ := awaits.decode readBy
    rw [empty, target]
    exact ⟨_, decoded, rfl, awaitsRest⟩
  · rw [order]
    exact ⟨rfl, representable, encodes, held ▸ BitReader.supplies_ofBytes
      (carries_stuffed notStuffing notFill content)⟩

end Scan

/-! ### All components -/

section Components

variable {frame : Frame} {grids : Array Grid} {table : Nat → Fin 4} {slots : Nat → HuffmanSlots}

def componentsCovered (frame : Frame) (table : Nat → Fin 4) (indices : List Nat) :
    List BlockAddress :=
  indices.flatMap fun index => covered frame [componentPart table index]

theorem decodeComponents_replaces {bytes : Nat → List UInt8} {target : BlockAddress → Block}
    {order done : List Nat} (inFrame : ∀ index ∈ order, index < frame.components.length)
    (different : (done ++ order).Nodup)
    (each : ∀ index ∈ order, ∀ before, frame.Fits before →
      (∀ address ∈ covered frame [componentPart table index],
        blockAt before address = Block.zero) →
      ∃ after, (Scan.ofParts [componentPart table index] ScanBand.whole).decode frame
          (slots index) 0 (bytes index) before = .ok () after ∧
        frame.Replaced (blockAt before) target (covered frame [componentPart table index]) after)
    (replaced : frame.Replaced (fun _ => Block.zero) target
      (componentsCovered frame table done) grids) :
    ∃ after, decodeComponents frame table slots bytes order grids = .ok () after ∧
      frame.Replaced (fun _ => Block.zero) target
        (componentsCovered frame table (done ++ order)) after := by
  -- Blocks of a component are zero until its scan comes, since no scan before goes over them.
  induction order generalizing done grids with
  | nil =>
      rw [List.append_nil]
      exact ⟨grids, rfl, replaced⟩
  | cons index rest inductionHypothesis =>
      have new : index ∉ done := fun earlier =>
        List.disjoint_of_nodup_append different earlier List.mem_cons_self
      have blank : ∀ address ∈ covered frame [componentPart table index],
          blockAt grids address = Block.zero := by
        intro address member
        have inside : address.Inside frame := by
          refine inside_of_mem_covered (fun part isPart => ?_) member
          rw [List.mem_singleton.mp isPart]
          exact inFrame index List.mem_cons_self
        rw [replaced.block address inside, if_neg]
        intro earlier
        obtain ⟨other, inDone, memberToo⟩ := List.mem_flatMap.mp earlier
        have same := (mem_covered_sole.mp member).1.symm.trans (mem_covered_sole.mp memberToo).1
        exact new ((show index = other from same) ▸ inDone)
      obtain ⟨between, decoded, replacedHere⟩ := each index List.mem_cons_self grids
        replaced.fits blank
      rw [List.append_cons] at different ⊢
      have replacedNext := replaced.append replacedHere
      obtain ⟨after, others, replacedAfter⟩ := inductionHypothesis
        (fun other member => inFrame other (List.mem_cons_of_mem _ member)) different
        (fun other member => each other (List.mem_cons_of_mem _ member))
        (by
          unfold componentsCovered at replacedNext ⊢
          rw [List.flatMap_append, List.flatMap_singleton]
          exact replacedNext)
      exact ⟨after, (run_bind_of_ok decoded).trans others, replacedAfter⟩

theorem mem_componentsCovered {indices : List Nat} {address : BlockAddress}
    (inImage : address.InImage frame) (member : address.component ∈ indices) :
    address ∈ componentsCovered frame table indices := by
  obtain ⟨component, found, row, column⟩ := inImage
  have same := componentPart_component table found
  refine List.mem_flatMap.mpr ⟨address.component, member, mem_covered_sole.mpr ⟨rfl, ?_, ?_⟩⟩
  · rw [same]
    exact row
  · rw [same]
    exact column

/-- What the interleaved scan can carry, the scan of a component can carry as well, if its other
order of the blocks does not make the differences too great. -/
theorem Representable.component {index : Nat} {component : Component} {grid : Grid}
    (representable : Representable frame grids) (fits : frame.Fits grids)
    (found : frame.components[index]? = some component) (there : grids[index]? = some grid)
    (close : (0 :: componentDcSequence frame component grid).IsChain fun before value =>
      (value - before).natAbs ≤ 32767) :
    RepresentableAlong #[grid] #[0] (frame.componentLayout component).order := by
  have small := (fits.forall_block _).mp representable.2
  refine representableAlong_sole (fun address member => ?_) close fun address member => ?_
  · exact (ScanLayout.mem_order_raster.mp member).1
  · obtain ⟨-, row, column⟩ := ScanLayout.mem_order_raster.mp member
    have here := small { address with component := index }
      ⟨component, found, Nat.lt_of_lt_of_le row (frame.imageBlocksTall_le component),
        Nat.lt_of_lt_of_le column (frame.imageBlocksWide_le component)⟩
    unfold blockAt at here
    rw [there] at here
    exact here

theorem soleComponent_of_several {components : List Component} (several : 1 < components.length) :
    soleComponent components = components := by
  match components with
  | [] => rfl
  | [component] => exact absurd several (Nat.lt_irrefl 1)
  | first :: second :: rest => rfl

/-- The components of a frame, each in a scan of its own, make the same grids in whatever order
their scans come, and these are the grids that the interleaved scan makes. -/
theorem decodeComponents_eq_interleaved {table : Nat → Fin 4} {slots : Nat → HuffmanSlots}
    {data : Nat → List UInt8} {closing : Nat → Closing} {order : List Nat}
    {tables : List (Fin 4)} {wholeSlots : HuffmanSlots} {wholeData : List UInt8}
    {wholeClosing : Closing} (sequential : frame.progressive = false)
    (several : 1 < frame.components.length) (fits : frame.Fits grids)
    (blank : ∀ address : BlockAddress, address.Inside frame → ¬ address.InImage frame →
      blockAt grids address = Block.zero)
    (representable : Representable frame grids)
    (close : ∀ (index : Nat) (component : Component) (grid : Grid),
      frame.components[index]? = some component → grids[index]? = some grid →
        (0 :: componentDcSequence frame component grid).IsChain fun before value =>
          (value - before).natAbs ≤ 32767)
    (served : ∀ index < frame.components.length,
      Scan.Serves (slots index).dc (table index) ∧ Scan.Serves (slots index).ac (table index))
    (written : ∀ (index : Nat) (component : Component) (grid : Grid),
      frame.components[index]? = some component → grids[index]? = some grid →
        tokenBytes (slots index) (componentTokens frame component grid (table index)) =
          .ok (data index))
    (closes : ∀ index < frame.components.length,
      (closing index).marker ≠ 0 ∧ (closing index).marker ≠ 0xFF)
    (ordered : order.Perm (List.range frame.components.length))
    (wholeServed : ∀ id ∈ tables, Scan.Serves wholeSlots.dc id ∧ Scan.Serves wholeSlots.ac id)
    (wholeWritten : encodeScan frame grids tables wholeSlots = .ok wholeData)
    (wholeCloses : wholeClosing.marker ≠ 0 ∧ wholeClosing.marker ≠ 0xFF) :
    decodeComponents frame table slots
        (fun index => data index ++ 0xFF :: (closing index).marker :: (closing index).after) order
        frame.zeroGrids = .ok () grids ∧
      (wholeScan tables).decode frame wholeSlots 0
        (wholeData ++ 0xFF :: wholeClosing.marker :: wholeClosing.after) frame.zeroGrids =
          .ok () grids := by
  constructor
  · have inFrame : ∀ index ∈ order, index < frame.components.length := fun index member =>
      List.mem_range.mp (ordered.mem_iff.mp member)
    have different : ([] ++ order).Nodup := ordered.nodup_iff.mpr List.nodup_range
    have each : ∀ index ∈ order, ∀ before, frame.Fits before →
        (∀ address ∈ covered frame [componentPart table index],
          blockAt before address = Block.zero) →
        ∃ after, (Scan.ofParts [componentPart table index] ScanBand.whole).decode frame
            (slots index) 0
            (data index ++ 0xFF :: (closing index).marker :: (closing index).after) before =
              .ok () after ∧
          frame.Replaced (blockAt before) (blockAt grids)
            (covered frame [componentPart table index]) after := by
      intro index member before fitsBefore zeros
      have bound := inFrame index member
      have found := List.getElem?_eq_getElem bound
      obtain ⟨grid, there, -⟩ := fits.exists_grid found
      exact Scan.decode_component sequential found there (served index bound)
        (representable.component fits found there (close index _ grid found there))
        (written index _ grid found there) (closes index bound).1 (closes index bound).2
        fitsBefore zeros
    obtain ⟨after, decoded, replaced⟩ := decodeComponents_replaces inFrame different each
      (frame.replaced_zeroGrids (blockAt grids))
    -- Blocks that fill up MCUs are in no scan of a component. They have been zero and stay zero.
    rw [decoded, replaced.fits.ext fits fun address inside => ?_]
    rw [replaced.block address inside]
    split
    · rfl
    · rename_i beyond
      refine (blank address inside fun inImage => beyond ?_).symm
      exact mem_componentsCovered inImage (ordered.mem_iff.mpr
        (List.mem_range.mpr (List.getElem?_eq_some_iff.mp inImage.choose_spec.1).1))
  · obtain ⟨tokens, collected, wroteTokens⟩ := bind_eq_ok wholeWritten
    obtain ⟨_, checked, -⟩ := bind_eq_ok collected
    obtain ⟨size, tabled⟩ := checkGrids_eq_ok checked
    obtain ⟨parts, coded, components, reads⟩ :=
      codedComponents_wholeScan sequential (tabled.trans size) wholeServed
    rw [tabled.trans (size.trans frame.fits_zeroGrids.size.symm)] at coded
    exact (Scan.decode_tokenBytes wholeClosing (soleComponent_of_several several) coded components
      reads fits collected wroteTokens wholeCloses.1 wholeCloses.2).mpr representable

/-- The image ends inside the second MCU. The first component has a block beyond it. -/
private def ragged : Frame :=
  { width := 17
    height := 1
    components :=
      [{ id := 1, across := 2, down := 1, quantizer := 0 },
       { id := 2, across := 1, down := 1, quantizer := 0 }]
    progressive := false
    width_ne_zero := by decide
    height_ne_zero := by decide
    components_ne_nil := by decide
    components_length := by decide
    admissible := by decide }

private def raggedGrids : Array Grid :=
  #[{ blocksWide := 4
      blocksTall := 1
      blocks :=
        #[Block.zero.setIfInBounds 0 3, Block.zero.setIfInBounds 0 (-2),
          Block.zero.setIfInBounds 0 1, Block.zero]
      blocks_size := rfl },
    { blocksWide := 2
      blocksTall := 1
      blocks := #[(Block.zero.setIfInBounds 0 5).setIfInBounds 9 3, Block.zero]
      blocks_size := rfl }]

private def raggedSlots : HuffmanSlots :=
  (HuffmanSlots.empty.install
    { tableClass := 0
      id := 0
      counts := #v[0, 0, 6, 0, 0, 0, 0, 0, 0, 0, 0, 0, 0, 0, 0, 0]
      symbols := [0, 1, 2, 3, 4, 5] }).install
    { tableClass := 1
      id := 0
      counts := #v[0, 3, 0, 0, 0, 0, 0, 0, 0, 0, 0, 0, 0, 0, 0, 0]
      symbols := [0, 0x32, 0x11] }

private def raggedData (index : Nat) : List UInt8 :=
  if index = 0 then [88, 208, 179] else [117, 198, 143]

private def raggedClosing (_ : Nat) : Closing :=
  { marker := 0xD9
    after := [] }

private theorem ragged_fits : ragged.Fits raggedGrids where
  size := rfl
  grid := by
    intro index component grid found there
    match index with
    | 0 =>
        cases found
        cases there
        exact ⟨rfl, rfl⟩
    | 1 =>
        cases found
        cases there
        exact ⟨rfl, rfl⟩
    | index + 2 => cases found

private theorem ragged_blank (address : BlockAddress) (inside : address.Inside ragged)
    (beyond : ¬ address.InImage ragged) : blockAt raggedGrids address = Block.zero := by
  obtain ⟨place, row, column⟩ := address
  obtain ⟨component, found, rowInside, columnInside⟩ := inside
  have notThere := fun rowThere columnThere =>
    beyond ⟨component, found, rowThere, columnThere⟩
  match place with
  | 0 =>
      cases found
      change row < 1 at rowInside
      change column < 4 at columnInside
      change row < 1 → column < 3 → False at notThere
      obtain rfl : row = 0 := by omega
      have outside := Nat.not_lt.mp (notThere rowInside)
      obtain rfl : column = 3 := by omega
      rfl
  | 1 =>
      cases found
      exact absurd columnInside (notThere rowInside)
  | place + 2 => cases found

theorem decodeComponents_eq_interleaved_ragged :
    decodeComponents ragged (fun _ => 0) (fun _ => raggedSlots)
        (fun index => raggedData index ++ [0xFF, 0xD9]) [1, 0] ragged.zeroGrids =
          .ok () raggedGrids ∧
      (wholeScan [0, 0]).decode ragged raggedSlots 0
        ([88, 208, 235, 139, 8, 104] ++ [0xFF, 0xD9]) ragged.zeroGrids = .ok () raggedGrids := by
  have served : Scan.Serves raggedSlots.dc 0 ∧ Scan.Serves raggedSlots.ac 0 :=
    ⟨⟨_, rfl⟩, ⟨_, rfl⟩⟩
  have coded : ∀ index < 2,
      (0 :: componentDcSequence ragged (ragged.components.getD index Component.absent)
        (raggedGrids.getD index (Grid.zero 0 0))).IsChain
          (fun before value => (value - before).natAbs ≤ 32767) ∧
      tokenBytes raggedSlots (componentTokens ragged
        (ragged.components.getD index Component.absent)
        (raggedGrids.getD index (Grid.zero 0 0)) 0) = .ok (raggedData index) := by
    decide +kernel
  have each : ∀ (index : Nat) (component : Component) (grid : Grid),
      ragged.components[index]? = some component → raggedGrids[index]? = some grid →
        (0 :: componentDcSequence ragged component grid).IsChain
            (fun before value => (value - before).natAbs ≤ 32767) ∧
          tokenBytes raggedSlots (componentTokens ragged component grid 0) =
            .ok (raggedData index) := by
    intro index component grid found there
    have holds := coded index (List.getElem?_eq_some_iff.mp found).1
    rw [List.getD_eq_getElem?_getD, found, Array.getD_eq_getD_getElem?, there] at holds
    exact holds
  have closes : ∀ index < ragged.components.length,
      (raggedClosing index).marker ≠ 0 ∧ (raggedClosing index).marker ≠ 0xFF :=
    fun _ _ => (by decide : (0xD9 : UInt8) ≠ 0 ∧ (0xD9 : UInt8) ≠ 0xFF)
  have wholeServed : ∀ id ∈ [(0 : Fin 4), 0], Scan.Serves raggedSlots.dc id ∧
      Scan.Serves raggedSlots.ac id := by
    intro id member
    have same : id = 0 := by
      revert id
      decide
    exact same ▸ served
  have whole : encodeScan ragged raggedGrids [0, 0] raggedSlots =
      .ok [88, 208, 235, 139, 8, 104] := by
    decide +kernel
  have both := decodeComponents_eq_interleaved rfl (by decide) ragged_fits ragged_blank
    (by decide +kernel) (fun index component grid found there =>
      (each index component grid found there).1) (fun _ _ => served)
    (fun index component grid found there => (each index component grid found there).2) closes
    (by decide : [1, 0].Perm (List.range 2)) wholeServed whole (closes 0 (by decide))
  exact both

end Components

end LosslessJpeg
