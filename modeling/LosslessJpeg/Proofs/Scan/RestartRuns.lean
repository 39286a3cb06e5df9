import LosslessJpeg.Proofs.Block.Sampling
import LosslessJpeg.Proofs.Marker.ScanData
import LosslessJpeg.Proofs.Scan.CodedComponents

set_option autoImplicit false

/-!
Sequential scans with restart markers. The units of a scan are split into runs, each of which
is coded as if the scan began there. A decoder that restarts between the runs gives back what
has been coded, wherever in a byte a run ends and however far the reader has looked ahead.
-/

namespace LosslessJpeg

open BitReader (Supplies)

def Marker.restart (run : Nat) : UInt8 :=
  UInt8.ofNat (0xD0 + run % 8)

/-- Runs of entropy-coded data with restart markers between them, the first of which follows
the run with the given number. -/
def joinRuns : Nat → List (List UInt8) → List UInt8
  | _, [] => []
  | _, [last] => last
  | run, first :: rest => first ++ 0xFF :: Marker.restart run :: joinRuns (run + 1) rest

namespace ScanLayout

def runs (layout : ScanLayout) (interval : Nat) : Nat :=
  ceilDiv layout.units interval

def runLength (layout : ScanLayout) (interval run : Nat) : Nat :=
  min interval (layout.units - run * interval)

def runBlocks (layout : ScanLayout) (interval run : Nat) : List BlockAddress :=
  (List.range' (run * interval) (layout.runLength interval run)).flatMap layout.blocks

end ScanLayout

section Coding

variable (grids : Array Grid) (tables : List (Fin 4)) (slots : HuffmanSlots)
  (layout : ScanLayout) (interval : Nat)

/-- The tokens of a run, which starts from predictors of zero. -/
def runTokens (run : Nat) : Array Token :=
  (TokenState.addUnits grids tables layout (layout.runLength interval run) (run * interval)
    { predictors := Array.replicate grids.size 0
      tokens := #[] }).tokens

def codeRuns : Except CodecError (List (List UInt8)) :=
  (List.range (layout.runs interval)).mapM fun run =>
    tokenBytes slots (runTokens grids tables layout interval run)

end Coding

namespace ScanLayout

variable {layout : ScanLayout} {interval run : Nat}

theorem lt_runs_iff (positive : 0 < interval) :
    run < layout.runs interval ↔ run * interval < layout.units := by
  unfold runs ceilDiv
  rw [← Nat.succ_le_iff, Nat.le_div_iff_mul_le positive, Nat.succ_mul]
  omega

theorem runLength_le : layout.runLength interval run ≤ interval :=
  Nat.min_le_left _ _

theorem runLength_pos (positive : 0 < interval) (isRun : run < layout.runs interval) :
    0 < layout.runLength interval run := by
  have some := (lt_runs_iff positive).mp isRun
  unfold runLength
  omega

theorem runLength_inner (positive : 0 < interval) (inner : run + 1 < layout.runs interval) :
    layout.runLength interval run = interval := by
  have some := (lt_runs_iff positive).mp inner
  rw [Nat.succ_mul] at some
  unfold runLength
  omega

theorem runLength_last (positive : 0 < interval) (last : run + 1 = layout.runs interval) :
    run * interval + layout.runLength interval run = layout.units := by
  have here : run * interval < layout.units := (lt_runs_iff positive).mp (by omega)
  have behind : ¬ (run + 1) * interval < layout.units := fun more => by
    have later := (lt_runs_iff positive).mpr more
    omega
  rw [Nat.succ_mul] at behind
  unfold runLength
  omega

def blocksBefore (layout : ScanLayout) (unit : Nat) : List BlockAddress :=
  (List.range unit).flatMap layout.blocks

theorem blocksBefore_append_runBlocks (layout : ScanLayout) (interval run : Nat) :
    layout.blocksBefore (run * interval) ++ layout.runBlocks interval run =
      layout.blocksBefore (run * interval + layout.runLength interval run) := by
  unfold blocksBefore runBlocks
  rw [← List.flatMap_append, List.range_eq_range', List.range_eq_range', ← List.range'_append_1,
    Nat.zero_add]

theorem blocksBefore_prefix {unit : Nat} (inside : unit ≤ layout.units) :
    layout.blocksBefore unit <+: layout.order := by
  obtain ⟨more, same⟩ := Nat.exists_eq_add_of_le inside
  refine ⟨(List.range' unit more).flatMap layout.blocks, ?_⟩
  unfold blocksBefore order
  rw [same, ← List.flatMap_append, List.range_eq_range', List.range_eq_range',
    ← List.range'_append_1, Nat.zero_add]

end ScanLayout

private theorem restartNumber?_restart : ∀ number : Fin 8,
    Marker.restartNumber? (UInt8.ofNat (0xD0 + number.val)) = some number.val := by
  decide

theorem Marker.restartNumber?_restart (run : Nat) :
    restartNumber? (restart run) = some (run % 8) :=
  LosslessJpeg.restartNumber?_restart ⟨run % 8, Nat.mod_lt _ (by decide)⟩

/-- What closes the data of a run: a restart marker and the other runs, or what closes the
data of the scan. -/
def closingOf (run : Nat) (rest : List (List UInt8)) (closing : Closing) : Closing :=
  match rest with
  | [] => closing
  | first :: others =>
      { marker := Marker.restart run
        after := joinRuns (run + 1) (first :: others) ++ 0xFF :: closing.marker :: closing.after }

theorem joinRuns_cons (run : Nat) (first : List UInt8) (rest : List (List UInt8))
    (closing : Closing) :
    joinRuns run (first :: rest) ++ 0xFF :: closing.marker :: closing.after =
      first ++ 0xFF :: (closingOf run rest closing).marker ::
        (closingOf run rest closing).after := by
  cases rest with
  | nil => rfl
  | cons second others =>
      rw [joinRuns, List.append_assoc]
      · rfl
      · nofun

theorem closingOf_marker {run : Nat} {rest : List (List UInt8)} {closing : Closing}
    (notStuffing : closing.marker ≠ 0) (notFill : closing.marker ≠ 0xFF) :
    (closingOf run rest closing).marker ≠ 0 ∧ (closingOf run rest closing).marker ≠ 0xFF := by
  cases rest with
  | nil => exact ⟨notStuffing, notFill⟩
  | cons second others =>
      have numbered := Marker.ne_of_restartNumber? (Marker.restartNumber?_restart run)
      exact ⟨numbered.2, numbered.1⟩

namespace ScanDecoder

variable {frame : Frame} {parts : Array CodedComponent} {layout : ScanLayout}
  {interval : Nat} {grids : Array Grid} {tables : List (Fin 4)} {slots : HuffmanSlots}

theorem decodeBlocks_append (parts : Array CodedComponent) (front back : List BlockAddress) :
    decodeBlocks parts (front ++ back) =
      (do
        decodeBlocks parts front
        decodeBlocks parts back) := by
  unfold decodeBlocks
  rw [List.forM_eq_forM, List.forM_append]

theorem beginUnit_inside {unit : Nat} (inside : unit % interval ≠ 0) :
    beginUnit interval unit = pure () := by
  funext state
  exact if_neg fun boundary => inside boundary.2.2

theorem beginUnit_first (state : ScanState) :
    beginUnit interval (0 * interval) state = .ok () state := by
  unfold beginUnit
  rw [Nat.zero_mul, if_neg fun boundary => Nat.lt_irrefl 0 boundary.2.1]

/-- Units between two restarts are decoded block by block. -/
theorem decodeUnits_inside {count first : Nat} (more : Nat)
    (inside : ∀ unit, first ≤ unit → unit < first + count → unit % interval ≠ 0) :
    decodeUnits parts layout interval (count + more) first =
      (do
        decodeBlocks parts ((List.range' first count).flatMap layout.blocks)
        decodeUnits parts layout interval more (first + count)) := by
  induction count generalizing first with
  | zero =>
      rw [Nat.zero_add]
      rfl
  | succ count inductionHypothesis =>
      have later := inductionHypothesis fun unit (from1 : first + 1 ≤ unit) below =>
        inside unit (by omega) (by omega)
      rw [Nat.add_right_comm, decodeUnits, later, decodeUnit,
        beginUnit_inside (inside first (Nat.le_refl first) (by omega)), pure_bind,
        List.range'_succ, List.flatMap_cons, decodeBlocks_append, bind_assoc,
        Nat.add_right_comm first, Nat.add_assoc]
      rfl

theorem decodeUnits_run {count run : Nat} (more : Nat) (some : 0 < count)
    (few : count ≤ interval) :
    decodeUnits parts layout interval (count + more) (run * interval) =
      (do
        beginUnit interval (run * interval)
        decodeBlocks parts ((List.range' (run * interval) count).flatMap layout.blocks)
        decodeUnits parts layout interval more (run * interval + count)) := by
  obtain ⟨others, rfl⟩ : ∃ others, count = others + 1 := ⟨count - 1, by omega⟩
  have inside : ∀ unit, run * interval + 1 ≤ unit → unit < run * interval + 1 + others →
      unit % interval ≠ 0 := by
    intro unit from1 below
    obtain ⟨offset, rfl⟩ : ∃ offset, unit = run * interval + offset :=
      ⟨unit - run * interval, by omega⟩
    rw [Nat.mul_comm, Nat.mul_add_mod, Nat.mod_eq_of_lt (by omega)]
    omega
  rw [Nat.add_right_comm, decodeUnits, decodeUnits_inside more inside, decodeUnit,
    List.range'_succ, List.flatMap_cons, decodeBlocks_append, bind_assoc, bind_assoc,
    Nat.add_assoc (run * interval), Nat.add_comm 1 others]
  rfl

/-! ### One run -/

private theorem decodeBlock_predictors {address : BlockAddress} {state after : ScanState}
    (done : decodeBlock parts address state = .ok () after) :
    after.predictors.size = state.predictors.size := by
  unfold decodeBlock at done
  split at done
  · cases done
    rfl
  · split at done
    · cases done
      exact Array.size_setIfInBounds
    · cases done

theorem decodeBlocks_predictors {addresses : List BlockAddress} {state after : ScanState}
    (done : decodeBlocks parts addresses state = .ok () after) :
    after.predictors.size = state.predictors.size := by
  induction addresses generalizing state with
  | nil =>
      cases done
      rfl
  | cons address rest inductionHypothesis =>
      rw [decodeBlocks_cons] at done
      obtain ⟨_, between, first, others⟩ := run_bind_eq_ok done
      rw [inductionHypothesis others, decodeBlock_predictors first]

/-- Where a run begins: the predictors are zero, and so are the blocks that are still to be
decoded. -/
structure Begins (frame : Frame) (grids : Array Grid) (done : List BlockAddress)
    (state : ScanState) : Prop where
  predictors : state.predictors = Array.replicate grids.size 0
  between : state.endOfBandRun = 0
  replaced : frame.Replaced (fun _ => Block.zero) (blockAt grids) done state.grids

theorem decodeBlocks_run {state : ScanState} {done addresses : List BlockAddress}
    {tokens : Array Token} {data : List UInt8} {closing : Closing}
    (reads : ReadsTables (ScanEncoder.ofSlots slots) tables parts)
    (size : parts.size = frame.components.length)
    (begins : Begins frame grids done state)
    (inside : ∀ address ∈ addresses, address.Inside frame)
    (nodup : (done ++ addresses).Nodup)
    (listed : tokens.toList =
      tokensAlong grids tables (Array.replicate grids.size 0) addresses)
    (representable : RepresentableAlong grids (Array.replicate grids.size 0) addresses)
    (coded : tokenBytes slots tokens = .ok data) (notStuffing : closing.marker ≠ 0)
    (notFill : closing.marker ≠ 0xFF)
    (reader : state.reader =
      BitReader.ofBytes (data ++ 0xFF :: closing.marker :: closing.after)) :
    ∃ after, decodeBlocks parts addresses state = .ok () after ∧
      (∃ padding : List Bool, padding.length < 8 ∧ Supplies closing after.reader padding) ∧
      after.predictors.size = state.predictors.size ∧ after.endOfBandRun = 0 ∧
      frame.Replaced (fun _ => Block.zero) (blockAt grids) (done ++ addresses) after.grids := by
  obtain ⟨encodes, content, padding, rfl, few, held⟩ := tokenBytes_eq_ok coded
  obtain ⟨-, nodupHere, apart⟩ := List.nodup_append'.mp nodup
  have awaits : Awaits frame (ScanEncoder.ofSlots slots) grids tables closing
      (List.replicate padding true) addresses state :=
    { inside := inside
      nodup := nodupHere
      fits := begins.replaced.fits
      between := begins.between
      blank := fun address member => by
        rw [begins.replaced.block address (inside address member),
          if_neg fun earlier => apart earlier member]
      encodes := by
        rw [begins.predictors, ← listed]
        exact encodes
      supplies := by
        rw [begins.predictors, ← listed, ← held, reader]
        exact BitReader.supplies_ofBytes (carries_stuffed notStuffing notFill content) }
  obtain ⟨after, decoded, awaitsAfter, same⟩ :=
    awaits.decodeBlocks_of_representable reads size (by rw [begins.predictors]; exact representable)
  refine ⟨after, decoded, ⟨_, ?_, awaitsAfter.supplies⟩, ?_, awaitsAfter.between,
    awaitsAfter.fits, fun address addressInside => ?_⟩
  · rw [tokensAlong]
    exact Nat.lt_of_le_of_lt (Nat.le_of_eq (List.length_replicate ..)) few
  · exact decodeBlocks_predictors decoded
  · by_cases here : address ∈ addresses
    · rw [if_pos (List.mem_append_right done here), same address here]
    · rw [decodeBlocks_frame reads.inPlace size begins.replaced.fits inside decoded addressInside
        here, begins.replaced.block address addressInside]
      simp [here]

/-! ### All runs -/

/-- A restart marker behind a run makes everything ready for the next run. -/
theorem beginUnit_restart {run : Nat} {state : ScanState} {done : List BlockAddress}
    {closing : Closing} {padding : List Bool} {number : Nat} (positive : 0 < interval)
    (size : state.predictors.size = grids.size)
    (replaced : frame.Replaced (fun _ => Block.zero) (blockAt grids) done state.grids)
    (few : padding.length < 8) (supplies : Supplies closing state.reader padding)
    (numbered : Marker.restartNumber? closing.marker = some number) :
    ∃ next, beginUnit interval ((run + 1) * interval) state = .ok () next ∧
      next.reader = BitReader.ofBytes closing.after ∧ Begins frame grids done next := by
  have boundary : 0 < interval ∧ 0 < (run + 1) * interval ∧ (run + 1) * interval % interval = 0 :=
    ⟨positive, Nat.mul_pos (Nat.succ_pos run) positive, Nat.mul_mod_left _ _⟩
  refine ⟨{ state with
    reader := BitReader.ofBytes closing.after
    predictors := state.predictors.map fun _ => 0
    endOfBandRun := 0 }, ?_, rfl, ?_, rfl, replaced⟩
  · unfold beginUnit
    rw [if_pos boundary, supplies.takeRestart few numbered]
  · rw [← size]
    exact Array.map_const' ..

structure Restarting (frame : Frame) (grids : Array Grid) (tables : List (Fin 4))
    (slots : HuffmanSlots) (parts : Array CodedComponent) (layout : ScanLayout)
    (interval : Nat) : Prop where
  reads : ReadsTables (ScanEncoder.ofSlots slots) tables parts
  size : parts.size = frame.components.length
  fits : frame.Fits grids
  tabled : tables.length = grids.size
  covers : ∀ address : BlockAddress, address ∈ layout.order ↔ address.Inside frame
  nodup : layout.order.Nodup
  positive : 0 < interval
  representable : ∀ run < layout.runs interval,
    RepresentableAlong grids (Array.replicate grids.size 0) (layout.runBlocks interval run)

variable {closing : Closing}

theorem Restarting.runTokens_toList
    (restarting : Restarting frame grids tables slots parts layout interval) {run : Nat}
    (inside : ∀ address ∈ layout.runBlocks interval run, address.Inside frame) :
    (runTokens grids tables layout interval run).toList =
      tokensAlong grids tables (Array.replicate grids.size 0) (layout.runBlocks interval run) := by
  unfold runTokens
  rw [addUnits_tokens]
  · rfl
  · intro address member
    obtain ⟨component, found, -⟩ := inside address member
    have bound := (List.getElem?_eq_some_iff.mp found).1
    have size := restarting.fits.size
    have tabled := restarting.tabled
    omega

theorem Restarting.decodeRun
    (restarting : Restarting frame grids tables slots parts layout interval) {run : Nat}
    {chunk : List UInt8} {state : ScanState} (isRun : run < layout.runs interval)
    (coded : tokenBytes slots (runTokens grids tables layout interval run) = .ok chunk)
    (begins : Begins frame grids (layout.blocksBefore (run * interval)) state)
    (notStuffing : closing.marker ≠ 0) (notFill : closing.marker ≠ 0xFF)
    (reader : state.reader =
      BitReader.ofBytes (chunk ++ 0xFF :: closing.marker :: closing.after)) :
    ∃ after, decodeBlocks parts (layout.runBlocks interval run) state = .ok () after ∧
      (∃ padding : List Bool, padding.length < 8 ∧ Supplies closing after.reader padding) ∧
      after.predictors.size = grids.size ∧
      frame.Replaced (fun _ => Block.zero) (blockAt grids)
        (layout.blocksBefore (run * interval + layout.runLength interval run)) after.grids := by
  have some := (ScanLayout.lt_runs_iff restarting.positive).mp isRun
  have front : layout.blocksBefore (run * interval) ++ layout.runBlocks interval run <+:
      layout.order := by
    rw [ScanLayout.blocksBefore_append_runBlocks]
    apply ScanLayout.blocksBefore_prefix
    unfold ScanLayout.runLength
    omega
  have inside : ∀ address ∈ layout.runBlocks interval run, address.Inside frame :=
    fun address member => (restarting.covers address).mp
      (front.subset (List.mem_append_right _ member))
  obtain ⟨after, decoded, supplies, predictors, -, replaced⟩ := decodeBlocks_run restarting.reads
    restarting.size begins inside (restarting.nodup.sublist front.sublist)
    (restarting.runTokens_toList inside) (restarting.representable run isRun) coded notStuffing
    notFill reader
  rw [ScanLayout.blocksBefore_append_runBlocks] at replaced
  refine ⟨after, decoded, supplies, ?_, replaced⟩
  rw [predictors, begins.predictors, Array.size_replicate]

/-- From the beginning of a run on, all blocks that are left come back. -/
theorem Restarting.decodeUnits
    (restarting : Restarting frame grids tables slots parts layout interval) {run : Nat}
    {chunks : List (List UInt8)} {before state : ScanState}
    (notStuffing : closing.marker ≠ 0) (notFill : closing.marker ≠ 0xFF)
    (coded : List.Forall₂ (fun number chunk =>
      tokenBytes slots (runTokens grids tables layout interval number) = .ok chunk)
        (List.range' run chunks.length) chunks)
    (all : run + chunks.length = layout.runs interval) (some : chunks ≠ [])
    (begun : beginUnit interval (run * interval) before = .ok () state)
    (begins : Begins frame grids (layout.blocksBefore (run * interval)) state)
    (reader : state.reader = BitReader.ofBytes
      (joinRuns run chunks ++ 0xFF :: closing.marker :: closing.after)) :
    ∃ after, ScanDecoder.decodeUnits parts layout interval (layout.units - run * interval)
        (run * interval) before = .ok () after ∧
      frame.Replaced (fun _ => Block.zero) (blockAt grids) layout.order after.grids := by
  -- One run after the other. Each begins behind a restart marker, with predictors of zero.
  induction chunks generalizing run before state with
  | nil => exact absurd rfl some
  | cons first rest inductionHypothesis =>
      rw [List.length_cons] at all
      rw [List.length_cons, List.range'_succ] at coded
      obtain ⟨codedFirst, codedRest⟩ := List.forall₂_cons.mp coded
      rw [joinRuns_cons] at reader
      obtain ⟨notStuffing', notFill'⟩ := closingOf_marker notStuffing notFill
      have isRun : run < layout.runs interval := by omega
      obtain ⟨after, decoded, ⟨padding, few, supplies⟩, predictors, replaced⟩ :=
        restarting.decodeRun isRun codedFirst begins notStuffing' notFill' reader
      have less := (ScanLayout.lt_runs_iff restarting.positive).mp isRun
      have split : layout.units - run * interval = layout.runLength interval run +
          (layout.units - (run * interval + layout.runLength interval run)) := by
        unfold ScanLayout.runLength
        omega
      rw [split, decodeUnits_run _ (ScanLayout.runLength_pos restarting.positive isRun)
        ScanLayout.runLength_le, run_bind_of_ok begun]
      change ∃ final, (decodeBlocks parts (layout.runBlocks interval run) >>= _) state = _ ∧ _
      rw [run_bind_of_ok decoded]
      -- No restart marker follows the last run, whose units may be fewer.
      cases rest with
      | nil =>
          rw [ScanLayout.runLength_last restarting.positive all] at replaced ⊢
          rw [Nat.sub_self]
          exact ⟨after, rfl, replaced⟩
      | cons second others =>
          rw [List.length_cons] at all
          rw [ScanLayout.runLength_inner restarting.positive (by omega), ← Nat.succ_mul]
            at replaced ⊢
          obtain ⟨next, began, readerNext, beginsNext⟩ := beginUnit_restart restarting.positive
            predictors replaced few supplies (Marker.restartNumber?_restart run)
          exact inductionHypothesis codedRest (by rw [List.length_cons]; omega)
            (List.cons_ne_nil _ _) began beginsNext readerNext

theorem Restarting.decodeAll
    (restarting : Restarting frame grids tables slots parts layout interval)
    {chunks : List (List UInt8)} (closing : Closing) (notStuffing : closing.marker ≠ 0)
    (notFill : closing.marker ≠ 0xFF)
    (coded : List.Forall₂ (fun number chunk =>
      tokenBytes slots (runTokens grids tables layout interval number) = .ok chunk)
        (List.range (layout.runs interval)) chunks)
    (some : 0 < layout.units) :
    ∃ after, ScanDecoder.decodeUnits parts layout interval layout.units 0
        { reader := BitReader.ofBytes
            (joinRuns 0 chunks ++ 0xFF :: closing.marker :: closing.after)
          predictors := Array.replicate grids.size 0
          endOfBandRun := 0
          grids := frame.zeroGrids } = .ok () after ∧ after.grids = grids := by
  have length : chunks.length = layout.runs interval := by
    rw [← coded.length_eq, List.length_range]
  have nonempty : chunks ≠ [] := by
    rw [← List.length_pos_iff, length]
    exact ceilDiv_pos some restarting.positive
  rw [← length, List.range_eq_range'] at coded
  have begins : frame.Replaced (fun _ => Block.zero) (blockAt grids)
      (layout.blocksBefore (0 * interval)) frame.zeroGrids := by
    rw [Nat.zero_mul]
    exact frame.replaced_zeroGrids _
  obtain ⟨after, decoded, replaced⟩ := restarting.decodeUnits notStuffing notFill coded
    ((Nat.zero_add _).trans length) nonempty
    (beginUnit_first
      { reader := BitReader.ofBytes
          (joinRuns 0 chunks ++ 0xFF :: closing.marker :: closing.after)
        predictors := Array.replicate grids.size 0
        endOfBandRun := 0
        grids := frame.zeroGrids })
    ⟨rfl, rfl, begins⟩ rfl
  rw [Nat.zero_mul] at decoded
  exact ⟨after, decoded, replaced.eq restarting.fits fun address inside =>
    (restarting.covers address).mpr inside⟩

end ScanDecoder

theorem ScanLayout.interleaved_units_pos (frame : Frame) :
    0 < (interleaved frame frame.components).units :=
  Nat.mul_pos (ceilDiv_pos (toNat_pos frame.height_ne_zero) frame.mcuHeight_pos)
    (ceilDiv_pos (toNat_pos frame.width_ne_zero) frame.mcuWidth_pos)

/-- Restart markers do not show in what is decoded: the grids of a sequential scan come back
from runs of any length that have been coded one by one. -/
theorem Scan.decode_restartRuns {width height : UInt16} {named : List Component}
    {frame : Frame} {grids : Array Grid} {tables : List (Fin 4)} {slots : HuffmanSlots}
    {interval : Nat} {marker : UInt8}
    (built : Frame.build width height named false = .ok frame)
    (fits : frame.Fits grids) (tabled : tables.length = grids.size)
    (served : ∀ id ∈ tables, Serves slots.dc id ∧ Serves slots.ac id)
    (positive : 0 < interval)
    (encodes : ∀ run < (ScanLayout.interleaved frame frame.components).runs interval,
      ∀ token ∈ (runTokens grids tables (ScanLayout.interleaved frame frame.components) interval
        run).toList, (ScanEncoder.ofSlots slots).Encodes token)
    (representable : ∀ run < (ScanLayout.interleaved frame frame.components).runs interval,
      RepresentableAlong grids (Array.replicate grids.size 0)
        ((ScanLayout.interleaved frame frame.components).runBlocks interval run))
    (closes : Marker.Closes marker) :
    ∃ chunks, codeRuns grids tables slots (ScanLayout.interleaved frame frame.components)
        interval = .ok chunks ∧
      ∀ after, (wholeScan tables).decode frame slots interval
        (joinRuns 0 chunks ++ 0xFF :: marker :: after) frame.zeroGrids = .ok () grids := by
  have normal := Frame.normal_of_build built
  have sequential := (Frame.build_eq_ok built).2.2.2
  obtain ⟨parts, coded, components, reads⟩ :=
    codedComponents_wholeScan sequential (tabled.trans fits.size) served
  have count : parts.length = frame.components.length := by
    rw [← components, List.length_map]
  obtain ⟨chunks, written, each⟩ := mapM_of_forall fun run member =>
    (tokenBytes_of_encodes (encodes run (List.mem_range.mp member))).imp
      fun chunk coded => ⟨coded, coded⟩
  refine ⟨chunks, written, fun after => ?_⟩
  have restarting : ScanDecoder.Restarting frame grids tables slots parts.toArray
      (ScanLayout.interleaved frame frame.components) interval :=
    { reads := reads
      size := List.size_toArray.trans count
      fits := fits
      tabled := tabled
      covers := fun _ => ScanLayout.mem_order_interleaved
      nodup := ScanLayout.order_interleaved_nodup frame
      positive := positive
      representable := representable }
  obtain ⟨final, decoded, same⟩ := restarting.decodeAll { marker := marker, after := after }
    closes.2.1 closes.1 each (ScanLayout.interleaved_units_pos frame)
  have zeros : frame.zeroGrids.size = tables.length := by
    rw [frame.fits_zeroGrids.size, tabled, fits.size]
  unfold decode
  rw [zeros, coded]
  dsimp only
  rw [components, ScanLayout.ofComponents_eq_interleaved normal, count, ← fits.size, decoded]
  dsimp only
  rw [same]

private def stripe : Grid :=
  { blocksWide := 3
    blocksTall := 1
    blocks := #[(Block.zero.setIfInBounds 0 5).setIfInBounds 9 (-3),
      Block.zero.setIfInBounds 0 7, Block.zero.setIfInBounds 0 (-4)]
    blocks_size := rfl }

private def stripeFrame : Frame :=
  { width := 20
    height := 5
    components := [{ id := 3, across := 1, down := 1, quantizer := 0 }]
    progressive := false
    width_ne_zero := by decide
    height_ne_zero := by decide
    components_ne_nil := by decide
    components_length := by decide
    admissible := by decide }

private def stripeSlots : HuffmanSlots :=
  (HuffmanSlots.empty.install
    { tableClass := 0
      id := 0
      counts := #v[0, 0, 5, 0, 0, 0, 0, 0, 0, 0, 0, 0, 0, 0, 0, 0]
      symbols := [0, 1, 2, 3, 4] }).install
    { tableClass := 1
      id := 0
      counts := #v[0, 2, 0, 0, 0, 0, 0, 0, 0, 0, 0, 0, 0, 0, 0, 0]
      symbols := [0, 0x32] }

theorem Scan.decode_restartRuns_stripe :
    ∃ chunks, codeRuns #[stripe] [0] stripeSlots
        (ScanLayout.interleaved stripeFrame stripeFrame.components) 2 = .ok chunks ∧
      (wholeScan [0]).decode stripeFrame stripeSlots 2
        (joinRuns 0 chunks ++ [0xFF, 0xD9]) stripeFrame.zeroGrids = .ok () #[stripe] := by
  have built : Frame.build 20 5 stripeFrame.components false = .ok stripeFrame := rfl
  have fits : stripeFrame.Fits #[stripe] :=
    { size := rfl
      grid := by
        intro index component grid found there
        match index with
        | 0 =>
            cases found
            cases there
            exact ⟨rfl, rfl⟩
        | index + 1 => cases found }
  have served : ∀ id ∈ [(0 : Fin 4)], Scan.Serves stripeSlots.dc id ∧
      Scan.Serves stripeSlots.ac id := by
    intro id member
    rw [List.mem_singleton.mp member]
    exact ⟨⟨_, rfl⟩, ⟨_, rfl⟩⟩
  obtain ⟨chunks, coded, decoded⟩ := Scan.decode_restartRuns built fits rfl served
    (by decide : 0 < 2) (by decide +kernel) (by decide +kernel) (by decide : Marker.Closes 0xD9)
  exact ⟨chunks, coded, decoded []⟩

end LosslessJpeg
