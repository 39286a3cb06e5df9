import LosslessJpeg.Proofs.Scan.BandRefinement
import LosslessJpeg.Proofs.Scan.BitPlanes
import LosslessJpeg.Proofs.Scan.Footprint

set_option autoImplicit false

/-!
What a scan of one more bit can do to coefficients, whatever they are and whatever its data is.
A coefficient of a band is visited once at most: a zero can become the first unit of the new
bit, and any other coefficient keeps its sign and grows by no more than the bit is worth. A DC
coefficient can get the new bit set.
-/

namespace LosslessJpeg

open BlockDecoder (bitValue)

/-- An AC coefficient before and after the bit `low`. -/
def Refines (low : Nat) (old new : Int16) : Prop :=
  if old = 0 then
    new = 0 ∨ new.toInt = 2 ^ low ∨ new.toInt = -2 ^ low
  else
    new.toInt.sign = old.toInt.sign ∧ old.toInt.natAbs ≤ new.toInt.natAbs ∧
      new.toInt.natAbs ≤ old.toInt.natAbs + 2 ^ low

/-- A DC coefficient before and after the bit `low`: nothing has changed, or the bit has been
set that was not, and no other. -/
def SetsBit (low : Nat) (old new : Int16) : Prop :=
  new = old ∨ old.toBitVec.getLsbD low = false ∧
    ∀ place, new.toBitVec.getLsbD place = (old.toBitVec.getLsbD place || place == low)

section Coefficients

variable {low : Nat} {old new : Int16}

theorem Refines.refl (low : Nat) (value : Int16) : Refines low value value := by
  unfold Refines
  split
  · rename_i zero
    exact Or.inl zero
  · exact ⟨rfl, Nat.le_refl _, Nat.le_add_right _ _⟩

theorem clampCoefficient_toInt (value : Int) :
    (clampCoefficient value).toInt = max (-32768) (min value 32767) :=
  Int16.toInt_ofInt_of_le (by omega) (by omega)

/-- A coefficient at the end of the range stays there; it does not wrap around. -/
theorem refines_corrected (few : low ≤ 13) (bit : Bool) {value : Int16} (nonzero : value ≠ 0) :
    Refines low value (corrected low bit value) := by
  have least := value.le_toInt
  have greatest := value.toInt_lt
  have positive : (0 : Int) < 2 ^ low := Int.pow_pos (by decide)
  have cast : ((2 ^ low : Nat) : Int) = 2 ^ low := Int.natCast_pow 2 low
  have notZero : value.toInt ≠ 0 := fun same => nonzero (Int16.toInt_inj.mp same)
  unfold corrected
  split
  · rw [Refines, if_neg nonzero, clampCoefficient_toInt, bitValue_toInt few]
    by_cases negative : value.toInt < 0
    · rw [if_neg (by omega), Int.sign_eq_neg_one_of_neg negative,
        Int.sign_eq_neg_one_of_neg (by omega)]
      omega
    · rw [if_pos (by omega), Int.sign_eq_one_of_pos (by omega), Int.sign_eq_one_of_pos (by omega)]
      omega
  · exact Refines.refl low value

theorem refines_unit (few : low ≤ 13) (sign : Bool) :
    Refines low 0 (if sign then bitValue low else -bitValue low) := by
  have unit := bitValue_toInt few
  have positive : (0 : Int) < 2 ^ low := Int.pow_pos (by decide)
  have below := (bitValue low).toInt_lt
  rw [Refines, if_pos rfl]
  cases sign with
  | true => exact Or.inr (Or.inl unit)
  | false =>
      have negative : (-bitValue low).toInt = -2 ^ low := by
        rw [Int16.toInt_neg, unit]
        exact Int.bmod_eq_of_le (by omega) (by omega)
      exact Or.inr (Or.inr negative)

theorem SetsBit.trans {between : Int16} (first : SetsBit low old between)
    (second : SetsBit low between new) : SetsBit low old new := by
  rcases first with same | ⟨unset, others⟩
  · rw [← same]
    exact second
  · rcases second with same | ⟨unsetToo, -⟩
    · rw [same]
      exact Or.inr ⟨unset, others⟩
    · rw [others low, beq_self_eq_true, Bool.or_true] at unsetToo
      cases unsetToo

theorem setsBit_or (few : low ≤ 13) (value : Int16) :
    SetsBit low value (value ||| bitValue low) := by
  have bits : ∀ place, (value ||| bitValue low).toBitVec.getLsbD place =
      (value.toBitVec.getLsbD place || place == low) := by
    intro place
    have unit : (decide (place < 16) && decide (low = place)) = (place == low) := by
      rw [Bool.eq_iff_iff, Bool.and_eq_true, decide_eq_true_eq, decide_eq_true_eq, beq_iff_eq]
      omega
    rw [Int16.toBitVec_or, BitVec.getLsbD_or, bitValue_getLsbD, unit]
  cases here : value.toBitVec.getLsbD low with
  | false => exact Or.inr ⟨here, bits⟩
  | true =>
      apply Or.inl
      apply Int16.toBitVec_inj.mp
      apply BitVec.eq_of_getLsbD_eq
      intro place _
      rw [bits place]
      by_cases same : place = low
      · rw [same, here, Bool.true_or]
      · rw [beq_eq_false_iff_ne.mpr same, Bool.or_false]

end Coefficients

/-! ### Blocks -/

namespace BlockDecoder

/-- A band on the way: each coefficient is refined or as it was, and those at the positions left
are as they were. -/
structure Underway (low : Nat) (original : Block) (left : List (Option (Fin 64)))
    (state : BlockState) : Prop where
  refined : ∀ position, Refines low (original.get position) (state.block.get position)
  untouched : ∀ position, some position ∈ left →
    state.block.get position = original.get position

namespace Underway

variable {low : Nat} {original : Block} {target : Option (Fin 64)}
  {left : List (Option (Fin 64))} {state other : BlockState}

theorem start (low : Nat) (left : List (Option (Fin 64))) (state : BlockState) :
    Underway low state.block left state where
  refined _ := Refines.refl low _
  untouched _ _ := rfl

theorem of_block (underway : Underway low original left state)
    (same : other.block = state.block) : Underway low original left other where
  refined := same ▸ underway.refined
  untouched := same ▸ underway.untouched

theorem pass (underway : Underway low original (target :: left) state) :
    Underway low original left state where
  refined := underway.refined
  untouched position member := underway.untouched position (List.mem_cons_of_mem target member)

theorem done (underway : Underway low original left state) : Underway low original [] state where
  refined := underway.refined
  untouched := nofun

theorem set {position : Fin 64} (underway : Underway low original (some position :: left) state)
    (once : some position ∉ left) {value : Int16}
    (refines : Refines low (state.block.get position) value)
    (written : other.block = state.block.set position.val value position.isLt) :
    Underway low original left other where
  refined := by
    intro place
    rw [written, get_set]
    by_cases same : position = place
    · rw [if_pos same, ← same, ← underway.untouched position List.mem_cons_self]
      exact refines
    · rw [if_neg same]
      exact underway.refined place
  untouched := by
    intro place member
    have different : position ≠ place := fun same => once (same ▸ member)
    rw [written, get_set, if_neg different]
    exact underway.untouched place (List.mem_cons_of_mem _ member)

end Underway

def Refinement.Units (low : Nat) (pending : Option Refinement) : Prop :=
  ∀ count coefficient, pending = some (.zeros count (some coefficient)) → Refines low 0 coefficient

variable {low : Nat} {ac : HuffmanDecoder} {state after : BlockState} {original : Block}
  {target : Option (Fin 64)} {left rest : List (Option (Fin 64))}

theorem Refinement.units_none : Units low none := by
  intro count coefficient told
  cases told

theorem Refinement.Units.of_pred {count : Nat} {value : Option Int16}
    (units : Units low (some (.zeros (count + 1) value))) :
    Units low (some (.zeros count value)) := by
  intro fewer coefficient same
  cases same
  exact units _ _ rfl

theorem refinement_units (few : low ≤ 13) {current : Refinement}
    (read : refinement ac low state = .ok current after) :
    Refinement.Units low (some current) := by
  intro count coefficient same
  cases same
  unfold refinement at read
  obtain ⟨symbol, first, -, read⟩ := run_bind_eq_ok read
  dsimp only at read
  split at read
  · split at read
    · cases read
    · obtain ⟨blocks, second, -, read⟩ := run_bind_eq_ok read
      obtain ⟨_, third, -, last⟩ := run_bind_eq_ok read
      cases last
  · split at read
    · obtain ⟨positive, second, -, last⟩ := run_bind_eq_ok read
      cases last
      exact refines_unit few positive
    · cases read

theorem refinement_block (ac : HuffmanDecoder) (low : Nat) (state : BlockState) :
    (stateAfter (refinement ac low state)).block = state.block := by
  have itself : Alike (fun _ => False) state.block state.block state state :=
    { reader := rfl
      predictor := rfl
      endOfBandRun := rfl
      inside := fun _ _ => rfl
      outside := fun _ _ => ⟨rfl, rfl⟩ }
  have ended := (respected_alike.runs_refinement ac low state state itself).stateAfter
  apply ext_get
  intro position
  exact (ended.outside position not_false).1

theorem ofBits_block {α : Type} (step : BitDecoder α) (state : BlockState) :
    (stateAfter (ofBits step state)).block = state.block := by
  unfold ofBits
  cases step state.reader with
  | ok value reader => rfl
  | error failure reader => rfl

theorem correctCoefficient_block (position : Fin 64) (low : Nat) (state : BlockState) :
    ∃ bit, (stateAfter (correctCoefficient position low state)).block =
      state.block.set position.val (corrected low bit (state.block.get position))
        position.isLt := by
  have kept : (stateAfter (bit state)).block = state.block := ofBits_block _ state
  unfold correctCoefficient
  cases read : bit state with
  | error failure between =>
      rw [read] at kept
      refine ⟨false, ?_⟩
      rw [run_bind_of_error read]
      exact kept.trans (set_get_self _ _).symm
  | ok correction between =>
      rw [read] at kept
      change between.block = state.block at kept
      refine ⟨correction, ?_⟩
      rw [run_bind_of_ok read, run_bind_of_ok (run_get _), ← kept]
      unfold corrected
      split
      · rfl
      · exact (set_get_self _ _).symm

def Once (positions : List (Option (Fin 64))) : Prop :=
  positions.Pairwise fun place later => place = later → place = none

theorem once_bandPositions (first last : Nat) : Once (bandPositions first last) := by
  unfold Once bandPositions
  have distinct : (List.range' first (last + 1 - first)).Nodup := List.nodup_range'
  rw [List.pairwise_map]
  apply distinct.imp
  intro frequency later different same
  by_contra placed
  apply different
  have inside : frequency < zigzag.length := by
    rw [← not_le, ← List.getElem?_eq_none_iff]
    exact placed
  exact (List.getElem?_inj inside zigzag_nodup).mp same

theorem leads_refinement (ac : HuffmanDecoder) (low : Nat) :
    Leads (Underway low original left) (Underway low original left) (refinement ac low) :=
  fun state underway => underway.of_block (refinement_block ac low state)

theorem leads_correctCoefficient (few : low ≤ 13) {position : Fin 64}
    (once : some position ∉ left) :
    Leads
      (fun state => Underway low original (some position :: left) state ∧
        state.block.get position ≠ 0)
      (Underway low original left) (correctCoefficient position low) := by
  rintro state ⟨underway, nonzero⟩
  obtain ⟨bit, written⟩ := correctCoefficient_block position low state
  exact underway.set once (refines_corrected few bit nonzero) written

/-- One position of a band: a coefficient is corrected, a zero passed, or a unit put there. -/
theorem refineCoefficients_step (few : low ≤ 13) {current : Refinement}
    (once : ∀ position, target = some position → some position ∉ rest)
    (onward : ∀ {pending : Option Refinement}, Refinement.Units low pending →
      Leads (Underway low original rest) (Underway low original [])
        (refineCoefficients ac low pending rest))
    (units : Refinement.Units low (some current)) :
    Leads (Underway low original (target :: rest)) (Underway low original [])
      (refineCoefficients ac low (some current) (target :: rest)) := by
  intro state underway
  cases target with
  | none =>
      unfold refineCoefficients
      exact underway.done
  | some position =>
      -- This coefficient is untouched, so whether it is zero is a fact about the original.
      by_cases zero : state.block.get position = 0
      · rw [refineCoefficients_of_eq rest zero]
        cases current with
        | endOfBand => exact onward units state underway.pass
        | zeros count value =>
            cases count with
            | succ count => exact onward units.of_pred state underway.pass
            | zero =>
                cases value with
                | none => exact onward Refinement.units_none state underway.pass
                | some coefficient =>
                    have unit : Refines low (state.block.get position) coefficient := by
                      rw [zero]
                      exact units _ _ rfl
                    exact onward Refinement.units_none _
                      (underway.set (once position rfl) unit rfl)
      · rw [refineCoefficients_of_ne rest zero]
        exact (leads_correctCoefficient few (once position rfl)).bind (fun _ => Underway.done)
          (fun _ _ _ _ => onward units) state ⟨underway, zero⟩

theorem refineCoefficients_underway (few : low ≤ 13) (ac : HuffmanDecoder) (original : Block)
    {positions : List (Option (Fin 64))} (once : Once positions) {pending : Option Refinement}
    (units : Refinement.Units low pending) :
    Leads (Underway low original positions) (Underway low original [])
      (refineCoefficients ac low pending positions) := by
  -- The symbols are read between positions, so the induction is on the positions alone.
  induction positions generalizing pending with
  | nil =>
      intro state underway
      unfold refineCoefficients
      exact underway
  | cons target rest inductionHypothesis =>
      obtain ⟨notAgain, onceLater⟩ := List.pairwise_cons.mp once
      have onceHere : ∀ position, target = some position → some position ∉ rest := by
        rintro position rfl again
        cases notAgain _ again rfl
      have walk : ∀ {current : Refinement}, Refinement.Units low (some current) →
          Leads (Underway low original (target :: rest)) (Underway low original [])
            (refineCoefficients ac low (some current) (target :: rest)) :=
        refineCoefficients_step few onceHere (inductionHypothesis onceLater)
      cases pending with
      | some current => exact walk units
      | none =>
          rw [refineCoefficients_asks]
          exact (leads_refinement ac low).bind (fun _ => Underway.done)
            fun _ _ _ read => walk (refinement_units few read)

theorem refineBand_refines (few : low ≤ 13) (ac : HuffmanDecoder) (first last : Nat)
    (state : BlockState) (position : Fin 64) :
    Refines low (state.block.get position)
      ((stateAfter (refineBand ac low (bandPositions first last) state)).block.get position) := by
  have units : Refinement.Units low
      (if 0 < state.endOfBandRun then some .endOfBand else none) := by
    intro count coefficient told
    split at told <;> cases told
  have walked := refineCoefficients_underway few ac state.block (once_bandPositions first last)
    units
  have counted : Leads (Underway low state.block []) (Underway low state.block [])
      (modify fun between => { between with endOfBandRun := between.endOfBandRun - 1 } :
        BlockDecoder Unit) :=
    fun _ underway => underway.of_block rfl
  exact (walked.bind (fun _ => id) (fun _ _ _ _ => counted) state
    (Underway.start low _ state)).refined position

theorem refineDc_sets (few : low ≤ 13) (state : BlockState) :
    SetsBit low (state.block.get 0) ((stateAfter (refineDc low state)).block.get 0) := by
  have kept : (stateAfter (bit state)).block = state.block := ofBits_block _ state
  unfold refineDc
  cases read : bit state with
  | error failure between =>
      rw [read] at kept
      rw [run_bind_of_error read]
      exact Or.inl (congrArg (·.get 0) kept)
  | ok set between =>
      rw [read] at kept
      change between.block = state.block at kept
      rw [run_bind_of_ok read, ← kept]
      cases set with
      | false => exact Or.inl rfl
      | true =>
          change SetsBit low _ ((between.block.set (0 : Fin 64).val
            (between.block.get 0 ||| bitValue low) (0 : Fin 64).isLt).get 0)
          rw [get_set, if_pos rfl]
          exact setsBit_or few _

end BlockDecoder

/-! ### Scans -/

namespace ScanDecoder

variable {frame : Frame} {parts : Array CodedComponent} {layout : ScanLayout} {interval : Nat}

theorem stateAfter_decodeBlock {address : BlockAddress} {part : CodedComponent}
    (there : parts[address.component]? = some part) (state : ScanState) :
    stateAfter (decodeBlock parts address state) =
      store state part address
        (stateAfter (part.coding.decode (blockState state part address))) := by
  unfold decodeBlock
  rw [there]
  dsimp only
  cases part.coding.decode (blockState state part address) with
  | ok value block => rfl
  | error failure block => rfl

theorem stateAfter_beginUnit (interval unit : Nat) (state : ScanState) :
    (stateAfter (beginUnit interval unit state)).grids = state.grids := by
  unfold beginUnit
  split
  · cases BitReader.takeRestart state.reader with
    | ok number reader => rfl
    | error failure reader => rfl
  · rfl

theorem blockAt_store {state : ScanState} (fits : frame.Fits state.grids) {part : CodedComponent}
    {address other : BlockAddress} (placed : (placeOf part address).Inside frame)
    (otherInside : other.Inside frame) (block : BlockState) :
    blockAt (store state part address block).grids other =
      if other = placeOf part address then block.block else blockAt state.grids other :=
  fits.blockAt_modify placed otherInside block.block

/-- A property that depends on the blocks left, and on nothing that a restart changes. -/
structure Walks (parts : Array CodedComponent) (layout : ScanLayout) (interval : Nat)
    (holds : List BlockAddress → ScanState → Prop) : Prop where
  pass : ∀ address left state, holds (address :: left) state → holds left state
  begins : ∀ left unit, Leads (holds left) (holds left) (beginUnit interval unit)
  each : ∀ address left, address :: left <:+ layout.order →
    Leads (holds (address :: left)) (holds left) (decodeBlock parts address)

namespace Walks

variable {holds : List BlockAddress → ScanState → Prop}

theorem passAll (walks : Walks parts layout interval holds) {front left : List BlockAddress}
    {state : ScanState} (here : holds (front ++ left) state) : holds left state := by
  induction front with
  | nil => exact here
  | cons address rest inductionHypothesis =>
      exact inductionHypothesis (walks.pass address _ state here)

theorem decodeBlocks (walks : Walks parts layout interval holds)
    {addresses left : List BlockAddress} (suffix : addresses ++ left <:+ layout.order) :
    Leads (holds (addresses ++ left)) (holds left) (addresses.forM (decodeBlock parts)) := by
  induction addresses with
  | nil => exact fun state here => here
  | cons address rest inductionHypothesis =>
      have first := walks.each address (rest ++ left) suffix
      have later := inductionHypothesis ((List.suffix_cons address _).trans suffix)
      exact first.bind (fun _ here => walks.passAll here) fun _ _ _ _ => later

theorem decodeUnits (walks : Walks parts layout interval holds) {remaining unit : Nat}
    (suffix : (List.range' unit remaining).flatMap layout.blocks <:+ layout.order) :
    Leads (holds ((List.range' unit remaining).flatMap layout.blocks)) (holds [])
      (decodeUnits parts layout interval remaining unit) := by
  induction remaining generalizing unit with
  | zero => exact fun state here => here
  | succ remaining inductionHypothesis =>
      rw [List.range'_succ, List.flatMap_cons] at suffix ⊢
      have later := inductionHypothesis ((List.suffix_append _ _).trans suffix)
      have last : ∀ front state, holds front state → holds [] state := by
        intro front state here
        rw [← List.append_nil front] at here
        exact walks.passAll here
      have here : Leads
          (holds (layout.blocks unit ++ (List.range' (unit + 1) remaining).flatMap layout.blocks))
          (holds ((List.range' (unit + 1) remaining).flatMap layout.blocks))
          (decodeUnit parts layout interval unit) :=
        (walks.begins _ unit).bind (fun _ => walks.passAll) fun _ _ _ _ => walks.decodeBlocks suffix
      exact here.bind (last _) fun _ _ _ _ => later

theorem decodeAll (walks : Walks parts layout interval holds) :
    Leads (holds layout.order) (holds [])
      (ScanDecoder.decodeUnits parts layout interval layout.units 0) := by
  have order : layout.order = (List.range' 0 layout.units).flatMap layout.blocks := by
    rw [← List.range_eq_range']
    rfl
  rw [order]
  exact walks.decodeUnits (order ▸ List.suffix_refl _)

end Walks

theorem placeOf_sole_nodup (frame : Frame) (part : CodedComponent) :
    ((ScanLayout.ofComponents frame [part.component]).order.map (placeOf part)).Nodup := by
  apply (ScanLayout.order_raster_nodup _ _).map_on
  intro address member other otherMember same
  have first := (ScanLayout.mem_order_raster.mp member).1
  have otherFirst := (ScanLayout.mem_order_raster.mp otherMember).1
  have rows := congrArg BlockAddress.row same
  have columns := congrArg BlockAddress.column same
  cases address
  cases other
  cases first
  cases otherFirst
  cases rows
  cases columns
  rfl

structure Underway (frame : Frame) (low : Nat) (original : Array Grid) (part : CodedComponent)
    (left : List BlockAddress) (state : ScanState) : Prop where
  fits : frame.Fits state.grids
  refined : ∀ address : BlockAddress, address.Inside frame → ∀ position,
    Refines low ((blockAt original address).get position)
      ((blockAt state.grids address).get position)
  untouched : ∀ address ∈ left,
    blockAt state.grids (placeOf part address) = blockAt original (placeOf part address)

theorem Underway.store {low : Nat} {original : Array Grid} {part : CodedComponent}
    {address : BlockAddress} {left : List BlockAddress} {state : ScanState}
    (here : Underway frame low original part (address :: left) state)
    (inside : ∀ other ∈ address :: left, (placeOf part other).Inside frame)
    (once : placeOf part address ∉ left.map (placeOf part)) {block : BlockState}
    (refines : ∀ position, Refines low ((blockAt state.grids (placeOf part address)).get position)
      (block.block.get position)) :
    Underway frame low original part left (ScanDecoder.store state part address block) where
  fits := here.fits.modify _ _ _ _
  refined := by
    intro other otherInside position
    rw [blockAt_store here.fits (inside address List.mem_cons_self) otherInside]
    split
    · rename_i same
      rw [same, ← here.untouched address List.mem_cons_self]
      exact refines position
    · exact here.refined other otherInside position
  untouched := by
    intro other member
    have listed := List.mem_cons_of_mem address member
    have different : placeOf part other ≠ placeOf part address :=
      fun same => once (same ▸ List.mem_map_of_mem member)
    rw [blockAt_store here.fits (inside address List.mem_cons_self) (inside other listed),
      if_neg different]
    exact here.untouched other listed

theorem walks_acRefinement {low : Nat} (few : low ≤ 13) {part : CodedComponent}
    {ac : HuffmanDecoder} {first last : Nat}
    (coding : part.coding = .acRefinement ac (bandPositions first last) low)
    (original : Array Grid)
    (placed : ∀ address ∈ layout.order,
      parts[address.component]? = some part ∧ (placeOf part address).Inside frame)
    (distinct : (layout.order.map (placeOf part)).Nodup) :
    Walks parts layout interval (Underway frame low original part) where
  pass address left state here :=
    { here with
      untouched := fun other member => here.untouched other (List.mem_cons_of_mem _ member) }
  begins left unit := by
    intro state here
    have kept := stateAfter_beginUnit interval unit state
    exact
      { fits := kept ▸ here.fits
        refined := kept ▸ here.refined
        untouched := kept ▸ here.untouched }
  each address left suffix := by
    intro state here
    have there := (placed address (suffix.subset List.mem_cons_self)).1
    have once := distinct.sublist (suffix.sublist.map (placeOf part))
    rw [List.map_cons, List.nodup_cons] at once
    rw [stateAfter_decodeBlock there]
    apply here.store (fun other member => (placed other (suffix.subset member)).2) once.1
    rw [coding]
    exact BlockDecoder.refineBand_refines few ac first last (blockState state part address)

/-- DC coefficients on the way. A component may be named more than once. -/
structure DcUnderway (frame : Frame) (low : Nat) (original : Array Grid)
    (state : ScanState) : Prop where
  fits : frame.Fits state.grids
  sets : ∀ address : BlockAddress, address.Inside frame →
    SetsBit low ((blockAt original address).get 0) ((blockAt state.grids address).get 0)

theorem walks_dcRefinement {low : Nat} (few : low ≤ 13) (original : Array Grid)
    (placed : ∀ address ∈ layout.order, ∃ part, parts[address.component]? = some part ∧
      part.coding = .dcRefinement low ∧ (placeOf part address).Inside frame) :
    Walks parts layout interval (fun _ => DcUnderway frame low original) where
  pass address left state here := here
  begins left unit := by
    intro state here
    have kept := stateAfter_beginUnit interval unit state
    exact
      { fits := kept ▸ here.fits
        sets := kept ▸ here.sets }
  each address left suffix := by
    intro state here
    obtain ⟨part, there, coding, inside⟩ := placed address (suffix.subset List.mem_cons_self)
    have sets : SetsBit low ((blockAt state.grids (placeOf part address)).get 0)
        ((stateAfter (part.coding.decode (blockState state part address))).block.get 0) := by
      rw [coding]
      exact BlockDecoder.refineDc_sets few (blockState state part address)
    rw [stateAfter_decodeBlock there]
    generalize stateAfter (part.coding.decode (blockState state part address)) = block at sets ⊢
    exact
      { fits := here.fits.modify _ _ _ _
        sets := by
          intro other otherInside
          rw [blockAt_store here.fits inside otherInside]
          split
          · rename_i same
            exact (here.sets other otherInside).trans (same ▸ sets)
          · exact here.sets other otherInside }

end ScanDecoder

namespace Scan

variable {frame : Frame} {scan : Scan} {slots : HuffmanSlots} {grids : Array Grid}

/-- What holds behind every walk over the blocks of a scan holds of the grids that its decoding
leaves, and they fit. -/
theorem stateAfter_decode (fits : frame.Fits grids) (interval : Nat) (bytes : List UInt8)
    (holds : Array Grid → Prop) (unchanged : holds grids)
    (walked : ∀ parts,
      scan.codedComponents frame slots frame.components.length = .ok parts →
      Leads (fun state => state.grids = grids) (fun state => holds state.grids)
        (ScanDecoder.decodeUnits parts.toArray
          (ScanLayout.ofComponents frame (parts.map (·.component))) interval
          (ScanLayout.ofComponents frame (parts.map (·.component))).units 0)) :
    holds (stateAfter (scan.decode frame slots interval bytes grids)) := by
  unfold decode
  rw [fits.size]
  cases coded : scan.codedComponents frame slots frame.components.length with
  | error failure => exact unchanged
  | ok parts =>
      have ended := walked parts coded
        { reader := BitReader.ofBytes bytes
          predictors := Array.replicate parts.length 0
          endOfBandRun := 0
          grids := grids } rfl
      dsimp only
      generalize ScanDecoder.decodeUnits parts.toArray _ interval _ 0 _ = result at ended ⊢
      cases result with
      | ok value state => exact ended
      | error failure state => exact ended

private theorem decode_acRefines (fits : frame.Fits grids) (few : scan.band.low ≤ 13)
    (isKind : scan.kind frame = .ok .acRefinement) (interval : Nat) (bytes : List UInt8) :
    ∀ address : BlockAddress, address.Inside frame → ∀ position,
      Refines scan.band.low ((blockAt grids address).get position)
        ((blockAt (stateAfter (scan.decode frame slots interval bytes grids)) address).get
          position) := by
  apply stateAfter_decode fits interval bytes fun after =>
    ∀ address : BlockAddress, address.Inside frame → ∀ position,
      Refines scan.band.low ((blockAt grids address).get position)
        ((blockAt after address).get position)
  · exact fun address _ position => Refines.refl _ _
  · intro parts coded
    obtain ⟨kind, sameKind, length, each⟩ := codedComponents_eq_ok coded
    cases isKind.symm.trans sameKind
    -- AC coefficients are refined for one component at a time.
    obtain ⟨part, rfl⟩ := List.length_eq_one_iff.mp (length.trans (band_of_kind isKind))
    obtain ⟨component, -, -, -, -, built⟩ := each part List.mem_cons_self
    obtain ⟨ac, -, coding⟩ := bind_eq_ok built
    have first : ∀ address ∈ (ScanLayout.ofComponents frame [part.component]).order,
        address.component = 0 := fun _ member => (ScanLayout.mem_order_raster.mp member).1
    have placed : ∀ address ∈ (ScanLayout.ofComponents frame [part.component]).order,
        #[part][address.component]? = some part ∧
          (ScanDecoder.placeOf part address).Inside frame := by
      intro address member
      obtain ⟨owner, place, -, inside⟩ := placed_of_coded coded member
      rw [first address member] at place ⊢
      cases place
      exact ⟨rfl, inside⟩
    have walks : ScanDecoder.Walks #[part] (ScanLayout.ofComponents frame [part.component])
        interval (ScanDecoder.Underway frame scan.band.low grids part) :=
      ScanDecoder.walks_acRefinement few (Except.ok.inj coding).symm grids placed
        (ScanDecoder.placeOf_sole_nodup frame part)
    -- Before the first block nothing is refined, and everything is as it was.
    intro state same
    exact (walks.decodeAll state
      { fits := same ▸ fits
        refined := fun address _ position => same ▸ Refines.refl _ _
        untouched := fun address _ => same ▸ rfl }).refined

private theorem decode_dcSets (fits : frame.Fits grids) (few : scan.band.low ≤ 13)
    (isKind : scan.kind frame = .ok .dcRefinement) (interval : Nat) (bytes : List UInt8) :
    ∀ address : BlockAddress, address.Inside frame →
      SetsBit scan.band.low ((blockAt grids address).get 0)
        ((blockAt (stateAfter (scan.decode frame slots interval bytes grids)) address).get 0) := by
  apply stateAfter_decode fits interval bytes fun after =>
    ∀ address : BlockAddress, address.Inside frame →
      SetsBit scan.band.low ((blockAt grids address).get 0) ((blockAt after address).get 0)
  · exact fun address _ => Or.inl rfl
  · intro parts coded
    obtain ⟨kind, sameKind, -, each⟩ := codedComponents_eq_ok coded
    cases isKind.symm.trans sameKind
    have placed : ∀ address ∈
        (ScanLayout.ofComponents frame (parts.map (·.component))).order,
        ∃ part, parts.toArray[address.component]? = some part ∧
          part.coding = .dcRefinement scan.band.low ∧
          (ScanDecoder.placeOf part address).Inside frame := by
      intro address member
      obtain ⟨part, place, -, inside⟩ := placed_of_coded coded member
      obtain ⟨component, -, -, -, -, built⟩ := each part (List.mem_of_getElem? place)
      rw [← List.getElem?_toArray] at place
      exact ⟨part, place, (Except.ok.inj built).symm, inside⟩
    have walks : ScanDecoder.Walks parts.toArray
        (ScanLayout.ofComponents frame (parts.map (·.component))) interval
        (fun _ => ScanDecoder.DcUnderway frame scan.band.low grids) :=
      ScanDecoder.walks_dcRefinement few grids placed
    intro state same
    exact (walks.decodeAll state
      { fits := same ▸ fits
        sets := fun address _ => same ▸ Or.inl rfl }).sets

/-- Scans of one more bit refine coefficients and do nothing else to them, whatever the
coefficients and the data are, and whether decoding succeeds or fails. -/
theorem decode_refines (fits : frame.Fits grids) (few : scan.band.low ≤ 13)
    (slots : HuffmanSlots) (interval : Nat) (bytes : List UInt8) :
    (scan.kind frame = .ok .acRefinement →
      ∀ address : BlockAddress, address.Inside frame → ∀ position,
        Refines scan.band.low ((blockAt grids address).get position)
          ((blockAt (stateAfter (scan.decode frame slots interval bytes grids)) address).get
            position)) ∧
      (scan.kind frame = .ok .dcRefinement →
        ∀ address : BlockAddress, address.Inside frame →
          SetsBit scan.band.low ((blockAt grids address).get 0)
            ((blockAt (stateAfter (scan.decode frame slots interval bytes grids)) address).get
              0)) :=
  ⟨fun isKind => decode_acRefines fits few isKind interval bytes,
    fun isKind => decode_dcSets fits few isKind interval bytes⟩

end Scan

private def limitFrame : Frame :=
  { width := 16
    height := 9
    components := [{ id := 5, across := 1, down := 1, quantizer := 0 }]
    progressive := true
    width_ne_zero := by decide
    height_ne_zero := by decide
    components_ne_nil := by decide
    components_length := by decide
    admissible := by decide }

private def limitSlots : HuffmanSlots :=
  HuffmanSlots.empty.install
    { tableClass := 1
      id := 0
      counts := #v[0, 0, 0, 0, 0, 0, 0, 2, 0, 0, 0, 0, 0, 0, 0, 0]
      symbols := [0x01, 0x20] }

private def limitScan (first last : Nat) : Scan :=
  { components := [{ index := 0, dcTable := 0, acTable := 0 }]
    band := { first := first, last := last, high := 2, low := 1 } }

/-- Coefficients at the ends of the range. -/
private def limitGrid : Grid :=
  { blocksWide := 2
    blocksTall := 2
    blocks :=
      #[Block.zero.setIfInBounds 1 (-32768),
        (Block.zero.setIfInBounds 0 5).setIfInBounds 1 32765,
        Block.zero.setIfInBounds 0 (-1), Block.zero.setIfInBounds 0 (-32768)]
    blocks_size := rfl }

private def limitBand : Grid :=
  { limitGrid with
    blocks :=
      #[(Block.zero.setIfInBounds 1 (-32768)).setIfInBounds 8 2,
        (Block.zero.setIfInBounds 0 5).setIfInBounds 1 32767,
        Block.zero.setIfInBounds 0 (-1), Block.zero.setIfInBounds 0 (-32768)]
    blocks_size := rfl }

private def limitDc : Grid :=
  { limitGrid with
    blocks :=
      #[(Block.zero.setIfInBounds 0 2).setIfInBounds 1 (-32768),
        (Block.zero.setIfInBounds 0 5).setIfInBounds 1 32765,
        Block.zero.setIfInBounds 0 (-1), Block.zero.setIfInBounds 0 (-32766)]
    blocks_size := rfl }

theorem Scan.decode_refines_limits :
    (∀ address : BlockAddress, address.Inside limitFrame → ∀ position,
      Refines 1 ((blockAt #[limitGrid] address).get position)
        ((blockAt #[limitBand] address).get position)) ∧
      ∀ address : BlockAddress, address.Inside limitFrame →
        SetsBit 1 ((blockAt #[limitGrid] address).get 0) ((blockAt #[limitDc] address).get 0) := by
  have fits : limitFrame.Fits #[limitGrid] :=
    { size := rfl
      grid := by
        intro index component grid found there
        match index with
        | 0 =>
            cases found
            cases there
            exact ⟨rfl, rfl⟩
        | index + 1 => cases found }
  have band : stateAfter ((limitScan 1 5).decode limitFrame limitSlots 0
      [0x00, 0xC0, 0x4F, 0xFF, 0xD9] #[limitGrid]) = #[limitBand] := by
    decide +kernel
  have dc : stateAfter ((limitScan 0 0).decode limitFrame limitSlots 0 [0xBF, 0xFF, 0xD9]
      #[limitGrid]) = #[limitDc] := by
    decide +kernel
  constructor
  · rw [← band]
    exact (Scan.decode_refines fits (by decide : (limitScan 1 5).band.low ≤ 13) limitSlots 0
      [0x00, 0xC0, 0x4F, 0xFF, 0xD9]).1 rfl
  · rw [← dc]
    exact (Scan.decode_refines fits (by decide : (limitScan 0 0).band.low ≤ 13) limitSlots 0
      [0xBF, 0xFF, 0xD9]).2 rfl

end LosslessJpeg
