import LosslessJpeg.Proofs.Scan.BlockDecoding
import LosslessJpeg.Proofs.Scan.Grids

set_option autoImplicit false

/-!
The tokens of a whole scan as one list over its blocks in coding order, and which grids such
a scan can carry without loss.
-/

namespace LosslessJpeg

open BlockDecoder (RepresentableAfter)

def advance (grids : Array Grid) (predictors : Array Int) (address : BlockAddress) :
    Array Int :=
  predictors.setIfInBounds address.component ((blockAt grids address).get 0).toInt

@[simp]
theorem advance_size (grids : Array Grid) (predictors : Array Int) (address : BlockAddress) :
    (advance grids predictors address).size = predictors.size :=
  Array.size_setIfInBounds

theorem advance_getD {grids : Array Grid} {predictors : Array Int} {address : BlockAddress}
    (inside : address.component < predictors.size) (component : Nat) :
    (advance grids predictors address).getD component 0 =
      if component = address.component then ((blockAt grids address).get 0).toInt
      else predictors.getD component 0 := by
  unfold advance
  rw [Array.getD_eq_getD_getElem?, Array.getD_eq_getD_getElem?]
  by_cases same : component = address.component
  · rw [if_pos same, same, Array.getElem?_setIfInBounds_self_of_lt inside, Option.getD_some]
  · rw [if_neg same, Array.getElem?_setIfInBounds_ne fun equal => same equal.symm]

def tokensAlong (grids : Array Grid) (tables : List (Fin 4)) :
    Array Int → List BlockAddress → List Token
  | _, [] => []
  | predictors, address :: rest =>
      Token.blockTokens (tables.getD address.component 0)
          (predictors.getD address.component 0) (blockAt grids address) ++
        tokensAlong grids tables (advance grids predictors address) rest

section Collecting

variable {frame : Frame} {grids : Array Grid} {tables : List (Fin 4)}

private theorem addBlock_inside {address : BlockAddress}
    (gridInside : address.component < grids.size)
    (tableInside : address.component < tables.length) (state : TokenState) :
    state.addBlock grids tables address =
      { predictors := advance grids state.predictors address
        tokens := state.tokens ++ Token.blockTokens (tables.getD address.component 0)
          (state.predictors.getD address.component 0) (blockAt grids address) } := by
  unfold TokenState.addBlock advance blockAt
  rw [List.getD_eq_getElem?_getD, Array.getElem?_eq_getElem gridInside,
    List.getElem?_eq_getElem tableInside]
  rfl

private theorem addBlocks_tokens {addresses : List BlockAddress}
    (inside : ∀ address ∈ addresses,
      address.component < grids.size ∧ address.component < tables.length)
    (state : TokenState) :
    (addresses.foldl (TokenState.addBlock grids tables) state).tokens.toList =
      state.tokens.toList ++ tokensAlong grids tables state.predictors addresses := by
  induction addresses generalizing state with
  | nil =>
      rw [tokensAlong, List.foldl_nil, List.append_nil]
  | cons address rest inductionHypothesis =>
      obtain ⟨gridInside, tableInside⟩ := inside address List.mem_cons_self
      rw [List.foldl_cons, addBlock_inside gridInside tableInside,
        inductionHypothesis fun other member => inside other (List.mem_cons_of_mem _ member),
        tokensAlong, ← List.append_assoc]
      dsimp only
      rw [Array.toList_appendList]

private theorem addUnits_eq_foldl (layout : ScanLayout) (remaining unit : Nat)
    (state : TokenState) :
    TokenState.addUnits grids tables layout remaining unit state =
      ((List.range' unit remaining).flatMap layout.blocks).foldl
        (TokenState.addBlock grids tables) state := by
  induction remaining generalizing unit state with
  | zero => rfl
  | succ remaining inductionHypothesis =>
      rw [TokenState.addUnits, inductionHypothesis, List.range'_succ, List.flatMap_cons,
        List.foldl_append, TokenState.addUnit]

theorem addUnits_tokens {layout : ScanLayout} {first count : Nat}
    (inside : ∀ address ∈ (List.range' first count).flatMap layout.blocks,
      address.component < grids.size ∧ address.component < tables.length)
    (state : TokenState) :
    (TokenState.addUnits grids tables layout count first state).tokens.toList =
      state.tokens.toList ++ tokensAlong grids tables state.predictors
        ((List.range' first count).flatMap layout.blocks) := by
  rw [addUnits_eq_foldl, addBlocks_tokens inside]

theorem checkGrids_eq_ok (passed : checkGrids frame grids tables = .ok ()) :
    grids.size = frame.components.length ∧ tables.length = grids.size := by
  unfold checkGrids at passed
  split at passed
  · cases passed
  · omega

theorem checkGrids_of_fits (fits : frame.Fits grids)
    (tabled : tables.length = grids.size) : checkGrids frame grids tables = .ok () := by
  unfold checkGrids
  rw [if_neg (by rw [fits.size]; have := fits.size; omega), if_neg]
  intro tooSmall
  obtain ⟨⟨grid, component⟩, member, small⟩ := List.any_eq_true.mp tooSmall
  obtain ⟨index, found⟩ := List.mem_iff_getElem?.mp member
  obtain ⟨there, named⟩ := List.getElem?_zip_eq_some.mp found
  rw [Array.getElem?_toList] at there
  obtain ⟨wide, tall⟩ := fits.grid index component grid named there
  simp only [Bool.or_eq_true, decide_eq_true_eq] at small
  omega

theorem scanTokens_eq_ok {tokens : Array Token}
    (done : scanTokens frame grids tables = .ok tokens) :
    tokens.toList = tokensAlong grids tables (Array.replicate grids.size 0)
      (ScanLayout.interleaved frame frame.components).order := by
  obtain ⟨_, checked, rest⟩ := bind_eq_ok done
  obtain ⟨size, tabled⟩ := checkGrids_eq_ok checked
  cases rest
  rw [addUnits_tokens, ← List.range_eq_range']
  · rfl
  intro address member
  rw [← List.range_eq_range'] at member
  obtain ⟨component, found, -⟩ := ScanLayout.mem_order_interleaved.mp member
  have inside := (List.getElem?_eq_some_iff.mp found).1
  omega

theorem scanTokens_of_fits (fits : frame.Fits grids) (tabled : tables.length = grids.size) :
    ∃ tokens, scanTokens frame grids tables = .ok tokens :=
  ⟨_, bind_of_ok (checkGrids_of_fits fits tabled)⟩

end Collecting

/-- The blocks at these addresses are representable, each after those before it. -/
def RepresentableAlong (grids : Array Grid) : Array Int → List BlockAddress → Prop
  | _, [] => True
  | predictors, address :: rest =>
      RepresentableAfter (predictors.getD address.component 0) (blockAt grids address) ∧
        RepresentableAlong grids (advance grids predictors address) rest

instance decidableRepresentableAlong (grids : Array Grid) :
    ∀ (predictors : Array Int) (addresses : List BlockAddress),
      Decidable (RepresentableAlong grids predictors addresses)
  | _, [] => .isTrue trivial
  | predictors, address :: rest =>
      have := decidableRepresentableAlong grids (advance grids predictors address) rest
      inferInstanceAs (Decidable (_ ∧ _))

def dcSequence (frame : Frame) (grids : Array Grid) (component : Nat) : List Int :=
  ((ScanLayout.interleaved frame frame.components).order.filter
    (·.component = component)).map fun address => ((blockAt grids address).get 0).toInt

/-- No DC coefficient differs from the one before it in its component by more than fifteen
bits hold, and no AC coefficient has more than fifteen bits. -/
def Representable (frame : Frame) (grids : Array Grid) : Prop :=
  (∀ component < frame.components.length,
    (0 :: dcSequence frame grids component).IsChain fun before value =>
      (value - before).natAbs ≤ 32767) ∧
    ∀ grid ∈ grids, ∀ block ∈ grid.blocks, ∀ position : Fin 64, position ≠ 0 →
      block.get position ≠ -32768

instance (frame : Frame) (grids : Array Grid) : Decidable (Representable frame grids) :=
  inferInstanceAs (Decidable (_ ∧ _))

section Differences

variable {grids : Array Grid} {predictors : Array Int} {address : BlockAddress}
  {rest : List BlockAddress}

private def Close (grids : Array Grid) (predictor : Int) (addresses : List BlockAddress)
    (component : Nat) : Prop :=
  (predictor :: (addresses.filter (·.component = component)).map fun address =>
    ((blockAt grids address).get 0).toInt).IsChain fun before value =>
      (value - before).natAbs ≤ 32767

private theorem close_cons_self (predictor : Int) :
    Close grids predictor (address :: rest) address.component ↔
      (((blockAt grids address).get 0).toInt - predictor).natAbs ≤ 32767 ∧
        Close grids ((blockAt grids address).get 0).toInt rest address.component := by
  unfold Close
  rw [List.filter_cons_of_pos (by simp), List.map_cons, List.isChain_cons_cons]

private theorem close_cons_of_ne {component : Nat} (different : component ≠ address.component)
    (predictor : Int) :
    Close grids predictor (address :: rest) component ↔
      Close grids predictor rest component := by
  unfold Close
  rw [List.filter_cons_of_neg (by simpa using Ne.symm different)]

private theorem close_cons (inside : address.component < predictors.size) :
    (∀ component < predictors.size,
      Close grids (predictors.getD component 0) (address :: rest) component) ↔
      (((blockAt grids address).get 0).toInt -
          predictors.getD address.component 0).natAbs ≤ 32767 ∧
        ∀ component < predictors.size,
          Close grids ((advance grids predictors address).getD component 0) rest component := by
  constructor
  · intro close
    obtain ⟨here, later⟩ := (close_cons_self _).mp (close address.component inside)
    refine ⟨here, fun component bound => ?_⟩
    rw [advance_getD inside]
    by_cases same : component = address.component
    · rw [if_pos same, same]
      exact later
    · rw [if_neg same]
      exact (close_cons_of_ne same _).mp (close component bound)
  · rintro ⟨here, later⟩ component bound
    have close := later component bound
    rw [advance_getD inside] at close
    by_cases same : component = address.component
    · rw [if_pos same] at close
      rw [same] at close ⊢
      exact (close_cons_self _).mpr ⟨here, close⟩
    · rw [if_neg same] at close
      exact (close_cons_of_ne same _).mpr close

private theorem representableAlong_iff {addresses : List BlockAddress}
    (inside : ∀ address ∈ addresses, address.component < predictors.size) :
    RepresentableAlong grids predictors addresses ↔
      (∀ component < predictors.size,
        Close grids (predictors.getD component 0) addresses component) ∧
        ∀ address ∈ addresses, ∀ position : Fin 64, position ≠ 0 →
          (blockAt grids address).get position ≠ -32768 := by
  induction addresses generalizing predictors with
  | nil =>
      simp [RepresentableAlong, Close]
  | cons address rest inductionHypothesis =>
      have later : ∀ other ∈ rest,
          other.component < (advance grids predictors address).size := by
        intro other member
        rw [advance_size]
        exact inside other (List.mem_cons_of_mem _ member)
      rw [RepresentableAlong, inductionHypothesis later, advance_size, RepresentableAfter,
        close_cons (inside address List.mem_cons_self), List.forall_mem_cons]
      exact ⟨fun ⟨⟨difference, here⟩, differences, others⟩ =>
          ⟨⟨difference, differences⟩, here, others⟩,
        fun ⟨⟨difference, differences⟩, here, others⟩ =>
          ⟨⟨difference, here⟩, differences, others⟩⟩

/-- What a scan can carry, said of its blocks one after the other. -/
theorem representable_iff {frame : Frame} (fits : frame.Fits grids) :
    Representable frame grids ↔
      RepresentableAlong grids (Array.replicate grids.size 0)
        (ScanLayout.interleaved frame frame.components).order := by
  have inside : ∀ address ∈ (ScanLayout.interleaved frame frame.components).order,
      address.component < (Array.replicate grids.size (0 : Int)).size := by
    intro address member
    obtain ⟨component, found, -⟩ := ScanLayout.mem_order_interleaved.mp member
    rw [Array.size_replicate, fits.size]
    exact (List.getElem?_eq_some_iff.mp found).1
  rw [representableAlong_iff inside, Representable, Array.size_replicate, fits.size]
  refine and_congr ?_ ?_
  · refine forall_congr' fun component => forall_congr' fun bound => ?_
    rw [Array.getD_eq_getD_getElem?, Array.getElem?_replicate, if_pos bound]
    rfl
  · rw [fits.forall_block]
    apply forall_congr'
    intro address
    rw [ScanLayout.mem_order_interleaved]

end Differences

end LosslessJpeg
