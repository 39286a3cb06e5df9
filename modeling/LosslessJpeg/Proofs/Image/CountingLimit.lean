import LosslessJpeg.Proofs.Checked.SymbolCounting
import LosslessJpeg.Proofs.Image.WrittenTables

set_option autoImplicit false

/-!
How many blocks counters of 32 bits are enough for. All components after the first share their
tables, and each of their blocks may have the same symbol 63 times. The counts of every image
with a frame are exact if and only if these components have few enough blocks together.
-/

namespace LosslessJpeg

open SymbolCounts (Same)

theorem Token.occurrences_le_countP (token : Token) (tokens : List Token) :
    token.occurrences tokens ≤ tokens.countP fun other =>
      other.coefficients = token.coefficients ∧ other.table = token.table := by
  apply List.countP_mono_left
  intro other _ same
  obtain ⟨sameClass, sameTable, -⟩ := of_decide_eq_true same
  exact decide_eq_true ⟨sameClass, sameTable⟩

theorem JpegImage.occurrences_lt {image : JpegImage} {tokens : Array Token}
    (collected : scanTokens image.frame image.grids image.tableIds = .ok tokens)
    (few : image.frame.laterBlocks ≤ countedBlocks) (token : Token) :
    token.occurrences tokens.toList < 2 ^ 32 := by
  obtain ⟨_, checked, -⟩ := bind_eq_ok collected
  refine Nat.lt_of_le_of_lt (token.occurrences_le_countP _) ?_
  rw [scanTokens_eq_ok collected]
  exact Nat.lt_of_le_of_lt (tokensAlong_countP _ _ _ _ _ _)
    (image.countP_tableIds_lt (checkGrids_eq_ok checked).1 few token.table)

namespace Frame

variable (frame : Frame) (content : Block)

def uniformGrids : Array Grid :=
  (frame.components.map fun component =>
    Grid.ofFn (frame.blocksWide component) (frame.blocksTall component)
      fun _ _ => content).toArray

theorem fits_uniformGrids : frame.Fits (frame.uniformGrids content) where
  size := by
    unfold uniformGrids
    rw [List.size_toArray, List.length_map]
  grid := by
    intro index component grid found there
    unfold uniformGrids at there
    rw [List.getElem?_toArray, List.getElem?_map, found] at there
    cases there
    exact ⟨rfl, rfl⟩

theorem blockAt_uniformGrids {address : BlockAddress} (inside : address.Inside frame) :
    blockAt (frame.uniformGrids content) address = content := by
  obtain ⟨component, found, row, column⟩ := inside
  unfold blockAt uniformGrids
  rw [List.getElem?_toArray, List.getElem?_map, found]
  exact Grid.block_ofFn row column _

end Frame

private theorem occurrences_blockTokens {token : Token} (ac : token.coefficients = .ac)
    (table : Fin 4) (predictor : Int) (block : Block) :
    token.occurrences (Token.blockTokens table predictor block) =
      if table = token.table then
        token.occurrences (Token.acTokens token.table block 0 acPositions)
      else
        0 := by
  by_cases same : table = token.table
  · have apart : ¬ Same (Token.dc table ((block.get 0).toInt - predictor)) token := by
      rintro ⟨sameClass, -⟩
      rw [ac] at sameClass
      cases sameClass
    rw [if_pos same, Token.occurrences, Token.blockTokens, List.countP_cons,
      if_neg (by simpa using apart), same]
    rfl
  · rw [if_neg same]
    apply List.countP_eq_zero.mpr
    intro other member counted
    have sameTable := (of_decide_eq_true counted).2.1
    rw [Token.blockTokens_table member] at sameTable
    exact same sameTable

private theorem occurrences_tokensAlong {grids : Array Grid} {tables : List (Fin 4)}
    {content : Block} {token : Token} (ac : token.coefficients = .ac)
    {addresses : List BlockAddress}
    (uniform : ∀ address ∈ addresses, blockAt grids address = content)
    (predictors : Array Int) :
    token.occurrences (tokensAlong grids tables predictors addresses) =
      (addresses.countP fun address => tables.getD address.component 0 = token.table) *
        token.occurrences (Token.acTokens token.table content 0 acPositions) := by
  induction addresses generalizing predictors with
  | nil => exact (Nat.zero_mul _).symm
  | cons address rest inductionHypothesis =>
      have here := occurrences_blockTokens ac (tables.getD address.component 0)
        (predictors.getD address.component 0) (blockAt grids address)
      have later := inductionHypothesis
        (fun other member => uniform other (List.mem_cons_of_mem _ member))
        (advance grids predictors address)
      rw [uniform address List.mem_cons_self] at here
      unfold Token.occurrences at here later ⊢
      rw [tokensAlong, List.countP_append, later, uniform address List.mem_cons_self, here,
        List.countP_cons, Nat.add_mul, Nat.add_comm]
      simp only [decide_eq_true_eq, ite_mul, Nat.one_mul, Nat.zero_mul]

def Frame.uniformImage (frame : Frame) (content : Block) : JpegImage :=
  { frame := frame
    grids := frame.uniformGrids content
    quantizers := Vector.replicate 4 (some (Vector.replicate 64 1))
    metadata := [] }

/-- A symbol of the shared table occurs as often as the block says for each later block. -/
theorem Frame.occurrences_uniformImage (frame : Frame) (content : Block) {token : Token}
    (ac : token.coefficients = .ac) (shared : token.table = 1) :
    ∃ tokens, scanTokens frame (frame.uniformGrids content)
        (frame.uniformImage content).tableIds = .ok tokens ∧
      token.occurrences tokens.toList = frame.laterBlocks *
        token.occurrences (Token.acTokens 1 content 0 acPositions) := by
  have fits := frame.fits_uniformGrids content
  obtain ⟨tokens, collected⟩ :=
    scanTokens_of_fits fits (frame.uniformImage content).tableIds_length
  refine ⟨tokens, collected, ?_⟩
  have uniform : ∀ address ∈ (ScanLayout.interleaved frame frame.components).order,
      blockAt (frame.uniformGrids content) address = content := fun address member =>
    frame.blockAt_uniformGrids content (ScanLayout.mem_order_interleaved.mp member)
  have served := (frame.uniformImage content).order_countP_tableIds fits.size token.table
  rw [shared, if_neg (by decide), if_pos rfl, Nat.zero_add] at served
  rw [scanTokens_eq_ok collected, occurrences_tokensAlong ac uniform, shared]
  exact congrArg (· * _) served

def minusOnes (count : Nat) : Block :=
  ofZigzag 0 (0 :: List.replicate count (-1))

def minusOne : Token :=
  Token.ac 1 0 (-1)

private theorem minusOne_coefficients : minusOne.coefficients = .ac :=
  rfl

private theorem minusOne_table : minusOne.table = 1 :=
  rfl

/-- Counters of 32 bits are enough for a frame if counting comes to no fault and gives how often
each symbol occurs, whatever image the frame is that of. -/
def Frame.CountsExactly (frame : Frame) : Prop :=
  ∀ (image : JpegImage) (tokens : Array Token), image.frame = frame →
    scanTokens frame image.grids image.tableIds = .ok tokens →
      Checked.countTokens tokens = .ok (SymbolCounts.ofTokens tokens) ∧
        ∀ token, ((SymbolCounts.ofTokens tokens).frequency token).toNat =
          token.occurrences tokens.toList

/-- Counters of 32 bits are enough for a frame exactly if its components after the first have no
more blocks together than can be counted, as is the case if there is only one such component. -/
theorem Frame.countsExactly_iff (frame : Frame) :
    (frame.components.length ≤ 2 → frame.CountsExactly) ∧
      (frame.CountsExactly ↔ frame.laterBlocks ≤ countedBlocks) := by
  have enough : frame.laterBlocks ≤ countedBlocks → frame.CountsExactly := by
    rintro few image tokens rfl collected
    rcases Checked.countTokens_cases tokens with counted | ⟨-, token, -, many⟩
    · exact counted
    · have fewer := JpegImage.occurrences_lt collected few token
      omega
  refine ⟨fun two => enough ?_, fun exactly => ?_, enough⟩
  · have later := frame.sum_blocks_le (List.drop_subset 1 frame.components)
    rw [List.length_drop] at later
    unfold Frame.laterBlocks countedBlocks
    omega
  · obtain ⟨tokens, collected, often⟩ :=
      frame.occurrences_uniformImage (minusOnes 63) minusOne_coefficients minusOne_table
    have each : minusOne.occurrences (Token.acTokens 1 (minusOnes 63) 0 acPositions) = 63 := by
      decide +kernel
    have exact := (exactly (frame.uniformImage (minusOnes 63)) tokens rfl collected).2 minusOne
    have word := ((SymbolCounts.ofTokens tokens).frequency minusOne).toNat_lt
    rw [each] at often
    unfold countedBlocks
    omega

private theorem encode_failsOnly (encoder : HuffmanEncoder) (symbol : UInt8) :
    FailsOnly (· = CodecError.malformed .symbolWithoutCode) (encoder.encode symbol) := by
  unfold HuffmanEncoder.encode
  split
  · exact .ofOk _
  · exact .ofError rfl

namespace JpegImage

variable {image : JpegImage} {counts : SymbolCounts} {token : Token}

private theorem codeword_failsOnly (tabled : image.Tabled token.table) :
    FailsOnly (· = CodecError.malformed .symbolWithoutCode)
      ((ScanEncoder.ofSlots (image.optimalSlots counts)).codeword token) := by
  obtain ⟨dcSlot, acSlot⟩ := image.optimalSlots_get counts token.table
  rw [if_pos tabled] at dcSlot acSlot
  unfold ScanEncoder.codeword ScanEncoder.ofSlots
  cases token.coefficients with
  | dc =>
      dsimp only
      rw [get_map, dcSlot]
      exact encode_failsOnly _ _
  | ac =>
      dsimp only
      rw [get_map, acSlot]
      exact encode_failsOnly _ _

/-- An AC symbol other than 0 whose count has come out as zero has no codeword. -/
theorem not_encodes_of_silent (ac : token.coefficients = .ac) (tabled : image.Tabled token.table)
    (named : token.symbol ≠ 0) (silent : counts.frequency token = 0) :
    ¬ (ScanEncoder.ofSlots (image.optimalSlots counts)).Encodes token := by
  rintro ⟨codeword, encoded⟩
  have slot := (image.optimalSlots_get counts token.table).2
  rw [if_pos tabled] at slot
  unfold ScanEncoder.codeword ScanEncoder.ofSlots at encoded
  unfold SymbolCounts.frequency at silent
  rw [ac] at silent encoded
  dsimp only at encoded
  rw [get_map, slot] at encoded
  have listed := (optimalTable_encode_eq_ok _ _ _ encoded).1
  rcases OptimalCode.mem_usedSymbols.mp (OptimalCode.mem_orderedSymbols_iff.mp listed)
    with occurs | ⟨-, zero⟩
  · exact occurs silent
  · exact named (UInt8.toNat_inj.mp (congrArg Fin.val zero))

theorem toBytes_of_silent {tokens : Array Token}
    (collected : scanTokens image.frame image.grids image.tableIds = .ok tokens)
    (member : token ∈ tokens.toList) (ac : token.coefficients = .ac) (named : token.symbol ≠ 0)
    (silent : (SymbolCounts.ofTokens tokens).frequency token = 0) :
    image.toBytes = .error (.malformed .symbolWithoutCode) := by
  obtain ⟨_, checked, -⟩ := bind_eq_ok collected
  have size := (checkGrids_eq_ok checked).1
  have tabled : ∀ token ∈ tokens.toList, image.Tabled token.table := by
    intro other listed
    rw [scanTokens_eq_ok collected] at listed
    obtain ⟨address, coded, same⟩ := tokensAlong_table listed
    obtain ⟨component, found, -⟩ := ScanLayout.mem_order_interleaved.mp coded
    rw [same]
    exact image.tabled_tableIds (size ▸ (List.getElem?_eq_some_iff.mp found).1)
  have failsOnly : FailsOnly (· = CodecError.malformed .symbolWithoutCode)
      (tokenBytes (image.optimalSlots (SymbolCounts.ofTokens tokens)) tokens) := by
    unfold tokenBytes
    rw [← Array.foldlM_toList]
    refine .bind (.ofFoldlM (fun other listed writer => ?_) _) fun writer _ => .ofOk _
    exact .bind (codeword_failsOnly (tabled other listed)) fun codeword _ => .ofOk _
  unfold toBytes
  rw [bind_of_ok collected]
  dsimp only
  cases written : tokenBytes (image.optimalSlots (SymbolCounts.ofTokens tokens)) tokens with
  | ok scan =>
      have encodes := (tokenBytes_eq_ok written).1 token member
      exact absurd encodes (not_encodes_of_silent ac (tabled token member) named silent)
  | error failure =>
      rw [failsOnly failure written]
      rfl

end JpegImage

def widestFrame : Frame where
  width := 65535
  height := 65535
  components :=
    [{ id := 1, across := 1, down := 1, quantizer := 0 },
     { id := 2, across := 1, down := 1, quantizer := 0 },
     { id := 3, across := 1, down := 1, quantizer := 0 }]
  progressive := false
  width_ne_zero := by decide
  height_ne_zero := by decide
  components_ne_nil := by decide
  components_length := by decide
  admissible := by decide

/-- An image of which one symbol is counted as often as a counter has values, and comes out as
if it never occurred. The table for it has no codeword for the symbol. -/
theorem widestFrame_wraps :
    Frame.build 65535 65535 widestFrame.components false = .ok widestFrame ∧
      ∃ tokens, scanTokens widestFrame (widestFrame.uniformImage (minusOnes 32)).grids
          (widestFrame.uniformImage (minusOnes 32)).tableIds = .ok tokens ∧
        minusOne.occurrences tokens.toList = 2 ^ 32 ∧
        (SymbolCounts.ofTokens tokens).frequency minusOne = 0 ∧
        Checked.countTokens tokens = .error (.fault .overflow) ∧
        (widestFrame.uniformImage (minusOnes 32)).toBytes =
          .error (.malformed .symbolWithoutCode) := by
  obtain ⟨tokens, collected, often⟩ := widestFrame.occurrences_uniformImage (minusOnes 32)
    minusOne_coefficients minusOne_table
  have each : minusOne.occurrences (Token.acTokens 1 (minusOnes 32) 0 acPositions) = 32 := by
    decide +kernel
  have later : widestFrame.laterBlocks = 2 ^ 27 := by
    decide +kernel
  rw [each, later] at often
  have wrapped : (SymbolCounts.ofTokens tokens).frequency minusOne = 0 := by
    rw [SymbolCounts.frequency_ofTokens]
    exact (congrArg UInt32.ofNat often).trans (by decide)
  obtain ⟨token, member, counted⟩ := List.countP_pos_iff.mp
    (Nat.lt_of_lt_of_eq (by decide : 0 < 2 ^ 27 * 32) often.symm)
  have same := of_decide_eq_true counted
  refine ⟨by decide +kernel, tokens, collected, often, wrapped, ?_, ?_⟩
  · rcases Checked.countTokens_cases tokens with ⟨-, exact⟩ | ⟨stopped, -⟩
    · have none := exact minusOne
      rw [wrapped, often] at none
      cases none
    · exact stopped
  · have silent : (SymbolCounts.ofTokens tokens).frequency token = 0 :=
      (SymbolCounts.frequency_of_same same).trans wrapped
    exact JpegImage.toBytes_of_silent collected member same.1 (by rw [same.2.2]; decide) silent

end LosslessJpeg
