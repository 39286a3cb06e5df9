import LosslessJpeg.Proofs.Bytes
import LosslessJpeg.Proofs.Scan.TokenBits
import LosslessJpeg.Scan.BlockDecoder
import Mathlib.Order.Fin.Basic

set_option autoImplicit false

/-!
Decoding one block of a sequential scan from the tokens of a block. The block comes back
as it was, if its coefficients and its difference from the predictor can be represented.
-/

namespace LosslessJpeg

open BitReader (Supplies)

def readCoefficient (value : Int16) : Int16 :=
  extendSign (Magnitude.ofInt value.toInt).bits (Magnitude.ofInt value.toInt).size

/-- The least coefficient alone has no coded form. -/
theorem readCoefficient_eq_iff (value : Int16) :
    readCoefficient value = value ↔ value ≠ -32768 := by
  have lower := value.le_toInt
  have upper := value.toInt_lt
  have least : value ≠ -32768 ↔ value.toInt ≠ -32768 := by
    rw [Ne, ← Int16.toInt_inj]
    rfl
  rw [least, ← Int16.toInt_inj]
  refine (readBack_eq_iff value.toInt).trans ?_
  omega

theorem coefficient_size {value : Int16} (different : value ≠ 0) :
    1 ≤ (Magnitude.ofInt value.toInt).size ∧ (Magnitude.ofInt value.toInt).size ≤ 15 := by
  have limited := Magnitude.size_le value.toInt
  have some : (Magnitude.ofInt value.toInt).size ≠ 0 := fun none =>
    different (Int16.toInt_inj.mp ((Magnitude.size_eq_zero_iff _).mp none))
  omega

namespace BlockDecoder

variable {closing : Closing} {state : BlockState} {more : List Bool}

theorem ofBits_of_ok {α : Type} {step : BitDecoder α} {value : α} {left : BitReader}
    (done : step state.reader = .ok value left) :
    ofBits step state = .ok value { state with reader := left } := by
  unfold ofBits
  rw [done]

theorem symbol_of_ok {decoder : HuffmanDecoder} {name : UInt8} {left : BitReader}
    (read : decoder.decode state.reader = .ok name left) :
    symbol decoder state = .ok name { state with reader := left } :=
  ofBits_of_ok read

theorem bit_of_supplies (state : BlockState) {set : Bool}
    (supplies : Supplies closing state.reader (set :: more)) :
    ∃ left, bit state = .ok set { state with reader := left } ∧ Supplies closing left more := by
  obtain ⟨left, read, suppliesLeft⟩ := supplies.readBit
  exact ⟨left, ofBits_of_ok read, suppliesLeft⟩

theorem magnitude_of_supplies (state : BlockState) {value size : Nat} (limited : size ≤ 15)
    (small : value < 2 ^ size)
    (supplies : Supplies closing state.reader (binary size value ++ more)) :
    ∃ left, magnitude size state = .ok (extendSign value size) { state with reader := left } ∧
      Supplies closing left more := by
  unfold magnitude
  by_cases none : size = 0
  · subst none
    rw [if_pos rfl]
    exact ⟨state.reader, rfl, supplies⟩
  · rw [if_neg none, if_pos limited]
    obtain ⟨left, read, suppliesLeft⟩ := supplies.readField small
    refine ⟨left, ?_, suppliesLeft⟩
    have bitsRead : bits size state = .ok value { state with reader := left } :=
      ofBits_of_ok read
    rw [run_bind_of_ok bitsRead, run_pure]

theorem scaled_of_product {value : Int} {low : Nat} (lower : -32768 ≤ value * 2 ^ low)
    (upper : value * 2 ^ low ≤ 32767) : scaled value low = Int16.ofInt (value * 2 ^ low) := by
  have shifted : value * (1 <<< low : Nat) = value * 2 ^ low := by
    rw [Nat.one_shiftLeft]
    push_cast
    rfl
  unfold scaled clampCoefficient
  rw [shifted, Int.bmod_eq_of_le (by omega) (by omega)]
  congr 1
  omega

theorem scaled_of_inRange {value : Int} (lower : -32768 ≤ value) (upper : value ≤ 32767) :
    scaled value 0 = Int16.ofInt value := by
  have unscaled : value * 2 ^ 0 = value := Int.mul_one value
  rw [scaled_of_product (by omega) (by omega), unscaled]

theorem scaled_toInt (value : Int16) : scaled value.toInt 0 = value := by
  have lower := value.le_toInt
  have upper := value.toInt_lt
  rw [scaled_of_inRange (by omega) (by omega), Int16.ofInt_toInt]

section Band

variable {ac : HuffmanDecoder} {low : Nat} {spanning : Bool} {left : BitReader}

private theorem exists_cons {α : Type} {list : List α} (nonempty : list ≠ []) :
    ∃ first others, list = first :: others := by
  cases list with
  | nil => exact absurd rfl nonempty
  | cons first others => exact ⟨first, others, rfl⟩

theorem acCoefficients_value (state : BlockState) {skipped rest : List (Option (Fin 64))}
    {position : Fin 64} {name : UInt8} {value : Int16} {after : BlockState}
    (read : ac.decode state.reader = .ok name left) (run : highNibble name = skipped.length)
    (size : lowNibble name ≠ 0)
    (valueRead : magnitude (lowNibble name) { state with reader := left } = .ok value after) :
    acCoefficients ac low spanning (skipped ++ some position :: rest) state =
      acCoefficients ac low spanning rest
        { after with
          block := after.block.set position.val (scaled value.toInt low) } := by
  have nonempty : skipped ++ some position :: rest ≠ [] :=
    List.append_ne_nil_of_right_ne_nil _ (List.cons_ne_nil _ _)
  obtain ⟨first, others, same⟩ := exists_cons nonempty
  have dropped : (first :: others).drop (highNibble name) = some position :: rest := by
    rw [← same, run, List.drop_left]
  rw [same, acCoefficients, run_bind_of_ok (symbol_of_ok read), if_neg size]
  have found : ∀ decoder : BlockDecoder Unit, decoder = (do
      let value ← magnitude (lowNibble name)
      setCoefficient position (scaled value.toInt low)
      acCoefficients ac low spanning rest) →
      decoder { state with reader := left } =
        acCoefficients ac low spanning rest
          { after with block := after.block.set position.val (scaled value.toInt low) } := by
    intro decoder same
    rw [same, run_bind_of_ok valueRead]
    rfl
  apply found _
  split
  · rename_i nothing
    rw [dropped] at nothing
    cases nothing
  · rename_i target
    rw [dropped] at target
    cases target
    rfl

theorem acCoefficients_zeroRun {positions : List (Option (Fin 64))}
    (nonempty : positions ≠ []) (read : ac.decode state.reader = .ok 0xF0 left) :
    acCoefficients ac low spanning positions state =
      acCoefficients ac low spanning (positions.drop 16) { state with reader := left } := by
  obtain ⟨first, others, rfl⟩ := exists_cons nonempty
  rw [acCoefficients, run_bind_of_ok (symbol_of_ok read)]
  rfl

theorem acCoefficients_endOfBlock {positions : List (Option (Fin 64))}
    (nonempty : positions ≠ []) (read : ac.decode state.reader = .ok 0 left) :
    acCoefficients ac low spanning positions state =
      .ok () { state with reader := left, endOfBandRun := 0 } := by
  obtain ⟨first, others, rfl⟩ := exists_cons nonempty
  rw [acCoefficients, run_bind_of_ok (symbol_of_ok read)]
  rfl

end Band

/-! ### The tokens of a block -/

section Positions

variable {table : Fin 4} {source : Block} {run : Nat} {position : Fin 64}
  {rest : List (Fin 64)}

theorem acTokens_zero (zero : source.get position = 0) :
    Token.acTokens table source run (position :: rest) =
      Token.acTokens table source (run + 1) rest := by
  rw [Token.acTokens]
  exact if_pos zero

theorem acTokens_nonzero (different : source.get position ≠ 0) :
    Token.acTokens table source run (position :: rest) =
      List.replicate (run / 16) (Token.zeroRun table) ++
        Token.ac table (run % 16) (source.get position) ::
          Token.acTokens table source 0 rest := by
  rw [Token.acTokens]
  exact if_neg different

end Positions

/-- The coefficients at the given positions, as far as they are not zero, as a reader
makes them out, over a block. -/
def readAc (source : Block) : List (Fin 64) → Block → Block
  | [], block => block
  | position :: rest, block =>
      readAc source rest
        (if source.get position = 0 then block
          else block.setIfInBounds position.val (readCoefficient (source.get position)))

theorem readAc_get (source : Block) (positions : List (Fin 64)) (block : Block)
    (position : Fin 64) :
    (readAc source positions block).get position =
      if position ∈ positions ∧ source.get position ≠ 0 then
        readCoefficient (source.get position)
      else
        block.get position := by
  induction positions generalizing block with
  | nil => rw [readAc, if_neg fun both => List.not_mem_nil both.1]
  | cons first rest inductionHypothesis =>
      rw [readAc, inductionHypothesis]
      by_cases later : position ∈ rest ∧ source.get position ≠ 0
      · rw [if_pos later, if_pos ⟨List.mem_cons_of_mem _ later.1, later.2⟩]
      · rw [if_neg later]
        by_cases same : first = position
        · subst same
          by_cases zero : source.get first = 0
          · rw [if_pos zero, if_neg fun both => both.2 zero]
          · rw [if_neg zero, setIfInBounds_val, get_set, if_pos rfl,
              if_pos ⟨List.mem_cons_self, zero⟩]
        · have outside : ¬ (position ∈ first :: rest ∧ source.get position ≠ 0) := by
            rintro ⟨member, nonzero⟩
            rcases List.mem_cons.mp member with front | inRest
            · exact same front.symm
            · exact later ⟨inRest, nonzero⟩
          rw [if_neg outside]
          split
          · rfl
          · rw [setIfInBounds_val, get_set, if_neg same]

section Tokens

variable {encoder : ScanEncoder} {table : Fin 4} {dc ac : HuffmanDecoder}

theorem read_token {decoder : HuffmanDecoder} {token : Token} {reader : BitReader}
    (reads : ∀ codeword, encoder.codeword token = .ok codeword →
      decoder.Reads token.symbol codeword.bits)
    (encodes : encoder.Encodes token)
    (supplies : Supplies closing reader (encoder.tokenBits token ++ more)) :
    ∃ left, decoder.decode reader = .ok token.symbol left ∧
      Supplies closing left (binary token.extraCount token.extra ++ more) := by
  obtain ⟨codeword, found⟩ := encodes
  rw [ScanEncoder.tokenBits_of_codeword found, List.append_assoc] at supplies
  exact reads codeword found closing reader _ supplies

theorem acCoefficients_zeroRuns (readWith : encoder.ReadWith .ac table ac) (low : Nat)
    (spanning : Bool) (state : BlockState) (count : Nat) {positions : List (Option (Fin 64))}
    (enough : 16 * count < positions.length)
    (encodes : 0 < count → encoder.Encodes (Token.zeroRun table))
    (supplies : Supplies closing state.reader
      (encoder.bits (List.replicate count (Token.zeroRun table)) ++ more)) :
    ∃ left, acCoefficients ac low spanning positions state =
        acCoefficients ac low spanning (positions.drop (16 * count))
          { state with reader := left } ∧
      Supplies closing left more := by
  induction count generalizing positions state with
  | zero => exact ⟨state.reader, rfl, supplies⟩
  | succ count inductionHypothesis =>
      have nonempty : positions ≠ [] := fun empty => by
        rw [empty, List.length_nil] at enough
        omega
      rw [List.replicate_succ, ScanEncoder.bits_cons, List.append_assoc] at supplies
      obtain ⟨first, read, suppliesFirst⟩ := read_token
        (fun codeword => readWith _ codeword rfl rfl) (encodes (Nat.succ_pos count)) supplies
      have fewer : 16 * count < (positions.drop 16).length := by
        rw [List.length_drop]
        omega
      obtain ⟨left, decoded, suppliesLeft⟩ := inductionHypothesis
        { state with reader := first } fewer (fun _ => encodes (Nat.succ_pos count)) suppliesFirst
      refine ⟨left, ?_, suppliesLeft⟩
      rw [acCoefficients_zeroRun nonempty read, decoded, List.drop_drop]
      congr 2
      omega

/-- The tokens of a value behind zeros: runs of sixteen zeros, then the value with the zeros
that are left. -/
theorem acCoefficients_run (readWith : encoder.ReadWith .ac table ac) (low : Nat)
    (spanning : Bool) (state : BlockState) {value : Int16} (nonzero : value ≠ 0)
    (skipped : List (Option (Fin 64))) (position : Fin 64) (others : List (Option (Fin 64)))
    (encodesZeros : 0 < skipped.length / 16 → encoder.Encodes (Token.zeroRun table))
    (encodesValue : encoder.Encodes (Token.ac table (skipped.length % 16) value))
    (supplies : Supplies closing state.reader
      (encoder.bits (List.replicate (skipped.length / 16) (Token.zeroRun table)) ++
        (encoder.tokenBits (Token.ac table (skipped.length % 16) value) ++ more))) :
    ∃ left, acCoefficients ac low spanning (skipped ++ some position :: others) state =
        acCoefficients ac low spanning others
          { state with
            reader := left
            block := state.block.setIfInBounds position.val
              (scaled (readCoefficient value).toInt low) } ∧
      Supplies closing left more := by
  obtain ⟨sizePositive, sizeLimited⟩ := coefficient_size nonzero
  have all : 16 * (skipped.length / 16) < (skipped ++ some position :: others).length := by
    rw [List.length_append, List.length_cons]
    omega
  obtain ⟨first, zerosRead, suppliesFirst⟩ := acCoefficients_zeroRuns readWith low spanning
    state (skipped.length / 16) all encodesZeros supplies
  obtain ⟨second, read, suppliesSecond⟩ := read_token
    (fun codeword => readWith _ codeword rfl rfl) encodesValue suppliesFirst
  have run : highNibble (Token.ac table (skipped.length % 16) value).symbol =
      (skipped.drop (16 * (skipped.length / 16))).length := by
    rw [List.length_drop]
    refine (highNibble_nibbles ?_).trans ?_ <;> omega
  have size : lowNibble (Token.ac table (skipped.length % 16) value).symbol =
      (Magnitude.ofInt value.toInt).size :=
    lowNibble_nibbles (by omega)
  obtain ⟨left, valueRead, suppliesLeft⟩ := magnitude_of_supplies
    { state with reader := second } sizeLimited (Magnitude.bits_lt _) suppliesSecond
  change magnitude _ _ = .ok (readCoefficient value) _ at valueRead
  rw [← size] at valueRead
  refine ⟨left, ?_, suppliesLeft⟩
  rw [zerosRead, List.drop_append_of_le_length (by omega),
    acCoefficients_value { state with reader := first } read run (by omega) valueRead,
    setIfInBounds_val]

theorem acCoefficients_tokens (readWith : encoder.ReadWith .ac table ac) (state : BlockState)
    (source : Block) (positions : List (Fin 64)) (skipped : List (Option (Fin 64)))
    (encodes : ∀ token ∈ Token.acTokens table source skipped.length positions,
      encoder.Encodes token)
    (supplies : Supplies closing state.reader
      (encoder.bits (Token.acTokens table source skipped.length positions) ++ more))
    (between : state.endOfBandRun = 0) :
    ∃ left, acCoefficients ac 0 false (skipped ++ positions.map some) state =
        .ok () { state with reader := left, block := readAc source positions state.block } ∧
      Supplies closing left more := by
  -- The zeros since the last token are still ahead of the decoder, though not of the encoder.
  induction positions generalizing skipped state with
  | nil =>
      rw [List.map_nil, List.append_nil]
      by_cases none : skipped = []
      · subst none
        refine ⟨state.reader, ?_, supplies⟩
        rw [acCoefficients]
        rfl
      · have some : skipped.length ≠ 0 := fun zero => none (List.eq_nil_of_length_eq_zero zero)
        rw [Token.acTokens, if_neg some] at encodes supplies
        rw [ScanEncoder.bits_cons, List.append_assoc] at supplies
        obtain ⟨left, read, suppliesLeft⟩ := read_token
          (fun codeword => readWith _ codeword rfl rfl) (encodes _ List.mem_cons_self)
          supplies
        refine ⟨left, ?_, suppliesLeft⟩
        rw [acCoefficients_endOfBlock none read, readAc, ← between]
  | cons position rest inductionHypothesis =>
      by_cases zero : source.get position = 0
      · rw [acTokens_zero zero] at encodes supplies
        have longer : (skipped ++ [some position]).length = skipped.length + 1 := by
          rw [List.length_append, List.length_singleton]
        have decoded := inductionHypothesis state (skipped ++ [some position])
          (by rw [longer]; exact encodes) (by rw [longer]; exact supplies) between
        rw [List.append_assoc] at decoded
        rw [readAc, if_pos zero]
        exact decoded
      · rw [acTokens_nonzero zero] at encodes supplies
        rw [ScanEncoder.bits_append, List.append_assoc, ScanEncoder.bits_cons,
          List.append_assoc] at supplies
        obtain ⟨first, valueRead, suppliesFirst⟩ := acCoefficients_run readWith 0 false state zero
          skipped position (rest.map some)
          (fun positive => encodes _ (List.mem_append_left _
            (List.mem_replicate.mpr ⟨Nat.ne_of_gt positive, rfl⟩)))
          (encodes _ (List.mem_append_right _ List.mem_cons_self)) supplies
        obtain ⟨left, decoded, suppliesLeft⟩ := inductionHypothesis
          { state with
            reader := first
            block := state.block.setIfInBounds position.val
              (readCoefficient (source.get position)) }
          [] (fun token member => encodes token
            (List.mem_append_right _ (List.mem_cons_of_mem _ member)))
          suppliesFirst between
        refine ⟨left, ?_, suppliesLeft⟩
        rw [List.map_cons, valueRead, scaled_toInt, readAc, if_neg zero]
        exact decoded

theorem dcCoefficient_token (readWith : encoder.ReadWith .dc table dc) (low : Nat)
    (state : BlockState) (difference : Int)
    (encodes : encoder.Encodes (Token.dc table difference))
    (supplies : Supplies closing state.reader
      (encoder.tokenBits (Token.dc table difference) ++ more)) :
    ∃ left, Supplies closing left more ∧
      dcCoefficient dc low state =
        if state.predictor + readBack difference < -32768 ∨
            32767 < state.predictor + readBack difference then
          .error .undecodable { state with reader := left }
        else
          .ok ()
            { state with
              reader := left
              predictor := state.predictor + readBack difference
              block := state.block.set 0
                (scaled (state.predictor + readBack difference) low) (Nat.zero_lt_succ 63) } := by
  obtain ⟨first, read, suppliesFirst⟩ := read_token
    (fun codeword => readWith _ codeword rfl rfl) encodes supplies
  have limited := Magnitude.size_le difference
  have size : (Token.dc table difference).symbol.toNat = (Magnitude.ofInt difference).size := by
    refine UInt8.toNat_ofNat'.trans (Nat.mod_eq_of_lt ?_)
    omega
  obtain ⟨left, valueRead, suppliesLeft⟩ := magnitude_of_supplies
    { state with reader := first } limited (Magnitude.bits_lt difference)
    suppliesFirst
  rw [← size] at valueRead
  refine ⟨left, suppliesLeft, ?_⟩
  unfold dcCoefficient
  rw [run_bind_of_ok (symbol_of_ok read), run_bind_of_ok valueRead, run_bind_of_ok (run_get _)]
  rw [size]
  change (if state.predictor + readBack difference < -32768 ∨
    32767 < state.predictor + readBack difference then _ else _ : BlockDecoder Unit) _ = _
  split
  · rfl
  · rfl

/-- A block that a sequential scan can carry: its difference from the predictor and its AC
coefficients have at most fifteen bits. -/
def RepresentableAfter (predictor : Int) (block : Block) : Prop :=
  ((block.get 0).toInt - predictor).natAbs ≤ 32767 ∧
    ∀ position : Fin 64, position ≠ 0 → block.get position ≠ -32768

instance (predictor : Int) (block : Block) : Decidable (RepresentableAfter predictor block) :=
  inferInstanceAs (Decidable (_ ∧ _))

theorem mem_acPositions (position : Fin 64) : position ∈ acPositions ↔ position ≠ 0 := by
  revert position
  decide

/-- Over a block of zeros, the tokens of a block give the block that they were made of
exactly if it is representable. -/
private theorem readAc_eq_iff (source : Block) {predictor : Int}
    (lower : -32768 ≤ predictor + readBack ((source.get 0).toInt - predictor))
    (upper : predictor + readBack ((source.get 0).toInt - predictor) ≤ 32767) :
    readAc source acPositions (Block.zero.set 0
        (Int16.ofInt (predictor + readBack ((source.get 0).toInt - predictor)))
          (Nat.zero_lt_succ 63)) = source ↔
      RepresentableAfter predictor source := by
  have first : ((readAc source acPositions (Block.zero.set 0
      (Int16.ofInt (predictor + readBack ((source.get 0).toInt - predictor))))).get 0 =
        source.get 0) ↔ ((source.get 0).toInt - predictor).natAbs ≤ 32767 := by
    rw [readAc_get, if_neg fun both => (mem_acPositions 0).mp both.1 rfl]
    change (Vector.set Block.zero (0 : Fin 64).val _).get 0 = _ ↔ _
    rw [get_set, if_pos rfl, ← readBack_eq_iff, ← Int16.toInt_inj,
      Int16.toInt_ofInt_of_le (by omega) (by omega)]
    omega
  have others : ∀ position : Fin 64, position ≠ 0 →
      ((readAc source acPositions (Block.zero.set 0
        (Int16.ofInt (predictor + readBack ((source.get 0).toInt - predictor))))).get position =
          source.get position ↔ source.get position ≠ -32768) := by
    intro position different
    have untouched : ∀ value : Int16, (Block.zero.set 0 value).get position = 0 := by
      intro value
      change (Vector.set Block.zero (0 : Fin 64).val value).get position = 0
      rw [get_set, if_neg fun same => different same.symm, Block.zero, get_replicate]
    rw [readAc_get]
    by_cases zero : source.get position = 0
    · rw [if_neg fun both => both.2 zero, untouched, zero]
      decide
    · rw [if_pos ⟨(mem_acPositions position).mpr different, zero⟩, readCoefficient_eq_iff]
  constructor
  · intro same
    refine ⟨first.mp (by rw [same]), fun position different => ?_⟩
    exact (others position different).mp (by rw [same])
  · rintro ⟨difference, coefficients⟩
    apply ext_get
    intro position
    by_cases zero : position = 0
    · rw [zero]
      exact first.mpr difference
    · exact (others position zero).mpr (coefficients position zero)

private theorem decode_blockTokens_eq (readBy : encoder.ReadBy table dc ac)
    (state : BlockState) (source : Block)
    (encodes : ∀ token ∈ Token.blockTokens table state.predictor source,
      encoder.Encodes token)
    (supplies : Supplies closing state.reader
      (encoder.bits (Token.blockTokens table state.predictor source) ++ more))
    (between : state.endOfBandRun = 0) {value : Int}
    (valued : value = state.predictor + readBack ((source.get 0).toInt - state.predictor)) :
    ∃ failed left, Supplies closing left more ∧
      (BlockCoding.sequential dc ac).decode state =
        if value < -32768 ∨ 32767 < value then
          .error .undecodable { state with reader := failed }
        else
          .ok ()
            { state with
              reader := left
              predictor := value
              block := readAc source acPositions
                (state.block.set 0 (Int16.ofInt value) (Nat.zero_lt_succ 63)) } := by
  unfold Token.blockTokens at encodes supplies
  rw [ScanEncoder.bits_cons, List.append_assoc] at supplies
  obtain ⟨first, suppliesFirst, dcRead⟩ := dcCoefficient_token readBy.dc 0 state _
    (encodes _ List.mem_cons_self) supplies
  rw [← valued] at dcRead
  obtain ⟨left, acRead, suppliesLeft⟩ := acCoefficients_tokens readBy.ac
    { state with
      reader := first
      predictor := value
      block := state.block.set 0 (Int16.ofInt value) }
    source acPositions [] (fun token member => encodes token (List.mem_cons_of_mem _ member))
    suppliesFirst between
  refine ⟨first, left, suppliesLeft, ?_⟩
  by_cases outside : value < -32768 ∨ 32767 < value
  · rw [if_pos outside] at dcRead ⊢
    rw [BlockCoding.decode, run_bind_of_error dcRead]
  · rw [if_neg outside, scaled_of_inRange (by omega) (by omega)] at dcRead
    rw [if_neg outside, BlockCoding.decode, run_bind_of_ok dcRead, bandPositions_ac]
    unfold acBand
    rw [run_bind_of_ok (run_get _), if_neg (by rw [between]; decide)]
    exact acRead

/-- Decoding the tokens of a block over zeros: a representable block comes back, and no
other one does. -/
theorem decode_blockTokens (readBy : encoder.ReadBy table dc ac) (state : BlockState)
    (source : Block)
    (encodes : ∀ token ∈ Token.blockTokens table state.predictor source,
      encoder.Encodes token)
    (supplies : Supplies closing state.reader
      (encoder.bits (Token.blockTokens table state.predictor source) ++ more))
    (between : state.endOfBandRun = 0) (empty : state.block = Block.zero) :
    (RepresentableAfter state.predictor source →
      ∃ left, (BlockCoding.sequential dc ac).decode state =
          .ok ()
            { state with
              reader := left
              predictor := (source.get 0).toInt
              block := source } ∧
        Supplies closing left more) ∧
      ∀ after, (BlockCoding.sequential dc ac).decode state = .ok () after →
        after.block = source → RepresentableAfter state.predictor source := by
  -- The decoder adds what it reads back to the predictor, whether or not that is what was written.
  obtain ⟨value, valued⟩ : ∃ value,
      value = state.predictor + readBack ((source.get 0).toInt - state.predictor) := ⟨_, rfl⟩
  obtain ⟨failed, left, suppliesLeft, decoded⟩ :=
    decode_blockTokens_eq readBy state source encodes supplies between valued
  have same : -32768 ≤ value → value ≤ 32767 →
      (readAc source acPositions (Block.zero.set 0 (Int16.ofInt value)) = source ↔
        RepresentableAfter state.predictor source) := by
    rw [valued]
    exact readAc_eq_iff source
  constructor
  · intro representable
    have exact := (readBack_eq_iff _).mpr representable.1
    have lower := (source.get 0).le_toInt
    have upper := (source.get 0).toInt_lt
    have total : value = (source.get 0).toInt := by omega
    refine ⟨left, ?_, suppliesLeft⟩
    rw [decoded, if_neg (by omega), empty, (same (by omega) (by omega)).mpr representable, total]
  · intro after done equal
    by_cases outside : value < -32768 ∨ 32767 < value
    · rw [decoded, if_pos outside] at done
      cases done
    · rw [decoded, if_neg outside] at done
      cases done
      rw [empty] at equal
      exact (same (by omega) (by omega)).mp equal

end Tokens

end BlockDecoder

end LosslessJpeg
