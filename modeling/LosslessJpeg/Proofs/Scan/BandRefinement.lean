import LosslessJpeg.Proofs.Scan.BandDecoding

set_option autoImplicit false

/-!
Decoding one more bit of the band of a block. The decoder walks over the band position by
position: a coefficient that is not zero takes a bit from the data, and a zero counts as one of
the zeros of the last symbol, or gets the first value that this symbol brings.
-/

namespace LosslessJpeg

open BitReader (Supplies)

namespace BlockDecoder

def Refinement.past : Refinement → Nat → Refinement
  | .zeros count value, passed => .zeros (count - passed) value
  | .endOfBand, _ => .endOfBand

/-- So many zeros belong to a symbol, at least. -/
def Refinement.Spans : Refinement → Nat → Prop
  | .zeros count _, passed => passed ≤ count
  | .endOfBand, _ => True

variable {ac : HuffmanDecoder} {low : Nat} {closing : Closing} {more : List Bool}

theorem correctCoefficient_bit (low : Nat) (position : Fin 64) (state : BlockState) {bit : Bool}
    (supplies : Supplies closing state.reader (bit :: more)) :
    ∃ left, correctCoefficient position low state = .ok ()
        { state with
          reader := left
          block := state.block.set position.val
            (corrected low bit (state.block.get position)) position.isLt } ∧
      Supplies closing left more := by
  obtain ⟨left, read, suppliesLeft⟩ := bit_of_supplies state supplies
  refine ⟨left, ?_, suppliesLeft⟩
  unfold correctCoefficient corrected
  rw [run_bind_of_ok read, run_bind_of_ok (run_get _)]
  by_cases sets : bit ∧ (state.block.get position).toInt >>> low % 2 = 0
  · dsimp only
    rw [if_pos sets, if_pos sets]
    rfl
  · dsimp only
    rw [if_neg sets, if_neg sets, set_get_self]
    rfl

theorem refineCoefficients_of_ne {current : Refinement} {position : Fin 64}
    (rest : List (Option (Fin 64))) {state : BlockState}
    (nonzero : state.block.get position ≠ 0) :
    refineCoefficients ac low (some current) (some position :: rest) state =
      (do
        correctCoefficient position low
        refineCoefficients ac low (some current) rest) state := by
  rw [refineCoefficients, run_bind_of_ok (run_pure current state)]
  change (if state.block.get position ≠ 0 then _ else _ : BlockDecoder Unit) state = _
  rw [if_pos nonzero]

theorem refineCoefficients_of_eq {current : Refinement} {position : Fin 64}
    (rest : List (Option (Fin 64))) {state : BlockState} (zero : state.block.get position = 0) :
    refineCoefficients ac low (some current) (some position :: rest) state =
      match current with
      | .endOfBand => refineCoefficients ac low (some .endOfBand) rest state
      | .zeros (count + 1) value =>
          refineCoefficients ac low (some (.zeros count value)) rest state
      | .zeros 0 (some coefficient) =>
          refineCoefficients ac low none rest
            { state with block := state.block.set position.val coefficient position.isLt }
      | .zeros 0 none => refineCoefficients ac low none rest state := by
  rw [refineCoefficients, run_bind_of_ok (run_pure current state)]
  change (if state.block.get position ≠ 0 then _ else _ : BlockDecoder Unit) state = _
  rw [if_neg (not_not_intro zero)]
  match current with
  | .endOfBand => rfl
  | .zeros (count + 1) value => rfl
  | .zeros 0 (some coefficient) => rfl
  | .zeros 0 none => rfl

theorem refineCoefficients_known (current : Refinement) {position : Fin 64}
    (rest : List (Option (Fin 64))) (state : BlockState)
    (nonzero : state.block.get position ≠ 0) {bit : Bool}
    (supplies : Supplies closing state.reader (bit :: more)) :
    ∃ left, refineCoefficients ac low (some current) (some position :: rest) state =
        refineCoefficients ac low (some current) rest
          { state with
            reader := left
            block := state.block.set position.val
              (corrected low bit (state.block.get position)) position.isLt } ∧
      Supplies closing left more := by
  obtain ⟨left, corrects, suppliesLeft⟩ := correctCoefficient_bit low position state supplies
  refine ⟨left, ?_, suppliesLeft⟩
  rw [refineCoefficients_of_ne rest nonzero, run_bind_of_ok corrects]

theorem refineCoefficients_zero {current : Refinement} {position : Fin 64}
    (rest : List (Option (Fin 64))) {state : BlockState} (zero : state.block.get position = 0)
    (spans : current.Spans 1) :
    refineCoefficients ac low (some current) (some position :: rest) state =
      refineCoefficients ac low (some (current.past 1)) rest state := by
  rw [refineCoefficients_of_eq rest zero]
  cases current with
  | endOfBand => rfl
  | zeros count value =>
      obtain ⟨count, rfl⟩ := Nat.exists_eq_succ_of_ne_zero (Nat.ne_of_gt spans)
      rfl

theorem refineCoefficients_value {value : Option Int16} {position : Fin 64}
    (rest : List (Option (Fin 64))) {state : BlockState} (zero : state.block.get position = 0) :
    refineCoefficients ac low (some (.zeros 0 value)) (some position :: rest) state =
      refineCoefficients ac low none rest
        { state with block := state.block.set position.val (value.getD 0) position.isLt } := by
  rw [refineCoefficients_of_eq rest zero]
  cases value with
  | some coefficient => rfl
  | none =>
      have same := set_get_self state.block position
      rw [zero] at same
      rw [Option.getD_none, same]

theorem refineCoefficients_asks (ac : HuffmanDecoder) (low : Nat) (target : Option (Fin 64))
    (rest : List (Option (Fin 64))) :
    refineCoefficients ac low none (target :: rest) =
      refinement ac low >>= fun current =>
        refineCoefficients ac low (some current) (target :: rest) :=
  rfl

theorem refineCoefficients_next {current : Refinement} {positions : List (Option (Fin 64))}
    {state after : BlockState} (nonempty : positions ≠ [])
    (read : refinement ac low state = .ok current after) :
    refineCoefficients ac low none positions state =
      refineCoefficients ac low (some current) positions after := by
  obtain ⟨first, rest, rfl⟩ := List.exists_cons_of_ne_nil nonempty
  rw [refineCoefficients_asks, run_bind_of_ok read]

section Symbols

variable {encoder : ScanEncoder} {table : Fin 4}

theorem refinement_zeroRun (low : Nat) (readWith : encoder.ReadWith .ac table ac)
    (state : BlockState)
    (encodes : encoder.Encodes (Token.zeroRun table))
    (supplies : Supplies closing state.reader (encoder.tokenBits (Token.zeroRun table) ++ more)) :
    ∃ left, refinement ac low state = .ok (.zeros 15 none) { state with reader := left } ∧
      Supplies closing left more := by
  obtain ⟨left, read, suppliesLeft⟩ := read_token
    (fun codeword => readWith _ codeword rfl rfl) encodes supplies
  refine ⟨left, ?_, suppliesLeft⟩
  have highSymbol : highNibble (Token.zeroRun table).symbol = 15 :=
    (by decide : highNibble 0xF0 = 15)
  have lowSymbol : lowNibble (Token.zeroRun table).symbol = 0 :=
    (by decide : lowNibble 0xF0 = 0)
  unfold refinement
  rw [run_bind_of_ok (symbol_of_ok read), highSymbol, lowSymbol, if_pos rfl, if_pos rfl]
  rfl

private theorem scaled_unit (few : low ≤ 13) {value : Int16} {positive : Bool}
    (unit : value = if positive then 1 else -1) :
    scaled (readCoefficient value).toInt low =
      if positive then bitValue low else -bitValue low := by
  have step := bitValue_toInt few
  have lower : (0 : Int) < 2 ^ low := Int.pow_pos (by decide)
  have upper := (bitValue low).toInt_lt
  have exact : readCoefficient (if positive then 1 else -1) = if positive then 1 else -1 := by
    cases positive <;> decide
  rw [unit, exact]
  cases positive with
  | true =>
      have product : scaled 1 low = Int16.ofInt (1 * 2 ^ low) :=
        scaled_of_product (by omega) (by omega)
      rw [Int.one_mul, ← step, Int16.ofInt_toInt] at product
      exact product
  | false =>
      have product : scaled (-1) low = Int16.ofInt (-1 * 2 ^ low) :=
        scaled_of_product (by omega) (by omega)
      rw [Int.neg_mul, Int.one_mul, ← step, Int16.ofInt_neg, Int16.ofInt_toInt] at product
      exact product

theorem refinement_value (readWith : encoder.ReadWith .ac table ac) (few : low ≤ 13)
    (state : BlockState) {run : Nat} (short : run < 16) {value : Int16}
    (unit : value = 1 ∨ value = -1) (encodes : encoder.Encodes (Token.ac table run value))
    (supplies : Supplies closing state.reader
      (encoder.tokenBits (Token.ac table run value) ++ more)) :
    ∃ left, refinement ac low state =
        .ok (.zeros run (some (scaled (readCoefficient value).toInt low)))
          { state with reader := left } ∧
      Supplies closing left more := by
  obtain ⟨first, read, suppliesFirst⟩ := read_token
    (fun codeword => readWith _ codeword rfl rfl) encodes supplies
  obtain ⟨positive, isUnit⟩ : ∃ positive : Bool, value = if positive then 1 else -1 := by
    rcases unit with one | minusOne
    · exact ⟨true, one⟩
    · exact ⟨false, minusOne⟩
  -- Both values have one bit, which is their sign.
  have size : (Magnitude.ofInt value.toInt).size = 1 := by
    rw [isUnit]
    cases positive <;> decide
  have sign : binary (Magnitude.ofInt value.toInt).size (Magnitude.ofInt value.toInt).bits =
      [positive] := by
    rw [isUnit]
    cases positive <;> decide
  change Supplies closing first (binary (Magnitude.ofInt value.toInt).size
    (Magnitude.ofInt value.toInt).bits ++ more) at suppliesFirst
  rw [sign] at suppliesFirst
  obtain ⟨left, signRead, suppliesLeft⟩ :=
    bit_of_supplies { state with reader := first } suppliesFirst
  have highSymbol : highNibble (Token.ac table run value).symbol = run := highNibble_nibbles short
  have lowSymbol : lowNibble (Token.ac table run value).symbol = 1 :=
    (lowNibble_nibbles (by omega)).trans size
  refine ⟨left, ?_, suppliesLeft⟩
  unfold refinement
  rw [run_bind_of_ok (symbol_of_ok read), highSymbol, lowSymbol, if_neg Nat.one_ne_zero,
    if_pos rfl, run_bind_of_ok signRead, scaled_unit few isUnit]
  rfl

theorem refinement_endOfBand (low : Nat) (readWith : encoder.ReadWith .ac table ac)
    (state : BlockState) {after : Nat} (few : after + 1 ≤ 32767)
    (encodes : encoder.Encodes (Token.endOfBand table (after + 1)))
    (supplies : Supplies closing state.reader
      (encoder.tokenBits (Token.endOfBand table (after + 1)) ++ more)) :
    ∃ left, refinement ac low state =
        .ok .endOfBand { state with reader := left, endOfBandRun := after + 1 } ∧
      Supplies closing left more := by
  obtain ⟨first, left, read, small, counted, suppliesLeft⟩ :=
    read_endOfBand readWith state few encodes supplies
  have highSymbol : highNibble (nibbles (Nat.log2 (after + 1)) 0) = Nat.log2 (after + 1) :=
    highNibble_nibbles (by omega)
  have lowSymbol : lowNibble (nibbles (Nat.log2 (after + 1)) 0) = 0 :=
    lowNibble_nibbles (by decide)
  refine ⟨left, ?_, suppliesLeft⟩
  unfold refinement
  rw [run_bind_of_ok read, highSymbol, lowSymbol, if_pos rfl, if_neg (by omega),
    run_bind_of_ok counted]
  rfl

end Symbols

/-! ### Walking over positions -/

/-- What a scan of one more bit tells of the coefficients of a block: first values are units. -/
structure Told (low : Nat) (order : List (Fin 64)) (content : Fin 64 → BandCoefficient)
    (before target : Block) : Prop where
  nodup : order.Nodup
  becomes : ∀ position ∈ order,
    Becomes low (before.get position) (content position) (target.get position)
  unit : ∀ position ∈ order, ∀ value, content position = .fresh value → value = 1 ∨ value = -1

section Walking

variable {order done skipped rest : List (Fin 64)} {content : Fin 64 → BandCoefficient}
  {before target : Block} {position : Fin 64}

theorem Told.get (told : Told low order content before target)
    (split : order = done ++ position :: rest) {block : Block}
    (merged : Block.Merged before target done block) :
    block.get position = before.get position := by
  have absent : position ∉ done := by
    have nodup := told.nodup
    rw [split, List.nodup_append] at nodup
    exact fun member => nodup.2.2 position member position List.mem_cons_self rfl
  rw [merged position, if_neg absent]

private theorem Refinement.past_zero (current : Refinement) : current.past 0 = current := by
  cases current <;> rfl

private theorem Refinement.past_past (current : Refinement) (first second : Nat) :
    (current.past first).past second = current.past (first + second) := by
  cases current with
  | zeros count value => rw [past, past, past, Nat.sub_sub]
  | endOfBand => rfl

private theorem Refinement.Spans.of_add {current : Refinement} {first second : Nat}
    (spans : current.Spans (first + second)) :
    current.Spans first ∧ (current.past first).Spans second := by
  cases current with
  | zeros count value =>
      unfold Spans at spans
      unfold Refinement.past Spans
      omega
  | endOfBand => exact ⟨trivial, trivial⟩

theorem refineCoefficients_walk (told : Told low order content before target)
    (split : order = done ++ (skipped ++ rest)) (current : Refinement) (state : BlockState)
    (quiet : ∀ position ∈ skipped, (content position).isFresh = false)
    (spans : current.Spans (Band.zeros (skipped.map content)))
    (supplies : Supplies closing state.reader
      (Band.corrections (skipped.map content) ++ more))
    (merged : Block.Merged before target done state.block) :
    ∃ left block, refineCoefficients ac low (some current) ((skipped ++ rest).map some) state =
        refineCoefficients ac low (some (current.past (Band.zeros (skipped.map content))))
          (rest.map some) { state with reader := left, block := block } ∧
      Supplies closing left more ∧ Block.Merged before target (done ++ skipped) block := by
  -- What the symbol still spans shrinks with every zero and stays at every correction.
  induction skipped generalizing done current state with
  | nil =>
      refine ⟨state.reader, state.block, ?_, supplies, ?_⟩
      · rw [List.map_nil, Band.zeros_nil, Refinement.past_zero]
        rfl
      · rw [List.append_nil]
        exact merged
  | cons position others inductionHypothesis =>
      have here := told.get split merged
      have inOrder : position ∈ order :=
        split ▸ List.mem_append_right _ List.mem_cons_self
      have becomes := told.becomes position inOrder
      have quietOthers : ∀ other ∈ others, (content other).isFresh = false :=
        fun other member => quiet other (List.mem_cons_of_mem _ member)
      have splitNext : order = done ++ [position] ++ (others ++ rest) := by
        rw [List.append_assoc]
        exact split
      rw [List.map_cons, Band.zeros_cons] at spans
      rw [List.map_cons, Band.corrections_cons] at supplies
      rw [List.map_cons, Band.zeros_cons, ← Refinement.past_past]
      cases meaning : content position with
      | zero =>
          rw [meaning] at becomes spans supplies
          obtain ⟨blank, stays⟩ := becomes.of_zero
          have kept : Block.Merged before target (done ++ [position]) state.block :=
            merged.keep fun other member => by
              rw [List.mem_singleton.mp member, blank, stays]
          obtain ⟨spansHere, spansOthers⟩ := spans.of_add
          obtain ⟨left, block, walked, suppliesLeft, mergedAfter⟩ := inductionHypothesis
            splitNext (current.past 1) state quietOthers spansOthers supplies kept
          refine ⟨left, block, ?_, suppliesLeft, ?_⟩
          · exact (refineCoefficients_zero _ (here.trans blank) spansHere).trans walked
          · rw [List.append_assoc] at mergedAfter
            exact mergedAfter
      | fresh value =>
          have notFresh := quiet position List.mem_cons_self
          rw [meaning] at notFresh
          cases notFresh
      | known bit =>
          have none : Band.zeros [BandCoefficient.known bit] = 0 := rfl
          rw [meaning] at becomes spans supplies
          rw [none, Nat.zero_add] at spans
          rw [none, Refinement.past_zero]
          obtain ⟨nonzero, valued⟩ := becomes.of_known
          obtain ⟨first, corrects, suppliesFirst⟩ := refineCoefficients_known current
            ((others ++ rest).map some) state (here.symm ▸ nonzero) supplies
          rw [here, ← valued] at corrects
          obtain ⟨left, block, walked, suppliesLeft, mergedAfter⟩ := inductionHypothesis
            splitNext current
            { state with
              reader := first
              block := state.block.set position.val (target.get position) }
            quietOthers spans suppliesFirst (merged.set position)
          refine ⟨left, block, ?_, suppliesLeft, ?_⟩
          · exact corrects.trans walked
          · rw [List.append_assoc] at mergedAfter
            exact mergedAfter

theorem refineCoefficients_symbol (told : Told low order content before target)
    (split : order = done ++ (skipped ++ position :: rest)) (state : BlockState)
    {first : BitReader} {value : Option Int16}
    (read : refinement ac low state =
      .ok (.zeros (Band.zeros (skipped.map content)) value) { state with reader := first })
    (quiet : ∀ position ∈ skipped, (content position).isFresh = false)
    (blank : before.get position = 0) (valued : target.get position = value.getD 0)
    (supplies : Supplies closing first (Band.corrections (skipped.map content) ++ more))
    (merged : Block.Merged before target done state.block) :
    ∃ left block, refineCoefficients ac low none ((skipped ++ position :: rest).map some) state =
        refineCoefficients ac low none (rest.map some)
          { state with reader := left, block := block } ∧
      Supplies closing left more ∧
      Block.Merged before target (done ++ (skipped ++ [position])) block := by
  obtain ⟨left, block, walked, suppliesLeft, mergedSkipped⟩ := refineCoefficients_walk told split
    (.zeros (Band.zeros (skipped.map content)) value) { state with reader := first } quiet
    (Nat.le_refl _) supplies merged
  have splitHere : order = done ++ skipped ++ position :: rest := by
    rw [List.append_assoc]
    exact split
  have zero : block.get position = 0 := (told.get splitHere mergedSkipped).trans blank
  have mergedHere := mergedSkipped.set position
  rw [List.append_assoc, valued] at mergedHere
  refine ⟨left, _, ?_, suppliesLeft, mergedHere⟩
  have nonempty : (skipped ++ position :: rest).map some ≠ [] := by simp
  rw [refineCoefficients_next nonempty read, walked, Refinement.past, Nat.sub_self,
    List.map_cons]
  exact refineCoefficients_value _ zero

/-! ### Positions since the last symbol -/

/-- Positions without first values of which those to correct come before the sixteenth zero. -/
def Early (content : Fin 64 → BandCoefficient) (skipped : List (Fin 64)) : Prop :=
  (∀ position ∈ skipped, (content position).isFresh = false) ∧
    ∃ front gap, skipped = front ++ gap ∧ Band.zeros (front.map content) ≤ 15 ∧
      ∀ position ∈ gap, content position = .zero

theorem Early.nil : Early content [] :=
  ⟨fun _ member => absurd member List.not_mem_nil, [], [], rfl, Nat.zero_le 15,
    fun _ member => absurd member List.not_mem_nil⟩

theorem Early.of_zeros (only : ∀ position ∈ skipped, content position = .zero) :
    Early content skipped := by
  refine ⟨fun position member => ?_, [], skipped, rfl, Nat.zero_le 15, only⟩
  rw [only position member]
  rfl

theorem Early.concat (early : Early content skipped) (zero : content position = .zero) :
    Early content (skipped ++ [position]) := by
  obtain ⟨quiet, front, gap, rfl, few, only⟩ := early
  refine ⟨?_, front, gap ++ [position], List.append_assoc _ _ _, few, ?_⟩
  · intro other member
    rcases List.mem_append.mp member with before | here
    · exact quiet other before
    · rw [List.mem_singleton.mp here, zero]
      rfl
  · intro other member
    rcases List.mem_append.mp member with before | here
    · exact only other before
    · rw [List.mem_singleton.mp here, zero]

/-- A coefficient that is to be corrected comes early when few zeros are left before it. -/
theorem Early.of_known (quiet : ∀ position ∈ skipped, (content position).isFresh = false)
    {bit : Bool} (known : content position = .known bit)
    (few : Band.zeros ((skipped ++ [position]).map content) ≤ 15) :
    Early content (skipped ++ [position]) := by
  refine ⟨fun other member => ?_, skipped ++ [position], [], (List.append_nil _).symm, few,
    fun _ member => absurd member List.not_mem_nil⟩
  rcases List.mem_append.mp member with before | here
  · exact quiet other before
  · rw [List.mem_singleton.mp here, known]
    rfl

theorem Early.sixteen (early : Early content skipped)
    (many : 16 ≤ Band.zeros (skipped.map content)) :
    ∃ first last left, skipped = first ++ last :: left ∧
      Band.zeros (first.map content) = 15 ∧ content last = .zero ∧
      (∀ position ∈ first, (content position).isFresh = false) ∧
      Band.corrections (first.map content) = Band.corrections (skipped.map content) ∧
      ∀ position ∈ left, content position = .zero := by
  obtain ⟨quiet, front, gap, rfl, few, only⟩ := early
  rw [List.map_append, Band.zeros_append, Band.zeros_map_zeros only] at many
  obtain ⟨count, total⟩ : ∃ count, Band.zeros (front.map content) + count = 15 :=
    ⟨15 - Band.zeros (front.map content), by omega⟩
  have inside : count < gap.length := by omega
  have whole : gap = gap.take count ++ gap[count] :: gap.drop (count + 1) := by
    rw [← List.drop_eq_getElem_cons inside, List.take_append_drop]
  have onlyTaken : ∀ position ∈ gap.take count, content position = .zero :=
    fun position member => only position (List.mem_of_mem_take member)
  refine ⟨front ++ gap.take count, gap[count], gap.drop (count + 1), ?_, ?_, ?_, ?_, ?_, ?_⟩
  · rw [List.append_assoc, ← whole]
  · rw [List.map_append, Band.zeros_append, Band.zeros_map_zeros onlyTaken, List.length_take]
    omega
  · exact only _ (List.getElem_mem inside)
  · intro position member
    apply quiet
    rcases List.mem_append.mp member with inFront | inGap
    · exact List.mem_append_left _ inFront
    · exact List.mem_append_right _ (List.mem_of_mem_take inGap)
  · rw [List.map_append, List.map_append, Band.corrections_append, Band.corrections_append,
      Band.corrections_map_zeros only, Band.corrections_map_zeros onlyTaken]
  · exact fun position member => only position (List.mem_of_mem_drop member)

/-! ### The symbols of a block -/

variable {encoder : ScanEncoder} {table : Fin 4}

/-- Symbols of sixteen zeros take as many zeros off the positions since the last symbol, and
whatever is to be corrected among them. -/
theorem refineCoefficients_zeroRuns (readWith : encoder.ReadWith .ac table ac)
    (told : Told low order content before target) (count : Nat) (state : BlockState)
    (split : order = done ++ (skipped ++ rest)) (early : Early content skipped)
    (enough : 16 * count ≤ Band.zeros (skipped.map content))
    (encodes : 0 < count → encoder.Encodes (Token.zeroRun table))
    (supplies : Supplies closing state.reader (encoder.piecesBits
      (Band.zeroRuns table count (Band.corrections (skipped.map content))) ++ more))
    (merged : Block.Merged before target done state.block) :
    ∃ walked kept left block, skipped = walked ++ kept ∧
      Band.zeros (kept.map content) + 16 * count = Band.zeros (skipped.map content) ∧
      Band.corrections (kept.map content) =
        Band.unsent count (Band.corrections (skipped.map content)) ∧
      refineCoefficients ac low none ((skipped ++ rest).map some) state =
        refineCoefficients ac low none ((kept ++ rest).map some)
          { state with reader := left, block := block } ∧
      Supplies closing left more ∧ Block.Merged before target (done ++ walked) block := by
  -- All corrections come before the sixteenth zero, so they follow the first symbol and the others
  -- have none.
  induction count generalizing skipped done state with
  | zero =>
      refine ⟨[], skipped, state.reader, state.block, rfl, rfl, rfl, rfl, supplies, ?_⟩
      rw [List.append_nil]
      exact merged
  | succ count inductionHypothesis =>
      obtain ⟨first, last, others, rfl, zeros, zero, quiet, corrections, only⟩ :=
        early.sixteen (by omega)
      have encodesRun := encodes (Nat.succ_pos count)
      rw [Band.zeroRuns, ← corrections, ScanEncoder.piecesBits_cons, List.append_assoc,
        ScanEncoder.piecesBits_append, ScanEncoder.piecesBits_bits, List.append_assoc] at supplies
      obtain ⟨start, read, suppliesStart⟩ :=
        refinement_zeroRun low readWith state encodesRun supplies
      rw [← zeros] at read
      have lastIn : last ∈ order := by
        rw [split]
        simp
      have stays := told.becomes last lastIn
      rw [zero] at stays
      have splitSymbol : order = done ++ (first ++ last :: (others ++ rest)) := by
        rw [split, List.append_assoc, List.cons_append]
      obtain ⟨left, block, symbolWalked, suppliesLeft, mergedSymbol⟩ := refineCoefficients_symbol
        told splitSymbol state read quiet stays.of_zero.1 stays.of_zero.2 suppliesStart merged
      have nothing : Band.corrections (others.map content) = [] :=
        Band.corrections_map_zeros only
      have sixteen : Band.zeros ((first ++ last :: others).map content) =
          16 + Band.zeros (others.map content) := by
        rw [List.map_append, List.map_cons, Band.zeros_append, Band.zeros_cons, zeros, zero,
          ← Nat.add_assoc]
        rfl
      rw [← nothing] at suppliesLeft
      obtain ⟨walked, kept, final, finalBlock, isOthers, zerosKept, correctionsKept, runsWalked,
        suppliesFinal, mergedFinal⟩ := inductionHypothesis
          { state with reader := left, block := block }
          (by rw [splitSymbol]; simp only [List.append_assoc, List.cons_append, List.nil_append])
          (Early.of_zeros only) (by omega) (fun _ => encodesRun) suppliesLeft mergedSymbol
      rw [nothing, Band.unsent_nil] at correctionsKept
      refine ⟨first ++ last :: walked, kept, final, finalBlock, ?_, by omega, correctionsKept, ?_,
        suppliesFinal, ?_⟩
      · rw [isOthers, List.append_assoc, List.cons_append]
      · rw [List.append_assoc, List.cons_append]
        exact symbolWalked.trans runsWalked
      · simp only [List.append_assoc, List.cons_append, List.nil_append] at mergedFinal ⊢
        exact mergedFinal

/-- Before a correction or a first value, every sixteen of the zeros since the last symbol have a
symbol of their own. -/
theorem refineCoefficients_flush (readWith : encoder.ReadWith .ac table ac)
    (told : Told low order content before target) (state : BlockState)
    (split : order = done ++ (skipped ++ rest)) (early : Early content skipped)
    (encodes : ∀ piece ∈ Band.zeroRuns table (Band.zeros (skipped.map content) / 16)
      (Band.corrections (skipped.map content)), encoder.EncodesPiece piece)
    (supplies : Supplies closing state.reader (encoder.piecesBits
      (Band.zeroRuns table (Band.zeros (skipped.map content) / 16)
        (Band.corrections (skipped.map content))) ++ more))
    (merged : Block.Merged before target done state.block) :
    ∃ walked kept left block, skipped = walked ++ kept ∧
      (∀ position ∈ kept, (content position).isFresh = false) ∧
      Band.zeros (kept.map content) = Band.zeros (skipped.map content) % 16 ∧
      Band.corrections (kept.map content) =
        Band.unsent (Band.zeros (skipped.map content) / 16)
          (Band.corrections (skipped.map content)) ∧
      refineCoefficients ac low none ((skipped ++ rest).map some) state =
        refineCoefficients ac low none ((kept ++ rest).map some)
          { state with reader := left, block := block } ∧
      Supplies closing left more ∧ Block.Merged before target (done ++ walked) block := by
  obtain ⟨walked, kept, left, block, isSkipped, zeros, corrections, runsWalked, suppliesLeft,
    mergedRuns⟩ := refineCoefficients_zeroRuns readWith told _ state split early
      (Nat.mul_div_le _ 16)
      (fun positive => encodes (.token _) (Band.mem_zeroRuns positive _)) supplies merged
  exact ⟨walked, kept, left, block, isSkipped,
    fun position member => early.1 position (isSkipped ▸ List.mem_append_right _ member),
    by omega, corrections, runsWalked, suppliesLeft, mergedRuns⟩

theorem refineCoefficients_fresh (readWith : encoder.ReadWith .ac table ac) (few : low ≤ 13)
    (told : Told low order content before target) (state : BlockState)
    (split : order = done ++ (skipped ++ position :: rest)) (early : Early content skipped)
    {value : Int16} (meaning : content position = .fresh value)
    (encodes : ∀ piece ∈ Band.valuePieces table (Band.zeros (skipped.map content))
      (Band.corrections (skipped.map content)) value, encoder.EncodesPiece piece)
    (supplies : Supplies closing state.reader (encoder.piecesBits
      (Band.valuePieces table (Band.zeros (skipped.map content))
        (Band.corrections (skipped.map content)) value) ++ more))
    (merged : Block.Merged before target done state.block) :
    ∃ left block, refineCoefficients ac low none ((skipped ++ position :: rest).map some) state =
        refineCoefficients ac low none (rest.map some)
          { state with reader := left, block := block } ∧
      Supplies closing left more ∧
      Block.Merged before target (done ++ (skipped ++ [position])) block := by
  have inOrder : position ∈ order := by
    rw [split]
    simp
  have becomes := told.becomes position inOrder
  rw [meaning] at becomes
  obtain ⟨blank, -, valued⟩ := becomes.of_fresh
  rw [Band.valuePieces, ScanEncoder.piecesBits_append, List.append_assoc] at supplies
  obtain ⟨walked, kept, first, block, rfl, quietKept, zeros, corrections, runsWalked,
    suppliesFirst, mergedRuns⟩ := refineCoefficients_flush readWith told state split early
      (fun piece member => encodes piece (List.mem_append_left _ member)) supplies merged
  have encodesValue := encodes (.token _) (List.mem_append_right _ List.mem_cons_self)
  rw [← zeros] at encodesValue
  rw [← zeros, ← corrections, ScanEncoder.piecesBits_cons, ScanEncoder.piecesBits_bits,
    List.append_assoc] at suppliesFirst
  obtain ⟨second, read, suppliesSecond⟩ := refinement_value readWith few
    { state with reader := first, block := block } (by omega)
    (told.unit position inOrder value meaning) encodesValue suppliesFirst
  have splitKept : order = (done ++ walked) ++ (kept ++ position :: rest) := by
    rw [split]
    simp only [List.append_assoc]
  obtain ⟨left, final, symbolWalked, suppliesLeft, mergedSymbol⟩ := refineCoefficients_symbol told
    splitKept { state with reader := first, block := block } read quietKept blank valued
    suppliesSecond mergedRuns
  refine ⟨left, final, runsWalked.trans symbolWalked, suppliesLeft, ?_⟩
  rw [List.append_assoc] at mergedSymbol ⊢
  exact mergedSymbol

/-- A correction waits for the next symbol, behind what is still waiting once every sixteen of
the zeros before it have their symbol. -/
theorem refineCoefficients_waiting (readWith : encoder.ReadWith .ac table ac)
    (told : Told low order content before target) (state : BlockState)
    (split : order = done ++ (skipped ++ rest)) (early : Early content skipped) {bit : Bool}
    (meaning : content position = .known bit)
    (encodes : ∀ piece ∈ Band.zeroRuns table (Band.zeros (skipped.map content) / 16)
      (Band.corrections (skipped.map content)), encoder.EncodesPiece piece)
    (supplies : Supplies closing state.reader (encoder.piecesBits
      (Band.zeroRuns table (Band.zeros (skipped.map content) / 16)
        (Band.corrections (skipped.map content))) ++ more))
    (merged : Block.Merged before target done state.block) :
    ∃ walked kept left block, skipped = walked ++ kept ∧
      Early content (kept ++ [position]) ∧
      Band.zeros ((kept ++ [position]).map content) = Band.zeros (skipped.map content) % 16 ∧
      Band.corrections ((kept ++ [position]).map content) =
        Band.unsent (Band.zeros (skipped.map content) / 16)
          (Band.corrections (skipped.map content)) ++ [bit] ∧
      refineCoefficients ac low none ((skipped ++ rest).map some) state =
        refineCoefficients ac low none ((kept ++ rest).map some)
          { state with reader := left, block := block } ∧
      Supplies closing left more ∧ Block.Merged before target (done ++ walked) block := by
  obtain ⟨walked, kept, left, block, isSkipped, quiet, zeros, corrections, runsWalked,
    suppliesLeft, mergedRuns⟩ :=
      refineCoefficients_flush readWith told state split early encodes supplies merged
  have zerosNext : Band.zeros ((kept ++ [position]).map content) =
      Band.zeros (skipped.map content) % 16 := by
    rw [Band.zeros_map_concat, meaning, zeros]
    rfl
  refine ⟨walked, kept, left, block, isSkipped, Early.of_known quiet meaning (by omega),
    zerosNext, ?_, runsWalked, suppliesLeft, mergedRuns⟩
  rw [Band.corrections_map_concat, meaning, corrections]
  rfl

private theorem bodyPieces_zero (skipped : List (Fin 64)) (rest : List BandCoefficient)
    (meaning : content position = .zero) :
    Band.bodyPieces table (Band.zeros (skipped.map content))
        (Band.corrections (skipped.map content)) (.zero :: rest) =
      Band.bodyPieces table (Band.zeros ((skipped ++ [position]).map content))
        (Band.corrections ((skipped ++ [position]).map content)) rest := by
  rw [Band.bodyPieces, Band.zeros_map_concat, Band.corrections_map_concat, meaning]
  congr 1
  exact (List.append_nil _).symm

/-- All symbols up to the last first value of a band. The positions since the last symbol are
carried along, and what their zeros and corrections amount to is what is still to be told. -/
theorem refineCoefficients_body (readWith : encoder.ReadWith .ac table ac) (few : low ≤ 13)
    (told : Told low order content before target) {ahead behind : List (Fin 64)}
    (state : BlockState) (split : order = done ++ (skipped ++ (ahead ++ behind)))
    (early : Early content skipped) (closed : Band.Closed (ahead.map content))
    (nothing : ahead = [] → skipped = [])
    (encodes : ∀ piece ∈ Band.bodyPieces table (Band.zeros (skipped.map content))
      (Band.corrections (skipped.map content)) (ahead.map content), encoder.EncodesPiece piece)
    (supplies : Supplies closing state.reader (encoder.piecesBits
      (Band.bodyPieces table (Band.zeros (skipped.map content))
        (Band.corrections (skipped.map content)) (ahead.map content)) ++ more))
    (merged : Block.Merged before target done state.block) :
    ∃ left block,
      refineCoefficients ac low none ((skipped ++ (ahead ++ behind)).map some) state =
        refineCoefficients ac low none (behind.map some)
          { state with reader := left, block := block } ∧
      Supplies closing left more ∧
      Block.Merged before target (done ++ (skipped ++ ahead)) block := by
  -- The decoder stands at the first position that no symbol has told about yet. What lies between
  -- it and the position in turn is carried along as `skipped`.
  induction ahead generalizing skipped done state with
  | nil =>
      obtain rfl := nothing rfl
      refine ⟨state.reader, state.block, rfl, supplies, ?_⟩
      rw [List.append_nil, List.append_nil]
      exact merged
  | cons position rest inductionHypothesis =>
      rw [List.map_cons] at closed encodes supplies
      have goesOn : (content position).isFresh = false → rest ≠ [] := fun stale empty =>
        closed.goesOn stale (List.map_eq_nil_iff.mpr empty)
      have moveOn : ∀ kept : List (Fin 64),
          kept ++ (position :: rest ++ behind) = kept ++ [position] ++ (rest ++ behind) := by
        intro kept
        simp only [List.append_assoc, List.cons_append, List.nil_append]
      cases meaning : content position with
      | zero =>
          rw [meaning, bodyPieces_zero skipped _ meaning] at encodes supplies
          rw [moveOn skipped] at split ⊢
          rw [meaning] at goesOn
          obtain ⟨left, block, decoded, suppliesLeft, mergedAfter⟩ := inductionHypothesis state
            split (early.concat meaning) closed.of_cons
            (fun empty => absurd empty (goesOn rfl)) encodes supplies merged
          rw [List.append_assoc, List.singleton_append] at mergedAfter
          exact ⟨left, block, decoded, suppliesLeft, mergedAfter⟩
      | known bit =>
          rw [meaning, Band.bodyPieces] at encodes supplies
          rw [meaning] at goesOn
          rw [ScanEncoder.piecesBits_append, List.append_assoc] at supplies
          obtain ⟨walked, kept, first, block, rfl, earlyNext, zeros, corrections, runsWalked,
            suppliesFirst, mergedRuns⟩ := refineCoefficients_waiting readWith told state split
              early meaning (fun piece member => encodes piece (List.mem_append_left _ member))
              supplies merged
          rw [← zeros, ← corrections] at encodes suppliesFirst
          rw [List.append_assoc walked, ← List.append_assoc done, moveOn kept] at split
          obtain ⟨left, final, decoded, suppliesLeft, mergedAfter⟩ := inductionHypothesis
            { state with reader := first, block := block } split earlyNext closed.of_cons
            (fun empty => absurd empty (goesOn rfl))
            (fun piece member => encodes piece (List.mem_append_right _ member)) suppliesFirst
            mergedRuns
          rw [← moveOn kept] at decoded
          refine ⟨left, final, runsWalked.trans decoded, suppliesLeft, ?_⟩
          simp only [List.append_assoc, List.singleton_append] at mergedAfter ⊢
          exact mergedAfter
      | fresh value =>
          rw [meaning, Band.bodyPieces_fresh] at encodes supplies
          rw [ScanEncoder.piecesBits_append, List.append_assoc] at supplies
          obtain ⟨first, block, symbolWalked, suppliesFirst, mergedSymbol⟩ :=
            refineCoefficients_fresh readWith few told state split early meaning
              (fun piece member => encodes piece (List.mem_append_left _ member)) supplies merged
          rw [moveOn skipped, ← List.append_assoc] at split
          obtain ⟨left, final, decoded, suppliesLeft, mergedAfter⟩ := inductionHypothesis
            { state with reader := first, block := block } split Early.nil closed.of_cons
            (fun _ => rfl) (fun piece member => encodes piece (List.mem_append_right _ member))
            suppliesFirst mergedSymbol
          rw [List.append_assoc, List.append_assoc, List.singleton_append] at mergedAfter
          exact ⟨left, final, symbolWalked.trans decoded, suppliesLeft, mergedAfter⟩

theorem refineCoefficients_tail (told : Told low order content before target)
    (split : order = done ++ skipped) (state : BlockState)
    (quiet : ∀ position ∈ skipped, (content position).isFresh = false)
    (supplies : Supplies closing state.reader
      (Band.corrections (skipped.map content) ++ more))
    (merged : Block.Merged before target done state.block)
    (outside : ∀ position, position ∉ order → target.get position = before.get position) :
    ∃ left, refineCoefficients ac low (some .endOfBand) (skipped.map some) state =
        .ok () { state with reader := left, block := target } ∧
      Supplies closing left more := by
  have splitAll : order = done ++ (skipped ++ []) := by
    rw [split, List.append_nil]
  obtain ⟨left, block, walked, suppliesLeft, mergedAll⟩ := refineCoefficients_walk told splitAll
    .endOfBand state quiet trivial supplies merged
  rw [← split] at mergedAll
  rw [List.append_nil] at walked
  refine ⟨left, ?_, suppliesLeft⟩
  rw [walked, mergedAll.eq outside, List.map_nil, refineCoefficients]
  rfl

theorem decode_acRefinement (readWith : encoder.ReadWith .ac table ac) (few : low ≤ 13)
    (state : BlockState) {own : List ScanPiece} {after : Nat}
    (codes : Band.Codes table state.endOfBandRun (order.map content) own after)
    (told : Told low order content state.block target)
    (outside : ∀ position, position ∉ order → target.get position = state.block.get position)
    (encodes : ∀ piece ∈ own, encoder.EncodesPiece piece)
    (supplies : Supplies closing state.reader (encoder.piecesBits own ++ more)) :
    ∃ left, (BlockCoding.acRefinement ac (order.map some) low).decode state =
        .ok () { state with reader := left, endOfBandRun := after, block := target } ∧
      Supplies closing left more := by
  obtain ⟨front, back, rfl, closed, quiet, codes⟩ := codes.exists_split
  change ∃ left, refineBand ac low ((front ++ back).map some) state = _ ∧ _
  unfold refineBand
  rw [run_bind_of_ok (run_get state)]
  generalize run : state.endOfBandRun = before at codes
  -- Where an end of band covers the rest of a block, coefficients that are not zero are corrected
  -- still.
  cases codes with
  | whole =>
      obtain ⟨left, block, decoded, suppliesLeft, merged⟩ := refineCoefficients_body readWith few
        told state rfl Early.nil closed (fun _ => rfl) encodes supplies
        (Block.Merged.start state.block target)
      rw [List.append_nil] at outside
      obtain rfl : block = target := merged.eq outside
      rw [List.nil_append] at decoded
      refine ⟨left, ?_, suppliesLeft⟩
      rw [if_neg (Nat.lt_irrefl 0), run_bind_of_ok decoded, run_modify]
      dsimp only
      rw [run]
  | ends goesOn fewBlocks =>
      rw [ScanEncoder.piecesBits_append, ScanEncoder.piecesBits_cons,
        ScanEncoder.piecesBits_bits, List.append_assoc, List.append_assoc] at supplies
      obtain ⟨first, block, decoded, suppliesFirst, merged⟩ := refineCoefficients_body readWith
        few told state rfl Early.nil closed (fun _ => rfl)
        (fun piece member => encodes piece (List.mem_append_left _ member)) supplies
        (Block.Merged.start state.block target)
      obtain ⟨second, ended, suppliesSecond⟩ := refinement_endOfBand low readWith
        { state with reader := first, block := block } fewBlocks
        (encodes (.token _) (List.mem_append_right _ List.mem_cons_self)) suppliesFirst
      obtain ⟨left, corrects, suppliesLeft⟩ := refineCoefficients_tail told rfl
        { state with reader := second, block := block, endOfBandRun := after + 1 } quiet
        suppliesSecond merged outside
      have nonempty : back.map some ≠ [] := fun empty => goesOn (List.map_eq_nil_iff.mp empty)
      refine ⟨left, ?_, suppliesLeft⟩
      rw [List.nil_append, refineCoefficients_next nonempty ended] at decoded
      rw [if_neg (Nat.lt_irrefl 0), run_bind_of_ok (decoded.trans corrects), run_modify]
      rfl
  | covered =>
      rw [ScanEncoder.piecesBits_bits] at supplies
      obtain ⟨left, corrects, suppliesLeft⟩ := refineCoefficients_tail told rfl state quiet
        supplies (Block.Merged.start state.block target) outside
      refine ⟨left, ?_, suppliesLeft⟩
      rw [if_pos (Nat.succ_pos after), List.nil_append, run_bind_of_ok corrects, run_modify]
      dsimp only
      rw [run]
      rfl

end Walking

end BlockDecoder

end LosslessJpeg
