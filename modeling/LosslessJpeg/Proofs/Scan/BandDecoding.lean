import LosslessJpeg.Proofs.Scan.SignMagnitude

set_option autoImplicit false

/-!
Decoding what a progressive scan tells of the band of one block: the first scan of the band, and
the scans that carry one more bit. Both walk over the positions of the band, and both may find
that the band has ended in an earlier block.
-/

namespace LosslessJpeg

open BitReader (Supplies)

/-- A block of which the coefficients at some positions are those of `target` already. -/
def Block.Merged (before target : Block) (done : List (Fin 64)) (block : Block) : Prop :=
  ∀ position : Fin 64, block.get position =
    if position ∈ done then target.get position else before.get position

namespace Block.Merged

variable {before target block : Block} {done : List (Fin 64)} {position : Fin 64}

theorem start (block target : Block) : Merged block target [] block :=
  fun _ => (if_neg List.not_mem_nil).symm

theorem set (merged : Merged before target done block) (position : Fin 64) :
    Merged before target (done ++ [position])
      (block.set position.val (target.get position) position.isLt) := by
  intro other
  rw [get_set, merged other]
  by_cases same : position = other
  · rw [if_pos same, if_pos (by simp [same]), same]
  · rw [if_neg same]
    simp [Ne.symm same]

theorem keep (merged : Merged before target done block) {positions : List (Fin 64)}
    (same : ∀ position ∈ positions, target.get position = before.get position) :
    Merged before target (done ++ positions) block := by
  intro other
  rw [merged other]
  by_cases member : other ∈ positions
  · rw [same other member]
    simp
  · simp [member]

theorem eq (merged : Merged before target done block)
    (outside : ∀ position, position ∉ done → target.get position = before.get position) :
    block = target := by
  apply ext_get
  intro position
  rw [merged position]
  split
  · rfl
  · rename_i member
    exact (outside position member).symm

end Block.Merged

namespace BlockDecoder

variable {encoder : ScanEncoder} {table : Fin 4} {ac : HuffmanDecoder} {closing : Closing}
  {more : List Bool} {low : Nat} {content : Fin 64 → BandCoefficient} {before target : Block}

theorem endOfBand_of_supplies (state : BlockState) {blocks : Nat} (some : 0 < blocks)
    (supplies : Supplies closing state.reader
      (binary (Nat.log2 blocks) (blocks - 2 ^ Nat.log2 blocks) ++ more)) :
    ∃ left, endOfBand (Nat.log2 blocks) state = .ok blocks { state with reader := left } ∧
      Supplies closing left more := by
  have atLeast := Nat.log2_self_le (Nat.ne_of_gt some)
  have below := Nat.lt_log2_self (n := blocks)
  rw [Nat.pow_succ] at below
  have total : (1 <<< Nat.log2 blocks) + (blocks - 2 ^ Nat.log2 blocks) = blocks := by
    rw [Nat.one_shiftLeft]
    omega
  unfold endOfBand
  by_cases single : Nat.log2 blocks = 0
  · rw [if_pos single]
    rw [single] at below total supplies
    obtain rfl : blocks = 1 := by omega
    exact ⟨state.reader, rfl, supplies⟩
  · obtain ⟨left, read, suppliesLeft⟩ := supplies.readField
      (by omega : blocks - 2 ^ Nat.log2 blocks < 2 ^ Nat.log2 blocks)
    have bitsRead : bits (Nat.log2 blocks) state =
        .ok (blocks - 2 ^ Nat.log2 blocks) { state with reader := left } := ofBits_of_ok read
    refine ⟨left, ?_, suppliesLeft⟩
    rw [if_neg single, run_bind_of_ok bitsRead]
    exact congrArg (EStateM.Result.ok · _) total

theorem read_endOfBand (readWith : encoder.ReadWith .ac table ac) (state : BlockState)
    {after : Nat} (few : after + 1 ≤ 32767)
    (encodes : encoder.Encodes (Token.endOfBand table (after + 1)))
    (supplies : Supplies closing state.reader
      (encoder.tokenBits (Token.endOfBand table (after + 1)) ++ more)) :
    ∃ first left, symbol ac state =
        .ok (nibbles (Nat.log2 (after + 1)) 0) { state with reader := first } ∧
      Nat.log2 (after + 1) < 15 ∧
      endOfBand (Nat.log2 (after + 1)) { state with reader := first } =
        .ok (after + 1) { state with reader := left } ∧
      Supplies closing left more := by
  obtain ⟨first, read, suppliesFirst⟩ := read_token
    (fun codeword => readWith _ codeword rfl rfl) encodes supplies
  obtain ⟨left, counted, suppliesLeft⟩ :=
    endOfBand_of_supplies { state with reader := first } (Nat.succ_pos after) suppliesFirst
  refine ⟨first, left, symbol_of_ok read, ?_, counted, suppliesLeft⟩
  exact (Nat.log2_lt (Nat.succ_ne_zero after)).mpr (by omega)

theorem acCoefficients_endOfBand (readWith : encoder.ReadWith .ac table ac)
    (state : BlockState) {positions : List (Option (Fin 64))} (goesOn : positions ≠ [])
    {after : Nat} (few : after + 1 ≤ 32767)
    (encodes : encoder.Encodes (Token.endOfBand table (after + 1)))
    (supplies : Supplies closing state.reader
      (encoder.tokenBits (Token.endOfBand table (after + 1)) ++ more)) :
    ∃ left, acCoefficients ac low true positions state =
        .ok () { state with reader := left, endOfBandRun := after } ∧
      Supplies closing left more := by
  obtain ⟨first, left, read, small, counted, suppliesLeft⟩ :=
    read_endOfBand readWith state few encodes supplies
  obtain ⟨target, others, rfl⟩ := List.exists_cons_of_ne_nil goesOn
  refine ⟨left, ?_, suppliesLeft⟩
  have run : highNibble (nibbles (Nat.log2 (after + 1)) 0) = Nat.log2 (after + 1) :=
    highNibble_nibbles (by omega)
  have size : lowNibble (nibbles (Nat.log2 (after + 1)) 0) = 0 := lowNibble_nibbles (by decide)
  rw [acCoefficients, run_bind_of_ok read, run, size, if_pos rfl, if_neg (by omega),
    if_neg (by simp), run_bind_of_ok counted]
  rfl

private theorem acCoefficients_fresh (readWith : encoder.ReadWith .ac table ac)
    (state : BlockState) (skipped : List (Option (Fin 64))) {position : Fin 64} {value : Int16}
    (becomes : Becomes low (before.get position) (.fresh value) (target.get position))
    (others : List (Option (Fin 64)))
    (encodes : ∀ piece ∈ Band.valuePieces table skipped.length [] value,
      encoder.EncodesPiece piece)
    (supplies : Supplies closing state.reader
      (encoder.piecesBits (Band.valuePieces table skipped.length [] value) ++ more)) :
    ∃ left, acCoefficients ac low true (skipped ++ some position :: others) state =
        acCoefficients ac low true others
          { state with
            reader := left
            block := state.block.setIfInBounds position.val (target.get position) } ∧
      Supplies closing left more := by
  obtain ⟨-, nonzero, valued⟩ := becomes.of_fresh
  rw [Band.valuePieces, Band.unsent_nil, Band.zeroRuns_nil, List.map_nil] at encodes supplies
  rw [ScanEncoder.piecesBits_append, ScanEncoder.piecesBits_tokens,
    ScanEncoder.piecesBits_cons, List.append_assoc, List.append_assoc] at supplies
  have encodesZeros : 0 < skipped.length / 16 → encoder.Encodes (Token.zeroRun table) :=
    fun positive => encodes (.token (Token.zeroRun table)) (List.mem_append_left _
      (List.mem_map_of_mem (List.mem_replicate.mpr ⟨Nat.ne_of_gt positive, rfl⟩)))
  have encodesValue : encoder.Encodes (Token.ac table (skipped.length % 16) value) :=
    encodes (.token _) (List.mem_append_right _ List.mem_cons_self)
  obtain ⟨left, valueRead, suppliesLeft⟩ := acCoefficients_run readWith low true state
    nonzero skipped position others encodesZeros encodesValue supplies
  rw [← valued] at valueRead
  exact ⟨left, valueRead, suppliesLeft⟩

/-- The symbols of a body set its coefficients, all of which have been zero. -/
theorem acCoefficients_body (readWith : encoder.ReadWith .ac table ac)
    (behind : List (Option (Fin 64))) {ahead done : List (Fin 64)} (state : BlockState)
    (skipped : List (Option (Fin 64))) (closed : Band.Closed (ahead.map content))
    (nothing : ahead = [] → skipped = [])
    (becomes : ∀ position ∈ ahead,
      Becomes low (before.get position) (content position) (target.get position))
    (blank : ∀ position ∈ ahead, before.get position = 0)
    (encodes : ∀ piece ∈ Band.bodyPieces table skipped.length [] (ahead.map content),
      encoder.EncodesPiece piece)
    (supplies : Supplies closing state.reader
      (encoder.piecesBits (Band.bodyPieces table skipped.length [] (ahead.map content)) ++ more))
    (merged : Block.Merged before target done state.block) :
    ∃ left block, acCoefficients ac low true (skipped ++ (ahead.map some ++ behind)) state =
        acCoefficients ac low true behind { state with reader := left, block := block } ∧
      Supplies closing left more ∧ Block.Merged before target (done ++ ahead) block := by
  -- The zeros since the last symbol are carried as `skipped`, whose length is the run that the
  -- next symbol tells.
  induction ahead generalizing skipped state done with
  | nil =>
      rw [nothing rfl]
      refine ⟨state.reader, state.block, rfl, supplies, ?_⟩
      rw [List.append_nil]
      exact merged
  | cons position rest inductionHypothesis =>
      have becomesRest : ∀ other ∈ rest,
          Becomes low (before.get other) (content other) (target.get other) :=
        fun other member => becomes other (List.mem_cons_of_mem _ member)
      have blankRest : ∀ other ∈ rest, before.get other = 0 :=
        fun other member => blank other (List.mem_cons_of_mem _ member)
      have here := becomes position List.mem_cons_self
      rw [List.map_cons] at closed encodes supplies
      cases told : content position with
      | zero =>
          rw [told] at closed encodes supplies here
          obtain ⟨blankHere, zero⟩ := here.of_zero
          have longer : (skipped ++ [some position]).length = skipped.length + 1 := by
            rw [List.length_append, List.length_singleton]
          rw [Band.bodyPieces, ← longer] at encodes supplies
          have kept : Block.Merged before target (done ++ [position]) state.block :=
            merged.keep fun other member => by
              rw [List.mem_singleton.mp member, blankHere, zero]
          obtain ⟨left, block, decoded, suppliesLeft, mergedRest⟩ := inductionHypothesis state
            (skipped ++ [some position]) closed.of_cons
            (fun empty => absurd (by rw [empty]; rfl) (closed.goesOn rfl)) becomesRest blankRest
            encodes supplies kept
          rw [List.append_assoc] at decoded mergedRest
          exact ⟨left, block, decoded, suppliesLeft, mergedRest⟩
      | fresh value =>
          rw [told] at closed encodes supplies here
          rw [Band.bodyPieces_fresh] at encodes supplies
          rw [ScanEncoder.piecesBits_append, List.append_assoc] at supplies
          obtain ⟨first, valueRead, suppliesFirst⟩ := acCoefficients_fresh readWith state skipped
            here (rest.map some ++ behind)
            (fun piece member => encodes piece (List.mem_append_left _ member)) supplies
          rw [setIfInBounds_val] at valueRead
          obtain ⟨left, block, decoded, suppliesLeft, mergedRest⟩ := inductionHypothesis
            { state with
              reader := first
              block := state.block.set position.val (target.get position) }
            [] closed.of_cons (fun _ => rfl) becomesRest blankRest
            (fun piece member => encodes piece (List.mem_append_right _ member)) suppliesFirst
            (merged.set position)
          rw [List.append_assoc] at mergedRest
          exact ⟨left, block, valueRead.trans decoded, suppliesLeft, mergedRest⟩
      | known bit =>
          rw [told] at here
          exact absurd (blank position List.mem_cons_self) here.of_known.1

private theorem acCoefficients_target (readWith : encoder.ReadWith .ac table ac)
    (state : BlockState) {front : List (Fin 64)} (behind : List (Option (Fin 64)))
    (closed : Band.Closed (front.map content))
    (becomes : ∀ position ∈ front,
      Becomes low (state.block.get position) (content position) (target.get position))
    (blank : ∀ position ∈ front, state.block.get position = 0)
    (outside : ∀ position, position ∉ front → target.get position = state.block.get position)
    (encodes : ∀ piece ∈ Band.bodyPieces table 0 [] (front.map content),
      encoder.EncodesPiece piece)
    (supplies : Supplies closing state.reader
      (encoder.piecesBits (Band.bodyPieces table 0 [] (front.map content)) ++ more)) :
    ∃ left, acCoefficients ac low true (front.map some ++ behind) state =
        acCoefficients ac low true behind { state with reader := left, block := target } ∧
      Supplies closing left more := by
  obtain ⟨left, block, decoded, suppliesLeft, merged⟩ := acCoefficients_body readWith behind state
    [] closed (fun _ => rfl) becomes blank encodes supplies
    (Block.Merged.start state.block target)
  rw [merged.eq outside] at decoded
  exact ⟨left, decoded, suppliesLeft⟩

theorem decode_acFirst (readWith : encoder.ReadWith .ac table ac) (state : BlockState)
    {positions : List (Fin 64)} {own : List ScanPiece} {after : Nat}
    (codes : Band.Codes table state.endOfBandRun (positions.map content) own after)
    (becomes : ∀ position ∈ positions,
      Becomes low (state.block.get position) (content position) (target.get position))
    (blank : ∀ position ∈ positions, state.block.get position = 0)
    (outside : ∀ position, position ∉ positions →
      target.get position = state.block.get position)
    (encodes : ∀ piece ∈ own, encoder.EncodesPiece piece)
    (supplies : Supplies closing state.reader (encoder.piecesBits own ++ more)) :
    ∃ left, (BlockCoding.acFirst ac (positions.map some) low).decode state =
        .ok () { state with reader := left, endOfBandRun := after, block := target } ∧
      Supplies closing left more := by
  obtain ⟨front, back, rfl, closed, quiet, codes⟩ := codes.exists_split
  -- Behind the last first value there is nothing but zeros, and they stay.
  have stays : ∀ position ∈ back,
      content position = .zero ∧ target.get position = state.block.get position := by
    intro position member
    have inBand : position ∈ front ++ back := List.mem_append_right _ member
    exact (becomes position inBand).of_quiet (blank position inBand) (quiet position member)
  have noCorrections : Band.corrections (back.map content) = [] :=
    Band.corrections_map_zeros fun position member => (stays position member).1
  have outsideFront : ∀ position, position ∉ front →
      target.get position = state.block.get position := by
    intro position absent
    by_cases inBack : position ∈ back
    · exact (stays position inBack).2
    · exact outside position (List.not_mem_append absent inBack)
  have becomesFront : ∀ position ∈ front,
      Becomes low (state.block.get position) (content position) (target.get position) :=
    fun position member => becomes position (List.mem_append_left _ member)
  have blankFront : ∀ position ∈ front, state.block.get position = 0 :=
    fun position member => blank position (List.mem_append_left _ member)
  change ∃ left, acBand ac low true ((front ++ back).map some) state = _ ∧ _
  unfold acBand
  rw [run_bind_of_ok (run_get state), List.map_append]
  generalize run : state.endOfBandRun = before at codes
  -- A block is coded whole, or ends with a symbol of its own, or is covered by an end of band
  -- before.
  cases codes with
  | whole =>
      obtain ⟨left, decoded, suppliesLeft⟩ := acCoefficients_target readWith state [] closed
        becomesFront blankFront outsideFront encodes supplies
      refine ⟨left, ?_, suppliesLeft⟩
      rw [acCoefficients] at decoded
      rw [if_neg (Nat.lt_irrefl 0), ← run]
      exact decoded
  | ends goesOn few =>
      rw [ScanEncoder.piecesBits_append, ScanEncoder.piecesBits_cons, noCorrections,
        List.append_assoc, List.append_assoc] at supplies
      obtain ⟨first, decoded, suppliesFirst⟩ := acCoefficients_target readWith state
        (back.map some) closed becomesFront blankFront outsideFront
        (fun piece member => encodes piece (List.mem_append_left _ member)) supplies
      obtain ⟨left, ended, suppliesLeft⟩ := acCoefficients_endOfBand readWith
        { state with reader := first, block := target }
        (fun empty => goesOn (List.map_eq_nil_iff.mp empty)) few
        (encodes (.token _) (List.mem_append_right _ List.mem_cons_self)) suppliesFirst
      refine ⟨left, ?_, suppliesLeft⟩
      rw [if_neg (Nat.lt_irrefl 0)]
      exact decoded.trans ended
  | covered =>
      rw [noCorrections] at supplies
      obtain rfl : state.block = target :=
        (Block.Merged.start state.block target).eq fun position _ =>
          outsideFront position List.not_mem_nil
      refine ⟨state.reader, ?_, supplies⟩
      rw [if_pos (Nat.succ_pos _)]
      rfl

end BlockDecoder

end LosslessJpeg
