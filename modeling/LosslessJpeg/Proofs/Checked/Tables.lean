import LosslessJpeg.Block.Quantizer
import LosslessJpeg.Huffman.Table
import LosslessJpeg.Proofs.Checked.Segments

set_option autoImplicit false

/-!
Reading the segments that define quantization tables and Huffman tables, with every access to
the body checked. A segment holds tables back to back, from a position on.
-/

namespace LosslessJpeg

namespace Checked

def wordAt (body : List UInt8) (position index : Nat) : Checked CodecError UInt16 := do
  let high ← item body (position + index * 2)
  let low ← item body (position + index * 2 + 1)
  pure (UInt16.ofNat (word high low))

def quantizerEntries (body : List UInt8) (precision position : Nat) :
    Checked CodecError (List UInt16) :=
  match precision with
  | 0 => do
      fits 64 (position + 64)
      if body.length < position + 64 then
        fail .unexpectedEnd
      else do
        let entries ← items body position 64
        pure (entries.map (·.toUInt16))
  | 1 => do
      fits 64 (position + 128)
      if body.length < position + 128 then
        fail .unexpectedEnd
      else
        (List.range 64).mapM (wordAt body position)
  | _ => fail (.malformed .quantizerPrecision)

/-- The quantization tables from a position on. The entries of a table go to the places that the
zigzag order names, all of which lie in the table. -/
def quantizersFrom (body : List UInt8) (position : Nat) :
    Checked CodecError (List (Fin 4 × QuantizerTable)) :=
  if _inside : position < body.length then do
    let head ← item body position
    fits 64 (position + 1)
    if inRange : lowNibble head < 4 then
      let entries ← quantizerEntries body (highNibble head) (position + 1)
      if entries.contains 0 then
        fail (.malformed .zeroQuantizer)
      else
        let others ← quantizersFrom body (position + 1 + 64 * (highNibble head + 1))
        pure ((⟨lowNibble head, inRange⟩, ofZigzag 0 entries) :: others)
    else
      fail (.quantizerId (lowNibble head))
  else
    pure []
termination_by body.length - position

def sixteen (bytes : List UInt8) : Checked CodecError (Vector UInt8 16) :=
  if same : bytes.length = 16 then
    .ok ⟨bytes.toArray, by simpa using same⟩
  else
    .error (.fault .slice)

def huffmanTableAt (body : List UInt8) (head : UInt8) (position : Nat) :
    Checked CodecError HuffmanTable := do
  fits 64 (position + 16)
  if body.length < position + 16 then
    fail .unexpectedEnd
  else do
    let copied ← slice body position (position + 16)
    let counts ← sixteen copied
    let total := (counts.toList.map (·.toNat)).foldr (· + ·) 0
    fits 64 total
    if 256 < total then
      fail (.malformed .tooManySymbols)
    else do
      fits 64 (position + 16 + total)
      if body.length < position + 16 + total then
        fail .unexpectedEnd
      else do
        let symbols ← slice body (position + 16) (position + 16 + total)
        pure
          { tableClass := UInt8.ofNat (highNibble head)
            id := UInt8.ofNat (lowNibble head)
            counts := counts
            symbols := symbols }

def huffmanTablesFrom (body : List UInt8) (position : Nat) :
    Checked CodecError (List HuffmanTable) :=
  if _inside : position < body.length then do
    let head ← item body position
    fits 64 (position + 1)
    if 1 < highNibble head ∨ 3 < lowNibble head then
      fail (.huffmanTableId head.toNat)
    else
      let table ← huffmanTableAt body head (position + 1)
      let others ← huffmanTablesFrom body (position + 17 + table.symbols.length)
      pure (table :: others)
  else
    pure []
termination_by body.length - position

variable {body : List UInt8}

private theorem quantizersOfBody_cons {head : UInt8} (entries : List UInt8)
    (inRange : lowNibble head < 4) :
    quantizersOfBody (head :: entries) =
      takeQuantizers (highNibble head) entries >>= fun taken =>
        if taken.1.contains 0 then
          .error (.malformed .zeroQuantizer)
        else
          ((⟨lowNibble head, inRange⟩, ofZigzag 0 taken.1) :: ·) <$>
            quantizersOfBody taken.2 := by
  rw [quantizersOfBody, dif_pos inRange]
  split
  · rename_i failed
    rw [failed]
    rfl
  · rename_i taken
    rw [bind_of_ok taken]
    rfl

private theorem huffmanTablesOfBody_cons {head : UInt8} (rest : List UInt8)
    (known : ¬ (1 < highNibble head ∨ 3 < lowNibble head)) :
    huffmanTablesOfBody (head :: rest) =
      takeHuffmanTable head rest >>= fun taken =>
        (taken.1 :: ·) <$> huffmanTablesOfBody taken.2 := by
  rw [huffmanTablesOfBody, if_neg known]
  split
  · rename_i failed
    rw [failed]
    rfl
  · rename_i taken
    rw [bind_of_ok taken]
    rfl

private theorem wordsAt_of_le {position start count : Nat}
    (within : position + (start + count) * 2 ≤ body.length) :
    (List.range' start count).mapM (wordAt body position) =
      .ok ((words ((body.drop (position + start * 2)).take (count * 2))).map UInt16.ofNat) := by
  induction count generalizing start with
  | zero =>
      rw [Nat.zero_mul]
      rfl
  | succ count inductionHypothesis =>
      have first : position + start * 2 < body.length := by omega
      have second : position + start * 2 + 1 < body.length := by omega
      have next : position + start * 2 + 1 + 1 = position + (start + 1) * 2 := by omega
      have pair : (count + 1) * 2 = count * 2 + 1 + 1 := by omega
      rw [List.range'_succ, List.mapM_cons, wordAt, bind_of_ok (item_of_lt first),
        bind_of_ok (item_of_lt second), pure_bind, bind_of_ok (inductionHypothesis (by omega)),
        List.drop_eq_getElem_cons first, List.drop_eq_getElem_cons second, next, pair]
      rfl

private theorem quantizerEntries_follows (precision : Nat) {position : Nat}
    (short : body.length ≤ 65533) (within : position ≤ body.length) :
    Follows (fun entries taken => entries = taken.1 ∧
        taken.2 = body.drop (position + 64 * (precision + 1)))
      (quantizerEntries body precision position)
      (takeQuantizers precision (body.drop position)) := by
  match precision with
  | 0 =>
      rw [quantizerEntries, takeQuantizers, bind_of_ok (fits_of_lt (by omega)), List.length_take,
        List.length_drop]
      by_cases lacking : body.length < position + 64
      · rw [if_pos lacking, if_pos (by omega)]
        exact .failure _
      · rw [if_neg lacking, if_neg (by omega), bind_of_ok (items_of_le (by omega)),
          List.drop_drop]
        exact .ok ⟨rfl, rfl⟩
  | 1 =>
      rw [quantizerEntries, takeQuantizers, bind_of_ok (fits_of_lt (by omega)), List.length_take,
        List.length_drop]
      by_cases lacking : body.length < position + 128
      · rw [if_pos lacking, if_pos (by omega)]
        exact .failure _
      · rw [if_neg lacking, if_neg (by omega), List.range_eq_range',
          wordsAt_of_le (by omega), List.drop_drop]
        exact .ok ⟨rfl, rfl⟩
  | _ + 2 => exact .failure _

theorem quantizersFrom_follows (short : body.length ≤ 65533) (position : Nat) :
    Follows Eq (quantizersFrom body position) (quantizersOfBody (body.drop position)) := by
  fun_induction quantizersFrom body position with
  | case1 position inside inductionHypothesis =>
      rw [bind_of_ok (item_of_lt inside), bind_of_ok (fits_of_lt (by omega)),
        List.drop_eq_getElem_cons inside]
      by_cases inRange : lowNibble body[position] < 4
      · rw [dif_pos inRange, quantizersOfBody_cons _ inRange]
        refine (quantizerEntries_follows _ short inside).bind ?_
        rintro entries ⟨taken, rest⟩ ⟨rfl, rfl⟩
        dsimp only
        split
        · exact .failure _
        · exact (inductionHypothesis body[position]).map fun walked other alike =>
            congrArg _ alike
      · rw [dif_neg inRange, quantizersOfBody, dif_neg inRange]
        exact .failure _
  | case2 position outside =>
      rw [List.drop_eq_nil_of_le (by omega), quantizersOfBody]
      exact .ok rfl

private theorem takeCounts_of_le {rest : List UInt8} (enough : 16 ≤ rest.length) :
    ∃ counts, takeCounts rest = some (counts, rest.drop 16) ∧
      sixteen (rest.take 16) = .ok counts := by
  have same : (rest.take 16).length = 16 := by
    rw [List.length_take]
    omega
  refine ⟨⟨(rest.take 16).toArray, by simpa using same⟩, ?_, ?_⟩
  · rw [takeCounts, dif_pos same]
  · rw [sixteen, dif_pos same]

private theorem takeCounts_of_short {rest : List UInt8} (short : rest.length < 16) :
    takeCounts rest = none := by
  rw [takeCounts, dif_neg (by rw [List.length_take]; omega)]

theorem total_le (counts : List UInt8) :
    (counts.map (·.toNat)).foldr (· + ·) 0 ≤ 255 * counts.length := by
  induction counts with
  | nil => exact Nat.le_refl _
  | cons count rest inductionHypothesis =>
      have eight := count.toNat_lt
      rw [List.map_cons, List.foldr_cons, List.length_cons]
      omega

private theorem huffmanTableAt_follows (head : UInt8) {position : Nat}
    (short : body.length ≤ 65533) (within : position ≤ body.length) :
    Follows (fun table taken => table = taken.1 ∧
        taken.2 = body.drop (position + 16 + table.symbols.length))
      (huffmanTableAt body head position) (takeHuffmanTable head (body.drop position)) := by
  unfold huffmanTableAt takeHuffmanTable
  rw [bind_of_ok (fits_of_lt (by omega))]
  have length := List.length_drop (i := position) (l := body)
  by_cases lacking : body.length < position + 16
  · rw [if_pos lacking, takeCounts_of_short (by omega)]
    exact .failure _
  · obtain ⟨counts, taken, copied⟩ := @takeCounts_of_le (body.drop position) (by omega)
    have few := total_le counts.toList
    rw [Vector.length_toList] at few
    have part : (body.take (position + 16)).drop position = (body.drop position).take 16 := by
      rw [List.drop_take, Nat.add_sub_cancel_left]
    rw [if_neg lacking, bind_of_ok (slice_of_le (by omega) (by omega)), part, bind_of_ok copied,
      bind_of_ok (fits_of_lt (by omega)), taken]
    dsimp only
    generalize (counts.toList.map (·.toNat)).foldr (· + ·) 0 = total at few ⊢
    split
    · exact .failure _
    · rw [bind_of_ok (fits_of_lt (by omega)), List.drop_drop, List.length_take, List.length_drop]
      by_cases missing : body.length < position + 16 + total
      · rw [if_pos missing, if_pos (by omega)]
        exact .failure _
      · rw [if_neg missing, if_neg (by omega), bind_of_ok (slice_of_le (by omega) (by omega)),
          List.drop_take, Nat.add_sub_cancel_left, List.drop_drop]
        refine .ok ⟨rfl, ?_⟩
        rw [List.length_take, List.length_drop, Nat.min_eq_left (by omega)]

theorem huffmanTablesFrom_follows (short : body.length ≤ 65533) (position : Nat) :
    Follows Eq (huffmanTablesFrom body position) (huffmanTablesOfBody (body.drop position)) := by
  fun_induction huffmanTablesFrom body position with
  | case1 position inside inductionHypothesis =>
      rw [bind_of_ok (item_of_lt inside), bind_of_ok (fits_of_lt (by omega)),
        List.drop_eq_getElem_cons inside]
      by_cases unknown : 1 < highNibble body[position] ∨ 3 < lowNibble body[position]
      · rw [if_pos unknown, huffmanTablesOfBody, if_pos unknown]
        exact .failure _
      · rw [if_neg unknown, huffmanTablesOfBody_cons _ unknown]
        refine (huffmanTableAt_follows _ short inside).bind ?_
        rintro table ⟨taken, rest⟩ ⟨rfl, rfl⟩
        exact (inductionHypothesis table).map fun walked other alike => congrArg _ alike
  | case2 position outside =>
      rw [List.drop_eq_nil_of_le (by omega), huffmanTablesOfBody]
      exact .ok rfl

end Checked

end LosslessJpeg
