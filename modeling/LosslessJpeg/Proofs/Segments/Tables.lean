import LosslessJpeg.Block.Quantizer
import LosslessJpeg.Huffman.Table
import LosslessJpeg.Proofs.Bytes
import LosslessJpeg.Proofs.Sequencing
import LosslessJpeg.Proofs.Vectors
import Mathlib.Order.Fin.Basic

set_option autoImplicit false

/-!
Tables come back from the bodies of the segments that define them.
-/

namespace LosslessJpeg

private theorem length_flatMap_le {α : Type} {items : List α} {content : α → List UInt8}
    {bound : Nat} (each : ∀ item ∈ items, (content item).length ≤ bound) :
    (items.flatMap content).length ≤ bound * items.length := by
  induction items with
  | nil => exact Nat.le_refl 0
  | cons item rest inductionHypothesis =>
      have here := each item List.mem_cons_self
      have later := inductionHypothesis fun other member =>
        each other (List.mem_cons_of_mem _ member)
      rw [List.flatMap_cons, List.length_append, List.length_cons, Nat.mul_add]
      omega

namespace HuffmanTable

structure Definable (table : HuffmanTable) : Prop where
  tableClass : table.tableClass.toNat ≤ 1
  id : table.id.toNat ≤ 3
  symbols : table.symbols.length = table.countList.sum
  few : table.countList.sum ≤ 256

end HuffmanTable

private theorem takeCounts_append (counts : Vector UInt8 16) (rest : List UInt8) :
    takeCounts (counts.toList ++ rest) = some (counts, rest) := by
  have length : counts.toList.length = 16 := Vector.length_toList
  have front : (counts.toList ++ rest).take 16 = counts.toList := List.take_left' length
  have back : (counts.toList ++ rest).drop 16 = rest := List.drop_left' length
  unfold takeCounts
  rw [dif_pos (by rw [front, length])]
  simp only [front, back]
  rfl

private theorem takeHuffmanTable_bytes {table : HuffmanTable} (definable : table.Definable)
    (rest : List UInt8) :
    takeHuffmanTable (nibbles table.tableClass.toNat table.id.toNat)
      (table.counts.toList ++ table.symbols ++ rest) = .ok (table, rest) := by
  have few : (table.counts.toList.map (·.toNat)).sum ≤ 256 := definable.few
  have count : table.symbols.length = (table.counts.toList.map (·.toNat)).sum :=
    definable.symbols
  have tableClass := definable.tableClass
  have id := definable.id
  unfold takeHuffmanTable
  rw [List.append_assoc, takeCounts_append]
  dsimp only
  rw [← List.sum_eq_foldr]
  rw [← count] at few ⊢
  rw [List.take_left' rfl, List.drop_left' rfl, if_neg (by omega), if_neg (by omega),
    highNibble_nibbles (by omega), lowNibble_nibbles (by omega), UInt8.ofNat_toNat,
    UInt8.ofNat_toNat]

theorem huffmanTablesOfBody_huffmanBody {tables : List HuffmanTable}
    (definable : ∀ table ∈ tables, table.Definable) :
    huffmanTablesOfBody (huffmanBody tables) = .ok tables := by
  induction tables with
  | nil =>
      unfold huffmanBody
      rw [List.flatMap_nil, huffmanTablesOfBody]
  | cons table rest inductionHypothesis =>
      have here := definable table List.mem_cons_self
      have tableClass := here.tableClass
      have id := here.id
      have later := inductionHypothesis fun other member =>
        definable other (List.mem_cons_of_mem _ member)
      unfold huffmanBody at later ⊢
      rw [List.flatMap_cons]
      change huffmanTablesOfBody (nibbles table.tableClass.toNat table.id.toNat ::
        (table.counts.toList ++ table.symbols ++ rest.flatMap HuffmanTable.bytes)) = _
      rw [huffmanTablesOfBody,
        if_neg (by rw [highNibble_nibbles (by omega), lowNibble_nibbles (by omega)]; omega)]
      split
      · rename_i failure failed
        rw [takeHuffmanTable_bytes here] at failed
        cases failed
      · rename_i taken following found
        rw [takeHuffmanTable_bytes here] at found
        cases found
        rw [later]
        rfl

theorem huffmanBody_length {tables : List HuffmanTable}
    (definable : ∀ table ∈ tables, table.Definable) :
    (huffmanBody tables).length ≤ 273 * tables.length := by
  apply length_flatMap_le
  intro table member
  have counts : table.counts.toList.length = 16 := Vector.length_toList
  have few := (definable table member).few
  rw [HuffmanTable.bytes, List.length_append, List.length_cons, counts,
    (definable table member).symbols]
  omega

/-! ### Quantization tables -/

theorem wordBytes_flatMap_length (values : List Nat) :
    (values.flatMap wordBytes).length = 2 * values.length := by
  induction values with
  | nil => rfl
  | cons value others inductionHypothesis =>
      rw [List.flatMap_cons, List.length_append, inductionHypothesis, List.length_cons]
      change 2 + _ = _
      omega

theorem words_flatMap {values : List Nat} (small : ∀ value ∈ values, value < 65536) :
    words (values.flatMap wordBytes) = values := by
  induction values with
  | nil => rfl
  | cons value others inductionHypothesis =>
      rw [List.flatMap_cons]
      change word _ _ :: words (others.flatMap wordBytes) = _
      rw [word_wordBytes (small value List.mem_cons_self),
        inductionHypothesis fun other member => small other (List.mem_cons_of_mem _ member)]

namespace QuantizerTable

theorem toUInt16_of_isNarrow {table : QuantizerTable} (narrow : table.isNarrow = true) :
    ∀ entry ∈ toZigzag table, entry.toUInt8.toUInt16 = entry := by
  intro entry member
  obtain ⟨position, -, rfl⟩ := List.mem_map.mp member
  have bound : table.get position ≤ 255 := of_decide_eq_true
    (Vector.all_eq_true.mp narrow position.val position.isLt)
  have small : (table.get position).toNat ≤ 255 := UInt16.le_iff_toNat_le.mp bound
  rw [← UInt16.toNat_inj, UInt8.toNat_toUInt16, UInt16.toNat_toUInt8]
  omega

theorem toZigzag_length (table : QuantizerTable) : (toZigzag table).length = 64 :=
  List.length_map _

end QuantizerTable

private theorem takeQuantizers_narrow {table : QuantizerTable} (narrow : table.isNarrow = true)
    (rest : List UInt8) :
    takeQuantizers 0 ((toZigzag table).map (·.toUInt8) ++ rest) =
      .ok (toZigzag table, rest) := by
  have bytes : ((toZigzag table).map (·.toUInt8)).length = 64 :=
    (List.length_map _).trans table.toZigzag_length
  have same : ((toZigzag table).map (·.toUInt8)).map (·.toUInt16) = toZigzag table := by
    rw [List.map_map]
    exact (List.map_congr_left (QuantizerTable.toUInt16_of_isNarrow narrow)).trans
      (List.map_id _)
  rw [takeQuantizers, List.take_left' bytes, List.drop_left' bytes, if_neg (by omega), same]

private theorem takeQuantizers_wide (table : QuantizerTable) (rest : List UInt8) :
    takeQuantizers 1 ((toZigzag table).flatMap (fun entry => wordBytes entry.toNat) ++ rest) =
      .ok (toZigzag table, rest) := by
  have numbers : (toZigzag table).flatMap (fun entry => wordBytes entry.toNat) =
      ((toZigzag table).map (·.toNat)).flatMap wordBytes := by
    rw [List.flatMap_map]
  have small : ∀ value ∈ (toZigzag table).map (·.toNat), value < 65536 := by
    intro value member
    obtain ⟨entry, -, rfl⟩ := List.mem_map.mp member
    exact entry.toNat_lt
  have bytes : (((toZigzag table).map (·.toNat)).flatMap wordBytes).length = 128 := by
    rw [wordBytes_flatMap_length, List.length_map, table.toZigzag_length]
  have read := words_flatMap small
  have same : ((toZigzag table).map (·.toNat)).map UInt16.ofNat = toZigzag table := by
    rw [List.map_map]
    exact (List.map_congr_left fun entry _ => UInt16.ofNat_toNat).trans (List.map_id _)
  rw [takeQuantizers, numbers, List.take_left' bytes, List.drop_left' bytes,
    if_neg (by omega), read, same]

private theorem takeQuantizers_bytes (table : QuantizerTable) (rest : List UInt8) :
    takeQuantizers (if table.isNarrow then 0 else 1) (table.bytes ++ rest) =
      .ok (toZigzag table, rest) := by
  unfold QuantizerTable.bytes
  by_cases narrow : table.isNarrow = true
  · rw [if_pos narrow, if_pos narrow]
    exact takeQuantizers_narrow narrow rest
  · rw [if_neg narrow, if_neg narrow]
    exact takeQuantizers_wide table rest

theorem ofZigzag_toZigzag (table : QuantizerTable) : ofZigzag 0 (toZigzag table) = table := by
  apply ext_get
  intro position
  unfold ofZigzag toZigzag
  rw [← List.map_prod_left_eq_zip]
  refine (get_foldl_set table.get ?_ _ position).trans (if_pos ?_)
  · intro entry member
    obtain ⟨place, -, rfl⟩ := List.mem_map.mp member
    rfl
  · rw [List.map_map]
    exact List.mem_map.mpr ⟨position, mem_zigzag position, rfl⟩

def QuantizerTable.Definable (table : QuantizerTable) : Prop :=
  ∀ position, table.get position ≠ 0

theorem QuantizerTable.Definable.contains {table : QuantizerTable}
    (definable : table.Definable) : (toZigzag table).contains 0 = false := by
  rw [List.contains_eq_mem, decide_eq_false_iff_not]
  intro member
  obtain ⟨position, -, zero⟩ := List.mem_map.mp member
  exact definable position zero

def presentQuantizers (slots : QuantizerSlots) (ids : List (Fin 4)) :
    List (Fin 4 × QuantizerTable) :=
  ids.filterMap fun id => (slots.get id).map fun table => (id, table)

private theorem quantizersOfBody_cons {table : QuantizerTable} (definable : table.Definable)
    (id : Fin 4) (rest : List UInt8) :
    quantizersOfBody (nibbles (if table.isNarrow then 0 else 1) id.val :: table.bytes ++ rest) =
      (do
        let others ← quantizersOfBody rest
        pure ((id, table) :: others)) := by
  have precision : highNibble (nibbles (if table.isNarrow then 0 else 1) id.val) =
      if table.isNarrow then 0 else 1 := highNibble_nibbles (by split <;> decide)
  have named : lowNibble (nibbles (if table.isNarrow then 0 else 1) id.val) = id.val :=
    lowNibble_nibbles (by omega)
  rw [List.cons_append, quantizersOfBody, dif_pos (by omega)]
  split
  · rename_i failure failed
    rw [precision, takeQuantizers_bytes] at failed
    cases failed
  · rename_i values following found
    rw [precision, takeQuantizers_bytes] at found
    cases found
    rw [if_neg (by rw [definable.contains]; decide), ofZigzag_toZigzag]
    simp only [named]

theorem quantizersOfBody_flatMap {slots : QuantizerSlots}
    (definable : ∀ id table, slots.get id = some table → table.Definable)
    (ids : List (Fin 4)) :
    quantizersOfBody (ids.flatMap fun id =>
      match slots.get id with
      | none => []
      | some table => nibbles (if table.isNarrow then 0 else 1) id.val :: table.bytes) =
        .ok (presentQuantizers slots ids) := by
  induction ids with
  | nil =>
      rw [List.flatMap_nil, quantizersOfBody]
      rfl
  | cons id rest inductionHypothesis =>
      rw [List.flatMap_cons, presentQuantizers, List.filterMap_cons]
      cases found : slots.get id with
      | none => exact inductionHypothesis
      | some table =>
          dsimp only
          rw [quantizersOfBody_cons (definable id table found), inductionHypothesis]
          rfl

theorem quantizersOfBody_quantizerBody {slots : QuantizerSlots}
    (definable : ∀ id table, slots.get id = some table → table.Definable) :
    quantizersOfBody (quantizerBody slots) =
      .ok (presentQuantizers slots (List.finRange 4)) :=
  quantizersOfBody_flatMap definable (List.finRange 4)

theorem quantizerBody_length (slots : QuantizerSlots) :
    (quantizerBody slots).length ≤ 516 := by
  have total : 129 * (List.finRange 4).length = 516 := rfl
  rw [← total]
  apply length_flatMap_le
  intro id _
  split
  · exact Nat.zero_le _
  · rename_i table _
    rw [List.length_cons]
    unfold QuantizerTable.bytes
    split
    · rw [List.length_map, table.toZigzag_length]
      decide
    · apply Nat.le_of_eq
      rw [← List.flatMap_map, wordBytes_flatMap_length, List.length_map,
        table.toZigzag_length]

theorem words_length (body : List UInt8) : (words body).length = body.length / 2 := by
  fun_induction words body with
  | case1 high low rest inductionHypothesis =>
      rw [List.length_cons, inductionHypothesis, List.length_cons, List.length_cons]
      omega
  | case2 body short =>
      match body with
      | [] => rfl
      | [_] =>
          change 0 = 1 / 2
          decide
      | _ :: _ :: _ => exact absurd rfl (short _ _ _)

private theorem takeQuantizers_entries {precision : Nat} {body rest : List UInt8}
    {entries : List UInt16} (taken : takeQuantizers precision body = .ok (entries, rest)) :
    entries.length = 64 := by
  unfold takeQuantizers at taken
  split at taken
  · dsimp only at taken
    split at taken
    · cases taken
    · rename_i enough
      cases taken
      rw [List.length_map]
      rw [List.length_take] at enough ⊢
      omega
  · dsimp only at taken
    split at taken
    · cases taken
    · rename_i enough
      cases taken
      rw [List.length_map, words_length]
      rw [List.length_take] at enough ⊢
      omega
  · cases taken

private theorem foldl_set_get_mem {positions : List (Fin 64)} {values : List UInt16}
    (enough : positions.length ≤ values.length) (start : Vector UInt16 64)
    (position : Fin 64) :
    ((positions.zip values).foldl
        (fun table entry => table.set entry.1.val entry.2 entry.1.isLt) start).get position ∈
          values ∨
      position ∉ positions ∧
        ((positions.zip values).foldl
          (fun table entry => table.set entry.1.val entry.2 entry.1.isLt) start).get position =
            start.get position := by
  induction positions generalizing values start with
  | nil => exact Or.inr ⟨List.not_mem_nil, rfl⟩
  | cons first rest inductionHypothesis =>
      match values with
      | [] => exact absurd enough (Nat.not_succ_le_zero _)
      | value :: others =>
          rw [List.zip_cons_cons, List.foldl_cons]
          rcases inductionHypothesis (Nat.le_of_succ_le_succ enough)
            (start.set first.val value) with later | ⟨absent, same⟩
          · exact Or.inl (List.mem_cons_of_mem _ later)
          · rw [get_set] at same
            by_cases here : first = position
            · rw [if_pos here] at same
              apply Or.inl
              rw [same]
              exact List.mem_cons_self
            · rw [if_neg here] at same
              refine Or.inr ⟨?_, same⟩
              rw [List.mem_cons, not_or]
              exact ⟨fun equal => here equal.symm, absent⟩

private theorem definable_ofZigzag {values : List UInt16} (length : values.length = 64)
    (nonzero : values.contains 0 = false) :
    QuantizerTable.Definable (ofZigzag 0 values) := by
  intro position zero
  have enough : zigzag.length ≤ values.length := Nat.le_of_eq (zigzag_length.trans length.symm)
  rcases foldl_set_get_mem enough (Vector.replicate 64 0) position with member | ⟨absent, -⟩
  · change (ofZigzag 0 values).get position ∈ values at member
    rw [zero] at member
    rw [List.contains_eq_mem, decide_eq_false_iff_not] at nonzero
    exact nonzero member
  · exact absent (mem_zigzag position)

theorem definable_of_quantizersOfBody {body : List UInt8}
    {tables : List (Fin 4 × QuantizerTable)} (read : quantizersOfBody body = .ok tables) :
    ∀ table ∈ tables, table.2.Definable := by
  fun_induction quantizersOfBody body generalizing tables with
  | case1 =>
      cases read
      intro table member
      cases member
  | case2 => cases read
  | case3 => cases read
  | case4 head entries inRange values rest taken nonzero inductionHypothesis =>
      obtain ⟨others, later, last⟩ := bind_eq_ok read
      cases last
      intro table member
      rcases List.mem_cons.mp member with same | inOthers
      · rw [same]
        exact definable_ofZigzag (takeQuantizers_entries taken) (by simpa using nonzero)
      · exact inductionHypothesis later table inOthers
  | case5 => cases read

end LosslessJpeg
