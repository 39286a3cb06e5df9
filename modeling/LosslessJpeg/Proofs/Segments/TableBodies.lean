import LosslessJpeg.Proofs.Segments.Tables

set_option autoImplicit false

/-!
Bodies of table segments and the tables in them. A body of Huffman tables can be read exactly
if it is what writing some tables gives, and these are the tables read. Quantization tables
come back in the order of their identifiers, whatever precision each of them needs.
-/

namespace LosslessJpeg

theorem nibbles_halves (byte : UInt8) : nibbles (highNibble byte) (lowNibble byte) = byte := by
  have bound := byte.toNat_lt
  unfold nibbles highNibble lowNibble
  rw [← UInt8.toNat_inj, UInt8.toNat_ofNat']
  omega

private theorem takeCounts_eq_some {body rest : List UInt8} {counts : Vector UInt8 16}
    (taken : takeCounts body = some (counts, rest)) : counts.toList ++ rest = body := by
  unfold takeCounts at taken
  split at taken
  · cases taken
    exact List.take_append_drop 16 body
  · cases taken

private theorem takeHuffmanTable_eq_ok {head : UInt8} {body rest : List UInt8}
    {table : HuffmanTable} (named : highNibble head ≤ 1 ∧ lowNibble head ≤ 3)
    (taken : takeHuffmanTable head body = .ok (table, rest)) :
    table.Definable ∧ table.bytes ++ rest = head :: body := by
  obtain ⟨tableClass, id⟩ := named
  have high : (UInt8.ofNat (highNibble head)).toNat = highNibble head := by
    rw [UInt8.toNat_ofNat']
    omega
  have low : (UInt8.ofNat (lowNibble head)).toNat = lowNibble head := by
    rw [UInt8.toNat_ofNat']
    omega
  unfold takeHuffmanTable at taken
  split at taken
  · cases taken
  · rename_i counts following found
    dsimp only at taken
    rw [← List.sum_eq_foldr] at taken
    split at taken
    · cases taken
    · rename_i few
      split at taken
      · cases taken
      · rename_i enough
        cases taken
        rw [List.length_take] at enough
        -- Every check of the reader is one of the conditions on a table that can be defined.
        refine ⟨⟨?_, ?_, ?_, Nat.le_of_not_lt few⟩, ?_⟩
        · rw [high]
          exact tableClass
        · rw [low]
          exact id
        · change (following.take _).length = (counts.toList.map (·.toNat)).sum
          rw [List.length_take]
          omega
        · unfold HuffmanTable.bytes
          dsimp only
          rw [high, low, nibbles_halves, List.cons_append, List.cons_append, List.append_assoc,
            List.take_append_drop, takeCounts_eq_some found]

theorem huffmanBody_of_huffmanTablesOfBody {body : List UInt8} {tables : List HuffmanTable}
    (read : huffmanTablesOfBody body = .ok tables) :
    (∀ table ∈ tables, table.Definable) ∧ huffmanBody tables = body := by
  fun_induction huffmanTablesOfBody body generalizing tables with
  | case1 =>
      cases read
      exact ⟨nofun, rfl⟩
  | case2 => cases read
  | case3 => cases read
  | case4 head rest inRange table following taken inductionHypothesis =>
      obtain ⟨others, later, last⟩ := bind_eq_ok read
      cases last
      obtain ⟨definable, front⟩ := takeHuffmanTable_eq_ok (by omega) taken
      obtain ⟨definableOthers, behind⟩ := inductionHypothesis later
      refine ⟨List.forall_mem_cons.mpr ⟨definable, definableOthers⟩, ?_⟩
      rw [← front, ← behind]
      exact List.flatMap_cons

theorem mem_presentQuantizers {slots : QuantizerSlots} {ids : List (Fin 4)} {id : Fin 4}
    {table : QuantizerTable} :
    (id, table) ∈ presentQuantizers slots ids ↔ id ∈ ids ∧ slots.get id = some table := by
  unfold presentQuantizers
  rw [List.mem_filterMap]
  constructor
  · rintro ⟨other, member, found⟩
    obtain ⟨_, there, same⟩ := Option.map_eq_some_iff.mp found
    cases same
    exact ⟨member, there⟩
  · rintro ⟨member, there⟩
    refine ⟨id, member, ?_⟩
    rw [there]
    rfl

theorem presentQuantizers_ascending {slots : QuantizerSlots} {ids : List (Fin 4)}
    (ascending : ids.Pairwise (· < ·)) :
    ((presentQuantizers slots ids).map Prod.fst).Pairwise (· < ·) := by
  rw [List.pairwise_map]
  unfold presentQuantizers
  refine List.Pairwise.filterMap _ (fun first second less left inFirst right inSecond => ?_)
    ascending
  obtain ⟨_, -, rfl⟩ := Option.map_eq_some_iff.mp inFirst
  obtain ⟨_, -, rfl⟩ := Option.map_eq_some_iff.mp inSecond
  exact less

/-- Reading a segment body of Huffman tables succeeds with some tables exactly if they can be
defined and writing them gives this body. Quantization tables without zero entries that have been
written are read as they are, by rising identifier. -/
theorem tableBodies_inverse :
    (∀ (body : List UInt8) (tables : List HuffmanTable),
      huffmanTablesOfBody body = .ok tables ↔
        (∀ table ∈ tables, table.Definable) ∧ huffmanBody tables = body) ∧
    ∀ slots : QuantizerSlots,
      (∀ id table, slots.get id = some table → ∀ position, table.get position ≠ 0) →
      ∃ tables, quantizersOfBody (quantizerBody slots) = .ok tables ∧
        (tables.map Prod.fst).Pairwise (· < ·) ∧
        ∀ id table, (id, table) ∈ tables ↔ slots.get id = some table := by
  refine ⟨fun body tables => ⟨huffmanBody_of_huffmanTablesOfBody, ?written⟩,
    fun slots definable => ?quantizers⟩
  case written =>
    rintro ⟨definable, rfl⟩
    exact huffmanTablesOfBody_huffmanBody definable
  case quantizers =>
    refine ⟨_, quantizersOfBody_quantizerBody definable,
      presentQuantizers_ascending (List.pairwise_lt_finRange 4), fun id table => ?_⟩
    rw [mem_presentQuantizers]
    exact and_iff_right (List.mem_finRange id)

def narrowTable : QuantizerTable :=
  (Vector.replicate 64 1).set 5 200

def wideTable : QuantizerTable :=
  (Vector.replicate 64 2).set 9 1000

def mixedSlots : QuantizerSlots :=
  #v[some narrowTable, none, some wideTable, none]

def twoTables : List HuffmanTable :=
  [{ tableClass := 0
     id := 1
     counts := (Vector.replicate 16 0).set 1 3
     symbols := [0, 1, 2] },
   { tableClass := 1
     id := 0
     counts := (Vector.replicate 16 0).set 0 2
     symbols := [0, 1] }]

/-- Tables of both classes and of both precisions that come back from their bodies. -/
theorem tableBodies_inverse_mixed :
    (∀ table ∈ twoTables, table.Definable) ∧
      huffmanTablesOfBody (huffmanBody twoTables) = .ok twoTables ∧
      (∀ id table, mixedSlots.get id = some table → ∀ position, table.get position ≠ 0) ∧
      ∃ tables, quantizersOfBody (quantizerBody mixedSlots) = .ok tables ∧
        (tables.map Prod.fst).Pairwise (· < ·) ∧ (0, narrowTable) ∈ tables ∧
        (2, wideTable) ∈ tables := by
  have definable : ∀ table ∈ twoTables, table.Definable := by
    intro table member
    rcases List.mem_cons.mp member with rfl | later
    · exact ⟨by decide, by decide, by decide, by decide⟩
    · rw [List.mem_singleton.mp later]
      exact ⟨by decide, by decide, by decide, by decide⟩
  have nonzero : ∀ id table, mixedSlots.get id = some table →
      ∀ position, table.get position ≠ 0 := by
    intro id table there position
    match id with
    | 0 =>
        cases there
        change ((Vector.replicate 64 (1 : UInt16)).set (5 : Fin 64).val 200).get position ≠ 0
        rw [get_set, get_replicate]
        split <;> decide
    | 2 =>
        cases there
        change ((Vector.replicate 64 (2 : UInt16)).set (9 : Fin 64).val 1000).get position ≠ 0
        rw [get_set, get_replicate]
        split <;> decide
    | 1 | 3 => cases there
  obtain ⟨huffman, quantizers⟩ := tableBodies_inverse
  obtain ⟨tables, read, ascending, listed⟩ := quantizers mixedSlots nonzero
  exact ⟨definable, (huffman _ _).mpr ⟨definable, rfl⟩, nonzero, tables, read, ascending,
    (listed 0 narrowTable).mpr rfl, (listed 2 wideTable).mpr rfl⟩

end LosslessJpeg
