import LosslessJpeg.Image.Writing
import LosslessJpeg.Proofs.Huffman.OptimalTable
import LosslessJpeg.Proofs.Scan.CodedComponents
import LosslessJpeg.Proofs.Scan.SymbolCounting
import LosslessJpeg.Proofs.Segments.Tables

set_option autoImplicit false

/-!
The Huffman tables that an image is written with: they code all of its symbols, and the
decoders of the tables that a reader finds in the file read these codes.
-/

namespace LosslessJpeg

/-- The most blocks of which a counter of 32 bits can count all AC coefficients. -/
def countedBlocks : Nat := 68174084

namespace JpegImage

variable (image : JpegImage) (counts : SymbolCounts)

@[simp]
theorem tableIds_length : image.tableIds.length = image.grids.size := by
  unfold tableIds
  rw [List.length_map, List.length_range]

theorem tableIds_getD {component : Nat} (inside : component < image.grids.size) :
    image.tableIds.getD component 0 = if component = 0 then 0 else 1 := by
  unfold tableIds
  rw [List.getD_eq_getElem?_getD, List.getElem?_map, List.getElem?_range inside]
  rfl

def Tabled (id : Fin 4) : Prop :=
  id = 0 ∨ id = 1 ∧ 2 ≤ image.grids.size

instance (id : Fin 4) : Decidable (image.Tabled id) :=
  inferInstanceAs (Decidable (_ ∨ _))

theorem optimalSlots_get (id : Fin 4) :
    (image.optimalSlots counts).dc.get id =
        (if image.Tabled id then
          some (optimalTable 0 (UInt8.ofNat id.val) (counts.dcFrequencies id))
        else
          none) ∧
      (image.optimalSlots counts).ac.get id =
        (if image.Tabled id then
          some (optimalTable 1 (UInt8.ofNat id.val) (counts.acFrequencies id))
        else
          none) := by
  unfold optimalSlots
  by_cases sole : image.grids.size < 2
  · have untabled : ¬ image.Tabled 1 := by
      rintro (zero | ⟨-, many⟩)
      · cases zero
      · omega
    rw [if_pos sole]
    match id with
    | 0 => exact ⟨rfl, rfl⟩
    | 1 =>
        rw [if_neg untabled, if_neg untabled]
        exact ⟨rfl, rfl⟩
    | 2 => exact ⟨rfl, rfl⟩
    | 3 => exact ⟨rfl, rfl⟩
  · have tabled : image.Tabled 1 := Or.inr ⟨rfl, by omega⟩
    rw [if_neg sole]
    match id with
    | 0 => exact ⟨rfl, rfl⟩
    | 1 =>
        rw [if_pos tabled, if_pos tabled]
        exact ⟨rfl, rfl⟩
    | 2 => exact ⟨rfl, rfl⟩
    | 3 => exact ⟨rfl, rfl⟩

theorem install_optimalSlots :
    (image.optimalSlots counts).tables.foldl HuffmanSlots.install HuffmanSlots.empty =
      image.optimalSlots counts := by
  unfold optimalSlots
  by_cases sole : image.grids.size < 2
  · rw [if_pos sole]
    rfl
  · rw [if_neg sole]
    rfl

private theorem definable_optimalTable {tableClass : UInt8} (known : tableClass.toNat ≤ 1)
    (id : Fin 4) (frequencies : OptimalCode.Frequencies) :
    (optimalTable tableClass (UInt8.ofNat id.val) frequencies).Definable where
  tableClass := known
  id := by
    change (UInt8.ofNat id.val).toNat ≤ 3
    rw [UInt8.toNat_ofNat']
    omega
  symbols := optimalTable_symbols_length _ _ _
  few := optimalTable_sum_le _ _ _

private theorem exists_get_of_mem {tables : Vector (Option HuffmanTable) 4}
    {table : HuffmanTable} (member : table ∈ tables.toList.filterMap id) :
    ∃ id, tables.get id = some table := by
  obtain ⟨slot, listed, same⟩ := List.mem_filterMap.mp member
  obtain ⟨place, inside, there⟩ := List.mem_iff_getElem.mp listed
  have bound : place < 4 := by
    rw [Vector.length_toList] at inside
    exact inside
  refine ⟨⟨place, bound⟩, ?_⟩
  rw [← same, ← there]
  rfl

theorem definable_optimalSlots :
    ∀ table ∈ (image.optimalSlots counts).tables, table.Definable := by
  intro table member
  rcases List.mem_append.mp member with inDc | inAc
  · obtain ⟨id, slot⟩ := exists_get_of_mem inDc
    rw [(image.optimalSlots_get counts id).1] at slot
    split at slot
    · cases slot
      exact definable_optimalTable (by decide) id _
    · cases slot
  · obtain ⟨id, slot⟩ := exists_get_of_mem inAc
    rw [(image.optimalSlots_get counts id).2] at slot
    split at slot
    · cases slot
      exact definable_optimalTable (by decide) id _
    · cases slot

theorem tables_length_le (slots : HuffmanSlots) : slots.tables.length ≤ 8 := by
  have dc : (slots.dc.toList.filterMap id).length ≤ 4 :=
    Nat.le_trans (List.length_filterMap_le _ _) (Nat.le_of_eq Vector.length_toList)
  have ac : (slots.ac.toList.filterMap id).length ≤ 4 :=
    Nat.le_trans (List.length_filterMap_le _ _) (Nat.le_of_eq Vector.length_toList)
  unfold HuffmanSlots.tables
  rw [List.length_append]
  omega

theorem tabled_tableIds {component : Nat} (inside : component < image.grids.size) :
    image.Tabled (image.tableIds.getD component 0) := by
  rw [tableIds_getD image inside]
  split
  · exact Or.inl rfl
  · exact Or.inr ⟨rfl, by omega⟩

variable {image counts}

theorem encodes_of_frequency {token : Token} (tabled : image.Tabled token.table)
    (occurs : counts.frequency token ≠ 0) :
    (ScanEncoder.ofSlots (image.optimalSlots counts)).Encodes token := by
  obtain ⟨dcSlot, acSlot⟩ := image.optimalSlots_get counts token.table
  rw [if_pos tabled] at dcSlot acSlot
  unfold ScanEncoder.Encodes ScanEncoder.codeword ScanEncoder.ofSlots
  unfold SymbolCounts.frequency at occurs
  cases tokenClass : token.coefficients with
  | dc =>
      rw [tokenClass] at occurs
      dsimp only
      rw [get_map, dcSlot]
      exact optimalTable_encode 0 _ _ occurs
  | ac =>
      rw [tokenClass] at occurs
      dsimp only
      rw [get_map, acSlot]
      exact optimalTable_encode 1 _ _ occurs

private theorem sum_zipIdx_tail (others : List Component) (content : Component → Nat)
    (chosen : Nat → Bool) (same : Bool)
    (each : ∀ place, 1 ≤ place → place < others.length + 1 → chosen place = same) :
    ((others.zipIdx 1).map fun entry => if chosen entry.2 then content entry.1 else 0).sum =
      if same then (others.map content).sum else 0 := by
  have equal : (others.zipIdx 1).map (fun entry => if chosen entry.2 then content entry.1 else 0) =
      (others.zipIdx 1).map fun entry => if same then content entry.1 else 0 := by
    apply List.map_congr_left
    intro entry member
    have bounds := List.mem_zipIdx member
    rw [each entry.2 bounds.1 (by omega)]
  have names : others.map content = ((others.zipIdx 1).map Prod.fst).map content := by
    rw [List.zipIdx_map_fst]
  rw [equal, names, List.map_map]
  cases same with
  | true => rfl
  | false => simp

theorem order_countP_tableIds (size : image.grids.size = image.frame.components.length)
    (table : Fin 4) :
    (ScanLayout.interleaved image.frame image.frame.components).order.countP
        (fun address => image.tableIds.getD address.component 0 = table) =
      (if table = 0 then
        ((image.frame.components.take 1).map fun component =>
          image.frame.blocksTall component * image.frame.blocksWide component).sum
      else
        0) +
        if table = 1 then image.frame.laterBlocks else 0 := by
  have counted := ScanLayout.order_interleaved_countP image.frame
    fun component => decide (image.tableIds.getD component 0 = table)
  rw [counted]
  obtain ⟨first, others, named⟩ := List.exists_cons_of_ne_nil image.frame.components_ne_nil
  have count : others.length + 1 = image.grids.size := by rw [size, named, List.length_cons]
  have ofFirst : image.tableIds.getD 0 0 = 0 := by
    rw [tableIds_getD image (by omega), if_pos rfl]
  have ofOthers := sum_zipIdx_tail others
    (fun component => image.frame.blocksTall component * image.frame.blocksWide component)
    (fun place => decide (image.tableIds.getD place 0 = table)) (decide (1 = table))
    fun place from1 inside => by rw [tableIds_getD image (by omega), if_neg (by omega)]
  unfold Frame.laterBlocks
  rw [named, List.zipIdx_cons, List.map_cons, List.sum_cons, Nat.zero_add, ofOthers]
  dsimp only
  rw [ofFirst]
  simp only [eq_comm (a := table), decide_eq_true_eq]
  rfl

/-- Neither pair of tables serves so many blocks that counting their symbols could wrap
around. -/
theorem countP_tableIds_lt (size : image.grids.size = image.frame.components.length)
    (few : image.frame.laterBlocks ≤ countedBlocks) (table : Fin 4) :
    63 * (ScanLayout.interleaved image.frame image.frame.components).order.countP
      (fun address => image.tableIds.getD address.component 0 = table) < 2 ^ 32 := by
  have first := image.frame.sum_blocks_le (List.take_subset 1 image.frame.components)
  have one := List.length_take_le 1 image.frame.components
  unfold countedBlocks at few
  rw [order_countP_tableIds size]
  split
  case isTrue zero =>
    rw [if_neg (by rw [zero]; decide)]
    omega
  case isFalse => split <;> omega

theorem encodes_scanTokens (fits : image.frame.Fits image.grids)
    (tail : ((image.grids.toList.drop 1).map fun grid => grid.blocks.size).sum ≤ 2 ^ 26)
    {tokens : Array Token}
    (collected : scanTokens image.frame image.grids image.tableIds = .ok tokens) :
    ∀ token ∈ tokens.toList, (ScanEncoder.ofSlots
      (image.optimalSlots (SymbolCounts.ofTokens tokens))).Encodes token := by
  intro token member
  rw [fits.laterBlocks] at tail
  have occurs := frequency_ne_zero_of_few collected
    (countP_tableIds_lt fits.size (Nat.le_trans tail (by decide))) token member
  refine encodes_of_frequency ?_ occurs
  rw [scanTokens_eq_ok collected] at member
  obtain ⟨address, listed, same⟩ := tokensAlong_table member
  obtain ⟨component, found, -⟩ := ScanLayout.mem_order_interleaved.mp listed
  rw [same]
  exact image.tabled_tableIds (fits.size ▸ (List.getElem?_eq_some_iff.mp found).1)

private theorem serves_of_tabled {id : Fin 4} (tabled : image.Tabled id)
    (counts : SymbolCounts) :
    Scan.Serves (image.optimalSlots counts).dc id ∧
      Scan.Serves (image.optimalSlots counts).ac id := by
  obtain ⟨dcSlot, acSlot⟩ := image.optimalSlots_get counts id
  rw [if_pos tabled] at dcSlot acSlot
  obtain ⟨dc, dcBuilt⟩ := optimalTable_build 0 (UInt8.ofNat id.val) (counts.dcFrequencies id)
  obtain ⟨ac, acBuilt⟩ := optimalTable_build 1 (UInt8.ofNat id.val) (counts.acFrequencies id)
  exact ⟨⟨dc, Scan.decoderAt_of_get dcSlot dcBuilt⟩, ⟨ac, Scan.decoderAt_of_get acSlot acBuilt⟩⟩

open ScanDecoder in
/-- The components of the scan, as a reader of the file finds them, read what has been
written for them. -/
theorem codedComponents_tableIds (counts : SymbolCounts) {frame : Frame}
    (sequential : frame.progressive = false)
    (size : image.grids.size = frame.components.length) :
    ∃ parts, Scan.codedComponents frame (wholeScan image.tableIds)
        (image.optimalSlots counts) image.grids.size = .ok parts ∧
      parts.map (·.component) = frame.components ∧
      ReadsTables (ScanEncoder.ofSlots (image.optimalSlots counts)) image.tableIds
        parts.toArray := by
  have length := image.tableIds_length
  rw [← length]
  refine codedComponents_wholeScan sequential (length.trans size) fun id member => ?_
  obtain ⟨place, inside, rfl⟩ := List.mem_iff_getElem.mp member
  have tabled := image.tabled_tableIds (length ▸ inside)
  rw [List.getD_eq_getElem?_getD, List.getElem?_eq_getElem inside, Option.getD_some] at tabled
  exact serves_of_tabled tabled counts

end JpegImage

end LosslessJpeg
