import LosslessJpeg.Block.Grid
import LosslessJpeg.Proofs.Scan.Traversal

set_option autoImplicit false

/-!
Blocks at their places in the grids of a frame: storing a block changes one place alone,
and grids of equal size are told apart by their blocks.
-/

namespace LosslessJpeg

namespace Grid

theorem index_injective {wide row column otherRow otherColumn : Nat} (inside : column < wide)
    (otherInside : otherColumn < wide)
    (same : row * wide + column = otherRow * wide + otherColumn) :
    row = otherRow ∧ column = otherColumn := by
  have rows := congrArg (· / wide) same
  have columns := congrArg (· % wide) same
  have positive : 0 < wide := by omega
  simp only [Nat.mul_comm _ wide, Nat.mul_add_div positive, Nat.div_eq_of_lt inside,
    Nat.div_eq_of_lt otherInside, Nat.mul_add_mod, Nat.mod_eq_of_lt inside,
    Nat.mod_eq_of_lt otherInside, Nat.add_zero] at rows columns
  exact ⟨rows, columns⟩

theorem index_lt {grid : Grid} {row column : Nat} (rowInside : row < grid.blocksTall)
    (columnInside : column < grid.blocksWide) : grid.index row column < grid.blocks.size := by
  have rows : (row + 1) * grid.blocksWide ≤ grid.blocksTall * grid.blocksWide :=
    Nat.mul_le_mul_right _ rowInside
  rw [Nat.add_mul, Nat.one_mul] at rows
  rw [grid.blocks_size]
  unfold index
  omega

theorem block_setBlock_self {grid : Grid} {row column : Nat}
    (rowInside : row < grid.blocksTall) (columnInside : column < grid.blocksWide)
    (content : Block) : (grid.setBlock row column content).block row column = content := by
  unfold setBlock block
  change (grid.blocks.setIfInBounds (grid.index row column) content).getD
    (grid.index row column) Block.zero = content
  rw [Array.getD_eq_getD_getElem?,
    Array.getElem?_setIfInBounds_self_of_lt (index_lt rowInside columnInside),
    Option.getD_some]

theorem block_setBlock_of_ne {grid : Grid} {row column otherRow otherColumn : Nat}
    (inside : column < grid.blocksWide) (otherInside : otherColumn < grid.blocksWide)
    (different : row ≠ otherRow ∨ column ≠ otherColumn) (content : Block) :
    (grid.setBlock row column content).block otherRow otherColumn =
      grid.block otherRow otherColumn := by
  have apart : grid.index row column ≠ grid.index otherRow otherColumn := by
    intro same
    have places := index_injective inside otherInside same
    omega
  unfold setBlock block
  change (grid.blocks.setIfInBounds (grid.index row column) content).getD
    (grid.index otherRow otherColumn) Block.zero = _
  rw [Array.getD_eq_getD_getElem?, Array.getElem?_setIfInBounds_ne apart,
    Array.getD_eq_getD_getElem?]

theorem block_zero (blocksWide blocksTall row column : Nat) :
    (zero blocksWide blocksTall).block row column = Block.zero := by
  unfold zero block
  rw [Array.getD_eq_getD_getElem?, Array.getElem?_replicate]
  split <;> rfl

theorem block_ofFn {blocksWide blocksTall row column : Nat} (rowInside : row < blocksTall)
    (columnInside : column < blocksWide) (content : Nat → Nat → Block) :
    (ofFn blocksWide blocksTall content).block row column = content row column := by
  have positive : 0 < blocksWide := by omega
  have bound : row * blocksWide + column < blocksTall * blocksWide := by
    have rows : (row + 1) * blocksWide ≤ blocksTall * blocksWide :=
      Nat.mul_le_mul_right _ rowInside
    rw [Nat.add_mul, Nat.one_mul] at rows
    omega
  have quotient : (row * blocksWide + column) / blocksWide = row := by
    rw [Nat.mul_comm, Nat.mul_add_div positive, Nat.div_eq_of_lt columnInside, Nat.add_zero]
  have remainder : (row * blocksWide + column) % blocksWide = column := by
    rw [Nat.mul_comm, Nat.mul_add_mod, Nat.mod_eq_of_lt columnInside]
  change (Array.ofFn fun index : Fin (blocksTall * blocksWide) =>
    content (index.val / blocksWide) (index.val % blocksWide)).getD
      (row * blocksWide + column) Block.zero = _
  rw [Array.getD_eq_getD_getElem?, Array.getElem?_ofFn, dif_pos bound, Option.getD_some,
    quotient, remainder]

theorem ext_block {first second : Grid} (wide : first.blocksWide = second.blocksWide)
    (tall : first.blocksTall = second.blocksTall)
    (same : ∀ row < first.blocksTall, ∀ column < first.blocksWide,
      first.block row column = second.block row column) : first = second := by
  obtain ⟨firstWide, firstTall, firstBlocks, firstSize⟩ := first
  obtain ⟨secondWide, secondTall, secondBlocks, secondSize⟩ := second
  dsimp only at wide tall same
  subst wide
  subst tall
  have blocks : firstBlocks = secondBlocks := by
    refine Array.ext (firstSize.trans secondSize.symm) fun place inside otherInside => ?_
    have positive : 0 < firstWide := Nat.pos_of_ne_zero fun none => by
      rw [none, Nat.mul_zero] at firstSize
      omega
    have row : place / firstWide < firstTall := by
      rw [Nat.div_lt_iff_lt_mul positive, ← firstSize]
      exact inside
    have equal := same _ row _ (Nat.mod_lt place positive)
    unfold block index at equal
    dsimp only at equal
    rw [Nat.div_add_mod', Array.getD_eq_getD_getElem?, Array.getD_eq_getD_getElem?,
      Array.getElem?_eq_getElem inside, Array.getElem?_eq_getElem otherInside] at equal
    exact equal
  subst blocks
  rfl

theorem forall_block (grid : Grid) (property : Block → Prop) :
    (∀ block ∈ grid.blocks, property block) ↔
      ∀ row < grid.blocksTall, ∀ column < grid.blocksWide, property (grid.block row column) := by
  constructor
  · intro all row rowInside column columnInside
    have bound := index_lt rowInside columnInside
    unfold block
    rw [Array.getD_eq_getD_getElem?, Array.getElem?_eq_getElem bound, Option.getD_some]
    exact all _ (Array.getElem_mem bound)
  · intro all block member
    obtain ⟨place, bound, same⟩ := Array.mem_iff_getElem.mp member
    have positive : 0 < grid.blocksWide := Nat.pos_of_ne_zero fun zero => by
      rw [grid.blocks_size, zero, Nat.mul_zero] at bound
      omega
    have row : place / grid.blocksWide < grid.blocksTall := by
      rw [Nat.div_lt_iff_lt_mul positive, ← grid.blocks_size]
      exact bound
    have holds := all _ row _ (Nat.mod_lt place positive)
    unfold Grid.block index at holds
    rw [Nat.div_add_mod', Array.getD_eq_getD_getElem?, Array.getElem?_eq_getElem bound,
      Option.getD_some, same] at holds
    exact holds

end Grid

def blockAt (grids : Array Grid) (address : BlockAddress) : Block :=
  ((grids[address.component]?).map (·.block address.row address.column)).getD Block.zero

/-- One grid for each component, filled up to whole MCUs. -/
structure Frame.Fits (frame : Frame) (grids : Array Grid) : Prop where
  size : grids.size = frame.components.length
  grid : ∀ (index : Nat) (component : Component) (grid : Grid),
    frame.components[index]? = some component → grids[index]? = some grid →
      grid.blocksWide = frame.blocksWide component ∧
        grid.blocksTall = frame.blocksTall component

namespace Frame

variable {frame : Frame} {grids : Array Grid}

theorem Fits.exists_grid (fits : frame.Fits grids) {index : Nat} {component : Component}
    (found : frame.components[index]? = some component) :
    ∃ grid, grids[index]? = some grid ∧ grid.blocksWide = frame.blocksWide component ∧
      grid.blocksTall = frame.blocksTall component := by
  obtain ⟨inside, -⟩ := List.getElem?_eq_some_iff.mp found
  have bound : index < grids.size := by
    rw [fits.size]
    exact inside
  exact ⟨grids[index], Array.getElem?_eq_getElem bound,
    fits.grid index component _ found (Array.getElem?_eq_getElem bound)⟩

theorem Fits.modify (fits : frame.Fits grids) (index row column : Nat) (content : Block) :
    frame.Fits (grids.modify index (·.setBlock row column content)) where
  size := by rw [Array.size_modify, fits.size]
  grid := by
    intro other component grid found there
    rw [Array.getElem?_modify] at there
    split at there
    · rename_i same
      subst same
      obtain ⟨before, was, rfl⟩ := Option.map_eq_some_iff.mp there
      exact fits.grid index component before found was
    · exact fits.grid other component grid found there

theorem Fits.blockAt_modify (fits : frame.Fits grids) {address other : BlockAddress}
    (inside : address.Inside frame) (otherInside : other.Inside frame) (content : Block) :
    blockAt (grids.modify address.component
      (·.setBlock address.row address.column content)) other =
        if other = address then content else blockAt grids other := by
  obtain ⟨component, found, row, column⟩ := inside
  obtain ⟨grid, there, wide, tall⟩ := fits.exists_grid found
  rw [← tall] at row
  rw [← wide] at column
  unfold blockAt
  rw [Array.getElem?_modify]
  by_cases same : other = address
  · rw [if_pos same, same, if_pos rfl, there]
    exact Grid.block_setBlock_self row column content
  · rw [if_neg same]
    split
    · rename_i sameComponent
      obtain ⟨component', found', row', column'⟩ := otherInside
      rw [← sameComponent, found] at found'
      cases found'
      rw [← wide] at column'
      rw [← sameComponent, there]
      refine Grid.block_setBlock_of_ne column column' ?_ content
      by_contra equal
      apply same
      obtain ⟨c, r, k⟩ := address
      obtain ⟨c', r', k'⟩ := other
      dsimp only at sameComponent equal
      rw [BlockAddress.mk.injEq]
      omega
    · rfl

/-- A grid is told by its blocks. -/
theorem Fits.getElem?_eq (fits : frame.Fits grids) {others : Array Grid}
    (fitsToo : frame.Fits others) {index : Nat}
    (same : ∀ address : BlockAddress, address.component = index → address.Inside frame →
      blockAt grids address = blockAt others address) : grids[index]? = others[index]? := by
  cases found : frame.components[index]? with
  | none =>
      have outside := List.getElem?_eq_none_iff.mp found
      rw [Array.getElem?_eq_none (fits.size ▸ outside),
        Array.getElem?_eq_none (fitsToo.size ▸ outside)]
  | some component =>
      obtain ⟨grid, there, wide, tall⟩ := fits.exists_grid found
      obtain ⟨other, otherThere, otherWide, otherTall⟩ := fitsToo.exists_grid found
      rw [there, otherThere]
      congr 1
      apply Grid.ext_block (wide.trans otherWide.symm) (tall.trans otherTall.symm)
      intro row rowInside column columnInside
      have equal := same { component := index, row := row, column := column } rfl
        ⟨component, found, tall ▸ rowInside, wide ▸ columnInside⟩
      unfold blockAt at equal
      dsimp only at equal
      rw [there, otherThere] at equal
      exact equal

theorem Fits.ext (fits : frame.Fits grids) {others : Array Grid} (fitsToo : frame.Fits others)
    (same : ∀ address : BlockAddress, address.Inside frame →
      blockAt grids address = blockAt others address) : grids = others :=
  Array.ext_getElem? fun _ => fits.getElem?_eq fitsToo fun address _ => same address

theorem Fits.map_blocks_size (fits : frame.Fits grids) :
    grids.toList.map (fun grid => grid.blocks.size) =
      frame.components.map fun component =>
        frame.blocksTall component * frame.blocksWide component := by
  refine List.ext_getElem? fun index => ?_
  rw [List.getElem?_map, List.getElem?_map, Array.getElem?_toList]
  cases found : frame.components[index]? with
  | none =>
      have outside := List.getElem?_eq_none_iff.mp found
      rw [Array.getElem?_eq_none (by rw [fits.size]; exact outside)]
      rfl
  | some component =>
      obtain ⟨grid, there, wide, tall⟩ := fits.exists_grid found
      rw [there, Option.map_some, Option.map_some, grid.blocks_size, wide, tall]

theorem Fits.laterBlocks (fits : frame.Fits grids) :
    ((grids.toList.drop 1).map fun grid => grid.blocks.size).sum = frame.laterBlocks := by
  unfold Frame.laterBlocks
  rw [List.map_drop, fits.map_blocks_size, List.map_drop]

theorem Fits.forall_block (fits : frame.Fits grids) (property : Block → Prop) :
    (∀ grid ∈ grids, ∀ block ∈ grid.blocks, property block) ↔
      ∀ address : BlockAddress, address.Inside frame → property (blockAt grids address) := by
  constructor
  · rintro all address ⟨component, found, row, column⟩
    obtain ⟨grid, there, wide, tall⟩ := fits.exists_grid found
    have holds := (grid.forall_block property).mp (all grid (Array.mem_of_getElem? there))
      address.row (tall ▸ row) address.column (wide ▸ column)
    unfold blockAt
    rw [there, Option.map_some, Option.getD_some]
    exact holds
  · intro all grid member
    obtain ⟨index, there⟩ := Array.mem_iff_getElem?.mp member
    obtain ⟨inside, -⟩ := Array.getElem?_eq_some_iff.mp there
    rw [fits.size] at inside
    have found := List.getElem?_eq_getElem inside
    obtain ⟨wide, tall⟩ := fits.grid index _ grid found there
    apply (grid.forall_block property).mpr
    intro row rowInside column columnInside
    have holds := all
      { component := index
        row := row
        column := column }
      ⟨_, found, tall ▸ rowInside, wide ▸ columnInside⟩
    unfold blockAt at holds
    dsimp only at holds
    rw [there, Option.map_some, Option.getD_some] at holds
    exact holds

def zeroGrids (frame : Frame) : Array Grid :=
  (frame.components.map fun component =>
    Grid.zero (frame.blocksWide component) (frame.blocksTall component)).toArray

theorem fits_zeroGrids (frame : Frame) : frame.Fits frame.zeroGrids where
  size := by
    unfold zeroGrids
    rw [List.size_toArray, List.length_map]
  grid := by
    intro index component grid found there
    unfold zeroGrids at there
    rw [List.getElem?_toArray, List.getElem?_map, found] at there
    cases there
    exact ⟨rfl, rfl⟩

theorem blockAt_zeroGrids (frame : Frame) (address : BlockAddress) :
    blockAt frame.zeroGrids address = Block.zero := by
  unfold blockAt zeroGrids
  rw [List.getElem?_toArray, List.getElem?_map]
  cases frame.components[address.component]? with
  | none => rfl
  | some component => exact Grid.block_zero _ _ _ _

/-! ### Replacing blocks -/

/-- Grids of which the blocks at some addresses have become those of `target`, while all others
are those of `before`. -/
structure Replaced (frame : Frame) (before target : BlockAddress → Block)
    (done : List BlockAddress) (grids : Array Grid) : Prop where
  fits : frame.Fits grids
  block : ∀ address : BlockAddress, address.Inside frame →
    blockAt grids address = if address ∈ done then target address else before address

variable {before target : BlockAddress → Block} {done : List BlockAddress}

theorem replaced_zeroGrids (frame : Frame) (target : BlockAddress → Block) :
    frame.Replaced (fun _ => Block.zero) target [] frame.zeroGrids where
  fits := frame.fits_zeroGrids
  block := by
    intro address _
    rw [frame.blockAt_zeroGrids, if_neg List.not_mem_nil]

theorem Replaced.modify (replaced : frame.Replaced before target done grids)
    {address : BlockAddress} (inside : address.Inside frame) :
    frame.Replaced before target (done ++ [address])
      (grids.modify address.component
        (·.setBlock address.row address.column (target address))) where
  fits := replaced.fits.modify _ _ _ _
  block := by
    intro other otherInside
    rw [replaced.fits.blockAt_modify inside otherInside, replaced.block other otherInside]
    by_cases same : other = address
    · rw [if_pos same, if_pos (by simp [same]), same]
    · rw [if_neg same]
      simp [same]

theorem Fits.replaced (fits : frame.Fits grids) (target : BlockAddress → Block) :
    frame.Replaced (blockAt grids) target [] grids where
  fits := fits
  block := by
    intro address _
    rw [if_neg List.not_mem_nil]

/-- Replacing the same blocks once more leaves nothing of what they were replaced by before. -/
theorem Replaced.trans {between : BlockAddress → Block} {after : Array Grid}
    (first : frame.Replaced before between done grids)
    (second : frame.Replaced (blockAt grids) target done after) :
    frame.Replaced before target done after where
  fits := second.fits
  block := by
    intro address inside
    rw [second.block address inside]
    by_cases member : address ∈ done
    · rw [if_pos member, if_pos member]
    · rw [if_neg member, if_neg member, first.block address inside, if_neg member]

theorem Replaced.append {more : List BlockAddress} {after : Array Grid}
    (first : frame.Replaced before target done grids)
    (second : frame.Replaced (blockAt grids) target more after) :
    frame.Replaced before target (done ++ more) after where
  fits := second.fits
  block := by
    intro address inside
    rw [second.block address inside, first.block address inside]
    by_cases inMore : address ∈ more
    · rw [if_pos inMore, if_pos (List.mem_append_right _ inMore)]
    · rw [if_neg inMore]
      simp [inMore]

theorem Replaced.eq {final : Array Grid}
    (replaced : frame.Replaced before (blockAt final) done grids) (fits : frame.Fits final)
    (all : ∀ address : BlockAddress, address.Inside frame → address ∈ done) : grids = final :=
  replaced.fits.ext fits fun address inside => by
    rw [replaced.block address inside, if_pos (all address inside)]

end Frame

end LosslessJpeg
