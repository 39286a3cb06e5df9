import LosslessJpeg.Proofs.Checked.Basic
import LosslessJpeg.Proofs.Huffman.CodeTree
import Mathlib.Algebra.Order.BigOperators.Group.List
import Mathlib.Algebra.Order.Group.Nat
import Mathlib.Data.List.Nodup

set_option autoImplicit false

/-!
Building a code in arrays. For each symbol there are the weight of the tree that it is the root
of, the length of its code so far and the next symbol of its tree. Two trees are joined by
walking along their symbols, whose codes become one bit longer, and by linking the last symbol
of one to the root of the other. The arrays stand for a sorted list of trees.
-/

namespace LosslessJpeg

namespace Checked

structure Merging where
  weights : List Nat
  sizes : List Nat
  /-- The symbol behind each one in its tree. -/
  others : List (Option Nat)

/-- Go on looking for the least weight above zero. Of equal ones the last is found, and one
place is passed over. -/
def leastFrom (passed : Option Nat) : Nat → Option Nat → Nat → List Nat → Option Nat
  | _, found, _, [] => found
  | best, found, place, weight :: rest =>
      if 0 < weight ∧ weight ≤ best ∧ passed ≠ some place then
        leastFrom passed weight (some place) (place + 1) rest
      else
        leastFrom passed best found (place + 1) rest

def least (weights : List Nat) (passed : Option Nat) : Option Nat :=
  leastFrom passed (2 ^ 64 - 1) none 0 weights

/-- Make the codes of a tree one bit longer, from one of its symbols to the last, which is
found that way. -/
def lengthen (others : List (Option Nat)) :
    Nat → Nat → List Nat → Checked CodecError (Nat × List Nat)
  | 0, _, _ => .error (.fault .assertion)
  | rounds + 1, symbol, sizes => do
      let size ← item sizes symbol
      fits 64 (size + 1)
      match ← item others symbol with
      | some next => lengthen others rounds next (sizes.set symbol (size + 1))
      | none => pure (symbol, sizes.set symbol (size + 1))

def mergeStep (state : Merging) : Checked CodecError (Option Merging) :=
  match least state.weights none with
  | none => pure none
  | some first =>
      match least state.weights (some first) with
      | none => pure none
      | some second => do
          let weight ← item state.weights first
          let added ← item state.weights second
          fits 64 (weight + added)
          let (last, longer) ← lengthen state.others 257 first state.sizes
          inside state.others.length last
          let others := state.others.set last (some second)
          let (_, sizes) ← lengthen others 257 second longer
          pure (some
            { weights := (state.weights.set first (weight + added)).set second 0
              sizes := sizes
              others := others })

def mergeAll : Nat → Merging → Checked CodecError Merging
  | 0, _ => .error (.fault .assertion)
  | rounds + 1, state => do
      match ← mergeStep state with
      | some next => mergeAll rounds next
      | none => pure state

variable {passed found : Option Nat} {best place weight : Nat} {weights : List Nat}

private theorem leastFrom_of_lt (start : Nat)
    (heavier : ∀ place weight, weights[place]? = some weight → 0 < weight →
      passed ≠ some (start + place) → best < weight) :
    leastFrom passed best found start weights = found := by
  induction weights generalizing start with
  | nil => rfl
  | cons weight rest inductionHypothesis =>
      have skipped : ¬ (0 < weight ∧ weight ≤ best ∧ passed ≠ some start) := by
        rintro ⟨positive, atMost, free⟩
        exact Nat.not_lt_of_le atMost (heavier 0 weight rfl positive free)
      rw [leastFrom, if_neg skipped]
      refine inductionHypothesis (start + 1) fun place other there positive free => ?_
      refine heavier (place + 1) other there positive ?_
      rw [Nat.add_right_comm] at free
      exact free

private theorem leastFrom_of_lightest (start : Nat) (there : weights[place]? = some weight)
    (positive : 0 < weight) (free : passed ≠ some (start + place)) (atMost : weight ≤ best)
    (lightest : ∀ other otherWeight, weights[other]? = some otherWeight → 0 < otherWeight →
      passed ≠ some (start + other) →
      weight < otherWeight ∨ weight = otherWeight ∧ other ≤ place) :
    leastFrom passed best found start weights = some (start + place) := by
  -- Up to its place the lightest is still to come, and behind it nothing is as light.
  induction weights generalizing start place best found with
  | nil => cases there
  | cons first rest inductionHypothesis =>
      have behind : ∀ other, start + (other + 1) = start + 1 + other := by
        intro other
        omega
      cases place with
      | zero =>
          cases there
          rw [leastFrom, if_pos ⟨positive, atMost, free⟩]
          refine leastFrom_of_lt (start + 1) fun other otherWeight later heavy freeBehind => ?_
          rw [← behind] at freeBehind
          rcases lightest (other + 1) otherWeight later heavy freeBehind with less | ⟨-, early⟩
          · exact less
          · omega
      | succ place =>
          rw [behind] at free ⊢
          have lightestBehind : ∀ other otherWeight, rest[other]? = some otherWeight →
              0 < otherWeight → passed ≠ some (start + 1 + other) →
              weight < otherWeight ∨ weight = otherWeight ∧ other ≤ place := by
            intro other otherWeight later heavy freeBehind
            rw [← behind] at freeBehind
            rcases lightest (other + 1) otherWeight later heavy freeBehind with less | ⟨same, early⟩
            · exact Or.inl less
            · exact Or.inr ⟨same, by omega⟩
          rw [leastFrom]
          split
          · rename_i taken
            refine inductionHypothesis (start + 1) there free ?_ lightestBehind
            rcases lightest 0 first rfl taken.1 taken.2.2 with less | ⟨same, -⟩
            · exact Nat.le_of_lt less
            · exact Nat.le_of_eq same
          · exact inductionHypothesis (start + 1) there free atMost lightestBehind

/-! ### Walking along a tree -/

/-- The symbols follow one another, and nothing follows the last one. -/
def Linked (others : List (Option Nat)) : List Nat → Prop
  | [] => True
  | symbol :: rest => others[symbol]? = some rest.head? ∧ Linked others rest

def raise (symbols sizes : List Nat) : List Nat :=
  sizes.mapIdx fun symbol size => if symbol ∈ symbols then size + 1 else size

theorem raise_getElem? (symbols sizes : List Nat) (symbol : Nat) :
    (raise symbols sizes)[symbol]? =
      sizes[symbol]?.map fun size => if symbol ∈ symbols then size + 1 else size := by
  rw [raise, List.getElem?_mapIdx]

theorem raise_length (symbols sizes : List Nat) : (raise symbols sizes).length = sizes.length := by
  rw [raise, List.length_mapIdx]

private theorem raise_set {symbol size : Nat} {rest sizes : List Nat}
    (there : sizes[symbol]? = some size) (fresh : symbol ∉ rest) :
    raise rest (sizes.set symbol (size + 1)) = raise (symbol :: rest) sizes := by
  apply List.ext_getElem?
  intro other
  rw [raise_getElem?, raise_getElem?, List.getElem?_set]
  by_cases same : symbol = other
  · subst same
    obtain ⟨inside, -⟩ := List.getElem?_eq_some_iff.mp there
    rw [if_pos rfl, if_pos inside, there]
    simp [fresh]
  · have different : other ≠ symbol := fun equal => same equal.symm
    rw [if_neg same]
    simp [different]

theorem raise_append {symbols behind : List Nat} (apart : ∀ symbol ∈ symbols, symbol ∉ behind)
    (sizes : List Nat) : raise behind (raise symbols sizes) = raise (symbols ++ behind) sizes := by
  apply List.ext_getElem?
  intro symbol
  rw [raise_getElem?, raise_getElem?, raise_getElem?, Option.map_map]
  congr 1
  funext size
  by_cases early : symbol ∈ symbols
  · simp [early, apart symbol early]
  · simp [early]

private theorem raise_nil (sizes : List Nat) : raise [] sizes = sizes := by
  apply List.ext_getElem?
  intro symbol
  rw [raise_getElem?]
  simp

theorem lengthen_eq {others : List (Option Nat)} {sizes rest : List Nat} {symbol rounds : Nat}
    (linked : Linked others (symbol :: rest)) (distinct : (symbol :: rest).Nodup)
    (room : ∀ listed ∈ symbol :: rest, ∃ size, sizes[listed]? = some size ∧ size + 1 < 2 ^ 64)
    (enough : rest.length < rounds) :
    lengthen others rounds symbol sizes =
      .ok ((symbol :: rest).getLast (List.cons_ne_nil _ _), raise (symbol :: rest) sizes) := by
  induction rest generalizing symbol rounds sizes with
  | nil =>
      obtain ⟨rounds, rfl⟩ := Nat.exists_eq_add_one_of_ne_zero (Nat.ne_of_gt enough)
      obtain ⟨size, there, small⟩ := room symbol List.mem_cons_self
      rw [lengthen, bind_of_ok (item_of_getElem? there), bind_of_ok (fits_of_lt small),
        bind_of_ok (item_of_getElem? linked.1), ← raise_set there List.not_mem_nil, raise_nil]
      rfl
  | cons next rest inductionHypothesis =>
      rw [List.length_cons] at enough
      obtain ⟨rounds, rfl⟩ :=
        Nat.exists_eq_add_one_of_ne_zero (Nat.ne_of_gt (by omega : 0 < rounds))
      obtain ⟨size, there, small⟩ := room symbol List.mem_cons_self
      obtain ⟨fresh, distinctRest⟩ := List.nodup_cons.mp distinct
      rw [lengthen, bind_of_ok (item_of_getElem? there), bind_of_ok (fits_of_lt small),
        bind_of_ok (item_of_getElem? linked.1), ← raise_set there fresh,
        List.getLast_cons (List.cons_ne_nil _ _)]
      refine inductionHypothesis linked.2 distinctRest (fun listed member => ?_) (by omega)
      have different : symbol ≠ listed := fun same => fresh (same ▸ member)
      rw [List.getElem?_set_ne different]
      exact room listed (List.mem_cons_of_mem _ member)

theorem Linked.inside {others : List (Option Nat)} {symbols : List Nat}
    (linked : Linked others symbols) {symbol : Nat} (member : symbol ∈ symbols) :
    symbol < others.length := by
  induction symbols with
  | nil => cases member
  | cons first rest inductionHypothesis =>
      rcases List.mem_cons.mp member with rfl | later
      · exact (List.getElem?_eq_some_iff.mp linked.1).1
      · exact inductionHypothesis linked.2 later

theorem Linked.set {others : List (Option Nat)} {symbols : List Nat}
    (linked : Linked others symbols) {place : Nat} (away : place ∉ symbols)
    (next : Option Nat) : Linked (others.set place next) symbols := by
  induction symbols with
  | nil => trivial
  | cons first rest inductionHypothesis =>
      rw [List.mem_cons, not_or] at away
      refine ⟨?_, inductionHypothesis linked.2 away.2⟩
      rw [List.getElem?_set_ne away.1]
      exact linked.1

/-- Linking the last symbol of one tree to the root of another puts them together. -/
theorem Linked.append {others : List (Option Nat)} {symbols behind : List Nat}
    (linked : Linked others symbols) (linkedBehind : Linked others behind)
    (distinct : (symbols ++ behind).Nodup) (nonempty : symbols ≠ []) :
    Linked (others.set (symbols.getLast nonempty) behind.head?) (symbols ++ behind) := by
  induction symbols with
  | nil => exact absurd rfl nonempty
  | cons first rest inductionHypothesis =>
      rw [List.cons_append] at distinct ⊢
      obtain ⟨fresh, distinctRest⟩ := List.nodup_cons.mp distinct
      cases rest with
      | nil =>
          refine ⟨?_, linkedBehind.set fresh _⟩
          rw [List.getLast_singleton, List.getElem?_set_self (linked.inside List.mem_cons_self)]
          rfl
      | cons second rest =>
          have later := inductionHypothesis linked.2 distinctRest (List.cons_ne_nil _ _)
          rw [List.getLast_cons (List.cons_ne_nil _ _)]
          refine ⟨?_, later⟩
          have different : (second :: rest).getLast (List.cons_ne_nil _ _) ≠ first := fun same =>
            fresh (List.mem_append_left _ (same ▸ List.getLast_mem _))
          rw [List.getElem?_set_ne different]
          exact linked.1

end Checked

namespace WeightedTree

theorem precedes_iff {left right : WeightedTree} :
    left.precedes right = true ↔
      left.weight < right.weight ∨ left.weight = right.weight ∧ right.rank < left.rank := by
  unfold precedes
  simp

abbrev Sorted (trees : List WeightedTree) : Prop :=
  trees.Pairwise fun first second => first.precedes second = true

theorem insert_sorted {tree : WeightedTree} {trees : List WeightedTree} (sorted : Sorted trees)
    (apart : ∀ other ∈ trees, other.rank ≠ tree.rank) : Sorted (insert tree trees) := by
  induction trees with
  | nil => exact List.pairwise_singleton _ _
  | cons first rest inductionHypothesis =>
      obtain ⟨before, sortedRest⟩ := List.pairwise_cons.mp sorted
      rw [insert]
      split
      · rename_i lighter
        refine List.pairwise_cons.mpr ⟨fun other member => ?_, sorted⟩
        rcases List.mem_cons.mp member with rfl | later
        · exact lighter
        · have ordered := before other later
          rw [precedes_iff] at lighter ordered ⊢
          omega
      · rename_i heavier
        refine List.pairwise_cons.mpr ⟨fun other member => ?_,
          inductionHypothesis sortedRest fun other later =>
            apart other (List.mem_cons_of_mem _ later)⟩
        rcases List.mem_cons.mp ((insert_perm tree rest).mem_iff.mp member) with rfl | later
        · have different := apart first List.mem_cons_self
          rw [precedes_iff] at heavier ⊢
          omega
        · exact before other later

end WeightedTree

namespace Checked

/-! ### Arrays that stand for trees -/

/-- The arrays hold a sorted list of trees. A tree is found at its root, which is the first of
its symbols. -/
structure Stands (trees : List WeightedTree) (state : Merging) : Prop where
  weightsLength : state.weights.length = 257
  sizesLength : state.sizes.length = 257
  othersLength : state.others.length = 257
  sorted : WeightedTree.Sorted trees
  distinct : (WeightedTree.symbols trees).Nodup
  rooted : ∀ tree ∈ trees, tree.tree.symbols.head? = some tree.rank
  weighed : ∀ tree ∈ trees, 0 < tree.weight ∧ state.weights[tree.rank]? = some tree.weight
  unweighed : ∀ symbol weight, state.weights[symbol]? = some weight → 0 < weight →
    ∃ tree ∈ trees, tree.rank = symbol
  linked : ∀ tree ∈ trees, Linked state.others tree.tree.symbols
  sized : ∀ tree ∈ trees, ∀ entry ∈ tree.tree.depths, state.sizes[entry.1]? = some entry.2
  unsized : ∀ symbol size, state.sizes[symbol]? = some size →
    symbol ∉ WeightedTree.symbols trees → size = 0
  bounded : (trees.map WeightedTree.weight).sum < 2 ^ 64

namespace Stands

variable {trees rest : List WeightedTree} {first second last : WeightedTree} {state : Merging}

theorem mem_symbols {tree : WeightedTree} {symbol : Nat} (member : tree ∈ trees)
    (listed : symbol ∈ tree.tree.symbols) : symbol ∈ WeightedTree.symbols trees :=
  List.mem_flatMap.mpr ⟨tree, member, listed⟩

theorem light (stands : Stands trees state) {tree : WeightedTree} (member : tree ∈ trees) :
    tree.weight < 2 ^ 64 :=
  Nat.lt_of_le_of_lt (List.le_sum_of_mem (List.mem_map_of_mem member)) stands.bounded

theorem rank_mem (stands : Stands trees state) {tree : WeightedTree} (member : tree ∈ trees) :
    tree.rank ∈ tree.tree.symbols :=
  List.mem_of_mem_head? (stands.rooted tree member)

theorem disjoint (stands : Stands (first :: rest) state) {tree : WeightedTree}
    (member : tree ∈ rest) {symbol : Nat} (inFirst : symbol ∈ first.tree.symbols) :
    symbol ∉ tree.tree.symbols := by
  have distinct := stands.distinct
  unfold WeightedTree.symbols at distinct
  rw [List.flatMap_cons, List.nodup_append] at distinct
  exact fun inTree => distinct.2.2 symbol inFirst symbol (mem_symbols member inTree) rfl

theorem least_first (stands : Stands (first :: rest) state) :
    least state.weights none = some first.rank := by
  obtain ⟨positive, there⟩ := stands.weighed first List.mem_cons_self
  have small := stands.light List.mem_cons_self
  have found := @leastFrom_of_lightest none none (2 ^ 64 - 1) first.rank first.weight
    state.weights 0 there positive (by simp) (by omega) fun other weight listed heavy _ => ?_
  · rw [Nat.zero_add] at found
    exact found
  · obtain ⟨tree, member, rfl⟩ := stands.unweighed other weight listed heavy
    have named := (stands.weighed tree member).2
    rw [listed] at named
    cases named
    rcases List.mem_cons.mp member with rfl | later
    · exact Or.inr ⟨rfl, Nat.le_refl _⟩
    · have ordered := (List.pairwise_cons.mp stands.sorted).1 tree later
      rw [WeightedTree.precedes_iff] at ordered
      omega

theorem least_second (stands : Stands (first :: second :: rest) state) :
    least state.weights (some first.rank) = some second.rank := by
  have member : second ∈ first :: second :: rest := List.mem_cons_of_mem _ List.mem_cons_self
  obtain ⟨positive, there⟩ := stands.weighed second member
  have small := stands.light member
  have different : first.rank ≠ second.rank := fun same =>
    stands.disjoint List.mem_cons_self (stands.rank_mem List.mem_cons_self)
      (same ▸ stands.rank_mem member)
  have found := @leastFrom_of_lightest (some first.rank) none (2 ^ 64 - 1) second.rank
    second.weight state.weights 0 there positive (by simpa using different) (by omega)
    fun other weight listed heavy free => ?_
  · rw [Nat.zero_add] at found
    exact found
  · obtain ⟨tree, memberToo, rfl⟩ := stands.unweighed other weight listed heavy
    have named := (stands.weighed tree memberToo).2
    rw [listed] at named
    cases named
    rcases List.mem_cons.mp memberToo with rfl | behind
    · rw [Nat.zero_add] at free
      exact absurd rfl free
    · rcases List.mem_cons.mp behind with rfl | later
      · exact Or.inr ⟨rfl, Nat.le_refl _⟩
      · have sortedRest := (List.pairwise_cons.mp stands.sorted).2
        have ordered := (List.pairwise_cons.mp sortedRest).1 tree later
        rw [WeightedTree.precedes_iff] at ordered
        omega

theorem least_alone (stands : Stands [last] state) :
    least state.weights (some last.rank) = none := by
  refine leastFrom_of_lt 0 fun place weight listed heavy free => ?_
  obtain ⟨tree, member, rfl⟩ := stands.unweighed place weight listed heavy
  rw [List.mem_singleton] at member
  rw [member, Nat.zero_add] at free
  exact absurd rfl free

/-! ### Joining two trees -/

theorem few (stands : Stands trees state) {tree : WeightedTree} (member : tree ∈ trees) :
    tree.tree.symbols.length ≤ 257 := by
  have distinct : tree.tree.symbols.Nodup :=
    (List.nodup_flatMap.mp stands.distinct).1 tree member
  have inside : tree.tree.symbols ⊆ List.range 257 := by
    intro symbol listed
    rw [List.mem_range, ← stands.othersLength]
    exact (stands.linked tree member).inside listed
  have bound := (List.subperm_of_subset distinct inside).length_le
  rw [List.length_range] at bound
  exact bound

theorem room (stands : Stands trees state) {tree : WeightedTree} (member : tree ∈ trees)
    {symbol : Nat} (listed : symbol ∈ tree.tree.symbols) :
    ∃ size, state.sizes[symbol]? = some size ∧ size + 1 < 2 ^ 64 := by
  have names := CodeTree.depthsFrom_symbols 0 tree.tree
  have bound := stands.few member
  rw [← names] at listed bound
  obtain ⟨entry, there, rfl⟩ := List.mem_map.mp listed
  have deep := (CodeTree.depthsFrom_bounds there).2
  rw [List.length_map] at bound
  exact ⟨entry.2, stands.sized tree member entry there, by omega⟩

/-- Walking along a tree makes all its codes longer. -/
theorem lengthen_tree (stands : Stands trees state) {tree : WeightedTree} (member : tree ∈ trees)
    {others : List (Option Nat)} (linked : Linked others tree.tree.symbols) {sizes : List Nat}
    (same : ∀ symbol ∈ tree.tree.symbols, sizes[symbol]? = state.sizes[symbol]?) :
    ∃ last, tree.tree.symbols.getLast? = some last ∧
      lengthen others 257 tree.rank sizes = .ok (last, raise tree.tree.symbols sizes) := by
  obtain ⟨behind, symbols⟩ := List.head?_eq_some_iff.mp (stands.rooted tree member)
  have distinct := (List.nodup_flatMap.mp stands.distinct).1 tree member
  have bound := stands.few member
  have room := fun symbol (listed : symbol ∈ tree.tree.symbols) => stands.room member listed
  rw [symbols] at linked distinct same bound room ⊢
  refine ⟨_, List.getLast?_eq_some_getLast (List.cons_ne_nil _ _), ?_⟩
  refine lengthen_eq linked distinct (fun listed there => ?_) (Nat.lt_of_succ_le bound)
  rw [same listed there]
  exact room listed there

/-- What the arrays are after two trees have been joined. -/
private def joined (first second : WeightedTree) (last : Nat) (state : Merging) : Merging :=
  { weights := (state.weights.set first.rank (first.weight + second.weight)).set second.rank 0
    sizes := raise (first.tree.symbols ++ second.tree.symbols) state.sizes
    others := state.others.set last (some second.rank) }

private theorem mem_second : second ∈ first :: second :: rest :=
  List.mem_cons_of_mem _ List.mem_cons_self

private theorem mem_behind {tree : WeightedTree} (member : tree ∈ rest) :
    tree ∈ first :: second :: rest :=
  List.mem_cons_of_mem _ (List.mem_cons_of_mem _ member)

theorem disjoint_second (stands : Stands (first :: second :: rest) state) {tree : WeightedTree}
    (member : tree ∈ rest) {symbol : Nat} (inSecond : symbol ∈ second.tree.symbols) :
    symbol ∉ tree.tree.symbols := by
  have distinct := stands.distinct
  unfold WeightedTree.symbols at distinct
  rw [List.flatMap_cons, List.flatMap_cons, List.nodup_append, List.nodup_append] at distinct
  exact fun inTree => distinct.2.1.2.2 symbol inSecond symbol (mem_symbols member inTree) rfl

theorem mergeStep_join (stands : Stands (first :: second :: rest) state) :
    ∃ last, first.tree.symbols.getLast? = some last ∧
      mergeStep state = .ok (some (joined first second last state)) := by
  have apart : ∀ symbol ∈ first.tree.symbols, symbol ∉ second.tree.symbols :=
    fun symbol inFirst => stands.disjoint List.mem_cons_self inFirst
  -- Both trees are walked along. The link between them is set in between, where the first one
  -- ends.
  obtain ⟨last, ends, walked⟩ := stands.lengthen_tree List.mem_cons_self
    (stands.linked first List.mem_cons_self) fun symbol _ => rfl
  have inFirst : last ∈ first.tree.symbols := List.mem_of_getLast? ends
  have within := (stands.linked first List.mem_cons_self).inside inFirst
  have linkedSecond := (stands.linked second mem_second).set (apart last inFirst)
    (some second.rank)
  have untouched : ∀ symbol ∈ second.tree.symbols,
      (raise first.tree.symbols state.sizes)[symbol]? = state.sizes[symbol]? := by
    intro symbol inSecond
    have away : symbol ∉ first.tree.symbols := fun inFirst => apart symbol inFirst inSecond
    rw [raise_getElem?]
    simp [away]
  obtain ⟨_, -, walkedToo⟩ := stands.lengthen_tree mem_second linkedSecond untouched
  have weights : first.weight + second.weight < 2 ^ 64 := by
    have total := stands.bounded
    rw [List.map_cons, List.map_cons, List.sum_cons, List.sum_cons] at total
    omega
  refine ⟨last, ends, ?_⟩
  unfold mergeStep
  rw [stands.least_first]
  dsimp only
  rw [stands.least_second]
  dsimp only
  rw [bind_of_ok (item_of_getElem? (stands.weighed first List.mem_cons_self).2),
    bind_of_ok (item_of_getElem? (stands.weighed second mem_second).2),
    bind_of_ok (fits_of_lt weights), bind_of_ok walked, bind_of_ok (inside_of_lt within),
    bind_of_ok walkedToo, raise_append apart]
  rfl

private theorem ranks (stands : Stands (first :: second :: rest) state) :
    first.rank ≠ second.rank ∧ ∀ tree ∈ rest, first.rank ≠ tree.rank ∧ second.rank ≠ tree.rank := by
  have rankFirst := stands.rank_mem List.mem_cons_self
  have rankSecond := stands.rank_mem mem_second
  refine ⟨fun same => ?_, fun tree member => ⟨fun same => ?_, fun same => ?_⟩⟩
  · exact stands.disjoint List.mem_cons_self rankFirst (same ▸ rankSecond)
  · exact stands.disjoint (List.mem_cons_of_mem _ member) rankFirst
      (same ▸ stands.rank_mem (mem_behind member))
  · exact stands.disjoint_second member rankSecond
      (same ▸ stands.rank_mem (mem_behind member))

private theorem joined_weight (stands : Stands (first :: second :: rest) state)
    {last symbol : Nat} :
    (joined first second last state).weights[symbol]? =
      if second.rank = symbol then some 0
      else if first.rank = symbol then some (first.weight + second.weight)
      else state.weights[symbol]? := by
  have insideFirst := (List.getElem?_eq_some_iff.mp
    (stands.weighed first List.mem_cons_self).2).1
  have insideSecond := (List.getElem?_eq_some_iff.mp (stands.weighed second mem_second).2).1
  change ((state.weights.set first.rank (first.weight + second.weight)).set
    second.rank 0)[symbol]? = _
  rw [List.getElem?_set, List.getElem?_set, List.length_set]
  by_cases behind : second.rank = symbol
  · rw [if_pos behind, if_pos behind, if_pos insideSecond]
  · rw [if_neg behind, if_neg behind, if_pos insideFirst]

private theorem joined_size {last : Nat} (symbol : Nat) :
    (joined first second last state).sizes[symbol]? = state.sizes[symbol]?.map fun size =>
      if symbol ∈ first.tree.symbols ++ second.tree.symbols then size + 1 else size :=
  raise_getElem? _ _ _

private theorem mem_symbols_of_depths {depth : Nat} {tree : CodeTree} {entry : Nat × Nat}
    (listed : entry ∈ tree.depthsFrom depth) : entry.1 ∈ tree.symbols := by
  rw [← CodeTree.depthsFrom_symbols depth]
  exact List.mem_map_of_mem listed

private theorem joined_sized (stands : Stands (first :: second :: rest) state) {last : Nat}
    {tree : WeightedTree} (member : tree ∈ WeightedTree.insert (first.join second) rest)
    {entry : Nat × Nat} (listed : entry ∈ tree.tree.depths) :
    (joined first second last state).sizes[entry.1]? = some entry.2 := by
  rw [joined_size]
  rcases WeightedTree.mem_insert.mp member with rfl | later
  · have deeper : ∀ part ∈ first :: second :: rest, ∀ entry ∈ part.tree.depthsFrom (0 + 1),
        state.sizes[entry.1]?.map (· + 1) = some entry.2 := by
      intro part inside entry there
      rw [CodeTree.depthsFrom_succ] at there
      obtain ⟨shallow, found, rfl⟩ := List.mem_map.mp there
      rw [stands.sized part inside shallow found]
      rfl
    rcases List.mem_append.mp listed with inFirst | inSecond
    · have named := mem_symbols_of_depths inFirst
      rw [← deeper first List.mem_cons_self entry inFirst]
      simp [named]
    · have named := mem_symbols_of_depths inSecond
      rw [← deeper second mem_second entry inSecond]
      simp [named]
  · have named := mem_symbols_of_depths listed
    have awayFirst : entry.1 ∉ first.tree.symbols := fun inFirst =>
      stands.disjoint (List.mem_cons_of_mem _ later) inFirst named
    have awaySecond : entry.1 ∉ second.tree.symbols := fun inSecond =>
      stands.disjoint_second later inSecond named
    rw [stands.sized tree (mem_behind later) entry listed]
    simp [awayFirst, awaySecond]

private theorem joined_weighed (stands : Stands (first :: second :: rest) state) {last : Nat}
    {tree : WeightedTree} (member : tree ∈ WeightedTree.insert (first.join second) rest) :
    0 < tree.weight ∧ (joined first second last state).weights[tree.rank]? = some tree.weight := by
  obtain ⟨differ, differRest⟩ := stands.ranks
  have positive := (stands.weighed first List.mem_cons_self).1
  rw [stands.joined_weight]
  rcases WeightedTree.mem_insert.mp member with rfl | later
  · change 0 < first.weight + second.weight ∧ (if second.rank = first.rank then _ else _) = _
    rw [if_neg differ.symm]
    exact ⟨Nat.add_pos_left positive _, if_pos rfl⟩
  · obtain ⟨awayFirst, awaySecond⟩ := differRest tree later
    rw [if_neg awaySecond, if_neg awayFirst]
    exact stands.weighed tree (mem_behind later)

private theorem joined_unweighed (stands : Stands (first :: second :: rest) state)
    {last symbol weight : Nat}
    (listed : (joined first second last state).weights[symbol]? = some weight)
    (heavy : 0 < weight) :
    ∃ tree ∈ WeightedTree.insert (first.join second) rest, tree.rank = symbol := by
  rw [stands.joined_weight] at listed
  split at listed
  · cases listed
    cases heavy
  · rename_i awaySecond
    split at listed
    · rename_i root
      exact ⟨_, WeightedTree.mem_insert.mpr (Or.inl rfl), root⟩
    · rename_i awayFirst
      obtain ⟨tree, member, rfl⟩ := stands.unweighed symbol weight listed heavy
      rcases List.mem_cons.mp member with rfl | behind
      · exact absurd rfl awayFirst
      · rcases List.mem_cons.mp behind with rfl | later
        · exact absurd rfl awaySecond
        · exact ⟨tree, WeightedTree.mem_insert.mpr (Or.inr later), rfl⟩

private theorem symbols_pair (first second : WeightedTree) (rest : List WeightedTree) :
    WeightedTree.symbols (first :: second :: rest) =
      (first.tree.symbols ++ second.tree.symbols) ++ WeightedTree.symbols rest := by
  unfold WeightedTree.symbols
  rw [List.flatMap_cons, List.flatMap_cons, List.append_assoc]

private theorem joined_linked (stands : Stands (first :: second :: rest) state) {last : Nat}
    (ends : first.tree.symbols.getLast? = some last) {tree : WeightedTree}
    (member : tree ∈ WeightedTree.insert (first.join second) rest) :
    Linked (joined first second last state).others tree.tree.symbols := by
  have inFirst : last ∈ first.tree.symbols := List.mem_of_getLast? ends
  rcases WeightedTree.mem_insert.mp member with rfl | later
  · have distinct := stands.distinct
    rw [symbols_pair] at distinct
    have together := (stands.linked first List.mem_cons_self).append
      (stands.linked second mem_second) (List.nodup_append.mp distinct).1
      (List.ne_nil_of_mem inFirst)
    rw [stands.rooted second mem_second, List.getLast_of_getLast?_eq_some ends] at together
    exact together
  · exact (stands.linked tree (mem_behind later)).set
      (stands.disjoint (List.mem_cons_of_mem _ later) inFirst) _

private theorem joined_unsized (stands : Stands (first :: second :: rest) state)
    {last symbol size : Nat}
    (listed : (joined first second last state).sizes[symbol]? = some size)
    (absent : symbol ∉ WeightedTree.symbols (first :: second :: rest)) : size = 0 := by
  have away : symbol ∉ first.tree.symbols ++ second.tree.symbols := fun inside =>
    absent (by
      rw [symbols_pair]
      exact List.mem_append_left _ inside)
  rw [joined_size] at listed
  obtain ⟨old, there, same⟩ := Option.map_eq_some_iff.mp listed
  rw [if_neg away] at same
  rw [← same]
  exact stands.unsized symbol old there absent

private theorem joined_rooted (stands : Stands (first :: second :: rest) state)
    {tree : WeightedTree} (member : tree ∈ WeightedTree.insert (first.join second) rest) :
    tree.tree.symbols.head? = some tree.rank := by
  rcases WeightedTree.mem_insert.mp member with rfl | later
  · obtain ⟨behind, front⟩ := List.head?_eq_some_iff.mp (stands.rooted first List.mem_cons_self)
    change (first.tree.symbols ++ second.tree.symbols).head? = some first.rank
    rw [front]
    rfl
  · exact stands.rooted tree (mem_behind later)

private theorem joined_bounded (stands : Stands (first :: second :: rest) state) :
    ((WeightedTree.insert (first.join second) rest).map WeightedTree.weight).sum < 2 ^ 64 := by
  have total := ((WeightedTree.insert_perm (first.join second) rest).map
    WeightedTree.weight).sum_eq
  have bounded := stands.bounded
  rw [List.map_cons, List.map_cons, List.sum_cons, List.sum_cons] at bounded
  rw [total, List.map_cons, List.sum_cons]
  change first.weight + second.weight + _ < _
  omega

theorem join (stands : Stands (first :: second :: rest) state) {last : Nat}
    (ends : first.tree.symbols.getLast? = some last) :
    Stands (WeightedTree.insert (first.join second) rest) (joined first second last state) := by
  have symbols := WeightedTree.symbols_insert_join first second rest
  have sortedRest := (List.pairwise_cons.mp (List.pairwise_cons.mp stands.sorted).2).2
  exact
    { weightsLength := by
        change ((state.weights.set _ _).set _ _).length = 257
        rw [List.length_set, List.length_set, stands.weightsLength]
      sizesLength := by
        change (raise _ state.sizes).length = 257
        rw [raise_length, stands.sizesLength]
      othersLength := by
        change (state.others.set _ _).length = 257
        rw [List.length_set, stands.othersLength]
      sorted := WeightedTree.insert_sorted sortedRest fun tree member =>
        (stands.ranks.2 tree member).1.symm
      distinct := symbols.nodup_iff.mpr stands.distinct
      rooted := fun _ member => stands.joined_rooted member
      weighed := fun _ member => stands.joined_weighed member
      unweighed := fun _ _ listed heavy => stands.joined_unweighed listed heavy
      linked := fun _ member => stands.joined_linked ends member
      sized := fun _ member _ listed => stands.joined_sized member listed
      unsized := fun _ _ listed absent =>
        stands.joined_unsized listed fun inside => absent (symbols.mem_iff.mpr inside)
      bounded := stands.joined_bounded }

theorem mergeStep_alone (stands : Stands [last] state) : mergeStep state = .ok none := by
  unfold mergeStep
  rw [stands.least_first]
  dsimp only
  rw [stands.least_alone]
  rfl

/-- Merging ends, since every round leaves one tree less. -/
theorem mergeAll_eq {rounds : Nat} (stands : Stands trees state) (nonempty : trees ≠ [])
    (enough : trees.length ≤ rounds) :
    ∃ final last, mergeAll rounds state = .ok final ∧ Stands [last] final ∧
      WeightedTree.joinAll trees = some last.tree := by
  fun_induction WeightedTree.joinAll trees generalizing state rounds with
  | case1 => exact absurd rfl nonempty
  | case2 last =>
      obtain ⟨rounds, rfl⟩ := Nat.exists_eq_add_one_of_ne_zero (Nat.ne_of_gt enough)
      refine ⟨state, last, ?_, stands, rfl⟩
      rw [mergeAll, bind_of_ok stands.mergeStep_alone]
      rfl
  | case3 first second rest inductionHypothesis =>
      obtain ⟨last, ends, stepped⟩ := stands.mergeStep_join
      have count := WeightedTree.insert_length (first.join second) rest
      rw [List.length_cons, List.length_cons] at enough
      obtain ⟨rounds, rfl⟩ := Nat.exists_eq_add_one_of_ne_zero (by omega : rounds ≠ 0)
      rw [mergeAll, bind_of_ok stepped]
      refine inductionHypothesis (stands.join ends) (fun empty => ?_) (by omega)
      rw [empty] at count
      cases count

end Stands

end Checked

end LosslessJpeg
