import LosslessJpeg.Huffman.Table

set_option autoImplicit false

/-!
A Huffman table for given symbol frequencies. A reserved symbol of weight one takes part
in building the code and gives up its place at the end, so that no symbol has a codeword
of ones only. Codewords of more than sixteen bits are shortened at the expense of
shorter ones.
-/

namespace LosslessJpeg

inductive CodeTree
  | leaf (symbol : Nat)
  | node (left right : CodeTree)
  deriving DecidableEq, Repr

namespace CodeTree

def depthsFrom (depth : Nat) : CodeTree → List (Nat × Nat)
  | .leaf symbol => [(symbol, depth)]
  | .node left right => depthsFrom (depth + 1) left ++ depthsFrom (depth + 1) right

def depths (tree : CodeTree) : List (Nat × Nat) :=
  depthsFrom 0 tree

end CodeTree

structure WeightedTree where
  weight : Nat
  rank : Nat
  tree : CodeTree
  deriving DecidableEq, Repr

namespace WeightedTree

/-- The lighter tree comes first, of two equally heavy ones that of the higher rank. -/
def precedes (left right : WeightedTree) : Bool :=
  left.weight < right.weight || left.weight == right.weight && right.rank < left.rank

def insert (tree : WeightedTree) : List WeightedTree → List WeightedTree
  | [] => [tree]
  | first :: rest =>
      if tree.precedes first then tree :: first :: rest else first :: insert tree rest

theorem insert_length (tree : WeightedTree) (trees : List WeightedTree) :
    (insert tree trees).length = trees.length + 1 := by
  induction trees with
  | nil => rfl
  | cons first rest inductionHypothesis =>
      unfold insert
      split
      · rfl
      · rw [List.length_cons, List.length_cons, inductionHypothesis]

def join (first second : WeightedTree) : WeightedTree :=
  { weight := first.weight + second.weight
    rank := first.rank
    tree := .node first.tree second.tree }

def joinAll (trees : List WeightedTree) : Option CodeTree :=
  match trees with
  | [] => none
  | [last] => some last.tree
  | first :: second :: rest => joinAll (insert (join first second) rest)
termination_by trees.length
decreasing_by
  rw [insert_length]
  simp only [List.length_cons]
  omega

end WeightedTree

namespace OptimalCode

def reserved : Nat := 256

abbrev Frequencies := Vector UInt32 256

/-- The symbols that occur, with their weights. If none occurs, symbol 0 counts once. -/
def usedSymbols (frequencies : Frequencies) : List (Nat × Nat) :=
  let used := (frequencies.toList.zipIdx.map fun entry => (entry.2, entry.1.toNat)).filter
    fun entry => 0 < entry.2
  if used.isEmpty then [(0, 1)] else used

def leafOf (entry : Nat × Nat) : WeightedTree :=
  { weight := entry.2
    rank := entry.1
    tree := .leaf entry.1 }

def forest (frequencies : Frequencies) : List WeightedTree :=
  (usedSymbols frequencies ++ [(reserved, 1)]).foldl
    (fun trees entry => (leafOf entry).insert trees) []

def codeSizes (frequencies : Frequencies) : List (Nat × Nat) :=
  ((WeightedTree.joinAll (forest frequencies)).map CodeTree.depths).getD []

abbrev LengthCounts := Array Nat

def countLengths (sizes : List (Nat × Nat)) : LengthCounts :=
  sizes.foldl (fun counts entry => counts.modify entry.2 (· + 1)) (Array.replicate 258 0)

def longestUsed (counts : LengthCounts) : Nat → Nat
  | 0 => 0
  | length + 1 =>
      if counts.getD (length + 1) 0 = 0 then longestUsed counts length else length + 1

/-- Two codewords of `length` bits are siblings. One takes the place of their parent; the
other and a shorter codeword become the children of that shorter one. -/
def shortenPair (length : Nat) (counts : LengthCounts) : LengthCounts :=
  -- The search leaves out one length, so that both children are shorter than the pair has been.
  let donor := longestUsed counts (length - 2)
  let freed := (counts.modify length (· - 2)).modify (length - 1) (· + 1)
  (freed.modify (donor + 1) (· + 2)).modify donor (· - 1)

def shortenAll (counts : LengthCounts) (length : Nat) : LengthCounts :=
  Nat.repeat (shortenPair length) (counts.getD length 0 / 2) counts

def limitLengths (counts : LengthCounts) : LengthCounts :=
  -- A code of 257 symbols has no length beyond these.
  (List.range' 17 241).reverse.foldl shortenAll counts

/-- Give up the reserved codeword, which is one of the longest. -/
def dropReserved (counts : LengthCounts) : LengthCounts :=
  match longestUsed counts 16 with
  | 0 => counts
  | length + 1 => counts.modify (length + 1) (· - 1)

/-- Symbols by rising length, those of one length by number. -/
def bySize (left right : Nat × Nat) : Bool :=
  left.2 < right.2 || left.2 == right.2 && left.1 ≤ right.1

def orderedSymbols (sizes : List (Nat × Nat)) : List UInt8 :=
  ((sizes.filter fun entry => entry.1 < reserved).mergeSort bySize).map
    fun entry => UInt8.ofNat entry.1

end OptimalCode

open OptimalCode in
def optimalTable (tableClass id : UInt8) (frequencies : Frequencies) : HuffmanTable :=
  let sizes := codeSizes frequencies
  let counts := dropReserved (limitLengths (countLengths sizes))
  { tableClass := tableClass
    id := id
    counts := Vector.ofFn fun index : Fin 16 => UInt8.ofNat (counts.getD (index.val + 1) 0)
    symbols := orderedSymbols sizes }

end LosslessJpeg
