import LosslessJpeg.Bytes
import LosslessJpeg.Error

set_option autoImplicit false

/-!
Huffman tables as a file defines them: how many codewords there are of each length, and
the symbols in the order of their codewords. A segment holds definitions back to back.
-/

namespace LosslessJpeg

inductive CoefficientClass
  | dc
  | ac
  deriving DecidableEq, Repr

structure HuffmanTable where
  tableClass : UInt8
  id : UInt8
  /-- Entry `n` counts the codewords of `n + 1` bits. -/
  counts : Vector UInt8 16
  symbols : List UInt8
  deriving DecidableEq, Repr

namespace HuffmanTable

def countList (table : HuffmanTable) : List Nat :=
  table.counts.toList.map (·.toNat)

def bytes (table : HuffmanTable) : List UInt8 :=
  nibbles table.tableClass.toNat table.id.toNat :: table.counts.toList ++ table.symbols

end HuffmanTable

def huffmanBody (tables : List HuffmanTable) : List UInt8 :=
  tables.flatMap HuffmanTable.bytes

def takeCounts (body : List UInt8) : Option (Vector UInt8 16 × List UInt8) :=
  if enough : (body.take 16).length = 16 then
    some (⟨(body.take 16).toArray, by simpa using enough⟩, body.drop 16)
  else
    none

def takeHuffmanTable (head : UInt8) (body : List UInt8) :
    Except CodecError (HuffmanTable × List UInt8) :=
  match takeCounts body with
  | none => .error .unexpectedEnd
  | some (counts, rest) =>
      let total := (counts.toList.map (·.toNat)).foldr (· + ·) 0
      let symbols := rest.take total
      if 256 < total then
        .error (.malformed .tooManySymbols)
      else if symbols.length < total then
        .error .unexpectedEnd
      else
        .ok
          ({ tableClass := UInt8.ofNat (highNibble head)
             id := UInt8.ofNat (lowNibble head)
             counts := counts
             symbols := symbols }, rest.drop total)

private theorem takeHuffmanTable_length {head : UInt8} {body rest : List UInt8}
    {table : HuffmanTable} (taken : takeHuffmanTable head body = .ok (table, rest)) :
    rest.length ≤ body.length := by
  unfold takeHuffmanTable takeCounts at taken
  dsimp only at taken
  split at taken
  · cases taken
  · rename_i found
    split at found
    · cases found
      split at taken
      · cases taken
      · split at taken
        · cases taken
        · cases taken
          simp only [List.length_drop]
          omega
    · cases found

def huffmanTablesOfBody (body : List UInt8) : Except CodecError (List HuffmanTable) :=
  match body with
  | [] => .ok []
  | head :: rest =>
      if 1 < highNibble head ∨ 3 < lowNibble head then
        .error (.huffmanTableId head.toNat)
      else
        match _ : takeHuffmanTable head rest with
        | .error failure => .error failure
        | .ok (table, following) => do
            let others ← huffmanTablesOfBody following
            pure (table :: others)
termination_by body.length
decreasing_by
  have shorter := takeHuffmanTable_length (by assumption)
  simp only [List.length_cons]
  omega

/-- The latest definition of each table. A table may be redefined between scans. -/
structure HuffmanSlots where
  dc : Vector (Option HuffmanTable) 4
  ac : Vector (Option HuffmanTable) 4
  deriving DecidableEq, Repr

namespace HuffmanSlots

def empty : HuffmanSlots :=
  { dc := Vector.replicate 4 none
    ac := Vector.replicate 4 none }

/-- Numerals name table slots. The zero is the one that numerals ask for. -/
instance : @NeZero Nat Zero.ofOfNat0 4 := ⟨Nat.succ_ne_zero 3⟩

def slotOf (id : UInt8) : Fin 4 :=
  ⟨id.toNat % 4, Nat.mod_lt _ (by decide)⟩

def install (slots : HuffmanSlots) (table : HuffmanTable) : HuffmanSlots :=
  let slot := slotOf table.id
  if table.tableClass = 0 then
    { slots with dc := slots.dc.set slot.val (some table) }
  else
    { slots with ac := slots.ac.set slot.val (some table) }

def tables (slots : HuffmanSlots) : List HuffmanTable :=
  slots.dc.toList.filterMap id ++ slots.ac.toList.filterMap id

end HuffmanSlots

end LosslessJpeg
