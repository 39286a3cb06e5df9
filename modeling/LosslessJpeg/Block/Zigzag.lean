import LosslessJpeg.Block.Basic

set_option autoImplicit false

/-!
The order in which a file holds the 64 values of a block or a table, by rising frequency.
-/

namespace LosslessJpeg

/-- Natural positions in the order of the file. -/
def zigzag : List (Fin 64) :=
  [ 0,  1,  8, 16,  9,  2,  3, 10,
   17, 24, 32, 25, 18, 11,  4,  5,
   12, 19, 26, 33, 40, 48, 41, 34,
   27, 20, 13,  6,  7, 14, 21, 28,
   35, 42, 49, 56, 57, 50, 43, 36,
   29, 22, 15, 23, 30, 37, 44, 51,
   58, 59, 52, 45, 38, 31, 39, 46,
   53, 60, 61, 54, 47, 55, 62, 63]

def acPositions : List (Fin 64) :=
  zigzag.drop 1

/-- The positions of the frequencies from `first` to `last`. A frequency above 63 has no
position in a block. -/
def bandPositions (first last : Nat) : List (Option (Fin 64)) :=
  (List.range' first (last + 1 - first)).map fun frequency => zigzag[frequency]?

theorem zigzag_length : zigzag.length = 64 := rfl

theorem zigzag_nodup : zigzag.Nodup := by
  decide

theorem bandPositions_ac : bandPositions 1 63 = acPositions.map some := by
  decide

theorem mem_zigzag (position : Fin 64) : position ∈ zigzag := by
  revert position
  decide

def ofZigzag {α : Type} (fill : α) (values : List α) : Vector α 64 :=
  (zigzag.zip values).foldl (fun table entry => table.set entry.1.val entry.2)
    (Vector.replicate 64 fill)

def toZigzag {α : Type} (table : Vector α 64) : List α :=
  zigzag.map table.get

end LosslessJpeg
