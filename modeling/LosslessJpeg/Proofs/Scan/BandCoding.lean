import LosslessJpeg.Proofs.Scan.ScanPieces
import Mathlib.Data.List.DropRight

set_option autoImplicit false

/-!
Coding a band of AC coefficients in a progressive scan. Symbols tell where coefficients stop
being zero; coefficients that are not zero any more get one more bit each, behind the next
symbol. A symbol that ends a band may end the bands of many blocks, if these have no other
symbol, and blocks can be grouped into such runs in any way.
-/

namespace LosslessJpeg

inductive BandCoefficient
  | zero
  /-- It has been zero and gets this value, in units of the lowest bit that the scan carries. -/
  | fresh (value : Int16)
  /-- It is not zero and gets one more bit. -/
  | known (bit : Bool)
  deriving DecidableEq, Repr

namespace BandCoefficient

def isFresh : BandCoefficient → Bool
  | .fresh _ => true
  | _ => false

def correction : BandCoefficient → List Bool
  | .known bit => [bit]
  | _ => []

end BandCoefficient

def Token.endOfBand (table : Fin 4) (blocks : Nat) : Token :=
  { coefficients := .ac
    table := table
    symbol := nibbles (Nat.log2 blocks) 0
    extra := blocks - 2 ^ Nat.log2 blocks
    extraCount := Nat.log2 blocks }

namespace Band

/-- The coefficients up to the last one that gets a first value. -/
def body (band : List BandCoefficient) : List BandCoefficient :=
  band.rdropWhile fun coefficient => !coefficient.isFresh

def tail (band : List BandCoefficient) : List BandCoefficient :=
  band.rtakeWhile fun coefficient => !coefficient.isFresh

def corrections (band : List BandCoefficient) : List Bool :=
  band.flatMap BandCoefficient.correction

def zeros (band : List BandCoefficient) : Nat :=
  band.count .zero

def zeroRuns (table : Fin 4) : Nat → List Bool → List ScanPiece
  | 0, _ => []
  | count + 1, waiting =>
      .token (Token.zeroRun table) :: (waiting.map .bit ++ zeroRuns table count [])

/-- What is waiting still, after so many symbols of sixteen zeros. -/
def unsent : Nat → List Bool → List Bool
  | 0, waiting => waiting
  | _ + 1, _ => []

/-- The pieces of coefficients of which the last gets a first value. Since the last symbol there
have been `run` zeros, and the corrections since then are waiting for the next symbol. -/
def bodyPieces (table : Fin 4) : Nat → List Bool → List BandCoefficient → List ScanPiece
  | _, _, [] => []
  | run, waiting, .zero :: rest => bodyPieces table (run + 1) waiting rest
  | run, waiting, .known bit :: rest =>
      zeroRuns table (run / 16) waiting ++
        bodyPieces table (run % 16) (unsent (run / 16) waiting ++ [bit]) rest
  | run, waiting, .fresh value :: rest =>
      zeroRuns table (run / 16) waiting ++
        .token (Token.ac table (run % 16) value) ::
          ((unsent (run / 16) waiting).map .bit ++ bodyPieces table 0 [] rest)

def valuePieces (table : Fin 4) (run : Nat) (waiting : List Bool) (value : Int16) :
    List ScanPiece :=
  zeroRuns table (run / 16) waiting ++
    .token (Token.ac table (run % 16) value) :: (unsent (run / 16) waiting).map .bit

theorem bodyPieces_fresh (table : Fin 4) (run : Nat) (waiting : List Bool) (value : Int16)
    (rest : List BandCoefficient) :
    bodyPieces table run waiting (.fresh value :: rest) =
      valuePieces table run waiting value ++ bodyPieces table 0 [] rest := by
  rw [bodyPieces, valuePieces, List.append_assoc, List.cons_append]

def endPieces (table : Fin 4) (blocks : Nat) (waiting : List Bool) : List ScanPiece :=
  if blocks = 0 then []
  else .token (Token.endOfBand table blocks) :: waiting.map .bit

/-- Blocks whose bands have ended without a symbol so far, and their corrections. -/
structure Run where
  blocks : Nat
  waiting : List Bool
  deriving DecidableEq, Repr

namespace Run

def empty : Run :=
  { blocks := 0
    waiting := [] }

/-- The run behind a block. A symbol of the block ends the run before it, and a block that does
not end with a symbol of its own goes on with the run. -/
def behind (run : Run) (band : List BandCoefficient) : Run :=
  let before := if body band = [] then run else empty
  if tail band = [] then before
  else
    { blocks := before.blocks + 1
      waiting := before.waiting ++ corrections (tail band) }

end Run

def ownPieces (table : Fin 4) (run : Run) (band : List BandCoefficient) : List ScanPiece :=
  if body band = [] then []
  else endPieces table run.blocks run.waiting ++ bodyPieces table 0 [] (body band)

/-- The pieces of a scan from the block with a given number on. A run of blocks is coded before
the next symbol, at the end of the scan, when it is as long as a symbol can tell, and wherever
`closes` says so. -/
def scanPieces (table : Fin 4) (closes : Nat → Bool) :
    Nat → Run → List (List BandCoefficient) → List ScanPiece
  | _, run, [] => endPieces table run.blocks run.waiting
  | number, run, band :: rest =>
      let next := run.behind band
      ownPieces table run band ++
        if next.blocks = 32767 ∨ closes number then
          endPieces table next.blocks next.waiting ++
            scanPieces table closes (number + 1) .empty rest
        else
          scanPieces table closes (number + 1) next rest

/-! ### Body and tail -/

section Parts

variable (band : List BandCoefficient)

theorem body_append_tail : body band ++ tail band = band :=
  List.rdropWhile_append_rtakeWhile

def Closed : Prop :=
  ∀ nonempty : band ≠ [], (band.getLast nonempty).isFresh = true

theorem closed_body : Closed (body band) := by
  intro nonempty
  have last := List.rdropWhile_last_not _ band nonempty
  rw [Bool.not_eq_true, Bool.not_eq_false'] at last
  exact last

variable {band}

theorem not_isFresh_of_mem_tail {coefficient : BandCoefficient} (member : coefficient ∈ tail band) :
    coefficient.isFresh = false := by
  have quiet := List.mem_rtakeWhile_imp member
  rw [Bool.not_eq_true'] at quiet
  exact quiet

theorem Closed.of_cons {first : BandCoefficient} (closed : Closed (first :: band)) :
    Closed band := by
  intro nonempty
  rw [← List.getLast_cons nonempty]
  exact closed (List.cons_ne_nil first band)

theorem Closed.goesOn {first : BandCoefficient} (closed : Closed (first :: band))
    (quiet : first.isFresh = false) : band ≠ [] := by
  rintro rfl
  have last := closed (List.cons_ne_nil first [])
  rw [List.getLast_singleton, quiet] at last
  cases last

theorem tail_of_body_nil (quiet : body band = []) : tail band = band := by
  have whole := body_append_tail band
  rw [quiet, List.nil_append] at whole
  exact whole

end Parts

@[simp]
theorem zeros_nil : zeros [] = 0 :=
  rfl

theorem zeros_append (front back : List BandCoefficient) :
    zeros (front ++ back) = zeros front + zeros back :=
  List.count_append

theorem zeros_cons (first : BandCoefficient) (band : List BandCoefficient) :
    zeros (first :: band) = zeros [first] + zeros band :=
  zeros_append [first] band

theorem corrections_cons (first : BandCoefficient) (band : List BandCoefficient) :
    corrections (first :: band) = first.correction ++ corrections band :=
  List.flatMap_cons

theorem corrections_append (front back : List BandCoefficient) :
    corrections (front ++ back) = corrections front ++ corrections back := by
  rw [corrections, List.flatMap_append]
  rfl

section Positions

variable (content : Fin 64 → BandCoefficient) (positions : List (Fin 64)) (position : Fin 64)

theorem zeros_map_concat :
    zeros ((positions ++ [position]).map content) =
      zeros (positions.map content) + zeros [content position] := by
  rw [List.map_append, zeros_append, List.map_singleton]

theorem corrections_map_concat :
    corrections ((positions ++ [position]).map content) =
      corrections (positions.map content) ++ (content position).correction := by
  rw [List.map_append, corrections_append, List.map_singleton, corrections_cons]
  exact congrArg _ (List.append_nil _)

end Positions

section OnlyZeros

variable {content : Fin 64 → BandCoefficient} {positions : List (Fin 64)}

theorem zeros_map_zeros (only : ∀ position ∈ positions, content position = .zero) :
    zeros (positions.map content) = positions.length := by
  rw [zeros, List.count_eq_length.mpr, List.length_map]
  intro coefficient listed
  obtain ⟨position, member, rfl⟩ := List.mem_map.mp listed
  exact (only position member).symm

theorem corrections_map_zeros (only : ∀ position ∈ positions, content position = .zero) :
    corrections (positions.map content) = [] := by
  rw [corrections, List.flatMap_eq_nil_iff]
  intro coefficient listed
  obtain ⟨position, member, rfl⟩ := List.mem_map.mp listed
  rw [only position member]
  rfl

end OnlyZeros

theorem zeroRuns_nil (table : Fin 4) (count : Nat) :
    zeroRuns table count [] = (List.replicate count (Token.zeroRun table)).map .token := by
  induction count with
  | zero => rfl
  | succ count inductionHypothesis =>
      rw [zeroRuns, List.replicate_succ, List.map_cons, inductionHypothesis, List.map_nil,
        List.nil_append]

theorem mem_zeroRuns {table : Fin 4} {count : Nat} (positive : 0 < count) (waiting : List Bool) :
    ScanPiece.token (Token.zeroRun table) ∈ zeroRuns table count waiting := by
  obtain ⟨count, rfl⟩ := Nat.exists_eq_succ_of_ne_zero (Nat.ne_of_gt positive)
  exact List.mem_cons_self

theorem unsent_nil (count : Nat) : unsent count [] = [] := by
  cases count <;> rfl

/-! ### Symbols before the blocks that they end -/

/-- The pieces of one block as a decoder meets them: those of a block that starts when the bands
of `before` blocks, itself included, have ended already, and that leaves `after` of them. -/
inductive Codes (table : Fin 4) : Nat → List BandCoefficient → List ScanPiece → Nat → Prop
  | whole {band : List BandCoefficient} (ended : tail band = []) :
      Codes table 0 band (bodyPieces table 0 [] (body band)) 0
  | ends {band : List BandCoefficient} {after : Nat} (goesOn : tail band ≠ [])
      (few : after + 1 ≤ 32767) :
      Codes table 0 band
        (bodyPieces table 0 [] (body band) ++
          .token (Token.endOfBand table (after + 1)) :: (corrections (tail band)).map .bit)
        after
  | covered {band : List BandCoefficient} {after : Nat} (quiet : body band = []) :
      Codes table (after + 1) band ((corrections (tail band)).map .bit) after

inductive CodesAll (table : Fin 4) : Nat → List (List BandCoefficient) → List ScanPiece → Prop
  | nil : CodesAll table 0 [] []
  | cons {before after : Nat} {band : List BandCoefficient} {rest : List (List BandCoefficient)}
      {first others : List ScanPiece} (here : Codes table before band first after)
      (later : CodesAll table after rest others) :
      CodesAll table before (band :: rest) (first ++ others)

theorem CodesAll.of_cons {table : Fin 4} {before : Nat} {band : List BandCoefficient}
    {rest : List (List BandCoefficient)} {pieces : List ScanPiece}
    (codes : CodesAll table before (band :: rest) pieces) :
    ∃ after own others, pieces = own ++ others ∧ Codes table before band own after ∧
      CodesAll table after rest others := by
  cases codes with
  | cons here later => exact ⟨_, _, _, rfl, here, later⟩

inductive CodesSplit (table : Fin 4) (content : Fin 64 → BandCoefficient) :
    Nat → List (Fin 64) → List (Fin 64) → List ScanPiece → Nat → Prop
  | whole {front : List (Fin 64)} :
      CodesSplit table content 0 front [] (bodyPieces table 0 [] (front.map content)) 0
  | ends {front back : List (Fin 64)} {after : Nat} (goesOn : back ≠ [])
      (few : after + 1 ≤ 32767) :
      CodesSplit table content 0 front back
        (bodyPieces table 0 [] (front.map content) ++
          .token (Token.endOfBand table (after + 1)) :: (corrections (back.map content)).map .bit)
        after
  | covered {back : List (Fin 64)} {after : Nat} :
      CodesSplit table content (after + 1) [] back ((corrections (back.map content)).map .bit)
        after

theorem Codes.exists_split {table : Fin 4} {content : Fin 64 → BandCoefficient}
    {positions : List (Fin 64)} {before after : Nat} {own : List ScanPiece}
    (codes : Codes table before (positions.map content) own after) :
    ∃ front back, positions = front ++ back ∧ Closed (front.map content) ∧
      (∀ position ∈ back, (content position).isFresh = false) ∧
      CodesSplit table content before front back own after := by
  obtain ⟨front, back, split, isBody, isTail⟩ :=
    List.map_eq_append_iff.mp (body_append_tail (positions.map content)).symm
  refine ⟨front, back, split, isBody ▸ closed_body _, fun position member => ?_, ?_⟩
  · exact not_isFresh_of_mem_tail (isTail ▸ List.mem_map_of_mem member)
  · generalize positions.map content = band at codes isBody isTail
    cases codes with
    | whole ended =>
        obtain rfl : back = [] := List.map_eq_nil_iff.mp (isTail.trans ended)
        rw [← isBody]
        exact .whole
    | ends goesOn few =>
        have nonempty : back ≠ [] := by
          rintro rfl
          exact goesOn isTail.symm
        rw [← isBody, ← isTail]
        exact .ends nonempty few
    | covered quiet =>
        obtain rfl : front = [] := List.map_eq_nil_iff.mp (isBody.trans quiet)
        rw [← isTail]
        exact .covered

section Runs

variable {table : Fin 4} {run : Run} {band : List BandCoefficient}
  {rest : List (List BandCoefficient)} {pieces : List ScanPiece}

/-- How long a run is shows only at its end, but its symbol comes first. -/
private def Continues (table : Fin 4) (run : Run) (bands : List (List BandCoefficient))
    (pieces : List ScanPiece) : Prop :=
  ∃ more later, pieces = endPieces table (run.blocks + more) run.waiting ++ later ∧
    run.blocks + more ≤ 32767 ∧ (run.blocks = 0 → more = 0) ∧ CodesAll table more bands later

private theorem endPieces_zero (waiting : List Bool) : endPieces table 0 waiting = [] :=
  if_pos rfl

private theorem endPieces_succ (blocks : Nat) (waiting : List Bool) :
    endPieces table (blocks + 1) waiting =
      .token (Token.endOfBand table (blocks + 1)) :: waiting.map .bit :=
  if_neg (Nat.succ_ne_zero blocks)

private theorem Run.behind_blocks_le (run : Run) (band : List BandCoefficient) :
    (run.behind band).blocks ≤ run.blocks + 1 := by
  unfold Run.behind
  split <;> split <;> simp [Run.empty]

private theorem Run.behind_unused (unused : run.blocks = 0 → run.waiting = []) :
    (run.behind band).blocks = 0 → (run.behind band).waiting = [] := by
  unfold Run.behind
  by_cases ended : tail band = []
  · rw [if_pos ended]
    split
    · exact unused
    · exact fun _ => rfl
  · rw [if_neg ended]
    exact fun zero => absurd zero (Nat.succ_ne_zero _)

private theorem Continues.covered (unused : run.blocks = 0 → run.waiting = [])
    (quiet : body band = []) (goesOn : tail band ≠ [])
    (continues : Continues table (run.behind band) rest pieces) :
    Continues table run (band :: rest) pieces := by
  obtain ⟨more, later, same, few, -, codes⟩ := continues
  rw [Run.behind, if_pos quiet, if_neg goesOn] at same few
  dsimp only at same few
  rw [Nat.add_right_comm, endPieces_succ, List.map_append] at same
  by_cases none : run.blocks = 0
  · have ends : Codes table 0 band (bodyPieces table 0 [] (body band) ++
        .token (Token.endOfBand table (more + 1)) :: (corrections (tail band)).map .bit) more :=
      .ends goesOn (by omega)
    rw [quiet] at ends
    refine ⟨0, pieces, ?_, by omega, fun _ => rfl, ?_⟩
    · rw [none, endPieces_zero, List.nil_append]
    · rw [same, none, unused none, Nat.zero_add]
      exact CodesAll.cons ends codes
  · refine ⟨more + 1, (corrections (tail band)).map .bit ++ later, ?_, by omega,
      fun zero => absurd zero none, .cons (.covered quiet) codes⟩
    rw [same, ← Nat.add_assoc, endPieces_succ, List.cons_append, List.append_assoc,
      List.cons_append]

private theorem Continues.behindRun (few : run.blocks ≤ 32767) (symbols : body band ≠ [])
    (continues : Continues table (run.behind band) rest pieces) :
    Continues table run (band :: rest) (endPieces table run.blocks run.waiting ++
      (bodyPieces table 0 [] (body band) ++ pieces)) := by
  obtain ⟨more, later, same, fewMore, unused, codes⟩ := continues
  refine ⟨0, bodyPieces table 0 [] (body band) ++ pieces, rfl, few, fun _ => rfl, ?_⟩
  rw [Run.behind, if_neg symbols] at same fewMore unused
  by_cases ended : tail band = []
  · rw [if_pos ended] at same unused
    obtain rfl := unused rfl
    rw [show Run.empty.blocks + 0 = 0 from rfl, endPieces_zero, List.nil_append] at same
    rw [same]
    exact .cons (.whole ended) codes
  · rw [if_neg ended] at same fewMore
    have first : Run.empty.blocks + 1 + more = more + 1 := by
      rw [Nat.add_comm]
      rfl
    dsimp only at same fewMore
    rw [first, endPieces_succ] at same
    rw [first] at fewMore
    rw [same, ← List.append_assoc]
    exact .cons (.ends ended fewMore) codes

private theorem scanPieces_continues (closes : Nat → Bool)
    {bands : List (List BandCoefficient)} (nonempty : ∀ band ∈ bands, band ≠ []) (number : Nat)
    {run : Run} (few : run.blocks < 32767) (unused : run.blocks = 0 → run.waiting = []) :
    Continues table run bands (scanPieces table closes number run bands) := by
  induction bands generalizing number run with
  | nil =>
      refine ⟨0, [], ?_, Nat.le_of_lt few, fun _ => rfl, .nil⟩
      rw [List.append_nil]
      rfl
  | cons band rest inductionHypothesis =>
      have nonemptyRest : ∀ other ∈ rest, other ≠ [] := fun other member =>
        nonempty other (List.mem_cons_of_mem _ member)
      -- Whether the run ends behind this block is decided by its length or from outside. Either
      -- way the rest goes on from some run.
      have following : Continues table (run.behind band) rest
          (if (run.behind band).blocks = 32767 ∨ closes number then
            endPieces table (run.behind band).blocks (run.behind band).waiting ++
              scanPieces table closes (number + 1) .empty rest
          else
            scanPieces table closes (number + 1) (run.behind band) rest) := by
        have fewBehind := run.behind_blocks_le band
        split
        · obtain ⟨more, later, same, -, unusedMore, codes⟩ : Continues table .empty rest _ :=
            inductionHypothesis nonemptyRest (number + 1) (by decide) (fun _ => rfl)
          rw [unusedMore rfl] at same codes
          exact ⟨0, _, rfl, by omega, fun _ => rfl, same ▸ codes⟩
        · rename_i openRun
          exact inductionHypothesis nonemptyRest (number + 1) (by omega)
            (run.behind_unused unused)
      rw [scanPieces]
      -- A block with nothing of its own lengthens the run, which has to be told before a block
      -- with symbols.
      by_cases quiet : body band = []
      · have goesOn : tail band ≠ [] := fun ended =>
          nonempty band List.mem_cons_self ((tail_of_body_nil quiet).symm.trans ended)
        rw [ownPieces, if_pos quiet, List.nil_append]
        exact following.covered unused quiet goesOn
      · rw [ownPieces, if_neg quiet, List.append_assoc]
        exact following.behindRun (Nat.le_of_lt few) quiet

end Runs

theorem codesAll_scanPieces (table : Fin 4) (closes : Nat → Bool)
    {bands : List (List BandCoefficient)} (nonempty : ∀ band ∈ bands, band ≠ []) :
    CodesAll table 0 bands (scanPieces table closes 0 .empty bands) := by
  obtain ⟨more, pieces, same, -, unused, codes⟩ : Continues table .empty bands _ :=
    scanPieces_continues closes nonempty 0 (by decide) (fun _ => rfl)
  rw [unused rfl] at same codes
  rw [same]
  exact codes

/-- The first block has a symbol of its own, and ends together with the second one. -/
example :
    scanPieces 0 (fun _ => false) 0 .empty
        [[.known true, .zero, .fresh 1, .zero], [.zero, .known false, .zero, .zero]] =
      [.token (Token.ac 0 1 1), .bit true, .token (Token.endOfBand 0 2), .bit false] := by
  decide

end Band

end LosslessJpeg
