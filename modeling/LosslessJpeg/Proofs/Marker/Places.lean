import LosslessJpeg.Proofs.Marker.Truncation

set_option autoImplicit false

/-!
Where the entries of a file stand. A walk over a file never goes back: each entry is what the
file holds at its place, behind the entry before it, and the data of each scan begins behind
its header. The walk over the header of a file is the front of the one over all of it.
-/

namespace LosslessJpeg

/-- Whether entries and the offset behind them are the front of a walk: they go up to the first
scan header, where the data of the first scan begins, or up to the end of an image that has no
scan. -/
def FileWalk.BeginsWith (walk : FileWalk) (entries : List Entry) (stop : Nat) : Prop :=
  ∃ front last later, entries = front ++ [last] ∧ walk.entries = front ++ last :: later ∧
    (∀ entry ∈ front, entry.kind ≠ .scan ∧ entry.kind ≠ .endOfImage) ∧
    (last.kind = .scan ∧ walk.scanStarts.head? = some stop ∨
      last.kind = .endOfImage ∧ later = [] ∧ stop = last.offset + 2)

theorem FileWalk.BeginsWith.cons {others : FileWalk} {entries : List Entry} {stop : Nat}
    (begins : others.BeginsWith entries stop) {entry : Entry} (notScan : entry.kind ≠ .scan)
    (notEnd : entry.kind ≠ .endOfImage) :
    BeginsWith { others with entries := entry :: others.entries } (entry :: entries) stop := by
  obtain ⟨front, last, later, rfl, whole, inner, closes⟩ := begins
  refine ⟨entry :: front, last, later, rfl, congrArg (entry :: ·) whole, ?_, closes⟩
  exact List.forall_mem_cons.mpr ⟨⟨notScan, notEnd⟩, inner⟩

theorem WalksFrom.header {cursor : Cursor} {walk : FileWalk} (walks : WalksFrom cursor walk) :
    ∃ entries stop, headerEntries cursor = .ok (entries, stop) ∧
      walk.BeginsWith entries stop.offset := by
  induction walks with
  | ends found isEnd =>
      have alone : Marker.isStandalone Marker.endOfImage = true := rfl
      rw [← Entry.marker_of_kind isEnd] at alone
      exact ⟨_, _, headerEntries_last found (Or.inr isEnd), [], _, [], rfl, rfl,
        List.forall_mem_nil _, Or.inr ⟨isEnd, rfl, nextEntry_offset_of_alone found alone⟩⟩
  | scan found isScan skipped later inductionHypothesis =>
      exact ⟨_, _, headerEntries_last found (Or.inl isScan), [], _, _, rfl, rfl,
        List.forall_mem_nil _, Or.inl ⟨isScan, rfl⟩⟩
  | inner found notScan notEnd later inductionHypothesis =>
      obtain ⟨entries, stop, headed, begins⟩ := inductionHypothesis
      exact ⟨_, stop, headerEntries_inner found notScan notEnd headed,
        begins.cons notScan notEnd⟩

theorem walkHeader_beginning {file : List UInt8} {walk : FileWalk}
    (walked : walkFile file = .ok walk) :
    ∃ header, walkHeader file = .ok header ∧ walk.BeginsWith header.entries header.stop := by
  obtain ⟨⟨start, cursor⟩, started, rest⟩ := bind_eq_ok walked
  obtain ⟨others, later, last⟩ := bind_eq_ok rest
  cases last
  obtain ⟨entries, stop, headed, begins⟩ := (walksFrom_of_fileEntries later).header
  obtain ⟨-, -, rfl, -⟩ := afterStart_eq_ok started
  refine ⟨_, (bind_of_ok started).trans (bind_of_ok headed), ?_⟩
  exact begins.cons (by decide) (by decide)

def Entry.stop (entry : Entry) : Nat :=
  entry.offset + 4 + entry.body.length

/-- Whether a file holds an entry at its place: its marker, and unless there is none, a segment
with a field that states its length. -/
structure Entry.StandsIn (file : List UInt8) (entry : Entry) : Prop where
  fill : file[entry.offset]? = some 0xFF
  marker : file[entry.offset + 1]? = some entry.marker
  segment : entry.marker ≠ Marker.startOfImage → Marker.isStandalone entry.marker = false →
    ∃ high low, file[entry.offset + 2]? = some high ∧ file[entry.offset + 3]? = some low ∧
      word high low = entry.body.length + 2 ∧
      (file.drop (entry.offset + 4)).take entry.body.length = entry.body

structure FileWalk.Placed (file : List UInt8) (walk : FileWalk) : Prop where
  stands : ∀ entry ∈ walk.entries, entry.StandsIn file
  ordered : (walk.entries.map Entry.offset).Pairwise (· < ·)
  starts : walk.scanStarts =
    (walk.entries.filter fun entry => entry.kind = .scan).map Entry.stop

section

variable {file : List UInt8} {cursor next : Cursor} {entry : Entry}

private theorem getElem?_of_drop {offset : Nat} {front rest : List UInt8}
    (same : file.drop offset = front ++ rest) (index : Nat) {byte : UInt8}
    (found : front[index]? = some byte) : file[offset + index]? = some byte := by
  rw [← List.getElem?_drop, same, List.getElem?_append_left, found]
  exact (List.getElem?_eq_some_iff.mp found).1

theorem Cursor.In.standsIn (inFile : cursor.In file)
    (found : nextEntry cursor.offset cursor.rest = .ok (entry, next)) : entry.StandsIn file := by
  obtain ⟨gap, rest, same, stands, -, there, -⟩ := nextEntry_eq_ok found
  have front : file.drop entry.offset = [0xFF, entry.marker] ++ rest := by
    rw [stands, ← List.drop_drop, ← show cursor.rest = file.drop cursor.offset from inFile, same,
      List.drop_left' rfl]
    rfl
  refine ⟨getElem?_of_drop front 0 rfl, getElem?_of_drop front 1 rfl, fun _ notAlone => ?_⟩
  rcases entryAt_eq_ok_iff.mp there with ⟨alone, -⟩ | ⟨-, high, low, behind, rfl, length, -, -⟩
  · exact absurd alone (Bool.eq_false_iff.mp notAlone)
  · have segment : file.drop entry.offset =
        [0xFF, entry.marker, high, low] ++ (entry.body ++ behind) := front
    refine ⟨high, low, getElem?_of_drop segment 2 rfl, getElem?_of_drop segment 3 rfl, length, ?_⟩
    rw [← List.drop_drop, segment]
    exact List.take_left' rfl

theorem Marker.startOfScan_of_kind {marker : UInt8} (isScan : MarkerKind.of marker = .scan) :
    marker = startOfScan := by
  unfold MarkerKind.of at isScan
  repeat' split at isScan
  all_goals first
    | assumption
    | cases isScan

theorem nextEntry_offset_of_scan
    (found : nextEntry cursor.offset cursor.rest = .ok (entry, next))
    (isScan : entry.kind = .scan) : next.offset = entry.stop := by
  obtain ⟨gap, rest, -, -, -, there, -⟩ := nextEntry_eq_ok found
  rcases entryAt_eq_ok_iff.mp there with ⟨alone, -⟩ | ⟨-, high, low, behind, -, -, -, rfl⟩
  · rw [Marker.startOfScan_of_kind isScan] at alone
    cases alone
  · rfl

theorem FileWalk.Placed.cons {walk others : FileWalk} (placed : others.Placed file)
    (stands : entry.StandsIn file) (behind : ∀ other ∈ others.entries, entry.offset < other.offset)
    (entries : walk.entries = entry :: others.entries)
    (starts : walk.scanStarts =
      (if entry.kind = .scan then [entry.stop] else []) ++ others.scanStarts) :
    walk.Placed file where
  stands := entries ▸ List.forall_mem_cons.mpr ⟨stands, placed.stands⟩
  ordered := by
    rw [entries, List.map_cons, List.pairwise_cons]
    exact ⟨List.forall_mem_map.mpr behind, placed.ordered⟩
  starts := by
    rw [starts, placed.starts, entries, List.filter_cons]
    by_cases isScan : entry.kind = .scan
    · rw [if_pos isScan, if_pos (decide_eq_true isScan)]
      rfl
    · rw [if_neg isScan, if_neg (by simpa using isScan)]
      rfl

end

theorem WalksFrom.placed {file : List UInt8} {cursor : Cursor} {walk : FileWalk}
    (walks : WalksFrom cursor walk) (inFile : cursor.In file) : walk.Placed file := by
  induction walks with
  | ends found isEnd =>
      have alone : FileWalk.Placed file { entries := [], scanStarts := [] } :=
        ⟨List.forall_mem_nil _, .nil, rfl⟩
      refine alone.cons (inFile.standsIn found) (List.forall_mem_nil _) rfl ?_
      rw [isEnd]
      rfl
  | scan found isScan skipped later inductionHypothesis =>
      obtain ⟨length, place, rest⟩ := nextEntry_rest found
      obtain ⟨data, stopPlace, stopRest⟩ := skipScanData_rest skipped
      have placed := inductionHypothesis ((inFile.advance place rest).advance stopPlace stopRest)
      obtain ⟨-, long⟩ := nextEntry_offset found
      refine placed.cons (inFile.standsIn found) (fun other member => ?_) rfl ?_
      · have further := later.beyond other member
        omega
      · rw [if_pos isScan, nextEntry_offset_of_scan found isScan]
        rfl
  | inner found notScan notEnd later inductionHypothesis =>
      obtain ⟨length, place, rest⟩ := nextEntry_rest found
      obtain ⟨-, long⟩ := nextEntry_offset found
      refine (inductionHypothesis (inFile.advance place rest)).cons (inFile.standsIn found)
        (fun other member => ?_) rfl ?_
      · have further := later.beyond other member
        omega
      · rw [if_neg notScan]
        rfl

theorem walkFile_placed {file : List UInt8} {walk : FileWalk}
    (walked : walkFile file = .ok walk) : walk.Placed file := by
  obtain ⟨⟨start, cursor⟩, started, rest⟩ := bind_eq_ok walked
  obtain ⟨others, later, last⟩ := bind_eq_ok rest
  cases last
  have walks := walksFrom_of_fileEntries later
  have placed := walks.placed (afterStart_in started)
  obtain ⟨bytes, rfl, rfl, rfl⟩ := afterStart_eq_ok started
  refine placed.cons ⟨rfl, rfl, fun notStart => absurd rfl notStart⟩ (fun other member => ?_) rfl
    rfl
  exact Nat.lt_of_lt_of_le Nat.two_pos (walks.beyond other member)

end LosslessJpeg
