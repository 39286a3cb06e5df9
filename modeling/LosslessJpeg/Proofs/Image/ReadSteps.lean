import LosslessJpeg.Image.Reading
import LosslessJpeg.Proofs.Sequencing
import LosslessJpeg.Proofs.Segments.Tables

set_option autoImplicit false

/-!
What the entries of a file do to the state of its reader. Where an entry stands in the file
makes no difference.
-/

namespace LosslessJpeg

def Entry.ofSegment (segment : Segment) : Entry :=
  { marker := segment.marker
    body := segment.body
    offset := 0 }

namespace FileHeader

theorem frameOf_cons {entry : Entry}
    (noFrame : ∀ progressive, entry.kind ≠ .frame progressive) (rest : List Entry) :
    frameOf (entry :: rest) = frameOf rest := by
  unfold frameOf
  rw [List.foldlM_cons]
  split
  · rename_i progressive _ isFrame _
    exact absurd isFrame (noFrame progressive)
  · rename_i progressive isFrame _
    exact absurd isFrame (noFrame progressive)
  · rfl

/-- Once there is a frame, another one is refused. -/
theorem ofBytes_of_frameOf_cons {entry : Entry} {progressive : Bool}
    (isFrame : entry.kind = .frame progressive) {rest : List Entry} {frame : Frame}
    (framed : frameOf (entry :: rest) = .ok (some frame)) :
    Frame.ofBytes progressive entry.body = .ok frame := by
  unfold frameOf at framed
  rw [List.foldlM_cons, isFrame] at framed
  obtain ⟨found, first, later⟩ := bind_eq_ok framed
  obtain ⟨frameFound, read, rfl⟩ := map_eq_ok first
  have kept : some frame = some frameFound := by
    refine foldlM_preserves (fun found => found = some frameFound) ?_ rfl later
    intro other _ before after same step
    rw [same] at step
    split at step
    · cases step
    · rename_i none
      cases none
    · cases step
      rfl
  rw [read, Option.some.inj kept]

theorem frameOf_ofSegments (entries : List Entry) :
    frameOf entries = frameOf ((entries.map Entry.segment).map Entry.ofSegment) := by
  unfold frameOf
  rw [List.foldlM_map, List.foldlM_map]
  rfl

theorem metadataOf_eq (entries : List Entry) :
    metadataOf entries =
      (entries.map Entry.segment).filter fun segment =>
        MarkerKind.of segment.marker = .metadata := by
  unfold metadataOf
  rw [List.filter_map]
  rfl

theorem any_scan_eq (entries : List Entry) :
    (entries.any fun entry => entry.kind = .scan) =
      (entries.map Entry.segment).any fun segment =>
        MarkerKind.of segment.marker = .scan := by
  rw [List.any_map]
  rfl

end FileHeader

namespace ReadState

theorem foldlM_addEntry_ofSegments (file : List UInt8) (frame : Frame) (entries : List Entry)
    (state : ReadState) :
    entries.foldlM (addEntry file frame) state =
      ((entries.map Entry.segment).map Entry.ofSegment).foldlM (addEntry file frame)
        state := by
  rw [List.foldlM_map, List.foldlM_map]
  rfl

theorem foldl_define (state : ReadState) (tables : List (Fin 4 × QuantizerTable)) :
    tables.foldl define state =
      { state with
        defined := tables.foldl
          (fun slots table => slots.set table.1.val (some table.2) table.1.isLt)
            state.defined } := by
  induction tables generalizing state with
  | nil => rfl
  | cons table rest inductionHypothesis =>
      rw [List.foldl_cons, List.foldl_cons, inductionHypothesis]
      rfl

theorem foldl_set_presentQuantizers (slots start : QuantizerSlots) (ids : List (Fin 4))
    (id : Fin 4) :
    ((presentQuantizers slots ids).foldl
        (fun slots table => slots.set table.1.val (some table.2) table.1.isLt) start).get id =
      if id ∈ ids ∧ (slots.get id).isSome then slots.get id else start.get id := by
  have entered : (presentQuantizers slots ids).foldl
      (fun slots table => slots.set table.1.val (some table.2) table.1.isLt) start =
        ((presentQuantizers slots ids).map fun table => (table.1, some table.2)).foldl
          (fun vector entry => vector.set entry.1.val entry.2 entry.1.isLt) start := by
    rw [List.foldl_map]
  have found : ∀ table, table ∈ presentQuantizers slots ids ↔
      table.1 ∈ ids ∧ slots.get table.1 = some table.2 := by
    rintro ⟨other, table⟩
    simp only [presentQuantizers, List.mem_filterMap, Option.map_eq_some_iff, Prod.mk.injEq]
    constructor
    · rintro ⟨_, member, _, slot, rfl, rfl⟩
      exact ⟨member, slot⟩
    · rintro ⟨member, slot⟩
      exact ⟨other, member, table, slot, rfl, rfl⟩
  rw [entered, get_foldl_set slots.get]
  · refine if_congr ?_ rfl rfl
    simp only [List.map_map, List.mem_map, found, Option.isSome_iff_exists]
    constructor
    · rintro ⟨table, ⟨member, slot⟩, rfl⟩
      exact ⟨member, table.2, slot⟩
    · rintro ⟨member, table, slot⟩
      exact ⟨(id, table), ⟨member, slot⟩, rfl⟩
  · intro entry member
    obtain ⟨table, listed, rfl⟩ := List.mem_map.mp member
    exact ((found table).mp listed).2.symm

def settledAfter (state : ReadState) (components : List Component) : QuantizerSlots :=
  Vector.ofFn fun id =>
    if components.any fun component => component.quantizer = id.val then
      (state.settled.get id).or (state.defined.get id)
    else
      state.settled.get id

theorem settledAfter_get (state : ReadState) (components : List Component) (id : Fin 4) :
    (state.settledAfter components).get id =
      if components.any fun component => component.quantizer = id.val then
        (state.settled.get id).or (state.defined.get id)
      else
        state.settled.get id :=
  get_ofFn _ id

theorem settledAfter_get_of_mem (state : ReadState) {components : List Component}
    {component : Component} (member : component ∈ components) {id : Fin 4}
    (named : component.quantizer = id.val) :
    (state.settledAfter components).get id =
      (state.settled.get id).or (state.defined.get id) := by
  rw [settledAfter_get]
  exact if_pos (List.any_eq_true.mpr ⟨component, member, decide_eq_true named⟩)

private theorem settledAfter_singleton (state : ReadState) {component : Component}
    {id : Fin 4} (named : component.quantizer = id.val) (other : Fin 4) :
    (state.settledAfter [component]).get other =
      if id = other then (state.settled.get id).or (state.defined.get id)
      else state.settled.get other := by
  rw [settledAfter_get, List.any_cons, List.any_nil, Bool.or_false, named]
  by_cases same : id = other
  · rw [if_pos (decide_eq_true (congrArg Fin.val same)), if_pos same, same]
  · rw [if_neg (by simpa using fun equal => same (Fin.ext equal)), if_neg same]

private theorem settle_eq_ok {state : ReadState} {component : Component} {id : Fin 4}
    (named : component.quantizer = id.val)
    (known : ((state.settled.get id).or (state.defined.get id)).isSome) :
    state.settle component = .ok { state with settled := state.settledAfter [component] } := by
  have after := state.settledAfter_singleton named
  unfold settle
  dsimp only
  rw [named, getElem?_join_val, getElem?_join_val]
  cases settled : state.settled.get id with
  | some table =>
      have same : state.settledAfter [component] = state.settled := by
        apply ext_get
        intro other
        rw [after]
        split
        · rename_i equal
          rw [← equal, settled, Option.some_or]
        · rfl
      rw [same]
  | none =>
      rw [settled, Option.none_or] at known
      obtain ⟨table, defined⟩ := Option.isSome_iff_exists.mp known
      have same : state.settledAfter [component] = state.settled.set id.val (some table) := by
        apply ext_get
        intro other
        rw [after, get_set, settled, defined, Option.none_or]
      rw [defined, same]
      dsimp only
      rw [setIfInBounds_val]

theorem foldlM_settle (state : ReadState) {components : List Component}
    (known : ∀ component ∈ components, ∃ id : Fin 4, component.quantizer = id.val ∧
      ((state.settled.get id).or (state.defined.get id)).isSome) :
    components.foldlM settle state =
      .ok { state with settled := state.settledAfter components } := by
  induction components generalizing state with
  | nil =>
      have same : state.settledAfter [] = state.settled := ext_get fun id => get_ofFn _ id
      rw [same]
      rfl
  | cons component rest inductionHypothesis =>
      obtain ⟨id, named, present⟩ := known component List.mem_cons_self
      have after := state.settledAfter_singleton named
      -- Settling one component may settle the table of another, which is known all the same.
      have stays : ∀ other, ((state.settled.get other).or (state.defined.get other)).isSome →
          (((state.settledAfter [component]).get other).or
            (state.defined.get other)).isSome := by
        intro other known
        rw [after]
        split
        · rename_i same
          rw [same, Option.or_assoc, Option.or_self]
          exact known
        · exact known
      rw [List.foldlM_cons, bind_of_ok (settle_eq_ok named present), inductionHypothesis _]
      · have same : settledAfter { state with settled := state.settledAfter [component] } rest =
            state.settledAfter (component :: rest) := by
          apply ext_get
          intro other
          rw [settledAfter_get, settledAfter_get state (component :: rest), List.any_cons, named]
          dsimp only
          rw [after]
          by_cases same : id = other
          · rw [if_pos same, decide_eq_true (congrArg Fin.val same), Bool.true_or, if_pos rfl,
              same, Option.or_assoc, Option.or_self, ite_self]
          · rw [if_neg same, decide_eq_false fun equal => same (Fin.ext equal), Bool.false_or]
        rw [same]
      · intro other member
        obtain ⟨otherId, otherNamed, otherPresent⟩ :=
          known other (List.mem_cons_of_mem _ member)
        exact ⟨otherId, otherNamed, stays otherId otherPresent⟩

/-- A table that is settled, or that can be settled, has been settled or defined before. -/
private theorem known_of_settle {before after : ReadState} {component : Component}
    (done : before.settle component = .ok after) :
    ∃ id : Fin 4, component.quantizer = id.val ∧
      ((before.settled.get id).or (before.defined.get id)).isSome := by
  have slot {slots : QuantizerSlots} {table : QuantizerTable}
      (found : slots[component.quantizer]?.join = some table) :
      ∃ id : Fin 4, component.quantizer = id.val ∧ slots.get id = some table := by
    have inside : component.quantizer < 4 := by
      by_contra outside
      rw [Vector.getElem?_eq_none (Nat.le_of_not_lt outside)] at found
      cases found
    exact ⟨⟨component.quantizer, inside⟩, rfl, (getElem?_join_val slots ⟨_, inside⟩) ▸ found⟩
  unfold settle at done
  dsimp only at done
  split at done
  · rename_i table found
    obtain ⟨id, named, settled⟩ := slot found
    exact ⟨id, named, by rw [settled]; rfl⟩
  · split at done
    · rename_i table found
      obtain ⟨id, named, defined⟩ := slot found
      refine ⟨id, named, ?_⟩
      rw [defined]
      cases before.settled.get id <;> rfl
    · cases done

/-- Settling components takes the latest definition of each table that has not been settled
before. Every table has to be known by then. -/
theorem foldlM_settle_eq_ok_iff {components : List Component} {before after : ReadState} :
    components.foldlM settle before = .ok after ↔
      after = { before with settled := before.settledAfter components } ∧
        ∀ component ∈ components, ∃ id : Fin 4, component.quantizer = id.val ∧
          ((before.settled.get id).or (before.defined.get id)).isSome := by
  constructor
  · intro done
    have known : ∀ component ∈ components, ∃ id : Fin 4, component.quantizer = id.val ∧
        ((before.settled.get id).or (before.defined.get id)).isSome := by
      induction components generalizing before with
      | nil => exact List.forall_mem_nil _
      | cons component rest inductionHypothesis =>
          rw [List.foldlM_cons] at done
          obtain ⟨between, first, later⟩ := bind_eq_ok done
          obtain ⟨id, named, present⟩ := known_of_settle first
          rw [settle_eq_ok named present] at first
          cases first
          refine List.forall_mem_cons.mpr ⟨⟨id, named, present⟩, fun other member => ?_⟩
          obtain ⟨otherId, otherNamed, known⟩ := inductionHypothesis later other member
          refine ⟨otherId, otherNamed, ?_⟩
          rw [settledAfter_singleton before named] at known
          split at known
          · rename_i same
            rw [same, Option.or_assoc, Option.or_self] at known
            exact known
          · exact known
    rw [foldlM_settle before known] at done
    cases done
    exact ⟨rfl, known⟩
  · rintro ⟨rfl, known⟩
    exact foldlM_settle before known

/-! ### Entries -/

def coded (frame : Frame) (scan : Scan) : List Component :=
  scan.components.filterMap fun component => frame.components[component.index]?

/-- What taking in an entry of a file comes to. -/
inductive Takes (file : List UInt8) (frame : Frame) (entry : Entry) (before : ReadState) :
    ReadState → Prop
  | quantizers (kind : entry.kind = .quantizerTables) {tables : List (Fin 4 × QuantizerTable)}
      (read : quantizersOfBody entry.body = .ok tables) :
      Takes file frame entry before (tables.foldl define before)
  | huffman (kind : entry.kind = .huffmanTables) {tables : List HuffmanTable}
      (read : huffmanTablesOfBody entry.body = .ok tables) :
      Takes file frame entry before
        { before with huffman := tables.foldl HuffmanSlots.install before.huffman }
  | interval (kind : entry.kind = .restartInterval) {interval : Nat}
      (read : restartIntervalOfBody entry.body = .ok interval) :
      Takes file frame entry before { before with restartInterval := interval }
  | gathers (kind : entry.kind = .metadata) (seen : before.scanSeen = true) :
      Takes file frame entry before { before with metadata := before.metadata ++ [entry.segment] }
  | decodes (kind : entry.kind = .scan) {scan : Scan} {scanStart : Nat} {later : List Nat}
      {grids : Array Grid} (read : Scan.ofBytes frame entry.body = .ok scan)
      (starts : before.scanStarts = scanStart :: later)
      (known : ∀ component ∈ coded frame scan, ∃ id : Fin 4, component.quantizer = id.val ∧
        ((before.settled.get id).or (before.defined.get id)).isSome)
      (decoded : scan.decode frame before.huffman before.restartInterval (file.drop scanStart)
        before.grids = .ok () grids) :
      Takes file frame entry before
        { before with
          settled := before.settledAfter (coded frame scan)
          scanStarts := later
          scanSeen := true
          grids := grids }
  | passes (notQuantizers : entry.kind ≠ .quantizerTables)
      (notHuffman : entry.kind ≠ .huffmanTables) (notInterval : entry.kind ≠ .restartInterval)
      (notScan : entry.kind ≠ .scan) (unseen : entry.kind = .metadata → before.scanSeen = false) :
      Takes file frame entry before before

section

variable {file : List UInt8} {frame : Frame} {entry : Entry} {before after : ReadState}

private theorem takes_of_decodeScan (kind : entry.kind = .scan)
    (done : before.decodeScan file frame entry.body = .ok after) :
    Takes file frame entry before after := by
  unfold decodeScan at done
  split at done
  · cases done
  · rename_i starts
    obtain ⟨scan, read, rest⟩ := bind_eq_ok done
    obtain ⟨between, settled, rest⟩ := bind_eq_ok rest
    obtain ⟨rfl, known⟩ := foldlM_settle_eq_ok_iff.mp settled
    split at rest
    · cases rest
    · rename_i decoded
      cases rest
      exact .decodes kind read starts known decoded

theorem takes_of_addEntry (done : before.addEntry file frame entry = .ok after) :
    Takes file frame entry before after := by
  unfold addEntry at done
  split at done
  case h_1 kind =>
    obtain ⟨tables, read, last⟩ := bind_eq_ok done
    cases last
    exact .quantizers kind read
  case h_2 kind =>
    obtain ⟨tables, read, last⟩ := bind_eq_ok done
    cases last
    exact .huffman kind read
  case h_3 kind =>
    obtain ⟨interval, read, last⟩ := bind_eq_ok done
    cases last
    exact .interval kind read
  case h_4 kind =>
    split at done
    · rename_i seen
      cases done
      exact .gathers kind seen
    · rename_i unseen
      cases done
      refine .passes ?_ ?_ ?_ ?_ fun _ => Bool.eq_false_iff.mpr unseen
      all_goals simp [kind]
  case h_5 kind => exact takes_of_decodeScan kind done
  case h_6 notQuantizers notHuffman notInterval notMetadata notScan =>
    cases done
    exact .passes notQuantizers notHuffman notInterval notScan fun kind => absurd kind notMetadata

theorem Takes.addEntry (takes : Takes file frame entry before after) :
    before.addEntry file frame entry = .ok after := by
  unfold ReadState.addEntry
  cases takes with
  | quantizers kind read =>
      rw [kind]
      exact bind_of_ok read
  | huffman kind read =>
      rw [kind]
      exact bind_of_ok read
  | interval kind read =>
      rw [kind]
      exact bind_of_ok read
  | gathers kind seen =>
      rw [kind]
      exact if_pos seen
  | decodes kind read starts known decoded =>
      rw [kind]
      dsimp only
      unfold decodeScan
      rw [starts]
      dsimp only
      rw [bind_of_ok read]
      refine (bind_of_ok (foldlM_settle before known)).trans ?_
      dsimp only
      rw [decoded]
      rfl
  -- All other kinds leave the state alone, and so does metadata ahead of the first scan.
  | passes notQuantizers notHuffman notInterval notScan unseen =>
      split <;> first
        | contradiction
        | rfl
        | skip
      rename_i kind
      exact if_neg (Bool.eq_false_iff.mp (unseen kind))

namespace Takes

theorem of_scan (takes : Takes file frame entry before after) (isScan : entry.kind = .scan) :
    ∃ scan scanStart later grids, Scan.ofBytes frame entry.body = .ok scan ∧
      before.scanStarts = scanStart :: later ∧
      (∀ component ∈ coded frame scan, ∃ id : Fin 4, component.quantizer = id.val ∧
        ((before.settled.get id).or (before.defined.get id)).isSome) ∧
      scan.decode frame before.huffman before.restartInterval (file.drop scanStart)
        before.grids = .ok () grids ∧
      after =
        { before with
          settled := before.settledAfter (coded frame scan)
          scanStarts := later
          scanSeen := true
          grids := grids } := by
  cases takes with
  | decodes kind read starts known decoded =>
      exact ⟨_, _, _, _, read, starts, known, decoded, rfl⟩
  | quantizers kind | huffman kind | interval kind | gathers kind =>
      cases isScan.symm.trans kind
  | passes notQuantizers notHuffman notInterval notScan => exact absurd isScan notScan

theorem of_notScan (takes : Takes file frame entry before after)
    (notScan : entry.kind ≠ .scan) :
    after.settled = before.settled ∧ after.scanStarts = before.scanStarts ∧
      after.grids = before.grids := by
  cases takes with
  | quantizers kind =>
      rw [foldl_define]
      exact ⟨rfl, rfl, rfl⟩
  | decodes kind => exact absurd kind notScan
  | huffman | interval | gathers | passes => exact ⟨rfl, rfl, rfl⟩

theorem defined_of_kind (takes : Takes file frame entry before after)
    (other : entry.kind ≠ .quantizerTables) : after.defined = before.defined := by
  cases takes with
  | quantizers kind => exact absurd kind other
  | huffman | interval | gathers | decodes | passes => rfl

theorem scanStarts (takes : Takes file frame entry before after) :
    after.scanStarts =
      if entry.kind = .scan then before.scanStarts.tail else before.scanStarts := by
  by_cases isScan : entry.kind = .scan
  · obtain ⟨scan, scanStart, later, grids, -, starts, -, -, rfl⟩ := takes.of_scan isScan
    rw [if_pos isScan, starts]
    rfl
  · rw [if_neg isScan, (takes.of_notScan isScan).2.1]

end Takes

end

end ReadState

end LosslessJpeg
