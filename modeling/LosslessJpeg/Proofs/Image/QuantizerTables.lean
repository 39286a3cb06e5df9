import LosslessJpeg.Proofs.Image.ReadInvariant
import LosslessJpeg.Proofs.Image.ReadSteps
import Mathlib.Data.List.TakeWhile

set_option autoImplicit false

/-!
Which definition of a quantization table a reader takes. Tables are settled by their
identifier, at the first scan that codes any component with it. A component that shares its
table with a component of an earlier scan has to do with the table of that scan, whatever
has been defined since.
-/

namespace LosslessJpeg

def Entry.definitions (entry : Entry) : List (Fin 4 × QuantizerTable) :=
  match entry.kind, quantizersOfBody entry.body with
  | .quantizerTables, .ok tables => tables
  | _, _ => []

def Entry.named (frame : Frame) (entry : Entry) : List Nat :=
  match entry.kind, Scan.ofBytes frame entry.body with
  | .scan, .ok scan => scan.components.map (·.index)
  | _, _ => []

def Entry.codes (frame : Frame) (id : Fin 4) (entry : Entry) : Bool :=
  ((entry.named frame).filterMap fun index => frame.components[index]?).any
    fun component => component.quantizer = id.val

def lastTable (id : Fin 4) (tables : List (Fin 4 × QuantizerTable)) : Option QuantizerTable :=
  (tables.filter fun table => table.1 = id).getLast?.map (·.2)

def lastDefinition (id : Fin 4) (entries : List Entry) : Option QuantizerTable :=
  lastTable id (entries.flatMap Entry.definitions)

def beforeNaming (frame : Frame) (index : Nat) (entries : List Entry) : List Entry :=
  entries.takeWhile fun entry => index ∉ entry.named frame

/-- The entries before the first scan that codes any component with a given table. -/
def beforeCoding (frame : Frame) (id : Fin 4) (entries : List Entry) : List Entry :=
  entries.takeWhile fun entry => !entry.codes frame id

def fromCoding (frame : Frame) (id : Fin 4) (entries : List Entry) : List Entry :=
  entries.dropWhile fun entry => !entry.codes frame id

theorem lastTable_append (id : Fin 4) (first second : List (Fin 4 × QuantizerTable)) :
    lastTable id (first ++ second) = (lastTable id second).or (lastTable id first) := by
  unfold lastTable
  rw [List.filter_append, List.getLast?_append]
  cases (second.filter fun table => table.1 = id).getLast? with
  | none => rfl
  | some table => rfl

theorem lastDefinition_append (id : Fin 4) (first second : List Entry) :
    lastDefinition id (first ++ second) =
      (lastDefinition id second).or (lastDefinition id first) := by
  unfold lastDefinition
  rw [List.flatMap_append, lastTable_append]

theorem foldl_define_get (state : ReadState) (tables : List (Fin 4 × QuantizerTable))
    (id : Fin 4) :
    (tables.foldl ReadState.define state).defined.get id =
      (lastTable id tables).or (state.defined.get id) := by
  induction tables generalizing state with
  | nil => rfl
  | cons table rest inductionHypothesis =>
      have first : (state.define table).defined.get id =
          (lastTable id [table]).or (state.defined.get id) := by
        unfold ReadState.define
        rw [get_set]
        by_cases same : table.1 = id <;> simp [lastTable, same]
      have front : table :: rest = [table] ++ rest := rfl
      rw [List.foldl_cons, inductionHypothesis, first, front, lastTable_append,
        Option.or_assoc]

theorem Entry.definitions_of_kind {entry : Entry} (other : entry.kind ≠ .quantizerTables) :
    entry.definitions = [] := by
  unfold definitions
  split
  · contradiction
  · rfl

theorem Entry.codes_of_kind {entry : Entry} (other : entry.kind ≠ .scan) (frame : Frame)
    (id : Fin 4) : entry.codes frame id = false := by
  unfold codes named
  split
  · contradiction
  · rfl

theorem Entry.codes_of_named {entry : Entry} {frame : Frame} {index : Nat}
    {component : Component} {id : Fin 4} (inFrame : frame.components[index]? = some component)
    (uses : component.quantizer = id.val) (named : index ∈ entry.named frame) :
    entry.codes frame id = true :=
  List.any_eq_true.mpr
    ⟨component, List.mem_filterMap.mpr ⟨index, named, inFrame⟩, decide_eq_true uses⟩

theorem beforeCoding_append_fromCoding (frame : Frame) (id : Fin 4) (entries : List Entry) :
    beforeCoding frame id entries ++ fromCoding frame id entries = entries :=
  List.takeWhile_append_dropWhile

/-- The first scan that names a component does not come before the first that codes its
table. -/
theorem beforeCoding_beforeNaming {frame : Frame} {index : Nat} {component : Component}
    {id : Fin 4} (inFrame : frame.components[index]? = some component)
    (uses : component.quantizer = id.val) (entries : List Entry) :
    beforeCoding frame id (beforeNaming frame index entries) =
      beforeCoding frame id entries := by
  unfold beforeCoding beforeNaming
  rw [List.takeWhile_takeWhile]
  congr 1
  funext entry
  rw [Bool.eq_iff_iff]
  simp only [Bool.not_eq_true', decide_eq_true_eq, and_iff_left_iff_imp]
  intro uncoded named
  rw [Entry.codes_of_named inFrame uses named] at uncoded
  cases uncoded

namespace ReadState

variable {before after : ReadState}

section Entries

variable {file : List UInt8} {frame : Frame} {entry : Entry} {entries : List Entry}

theorem Takes.defined (takes : Takes file frame entry before after) (id : Fin 4) :
    after.defined.get id = (lastTable id entry.definitions).or (before.defined.get id) := by
  by_cases kind : entry.kind = .quantizerTables
  · cases takes with
    | quantizers _ read =>
        rw [foldl_define_get]
        simp [Entry.definitions, kind, read]
    | huffman other | interval other | gathers other | decodes other =>
        cases kind.symm.trans other
    | passes notQuantizers => exact absurd kind notQuantizers
  · rw [takes.defined_of_kind kind, Entry.definitions_of_kind kind]
    rfl

theorem Takes.settled (takes : Takes file frame entry before after) (id : Fin 4) :
    after.settled.get id =
      if entry.codes frame id then (before.settled.get id).or (before.defined.get id)
      else before.settled.get id := by
  by_cases isScan : entry.kind = .scan
  · obtain ⟨scan, scanStart, later, grids, read, -, -, -, rfl⟩ := takes.of_scan isScan
    dsimp only
    rw [settledAfter_get]
    simp [Entry.codes, Entry.named, coded, isScan, read, List.filterMap_map]
  · rw [(takes.of_notScan isScan).1, Entry.codes_of_kind isScan]
    rfl

theorem Takes.settles (takes : Takes file frame entry before after) {id : Fin 4}
    (codes : entry.codes frame id = true) : (after.settled.get id).isSome := by
  rw [takes.settled id, if_pos codes]
  have isScan : entry.kind = .scan := by
    by_contra other
    rw [Entry.codes_of_kind other] at codes
    cases codes
  obtain ⟨scan, scanStart, later, grids, read, -, known, -, -⟩ := takes.of_scan isScan
  simp only [Entry.codes, Entry.named, isScan, read] at codes
  rw [List.filterMap_map] at codes
  obtain ⟨component, member, uses⟩ := List.any_eq_true.mp codes
  obtain ⟨other, named, present⟩ := known component member
  have same : other = id := Fin.ext (named.symm.trans (of_decide_eq_true uses))
  exact same ▸ present

theorem Takes.keeps (takes : Takes file frame entry before after) {id : Fin 4}
    {table : QuantizerTable} (settled : before.settled.get id = some table) :
    after.settled.get id = some table := by
  rw [takes.settled id, settled, Option.some_or, ite_self]

theorem foldlM_addEntry_defined
    (done : entries.foldlM (addEntry file frame) before = .ok after) (id : Fin 4) :
    after.defined.get id = (lastDefinition id entries).or (before.defined.get id) := by
  induction entries generalizing before with
  | nil =>
      cases done
      rfl
  | cons entry rest inductionHypothesis =>
      rw [List.foldlM_cons] at done
      obtain ⟨between, first, later⟩ := bind_eq_ok done
      have front : entry :: rest = [entry] ++ rest := rfl
      rw [inductionHypothesis later, (takes_of_addEntry first).defined, front,
        lastDefinition_append, Option.or_assoc]
      simp [lastDefinition]

/-- While no scan codes a component with a table, nothing settles it. -/
theorem foldlM_addEntry_unsettled {id : Fin 4}
    (uncoded : ∀ entry ∈ entries, entry.codes frame id = false)
    (done : entries.foldlM (addEntry file frame) before = .ok after) :
    after.settled.get id = before.settled.get id := by
  refine foldlM_preserves (fun state : ReadState =>
    state.settled.get id = before.settled.get id) ?_ rfl done
  intro entry member first second same step
  rw [(takes_of_addEntry step).settled, uncoded entry member]
  exact same

/-- The table that the whole file settles for an identifier: the last definition before the
first scan that codes any component with it, or before the end. -/
theorem foldlM_addEntry_table {id : Fin 4} (unsettled : before.settled.get id = none)
    (undefined : before.defined.get id = none)
    (done : entries.foldlM (addEntry file frame) before = .ok after) :
    (after.settled.get id).or (after.defined.get id) =
      lastDefinition id (beforeCoding frame id entries) := by
  have whole := beforeCoding_append_fromCoding frame id entries
  rw [← whole, List.foldlM_append] at done
  obtain ⟨between, early, late⟩ := bind_eq_ok done
  have defined := foldlM_addEntry_defined early id
  have settled : between.settled.get id = before.settled.get id :=
    foldlM_addEntry_unsettled
      (fun entry member => by simpa using List.mem_takeWhile_imp member) early
  rw [undefined, Option.or_none] at defined
  rw [unsettled] at settled
  -- The first scan that codes a component with the table settles it for the rest of the file.
  cases remaining : fromCoding frame id entries with
  | nil =>
      rw [remaining] at late
      cases late
      rw [settled, Option.none_or, defined]
  | cons entry rest =>
      have codes : entry.codes frame id = true := by
        have first := List.head?_dropWhile_not (fun entry => !entry.codes frame id) entries
        rw [show entries.dropWhile _ = entry :: rest from remaining] at first
        simpa using first
      rw [remaining, List.foldlM_cons] at late
      obtain ⟨next, scanned, later⟩ := bind_eq_ok late
      have takes := takes_of_addEntry scanned
      obtain ⟨table, present⟩ := Option.isSome_iff_exists.mp (takes.settles codes)
      have stays : after.settled.get id = some table :=
        foldlM_preserves (fun state : ReadState => state.settled.get id = some table)
          (fun _ _ _ _ held step => (takes_of_addEntry step).keeps held) present later
      rw [takes.settled, if_pos codes, settled, Option.none_or, defined] at present
      rw [stays, Option.some_or, present]

end Entries

end ReadState

namespace JpegImage

/-- The table of a component is the one that the file defines last before the first scan
that codes any component with the same identifier. It is the one defined last before the
first scan that names the component itself, unless a definition of another table for the
identifier stands between the two. -/
theorem ofBytes_quantizers {file : List UInt8} {image : JpegImage}
    (read : ofBytes file = .ok image) :
    ∃ walk, walkFile file = .ok walk ∧
      ∀ (index : Nat) (component : Component), image.frame.components[index]? = some component →
        ∃ (id : Fin 4) (table : QuantizerTable), component.quantizer = id.val ∧
          image.quantizers.get id = some table ∧
          lastDefinition id (beforeCoding image.frame id walk.entries) = some table ∧
          (lastDefinition id (beforeNaming image.frame index walk.entries) = some table ↔
            ∀ later, lastDefinition id (fromCoding image.frame id
              (beforeNaming image.frame index walk.entries)) = some later → later = table) := by
  obtain ⟨header, -, rest⟩ := bind_eq_ok read
  obtain ⟨walk, walked, rest⟩ := bind_eq_ok rest
  obtain ⟨scanned, gathered, rest⟩ := bind_eq_ok rest
  obtain ⟨state, settled, last⟩ := bind_eq_ok rest
  cases last
  obtain ⟨rfl, known⟩ := ReadState.foldlM_settle_eq_ok_iff.mp settled
  refine ⟨walk, walked, fun index component inFrame => ?_⟩
  have member : component ∈ header.frame.components := List.mem_of_getElem? inFrame
  obtain ⟨id, uses, present⟩ := known component member
  obtain ⟨table, found⟩ := Option.isSome_iff_exists.mp present
  have first : lastDefinition id (beforeCoding header.frame id walk.entries) = some table :=
    (ReadState.foldlM_addEntry_table (get_replicate _ id) (get_replicate _ id)
      gathered).symm.trans found
  refine ⟨id, table, uses, ?_, first, ?_⟩
  · dsimp only
    rw [ReadState.settledAfter_get_of_mem _ member uses, found]
  · -- The entries before the scan that names the component are those before the scan that settles
    -- its table, followed by the others.
    have own : lastDefinition id (beforeNaming header.frame index walk.entries) =
        (lastDefinition id (fromCoding header.frame id
          (beforeNaming header.frame index walk.entries))).or (some table) := by
      rw [← first, ← beforeCoding_beforeNaming inFrame uses, ← lastDefinition_append,
        beforeCoding_append_fromCoding]
    rw [own]
    cases lastDefinition id (fromCoding header.frame id
        (beforeNaming header.frame index walk.entries)) with
    | none => simp
    | some later => simp

/-- Two blocks of two components that share a table, in scans of their own. The table is ones
before the first scan, and twos before the second. -/
private def redefinedFile : List UInt8 :=
  [0xFF, 0xD8, 0xFF, 0xDB, 0, 67, 0] ++ List.replicate 64 1 ++
    [0xFF, 0xC0, 0, 14, 8, 0, 8, 0, 8, 2, 1, 0x11, 0, 2, 0x11, 0,
     0xFF, 0xC4, 0, 38,
     0x00, 0, 0, 0, 0, 0, 0, 0, 0, 1, 0, 0, 0, 0, 0, 0, 0, 0,
     0x10, 0, 0, 0, 0, 0, 0, 0, 0, 1, 0, 0, 0, 0, 0, 0, 0, 0,
     0xFF, 0xDA, 0, 8, 1, 1, 0, 0, 63, 0, 0x00, 0x00, 0x3F,
     0xFF, 0xDB, 0, 67, 0] ++ List.replicate 64 2 ++
    [0xFF, 0xDA, 0, 8, 1, 2, 0, 0, 63, 0, 0x00, 0x00, 0x3F,
     0xFF, 0xD9]

private def comparison (file : List UInt8) :
    Except CodecError (List Component × Bool × List (Option QuantizerTable)) := do
  let image ← ofBytes file
  let walk ← walkFile file
  pure (image.frame.components, walk.entries.any fun entry => 1 ∈ entry.named image.frame,
    [image.quantizers.get 0, lastDefinition 0 (beforeNaming image.frame 0 walk.entries),
      lastDefinition 0 (beforeNaming image.frame 1 walk.entries)])

private theorem comparison_redefinedFile : ∃ image walk,
    ofBytes redefinedFile = .ok image ∧ walkFile redefinedFile = .ok walk ∧
      image.frame.components = [⟨1, 1, 1, 0⟩, ⟨2, 1, 1, 0⟩] ∧
      (∃ entry ∈ walk.entries, 1 ∈ entry.named image.frame) ∧
      image.quantizers.get 0 = some (Vector.replicate 64 1) ∧
      lastDefinition 0 (beforeNaming image.frame 0 walk.entries) =
        some (Vector.replicate 64 1) ∧
      lastDefinition 0 (beforeNaming image.frame 1 walk.entries) =
        some (Vector.replicate 64 2) := by
  have compared : comparison redefinedFile =
      .ok ([⟨1, 1, 1, 0⟩, ⟨2, 1, 1, 0⟩], true,
        [some (Vector.replicate 64 1), some (Vector.replicate 64 1),
          some (Vector.replicate 64 2)]) := by
    decide +kernel
  obtain ⟨image, read, rest⟩ := bind_eq_ok compared
  obtain ⟨walk, walked, last⟩ := bind_eq_ok rest
  simp only [pure, Except.pure, Except.ok.injEq, Prod.mk.injEq, List.cons.injEq] at last
  obtain ⟨components, named, settled, first, second, -⟩ := last
  refine ⟨image, walk, read, walked, components, ?_, settled, first, second⟩
  simpa using named

/-- For the component of the first scan, the two definitions are one. -/
theorem ofBytes_quantizers_redefinedFile : ∃ image walk table,
    ofBytes redefinedFile = .ok image ∧ walkFile redefinedFile = .ok walk ∧
      image.quantizers.get 0 = some table ∧
      lastDefinition 0 (beforeCoding image.frame 0 walk.entries) = some table := by
  obtain ⟨image, walk, read, walked, components, -⟩ := comparison_redefinedFile
  obtain ⟨walk', walked', each⟩ := ofBytes_quantizers read
  cases walked.symm.trans walked'
  obtain ⟨id, table, uses, settled, first, -⟩ := each 0 ⟨1, 1, 1, 0⟩ (by rw [components]; rfl)
  have same : id = 0 := Fin.ext uses.symm
  exact ⟨image, walk, table, read, walked, same ▸ settled, same ▸ first⟩

/-- The second component has to do with the table of the first, although the file defines
another one before the scan that names it. -/
theorem ofBytes_redefinedFile_sharedTable : ∃ image walk component,
    ofBytes redefinedFile = .ok image ∧ walkFile redefinedFile = .ok walk ∧
      image.frame.components[1]? = some component ∧ component.quantizer = 0 ∧
      (∃ entry ∈ walk.entries, 1 ∈ entry.named image.frame) ∧
      image.quantizers.get 0 ≠
        lastDefinition 0 (beforeNaming image.frame 1 walk.entries) := by
  obtain ⟨image, walk, read, walked, components, named, settled, -, second⟩ :=
    comparison_redefinedFile
  refine ⟨image, walk, ⟨2, 1, 1, 0⟩, read, walked, by rw [components]; rfl, rfl, named, ?_⟩
  rw [settled, second]
  decide

end JpegImage

end LosslessJpeg
