import LosslessJpeg.Proofs.Checked.Blocks
import LosslessJpeg.Proofs.Checked.Tables

set_option autoImplicit false

/-!
Entering the tables of a scan. A table that several components name is built once. Entering
another one keeps those that are there.
-/

namespace LosslessJpeg

def ScanKind.codesDc : ScanKind → Bool
  | .sequential | .dcFirst => true
  | .dcRefinement | .acFirst | .acRefinement => false

def ScanKind.codesAc : ScanKind → Bool
  | .sequential | .acFirst | .acRefinement => true
  | .dcFirst | .dcRefinement => false

namespace Checked

def enterTable (slots : Vector (Option HuffmanTable) 4) (id : Nat)
    (arrays : List (Option ArrayDecoder)) : Checked CodecError (List (Option ArrayDecoder)) := do
  let entry ← item arrays id
  match entry with
  | some _ => pure arrays
  | none => do
      let slot ← item slots.toList id
      match slot with
      | none => fail (.huffmanTableId id)
      | some table => do
          let decoder ← ArrayDecoder.build table.countList table.symbols
          inside arrays.length id
          pure (arrays.set id (some decoder))

/-- Enter the tables of one component, as far as the scan makes use of them. -/
def enterTables (slots : HuffmanSlots) (component : ScanComponent) (tables : ScanTables) :
    Checked CodecError ScanTables := do
  let dc ←
    if tables.kind.codesDc then enterTable slots.dc component.dcTable tables.dc
    else pure tables.dc
  let ac ←
    if tables.kind.codesAc then enterTable slots.ac component.acTable tables.ac
    else pure tables.ac
  pure { tables with dc := dc, ac := ac }

def ScanTables.blank (kind : ScanKind) (band : ScanBand) : ScanTables :=
  { kind := kind
    band := band
    dc := List.replicate 4 none
    ac := List.replicate 4 none }

def enterComponents (slots : HuffmanSlots) (gridCount : Nat) :
    List ScanComponent → ScanTables → Checked CodecError ScanTables
  | [], tables => pure tables
  | component :: rest, tables =>
      if gridCount ≤ component.index ∨ 3 < component.dcTable ∨ 3 < component.acTable then
        fail (.malformed .scanSelector)
      else do
        let entered ← enterTables slots component tables
        enterComponents slots gridCount rest entered

/-- Each array that has been entered is that of the table in its slot. -/
structure Holds (slots : Vector (Option HuffmanTable) 4) (arrays : List (Option ArrayDecoder)) :
    Prop where
  length : arrays.length = 4
  built : ∀ id entry, arrays[id]? = some (some entry) →
    ∃ decoder, Scan.decoderAt slots id = .ok decoder ∧ entry.Renders decoder

def Grows (before after : List (Option ArrayDecoder)) : Prop :=
  ∀ (id : Nat) (entry : ArrayDecoder), before[id]? = some (some entry) →
    after[id]? = some (some entry)

open BufferedBlock (Entered)

private theorem Grows.entered {before after : List (Option ArrayDecoder)} {id : Nat}
    {decoder : HuffmanDecoder} (grows : Grows before after) (entered : Entered before id decoder) :
    Entered after id decoder := by
  obtain ⟨entry, there, renders⟩ := entered
  exact ⟨entry, grows id entry there, renders⟩

private theorem countList_bounds (table : HuffmanTable) :
    table.countList.length = 16 ∧ table.countList.sum < 2 ^ 64 := by
  have length : table.countList.length = 16 := by
    rw [HuffmanTable.countList, List.length_map, Vector.length_toList]
  refine ⟨length, ?_⟩
  have total := total_le table.counts.toList
  rw [Vector.length_toList] at total
  exact Nat.lt_of_le_of_lt total (by decide)

private theorem Holds.set {slots : Vector (Option HuffmanTable) 4}
    {arrays : List (Option ArrayDecoder)} (holds : Holds slots arrays) {id : Nat}
    (empty : arrays[id]? = some none) {entry : ArrayDecoder} {decoder : HuffmanDecoder}
    (same : Scan.decoderAt slots id = .ok decoder) (renders : entry.Renders decoder) :
    Holds slots (arrays.set id (some entry)) ∧ Grows arrays (arrays.set id (some entry)) ∧
      Entered (arrays.set id (some entry)) id decoder := by
  obtain ⟨inside, -⟩ := List.getElem?_eq_some_iff.mp empty
  have entered : (arrays.set id (some entry))[id]? = some (some entry) :=
    List.getElem?_set_self inside
  refine ⟨⟨?_, ?_⟩, ?_, entry, entered, renders⟩
  · rw [List.length_set, holds.length]
  · intro other otherEntry there
    by_cases here : id = other
    · subst here
      rw [entered] at there
      cases there
      exact ⟨decoder, same, renders⟩
    · rw [List.getElem?_set_ne here] at there
      exact holds.built other otherEntry there
  · intro other otherEntry there
    by_cases here : id = other
    · subst here
      rw [empty] at there
      cases there
    · rw [List.getElem?_set_ne here, there]

private theorem enterTable_follows {slots : Vector (Option HuffmanTable) 4} {id : Nat}
    {arrays : List (Option ArrayDecoder)} (holds : Holds slots arrays) (small : id < 4) :
    Follows (fun after decoder => Holds slots after ∧ Grows arrays after ∧
        Entered after id decoder)
      (enterTable slots id arrays) (Scan.decoderAt slots id) := by
  have inArrays : id < arrays.length := by rw [holds.length]; exact small
  have inSlots : id < slots.toList.length := by rw [Vector.length_toList]; exact small
  have here : arrays[id]? = some arrays[id] := List.getElem?_eq_getElem inArrays
  have slot : slots[id]?.join = slots.toList[id] := by
    rw [← Vector.getElem?_toList, List.getElem?_eq_getElem inSlots, Option.join_some]
  rw [enterTable, bind_of_ok (item_of_lt inArrays)]
  -- A table that several components share is entered once, and found there by the others.
  cases found : arrays[id] with
  | some entry =>
      rw [found] at here
      obtain ⟨decoder, same, renders⟩ := holds.built id entry here
      rw [same]
      exact .ok ⟨holds, fun _ _ there => there, entry, here, renders⟩
  | none =>
      dsimp only
      rw [bind_of_ok (item_of_lt inSlots), Scan.decoderAt, slot]
      cases named : slots.toList[id] with
      | none => exact .failure _
      | some table =>
          obtain ⟨lengths, total⟩ := countList_bounds table
          have listed : Scan.decoderAt slots id = HuffmanDecoder.ofTable table := by
            rw [Scan.decoderAt, slot, named]
          dsimp only
          rw [ArrayDecoder.build_eq lengths total, HuffmanDecoder.ofTable]
          rw [HuffmanDecoder.ofTable] at listed
          cases done : HuffmanDecoder.build table.countList table.symbols with
          | error cause => exact .failure cause
          | ok decoder =>
              rw [done] at listed
              have renders : (ArrayDecoder.tabulated table.countList decoder).Renders decoder :=
                ⟨_, _, lengths, done, rfl⟩
              change Follows _ (inside arrays.length id >>= fun _ => pure (arrays.set id
                (some (ArrayDecoder.tabulated table.countList decoder)))) _
              rw [bind_of_ok (inside_of_lt inArrays)]
              exact .ok (holds.set (here.trans (congrArg some found)) listed renders)

/-- The tables of a scan of some kind and band have been entered from these slots. -/
structure ScanTables.Prepared (tables : ScanTables) (slots : HuffmanSlots) (kind : ScanKind)
    (band : ScanBand) : Prop where
  kind : tables.kind = kind
  band : tables.band = band
  dc : Holds slots.dc tables.dc
  ac : Holds slots.ac tables.ac

theorem ScanTables.prepared_blank (slots : HuffmanSlots) (kind : ScanKind) (band : ScanBand) :
    (blank kind band).Prepared slots kind band := by
  have none (id : Nat) (entry : ArrayDecoder) :
      (List.replicate 4 none : List (Option ArrayDecoder))[id]? ≠ some (some entry) := by
    intro there
    have member := List.eq_of_mem_replicate (List.mem_of_getElem? there)
    cases member
  exact
    { kind := rfl
      band := rfl
      dc := ⟨List.length_replicate, fun id entry there => absurd there (none id entry)⟩
      ac := ⟨List.length_replicate, fun id entry there => absurd there (none id entry)⟩ }

structure ScanTables.Grows (before after : ScanTables) : Prop where
  kind : after.kind = before.kind
  band : after.band = before.band
  dc : Checked.Grows before.dc after.dc
  ac : Checked.Grows before.ac after.ac

theorem ScanTables.Grows.refl (tables : ScanTables) : tables.Grows tables where
  kind := rfl
  band := rfl
  dc := fun _ _ there => there
  ac := fun _ _ there => there

theorem ScanTables.Grows.trans {before between after : ScanTables}
    (first : before.Grows between) (second : between.Grows after) : before.Grows after where
  kind := second.kind.trans first.kind
  band := second.band.trans first.band
  dc := fun id entry there => second.dc id entry (first.dc id entry there)
  ac := fun id entry there => second.ac id entry (first.ac id entry there)

theorem ScanTables.Grows.serves {before after : ScanTables} {component : ScanComponent}
    {coding : BlockCoding} (grows : before.Grows after) (serves : before.Serves component coding) :
    after.Serves component coding := by
  cases serves with
  | sequential kind whole hasDc hasAc =>
      exact .sequential (grows.kind.trans kind) (grows.band.trans whole) (grows.dc.entered hasDc)
        (grows.ac.entered hasAc)
  | dcFirst kind hasDc =>
      rw [← grows.band]
      exact .dcFirst (grows.kind.trans kind) (grows.dc.entered hasDc)
  | dcRefinement kind =>
      rw [← grows.band]
      exact .dcRefinement (grows.kind.trans kind)
  | acFirst kind hasAc =>
      rw [← grows.band]
      exact .acFirst (grows.kind.trans kind) (grows.ac.entered hasAc)
  | acRefinement kind hasAc =>
      rw [← grows.band]
      exact .acRefinement (grows.kind.trans kind) (grows.ac.entered hasAc)

private theorem enterTables_follows {slots : HuffmanSlots} {kind : ScanKind} {scan : Scan}
    {tables : ScanTables} {component : ScanComponent}
    (prepared : tables.Prepared slots kind scan.band)
    (whole : kind = .sequential → scan.band = ScanBand.whole) (dcSmall : component.dcTable < 4)
    (acSmall : component.acTable < 4) :
    Follows (fun after coding => after.Prepared slots kind scan.band ∧ tables.Grows after ∧
        after.Serves component coding)
      (enterTables slots component tables) (scan.codingOf kind slots component) := by
  have dcEntered := enterTable_follows prepared.dc dcSmall
  have acEntered := enterTable_follows prepared.ac acSmall
  have grown : tables.Grows tables := .refl tables
  obtain ⟨tablesKind, tablesBand, tablesDc, tablesAc⟩ := tables
  obtain ⟨parts, band⟩ := scan
  have sameKind : tablesKind = kind := prepared.kind
  have sameBand : tablesBand = band := prepared.band
  subst sameKind sameBand
  -- Which tables are entered depends on the kind of the scan alone.
  cases tablesKind with
  | sequential =>
      refine dcEntered.bind ?_
      rintro dc decoder ⟨dcHolds, dcGrows, dcHas⟩
      refine acEntered.bind ?_
      rintro ac other ⟨acHolds, acGrows, acHas⟩
      exact .ok ⟨{ prepared with dc := dcHolds, ac := acHolds },
        { grown with dc := dcGrows, ac := acGrows }, .sequential rfl (whole rfl) dcHas acHas⟩
  | dcFirst =>
      refine dcEntered.bind ?_
      rintro dc decoder ⟨dcHolds, dcGrows, dcHas⟩
      exact .ok ⟨{ prepared with dc := dcHolds }, { grown with dc := dcGrows }, .dcFirst rfl dcHas⟩
  | dcRefinement => exact .ok ⟨prepared, grown, .dcRefinement rfl⟩
  | acFirst =>
      refine acEntered.bind ?_
      rintro ac decoder ⟨acHolds, acGrows, acHas⟩
      exact .ok ⟨{ prepared with ac := acHolds }, { grown with ac := acGrows }, .acFirst rfl acHas⟩
  | acRefinement =>
      refine acEntered.bind ?_
      rintro ac decoder ⟨acHolds, acGrows, acHas⟩
      exact .ok ⟨{ prepared with ac := acHolds }, { grown with ac := acGrows },
        .acRefinement rfl acHas⟩

structure ScanTables.Codes (tables : ScanTables) (frame : Frame) (gridCount : Nat)
    (named : ScanComponent) (part : CodedComponent) : Prop where
  inside : named.index < gridCount
  index : part.index = named.index
  component : part.component = (frame.components[named.index]?).getD Component.absent
  serves : tables.Serves named part.coding

theorem enterComponents_follows {slots : HuffmanSlots} {kind : ScanKind} {scan : Scan}
    {frame : Frame} {gridCount : Nat} {components : List ScanComponent} {tables : ScanTables}
    (prepared : tables.Prepared slots kind scan.band)
    (whole : kind = .sequential → scan.band = ScanBand.whole) :
    Follows (fun after parts => tables.Grows after ∧
        List.Forall₂ (after.Codes frame gridCount) components parts)
      (enterComponents slots gridCount components tables)
      (components.mapM (scan.codedComponent frame kind slots gridCount)) := by
  induction components generalizing tables with
  | nil => exact .ok ⟨.refl tables, .nil⟩
  | cons component rest inductionHypothesis =>
      rw [enterComponents, List.mapM_cons, Scan.codedComponent]
      by_cases known : component.index < gridCount ∧ component.dcTable < 4 ∧ component.acTable < 4
      · obtain ⟨inside, dcSmall, acSmall⟩ := known
        rw [if_neg (by omega), if_pos ⟨inside, dcSmall, acSmall⟩, bind_assoc]
        refine (enterTables_follows prepared whole dcSmall acSmall).bind ?_
        rintro entered coding ⟨preparedEntered, grows, serves⟩
        rw [pure_bind, ← bind_pure (enterComponents slots gridCount rest entered)]
        refine (inductionHypothesis preparedEntered).bind ?_
        rintro after parts ⟨growsLater, codes⟩
        exact .ok ⟨grows.trans growsLater, .cons ⟨inside, rfl, rfl, growsLater.serves serves⟩ codes⟩
      · rw [if_pos (by omega), if_neg known]
        exact .failure _

end Checked

end LosslessJpeg
