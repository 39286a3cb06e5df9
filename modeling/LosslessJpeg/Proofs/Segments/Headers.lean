import LosslessJpeg.Frame
import LosslessJpeg.Proofs.Bytes
import LosslessJpeg.Proofs.Sequencing
import LosslessJpeg.Scan.Header
import Mathlib.Data.List.Nodup

set_option autoImplicit false

/-!
A frame comes back from its header, and so does a sequential scan of all its components.
-/

namespace LosslessJpeg

theorem Component.check_of_admissible {component : Component}
    (admissible : component.Admissible) : component.check = .ok () := by
  obtain ⟨acrossPositive, acrossSmall, downPositive, downSmall, known⟩ := admissible
  unfold check
  rw [if_neg (by omega), if_neg (by omega)]

theorem checkComponents_of_admissible {components : List Component}
    (admissible : ∀ component ∈ components, component.Admissible) :
    checkComponents components = .ok () := by
  induction components with
  | nil => rfl
  | cons component rest inductionHypothesis =>
      unfold checkComponents
      rw [Component.check_of_admissible (admissible component List.mem_cons_self)]
      exact inductionHypothesis fun other member =>
        admissible other (List.mem_cons_of_mem _ member)

theorem soleComponent_idem (components : List Component) :
    soleComponent (soleComponent components) = soleComponent components := by
  match components with
  | [] => rfl
  | [_] => rfl
  | _ :: _ :: _ => rfl

namespace Frame

theorem build_eq_ok {width height : UInt16} {named : List Component} {progressive : Bool}
    {frame : Frame} (built : build width height named progressive = .ok frame) :
    frame.width = width ∧ frame.height = height ∧
      frame.components = soleComponent named ∧ frame.progressive = progressive := by
  unfold build at built
  dsimp only at built
  split at built
  · split at built
    · cases built
    · cases built
      exact ⟨rfl, rfl, rfl, rfl⟩
  · cases built

theorem normal_of_build {width height : UInt16} {named : List Component}
    {progressive : Bool} {frame : Frame}
    (built : build width height named progressive = .ok frame) :
    soleComponent frame.components = frame.components := by
  rw [(build_eq_ok built).2.2.1, soleComponent_idem]

theorem build_self {frame : Frame} (normal : soleComponent frame.components = frame.components) :
    build frame.width frame.height frame.components frame.progressive = .ok frame := by
  have checked := checkComponents_of_admissible frame.admissible
  unfold build
  dsimp only
  rw [dif_pos (by
    rw [normal]
    exact ⟨frame.width_ne_zero, frame.height_ne_zero, frame.components_ne_nil,
      frame.components_length⟩)]
  split
  · rename_i failure failed
    rw [normal, checked] at failed
    cases failed
  · simp only [normal]

end Frame

theorem takeComponents_bytes {components : List Component}
    (admissible : ∀ component ∈ components, component.Admissible) :
    takeComponents components.length (components.flatMap Component.bytes) =
      some components := by
  induction components with
  | nil => rfl
  | cons component rest inductionHypothesis =>
      obtain ⟨-, acrossSmall, -, downSmall, known⟩ := admissible component List.mem_cons_self
      have later := inductionHypothesis fun other member =>
        admissible other (List.mem_cons_of_mem _ member)
      have named : (UInt8.ofNat component.quantizer).toNat = component.quantizer := by
        rw [UInt8.toNat_ofNat']
        omega
      rw [List.flatMap_cons]
      unfold Component.bytes takeComponents
      change (takeComponents rest.length (rest.flatMap Component.bytes) >>= _) = _
      rw [later, highNibble_nibbles (by omega), lowNibble_nibbles (by omega), named]
      rfl

theorem Frame.ofBytes_bytes {frame : Frame}
    (normal : soleComponent frame.components = frame.components)
    (sequential : frame.progressive = false) :
    Frame.ofBytes false frame.bytes = .ok frame := by
  have few := frame.components_length
  have count : (UInt8.ofNat frame.components.length).toNat = frame.components.length := by
    rw [UInt8.toNat_ofNat']
    omega
  have built := build_self normal
  rw [sequential] at built
  change Frame.ofBytes false (8 :: UInt8.ofNat (frame.height.toNat / 256) ::
    UInt8.ofNat frame.height.toNat :: UInt8.ofNat (frame.width.toNat / 256) ::
    UInt8.ofNat frame.width.toNat :: UInt8.ofNat frame.components.length ::
    frame.components.flatMap Component.bytes) = _
  rw [Frame.ofBytes, word_wordBytes frame.height.toNat_lt, word_wordBytes frame.width.toNat_lt,
    UInt16.ofNat_toNat, UInt16.ofNat_toNat, if_neg (by decide),
    if_neg (not_or.mpr ⟨frame.width_ne_zero, frame.height_ne_zero⟩), count,
    takeComponents_bytes frame.admissible]
  exact built

theorem Frame.bytes_length (frame : Frame) : frame.bytes.length ≤ 18 := by
  have few := frame.components_length
  have triples : (frame.components.flatMap Component.bytes).length =
      3 * frame.components.length := by
    induction frame.components with
    | nil => rfl
    | cons component rest inductionHypothesis =>
        rw [List.flatMap_cons, List.length_append, inductionHypothesis, List.length_cons]
        change 3 + _ = _
        omega
  change (frame.components.flatMap Component.bytes).length + 6 ≤ 18
  omega

/-- The sequential scan of all components in order, each with its tables. -/
def wholeScan (tables : List (Fin 4)) : Scan :=
  { components := tables.zipIdx.map fun entry =>
      { index := entry.2
        dcTable := entry.1.val
        acTable := entry.1.val }
    band := ScanBand.whole }

private def selectorOf (entry : Component × Fin 4) : ScanSelector :=
  { id := entry.1.id
    dcTable := entry.2.val
    acTable := entry.2.val }

private theorem takeSelectors_bytes (entries : List (Component × Fin 4))
    (rest : List UInt8) :
    takeSelectors entries.length ((entries.flatMap fun entry =>
        [entry.1.id, nibbles entry.2.val entry.2.val]) ++ rest) =
      some (entries.map selectorOf, rest) := by
  induction entries with
  | nil => rfl
  | cons entry others inductionHypothesis =>
      rw [List.flatMap_cons]
      change (takeSelectors others.length ((others.flatMap fun entry =>
        [entry.1.id, nibbles entry.2.val entry.2.val]) ++ rest) >>= _) = _
      rw [inductionHypothesis, highNibble_nibbles (by omega), lowNibble_nibbles (by omega)]
      rfl

private theorem resolve_distinct {frame : Frame}
    (distinct : (frame.components.map (·.id)).Nodup) {place : Nat} {component : Component}
    (found : frame.components[place]? = some component) (table : Fin 4) :
    ScanSelector.resolve frame (selectorOf (component, table)) =
      .ok
        { index := place
          dcTable := table.val
          acTable := table.val } := by
  obtain ⟨inside, rfl⟩ := List.getElem?_eq_some_iff.mp found
  have first : frame.components.findIdx? (·.id == frame.components[place].id) =
      some place := by
    rw [List.findIdx?_eq_some_iff_getElem]
    refine ⟨inside, beq_self_eq_true _, fun earlier before same => ?_⟩
    have length : (frame.components.map (·.id)).length = frame.components.length :=
      List.length_map _
    have early : earlier < (frame.components.map (·.id)).length := by omega
    have late : place < (frame.components.map (·.id)).length := by omega
    have different := List.pairwise_iff_getElem.mp distinct earlier place early late before
    rw [List.getElem_map, List.getElem_map] at different
    exact different (beq_iff_eq.mp same)
  unfold ScanSelector.resolve selectorOf
  rw [first]

/-- A scan of all components comes back from its header if their identifiers tell them
apart. -/
theorem Scan.ofBytes_header {frame : Frame} {tables : List (Fin 4)}
    (distinct : (frame.components.map (·.id)).Nodup)
    (tabled : tables.length = frame.components.length) :
    Scan.ofBytes frame (UInt8.ofNat frame.components.length ::
      ((frame.components.zip tables).flatMap fun entry =>
        [entry.1.id, nibbles entry.2.val entry.2.val]) ++ [0, 63, 0]) =
      .ok (wholeScan tables) := by
  -- There are at most four components, so their number fits its byte.
  have few := frame.components_length
  have some : frame.components.length ≠ 0 := fun none =>
    frame.components_ne_nil (List.eq_nil_of_length_eq_zero none)
  have count : (UInt8.ofNat frame.components.length).toNat = frame.components.length := by
    rw [UInt8.toNat_ofNat']
    omega
  have entries : (frame.components.zip tables).length = frame.components.length := by
    rw [List.length_zip, tabled, Nat.min_self]
  have header : ScanHeader.ofBytes (UInt8.ofNat frame.components.length ::
      ((frame.components.zip tables).flatMap fun entry =>
        [entry.1.id, nibbles entry.2.val entry.2.val]) ++ [0, 63, 0]) =
      .ok
        { selectors := (frame.components.zip tables).map selectorOf
          band := ScanBand.whole } := by
    have taken := takeSelectors_bytes (frame.components.zip tables) [0, 63, 0]
    rw [entries] at taken
    rw [List.cons_append, ScanHeader.ofBytes, if_neg, count, taken]
    · rfl
    · rw [not_or, UInt8.not_lt, UInt8.le_iff_toNat_le, ← UInt8.toNat_inj, count]
      exact ⟨some, few⟩
  have resolved : ((frame.components.zip tables).map selectorOf).mapM
      (ScanSelector.resolve frame) = .ok (wholeScan tables).components := by
    rw [mapM_eq_ok_iff, List.forall₂_iff_get]
    refine ⟨?_, fun place inside otherInside => ?_⟩
    · unfold wholeScan
      rw [List.length_map, List.length_map, List.length_zipIdx, entries, tabled]
    · rw [List.length_map, entries] at inside
      simp only [List.get_eq_getElem, List.getElem_map, List.getElem_zip, wholeScan,
        List.getElem_zipIdx, Nat.zero_add]
      exact resolve_distinct distinct (List.getElem?_eq_getElem inside) _
  rw [Scan.ofBytes, bind_of_ok header, bind_of_ok resolved]
  rfl

end LosslessJpeg
