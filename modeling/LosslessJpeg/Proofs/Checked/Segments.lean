import LosslessJpeg.Proofs.Checked.Basic
import LosslessJpeg.Proofs.Scan.Traversal
import LosslessJpeg.Scan.Header

set_option autoImplicit false

/-!
Reading frame headers, scan headers and restart intervals with every access to the body of the
segment checked. Reading by positions gives what reading byte by byte gives.
-/

namespace LosslessJpeg

namespace Checked

variable {body : List UInt8}

section Items

variable {ε α β : Type}

def items (list : List α) (start count : Nat) : Checked ε (List α) :=
  (List.range' start count).mapM (item list)

theorem items_of_le {list : List α} {start count : Nat} (within : start + count ≤ list.length) :
    (items list start count : Checked ε (List α)) = .ok ((list.drop start).take count) := by
  unfold items
  induction count generalizing start with
  | zero => rfl
  | succ count inductionHypothesis =>
      have inside : start < list.length := by omega
      rw [List.range'_succ, List.mapM_cons, bind_of_ok (item_of_lt inside),
        bind_of_ok (inductionHypothesis (by omega)), List.drop_eq_getElem_cons inside,
        List.take_succ_cons]
      rfl

theorem item_cons_succ (first : α) (rest : List α) (index : Nat) :
    (item (first :: rest) (index + 1) : Checked ε α) = item rest index :=
  rfl

end Items

def overwriteSole (named : List Component) : Checked CodecError Unit :=
  if named.length = 1 then inside named.length 0 else pure ()

/-- A frame of given components, with its MCUs in numbers of 16 bits. -/
def buildFrame (width height : UInt16) (named : List Component) (progressive : Bool) :
    Checked CodecError Frame := do
  overwriteSole named
  let frame ← of (Frame.build width height named progressive)
  fits 16 frame.mcuWidth
  fits 16 frame.mcuHeight
  divides frame.mcuWidth
  divides frame.mcuHeight
  pure frame

def componentAt (body : List UInt8) (index : Nat) : Checked CodecError Component := do
  let offset := 6 + index * 3
  fits 64 (offset + 2)
  let sampling ← item body (offset + 1)
  let id ← item body offset
  let quantizer ← item body (offset + 2)
  pure
    { id := id
      across := highNibble sampling
      down := lowNibble sampling
      quantizer := quantizer.toNat }

def frameOfBytes (progressive : Bool) (body : List UInt8) : Checked CodecError Frame :=
  if body.length < 6 then
    fail .unexpectedEnd
  else do
    let precision ← item body 0
    if precision ≠ 8 then
      fail (.unsupportedPrecision precision)
    else do
      let heightHigh ← item body 1
      let heightLow ← item body 2
      let widthHigh ← item body 3
      let widthLow ← item body 4
      let count ← item body 5
      let width := UInt16.ofNat (word widthHigh widthLow)
      let height := UInt16.ofNat (word heightHigh heightLow)
      if width = 0 ∨ height = 0 then
        fail .invalidDimensions
      else do
        fits 64 (6 + count.toNat * 3)
        if body.length < 6 + count.toNat * 3 then
          fail .unexpectedEnd
        else do
          let components ← (List.range count.toNat).mapM (componentAt body)
          buildFrame width height components progressive

/-- An MCU has at least one block across and at least one down. -/
theorem mcu_measures (frame : Frame) :
    0 < frame.maxAcross ∧ frame.maxAcross ≤ 4 ∧ 0 < frame.maxDown ∧ frame.maxDown ≤ 4 := by
  obtain ⟨component, member⟩ := List.exists_mem_of_ne_nil _ frame.components_ne_nil
  have admissible := frame.admissible component member
  have across := frame.across_le_maxAcross member
  have down := frame.down_le_maxDown member
  unfold Component.Admissible at admissible
  exact ⟨by omega, frame.maxAcross_le, by omega, frame.maxDown_le⟩

theorem buildFrame_eq (width height : UInt16) (named : List Component) (progressive : Bool) :
    buildFrame width height named progressive =
      of (Frame.build width height named progressive) := by
  have overwritten : overwriteSole named = .ok () := by
    unfold overwriteSole
    split
    · exact inside_of_lt (by omega)
    · rfl
  rw [buildFrame, bind_of_ok overwritten]
  cases Frame.build width height named progressive with
  | error failure => rfl
  | ok frame =>
      have measures := mcu_measures frame
      have acrossFits : frame.mcuWidth < 2 ^ 16 := by
        unfold Frame.mcuWidth
        omega
      have downFits : frame.mcuHeight < 2 ^ 16 := by
        unfold Frame.mcuHeight
        omega
      rw [of_ok, bind_of_ok rfl, bind_of_ok (fits_of_lt acrossFits),
        bind_of_ok (fits_of_lt downFits), bind_of_ok (divides_of_ne ?_),
        bind_of_ok (divides_of_ne ?_)]
      · rfl
      · unfold Frame.mcuHeight
        omega
      · unfold Frame.mcuWidth
        omega

private theorem takeComponents_of_short {count : Nat} {rest : List UInt8}
    (short : rest.length < count * 3) : takeComponents count rest = none := by
  fun_induction takeComponents count rest with
  | case1 => omega
  | case2 count id sampling quantizer rest inductionHypothesis =>
      rw [inductionHypothesis (by simp only [List.length_cons] at short; omega)]
      rfl
  | case3 => rfl

private theorem componentsAt_of_le {start count : Nat}
    (within : 6 + start * 3 + count * 3 ≤ body.length) (short : body.length ≤ 65533) :
    ∃ components, takeComponents count (body.drop (6 + start * 3)) = some components ∧
      (List.range' start count).mapM (componentAt body) = .ok components := by
  induction count generalizing start with
  | zero => exact ⟨[], rfl, rfl⟩
  | succ count inductionHypothesis =>
      obtain ⟨components, taken, read⟩ := @inductionHypothesis (start + 1) (by omega)
      have first : 6 + start * 3 < body.length := by omega
      have second : 6 + start * 3 + 1 < body.length := by omega
      have third : 6 + start * 3 + 2 < body.length := by omega
      have next : 6 + start * 3 + 1 + 1 + 1 = 6 + (start + 1) * 3 := by omega
      refine
        ⟨{ id := body[6 + start * 3]
           across := highNibble body[6 + start * 3 + 1]
           down := lowNibble body[6 + start * 3 + 1]
           quantizer := body[6 + start * 3 + 2].toNat } :: components, ?_, ?_⟩
      · rw [List.drop_eq_getElem_cons first, List.drop_eq_getElem_cons second,
          List.drop_eq_getElem_cons third, takeComponents, next, taken]
        rfl
      · rw [List.range'_succ, List.mapM_cons, componentAt,
          bind_of_ok (fits_of_lt (by omega)), bind_of_ok (item_of_lt second),
          bind_of_ok (item_of_lt first), bind_of_ok (item_of_lt third), pure_bind,
          bind_of_ok read]
        rfl

theorem frameOfBytes_eq (progressive : Bool) (short : body.length ≤ 65533) :
    frameOfBytes progressive body = of (Frame.ofBytes progressive body) := by
  unfold frameOfBytes
  match body, short with
  | [], _ | [_], _ | [_, _], _ | [_, _, _], _ | [_, _, _, _], _ | [_, _, _, _, _], _ => rfl
  | precision :: heightHigh :: heightLow :: widthHigh :: widthLow :: count :: rest, short =>
      have sixteen := count.toNat_lt
      rw [if_neg (by simp), bind_of_ok (item_of_getElem? (by rfl)), Frame.ofBytes]
      dsimp only
      split
      · rfl
      · rw [bind_of_ok (item_of_getElem? (by rfl)), bind_of_ok (item_of_getElem? (by rfl)),
          bind_of_ok (item_of_getElem? (by rfl)), bind_of_ok (item_of_getElem? (by rfl)),
          bind_of_ok (item_of_getElem? (by rfl))]
        split
        · rfl
        · rw [bind_of_ok (fits_of_lt (by omega))]
          simp only [List.length_cons] at short ⊢
          split
          · rename_i lacking
            rw [takeComponents_of_short (by omega)]
            rfl
          · rename_i enough
            obtain ⟨components, taken, read⟩ := @componentsAt_of_le
              (precision :: heightHigh :: heightLow :: widthHigh :: widthLow :: count :: rest)
              0 count.toNat (by simp only [List.length_cons]; omega) (by simpa using short)
            rw [List.range_eq_range', bind_of_ok read, buildFrame_eq]
            rw [show takeComponents count.toNat rest = some components from taken]

def selectorsOfPairs : List UInt8 → List ScanSelector
  | id :: tables :: rest =>
      { id := id
        dcTable := highNibble tables
        acTable := lowNibble tables } :: selectorsOfPairs rest
  | _ => []

def scanHeaderOfBytes (body : List UInt8) : Checked CodecError ScanHeader :=
  if body.isEmpty then
    fail (.malformed .emptyScanHeader)
  else do
    let count ← item body 0
    if count = 0 ∨ 4 < count then
      fail (.malformed .scanComponentCount)
    else do
      let offset := 1 + count.toNat * 2
      fits 64 (offset + 3)
      if body.length < offset + 3 then
        fail .unexpectedEnd
      else do
        let pairs ← slice body 1 offset
        let approximation ← item body (offset + 2)
        let first ← item body offset
        let last ← item body (offset + 1)
        if last < first ∨ 63 < last ∨ 13 < lowNibble approximation then
          fail (.malformed .spectralParameters)
        else
          pure
            { selectors := selectorsOfPairs pairs
              band :=
                { first := first.toNat
                  last := last.toNat
                  high := highNibble approximation
                  low := lowNibble approximation } }

def restartIntervalOfBody (body : List UInt8) : Checked CodecError Nat :=
  if body.length < 2 then
    fail .unexpectedEnd
  else do
    let high ← item body 0
    let low ← item body 1
    pure (word high low)

private theorem takeSelectors_of_short {count : Nat} {rest : List UInt8}
    (short : rest.length < count * 2) : takeSelectors count rest = none := by
  fun_induction takeSelectors count rest with
  | case1 => omega
  | case2 count id tables rest inductionHypothesis =>
      rw [inductionHypothesis (by simp only [List.length_cons] at short; omega)]
      rfl
  | case3 => rfl

private theorem takeSelectors_of_le {count : Nat} {rest : List UInt8}
    (enough : count * 2 ≤ rest.length) :
    takeSelectors count rest =
      some (selectorsOfPairs (rest.take (count * 2)), rest.drop (count * 2)) := by
  induction count generalizing rest with
  | zero =>
      rw [Nat.zero_mul]
      cases rest with
      | nil => rfl
      | cons first rest => rfl
  | succ count inductionHypothesis =>
      match rest, enough with
      | [_], enough =>
          rw [List.length_singleton] at enough
          omega
      | id :: tables :: rest, enough =>
          simp only [List.length_cons] at enough
          rw [takeSelectors, inductionHypothesis (by omega), Nat.succ_mul]
          rfl

theorem scanHeaderOfBytes_eq (body : List UInt8) :
    scanHeaderOfBytes body = of (ScanHeader.ofBytes body) := by
  unfold scanHeaderOfBytes ScanHeader.ofBytes
  cases body with
  | nil => rfl
  | cons count rest =>
      have eight := count.toNat_lt
      rw [if_neg (by simp), bind_of_ok (item_of_getElem? (by rfl))]
      dsimp only
      split
      · rfl
      · rw [bind_of_ok (fits_of_lt (by omega)), List.length_cons]
        split
        · rename_i lacking
          -- The check is one of lengths. Taking the body apart finds the same lack at one of two
          -- places.
          by_cases selected : count.toNat * 2 ≤ rest.length
          · have few : (rest.drop (count.toNat * 2)).length < 3 := by
              rw [List.length_drop]
              omega
            rw [takeSelectors_of_le selected]
            match rest.drop (count.toNat * 2), few with
            | [], _ | [_], _ | [_, _], _ => rfl
          · rw [takeSelectors_of_short (by omega)]
            rfl
        · rename_i enough
          have inFirst : count.toNat * 2 < rest.length := by omega
          have inLast : count.toNat * 2 + 1 < rest.length := by omega
          have inThird : count.toNat * 2 + 2 < rest.length := by omega
          rw [takeSelectors_of_le (by omega), List.drop_eq_getElem_cons inFirst,
            List.drop_eq_getElem_cons inLast, List.drop_eq_getElem_cons inThird,
            bind_of_ok (slice_of_le (by omega) (by rw [List.length_cons]; omega)),
            Nat.add_comm 1 (count.toNat * 2), Nat.add_right_comm _ 1 2, item_cons_succ,
            item_cons_succ, item_cons_succ, bind_of_ok (item_of_lt inThird),
            bind_of_ok (item_of_lt inFirst), bind_of_ok (item_of_lt inLast)]
          dsimp only
          split
          · rfl
          · rfl

theorem restartIntervalOfBody_eq (body : List UInt8) :
    restartIntervalOfBody body = of (LosslessJpeg.restartIntervalOfBody body) := by
  match body with
  | [] | [_] => rfl
  | high :: low :: rest =>
      rw [restartIntervalOfBody, if_neg (by simp)]
      rfl

end Checked

end LosslessJpeg
