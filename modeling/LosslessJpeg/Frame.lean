import LosslessJpeg.Bytes
import LosslessJpeg.Error
import LosslessJpeg.Marker.Walk

set_option autoImplicit false

/-!
The frame header: the size of the image, its components and their sampling factors, and
the numbers of blocks and MCUs that follow from them.
-/

namespace LosslessJpeg

structure Component where
  id : UInt8
  across : Nat
  down : Nat
  quantizer : Nat
  deriving DecidableEq, Repr

namespace Component

def transposed (component : Component) : Component :=
  { component with
    across := component.down
    down := component.across }

def Admissible (component : Component) : Prop :=
  0 < component.across ∧ component.across ≤ 4 ∧ 0 < component.down ∧ component.down ≤ 4 ∧
    component.quantizer < 4

instance (component : Component) : Decidable component.Admissible :=
  inferInstanceAs (Decidable (_ ∧ _))

def check (component : Component) : Except CodecError Unit :=
  if component.across = 0 ∨ component.down = 0 ∨ 4 < component.across ∨ 4 < component.down then
    .error .invalidDimensions
  else if 3 < component.quantizer then
    .error (.quantizerId component.quantizer)
  else
    .ok ()

theorem admissible_of_check {component : Component} (passed : component.check = .ok ()) :
    component.Admissible := by
  unfold check at passed
  split at passed
  · cases passed
  · split at passed
    · cases passed
    · unfold Admissible
      omega

end Component

def checkComponents : List Component → Except CodecError Unit
  | [] => .ok ()
  | component :: rest =>
      match component.check with
      | .error failure => .error failure
      | .ok () => checkComponents rest

theorem admissible_of_checkComponents {components : List Component}
    (passed : checkComponents components = .ok ()) :
    ∀ component ∈ components, component.Admissible := by
  induction components with
  | nil =>
      intro component member
      cases member
  | cons first rest inductionHypothesis =>
      unfold checkComponents at passed
      split at passed
      · cases passed
      · rename_i checked
        intro component member
        rcases List.mem_cons.mp member with same | later
        · subst same
          exact Component.admissible_of_check checked
        · exact inductionHypothesis passed component later

/-- A component alone is coded block by block, whatever sampling factors it names. -/
def soleComponent : List Component → List Component
  | [component] => [{ component with across := 1, down := 1 }]
  | components => components

structure Frame where
  width : UInt16
  height : UInt16
  components : List Component
  progressive : Bool
  width_ne_zero : width ≠ 0
  height_ne_zero : height ≠ 0
  components_ne_nil : components ≠ []
  components_length : components.length ≤ 4
  admissible : ∀ component ∈ components, component.Admissible
  deriving DecidableEq

namespace Frame

def build (width height : UInt16) (named : List Component) (progressive : Bool) :
    Except CodecError Frame :=
  let components := soleComponent named
  if nonempty : width ≠ 0 ∧ height ≠ 0 ∧ components ≠ [] ∧ components.length ≤ 4 then
    match checked : checkComponents components with
    | .error failure => .error failure
    | .ok () =>
        .ok
          { width := width
            height := height
            components := components
            progressive := progressive
            width_ne_zero := nonempty.1
            height_ne_zero := nonempty.2.1
            components_ne_nil := nonempty.2.2.1
            components_length := nonempty.2.2.2
            admissible := admissible_of_checkComponents checked }
  else
    .error .invalidDimensions

def maxAcross (frame : Frame) : Nat :=
  (frame.components.map Component.across).foldl max 0

def maxDown (frame : Frame) : Nat :=
  (frame.components.map Component.down).foldl max 0

def mcuWidth (frame : Frame) : Nat :=
  frame.maxAcross * 8

def mcuHeight (frame : Frame) : Nat :=
  frame.maxDown * 8

end Frame

def ceilDiv (count size : Nat) : Nat :=
  (count + size - 1) / size

namespace Frame

def mcusWide (frame : Frame) : Nat :=
  ceilDiv frame.width.toNat frame.mcuWidth

def mcusTall (frame : Frame) : Nat :=
  ceilDiv frame.height.toNat frame.mcuHeight

/-- Blocks in a row of a component, filled up to whole MCUs. -/
def blocksWide (frame : Frame) (component : Component) : Nat :=
  frame.mcusWide * component.across

def blocksTall (frame : Frame) (component : Component) : Nat :=
  frame.mcusTall * component.down

/-- Blocks in a row of a component that hold samples of the image. -/
def imageBlocksWide (frame : Frame) (component : Component) : Nat :=
  ceilDiv (ceilDiv (frame.width.toNat * component.across) frame.maxAcross) 8

def imageBlocksTall (frame : Frame) (component : Component) : Nat :=
  ceilDiv (ceilDiv (frame.height.toNat * component.down) frame.maxDown) 8

end Frame

def Component.bytes (component : Component) : List UInt8 :=
  [component.id, nibbles component.across component.down, UInt8.ofNat component.quantizer]

def takeComponents : Nat → List UInt8 → Option (List Component)
  | 0, _ => some []
  | count + 1, id :: sampling :: quantizer :: rest => do
      let others ← takeComponents count rest
      pure
        ({ id := id
           across := highNibble sampling
           down := lowNibble sampling
           quantizer := quantizer.toNat } :: others)
  | _ + 1, _ => none

namespace Frame

def bytes (frame : Frame) : List UInt8 :=
  8 :: wordBytes frame.height.toNat ++ wordBytes frame.width.toNat ++
    UInt8.ofNat frame.components.length :: frame.components.flatMap Component.bytes

def ofBytes (progressive : Bool) : List UInt8 → Except CodecError Frame
  | precision :: heightHigh :: heightLow :: widthHigh :: widthLow :: count :: rest =>
      let width := UInt16.ofNat (word widthHigh widthLow)
      let height := UInt16.ofNat (word heightHigh heightLow)
      if precision ≠ 8 then
        .error (.unsupportedPrecision precision)
      else if width = 0 ∨ height = 0 then
        .error .invalidDimensions
      else
        match takeComponents count.toNat rest with
        | none => .error .unexpectedEnd
        | some components => build width height components progressive
  | _ => .error .unexpectedEnd

/-- The first frame from an entry on, before any scan or the end of the image. -/
def firstFrom (cursor : Cursor) : Except CodecError Frame :=
  match _ : nextEntry cursor.offset cursor.rest with
  | .error failure => .error failure
  | .ok (entry, next) =>
      match entry.kind with
      | .frame progressive => ofBytes progressive entry.body
      | .scan => .error .missingFrame
      | .endOfImage => .error .missingFrame
      | _ => firstFrom next
termination_by cursor.rest.length
decreasing_by exact nextEntry_length (by assumption)

/-- The frame of a file, read without looking at anything behind its header. -/
def probe (file : List UInt8) : Except CodecError Frame := do
  let (_, cursor) ← afterStart file
  firstFrom cursor

end Frame

end LosslessJpeg
