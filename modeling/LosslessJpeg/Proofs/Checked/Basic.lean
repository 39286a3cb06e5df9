import LosslessJpeg.Proofs.Sequencing
import Mathlib.Algebra.Ring.Nat

set_option autoImplicit false

/-!
Checked steps. Before an operation on numbers of limited size, an access to a list or a
division, its condition is checked, and a check that does not hold is a fault. Positions and
sizes are numbers of 64 bits. A checked step follows a step of the model if it comes to no
fault and ends like it.
-/

namespace LosslessJpeg

/-- What can go wrong with an operation on machine numbers or with an access. -/
inductive Fault
  | index
  | slice
  | overflow
  | underflow
  | divisor
  | shift
  | assertion
  deriving DecidableEq, Repr

/-- Why a checked step ends early: by a fault, which nothing catches, or by a failure that the
program reports. -/
inductive Stop (ε : Type)
  | fault (fault : Fault)
  | failure (cause : ε)
  deriving DecidableEq, Repr

def Stop.map {ε δ : Type} (change : ε → δ) : Stop ε → Stop δ
  | .fault kind => .fault kind
  | .failure cause => .failure (change cause)

abbrev Checked (ε α : Type) := Except (Stop ε) α

abbrev CheckedState (ε σ α : Type) := StateT σ (Except (Stop ε)) α

namespace Checked

variable {ε α β : Type}

def fail (cause : ε) : Checked ε α :=
  .error (.failure cause)

/-- A step that makes no access and no operation that could go wrong. -/
def of (result : Except ε α) : Checked ε α :=
  result.mapError Stop.failure

/-- A step with its failures as those of an operation; its faults stay. -/
def renamed {δ : Type} (change : ε → δ) (step : Checked ε α) : Checked δ α :=
  step.mapError (Stop.map change)

def require (fault : Fault) (condition : Prop) [Decidable condition] : Checked ε Unit :=
  if condition then .ok () else .error (.fault fault)

def fits (bits value : Nat) : Checked ε Unit :=
  require .overflow (value < 2 ^ bits)

def fitsSigned (value : Int) : Checked ε Unit :=
  require .overflow (-2147483648 ≤ value ∧ value < 2147483648)

def covers (value taken : Nat) : Checked ε Unit :=
  require .underflow (taken ≤ value)

def divides (divisor : Nat) : Checked ε Unit :=
  require .divisor (divisor ≠ 0)

def shifts (bits places : Nat) : Checked ε Unit :=
  require .shift (places < bits)

def inside (length index : Nat) : Checked ε Unit :=
  require .index (index < length)

def item (list : List α) (index : Nat) : Checked ε α :=
  match list[index]? with
  | some value => .ok value
  | none => .error (.fault .index)

def bounds (length start stop : Nat) : Checked ε Unit :=
  require .slice (start ≤ stop ∧ stop ≤ length)

def slice (list : List α) (start stop : Nat) : Checked ε (List α) := do
  bounds list.length start stop
  pure ((list.take stop).drop start)

theorem require_of_holds {fault : Fault} {condition : Prop} [Decidable condition]
    (holds : condition) : (require fault condition : Checked ε Unit) = .ok () :=
  if_pos holds

theorem fits_of_lt {bits value : Nat} (small : value < 2 ^ bits) :
    (fits bits value : Checked ε Unit) = .ok () :=
  if_pos small

theorem fitsSigned_of_bounds {value : Int} (lower : -2147483648 ≤ value)
    (upper : value < 2147483648) : (fitsSigned value : Checked ε Unit) = .ok () :=
  if_pos ⟨lower, upper⟩

theorem covers_of_le {value taken : Nat} (enough : taken ≤ value) :
    (covers value taken : Checked ε Unit) = .ok () :=
  if_pos enough

theorem divides_of_ne {divisor : Nat} (nonzero : divisor ≠ 0) :
    (divides divisor : Checked ε Unit) = .ok () :=
  if_pos nonzero

theorem shifts_of_lt {bits places : Nat} (few : places < bits) :
    (shifts bits places : Checked ε Unit) = .ok () :=
  if_pos few

theorem inside_of_lt {length index : Nat} (below : index < length) :
    (inside length index : Checked ε Unit) = .ok () :=
  if_pos below

theorem item_of_getElem? {list : List α} {index : Nat} {value : α}
    (there : list[index]? = some value) : (item list index : Checked ε α) = .ok value := by
  rw [item, there]

theorem item_of_lt {list : List α} {index : Nat} (below : index < list.length) :
    (item list index : Checked ε α) = .ok list[index] :=
  item_of_getElem? (List.getElem?_eq_getElem below)

theorem bounds_of_le {length start stop : Nat} (ordered : start ≤ stop) (within : stop ≤ length) :
    (bounds length start stop : Checked ε Unit) = .ok () :=
  if_pos ⟨ordered, within⟩

theorem slice_of_le {list : List α} {start stop : Nat} (ordered : start ≤ stop)
    (within : stop ≤ list.length) :
    (slice list start stop : Checked ε (List α)) = .ok ((list.take stop).drop start) := by
  rw [slice, bind_of_ok (bounds_of_le ordered within)]
  rfl

theorem of_ok (value : α) : (of (.ok value) : Checked ε α) = .ok value :=
  rfl

theorem of_bind (step : Except ε α) (next : α → Except ε β) :
    of (step >>= next) = of step >>= fun value => of (next value) := by
  cases step with
  | ok value => rfl
  | error cause => rfl

/-- What follows a step of the model follows what the model goes on with. -/
theorem of_bind_congr {step : Checked ε α} {result : Except ε α}
    {next : α → Checked ε β} {otherNext : α → Except ε β} (same : step = of result)
    (later : ∀ value, result = .ok value → next value = of (otherNext value)) :
    step >>= next = of (result >>= otherNext) := by
  rw [same]
  cases result with
  | ok value => exact later value rfl
  | error cause => rfl

theorem renamed_of {δ : Type} (change : ε → δ) (result : Except ε α) :
    renamed change (of result) = of (result.mapError change) := by
  cases result with
  | ok value => rfl
  | error cause => rfl

end Checked

/-- A checked step comes to no fault. It gives a value that is related to that of the model, or
reports the same failure. -/
inductive Follows {ε α β : Type} (related : α → β → Prop) :
    Checked ε α → Except ε β → Prop
  | ok {value : α} {other : β} (same : related value other) :
      Follows related (.ok value) (.ok other)
  | failure (cause : ε) : Follows related (.error (.failure cause)) (.error cause)

namespace Follows

variable {ε α β γ δ : Type} {related : α → β → Prop} {relatedNext : γ → δ → Prop}

theorem bind {step : Checked ε α} {other : Except ε β} {next : α → Checked ε γ}
    {otherNext : β → Except ε δ} (first : Follows related step other)
    (later : ∀ value otherValue, related value otherValue →
      Follows relatedNext (next value) (otherNext otherValue)) :
    Follows relatedNext (step >>= next) (other >>= otherNext) := by
  cases first with
  | ok same => exact later _ _ same
  | failure cause => exact .failure cause

theorem map {step : Checked ε α} {other : Except ε β} {change : α → γ} {otherChange : β → δ}
    (follows : Follows related step other)
    (each : ∀ value otherValue, related value otherValue →
      relatedNext (change value) (otherChange otherValue)) :
    Follows relatedNext (change <$> step) (otherChange <$> other) := by
  cases follows with
  | ok same => exact .ok (each _ _ same)
  | failure cause => exact .failure cause

theorem foldlM {step : α → γ → Checked ε α} {otherStep : β → γ → Except ε β} {items : List γ}
    (each : ∀ item ∈ items, ∀ value other, related value other →
      Follows related (step value item) (otherStep other item)) {value : α} {other : β}
    (start : related value other) :
    Follows related (items.foldlM step value) (items.foldlM otherStep other) := by
  induction items generalizing value other with
  | nil => exact .ok start
  | cons item rest inductionHypothesis =>
      rw [List.foldlM_cons, List.foldlM_cons]
      exact (each item List.mem_cons_self value other start).bind fun _ _ =>
        inductionHypothesis fun later member => each later (List.mem_cons_of_mem item member)

theorem eq_of {step : Checked ε α} {other : Except ε α} (follows : Follows Eq step other) :
    step = Checked.of other := by
  cases follows with
  | ok same => rw [same, Checked.of_ok]
  | failure cause => rfl

end Follows

end LosslessJpeg
