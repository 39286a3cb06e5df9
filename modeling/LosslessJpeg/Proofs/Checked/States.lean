import LosslessJpeg.Proofs.Checked.Basic

set_option autoImplicit false

/-!
Checked steps that carry a state. What a step of the model does with its state, the checked
step does with a state that stands for it.
-/

namespace LosslessJpeg

namespace Checked

variable {ε σ α β : Type} {state : σ}

def lift (step : Checked ε α) : CheckedState ε σ α :=
  StateT.lift step

theorem run_lift {step : Checked ε α} {next : α → CheckedState ε σ β} {value : α}
    (done : step = .ok value) : (lift step >>= next) state = next value state := by
  rw [done]
  rfl

theorem run_get {next : σ → CheckedState ε σ β} :
    ((get : CheckedState ε σ σ) >>= next) state = next state state :=
  rfl

theorem run_set {changed : σ} {next : PUnit → CheckedState ε σ β} :
    ((set changed : CheckedState ε σ PUnit) >>= next) state = next ⟨⟩ changed :=
  rfl

end Checked

/-- A checked step with a state comes to no fault. It gives a value and a state that are related
to those of the model, or reports the same failure. -/
inductive FollowsState {ε σ τ α β : Type} (values : α → β → Prop) (states : σ → τ → Prop) :
    Checked ε (α × σ) → EStateM.Result ε τ β → Prop
  | ok {value : α} {other : β} {state : σ} {otherState : τ} (same : values value other)
      (related : states state otherState) :
      FollowsState values states (.ok (value, state)) (.ok other otherState)
  | failure (cause : ε) (otherState : τ) :
      FollowsState values states (.error (.failure cause)) (.error cause otherState)

namespace FollowsState

variable {ε σ τ α β γ δ : Type} {values : α → β → Prop} {states : σ → τ → Prop}
  {nextValues : γ → δ → Prop} {nextStates : σ → τ → Prop} {state : σ} {otherState : τ}

theorem bindDone {step : CheckedState ε σ α} {other : EStateM ε τ β}
    {next : α → CheckedState ε σ γ} {otherNext : β → EStateM ε τ δ}
    (first : FollowsState values states (step state) (other otherState))
    (later : ∀ value otherValue after otherAfter, values value otherValue →
      states after otherAfter → other otherState = .ok otherValue otherAfter →
        FollowsState nextValues nextStates (next value after) (otherNext otherValue otherAfter)) :
    FollowsState nextValues nextStates ((step >>= next) state)
      ((other >>= otherNext) otherState) := by
  change FollowsState nextValues nextStates (step state >>= fun done => next done.1 done.2) _
  generalize step state = result at first
  cases same : other otherState with
  | ok value after =>
      rw [same] at first
      rw [run_bind_of_ok same]
      cases first with
      | ok alike related => exact later _ _ _ _ alike related same
  | error cause after =>
      rw [same] at first
      rw [run_bind_of_error same]
      cases first with
      | failure => exact .failure cause after

theorem bind {step : CheckedState ε σ α} {other : EStateM ε τ β} {next : α → CheckedState ε σ γ}
    {otherNext : β → EStateM ε τ δ}
    (first : FollowsState values states (step state) (other otherState))
    (later : ∀ value otherValue after otherAfter, values value otherValue →
      states after otherAfter →
        FollowsState nextValues nextStates (next value after) (otherNext otherValue otherAfter)) :
    FollowsState nextValues nextStates ((step >>= next) state)
      ((other >>= otherNext) otherState) :=
  first.bindDone fun value otherValue after otherAfter same related _ =>
    later value otherValue after otherAfter same related

theorem mono {step : Checked ε (α × σ)} {other : EStateM.Result ε τ β}
    (follows : FollowsState values states step other) {further : σ → τ → Prop}
    (more : ∀ after otherAfter, states after otherAfter → further after otherAfter) :
    FollowsState values further step other := by
  cases follows with
  | ok same related => exact .ok same (more _ _ related)
  | failure cause after => exact .failure cause after

theorem monoValues {step : Checked ε (α × σ)} {other : EStateM.Result ε τ β}
    (follows : FollowsState values states step other) {further : α → β → Prop}
    (more : ∀ value otherValue, values value otherValue → further value otherValue) :
    FollowsState further states step other := by
  cases follows with
  | ok same related => exact .ok (more _ _ same) related
  | failure cause after => exact .failure cause after

/-- A step may do more that the model has no need of. -/
theorem alone {step : CheckedState ε σ α} {other : EStateM.Result ε τ β}
    {next : α → CheckedState ε σ γ} {nextValues : γ → β → Prop}
    (first : FollowsState values states (step state) other)
    (later : ∀ value otherValue after otherAfter, values value otherValue →
      states after otherAfter →
        FollowsState nextValues nextStates (next value after) (.ok otherValue otherAfter)) :
    FollowsState nextValues nextStates ((step >>= next) state) other := by
  change FollowsState _ _ (step state >>= fun done => next done.1 done.2) _
  generalize step state = result at first
  cases first with
  | ok same related => exact later _ _ _ _ same related
  | failure cause after => exact .failure cause after

end FollowsState

end LosslessJpeg
