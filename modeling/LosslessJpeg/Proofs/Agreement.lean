import LosslessJpeg.Proofs.Sequencing

set_option autoImplicit false

/-!
Two runs side by side from states that are related: they end in related states with the same
value, or with the same failure, and only with a failure that is admitted.
-/

namespace LosslessJpeg

variable {ε σ α β : Type} {admits : ε → Prop} {related : σ → σ → Prop}

inductive EndsAlike (admits : ε → Prop) (related : σ → σ → Prop) :
    EStateM.Result ε σ α → EStateM.Result ε σ α → Prop
  | ok (value : α) {after other : σ} (same : related after other) :
      EndsAlike admits related (.ok value after) (.ok value other)
  | error {failure : ε} {after other : σ} (admitted : admits failure)
      (same : related after other) :
      EndsAlike admits related (.error failure after) (.error failure other)

namespace EndsAlike

theorem stateAfter {result other : EStateM.Result ε σ α}
    (ends : EndsAlike admits related result other) :
    related (LosslessJpeg.stateAfter result) (LosslessJpeg.stateAfter other) := by
  cases ends with
  | ok value same => exact same
  | error admitted same => exact same

theorem imp {looser : σ → σ → Prop} (weaker : ∀ state other, related state other →
    looser state other) {result other : EStateM.Result ε σ α}
    (ends : EndsAlike admits related result other) : EndsAlike admits looser result other := by
  cases ends with
  | ok value same => exact .ok value (weaker _ _ same)
  | error admitted same => exact .error admitted (weaker _ _ same)

end EndsAlike

def RunsAlike (admits : ε → Prop) (related : σ → σ → Prop) (step other : EStateM ε σ α) : Prop :=
  ∀ before otherBefore, related before otherBefore →
    EndsAlike admits related (step before) (other otherBefore)

namespace RunsAlike

theorem ofPure (value : α) :
    RunsAlike admits related (pure value : EStateM ε σ α) (pure value) :=
  fun _ _ same => .ok value same

theorem ofThrow {failure : ε} (admitted : admits failure) :
    RunsAlike admits related (throw failure : EStateM ε σ α) (throw failure) :=
  fun _ _ same => .error admitted same

theorem bind {step other : EStateM ε σ α} {next otherNext : α → EStateM ε σ β}
    (first : RunsAlike admits related step other)
    (later : ∀ value, RunsAlike admits related (next value) (otherNext value)) :
    RunsAlike admits related (step >>= next) (other >>= otherNext) := by
  intro before otherBefore same
  have here := first before otherBefore same
  generalize done : step before = result at here
  generalize otherDone : other otherBefore = otherResult at here
  cases here with
  | ok value sameAfter =>
      rw [run_bind_of_ok done, run_bind_of_ok otherDone]
      exact later value _ _ sameAfter
  | error admitted sameAfter =>
      rw [run_bind_of_error done, run_bind_of_error otherDone]
      exact .error admitted sameAfter

theorem ofGet {next otherNext : σ → EStateM ε σ β}
    (later : ∀ state other, related state other →
      RunsAlike admits related (next state) (otherNext other)) :
    RunsAlike admits related (get >>= next) (get >>= otherNext) :=
  fun before otherBefore same => later before otherBefore same before otherBefore same

theorem ofModify {change otherChange : σ → σ}
    (each : ∀ state other, related state other → related (change state) (otherChange other)) :
    RunsAlike admits related (modify change : EStateM ε σ PUnit) (modify otherChange) :=
  fun before otherBefore same => .ok _ (each before otherBefore same)

theorem ofForM {items : List α} {step other : α → EStateM ε σ PUnit}
    (each : ∀ item ∈ items, RunsAlike admits related (step item) (other item)) :
    RunsAlike admits related (items.forM step) (items.forM other) := by
  induction items with
  | nil => exact ofPure _
  | cons item rest inductionHypothesis =>
      exact bind (each item List.mem_cons_self) fun _ =>
        inductionHypothesis fun next member => each next (List.mem_cons_of_mem _ member)

theorem ofMapM {items : List α} {step other : α → EStateM ε σ β}
    (each : ∀ item ∈ items, RunsAlike admits related (step item) (other item)) :
    RunsAlike admits related (items.mapM step) (items.mapM other) := by
  induction items with
  | nil => exact ofPure _
  | cons item rest inductionHypothesis =>
      rw [List.mapM_cons, List.mapM_cons]
      refine bind (each item List.mem_cons_self) fun _ => bind ?_ fun _ => ofPure _
      exact inductionHypothesis fun next member => each next (List.mem_cons_of_mem _ member)

theorem mono {step other : EStateM ε σ α} {further : ε → Prop}
    (more : ∀ failure, admits failure → further failure)
    (runs : RunsAlike admits related step other) : RunsAlike further related step other := by
  intro before otherBefore same
  have ends := runs before otherBefore same
  generalize step before = result at ends ⊢
  generalize other otherBefore = otherResult at ends ⊢
  cases ends with
  | ok value sameAfter => exact .ok value sameAfter
  | error admitted sameAfter => exact .error (more _ admitted) sameAfter

theorem eq_ok {step other : EStateM ε σ α} {before otherBefore : σ}
    (runs : RunsAlike (fun _ => False) related step other)
    (same : related before otherBefore) :
    ∃ value after otherAfter, step before = .ok value after ∧
      other otherBefore = .ok value otherAfter ∧ related after otherAfter := by
  have ends := runs before otherBefore same
  generalize step before = result at ends
  generalize other otherBefore = otherResult at ends
  cases ends with
  | ok value sameAfter => exact ⟨value, _, _, rfl, rfl, sameAfter⟩
  | error admitted sameAfter => exact admitted.elim

end RunsAlike

end LosslessJpeg
