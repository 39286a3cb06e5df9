import Mathlib.Data.List.Forall2

set_option autoImplicit false

/-!
Running steps one after the other, for computations that fail and for those that also
carry a state.
-/

namespace LosslessJpeg

section Stateful

variable {ε σ α β : Type}

theorem run_bind_of_ok {step : EStateM ε σ α} {next : α → EStateM ε σ β}
    {before after : σ} {value : α} (done : step before = .ok value after) :
    (step >>= next) before = next value after := by
  change EStateM.bind step next before = _
  rw [EStateM.bind, done]

theorem run_bind_of_error {step : EStateM ε σ α} {next : α → EStateM ε σ β}
    {before after : σ} {failure : ε} (failed : step before = .error failure after) :
    (step >>= next) before = .error failure after := by
  change EStateM.bind step next before = _
  rw [EStateM.bind, failed]

theorem run_bind_congr {step other : EStateM ε σ α} {next : α → EStateM ε σ β} {state : σ}
    (same : step state = other state) : (step >>= next) state = (other >>= next) state := by
  change EStateM.bind step next state = EStateM.bind other next state
  unfold EStateM.bind
  rw [same]

theorem run_bind_eq_ok {step : EStateM ε σ α} {next : α → EStateM ε σ β}
    {before after : σ} {result : β} (done : (step >>= next) before = .ok result after) :
    ∃ value between, step before = .ok value between ∧
      next value between = .ok result after := by
  cases first : step before with
  | ok value between =>
      rw [run_bind_of_ok first] at done
      exact ⟨value, between, rfl, done⟩
  | error failure between =>
      rw [run_bind_of_error first] at done
      cases done

theorem run_map_eq_error {step : EStateM ε σ α} {change : α → β} {before after : σ} {failure : ε} :
    (change <$> step) before = .error failure after ↔ step before = .error failure after := by
  change EStateM.map change step before = _ ↔ _
  unfold EStateM.map
  cases step before with
  | ok value between =>
      constructor
      · intro impossible
        cases impossible
      · intro impossible
        cases impossible
  | error other between =>
      constructor
      · intro failed
        cases failed
        rfl
      · intro failed
        cases failed
        rfl

instance decidableEqResult [DecidableEq ε] [DecidableEq σ] [DecidableEq α] :
    DecidableEq (EStateM.Result ε σ α)
  | .ok value after, .ok otherValue otherAfter =>
      decidable_of_iff (value = otherValue ∧ after = otherAfter)
        (EStateM.Result.ok.injEq value after otherValue otherAfter).symm.to_iff
  | .error failure after, .error otherFailure otherAfter =>
      decidable_of_iff (failure = otherFailure ∧ after = otherAfter)
        (EStateM.Result.error.injEq failure after otherFailure otherAfter).symm.to_iff
  | .ok _ _, .error _ _ => .isFalse nofun
  | .error _ _, .ok _ _ => .isFalse nofun

/-- The state in which a run ends, whether with a value or with a failure. -/
def stateAfter : EStateM.Result ε σ α → σ
  | .ok _ after => after
  | .error _ after => after

/-- From states with one property a run leads to states with another, whatever it ends in. -/
def Leads (before after : σ → Prop) (step : EStateM ε σ α) : Prop :=
  ∀ state, before state → after (stateAfter (step state))

theorem Leads.bind {before between after : σ → Prop} {step : EStateM ε σ α}
    {next : α → EStateM ε σ β} (first : Leads before between step)
    (onward : ∀ state, between state → after state)
    (later : ∀ state value reached, step state = .ok value reached →
      Leads between after (next value)) :
    Leads before after (step >>= next) := by
  intro state holds
  have here := first state holds
  cases done : step state with
  | ok value reached =>
      rw [done] at here
      rw [run_bind_of_ok done]
      exact later state value reached done reached here
  | error failure reached =>
      rw [done] at here
      rw [run_bind_of_error done]
      exact onward reached here

@[simp]
theorem run_get (state : σ) : (get : EStateM ε σ σ) state = .ok state state :=
  rfl

@[simp]
theorem run_modify (change : σ → σ) (state : σ) :
    (modify change : EStateM ε σ PUnit) state = .ok ⟨⟩ (change state) :=
  rfl

@[simp]
theorem run_pure (value : α) (state : σ) :
    (pure value : EStateM ε σ α) state = .ok value state :=
  rfl

end Stateful

section Failing

variable {ε α β : Type}

theorem bind_of_ok {step : Except ε α} {next : α → Except ε β} {value : α}
    (done : step = .ok value) : (step >>= next) = next value := by
  rw [done]
  rfl

theorem bind_eq_ok {step : Except ε α} {next : α → Except ε β} {result : β}
    (done : (step >>= next) = .ok result) :
    ∃ value, step = .ok value ∧ next value = .ok result := by
  cases first : step with
  | ok value =>
      rw [bind_of_ok first] at done
      exact ⟨value, rfl, done⟩
  | error failure =>
      rw [first] at done
      cases done

theorem bind_eq_error {step : Except ε α} {next : α → Except ε β} {failure : ε}
    (failed : (step >>= next) = .error failure) :
    step = .error failure ∨ ∃ value, step = .ok value ∧ next value = .error failure := by
  cases first : step with
  | ok value =>
      rw [bind_of_ok first] at failed
      exact Or.inr ⟨value, rfl, failed⟩
  | error other =>
      rw [first] at failed
      cases failed
      exact Or.inl rfl

theorem map_eq_ok {step : Except ε α} {change : α → β} {result : β}
    (done : step.map change = .ok result) : ∃ value, step = .ok value ∧ change value = result := by
  cases step with
  | ok value =>
      cases done
      exact ⟨value, rfl, rfl⟩
  | error failure => cases done

theorem mapError_eq_ok {φ : Type} {step : Except ε α} {rename : ε → φ} {result : α} :
    step.mapError rename = .ok result ↔ step = .ok result := by
  cases step with
  | ok value =>
      constructor
      · intro done
        cases done
        rfl
      · intro done
        cases done
        rfl
  | error failure =>
      constructor
      · intro done
        cases done
      · intro done
        cases done

/-- What every step that succeeds preserves, going over a list preserves. -/
theorem foldlM_preserves {step : β → α → Except ε β} (holds : β → Prop) {items : List α}
    (each : ∀ item ∈ items, ∀ before after, holds before → step before item = .ok after →
      holds after) {start stop : β} (initially : holds start)
    (done : items.foldlM step start = .ok stop) : holds stop := by
  induction items generalizing start with
  | nil =>
      cases done
      exact initially
  | cons item rest inductionHypothesis =>
      rw [List.foldlM_cons] at done
      obtain ⟨between, first, later⟩ := bind_eq_ok done
      exact inductionHypothesis
        (fun other member => each other (List.mem_cons_of_mem _ member))
        (each item List.mem_cons_self start between initially first) later

/-- Two runs over a list, where every step of the first has one of the second alongside. -/
theorem foldlM_alongside {γ : Type} {step : β → α → Except ε β} {otherStep : γ → α → Except ε γ}
    (alike : β → γ → Prop) {items : List α}
    (each : ∀ item ∈ items, ∀ before other after, alike before other →
      step before item = .ok after →
        ∃ otherAfter, otherStep other item = .ok otherAfter ∧ alike after otherAfter)
    {start stop : β} {otherStart : γ} (initially : alike start otherStart)
    (done : items.foldlM step start = .ok stop) :
    ∃ otherStop, items.foldlM otherStep otherStart = .ok otherStop ∧ alike stop otherStop := by
  induction items generalizing start otherStart with
  | nil =>
      cases done
      exact ⟨otherStart, rfl, initially⟩
  | cons item rest inductionHypothesis =>
      rw [List.foldlM_cons] at done
      obtain ⟨between, first, later⟩ := bind_eq_ok done
      obtain ⟨otherBetween, otherFirst, still⟩ :=
        each item List.mem_cons_self start otherStart between initially first
      rw [List.foldlM_cons, bind_of_ok otherFirst]
      exact inductionHypothesis
        (fun other member => each other (List.mem_cons_of_mem _ member)) still later

theorem mapM_eq_ok_iff {step : α → Except ε β} {items : List α} {results : List β} :
    items.mapM step = .ok results ↔
      List.Forall₂ (fun item result => step item = .ok result) items results := by
  induction items generalizing results with
  | nil =>
      rw [List.mapM_nil, List.forall₂_nil_left_iff]
      constructor
      · intro done
        cases done
        rfl
      · intro empty
        rw [empty]
        rfl
  | cons item rest inductionHypothesis =>
      rw [List.mapM_cons, List.forall₂_cons_left_iff]
      constructor
      · intro done
        obtain ⟨result, first, later⟩ := bind_eq_ok done
        obtain ⟨others, walked, last⟩ := bind_eq_ok later
        cases last
        exact ⟨result, others, first, inductionHypothesis.mp walked, rfl⟩
      · rintro ⟨result, others, first, walked, rfl⟩
        rw [bind_of_ok first, bind_of_ok (inductionHypothesis.mpr walked)]
        rfl

theorem mapM_eq_ok_mem {step : α → Except ε β} {items : List α} {results : List β}
    (done : items.mapM step = .ok results) {result : β} (member : result ∈ results) :
    ∃ item ∈ items, step item = .ok result := by
  obtain ⟨length, each⟩ := List.forall₂_iff_get.mp (mapM_eq_ok_iff.mp done)
  obtain ⟨place, inside, rfl⟩ := List.getElem_of_mem member
  exact ⟨items[place], List.getElem_mem _, each place (length ▸ inside) inside⟩

theorem mapM_eq_error {step : α → Except ε β} {items : List α} {failure : ε}
    (failed : items.mapM step = .error failure) : ∃ item ∈ items, step item = .error failure := by
  induction items with
  | nil => cases failed
  | cons item rest inductionHypothesis =>
      rw [List.mapM_cons] at failed
      rcases bind_eq_error failed with first | ⟨result, -, later⟩
      · exact ⟨item, List.mem_cons_self, first⟩
      · rcases bind_eq_error later with walked | ⟨others, -, last⟩
        · obtain ⟨other, member, found⟩ := inductionHypothesis walked
          exact ⟨other, List.mem_cons_of_mem _ member, found⟩
        · cases last

theorem mapM_of_forall {step : α → Except ε β} {items : List α} {holds : α → β → Prop}
    (each : ∀ item ∈ items, ∃ result, step item = .ok result ∧ holds item result) :
    ∃ results, items.mapM step = .ok results ∧ List.Forall₂ holds items results := by
  induction items with
  | nil => exact ⟨[], rfl, .nil⟩
  | cons item rest inductionHypothesis =>
      obtain ⟨result, first, here⟩ := each item List.mem_cons_self
      obtain ⟨results, walked, later⟩ := inductionHypothesis fun other member =>
        each other (List.mem_cons_of_mem _ member)
      refine ⟨result :: results, ?_, .cons here later⟩
      rw [List.mapM_cons, bind_of_ok first, bind_of_ok walked]
      rfl

/-- A step that fails, if it does, in a way that is admitted. -/
def FailsOnly (admits : ε → Prop) (step : Except ε α) : Prop :=
  ∀ failure, step = .error failure → admits failure

namespace FailsOnly

variable {admits : ε → Prop}

theorem ofOk (value : α) : FailsOnly admits (.ok value) :=
  nofun

theorem ofError {failure : ε} (admitted : admits failure) :
    FailsOnly admits (.error failure : Except ε α) := by
  intro other failed
  cases failed
  exact admitted

theorem bind {step : Except ε α} {next : α → Except ε β} (first : FailsOnly admits step)
    (later : ∀ value, step = .ok value → FailsOnly admits (next value)) :
    FailsOnly admits (step >>= next) := by
  intro failure failed
  rcases bind_eq_error failed with here | ⟨value, done, there⟩
  · exact first failure here
  · exact later value done failure there

theorem ofMapM {step : α → Except ε β} {items : List α}
    (each : ∀ item ∈ items, FailsOnly admits (step item)) : FailsOnly admits (items.mapM step) := by
  intro failure failed
  obtain ⟨item, member, found⟩ := mapM_eq_error failed
  exact each item member failure found

theorem ofFoldlM {step : β → α → Except ε β} {items : List α}
    (each : ∀ item ∈ items, ∀ state, FailsOnly admits (step state item)) (start : β) :
    FailsOnly admits (items.foldlM step start) := by
  induction items generalizing start with
  | nil => exact ofOk start
  | cons item rest inductionHypothesis =>
      rw [List.foldlM_cons]
      refine bind (each item List.mem_cons_self start) fun state _ => ?_
      exact inductionHypothesis (fun other member => each other (List.mem_cons_of_mem _ member))
        state

end FailsOnly

end Failing

end LosslessJpeg
