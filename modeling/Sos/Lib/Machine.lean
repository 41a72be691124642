import Mathlib.Data.Option.Basic

/-!
# `Sos.Lib.Machine`: runs of a state machine

A machine has initial states and a partial step function: `none` says that the action
cannot happen, or that the machine stops in it. A condition `ok` looks at the state before
a step and at the action.

* `Machine.Path`: a run from one state to another whose steps all meet the condition.
* `Machine.Reachable`: the states at the end of such runs from an initial state.
* `Reachable.invariant`: what holds initially, and is kept by every step that meets the
  condition, holds of every reachable state.
* `Path.relation`: what every such step does to a state, a whole run does.
* `Machine.withHistory`: the machine with a record of the run, which does not change it.
* `exists_run`: a run that is evaluated to its end shows its last state reachable.
-/

set_option autoImplicit false

namespace Sos.Lib

/-- Initial states and a partial step function. -/
structure Machine (σ α : Type) where
  init : σ → Prop
  step : σ → α → Option σ

namespace Machine

variable {σ α : Type} {M : Machine σ α} {ok ok' : σ → α → Prop}

/-- A run from one state to another. Every step meets the condition. -/
inductive Path (M : Machine σ α) (ok : σ → α → Prop) : σ → σ → Prop
  | refl (s : σ) : Path M ok s s
  | step {s s₁ s₂ : σ} {a : α} (h : Path M ok s s₁) (hok : ok s₁ a)
      (hs : M.step s₁ a = some s₂) : Path M ok s s₂

/-- The states at the end of a run from an initial state. -/
def Reachable (M : Machine σ α) (ok : σ → α → Prop) (s : σ) : Prop :=
  ∃ s₀, M.init s₀ ∧ M.Path ok s₀ s

/-- Runs without a condition. -/
def anyStep (_ : σ) (_ : α) : Prop := True

instance (s : σ) (a : α) : Decidable (anyStep s a) := inferInstanceAs (Decidable True)

/-- One path after another. -/
theorem Path.trans {s s₁ s₂ : σ} (h : M.Path ok s s₁) (h' : M.Path ok s₁ s₂) :
    M.Path ok s s₂ := by
  induction h' with
  | refl => exact h
  | step _ hok hs ih => exact ih.step hok hs

/-- A path under one condition is a path under any weaker one. -/
theorem Path.mono (hmono : ∀ s a, ok s a → ok' s a) {s s' : σ} (h : M.Path ok s s') :
    M.Path ok' s s' := by
  induction h with
  | refl => exact .refl _
  | step _ hok hs ih => exact ih.step (hmono _ _ hok) hs

/-- A reflexive and transitive relation that every step respects is respected by a run. The
invariant is there for the step to use. -/
theorem Path.relation {I : σ → Prop} (R : σ → σ → Prop) (hrefl : ∀ s, R s s)
    (htrans : ∀ s s₁ s₂, R s s₁ → R s₁ s₂ → R s s₂)
    (hstep : ∀ s a s', I s → ok s a → M.step s a = some s' → I s' ∧ R s s') {s s' : σ}
    (h : M.Path ok s s') (hI : I s) : I s' ∧ R s s' := by
  induction h with
  | refl => exact ⟨hI, hrefl _⟩
  | step _ hok hs ih =>
      have hnext := hstep _ _ _ ih.1 hok hs
      exact ⟨hnext.1, htrans _ _ _ ih.2 hnext.2⟩

/-- What every step keeps is kept along a path. -/
theorem Path.invariant (I : σ → Prop)
    (hstep : ∀ s a s', I s → ok s a → M.step s a = some s' → I s') {s s' : σ}
    (h : M.Path ok s s') (hI : I s) : I s' := by
  induction h with
  | refl => exact hI
  | step _ hok hs ih => exact hstep _ _ _ ih hok hs

/-- The rule for reachable states: the property holds initially, and every step that meets
the condition keeps it. -/
theorem Reachable.invariant (I : σ → Prop) (hinit : ∀ s, M.init s → I s)
    (hstep : ∀ s a s', I s → ok s a → M.step s a = some s' → I s') {s : σ}
    (h : M.Reachable ok s) : I s := by
  obtain ⟨s₀, h₀, hpath⟩ := h
  exact hpath.invariant I hstep (hinit s₀ h₀)

/-- A state reached under one condition is reached under any weaker one. -/
theorem Reachable.mono (hmono : ∀ s a, ok s a → ok' s a) {s : σ} (h : M.Reachable ok s) :
    M.Reachable ok' s := by
  obtain ⟨s₀, h₀, hpath⟩ := h
  exact ⟨s₀, h₀, hpath.mono hmono⟩

/-- A path from a reachable state leads to a reachable state. -/
theorem Reachable.path {s s' : σ} (h : M.Reachable ok s) (hpath : M.Path ok s s') :
    M.Reachable ok s' := by
  obtain ⟨s₀, h₀, h₁⟩ := h
  exact ⟨s₀, h₀, h₁.trans hpath⟩

/-! ### History -/

/-- The machine with a record of what has happened. The record does not change the steps. -/
def withHistory (M : Machine σ α) {η : Type} (start : η) (record : σ → α → σ → η → η) :
    Machine (σ × η) α where
  init x := M.init x.1 ∧ x.2 = start
  step x a := (M.step x.1 a).map fun s' => (s', record x.1 a s' x.2)

/-- A condition on the steps of a machine, for the machine with a record. -/
def onState {η : Type} (ok : σ → α → Prop) (x : σ × η) (a : α) : Prop := ok x.1 a

instance {η : Type} [∀ s a, Decidable (ok s a)] (x : σ × η) (a : α) :
    Decidable (onState ok x a) := inferInstanceAs (Decidable (ok x.1 a))

section

variable {η : Type} {start : η} {record : σ → α → σ → η → η}

/-- A step with a history is a step, and the history is what is recorded of it. -/
theorem withHistory_step {x x' : σ × η} {a : α}
    (h : (M.withHistory start record).step x a = some x') :
    M.step x.1 a = some x'.1 ∧ x'.2 = record x.1 a x'.1 x.2 := by
  obtain ⟨s', hs', rfl⟩ := Option.map_eq_some_iff.mp h
  exact ⟨hs', rfl⟩

/-- A run with a record is a run. -/
theorem Reachable.of_withHistory {x : σ × η}
    (h : (M.withHistory start record).Reachable (onState ok) x) : M.Reachable ok x.1 := by
  obtain ⟨x₀, h₀, hpath⟩ := h
  refine ⟨x₀.1, h₀.1, ?_⟩
  induction hpath with
  | refl => exact .refl _
  | step _ hok hs ih => exact ih.step hok (withHistory_step hs).1

/-- Every run has a record. -/
theorem Reachable.withHistory {s : σ} (h : M.Reachable ok s) :
    ∃ r, (M.withHistory start record).Reachable (onState ok) (s, r) := by
  obtain ⟨s₀, h₀, hpath⟩ := h
  induction hpath with
  | refl => exact ⟨start, _, ⟨h₀, rfl⟩, .refl _⟩
  | @step s₁ s₂ a _ hok hs ih =>
      obtain ⟨r, x₀, hx₀, hpath'⟩ := ih
      refine ⟨record s₁ a s₂ r, x₀, hx₀, hpath'.step hok ?_⟩
      show (M.step s₁ a).map _ = _
      rw [hs]
      rfl

end

section

variable (M) (ok) [∀ s a, Decidable (ok s a)]

/-- A run whose steps are checked against the condition. -/
def runIf (s : σ) : List α → Option σ
  | [] => some s
  | a :: actions =>
    if ok s a then (M.step s a).bind fun s' => runIf s' actions else none

variable {M ok}

/-- A run that has been computed is a path. -/
theorem path_runIf {s s' : σ} {actions : List α} (h : M.runIf ok s actions = some s') :
    M.Path ok s s' := by
  induction actions generalizing s with
  | nil =>
      rw [runIf, Option.some.injEq] at h
      exact h ▸ .refl s
  | cons a actions ih =>
      rw [runIf] at h
      split at h
      next hok =>
        rw [Option.bind_eq_some_iff] at h
        obtain ⟨s₁, hs₁, hrun⟩ := h
        exact Path.trans (.step (.refl s) hok hs₁) (ih hrun)
      next => cases h

/-- A run that is evaluated to its end. -/
theorem exists_run (M : Machine σ α) (ok : σ → α → Prop) [∀ s a, Decidable (ok s a)] {s : σ}
    (hs : M.init s) (actions : List α) (P : σ → Prop) [DecidablePred P]
    (h : (M.runIf ok s actions).any fun s' => P s') :
    ∃ s', M.runIf ok s actions = some s' ∧ M.Reachable ok s' ∧ P s' := by
  rw [Option.any_eq_true] at h
  obtain ⟨s', hs', hP⟩ := h
  exact ⟨s', hs', ⟨s, hs, path_runIf hs'⟩, of_decide_eq_true hP⟩

end

end Machine

end Sos.Lib
