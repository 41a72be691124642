import Mathlib.Data.Option.Basic

/-!
# `Sos.Lib.While`: loops that end by themselves

The body of a `while` loop gives the next state, or the result with which the loop is left; it can
fail. `iterate` runs it for a number of turns at most, and has no result when that is not enough.

* `iterate_ends`: with an invariant, and a number that every turn makes smaller, the loop ends.
* `iterate_runs_on`: when every turn leads to another one, it never does.
* `iterate_unique`: the result does not depend on the number of turns that are allowed.
-/

set_option autoImplicit false

namespace Sos.Lib

variable {σ β : Type} {body : σ → Option (σ ⊕ β)}

/-- A `while` loop, for a number of turns at most. -/
def iterate (body : σ → Option (σ ⊕ β)) : Nat → σ → Option β
  | 0, _ => none
  | turns + 1, s =>
    match body s with
    | some (.inl s') => iterate body turns s'
    | some (.inr r) => some r
    | none => none

/-- A turn that goes on. -/
theorem iterate_next {s s' : σ} (h : body s = some (.inl s')) (turns : Nat) :
    iterate body (turns + 1) s = iterate body turns s' := by
  rw [iterate, h]

/-- A turn that ends the loop. -/
theorem iterate_done {s : σ} {r : β} (h : body s = some (.inr r)) (turns : Nat) :
    iterate body (turns + 1) s = some r := by
  rw [iterate, h]

/-- The rule for total correctness: a turn leaves the loop with the result that is wanted, or it
keeps the invariant and makes the measure smaller. -/
theorem iterate_ends (I : σ → Prop) (Q : β → Prop) (measure : σ → Nat)
    (hbody : ∀ s, I s → (∃ s', body s = some (.inl s') ∧ I s' ∧ measure s' < measure s) ∨
      ∃ r, body s = some (.inr r) ∧ Q r) {s : σ} (hs : I s) {turns : Nat}
    (hturns : measure s < turns) : ∃ r, iterate body turns s = some r ∧ Q r := by
  induction turns generalizing s with
  | zero => exact absurd hturns (Nat.not_lt_zero _)
  | succ turns ih =>
      rcases hbody s hs with ⟨s', hnext, hs', hless⟩ | ⟨r, hdone, hr⟩
      · rw [iterate_next hnext]
        exact ih hs' (Nat.lt_of_lt_of_le hless (Nat.le_of_lt_succ hturns))
      · exact ⟨r, iterate_done hdone turns, hr⟩

/-- A loop that is never left has no result. -/
theorem iterate_runs_on (I : σ → Prop)
    (hbody : ∀ s, I s → ∃ s', body s = some (.inl s') ∧ I s') {s : σ} (hs : I s)
    (turns : Nat) : iterate body turns s = none := by
  induction turns generalizing s with
  | zero => rfl
  | succ turns ih =>
      obtain ⟨s', hnext, hs'⟩ := hbody s hs
      rw [iterate_next hnext]
      exact ih hs'

/-- A loop that has ended ends with the same result when it may take more turns. -/
theorem iterate_mono {s : σ} {r : β} {turns : Nat} (h : iterate body turns s = some r)
    {more : Nat} (hle : turns ≤ more) : iterate body more s = some r := by
  induction turns generalizing s more with
  | zero => cases h
  | succ turns ih =>
      obtain ⟨more, rfl⟩ : ∃ n, more = n + 1 := ⟨more - 1, by omega⟩
      rw [iterate] at h ⊢
      split at h
      next s' hnext => exact ih h (Nat.le_of_succ_le_succ hle)
      next => exact h
      next => cases h

/-- There is one result at most. -/
theorem iterate_unique {s : σ} {r r' : β} {turns turns' : Nat}
    (h : iterate body turns s = some r) (h' : iterate body turns' s = some r') : r = r' := by
  have hmost := iterate_mono h (Nat.le_max_left turns turns')
  rw [iterate_mono h' (Nat.le_max_right turns turns')] at hmost
  exact (Option.some.inj hmost).symm

end Sos.Lib
