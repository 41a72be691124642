import Mathlib.Algebra.GroupWithZero.Nat
import Mathlib.Data.List.Basic

/-!
# `Sos.Lib.Loop`: rules for loops

A `for` loop over a range or over a list is a fold, and one that can fail is a fold in
`Option`. Each rule takes an invariant that is indexed by the progress of the loop: the
number of turns, or the elements done so far. The loop runs to its end when every turn from
a state with the invariant does. `foldlM_list_run` and `foldlM_cost` are about a loop that is
known to have ended.
-/

set_option autoImplicit false

namespace Sos.Lib

variable {σ α : Type}

/-- A loop that counts up: what holds at `0` and is carried from each turn to the next holds at
the end. -/
theorem foldl_range_induction {f : σ → Nat → σ} {n : Nat} (P : Nat → σ → Prop)
    (hstep : ∀ i < n, ∀ s, P i s → P (i + 1) (f s i)) {s : σ} (h0 : P 0 s) :
    P n ((List.range n).foldl f s) := by
  induction n with
  | zero => exact h0
  | succ n ih =>
      rw [List.range_succ, List.foldl_append]
      exact hstep n (Nat.lt_succ_self n) _ (ih fun i hi => hstep i (Nat.lt_succ_of_lt hi))

/-- The same of a loop whose turns may fail: they do not, if each finds what the one before it has
left. -/
theorem foldlM_range_induction {f : σ → Nat → Option σ} {n : Nat} (P : Nat → σ → Prop)
    (hstep : ∀ i < n, ∀ s, P i s → ∃ s', f s i = some s' ∧ P (i + 1) s') {s : σ} (h0 : P 0 s) :
    ∃ s', (List.range n).foldlM f s = some s' ∧ P n s' := by
  induction n with
  | zero => exact ⟨s, rfl, h0⟩
  | succ n ih =>
      obtain ⟨s₁, h₁, hP₁⟩ := ih fun i hi => hstep i (Nat.lt_succ_of_lt hi)
      obtain ⟨s₂, h₂, hP₂⟩ := hstep n (Nat.lt_succ_self n) s₁ hP₁
      refine ⟨s₂, ?_, hP₂⟩
      simp [List.range_succ, List.foldlM_append, h₁, h₂]

/-- The same over a list, where the statement may speak of the elements that are done. -/
theorem foldlM_list_induction {f : σ → α → Option σ} (P : List α → σ → Prop) :
    ∀ (todo done : List α),
      (∀ done' x todo', done ++ todo = done' ++ x :: todo' → ∀ s, P done' s →
        ∃ s', f s x = some s' ∧ P (done' ++ [x]) s') →
      ∀ s, P done s → ∃ s', todo.foldlM f s = some s' ∧ P (done ++ todo) s' := by
  intro todo
  induction todo with
  | nil =>
      intro done _ s hs
      exact ⟨s, rfl, by rwa [List.append_nil]⟩
  | cons x todo ih =>
      intro done hstep s hs
      obtain ⟨s₁, h₁, hP₁⟩ := hstep done x todo rfl s hs
      have happ : done ++ x :: todo = (done ++ [x]) ++ todo := by simp
      rw [happ] at hstep ⊢
      obtain ⟨s₂, h₂, hP₂⟩ := ih (done ++ [x]) hstep s₁ hP₁
      exact ⟨s₂, by simp [h₁, h₂], hP₂⟩

/-- A loop that has run to its end: the invariant holds there when every turn that ends keeps
it. -/
theorem foldlM_list_run {f : σ → α → Option σ} (P : List α → σ → Prop) :
    ∀ (todo done : List α),
      (∀ done' x todo', done ++ todo = done' ++ x :: todo' → ∀ s s', P done' s →
        f s x = some s' → P (done' ++ [x]) s') →
      ∀ {s s' : σ}, P done s → todo.foldlM f s = some s' → P (done ++ todo) s' := by
  intro todo
  induction todo with
  | nil =>
      intro done _ s s' hs h
      obtain rfl := Option.some.inj h
      rwa [List.append_nil]
  | cons x todo ih =>
      intro done hstep s s' hs h
      rw [List.foldlM_cons] at h
      obtain ⟨s₁, h₁, h⟩ := Option.bind_eq_some_iff.mp h
      have hP₁ := hstep done x todo rfl s s₁ hs h₁
      have happ : done ++ x :: todo = (done ++ [x]) ++ todo := by simp
      rw [happ] at hstep ⊢
      exact ih (done ++ [x]) hstep hP₁ h

/-- Two nested loops are one over all the pairs. -/
theorem foldlM_flatMap {β : Type} {f : σ → β → Option σ} {g : α → List β} (l : List α) :
    ∀ s : σ, (l.flatMap g).foldlM f s = l.foldlM (fun s a => (g a).foldlM f s) s := by
  induction l with
  | nil => exact fun _ => rfl
  | cons a l ih =>
      intro s
      rw [List.flatMap_cons, List.foldlM_append, List.foldlM_cons]
      simp only [ih]

/-- A loop that has run to its end: what the turns did adds up. `R n s s'` says that the loop
came from `s` to `s'` at the cost of `n`. -/
theorem foldlM_cost {f : σ → α → Option σ} {R : Nat → σ → σ → Prop} {c : α → Nat}
    (hrefl : ∀ s, R 0 s s)
    (htrans : ∀ {m n s s₁ s'}, R m s s₁ → R n s₁ s' → R (m + n) s s')
    (hstep : ∀ s a s', f s a = some s' → R (c a) s s') :
    ∀ (l : List α) {s s' : σ}, l.foldlM f s = some s' → R (l.map c).sum s s' := by
  intro l
  induction l with
  | nil =>
      intro s s' h
      obtain rfl := Option.some.inj h
      exact hrefl s
  | cons a l ih =>
      intro s s' h
      rw [List.foldlM_cons] at h
      obtain ⟨s₁, h₁, h⟩ := Option.bind_eq_some_iff.mp h
      rw [List.map_cons, List.sum_cons]
      exact htrans (hstep s a s₁ h₁) (ih h)

end Sos.Lib
