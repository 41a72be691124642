import Mathlib.Data.List.Find
import Mathlib.Data.List.Perm.Basic

/-!
# `Sos.Lib.SecondChance`: the second-chance queue

Page replacement with a reference bit for each page, over any state `σ` and any kind of
page `α`. The head of the queue is chosen when its bit is clear. Otherwise the bit is
cleared and the page goes to the tail. `select` runs this for a bounded number of rounds.

* `select_total`: when clearing a bit clears that bit and sets no other, one round more
  than the length of the queue is enough. The first pass clears every bit, so the head
  after it is chosen.
* `select_spec`: the chosen page and the queue that is left are a rearrangement of the
  queue before, the bit of the chosen page is clear, and every property of the state that
  clearing bits keeps still holds.
* `select_mono`, `select_map`: more rounds, and other names, change nothing.
* `select_victim`: when the pages of the queue have bits of their own, the first page whose
  bit is clear is chosen, or else the first page.
* `select_stop`, `select_all`: the whole result. The first pass takes the pages whose bit is
  set when their turn comes (`passed`) to the tail, in their order, and ends at the first other
  page. When there is none, the head is chosen.
-/

set_option autoImplicit false

namespace Sos.Lib.SecondChance

variable {σ α : Type} (referenced : σ → α → Bool) (dereference : σ → α → σ)

/-- Searches the queue for at most `rounds` rounds, `none` when they run out. Returns the
chosen page (`none` for an empty queue), the state with the bits cleared on the way, and
the queue without the page. -/
def select : Nat → σ → List α → Option (Option α × σ × List α)
  | 0, _, _ => none
  | _ + 1, s, [] => some (none, s, [])
  | n + 1, s, a :: queue =>
    if referenced s a then select n (dereference s a) (queue ++ [a])
    else some (some a, s, queue)

/-- The page to be chosen: the first one whose bit is clear, or else the first one. -/
def victim (s : σ) (queue : List α) : Option α :=
  (queue.find? fun a => !referenced s a).or queue.head?

/-- Clearing a bit clears that bit and sets no other. -/
structure Lawful : Prop where
  cleared : ∀ s a, referenced (dereference s a) a = false
  other : ∀ s a b, referenced s b = false → referenced (dereference s a) b = false

/-- The pages behind the unreferenced part of the queue take one round each; then the head
is unreferenced. -/
private theorem select_of_done (h : Lawful referenced dereference) (front : List α) :
    ∀ (s : σ) (done : List α), (∀ b ∈ done, referenced s b = false) →
      (select referenced dereference (front.length + 1) s (front ++ done)).isSome := by
  induction front with
  | nil =>
      intro s done hdone
      cases done with
      | nil => rfl
      | cons b done =>
          have hb : referenced s b = false := hdone b (by simp)
          simp [select, hb]
  | cons a front ih =>
      intro s done hdone
      simp only [List.length_cons, List.cons_append, select]
      cases hr : referenced s a with
      | false => simp
      | true =>
          rw [if_pos rfl, List.append_assoc]
          -- `a` goes to the tail, with a clear bit.
          refine ih (dereference s a) (done ++ [a]) ?_
          intro b hb
          rcases List.mem_append.mp hb with hb | hb
          · exact h.other s a b (hdone b hb)
          · rw [List.mem_singleton.mp hb]
            exact h.cleared s a

/-- One round more than the length of the queue is enough. -/
theorem select_total (h : Lawful referenced dereference) (s : σ) (queue : List α) :
    ∃ r, select referenced dereference (queue.length + 1) s queue = some r := by
  have := select_of_done referenced dereference h queue s [] (by simp)
  rw [List.append_nil] at this
  exact Option.isSome_iff_exists.mp this

/-- What a search that returns has done: `P` is any property of the state that clearing the
bits of the queue's pages keeps. -/
theorem select_spec {P : σ → Prop} (n : Nat) :
    ∀ (s : σ) (queue : List α) (result : Option α) (s' : σ) (rest : List α),
      (∀ s a, a ∈ queue → P s → P (dereference s a)) → P s →
      select referenced dereference n s queue = some (result, s', rest) →
      P s' ∧ match result with
        | none => queue = [] ∧ s' = s
        | some a => (a :: rest).Perm queue ∧ referenced s' a = false := by
  induction n with
  | zero =>
      intro s queue result s' rest _ _ h
      cases h
  | succ n ih =>
      intro s queue result s' rest hP hs h
      cases queue with
      | nil =>
          simp only [select, Option.some.injEq, Prod.mk.injEq] at h
          obtain ⟨rfl, rfl, rfl⟩ := h
          exact ⟨hs, rfl, rfl⟩
      | cons a queue =>
          have hperm : (queue ++ [a]).Perm (a :: queue) := List.perm_append_singleton a queue
          simp only [select] at h
          cases hr : referenced s a with
          | false =>
              rw [hr] at h
              simp only [Bool.false_eq_true, if_false, Option.some.injEq, Prod.mk.injEq] at h
              obtain ⟨rfl, rfl, rfl⟩ := h
              exact ⟨hs, List.Perm.refl _, hr⟩
          | true =>
              rw [hr, if_pos rfl] at h
              -- The queue of the next round has the same pages.
              have hkeep : ∀ s b, b ∈ queue ++ [a] → P s → P (dereference s b) :=
                fun s b hb => hP s b (hperm.mem_iff.mp hb)
              obtain ⟨hs', hres⟩ := ih (dereference s a) (queue ++ [a]) result s' rest hkeep
                (hP s a (by simp) hs) h
              refine ⟨hs', ?_⟩
              cases result with
              | none => exact absurd hres.1 (by simp)
              | some b => exact ⟨hres.1.trans hperm, hres.2⟩

/-- More rounds change nothing. -/
theorem select_mono {n m : Nat} (hnm : n ≤ m) {r : Option α × σ × List α} :
    ∀ {s : σ} {queue : List α}, select referenced dereference n s queue = some r →
      select referenced dereference m s queue = some r := by
  induction n generalizing m with
  | zero =>
      intro s queue h
      cases h
  | succ n ih =>
      obtain ⟨m, rfl⟩ := Nat.exists_eq_add_of_le' (Nat.succ_le_of_lt (Nat.lt_of_succ_le hnm))
      intro s queue h
      cases queue with
      | nil => exact h
      | cons a queue =>
          simp only [select] at h ⊢
          -- The same turn is taken, with more turns left.
          split at h
          · rw [if_pos ‹_›]
            exact ih (Nat.le_of_succ_le_succ hnm) h
          · rw [if_neg ‹_›]
            exact h

/-- The same search with other names for the pages and for the states. -/
theorem select_map {σ' α' : Type} {referenced' : σ' → α' → Bool}
    {dereference' : σ' → α' → σ'} (g : σ → σ') (f : α → α')
    (href : ∀ s a, referenced' (g s) (f a) = referenced s a)
    (hderef : ∀ s a, dereference' (g s) (f a) = g (dereference s a)) (n : Nat) :
    ∀ (s : σ) (queue : List α), select referenced' dereference' n (g s) (queue.map f) =
      (select referenced dereference n s queue).map
        fun r => (r.1.map f, g r.2.1, r.2.2.map f) := by
  induction n with
  | zero => exact fun _ _ => rfl
  | succ n ih =>
      intro s queue
      cases queue with
      | nil => rfl
      | cons a queue =>
          simp only [select, List.map_cons, href]
          split
          · have hnext := ih (dereference s a) (queue ++ [a])
            rwa [List.map_append, ← hderef] at hnext
          · rfl

/-! ### The whole result -/

/-- The pages that the first pass takes to the tail: those whose bit is set when their turn
comes. -/
def passed : σ → List α → List α
  | _, [] => []
  | s, a :: queue => if referenced s a then a :: passed (dereference s a) queue else []

/-- The page that the first pass ends at, and the ones behind it. -/
def unpassed : σ → List α → List α
  | _, [] => []
  | s, a :: queue =>
    if referenced s a then unpassed (dereference s a) queue else a :: queue

/-- What the clock hand has passed and what it has not are the queue. -/
theorem passed_append_unpassed (queue : List α) :
    ∀ s, passed referenced dereference s queue ++ unpassed referenced dereference s queue =
      queue := by
  induction queue with
  | nil => exact fun _ => rfl
  | cons a queue ih =>
      intro s
      unfold passed unpassed
      split
      · rw [List.cons_append, ih]
      · rfl

/-- The first pass takes one round for each page that it passes. -/
theorem select_pass (queue : List α) :
    ∀ (n : Nat) (s : σ) (behind : List α),
      select referenced dereference (n + (passed referenced dereference s queue).length) s
          (queue ++ behind) =
        select referenced dereference n
          ((passed referenced dereference s queue).foldl dereference s)
          (unpassed referenced dereference s queue ++ behind ++
            passed referenced dereference s queue) := by
  induction queue with
  | nil =>
      intro n s behind
      rw [passed, unpassed, List.append_nil]
      rfl
  | cons a queue ih =>
      intro n s behind
      cases hr : referenced s a with
      -- The pass ends at `a`.
      | false =>
          have hpassed : passed referenced dereference s (a :: queue) = [] := by
            rw [passed, hr, if_neg Bool.false_ne_true]
          have hunpassed : unpassed referenced dereference s (a :: queue) = a :: queue := by
            rw [unpassed, hr, if_neg Bool.false_ne_true]
          rw [hpassed, hunpassed, List.append_nil]
          rfl
      -- One round takes `a` to the tail.
      | true =>
          have hpassed : passed referenced dereference s (a :: queue) =
              a :: passed referenced dereference (dereference s a) queue := by
            rw [passed, hr, if_pos rfl]
          have hunpassed : unpassed referenced dereference s (a :: queue) =
              unpassed referenced dereference (dereference s a) queue := by
            rw [unpassed, hr, if_pos rfl]
          rw [hpassed, hunpassed, List.length_cons, ← Nat.add_assoc, List.cons_append, select, hr,
            if_pos rfl, List.append_assoc, ih n (dereference s a) (behind ++ [a]),
            List.foldl_cons, List.append_assoc, List.append_assoc, List.append_assoc,
            List.singleton_append]

/-- The bit of the page that the first pass ends at is clear then. -/
theorem referenced_unpassed {a : α} {behind : List α} (queue : List α) :
    ∀ s, unpassed referenced dereference s queue = a :: behind →
      referenced ((passed referenced dereference s queue).foldl dereference s) a = false := by
  induction queue with
  | nil =>
      intro s h
      cases h
  | cons b queue ih =>
      intro s h
      unfold unpassed at h
      unfold passed
      -- The hand passes `b` and clears its bit before it looks further.
      split at h
      next hr =>
        rw [if_pos hr]
        exact ih (dereference s b) h
      -- The hand stops at `b`.
      next hr =>
        rw [if_neg hr]
        cases h
        exact Bool.eq_false_iff.mpr hr

/-- The bits that are cleared stay clear. -/
theorem Lawful.foldl (h : Lawful referenced dereference) {b : α} (queue : List α) :
    ∀ s, b ∈ queue ∨ referenced s b = false → referenced (queue.foldl dereference s) b = false := by
  induction queue with
  | nil =>
      rintro s (hmem | hclear)
      · cases hmem
      · exact hclear
  | cons a queue ih =>
      intro s hb
      rw [List.foldl_cons]
      apply ih
      rcases hb with hmem | hclear
      · rcases List.mem_cons.mp hmem with rfl | hmem
        · exact Or.inr (h.cleared s b)
        · exact Or.inl hmem
      · exact Or.inr (h.other s a b hclear)

/-- The search ends at the first page whose bit is clear when its turn comes. -/
theorem select_stop {n : Nat} {s : σ} {queue behind : List α} {a : α}
    (hn : (passed referenced dereference s queue).length < n)
    (hstop : unpassed referenced dereference s queue = a :: behind) :
    select referenced dereference n s queue =
      some (some a, (passed referenced dereference s queue).foldl dereference s,
        behind ++ passed referenced dereference s queue) := by
  obtain ⟨m, rfl⟩ := Nat.exists_eq_add_of_lt hn
  have hpass := select_pass referenced dereference queue (m + 1) s []
  rw [List.append_nil, hstop, List.append_nil, List.cons_append, select,
    referenced_unpassed referenced dereference queue s hstop, if_neg Bool.false_ne_true] at hpass
  rw [← hpass]
  congr 1
  omega

/-- When every bit is set, every bit is cleared, and the head is chosen. -/
theorem select_all (h : Lawful referenced dereference) {n : Nat} {s : σ} {queue : List α} {a : α}
    (hn : (a :: queue).length < n)
    (hall : unpassed referenced dereference s (a :: queue) = []) :
    select referenced dereference n s (a :: queue) =
      some (some a, (a :: queue).foldl dereference s, queue) := by
  have hqueue := passed_append_unpassed referenced dereference (a :: queue) s
  rw [hall, List.append_nil] at hqueue
  obtain ⟨m, rfl⟩ := Nat.exists_eq_add_of_lt hn
  have hpass := select_pass referenced dereference (a :: queue) (m + 1) s []
  have hclear : referenced ((a :: queue).foldl dereference s) a = false :=
    h.foldl referenced dereference (a :: queue) s (Or.inl List.mem_cons_self)
  rw [hqueue, hall, List.append_nil, List.append_nil, List.nil_append, select, hclear,
    if_neg Bool.false_ne_true] at hpass
  rw [← hpass]
  congr 1
  omega

/-- The two halves depend on the predicate only where they look at it. -/
theorem takeWhile_congr {p q : α → Bool} {queue : List α} (h : ∀ b ∈ queue, p b = q b) :
    queue.takeWhile p = queue.takeWhile q ∧ queue.dropWhile p = queue.dropWhile q := by
  induction queue with
  | nil => exact ⟨rfl, rfl⟩
  | cons a queue ih =>
      obtain ⟨htake, hdrop⟩ := ih fun b hb => h b (List.mem_cons_of_mem a hb)
      rw [List.takeWhile_cons, List.takeWhile_cons, List.dropWhile_cons, List.dropWhile_cons,
        h a List.mem_cons_self, htake, hdrop]
      exact ⟨rfl, rfl⟩

/-- The first element of the second half is the one that is looked for. -/
theorem head?_dropWhile {p : α → Bool} (queue : List α) :
    (queue.dropWhile p).head? = queue.find? fun a => !p a := by
  induction queue with
  | nil => rfl
  | cons a queue ih =>
      rw [List.dropWhile_cons, List.find?_cons]
      cases p a with
      | false => rfl
      | true => exact ih

/-- When the pages have bits of their own, the pages that are passed are those whose bits are
set before the search. -/
theorem passed_of_own {queue : List α}
    (hown : queue.Pairwise fun a b => ∀ s, referenced (dereference s a) b = referenced s b) :
    ∀ s, passed referenced dereference s queue = queue.takeWhile (referenced s) ∧
      unpassed referenced dereference s queue = queue.dropWhile (referenced s) := by
  induction queue with
  | nil => exact fun _ => ⟨rfl, rfl⟩
  | cons a queue ih =>
      intro s
      obtain ⟨ha, hqueue⟩ := List.pairwise_cons.mp hown
      cases hr : referenced s a with
      -- The hand stops here, as `takeWhile` does.
      | false =>
          rw [passed, unpassed, hr, if_neg Bool.false_ne_true, if_neg Bool.false_ne_true,
            List.takeWhile_cons_of_neg (by simp [hr]), List.dropWhile_cons_of_neg (by simp [hr])]
          exact ⟨rfl, rfl⟩
      -- Clearing the bit of `a` changes none of those behind it.
      | true =>
          obtain ⟨hpassed, hunpassed⟩ := ih hqueue (dereference s a)
          obtain ⟨htake, hdrop⟩ := takeWhile_congr fun b hb => ha b hb s
          rw [passed, unpassed, hr, if_pos rfl, if_pos rfl, hpassed, hunpassed, htake, hdrop,
            List.takeWhile_cons_of_pos hr, List.dropWhile_cons_of_pos hr]
          exact ⟨rfl, rfl⟩

/-- The page that is chosen: the first one whose bit is clear when its turn comes, or else the
first one. -/
def chosen (s : σ) (queue : List α) : Option α :=
  (unpassed referenced dereference s queue).head?.or queue.head?

/-- A search with enough rounds chooses a page unless the queue is empty. -/
theorem select_chosen (h : Lawful referenced dereference) {n : Nat} {s s' : σ}
    {queue rest : List α} {result : Option α} (hn : queue.length < n)
    (hsel : select referenced dereference n s queue = some (result, s', rest)) :
    result = chosen referenced dereference s queue := by
  unfold chosen
  -- The hand stops in its first turn, or it goes around once and stops at the front.
  cases hstop : unpassed referenced dereference s queue with
  | cons a behind =>
      have hlength := congrArg List.length (passed_append_unpassed referenced dereference queue s)
      rw [hstop, List.length_append, List.length_cons] at hlength
      rw [select_stop referenced dereference (by omega) hstop] at hsel
      cases hsel
      rfl
  | nil =>
      cases queue with
      | nil =>
          obtain ⟨m, rfl⟩ := Nat.exists_eq_add_of_lt hn
          cases hsel
          rfl
      | cons a queue =>
          rw [select_all referenced dereference h hn hstop] at hsel
          cases hsel
          rfl

/-- The search chooses the victim, when clearing the bit of a page leaves the bits of the pages
behind it alone. -/
theorem select_victim (h : Lawful referenced dereference) {n : Nat} {s s' : σ}
    {queue rest : List α} {result : Option α}
    (hown : queue.Pairwise fun a b => ∀ s, referenced (dereference s a) b = referenced s b)
    (hn : queue.length < n)
    (hsel : select referenced dereference n s queue = some (result, s', rest)) :
    result = victim referenced s queue := by
  rw [select_chosen referenced dereference h hn hsel, chosen, victim, ← head?_dropWhile,
    (passed_of_own referenced dereference hown s).2]

end Sos.Lib.SecondChance
