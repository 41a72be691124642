import Mathlib.Data.List.Nodup
import Mathlib.Data.List.Infix
import Mathlib.Logic.Function.Basic
import Sos.Lib.SecondChance

/-!
# `Sos.Lib.TailQueue`: tail queues, link by link

A tail queue has its links in its elements: each has the address of the next element, and the
address of the place that points to it. That place is the link of the element before, or the head
of the queue. The head also has the address of the last place, which holds the null pointer. So an
element can be removed and added at the end without a search.

`Represents h queues` says that the links of `h` are those of the lists `queues`. It is kept by
`init`, `insertTail` and `remove`, which do to the lists what their names say:

* `Represents.insertTail`, `Represents.remove`: one operation;
* `Represents.walk`, `Represents.each`: following the links gives the list;
* `Represents.removeLoop`: a loop that removes elements and goes on with the element that was
  next before, removes the chosen ones, in their order;
* `Represents.secondChance`: the second-chance search on the links is the one on the list.

Any number of queues share the memory, and any kind of address will do.
-/

set_option autoImplicit false

namespace Sos.Lib.TailQueue

/-- A place that holds a pointer to an element. -/
inductive Place (Q A : Type)
  | head (q : Q)
  | next (a : A)
deriving DecidableEq

/-- The pointers to elements, and the addresses of places in elements and heads. -/
structure Links (Q A : Type) where
  pointer : Place Q A → Option A
  prev : A → Place Q A
  last : Q → Place Q A

variable {Q A σ : Type} [DecidableEq Q] [DecidableEq A]

namespace Links

def setPointer (h : Links Q A) (p : Place Q A) (a : Option A) : Links Q A :=
  { h with pointer := Function.update h.pointer p a }

def setPrev (h : Links Q A) (a : A) (p : Place Q A) : Links Q A :=
  { h with prev := Function.update h.prev a p }

def setLast (h : Links Q A) (q : Q) (p : Place Q A) : Links Q A :=
  { h with last := Function.update h.last q p }

/-- The first element. -/
def first (h : Links Q A) (q : Q) : Option A := h.pointer (.head q)

/-- An empty queue. -/
def init (h : Links Q A) (q : Q) : Links Q A := (h.setPointer (.head q) none).setLast q (.head q)

/-- Adds an element at the end. -/
def insertTail (h : Links Q A) (q : Q) (a : A) : Links Q A :=
  let h := h.setPointer (.next a) none
  let h := h.setPrev a (h.last q)
  let h := h.setPointer (h.last q) (some a)
  h.setLast q (.next a)

/-- Removes an element. -/
def remove (h : Links Q A) (q : Q) (a : A) : Links Q A :=
  let h := match h.pointer (.next a) with
    | some b => h.setPrev b (h.prev a)
    | none => h.setLast q (h.prev a)
  h.setPointer (h.prev a) (h.pointer (.next a))

/-- The elements from one on, for at most `n` links. -/
def walk (h : Links Q A) : Nat → Option A → List A
  | 0, _ => []
  | _ + 1, none => []
  | n + 1, some a => a :: h.walk n (h.pointer (.next a))

/-- A loop over the elements from one on. -/
def each (visit : σ → A → σ) (h : Links Q A) : Nat → σ → Option A → Option σ
  | _, s, none => some s
  | 0, _, some _ => none
  | n + 1, s, some a => h.each visit n (visit s a) (h.pointer (.next a))

/-- A loop over the elements from one on that does `visit` with the chosen ones and removes them.
The next element is looked up before. -/
def removeLoop (chosen : A → Bool) (visit : σ → A → Option σ) (q : Q) :
    Nat → σ → Links Q A → Option A → Option (σ × Links Q A)
  | _, s, h, none => some (s, h)
  | 0, _, _, some _ => none
  | n + 1, s, h, some a =>
    if chosen a then do
      let s' ← visit s a
      removeLoop chosen visit q n s' (h.remove q a) (h.pointer (.next a))
    else removeLoop chosen visit q n s h (h.pointer (.next a))

/-- The second-chance search on the links. -/
def secondChance (referenced : σ → A → Bool) (dereference : σ → A → σ) (q : Q) :
    Nat → σ → Links Q A → Option (Option A × σ × Links Q A)
  | 0, _, _ => none
  | n + 1, s, h =>
    match h.first q with
    | none => some (none, s, h)
    | some a =>
      if referenced s a then
        secondChance referenced dereference q n (dereference s a) ((h.remove q a).insertTail q a)
      else some (some a, s, h.remove q a)

/-! ### Lists in the links -/

/-- The elements behind a place. -/
def Segment (h : Links Q A) : Place Q A → List A → Prop
  | _, [] => True
  | p, a :: as => h.pointer p = some a ∧ h.prev a = p ∧ h.Segment (.next a) as

end Links

/-- The place behind the last element. -/
def tail : Place Q A → List A → Place Q A
  | p, [] => p
  | _, a :: as => tail (.next a) as

/-- The places that point to the elements behind a place. -/
def reads : Place Q A → List A → List (Place Q A)
  | _, [] => []
  | p, a :: as => p :: reads (.next a) as

omit [DecidableEq Q] [DecidableEq A] in
/-- The end of two runs is that of the second, begun at the end of the first. -/
theorem tail_append (as bs : List A) : ∀ p : Place Q A, tail p (as ++ bs) = tail (tail p as) bs := by
  induction as with
  | nil => exact fun _ => rfl
  | cons a as ih => exact fun _ => ih (.next a)

omit [DecidableEq Q] [DecidableEq A] in
/-- The end is the beginning, or the link of an element. -/
theorem tail_eq (as : List A) : ∀ p : Place Q A, tail p as = p ∨ ∃ a ∈ as, tail p as = .next a := by
  induction as with
  | nil => exact fun _ => Or.inl rfl
  | cons a as ih =>
      intro p
      refine Or.inr ?_
      rcases ih (.next a) with heq | ⟨b, hb, heq⟩
      · exact ⟨a, List.mem_cons_self, heq⟩
      · exact ⟨b, List.mem_cons_of_mem a hb, heq⟩

omit [DecidableEq Q] [DecidableEq A] in
/-- A walk reads the beginning and the links of the elements. -/
theorem mem_reads {as : List A} : ∀ {p x : Place Q A}, x ∈ reads p as →
    x = p ∨ ∃ a ∈ as, x = .next a := by
  induction as with
  | nil =>
      intro p x hx
      cases hx
  | cons a as ih =>
      intro p x hx
      rcases List.mem_cons.mp hx with rfl | hx
      · exact Or.inl rfl
      · rcases ih hx with rfl | ⟨b, hb, rfl⟩
        · exact Or.inr ⟨a, List.mem_cons_self, rfl⟩
        · exact Or.inr ⟨b, List.mem_cons_of_mem a hb, rfl⟩

omit [DecidableEq Q] [DecidableEq A] in
/-- No element is at the place behind the last one. -/
theorem tail_not_mem_reads {as : List A} : ∀ {p : Place Q A}, as.Nodup → (∀ a ∈ as, p ≠ .next a) →
    tail p as ∉ reads p as := by
  induction as with
  | nil =>
      intro p _ _ hmem
      cases hmem
  | cons a as ih =>
      intro p hnodup hp hmem
      obtain ⟨ha, hnodup⟩ := List.nodup_cons.mp hnodup
      rcases List.mem_cons.mp hmem with heq | hmem
      · rcases tail_eq as (.next a) with htail | ⟨b, hb, htail⟩
        · exact hp a List.mem_cons_self (heq.symm.trans htail)
        · exact hp b (List.mem_cons_of_mem a hb) (heq.symm.trans htail)
      · refine ih hnodup (fun b hb hab => ?_) hmem
        cases hab
        exact ha hb

namespace Links

variable {h h' : Links Q A} {q : Q} {a : A} {as : List A}

omit [DecidableEq Q] [DecidableEq A] in
/-- Two segments, one behind the other. -/
theorem segment_append (as bs : List A) : ∀ p : Place Q A,
    h.Segment p (as ++ bs) ↔ h.Segment p as ∧ h.Segment (tail p as) bs := by
  induction as with
  | nil => exact fun _ => ⟨fun hs => ⟨trivial, hs⟩, fun hs => hs.2⟩
  | cons a as ih =>
      intro p
      show h.pointer p = some a ∧ h.prev a = p ∧ h.Segment (.next a) (as ++ bs) ↔
        (h.pointer p = some a ∧ h.prev a = p ∧ h.Segment (.next a) as) ∧ _
      rw [ih (.next a), and_assoc, and_assoc]
      rfl

omit [DecidableEq Q] [DecidableEq A] in
/-- A segment in any heap that agrees on the links that a walk reads and on the links back. -/
theorem Segment.congr : ∀ {as : List A} {p : Place Q A}, h.Segment p as →
    (∀ x ∈ reads p as, h'.pointer x = h.pointer x) → (∀ a ∈ as, h'.prev a = h.prev a) →
      h'.Segment p as := by
  intro as
  induction as with
  | nil => exact fun _ _ _ => trivial
  | cons a as ih =>
      intro p hs hpointer hprev
      obtain ⟨h1, h2, h3⟩ := hs
      refine ⟨(hpointer p List.mem_cons_self).trans h1, (hprev a List.mem_cons_self).trans h2, ?_⟩
      exact ih h3 (fun x hx => hpointer x (List.mem_cons_of_mem p hx))
        fun b hb => hprev b (List.mem_cons_of_mem a hb)

omit [DecidableEq Q] [DecidableEq A] in
/-- The place behind the last element holds the null pointer: following the links ends there. -/
theorem Segment.walk : ∀ {as : List A} {p : Place Q A} {n : Nat}, h.Segment p as →
    h.pointer (tail p as) = none → as.length ≤ n → h.walk n (h.pointer p) = as := by
  intro as
  induction as with
  | nil =>
      intro p n _ hstop _
      -- At the end of the segment the link is null.
      rw [show h.pointer p = none from hstop]
      cases n <;> rfl
  | cons a as ih =>
      intro p n hs hstop hn
      obtain ⟨h1, -, h3⟩ := hs
      -- The turns are enough, since each takes one element.
      cases n with
      | zero => cases hn
      | succ n =>
          rw [h1]
          exact congrArg (a :: ·) (ih h3 hstop (Nat.le_of_succ_le_succ hn))

omit [DecidableEq Q] [DecidableEq A] in
/-- `TAILQ_FOREACH` visits the elements in order, by induction on the segment. -/
theorem Segment.each (visit : σ → A → σ) : ∀ {as : List A} {p : Place Q A} {n : Nat},
    h.Segment p as → h.pointer (tail p as) = none → as.length ≤ n →
      ∀ s, h.each visit n s (h.pointer p) = some (as.foldl visit s) := by
  intro as
  induction as with
  | nil =>
      intro p n _ hstop _ s
      -- At the end of the segment the link is null.
      rw [show h.pointer p = none from hstop]
      cases n <;> rfl
  | cons a as ih =>
      intro p n hs hstop hn s
      obtain ⟨h1, -, h3⟩ := hs
      -- The turns are enough, since each takes one element.
      cases n with
      | zero => cases hn
      | succ n =>
          rw [h1]
          exact ih h3 hstop (Nat.le_of_succ_le_succ hn) (visit s a)

omit [DecidableEq Q] [DecidableEq A] in
/-- The first link leads to the first element. -/
theorem Segment.pointer {p : Place Q A} (hs : h.Segment p as)
    (hstop : h.pointer (tail p as) = none) : h.pointer p = as.head? := by
  cases as with
  | nil => exact hstop
  | cons a as => exact hs.1

/-- `TAILQ_REMOVE` of an element that another follows. -/
theorem remove_some {b : A} (hb : h.pointer (.next a) = some b) :
    h.remove q a = (h.setPrev b (h.prev a)).setPointer (h.prev a) (some b) := by
  have hprev : (h.setPrev b (h.prev a)).prev a = h.prev a := by
    show Function.update h.prev b (h.prev a) a = _
    rw [Function.update_apply, ite_self]
  simp only [remove, hb]
  rw [hprev]
  exact congrArg _ hb

/-- `TAILQ_REMOVE` of the last element. -/
theorem remove_none (hb : h.pointer (.next a) = none) :
    h.remove q a = (h.setLast q (h.prev a)).setPointer (h.prev a) none := by
  simp only [remove, hb]
  exact congrArg _ hb

/-- The elements of a queue. -/
structure Queue (h : Links Q A) (q : Q) (as : List A) : Prop where
  segment : h.Segment (.head q) as
  last : h.last q = tail (.head q) as
  stop : h.pointer (h.last q) = none

end Links

omit [DecidableEq Q] [DecidableEq A] in
/-- The place behind the last element of a queue. -/
theorem tail_head (q : Q) (as : List A) :
    tail (.head q) as = .head q ∨ ∃ a ∈ as, tail (Place.head q) as = .next a := tail_eq as _

/-- The links are those of these lists. -/
structure Represents (h : Links Q A) (queues : Q → List A) : Prop where
  queue : ∀ q, h.Queue q (queues q)
  nodup : ∀ q, (queues q).Nodup
  apart : ∀ q q' a, a ∈ queues q → a ∈ queues q' → q = q'

/-- A place that belongs to a queue: its head, or the link of an element. -/
def Belongs (q : Q) (as : List A) (p : Place Q A) : Prop := p = .head q ∨ ∃ a ∈ as, p = .next a

namespace Represents

variable {h h' : Links Q A} {queues : Q → List A} {q q' : Q} {a : A} {as bs : List A}

omit [DecidableEq Q] [DecidableEq A] in
/-- No place belongs to two queues. -/
theorem not_belongs (hr : Represents h queues) (hne : q' ≠ q) {p : Place Q A}
    (hp : Belongs q (queues q) p) : ¬ Belongs q' (queues q') p := by
  rintro (rfl | ⟨a, ha, rfl⟩)
  · rcases hp with hp | ⟨b, -, hp⟩
    · cases hp
      exact hne rfl
    · cases hp
  · rcases hp with hp | ⟨b, hb, hp⟩
    · cases hp
    · cases hp
      exact hne (hr.apart q' q a ha hb)

omit [DecidableEq Q] [DecidableEq A] in
/-- A queue that is not touched stays. -/
theorem queue_congr (hr : Represents h queues) (q : Q)
    (hpointer : ∀ p, Belongs q (queues q) p → h'.pointer p = h.pointer p)
    (hprev : ∀ a ∈ queues q, h'.prev a = h.prev a) (hlast : h'.last q = h.last q) :
    h'.Queue q (queues q) := by
  obtain ⟨hs, hl, hstop⟩ := hr.queue q
  refine ⟨hs.congr (fun x hx => hpointer x (mem_reads hx)) hprev, hlast.trans hl, ?_⟩
  rw [hlast, hpointer _ (by rw [hl]; exact tail_head q (queues q))]
  exact hstop

omit [DecidableEq A] in
/-- One queue changes. -/
theorem update (hr : Represents h queues) (hqueue : h'.Queue q as) (hnodup : as.Nodup)
    (hsub : ∀ b ∈ as, b ∈ queues q ∨ ∀ q', b ∉ queues q')
    (hother : ∀ q' ≠ q, h'.Queue q' (queues q')) :
    Represents h' (Function.update queues q as) := by
  -- An element of the new list is in no other queue.
  have hold {q' : Q} {b : A} (hne : q' ≠ q) (hb : b ∈ as) (hb' : b ∈ queues q') : False := by
    rcases hsub b hb with hmem | hnot
    · exact hne (hr.apart q' q b hb' hmem)
    · exact hnot q' hb'
  refine ⟨fun q' => ?_, fun q' => ?_, fun q₁ q₂ b h₁ h₂ => ?_⟩
  -- The queue that has changed, and any other.
  · by_cases hq : q' = q
    · rw [hq, Function.update_self]
      exact hqueue
    · rw [Function.update_of_ne hq]
      exact hother q' hq
  · by_cases hq : q' = q
    · rw [hq, Function.update_self]
      exact hnodup
    · rw [Function.update_of_ne hq]
      exact hr.nodup q'
  -- Two queues are apart if neither has changed, and else by the hypothesis on the new elements.
  · by_cases e₁ : q₁ = q <;> by_cases e₂ : q₂ = q
    · rw [e₁, e₂]
    · rw [e₁, Function.update_self] at h₁
      rw [Function.update_of_ne e₂] at h₂
      exact (hold e₂ h₁ h₂).elim
    · rw [e₂, Function.update_self] at h₂
      rw [Function.update_of_ne e₁] at h₁
      exact (hold e₁ h₂ h₁).elim
    · rw [Function.update_of_ne e₁] at h₁
      rw [Function.update_of_ne e₂] at h₂
      exact hr.apart q₁ q₂ b h₁ h₂

/-- An element that is in no queue is added at the end of one. -/
theorem insertTail (hr : Represents h queues) (hnew : ∀ q', a ∉ queues q') :
    Represents (h.insertTail q a) (Function.update queues q (queues q ++ [a])) := by
  obtain ⟨hs, hl, hstop⟩ := hr.queue q
  have hbelongs : Belongs q (queues q) (h.last q) := hl ▸ tail_head q (queues q)
  -- The new element is in no queue, so that no link of any queue is its own.
  have hplace {q' : Q} {p : Place Q A} (hp : Belongs q' (queues q') p) : p ≠ .next a := by
    rintro rfl
    rcases hp with hp | ⟨b, hb, hp⟩
    · cases hp
    · cases hp
      exact hnew q' hb
  have hpointer {p : Place Q A} (h1 : p ≠ .next a) (h2 : p ≠ h.last q) :
      (h.insertTail q a).pointer p = h.pointer p := by
    show Function.update (Function.update h.pointer (.next a) none) (h.last q) (some a) p = _
    rw [Function.update_of_ne h2, Function.update_of_ne h1]
  have hprev {b : A} (hb : b ≠ a) : (h.insertTail q a).prev b = h.prev b :=
    Function.update_of_ne hb _ _
  refine hr.update ?_ ?_ ?_ fun q' hq => ?_
  · have hlast : (h.insertTail q a).last q = .next a := Function.update_self _ _ _
    refine ⟨(Links.segment_append _ _ _).mpr ⟨?_, ?_, ?_, trivial⟩, ?_, ?_⟩
    -- The old segment reads neither of the two links that are written.
    · refine hs.congr (fun x hx => hpointer (hplace (mem_reads hx)) ?_) fun b hb => hprev ?_
      · rintro rfl
        refine tail_not_mem_reads (hr.nodup q) (fun b _ hb => by cases hb) (hl ▸ hx)
      · rintro rfl
        exact hnew q hb
    · rw [← hl]
      exact Function.update_self _ _ _
    · rw [← hl]
      exact Function.update_self _ _ _
    -- The new last link is that of the new element, and it is null.
    · rw [hlast, tail_append]
      rfl
    · rw [hlast]
      show Function.update (Function.update h.pointer (.next a) none) (h.last q) (some a) _ = _
      rw [Function.update_of_ne (hplace hbelongs).symm, Function.update_self]
  · exact List.nodup_append'.mpr ⟨hr.nodup q, List.nodup_singleton a,
      List.disjoint_singleton.mpr (hnew q)⟩
  · intro b hb
    rcases List.mem_append.mp hb with hb | hb
    · exact Or.inl hb
    · rw [List.mem_singleton.mp hb]
      exact Or.inr hnew
  -- The other queues read neither of the two links.
  · refine hr.queue_congr q' (fun p hp => hpointer (hplace hp) ?_) (fun b hb => hprev ?_)
      (Function.update_of_ne hq _ _)
    · rintro rfl
      exact hr.not_belongs hq hbelongs hp
    · rintro rfl
      exact hnew q' hb

/-- An element is removed from its queue. -/
theorem remove (hr : Represents h queues) (hqueue : queues q = as ++ a :: bs) :
    Represents (h.remove q a) (Function.update queues q (as ++ bs)) := by
  obtain ⟨hs, hl, hstop⟩ := hr.queue q
  have hnodup := hr.nodup q
  rw [hqueue] at hs hl hnodup
  obtain ⟨hfront, hpa, hprev, hback⟩ := (Links.segment_append as (a :: bs) _).mp hs
  obtain ⟨hnas, hnbs, hdisjoint⟩ := List.nodup_append'.mp hnodup
  obtain ⟨hab, hnbs⟩ := List.nodup_cons.mp hnbs
  have hbas : ∀ b ∈ bs, b ∉ as := fun b hb hb' => hdisjoint hb' (List.mem_cons_of_mem a hb)
  -- The place before: no pointer of the front is there, and no link behind.
  have hnfront : h.prev a ∉ reads (Place.head q) as := hprev ▸ tail_not_mem_reads hnas
    fun b _ hb => by cases hb
  have hfirst {x : Place Q A} (hx : x ∈ reads (.head q) as) : x ≠ h.prev a := by
    rintro rfl
    exact hnfront hx
  have hnback : ∀ b, b ∉ as → h.prev a ≠ .next b := by
    intro b hb heq
    rcases tail_head q as with htail | ⟨c, hc, htail⟩
    · cases (hprev.symm.trans heq).symm.trans htail
    · cases (hprev.symm.trans heq).symm.trans htail
      exact hb hc
  have hbelongs : Belongs q (queues q) (h.prev a) := by
    rw [hprev]
    rcases tail_head q as with htail | ⟨c, hc, htail⟩
    · exact Or.inl htail
    · exact Or.inr ⟨c, hqueue ▸ List.mem_append_left _ hc, htail⟩
  have hmem : ∀ b ∈ as ++ bs, b ∈ queues q ∧ b ≠ a := by
    intro b hb
    rw [hqueue]
    rcases List.mem_append.mp hb with hb | hb
    · exact ⟨List.mem_append_left _ hb, fun heq => hdisjoint hb (heq ▸ List.mem_cons_self)⟩
    · exact ⟨List.mem_append_right _ (List.mem_cons_of_mem a hb), fun heq => hab (heq ▸ hb)⟩
  have hnodup' : (as ++ bs).Nodup :=
    List.nodup_append'.mpr ⟨hnas, hnbs, fun b hb hb' => hbas b hb' hb⟩
  have hsub : ∀ b ∈ as ++ bs, b ∈ queues q ∨ ∀ q', b ∉ queues q' :=
    fun b hb => Or.inl (hmem b hb).1
  have hother {q' : Q} (hq : q' ≠ q) {p : Place Q A} (hp : Belongs q' (queues q') p) :
      p ≠ h.prev a := by
    rintro rfl
    exact hr.not_belongs hq hbelongs hp
  cases bs with
  | nil =>
      have hnone : h.pointer (.next a) = none := by
        rw [hl, tail_append] at hstop
        exact hstop
      rw [Links.remove_none hnone]
      refine hr.update ⟨?_, ?_, ?_⟩ hnodup' hsub fun q' hq => ?_
      · rw [List.append_nil]
        exact hfront.congr (fun x hx => Function.update_of_ne (hfirst hx) _ _)
          fun b _ => rfl
      · rw [List.append_nil]
        exact (Function.update_self _ _ _).trans hprev
      · show Function.update h.pointer (h.prev a) none (Function.update h.last q (h.prev a) q) = _
        rw [Function.update_self, Function.update_self]
      · exact hr.queue_congr q' (fun p hp => Function.update_of_ne (hother hq hp) _ _)
          (fun b _ => rfl) (Function.update_of_ne hq _ _)
  | cons b bs =>
      obtain ⟨hsome, -, hback⟩ := hback
      obtain ⟨hbbs, hnbs⟩ := List.nodup_cons.mp hnbs
      rw [Links.remove_some hsome]
      have hpointer {c : A} (hc : c ∉ as) :
          Function.update h.pointer (h.prev a) (some b) (.next c) = h.pointer (.next c) :=
        Function.update_of_ne (hnback c hc).symm _ _
      have hlast : h.last q = tail (.next b) bs := by
        rw [hl, tail_append]
        rfl
      refine hr.update ⟨?_, ?_, ?_⟩ hnodup' hsub fun q' hq => ?_
      · refine (Links.segment_append _ _ _).mpr ⟨?_, ?_, ?_, ?_⟩
        · refine hfront.congr
            (fun x hx => Function.update_of_ne (hfirst hx) _ _)
            fun c hc => Function.update_of_ne ?_ _ _
          rintro rfl
          exact hbas c List.mem_cons_self hc
        · rw [← hprev]
          exact Function.update_self _ _ _
        · rw [← hprev]
          exact Function.update_self _ _ _
        · refine hback.congr (fun x hx => ?_) fun c hc => Function.update_of_ne ?_ _ _
          · rcases mem_reads hx with rfl | ⟨c, hc, rfl⟩
            · exact hpointer (hbas b List.mem_cons_self)
            · exact hpointer (hbas c (List.mem_cons_of_mem b hc))
          · rintro rfl
            exact hbbs hc
      · show h.last q = _
        rw [hlast, tail_append]
        rfl
      · show Function.update h.pointer (h.prev a) (some b) (h.last q) = none
        rcases tail_eq bs (Place.next b : Place Q A) with htail | ⟨c, hc, htail⟩
        · rw [← hstop, hlast, htail]
          exact hpointer (hbas b List.mem_cons_self)
        · rw [← hstop, hlast, htail]
          exact hpointer (hbas c (List.mem_cons_of_mem b hc))
      · refine hr.queue_congr q' (fun p hp => Function.update_of_ne (hother hq hp) _ _)
          (fun c hc => Function.update_of_ne ?_ _ _) rfl
        rintro rfl
        exact hq (hr.apart q' q c hc (hmem c (List.mem_append_right _ List.mem_cons_self)).1)

omit [DecidableEq Q] [DecidableEq A] in
/-- Queues that have all been initialized are empty. -/
theorem empty (h : Links Q A) (hhead : ∀ q, h.pointer (.head q) = none)
    (hlast : ∀ q, h.last q = .head q) : Represents h fun _ => [] := by
  refine ⟨fun q => ⟨trivial, hlast q, ?_⟩, fun _ => List.nodup_nil, fun q q' a ha => by cases ha⟩
  rw [hlast]
  exact hhead q

omit [DecidableEq Q] [DecidableEq A] in
/-- `TAILQ_FIRST` of a queue that represents a list. -/
theorem first (hr : Represents h queues) (q : Q) : h.first q = (queues q).head? :=
  (hr.queue q).segment.pointer ((hr.queue q).last ▸ (hr.queue q).stop)

omit [DecidableEq Q] [DecidableEq A] in
/-- The link of an element is the address of the next one. -/
theorem next (hr : Represents h queues) (hqueue : queues q = as ++ a :: bs) :
    h.pointer (.next a) = bs.head? := by
  obtain ⟨hs, hl, hstop⟩ := hr.queue q
  rw [hl, hqueue, tail_append] at hstop
  rw [hqueue] at hs
  obtain ⟨-, -, -, hback⟩ := (Links.segment_append as (a :: bs) _).mp hs
  exact hback.pointer hstop

omit [DecidableEq Q] [DecidableEq A] in
/-- Following the links from the head gives the elements. -/
theorem walk (hr : Represents h queues) (q : Q) {n : Nat} (hn : (queues q).length ≤ n) :
    h.walk n (h.first q) = queues q :=
  (hr.queue q).segment.walk ((hr.queue q).last ▸ (hr.queue q).stop) hn

omit [DecidableEq Q] [DecidableEq A] in
/-- The loop over a queue visits its elements in their order. -/
theorem each (hr : Represents h queues) (q : Q) (visit : σ → A → σ) {n : Nat}
    (hn : (queues q).length ≤ n) (s : σ) :
    h.each visit n s (h.first q) = some ((queues q).foldl visit s) :=
  (hr.queue q).segment.each visit ((hr.queue q).last ▸ (hr.queue q).stop) hn s

/-- The loop from an element on: it removes the chosen ones of the elements that are left, and
visits them in their order. -/
theorem removeLoop_from (chosen : A → Bool) (visit : σ → A → Option σ) (bs : List A) :
    ∀ {n : Nat} {h : Links Q A} {queues : Q → List A} {as : List A}, Represents h queues →
      queues q = as ++ bs → bs.length ≤ n →
      ∃ h', Represents h' (Function.update queues q (as ++ bs.filter fun a => !chosen a)) ∧
        ∀ s, h.removeLoop chosen visit q n s bs.head? =
          ((bs.filter chosen).foldlM visit s).map fun s' => (s', h') := by
  induction bs with
  | nil =>
      intro n h queues as hr hqueue _
      refine ⟨h, ?_, fun s => ?_⟩
      · rw [List.filter_nil, ← hqueue, Function.update_eq_self]
        exact hr
      · cases n <;> rfl
  | cons a bs ih =>
      intro n h queues as hr hqueue hn
      cases n with
      | zero => cases hn
      | succ n =>
          have hn := Nat.le_of_succ_le_succ hn
          cases hchosen : chosen a with
          | false =>
              -- The element stays, in front of the rest.
              have hqueue' : queues q = (as ++ [a]) ++ bs := by rw [hqueue]; simp
              obtain ⟨h', hr', hloop⟩ := ih hr hqueue' hn
              refine ⟨h', ?_, fun s => ?_⟩
              · simpa [hchosen] using hr'
              · show (if chosen a then _ else h.removeLoop chosen visit q n s _) = _
                rw [hchosen, if_neg Bool.false_ne_true, hr.next hqueue, hloop]
                simp [hchosen]
          | true =>
              have hqueue' : Function.update queues q (as ++ bs) q = as ++ bs :=
                Function.update_self _ _ _
              obtain ⟨h', hr', hloop⟩ := ih (hr.remove hqueue) hqueue' hn
              refine ⟨h', ?_, fun s => ?_⟩
              · rw [Function.update_idem] at hr'
                simpa [hchosen] using hr'
              · show (if chosen a then (visit s a).bind fun s' =>
                  (h.remove q a).removeLoop chosen visit q n s' (h.pointer (.next a)) else _) = _
                rw [hchosen, if_pos rfl, hr.next hqueue, List.filter_cons_of_pos hchosen,
                  List.foldlM_cons]
                cases visit s a with
                | none => rfl
                | some s' => exact hloop s'

/-- The loop removes the chosen elements, and visits them in their order. -/
theorem removeLoop (hr : Represents h queues) (chosen : A → Bool) (visit : σ → A → Option σ)
    {n : Nat} (hn : (queues q).length ≤ n) :
    ∃ h', Represents h' (Function.update queues q ((queues q).filter fun a => !chosen a)) ∧
      ∀ s, h.removeLoop chosen visit q n s (h.first q) =
        (((queues q).filter chosen).foldlM visit s).map fun s' => (s', h') := by
  rw [hr.first q]
  have hqueue : queues q = [] ++ queues q := rfl
  exact removeLoop_from chosen visit (queues q) hr hqueue hn

/-- The first element is removed. -/
theorem removeFirst (hr : Represents h queues) (hqueue : queues q = a :: as) :
    Represents (h.remove q a) (Function.update queues q as) :=
  hr.remove (show queues q = [] ++ a :: as from hqueue)

/-- The first element goes to the end. -/
theorem rotate (hr : Represents h queues) (hqueue : queues q = a :: as) :
    Represents ((h.remove q a).insertTail q a) (Function.update queues q (as ++ [a])) := by
  have hnodup := hr.nodup q
  rw [hqueue] at hnodup
  have hremoved := hr.removeFirst hqueue
  have hadded := hremoved.insertTail (q := q) (a := a) fun q' hmem => ?_
  · rwa [Function.update_self, Function.update_idem] at hadded
  · by_cases hq : q' = q
    · rw [hq, Function.update_self] at hmem
      exact (List.nodup_cons.mp hnodup).1 hmem
    · rw [Function.update_of_ne hq] at hmem
      exact hq (hr.apart q' q a hmem (hqueue ▸ List.mem_cons_self))

/-- The search on the links chooses as the search on the list does. -/
theorem secondChance (referenced : σ → A → Bool) (dereference : σ → A → σ) {n : Nat} :
    ∀ {s : σ} {h : Links Q A} {queues : Q → List A}, Represents h queues →
      Option.Rel (fun x y => x.1 = y.1 ∧ x.2.1 = y.2.1 ∧
          Represents x.2.2 (Function.update queues q y.2.2))
        (h.secondChance referenced dereference q n s)
        (SecondChance.select referenced dereference n s (queues q)) := by
  induction n with
  | zero => exact fun _ => Option.Rel.none
  | succ n ih =>
      intro s h queues hr
      unfold Links.secondChance
      -- An empty queue has no victim.
      cases hqueue : queues q with
      | nil =>
          rw [hr.first q, hqueue]
          refine Option.Rel.some ⟨rfl, rfl, ?_⟩
          show Represents h (Function.update queues q [])
          rw [← hqueue, Function.update_eq_self]
          exact hr
      | cons a as =>
          rw [hr.first q, hqueue]
          show Option.Rel _ (if referenced s a then _ else _)
            (if referenced s a then SecondChance.select _ _ n _ (as ++ [a]) else _)
          -- The first element is referenced and goes to the end, or it is the victim.
          split
          · have hrotated := ih (s := dereference s a) (hr.rotate hqueue)
            rw [Function.update_self] at hrotated
            simpa only [Function.update_idem] using hrotated
          · exact Option.Rel.some ⟨rfl, rfl, hr.removeFirst hqueue⟩

end Represents

end Sos.Lib.TailQueue
