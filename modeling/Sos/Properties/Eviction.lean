import Sos.Paging.Reachable

/-!
# `Sos.Properties.Eviction`: which page is swapped out

* `second_chance_select_exact`: the loop of `second_chance_select` ends, and takes the first
  page that is not mapped out of the queue. The pages before it are unmapped and go to the
  tail, in their order. When all pages are mapped the first one is taken, and the others keep
  their order.
* `swap_out_keeps_iff`: when `swap_out` fails, all active pages are still in the queue, if and
  only if the chosen page has a slot in the swap file or a slot is free. Otherwise
  `OUT_OF_SWAP_SPACE` is returned after the page has been taken out of the queue
  (`page_lost`).
-/

set_option autoImplicit false

namespace Sos

open Lib.SecondChance

namespace Mm

/-! ### `second_chance_select` -/

/-- The state after these pages have been unmapped. -/
def dereferenced (s : Mm) (pages : List PageQueueItem) : Mm :=
  { s with
    hw := fun t v =>
      if ∃ it ∈ pages, it.tid = t ∧ it.virtualAddress = v then none else s.hw t v }

/-- Passing over pages clears the reference bit of each. -/
theorem foldl_dereference (pages : List PageQueueItem) :
    ∀ s : Mm, pages.foldl dereference s = s.dereferenced pages := by
  induction pages with
  | nil =>
      intro s
      simp [dereferenced]
  | cons page pages ih =>
      intro s
      rw [List.foldl_cons, ih]
      -- Clearing a bit removes the mapping of the page.
      simp only [dereferenced, dereference, unmapFpage, List.mem_cons, exists_eq_or_imp]
      congr 1
      funext t v
      -- A mapping that is left is of a page that has not been passed.
      by_cases hrest : ∃ it ∈ pages, it.tid = t ∧ it.virtualAddress = v
      · rw [if_pos hrest, if_pos (Or.inr hrest)]
      · rw [if_neg hrest]
        by_cases hpage : page.tid = t ∧ page.virtualAddress = v
        · rw [if_pos (Or.inl hpage), if_pos ⟨hpage.1.symm, hpage.2.symm⟩]
        · rw [if_neg (not_or.mpr ⟨hpage, hrest⟩),
            if_neg fun hsame => hpage ⟨hsame.1.symm, hsame.2.symm⟩]

variable {s : Mm} {n : Nat}

/-- The search with any number of rounds that is large enough. -/
theorem select_unreferenced (h : s.DistinctPages) {before behind : List PageQueueItem}
    {page : PageQueueItem} (hqueue : s.activePages = before ++ page :: behind)
    (hbefore : ∀ it ∈ before, s.isReferenced it = true) (hpage : s.isReferenced page = false)
    (hn : s.activePages.length < n) :
    select isReferenced dereference n s s.activePages =
      some (some page, s.dereferenced before, behind ++ before) := by
  obtain ⟨hpassed, hunpassed⟩ := passed_of_own isReferenced dereference h.own s
  have hneg : ¬ s.isReferenced page = true := by
    rw [hpage]
    exact Bool.false_ne_true
  -- No two pages share an address, so unmapping one leaves the bits of the others alone.
  have htake : s.activePages.takeWhile s.isReferenced = before := by
    rw [hqueue, List.takeWhile_append_of_pos hbefore, List.takeWhile_cons_of_neg hneg,
      List.append_nil]
  have hdrop : s.activePages.dropWhile s.isReferenced = page :: behind := by
    rw [hqueue, List.dropWhile_append_of_pos hbefore, List.dropWhile_cons_of_neg hneg]
  rw [htake] at hpassed
  have hlt : before.length < n := by
    rw [hqueue, List.length_append] at hn
    exact Nat.lt_of_le_of_lt (Nat.le_add_right _ _) hn
  rw [select_stop isReferenced dereference (hpassed ▸ hlt) (hunpassed.trans hdrop), hpassed,
    foldl_dereference]

/-- If all pages are referenced, the hand goes once around and takes the first. -/
theorem select_referenced (h : s.DistinctPages) {page : PageQueueItem}
    {rest : List PageQueueItem} (hqueue : s.activePages = page :: rest)
    (hall : ∀ it ∈ s.activePages, s.isReferenced it = true) (hn : s.activePages.length < n) :
    select isReferenced dereference n s s.activePages =
      some (some page, s.dereferenced s.activePages, rest) := by
  have hunpassed := (passed_of_own isReferenced dereference h.own s).2
  -- Every page gets its second chance, and the first one is met again, now unmapped.
  have hdrop : s.activePages.dropWhile s.isReferenced = [] := by
    rw [← List.append_nil s.activePages, List.dropWhile_append_of_pos hall, List.dropWhile_nil]
  rw [hdrop, hqueue] at hunpassed
  rw [hqueue] at hn ⊢
  rw [select_all isReferenced dereference lawful_isReferenced hn hunpassed, foldl_dereference]

/-- Some page is not mapped, or all are. -/
theorem queue_cases (s : Mm) :
    s.activePages = [] ∨
      (∃ before page behind, s.activePages = before ++ page :: behind ∧
        (∀ it ∈ before, s.isReferenced it = true) ∧ s.isReferenced page = false) ∨
      ∃ page rest, s.activePages = page :: rest ∧
        ∀ it ∈ s.activePages, s.isReferenced it = true := by
  have hsplit : s.activePages.takeWhile s.isReferenced ++ s.activePages.dropWhile s.isReferenced =
      s.activePages := List.takeWhile_append_dropWhile
  have hbefore : ∀ it ∈ s.activePages.takeWhile s.isReferenced, s.isReferenced it = true :=
    List.all_eq_true.mp List.all_takeWhile
  -- Some page is not referenced, and the first of them is the victim.
  cases hdrop : s.activePages.dropWhile s.isReferenced with
  | cons page behind =>
      have hpage := List.head?_dropWhile_not s.isReferenced s.activePages
      rw [hdrop] at hpage hsplit
      exact Or.inr (Or.inl ⟨_, page, behind, hsplit.symm, hbefore, hpage⟩)
  -- All are referenced, if there are any.
  | nil =>
      rw [hdrop, List.append_nil] at hsplit
      rw [hsplit] at hbefore
      cases hqueue : s.activePages with
      | nil => exact Or.inl rfl
      | cons page rest => exact Or.inr (Or.inr ⟨page, rest, rfl, hqueue ▸ hbefore⟩)

end Mm

/-- What `second_chance_select` does to a queue of pages at different addresses: the result,
the pages that are unmapped and the queue that is left. More rounds than the length of the
queue and one do not change it. -/
theorem second_chance_select_exact (s : Mm) (h : s.DistinctPages) :
    (∃ s' page, s.secondChanceSelect = some (s', page) ∧ (page = none ↔ s.activePages = [])) ∧
    (s.activePages = [] → s.secondChanceSelect = some (s, none)) ∧
    (∀ before page behind, s.activePages = before ++ page :: behind →
      (∀ it ∈ before, s.isReferenced it = true) → s.isReferenced page = false →
      s.secondChanceSelect =
        some ({ s.dereferenced before with activePages := behind ++ before }, some page)) ∧
    (∀ page rest, s.activePages = page :: rest →
      (∀ it ∈ s.activePages, s.isReferenced it = true) →
      s.secondChanceSelect =
        some ({ s.dereferenced s.activePages with activePages := rest }, some page)) ∧
    ∀ n, s.activePages.length < n →
      select Mm.isReferenced Mm.dereference n s s.activePages =
        select Mm.isReferenced Mm.dereference (s.activePages.length + 1) s s.activePages := by
  have hrounds : s.activePages.length < s.activePages.length + 1 := Nat.lt_succ_self _
  have hempty : s.activePages = [] → s.secondChanceSelect = some (s, none) := by
    intro hnil
    unfold Mm.secondChanceSelect
    rw [hnil]
    show some (({ s with activePages := [] } : Mm), none) = _
    rw [← hnil]
  have hunreferenced : ∀ before page behind, s.activePages = before ++ page :: behind →
      (∀ it ∈ before, s.isReferenced it = true) → s.isReferenced page = false →
      s.secondChanceSelect =
        some ({ s.dereferenced before with activePages := behind ++ before }, some page) := by
    intro before page behind hqueue hbefore hpage
    unfold Mm.secondChanceSelect
    rw [Mm.select_unreferenced h hqueue hbefore hpage hrounds]
    rfl
  have hreferenced : ∀ page rest, s.activePages = page :: rest →
      (∀ it ∈ s.activePages, s.isReferenced it = true) →
      s.secondChanceSelect =
        some ({ s.dereferenced s.activePages with activePages := rest }, some page) := by
    intro page rest hqueue hall
    unfold Mm.secondChanceSelect
    rw [Mm.select_referenced h hqueue hall hrounds]
    rfl
  -- The three cases are all there are, and no one of them needs more rounds.
  refine ⟨?_, hempty, hunreferenced, hreferenced, ?_⟩
  · rcases s.queue_cases with hnil | ⟨before, page, behind, hqueue, hbefore, hpage⟩ |
      ⟨page, rest, hqueue, hall⟩
    · exact ⟨s, none, hempty hnil, iff_of_true rfl hnil⟩
    · refine ⟨_, _, hunreferenced before page behind hqueue hbefore hpage, iff_of_false nofun ?_⟩
      rw [hqueue]
      exact List.append_ne_nil_of_right_ne_nil _ (List.cons_ne_nil _ _)
    · refine ⟨_, _, hreferenced page rest hqueue hall, iff_of_false nofun ?_⟩
      rw [hqueue]
      exact List.cons_ne_nil _ _
  · intro n hn
    rcases s.queue_cases with hnil | ⟨before, page, behind, hqueue, hbefore, hpage⟩ |
      ⟨page, rest, hqueue, hall⟩
    · obtain ⟨m, rfl⟩ := Nat.exists_eq_add_of_lt hn
      rw [hnil]
      rfl
    · rw [Mm.select_unreferenced h hqueue hbefore hpage hn,
        Mm.select_unreferenced h hqueue hbefore hpage hrounds]
    · rw [Mm.select_referenced h hqueue hall hn, Mm.select_referenced h hqueue hall hrounds]

/-- An item for a page of the heap of process 1. -/
def heapItem (i : Nat) (swapOffset : Int) : PageQueueItem where
  id := i
  processDeleted := false
  tid := threadId 1
  virtualAddress := heapStart + i * pageSize
  swapOffset := swapOffset
  toSwap := 0
  initiator := nilthread

/-- The pager after booting, with these active pages, of which the first is mapped. -/
def withPages (pages : List PageQueueItem) (swapBitfield : Bitfield) : Mm :=
  { (Mm.boot (.small 2)).get Mm.boot_small_two with
    activePages := pages
    swapBitfield := swapBitfield
    hw := fun t v => if t = threadId 1 ∧ v = heapStart then some ⟨0x1000, readable⟩ else none }

/-- The first page is mapped, so that the second one is taken. -/
theorem second_chance_select_exact_two :
    (withPages [heapItem 0 (-1), heapItem 1 (-1)] fun _ => 0).secondChanceSelect.map
      (fun r => (r.1.activePages.map (·.id), r.2.map (·.id))) = some ([0], some 1) := by
  have hselect := (second_chance_select_exact
    (withPages [heapItem 0 (-1), heapItem 1 (-1)] fun _ => 0)
    (by show List.Pairwise _ [heapItem 0 (-1), heapItem 1 (-1)]; decide)).2.2.1
    [heapItem 0 (-1)] (heapItem 1 (-1)) [] rfl (by decide +kernel) (by decide +kernel)
  rw [hselect]
  rfl

/-! ### A failing `swap_out` -/

namespace Mm

/-- The page that `second_chance_select` takes out of the queue: the first one that is not
mapped when its turn comes, or else the first one. -/
def nextVictim (s : Mm) : Option PageQueueItem :=
  chosen isReferenced dereference s s.activePages

/-- The page to be taken has a slot in the swap file, or a slot is free. -/
def SlotForVictim (s : Mm) : Prop :=
  ∀ page, s.nextVictim = some page → page.swapOffset < 0 →
    ∃ i < maxSwapEntries, bitfieldGet s.swapBitfield i = false

/-- Every active page is still an active page, with the same contents. -/
def KeepsActive (s s' : Mm) : Prop := s.activePages.Subperm s'.activePages

variable {s : Mm}

/-- There is no slot if and only if all bits are set. -/
theorem allocateSwapEntry_neg_iff :
    s.allocateSwapEntry.2 < 0 ↔ ¬ ∃ i < maxSwapEntries, bitfieldGet s.swapBitfield i = false := by
  unfold allocateSwapEntry
  split
  -- The slot that is found is free, and its offset is not negative.
  next i hfind =>
    have hfree := List.find?_some hfind
    have hi := List.mem_range.mp (List.mem_of_find?_eq_some hfind)
    refine iff_of_false ?_ fun hno => hno ⟨i, hi, ?_⟩
    · have hnonneg : 0 ≤ (i : Int) * pageSize :=
        Int.mul_nonneg (Int.natCast_nonneg i) (Int.natCast_nonneg pageSize)
      exact Int.not_lt.mpr hnonneg
    · simpa using hfree
  -- No slot is found, and so none is free.
  next hnone =>
    refine iff_of_true (show (-1 : Int) < 0 by decide) ?_
    rintro ⟨i, hi, hfree⟩
    have hused := List.find?_eq_none.mp hnone i (List.mem_range.mpr hi)
    rw [hfree] at hused
    exact hused rfl

/-- Looking for a slot leaves the queue. -/
theorem allocateSwapEntry_activePages : s.allocateSwapEntry.1.activePages = s.activePages := by
  unfold allocateSwapEntry
  split
  · rfl
  · rfl

/-- What the search returns is the victim that the queue and the bits determine. -/
theorem secondChanceSelect_nextVictim {s' : Mm} {page : Option PageQueueItem}
    (hsel : s.secondChanceSelect = some (s', page)) : page = s.nextVictim := by
  obtain ⟨⟨page₁, s₁, queue⟩, hselect, hsome⟩ := Option.bind_eq_some_iff.mp hsel
  cases hsome
  exact select_chosen isReferenced dereference lawful_isReferenced (Nat.lt_succ_self _) hselect

/-- With a slot for the page `swap_out` does not fail. -/
theorem writeBack_result {s' : Mm} {initiator : ThreadId} {page : PageQueueItem}
    {r : SwapOutResult} (h : s.writeBack initiator page = some (s', r)) :
    r ≠ .noPageAvailable ∧ r ≠ .outOfSwapSpace := by
  simp only [writeBack, Option.bind_eq_bind, Option.bind_eq_some_iff] at h
  obtain ⟨dirty, -, h⟩ := h
  split at h
  · obtain ⟨frame, -, h⟩ := Option.bind_eq_some_iff.mp h
    split at h
    · cases h
    · cases h
      exact ⟨(by simp), (by simp)⟩
  · split at h
    · cases h
    · simp only [Option.bind_eq_some_iff] at h
      obtain ⟨pte, -, s₁, -, s₂, -, h⟩ := h
      cases h
      exact ⟨(by simp), (by simp)⟩

/-- `swap_out` returns `OUT_OF_SWAP_SPACE` exactly when there is no slot for the page that it
has taken out of the queue. -/
theorem swapOut_failing (s : Mm) (initiator : ThreadId) :
    (s.activePages = [] ∧ s.swapOut initiator = some (s, .noPageAvailable)) ∨
      (¬ s.SlotForVictim ∧ ∃ s' page, s.swapOut initiator = some (s', .outOfSwapSpace) ∧
        (page :: s'.activePages).Perm s.activePages) ∨
      (s.SlotForVictim ∧ ∀ s' r, s.swapOut initiator = some (s', r) →
        r ≠ .noPageAvailable ∧ r ≠ .outOfSwapSpace) := by
  rcases s.secondChanceSelect_spec with ⟨hnil, hsel⟩ | ⟨hw, page, rest, hsel, hperm, -, hunmapped⟩
  · refine Or.inl ⟨hnil, ?_⟩
    simp only [swapOut, hsel, Option.bind_eq_bind, Option.bind_some]
  · have hvictim := secondChanceSelect_nextVictim hsel
    have hunref : isReferenced { s with hw := hw, activePages := rest } page = false := by
      show (hw page.tid page.virtualAddress).isSome = false
      rw [hunmapped]
      rfl
    have hswap := swapOut_selected initiator hsel hunref
    -- A page that was swapped before has a slot; only a new one needs `allocate_swap_entry`.
    by_cases hslot : page.swapOffset < 0
    · rw [if_pos hslot] at hswap
      by_cases hfull : (allocateSwapEntry { s with hw := hw, activePages := rest }).2 < 0
      · rw [if_pos hfull] at hswap
        have hno := allocateSwapEntry_neg_iff.mp hfull
        refine Or.inr (Or.inl ⟨fun hall => hno (hall page hvictim.symm hslot), _, page, hswap, ?_⟩)
        rw [allocateSwapEntry_activePages]
        exact hperm
      · rw [if_neg hfull] at hswap
        refine Or.inr (Or.inr ⟨fun _ _ _ => ?_, fun s' r h => ?_⟩)
        · exact not_not.mp fun hno => hfull (allocateSwapEntry_neg_iff.mpr hno)
        · exact writeBack_result (hswap.symm.trans h)
    · rw [if_neg hslot] at hswap
      refine Or.inr (Or.inr ⟨fun page' hpage' hneg => ?_, fun s' r h => ?_⟩)
      · rw [← hvictim, Option.some.injEq] at hpage'
        exact absurd (hpage' ▸ hneg) hslot
      · exact writeBack_result (hswap.symm.trans h)

end Mm

/-- A failing `swap_out` leaves every active page in the queue, if and only if the page that it
takes out of the queue has a slot in the swap file, or a slot is free. -/
theorem swap_out_keeps_iff (s : Mm) (initiator : ThreadId) :
    (∀ s' r, s.swapOut initiator = some (s', r) →
      r = .noPageAvailable ∨ r = .outOfSwapSpace → s.KeepsActive s') ↔ s.SlotForVictim := by
  rcases s.swapOut_failing initiator with ⟨hnil, hswap⟩ | ⟨hno, s', page, hswap, hperm⟩ |
    ⟨hslot, hgood⟩
  · refine iff_of_true ?_ ?_
    · intro s' r h _
      rw [hswap, Option.some.injEq, Prod.mk.injEq] at h
      exact h.1 ▸ List.Subperm.refl _
    · intro page hpage
      rw [Mm.nextVictim, hnil] at hpage
      cases hpage
  · refine iff_of_false ?_ hno
    intro hkeeps
    -- The queue is one page shorter, so it cannot hold all of them.
    have hlength := (hkeeps s' _ hswap (Or.inr rfl)).length_le
    rw [← hperm.length_eq, List.length_cons] at hlength
    omega
  · refine iff_of_true ?_ hslot
    intro s' r h hfails
    exact (hfails.elim (hgood s' r h).1 (hgood s' r h).2).elim

/-- The swap file is full, and the only active page has no copy in it. `swap_out` returns
`OUT_OF_SWAP_SPACE`, and the page is in no queue any more. -/
theorem page_lost : ∃ s s' : Mm, ∃ page ∈ s.activePages,
    s.swapOut (threadId 1) = some (s', .outOfSwapSpace) ∧ s'.activePages = [] ∧
      s'.swappingPages = [] ∧ ¬ s.KeepsActive s' := by
  have hswap : ((withPages [heapItem 1 (-1)] fun _ => 0xFF).swapOut (threadId 1)).any (fun r =>
      decide (r.2 = .outOfSwapSpace) && r.1.activePages.isEmpty && r.1.swappingPages.isEmpty) =
        true := by
    decide +kernel
  rw [Option.any_eq_true] at hswap
  obtain ⟨⟨s', r⟩, hs', hP⟩ := hswap
  rw [Bool.and_eq_true, Bool.and_eq_true, decide_eq_true_eq, List.isEmpty_iff,
    List.isEmpty_iff] at hP
  obtain ⟨⟨rfl, hactive⟩, hswapping⟩ := hP
  refine ⟨_, s', heapItem 1 (-1), List.mem_singleton.mpr rfl, hs', hactive, hswapping, ?_⟩
  intro hkeeps
  have hlength := List.Subperm.length_le hkeeps
  rw [hactive] at hlength
  exact absurd hlength (by decide)

end Sos
