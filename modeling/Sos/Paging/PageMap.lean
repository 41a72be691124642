import Sos.Mm.Step

/-!
# `Sos.Paging.PageMap`: where every page is

The abstract model of the pager and the swapper. A `PageMap` says of each page of each
process-table slot that it has no memory, that it is in a slot of the swap file, or that it
is in a frame. A page in a frame is held by a page queue item, unless it is the IPC page
(`Hold.pinned`), which the swapper never touches.

The frame and the slot of a page follow from its state (`PageState.frame?`,
`PageState.slot?`), and so does its page table entry (`PageState.word`). The decoding
lemmas say that the bit tests of the code read the state back from the word.

The second part is the interface of the page tables of a single process: which entry a
lookup finds (`Process.pte`), and what a store to one entry changes
(`Process.pte_setPte`).
-/

set_option autoImplicit false

namespace Sos

/-- A page of the address space of a process-table slot. -/
@[ext]
structure Page where
  pid : Nat
  addr : Nat
  aligned : addr % pageSize = 0
  bounded : addr < addressSpace
deriving DecidableEq

/-- An aligned address is one of a page. -/
theorem pageAlign_mod (addr : Nat) : pageAlign addr % pageSize = 0 := by
  rw [pageAlign_eq]
  exact Nat.mul_mod_left _ _

/-- The page starts at the address or before it. -/
theorem pageAlign_le (addr : Nat) : pageAlign addr ≤ addr := by
  rw [pageAlign_eq]
  exact Nat.div_mul_le_self _ _

/-- An address is that of its page and an offset in it. -/
theorem pageAlign_add_mod (addr : Nat) : pageAlign addr + addr % pageSize = addr := by
  rw [pageAlign_eq]
  simp only [pageSize]
  omega

namespace Page

/-- The page of slot `p` that contains an address. -/
def containing (p addr : Nat) (h : addr < addressSpace) : Page :=
  ⟨p, pageAlign addr, pageAlign_mod addr, Nat.lt_of_le_of_lt (pageAlign_le addr) h⟩

/-- The thread the pages of a slot belong to. -/
def tid (pg : Page) : ThreadId := threadId pg.pid

/-- The thread of a page has the pid of its process. -/
@[simp]
theorem tid2pid_tid (pg : Page) : tid2pid pg.tid = pg.pid := tid2pid_threadId pg.pid

/-- A page is determined by its thread and its address. -/
theorem eq_of_tid {pg pg' : Page} (ht : pg.tid = pg'.tid) (ha : pg.addr = pg'.addr) :
    pg = pg' :=
  Page.ext (threadId_inj ht) ha

end Page

/-! ### The state of a page -/

namespace PageQueueItem

/-- The swap slot an item holds. -/
def slot (it : PageQueueItem) : Option Nat :=
  if it.swapOffset < 0 then none else some it.swapOffset.toNat

/-- The item is about this page. -/
def For (it : PageQueueItem) (pg : Page) : Prop := it.tid = pg.tid ∧ it.virtualAddress = pg.addr

/-- An item is for one page only. -/
theorem For.unique {it : PageQueueItem} {pg pg' : Page} (h : it.For pg) (h' : it.For pg') :
    pg = pg' :=
  Page.eq_of_tid (h.1.symm.trans h'.1) (h.2.symm.trans h'.2)

/-- The slot of an item is its swap offset, unless that is negative. -/
theorem slot_eq_some {it : PageQueueItem} {b : Nat} : it.slot = some b ↔ it.swapOffset = b := by
  unfold slot
  split
  · simp only [reduceCtorEq, false_iff]
    omega
  · simp only [Option.some.injEq]
    omega

end PageQueueItem

/-- What keeps a page in its frame. -/
inductive Hold
  /-- Nothing: no item refers to the page. -/
  | pinned
  /-- Its item is in the queue of active pages. -/
  | active (it : PageQueueItem)
  /-- Its item is being written to the swap file. -/
  | writing (it : PageQueueItem)
  /-- Its item is being read back from the swap file. -/
  | reading (it : PageQueueItem)

def Hold.item? : Hold → Option PageQueueItem
  | .pinned => none
  | .active it => some it
  | .writing it => some it
  | .reading it => some it

inductive PageState
  | absent
  | swapped (slot : Nat)
  | resident (frame : Nat) (dirty : Bool) (hold : Hold)

abbrev PageMap : Type := Page → PageState

namespace PageState

/-- The page table entry of a page. -/
def word : PageState → Nat
  | .absent => 0
  | .swapped slot => slot + 1
  | .resident frame dirty _ => frame + if dirty then 2 else 0

def frame? : PageState → Option Nat
  | .absent => none
  | .swapped _ => none
  | .resident frame _ _ => some frame

def slot? : PageState → Option Nat
  | .absent => none
  | .swapped slot => some slot
  | .resident _ _ hold => hold.item?.bind PageQueueItem.slot

/-- The item of a page. -/
def item? : PageState → Option PageQueueItem
  | .absent => none
  | .swapped _ => none
  | .resident _ _ hold => hold.item?

/-- A page that has never been referenced has an empty entry. -/
@[simp] theorem word_absent : word .absent = 0 := rfl
/-- The entry of a swapped page is its offset in the swap file, with the flag. -/
@[simp] theorem word_swapped (b : Nat) : word (.swapped b) = b + 1 := rfl
/-- A page that has never been referenced has no frame. -/
@[simp] theorem frame?_absent : frame? .absent = none := rfl
/-- A swapped page has no frame. -/
@[simp] theorem frame?_swapped (b : Nat) : frame? (.swapped b) = none := rfl
/-- A page in memory has one, whatever is going on with it. -/
@[simp] theorem frame?_resident (f : Nat) (d : Bool) (h : Hold) :
    frame? (.resident f d h) = some f := rfl
/-- A page that has never been referenced has no slot. -/
@[simp] theorem slot?_absent : slot? .absent = none := rfl
/-- A swapped page has the slot that its entry names. -/
@[simp] theorem slot?_swapped (b : Nat) : slot? (.swapped b) = some b := rfl
/-- A page without an item has no slot while it is in memory. -/
@[simp] theorem slot?_pinned (f : Nat) (d : Bool) : slot? (.resident f d .pinned) = none := rfl
/-- An active page has the slot of its item. -/
@[simp] theorem slot?_active (f : Nat) (d : Bool) (it : PageQueueItem) :
    slot? (.resident f d (.active it)) = it.slot := rfl
/-- So does a page that is being written. -/
@[simp] theorem slot?_writing (f : Nat) (d : Bool) (it : PageQueueItem) :
    slot? (.resident f d (.writing it)) = it.slot := rfl
/-- And so does a page that is being read. -/
@[simp] theorem slot?_reading (f : Nat) (d : Bool) (it : PageQueueItem) :
    slot? (.resident f d (.reading it)) = it.slot := rfl

/-- The numbers in a state are page-aligned machine words, frames not null. -/
structure Ok (st : PageState) : Prop where
  frame : ∀ f, st.frame? = some f → f % pageSize = 0 ∧ pageSize ≤ f ∧ f < addressSpace
  slot : ∀ b, st.slot? = some b → b % pageSize = 0 ∧ b < maxSwapEntries * pageSize

variable {st : PageState}

/-- A page that leaves its frame for its slot. -/
theorem Ok.swapped (h : st.Ok) {b : Nat} (hslot : st.slot? = some b) : (PageState.swapped b).Ok := by
  refine ⟨nofun, fun c hc => ?_⟩
  obtain rfl := Option.some.inj hc
  exact h.slot b hslot

/-- `IS_SWAPPED` recognises the swapped pages. -/
theorem isSwapped_word (h : st.Ok) : isSwapped st.word = true ↔ ∃ b, st = .swapped b := by
  rw [isSwapped_iff]
  cases st with
  | absent => simp
  -- Slots and frames are multiples of the page size, so that the lowest bit is the mark.
  | swapped b =>
      have := (h.slot b rfl).1
      simp only [pageSize] at this
      simp only [word_swapped, PageState.swapped.injEq, exists_eq', iff_true]
      omega
  -- With or without the dirty bit, which is the second.
  | resident f d hold =>
      have := (h.frame f rfl).1
      simp only [pageSize] at this
      cases d
      · simp [word]
        omega
      · simp [word]
        omega

/-- The null test recognises the pages without memory. -/
theorem word_eq_zero (h : st.Ok) : st.word = 0 ↔ st = .absent := by
  cases st with
  | absent => simp
  | swapped b => simp
  | resident f d hold =>
      have := (h.frame f rfl).2.1
      simp only [pageSize] at this
      cases d
      · simp [word]
        omega
      · simp [word]

/-- `CLEAR_LOWER_BITS` returns the offset of a swapped page. -/
theorem clearLowerBits_swapped {b : Nat} (h : (PageState.swapped b).Ok) :
    clearLowerBits (word (.swapped b)) = b := by
  have := h.slot b rfl
  simp only [pageSize, maxSwapEntries] at this
  rw [clearLowerBits_eq, word_swapped]
  simp only [pageSize]
  omega

/-- `CLEAR_LOWER_BITS` returns the frame of a page in memory. -/
theorem clearLowerBits_resident {f : Nat} {d : Bool} {hold : Hold}
    (h : (PageState.resident f d hold).Ok) :
    clearLowerBits (word (.resident f d hold)) = f := by
  have := h.frame f rfl
  simp only [pageSize, addressSpace] at this
  rw [clearLowerBits_eq]
  cases d <;> simp only [word, pageSize, if_true, if_false, Bool.false_eq_true] <;> omega

/-- The dirty test of the code. -/
theorem and_two_word {f : Nat} {d : Bool} {hold : Hold}
    (h : (PageState.resident f d hold).Ok) :
    ((word (.resident f d hold) &&& 0x2) != 0) = d := by
  have hf := (h.frame f rfl).1
  have htest := Lib.and_two_pow_ne_zero (word (.resident f d hold)) 1
  rw [Nat.testBit_eq_decide_div_mod_eq] at htest
  simp only [pageSize] at hf
  -- A frame is a multiple of the page size, so that the second bit is the mark.
  cases d with
  | false =>
      have hbit : word (.resident f false hold) / 2 % 2 = 0 := by
        simp only [word, Bool.false_eq_true, if_false]
        omega
      simpa [hbit] using htest
  | true =>
      have hbit : word (.resident f true hold) / 2 % 2 = 1 := by
        simp only [word, if_true]
        omega
      simpa [hbit] using htest

/-- `mark_dirty` sets the dirty flag. -/
theorem word_or_two {f : Nat} {d : Bool} {hold : Hold} (h : (PageState.resident f d hold).Ok) :
    word (.resident f d hold) ||| 0x2 = word (.resident f true hold) := by
  have hf := (h.frame f rfl).1
  cases d with
  | false => exact or_two_eq hf
  | true => exact add_two_or_two hf

end PageState

/-! ### The page table of one process -/

/-- The process has a second level table for an address. -/
def Process.HasTable (p : Process) (addr : Nat) : Prop :=
  ∃ directory table, p.pageIndex = some directory ∧
    directory (firstLevelIndex addr) = some table

namespace Process

variable {p : Process}

/-- An entry that is not null is in a table. -/
theorem hasTable_of_pte {addr : Nat} (h : p.pte addr ≠ 0) : p.HasTable addr := by
  unfold pte at h
  split at h
  · exact absurd rfl h
  next directory hd =>
    split at h
    · exact absurd rfl h
    next table ht => exact ⟨directory, table, hd, ht⟩

/-- Two page addresses with the same indices are equal. -/
theorem addr_eq_of_index {a b : Nat} (ha : a % pageSize = 0) (hb : b % pageSize = 0)
    (ha' : a < addressSpace) (hb' : b < addressSpace)
    (h1 : firstLevelIndex a = firstLevelIndex b) (h2 : secondLevelIndex a = secondLevelIndex b) :
    a = b := by
  rw [firstLevelIndex_eq, firstLevelIndex_eq] at h1
  rw [secondLevelIndex_eq, secondLevelIndex_eq] at h2
  simp only [pageSize, addressSpace] at *
  omega

/-- A store to the entry of a page changes the entry of that page only. -/
theorem pte_setPte {a b w : Nat} (ha : a % pageSize = 0) (ha' : a < addressSpace)
    (hb : b % pageSize = 0) (hb' : b < addressSpace) (h : p.HasTable a) :
    (p.setPte a w).pte b = if b = a then w else p.pte b := by
  obtain ⟨directory, table, hd, ht⟩ := h
  simp only [setPte, pte, hd, ht]
  by_cases h1 : firstLevelIndex b = firstLevelIndex a
  · rw [h1, Function.update_self, ht]
    by_cases h2 : secondLevelIndex b = secondLevelIndex a
    · rw [h2, if_pos (addr_eq_of_index hb ha hb' ha' h1 h2)]
      simp
    · have hne : b ≠ a := fun he => h2 (he ▸ rfl)
      simp [hne, Function.update_of_ne h2]
  · have hne : b ≠ a := fun he => h1 (he ▸ rfl)
    rw [Function.update_of_ne h1, if_neg hne]

end Process

end Sos
