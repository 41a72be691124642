import Sos.Paging.Reachable

/-!
# `Sos.Properties.Lookups`: the two lookups in a page table

`lookups_agree_iff`: `pager_physical_lookup` and `pager_table_lookup` agree on an address if and
only if there is a second level table for it. `pager_physical_lookup` tests the address of the
first level entry, which is never null, and not the pointer in it. So it follows a null
pointer, where `pager_table_lookup` returns one.

`first_call_follows_null` is the lookup of `syscall_loop` for a process that makes its first
system call before it has touched its IPC page.

Here the lookups are written with the pointers they follow; `pagerTableLookup_eq` and
`pagerPhysicalLookup_eq` say that they are those of `Sos.Mm.State`.
-/

set_option autoImplicit false

namespace Sos

namespace Process

/-- `first_level_lookup`, and the read of `address_ptr`: the second level table, or the null
pointer. `none` is a read through `page_index` where that is null. -/
def firstLevelLookup (p : Process) (index : Nat) : Option (Option SecondLevelTable) :=
  p.pageIndex.map fun directory => directory index

/-- The read of an entry that `second_level_lookup` has computed the address of. `none` is a
read through a null pointer. -/
def secondLevelLookup (secondLevelTable : Option SecondLevelTable) (index : Nat) : Option Nat :=
  secondLevelTable.map fun table => table index

/-- `pager_table_lookup`: the word of the entry, or the null pointer. The outer `none` is a
read through a null pointer. -/
def pagerTableLookup (p : Process) (addr : Nat) : Option (Option Nat) := do
  match ← p.firstLevelLookup (firstLevelIndex addr) with
  | none => some none
  | some table => some (← secondLevelLookup (some table) (secondLevelIndex addr))

/-- `pager_physical_lookup`: an address, 0 for the null pointer. `none` is a read through a
null pointer. -/
def pagerPhysicalLookup (p : Process) (addr : Nat) : Option Nat := do
  let secondLevelTable ← p.firstLevelLookup (firstLevelIndex addr)
  let entry ← secondLevelLookup secondLevelTable (secondLevelIndex addr)
  some (clearLowerBits entry)

/-- No lookup follows a null pointer, and the physical lookup returns the entry that the other
one finds without its flags, or the null pointer. -/
def LookupsAgree (p : Process) (addr : Nat) : Prop :=
  ∃ entry address, p.pagerTableLookup addr = some entry ∧
    p.pagerPhysicalLookup addr = some address ∧
    (entry = none ∨ entry = some 0 → address = 0) ∧
    ∀ word, entry = some word → word ≠ 0 → address = clearLowerBits word

variable {p : Process} {directory : PageDirectory} {addr : Nat}

/-- Without a second-level table `pager_table_lookup` finds no entry. -/
theorem pagerTableLookup_of_null (h : p.pageIndex = some directory)
    (hnull : directory (firstLevelIndex addr) = none) : p.pagerTableLookup addr = some none := by
  simp only [pagerTableLookup, firstLevelLookup, h, Option.map_some, Option.bind_eq_bind,
    Option.bind_some, hnull]

/-- With one it finds the entry of the address. -/
theorem pagerTableLookup_of_table {table : SecondLevelTable} (h : p.pageIndex = some directory)
    (htable : directory (firstLevelIndex addr) = some table) :
    p.pagerTableLookup addr = some (some (table (secondLevelIndex addr))) := by
  simp only [pagerTableLookup, firstLevelLookup, h, Option.map_some, Option.bind_eq_bind,
    Option.bind_some, htable, secondLevelLookup]

/-- Without a second-level table `pager_physical_lookup` follows a null pointer. -/
theorem pagerPhysicalLookup_of_null (h : p.pageIndex = some directory)
    (hnull : directory (firstLevelIndex addr) = none) : p.pagerPhysicalLookup addr = none := by
  simp only [pagerPhysicalLookup, firstLevelLookup, h, Option.map_some, Option.bind_eq_bind,
    Option.bind_some, hnull, secondLevelLookup, Option.map_none, Option.bind_none]

/-- With one it finds the frame of the entry. -/
theorem pagerPhysicalLookup_of_table {table : SecondLevelTable}
    (h : p.pageIndex = some directory)
    (htable : directory (firstLevelIndex addr) = some table) :
    p.pagerPhysicalLookup addr = some (clearLowerBits (table (secondLevelIndex addr))) := by
  simp only [pagerPhysicalLookup, firstLevelLookup, h, Option.map_some, Option.bind_eq_bind,
    Option.bind_some, htable, secondLevelLookup]

end Process

namespace Mm

variable {s : Mm} {tid : ThreadId} {addr : Nat}

/-- The lookup of the model tells the entry from the null pointer only. -/
theorem pagerTableLookup_eq :
    s.pagerTableLookup tid addr = ((s.getProcess tid).pagerTableLookup addr).join := by
  unfold pagerTableLookup
  cases hindex : (s.getProcess tid).pageIndex with
  | none => simp only [Process.pagerTableLookup, Process.firstLevelLookup, hindex, Option.map_none,
      Option.bind_eq_bind, Option.bind_none, Option.join_none]
  | some directory =>
      simp only [Option.bind_eq_bind, Option.bind_some]
      cases htable : directory (firstLevelIndex addr) with
      | none => rw [Process.pagerTableLookup_of_null hindex htable]; rfl
      | some table => rw [Process.pagerTableLookup_of_table hindex htable]; rfl

/-- The lookup by thread id is that in the process of the thread. -/
theorem pagerPhysicalLookup_eq :
    s.pagerPhysicalLookup tid addr = (s.getProcess tid).pagerPhysicalLookup addr := by
  unfold pagerPhysicalLookup pagerTableLookup
  cases hindex : (s.getProcess tid).pageIndex with
  | none => simp only [Process.pagerPhysicalLookup, Process.firstLevelLookup, hindex,
      Option.map_none, Option.bind_eq_bind, Option.bind_none]
  | some directory =>
      simp only [Option.bind_eq_bind, Option.bind_some]
      cases htable : directory (firstLevelIndex addr) with
      | none => rw [Process.pagerPhysicalLookup_of_null hindex htable]; rfl
      | some table => rw [Process.pagerPhysicalLookup_of_table hindex htable]; rfl

end Mm

/-- The two lookups agree on an address if and only if the process has a second level table
for it. -/
theorem lookups_agree_iff {p : Process} {directory : PageDirectory}
    (h : p.pageIndex = some directory) (addr : Nat) :
    p.LookupsAgree addr ↔ directory (firstLevelIndex addr) ≠ none := by
  constructor
  -- Without a table only `pager_physical_lookup` follows the pointer.
  · rintro ⟨entry, address, -, haddress, -⟩ hnull
    rw [Process.pagerPhysicalLookup_of_null h hnull] at haddress
    cases haddress
  · intro hne
    obtain ⟨table, htable⟩ := Option.ne_none_iff_exists'.mp hne
    refine ⟨_, _, Process.pagerTableLookup_of_table h htable,
      Process.pagerPhysicalLookup_of_table h htable, ?_, ?_⟩
    · rintro (hnone | hzero)
      · cases hnone
      · rw [Option.some.inj hzero]
        rfl
    · intro word hword _
      rw [Option.some.inj hword]

/-- Process 1 has touched its first page of the heap, and both lookups find its frame. -/
theorem lookups_agree_iff_touched :
    ∃ s : Mm, s.Reachable Mm.anyStep ∧
      (∃ word, (s.ptable 1).pagerTableLookup heapStart = some (some word) ∧ word ≠ 0 ∧
        (s.ptable 1).pagerPhysicalLookup heapStart = some (clearLowerBits word)) ∧
      (s.ptable 1).LookupsAgree heapStart := by
  -- A store to the first page of the heap creates the second level table and its entry.
  obtain ⟨s, -, hreach, hindex, hentry⟩ := Mm.exists_runOn Mm.anyStep
    (Mm.Boot.small_ok Nat.two_pos (by decide))
    [.createProcess [115] 0, .fault 1 heapStart writable .plain]
    (fun s => (s.ptable 1).pageIndex.isSome ∧
      ((s.ptable 1).pagerTableLookup heapStart).any fun entry => entry.any (· ≠ 0))
    (by decide +kernel)
  obtain ⟨directory, hdirectory⟩ := Option.isSome_iff_exists.mp hindex
  obtain ⟨entry, htable, hany⟩ := (Option.any_eq_true _ _).mp hentry
  obtain ⟨word, rfl, hword⟩ := (Option.any_eq_true _ _).mp hany
  have hne : directory (firstLevelIndex heapStart) ≠ none := by
    intro hnull
    rw [Process.pagerTableLookup_of_null hdirectory hnull] at htable
    cases htable
  have hagree := (lookups_agree_iff hdirectory heapStart).mpr hne
  obtain ⟨entry, address, hentry, haddress, -, hsame⟩ := hagree
  rw [htable] at hentry
  have hzero : word ≠ 0 := of_decide_eq_true hword
  have hclear := hsame word (Option.some.inj hentry).symm hzero
  exact ⟨s, hreach, ⟨word, htable, hzero, hclear ▸ haddress⟩,
    (lookups_agree_iff hdirectory heapStart).mpr hne⟩

/-- A new process makes a system call. The lookup of its IPC page follows a null pointer. -/
theorem first_call_follows_null :
    ∃ s : Mm, s.Reachable Mm.anyStep ∧ s.Running 1 ∧
      ¬ (s.getProcess (threadId 1)).LookupsAgree ipcMemoryStart ∧
      (s.getProcess (threadId 1)).pagerTableLookup ipcMemoryStart = some none ∧
      (s.getProcess (threadId 1)).pagerPhysicalLookup ipcMemoryStart = none := by
  obtain ⟨s, -, hreach, hrun, htable, hphysical⟩ := Mm.exists_runOn Mm.anyStep
    (Mm.Boot.small_ok Nat.two_pos (by decide)) [.createProcess [115] 0]
    (fun s => s.Running 1 ∧
      (s.getProcess (threadId 1)).pagerTableLookup ipcMemoryStart = some none ∧
      (s.getProcess (threadId 1)).pagerPhysicalLookup ipcMemoryStart = none)
    (by decide +kernel)
  refine ⟨s, hreach, hrun, ?_, htable, hphysical⟩
  rintro ⟨entry, address, -, haddress, -⟩
  rw [hphysical] at haddress
  cases haddress

end Sos
