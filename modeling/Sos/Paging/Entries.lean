import Mathlib.Algebra.BigOperators.Group.Finset.Piecewise
import Mathlib.Algebra.BigOperators.Group.Finset.Sigma
import Mathlib.Algebra.Order.BigOperators.Group.Finset
import Sos.Paging.Fields
import Sos.Paging.Refines

/-!
# `Sos.Paging.Entries`: how many pages a process has

`Process.entries` counts the page table entries that are not `NULL`. Which entries these are
is a set of index pairs (`Process.held`), so that the count follows from the pages that come
and go: a page more is one more (`entries_succ`), and a page table whose pages are among those
of another one has as many only if they are the same (`entries_eq_iff`). `entries_full`
compares the count with the number of turns of the loop of `pager_free_all`.
-/

set_option autoImplicit false

namespace Sos

/-- Where the entry of a page is. -/
def Page.index (pg : Page) : Nat × Nat := (firstLevelIndex pg.addr, secondLevelIndex pg.addr)

/-- Two pages of a process with the same two indices are the same. -/
theorem Page.index_inj (pg : Page) {pg' : Page} (hp : pg.pid = pg'.pid)
    (h : pg.index = pg'.index) : pg = pg' := by
  obtain ⟨h1, h2⟩ := Prod.mk.inj h
  exact Page.ext hp (Process.addr_eq_of_index pg.aligned pg'.aligned pg.bounded pg'.bounded h1 h2)

namespace Process

/-- The second level table of an index. -/
def table? (P : Process) (i : Nat) : Option (Nat → Nat) :=
  P.pageIndex.bind fun directory => directory i

/-- The entries of one second level table that are not `NULL`. -/
def row (P : Process) (i : Nat) : Nat :=
  match P.table? i with
  | none => 0
  | some table => (List.range secondLevelEntries).countP fun j => table j ≠ 0

/-- The page table entries that are not `NULL`. -/
def entries (P : Process) : Nat := ((List.range firstLevelEntries).map P.row).sum

/-- Every entry of every second level table is in use. -/
def Full (P : Process) : Prop :=
  ∀ i < firstLevelEntries, ∀ table ∈ P.table? i, ∀ j < secondLevelEntries, table j ≠ 0

instance (P : Process) : Decidable P.Full :=
  inferInstanceAs (Decidable (∀ i < firstLevelEntries, ∀ table ∈ P.table? i,
    ∀ j < secondLevelEntries, table j ≠ 0))

/-- The indices of the entries that are not `NULL`. Irreducible, since unfolding it lists all of
them. -/
@[irreducible]
def held (P : Process) : Finset (Nat × Nat) :=
  (Finset.range firstLevelEntries ×ˢ Finset.range secondLevelEntries).filter fun x =>
    P.pte (createVirtualAddress x.1 x.2) ≠ 0

variable {P P' : Process}

/-- The first index of an address that is made of two indices. -/
theorem firstLevelIndex_create {i j : Nat} (hi : i < firstLevelEntries)
    (hj : j < secondLevelEntries) : firstLevelIndex (createVirtualAddress i j) = i := by
  have hi' : i < 2 ^ 12 := hi
  have hj' : j < 2 ^ 8 := hj
  rw [firstLevelIndex_eq, createVirtualAddress_eq hj]
  omega

/-- The second index of such an address. -/
theorem secondLevelIndex_create {i j : Nat} (hj : j < secondLevelEntries) :
    secondLevelIndex (createVirtualAddress i j) = j := by
  have hj' : j < 2 ^ 8 := hj
  rw [secondLevelIndex_eq, createVirtualAddress_eq hj]
  omega

/-- The entry for such an address is the one with these indices, and 0 where there is no table. -/
theorem pte_create {i j : Nat} (hi : i < firstLevelEntries) (hj : j < secondLevelEntries) :
    P.pte (createVirtualAddress i j) =
      match P.table? i with
      | none => 0
      | some table => table j := by
  unfold pte table?
  cases hd : P.pageIndex with
  | none => rfl
  | some directory =>
      simp only [Option.bind_some, firstLevelIndex_create hi hj, secondLevelIndex_create hj]
      rfl

/-- A count over the first numbers is the size of a finite set. -/
theorem countP_range (n : Nat) (p : Nat → Prop) [DecidablePred p] :
    ((List.range n).countP fun j => p j) = ((Finset.range n).filter p).card := by
  rw [List.countP_eq_length_filter]
  rfl

/-- The entries of one second level table, counted by their addresses. -/
theorem row_eq (P : Process) {i : Nat} (hi : i < firstLevelEntries) :
    P.row i = ((Finset.range secondLevelEntries).filter fun j =>
      P.pte (createVirtualAddress i j) ≠ 0).card := by
  have hpte : ∀ j ∈ Finset.range secondLevelEntries, P.pte (createVirtualAddress i j) = _ :=
    fun j hj => pte_create hi (Finset.mem_range.mp hj)
  rw [Finset.filter_congr fun j hj => by rw [hpte j hj], row]
  cases ht : P.table? i with
  | none => simp
  | some table => exact countP_range _ _

/-- A sum over the first numbers is one over a finite set. -/
theorem sum_map_range (n : Nat) (f : Nat → Nat) :
    ((List.range n).map f).sum = ∑ i ∈ Finset.range n, f i := rfl

/-- The entries of a page table are those of its second level tables together. -/
theorem entries_eq_sum (P : Process) :
    P.entries = ∑ i ∈ Finset.range firstLevelEntries, P.row i :=
  sum_map_range firstLevelEntries P.row

/-- The number of entries is that of the addresses that have one. -/
theorem entries_eq_card (P : Process) : P.entries = P.held.card := by
  unfold held
  rw [Finset.card_filter, Finset.sum_product, entries_eq_sum]
  refine Finset.sum_congr rfl fun i hi => ?_
  rw [P.row_eq (Finset.mem_range.mp hi), Finset.card_filter]

/-- An entry that is not `NULL` is the entry of a page. -/
theorem mem_held (p : Nat) {x : Nat × Nat} :
    x ∈ P.held ↔ ∃ pg : Page, pg.pid = p ∧ pg.index = x ∧ P.pte pg.addr ≠ 0 := by
  obtain ⟨i, j⟩ := x
  unfold held
  rw [Finset.mem_filter, Finset.mem_product, Finset.mem_range, Finset.mem_range]
  constructor
  -- Two indices in range are those of one page address.
  · rintro ⟨⟨hi, hj⟩, hne⟩
    have hi' : i < 2 ^ 12 := hi
    have hj' : j < 2 ^ 8 := hj
    have haddr : createVirtualAddress i j = i * 2 ^ 20 + j * 2 ^ 12 := createVirtualAddress_eq hj
    refine ⟨⟨p, createVirtualAddress i j, ?_, ?_⟩, rfl, ?_, hne⟩
    · rw [haddr]
      simp only [pageSize]
      omega
    · rw [haddr]
      simp only [addressSpace]
      omega
    · rw [Page.index, firstLevelIndex_create hi hj, secondLevelIndex_create hj]
  -- A page address has two indices in range, and they make it up again.
  · rintro ⟨pg, -, hindex, hne⟩
    have halign := pg.aligned
    have hbound := pg.bounded
    obtain ⟨rfl, rfl⟩ := Prod.mk.inj hindex
    have hi : firstLevelIndex pg.addr < firstLevelEntries := by
      rw [firstLevelIndex_eq]
      exact Nat.mod_lt _ (Nat.two_pow_pos 12)
    have hj : secondLevelIndex pg.addr < secondLevelEntries := by
      rw [secondLevelIndex_eq]
      exact Nat.mod_lt _ (Nat.two_pow_pos 8)
    have haddr : createVirtualAddress (firstLevelIndex pg.addr) (secondLevelIndex pg.addr) =
        pg.addr := by
      rw [createVirtualAddress_eq hj, firstLevelIndex_eq, secondLevelIndex_eq]
      simp only [pageSize, addressSpace] at halign hbound
      omega
    exact ⟨⟨hi, hj⟩, by rwa [haddr]⟩

/-- The addresses with an entry are fewer when no entry is new. -/
theorem held_subset {p : Nat}
    (h : ∀ pg : Page, pg.pid = p → P'.pte pg.addr ≠ 0 → P.pte pg.addr ≠ 0) :
    P'.held ⊆ P.held := by
  intro x hx
  obtain ⟨pg, hp, hindex, hne⟩ := (mem_held p).mp hx
  exact (mem_held p).mpr ⟨pg, hp, hindex, h pg hp hne⟩

/-- Two tables with the same pages. -/
theorem entries_congr {p : Nat}
    (h : ∀ pg : Page, pg.pid = p → (P'.pte pg.addr ≠ 0 ↔ P.pte pg.addr ≠ 0)) :
    P'.entries = P.entries := by
  rw [entries_eq_card, entries_eq_card]
  congr 1
  exact (held_subset fun pg hp => (h pg hp).mp).antisymm (held_subset fun pg hp => (h pg hp).mpr)

/-- A table with one page more. -/
theorem entries_succ (pg : Page) (hnew : P'.pte pg.addr ≠ 0) (hold : P.pte pg.addr = 0)
    (h : ∀ pg' : Page, pg'.pid = pg.pid → pg' ≠ pg →
      (P'.pte pg'.addr ≠ 0 ↔ P.pte pg'.addr ≠ 0)) :
    P'.entries = P.entries + 1 := by
  -- The place in the table is new.
  have hnot : pg.index ∉ P.held := by
    intro hm
    obtain ⟨pg', hp, hindex, hne⟩ := (mem_held pg.pid).mp hm
    rw [pg'.index_inj hp hindex] at hne
    exact hne hold
  have hheld : P'.held = insert pg.index P.held := by
    ext x
    rw [Finset.mem_insert, mem_held pg.pid, mem_held pg.pid]
    constructor
    · rintro ⟨pg', hp, rfl, hne⟩
      by_cases he : pg' = pg
      · exact Or.inl (by rw [he])
      · exact Or.inr ⟨pg', hp, rfl, (h pg' hp he).mp hne⟩
    · rintro (rfl | ⟨pg', hp, rfl, hne⟩)
      · exact ⟨pg, rfl, rfl, hnew⟩
      · refine ⟨pg', hp, rfl, ?_⟩
        by_cases he : pg' = pg
        · rwa [he]
        · exact (h pg' hp he).mpr hne
  rw [entries_eq_card, entries_eq_card, hheld, Finset.card_insert_of_notMem hnot]

/-- A table whose pages are among those of another one. -/
theorem entries_eq_iff {p : Nat}
    (h : ∀ pg : Page, pg.pid = p → P'.pte pg.addr ≠ 0 → P.pte pg.addr ≠ 0) :
    P'.entries = P.entries ↔
      ∀ pg : Page, pg.pid = p → P.pte pg.addr ≠ 0 → P'.pte pg.addr ≠ 0 := by
  refine ⟨fun heq pg hp hne => ?_, fun h' => entries_congr fun pg hp => ⟨h pg hp, h' pg hp⟩⟩
  rw [entries_eq_card, entries_eq_card] at heq
  have hheld := Finset.eq_of_subset_of_card_le (held_subset h) heq.ge
  have hm : pg.index ∈ P'.held := by
    rw [hheld]
    exact (mem_held p).mpr ⟨pg, hp, rfl, hne⟩
  obtain ⟨pg', hp', hindex, hne'⟩ := (mem_held p).mp hm
  rwa [pg'.index_inj (hp'.trans hp.symm) hindex] at hne'

/-- The number of entries depends on the page table only. -/
theorem entries_of_index (h : P'.pageIndex = P.pageIndex) : P'.entries = P.entries := by
  have hrow : P'.row = P.row := by
    funext i
    rw [row, row, table?, table?, h]
  rw [entries, entries, hrow]

/-- A page table without second level tables has no entries. -/
theorem entries_empty (h : ∀ i, P.table? i = none) : P.entries = 0 := by
  rw [entries_eq_sum]
  refine Finset.sum_eq_zero fun i _ => ?_
  rw [row, h]

/-- The number of second level tables, by index. -/
theorem tables_eq (P : Process) : P.tables =
    (List.range firstLevelEntries).countP fun i => decide ((P.table? i).isSome = true) := by
  unfold tables table?
  cases P.pageIndex with
  | none => simp
  | some directory => simp

/-- There are not more second level tables than there are first level entries. -/
theorem tables_le (P : Process) : P.tables ≤ firstLevelEntries := by
  have hlength := List.countP_le_length (p := fun i => decide ((P.table? i).isSome = true))
    (l := List.range firstLevelEntries)
  rwa [List.length_range, ← tables_eq] at hlength

/-- A process has one entry for every turn of the loop of `pager_free_all` at most. -/
theorem entries_full (P : Process) :
    P.entries ≤ P.tables * secondLevelEntries ∧
      (P.entries = P.tables * secondLevelEntries ↔ P.Full) := by
  have hturns : P.tables * secondLevelEntries = ∑ i ∈ Finset.range firstLevelEntries,
      if (P.table? i).isSome then secondLevelEntries else 0 := by
    rw [← Finset.sum_filter, Finset.sum_const, ← countP_range, Nat.nsmul_eq_mul, tables_eq]
  have hle : ∀ i ∈ Finset.range firstLevelEntries,
      P.row i ≤ if (P.table? i).isSome then secondLevelEntries else 0 := by
    intro i _
    unfold row
    cases P.table? i with
    | none => exact Nat.le_refl 0
    | some table => simpa using List.countP_le_length (l := List.range secondLevelEntries)
  -- Both are sums over the first level, and compared place by place.
  rw [hturns, entries_eq_sum]
  refine ⟨Finset.sum_le_sum hle, (Finset.sum_eq_sum_iff_of_le hle).trans ?_⟩
  refine forall_congr' fun i => ?_
  rw [Finset.mem_range]
  refine forall_congr' fun _ => ?_
  unfold row
  cases P.table? i with
  | none => simp
  | some table =>
      have hall : (List.range secondLevelEntries).countP (fun j => decide (table j ≠ 0)) =
          (List.range secondLevelEntries).length ↔ _ := List.countP_eq_length
      simpa using hall

/-- There are no more entries than pages in the address space. -/
theorem turns_le (P : Process) : P.tables * secondLevelEntries ≤ 2 ^ 20 := by
  have htables : P.tables ≤ 2 ^ 12 := P.tables_le
  show P.tables * 2 ^ 8 ≤ 2 ^ 20
  omega

end Process

/-- The pages of a process have the entries that are not `NULL`. -/
theorem Inv.pte_ne_zero {φ : PageMap} {s : Mm} (h : Inv φ s) (pg : Page) :
    (s.ptable pg.pid).pte pg.addr ≠ 0 ↔ φ pg ≠ .absent := by
  rw [h.tables.word, ne_eq, PageState.word_eq_zero (h.ok pg)]

end Sos
