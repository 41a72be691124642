import Mathlib.Data.List.Count
import Sos.Paging.Reachable

/-!
# `Sos.Properties.FreeRange`: what `pager_free_range` frees

`free_range_exact`: when `pager_free_range` returns, the entries of the pages in range are null
and all others are as before, exactly the frames of the pages in range are free, exactly the
slots of the swapped pages in range and of the items that leave the queue of active pages, and
only items in range have left that queue or are flagged. It always returns for a process in a
reachable state.

The walk visits the addresses that have a second level table (`walkPageTable_eq`), each page
address once (`nodup_tableAddresses`), because the address of an entry has the indices of that
entry.
-/

set_option autoImplicit false

namespace Sos

/-! ### The addresses of a walk -/

/-- An address whose page starts there. -/
def PageAddress (a : Nat) : Prop := a % pageSize = 0 ∧ a < addressSpace

/-- The indices of a page address put together are the address. -/
theorem createVirtualAddress_index {a : Nat} (h : PageAddress a) :
    createVirtualAddress (firstLevelIndex a) (secondLevelIndex a) = a := by
  obtain ⟨haligned, hlt⟩ := h
  have hsecond : secondLevelIndex a < secondLevelEntries := by
    rw [secondLevelIndex_eq]
    exact Nat.mod_lt _ (Nat.two_pow_pos 8)
  rw [createVirtualAddress_eq hsecond, firstLevelIndex_eq, secondLevelIndex_eq]
  simp only [pageSize, addressSpace] at *
  omega

/-- Two indices in range make a page address, and are its indices. -/
theorem pageAddress_create {i j : Nat} (hi : i < firstLevelEntries) (hj : j < secondLevelEntries) :
    PageAddress (createVirtualAddress i j) ∧ firstLevelIndex (createVirtualAddress i j) = i ∧
      secondLevelIndex (createVirtualAddress i j) = j := by
  have hi' : i < 2 ^ 12 := hi
  have hj' : j < 2 ^ 8 := hj
  rw [createVirtualAddress_eq hj, firstLevelIndex_eq, secondLevelIndex_eq, PageAddress]
  simp only [pageSize, addressSpace]
  omega

/-- The address is computed with `int`s, and the upper half of the addresses reaches the sign
bit. The bits are those of the word. -/
theorem createVirtualAddress_word {i j : Nat} (hi : i < firstLevelEntries)
    (hj : j < secondLevelEntries) :
    (((BitVec.ofNat 32 i <<< 20) ||| (BitVec.ofNat 32 j <<< 12)).toInt : Int) % 2 ^ 32 =
      (createVirtualAddress i j : Nat) := by
  have hi' : i < 2 ^ 12 := hi
  have hj' : j < 2 ^ 8 := hj
  have hlt : createVirtualAddress i j < 2 ^ 32 := (pageAddress_create hi hj).1.2
  have hnat : ((BitVec.ofNat 32 i <<< 20) ||| (BitVec.ofNat 32 j <<< 12)).toNat =
      createVirtualAddress i j := by
    -- The shifts do not carry bits out of the word.
    have hshift : i <<< 20 < 2 ^ 32 ∧ j <<< 12 < 2 ^ 32 := by
      rw [Nat.shiftLeft_eq, Nat.shiftLeft_eq]
      omega
    rw [BitVec.toNat_or, BitVec.toNat_shiftLeft, BitVec.toNat_shiftLeft, BitVec.toNat_ofNat,
      BitVec.toNat_ofNat, Nat.mod_eq_of_lt (show i < 2 ^ 32 by omega),
      Nat.mod_eq_of_lt (show j < 2 ^ 32 by omega), Nat.mod_eq_of_lt hshift.1,
      Nat.mod_eq_of_lt hshift.2]
    rfl
  -- A negative `int` is the word minus 2 ^ 32.
  rw [BitVec.toInt_eq_toNat_cond, hnat]
  split
  · omega
  · omega

/-- The addresses whose entries a walk looks at. -/
def tableAddresses (directory : PageDirectory) : List Nat :=
  (List.range firstLevelEntries).flatMap fun i =>
    match directory i with
    | none => []
    | some _ => (List.range secondLevelEntries).map (createVirtualAddress i)

/-- The walk visits the page addresses that have a second-level table. -/
theorem mem_tableAddresses {directory : PageDirectory} {a : Nat} :
    a ∈ tableAddresses directory ↔
      PageAddress a ∧ ∃ table, directory (firstLevelIndex a) = some table := by
  constructor
  · intro h
    obtain ⟨i, hi, ha⟩ := List.mem_flatMap.mp h
    split at ha
    · cases ha
    next table htable =>
      obtain ⟨j, hj, rfl⟩ := List.mem_map.mp ha
      obtain ⟨haddress, hfirst, -⟩ :=
        pageAddress_create (List.mem_range.mp hi) (List.mem_range.mp hj)
      exact ⟨haddress, table, hfirst.symm ▸ htable⟩
  · rintro ⟨haddress, table, htable⟩
    have hindex : firstLevelIndex a < firstLevelEntries ∧
        secondLevelIndex a < secondLevelEntries := by
      rw [firstLevelIndex_eq, secondLevelIndex_eq]
      exact ⟨Nat.mod_lt _ (Nat.two_pow_pos 12), Nat.mod_lt _ (Nat.two_pow_pos 8)⟩
    -- The walk comes to the address by its own indices.
    refine List.mem_flatMap.mpr ⟨firstLevelIndex a, List.mem_range.mpr hindex.1, ?_⟩
    rw [htable]
    exact List.mem_map.mpr ⟨_, List.mem_range.mpr hindex.2, createVirtualAddress_index haddress⟩

/-- It visits each of them once. -/
theorem nodup_tableAddresses (directory : PageDirectory) : (tableAddresses directory).Nodup := by
  refine List.nodup_flatMap.mpr ⟨fun i hi => ?_, ?_⟩
  · split
    · exact List.nodup_nil
    · refine List.Nodup.map_on ?_ List.nodup_range
      intro j hj j' hj' he
      have hsecond := (pageAddress_create (List.mem_range.mp hi) (List.mem_range.mp hj)).2.2
      rwa [he, (pageAddress_create (List.mem_range.mp hi) (List.mem_range.mp hj')).2.2,
        eq_comm] at hsecond
  · refine List.nodup_range.pairwise_of_forall_ne fun i hi i' hi' hne => ?_
    intro a ha ha'
    -- The first index of the address tells the tables apart.
    have hfirst : ∀ k ∈ List.range firstLevelEntries, a ∈ (match directory k with
        | none => []
        | some _ => (List.range secondLevelEntries).map (createVirtualAddress k)) →
        firstLevelIndex a = k := by
      intro k hk hmem
      split at hmem
      · cases hmem
      · obtain ⟨j, hj, rfl⟩ := List.mem_map.mp hmem
        exact (pageAddress_create (List.mem_range.mp hk) (List.mem_range.mp hj)).2.1
    exact hne ((hfirst i hi ha).symm.trans (hfirst i' hi' ha'))

namespace Mm

/-- A walk is one loop over the addresses that have a table. -/
theorem walkPageTable_eq (s : Mm) (tid : ThreadId) (body : Mm → Nat → Option Mm) :
    s.walkPageTable tid body = (s.getProcess tid).pageIndex.bind fun directory =>
      (tableAddresses directory).foldlM body s := by
  unfold walkPageTable
  rw [Option.bind_eq_bind]
  refine congrArg (Option.bind _) (funext fun directory => ?_)
  rw [tableAddresses, Lib.foldlM_flatMap]
  refine congrArg (fun f => List.foldlM f s (List.range firstLevelEntries))
    (funext fun σ => funext fun i => ?_)
  cases directory i with
  | none => rfl
  | some table => exact (List.foldlM_map ..).symm

end Mm

/-! ### One entry -/

namespace Process

variable {p P : Process}

/-- The entry of the address is that of a page in this frame. -/
def HoldsFrame (p : Process) (a f : Nat) : Prop :=
  isSwapped (p.pte a) = false ∧ p.pte a ≠ 0 ∧ clearLowerBits (p.pte a) = f

/-- The entry of the address is that of a page in this slot of the swap file. -/
def HoldsSlot (p : Process) (a i : Nat) : Prop :=
  isSwapped (p.pte a) = true ∧ clearLowerBits (p.pte a) / pageSize = i

/-- `P` is `p` with null entries for these addresses. -/
structure Cleared (p : Process) (cleared : Nat → Prop) (P : Process) : Prop where
  rest : P = { p with pageIndex := P.pageIndex }
  table : ∀ a, P.HasTable a ↔ p.HasTable a
  null : ∀ a, PageAddress a → cleared a → P.pte a = 0
  other : ∀ a, PageAddress a → ¬ cleared a → P.pte a = p.pte a

/-- Setting an entry changes the page table only. -/
theorem setPte_rest (p : Process) (a w : Nat) :
    p.setPte a w = { p with pageIndex := (p.setPte a w).pageIndex } := by
  unfold setPte
  split
  · rfl
  · split
    · rfl
    · rfl

/-- It makes no second-level table. -/
theorem hasTable_setPte {a w b : Nat} (h : p.HasTable a) :
    (p.setPte a w).HasTable b ↔ p.HasTable b := by
  -- An entry is overwritten only in a table that is there, so no table is added.
  refine ⟨fun hb => ?_, (p.same_setPte a w).table b⟩
  obtain ⟨directory, table, hd, ht⟩ := h
  obtain ⟨directory', table', hd', ht'⟩ := hb
  have hindex : (p.setPte a w).pageIndex = some (Function.update directory (firstLevelIndex a)
      (some (Function.update table (secondLevelIndex a) w))) := by
    simp only [setPte, hd, ht]
  rw [hindex, Option.some.injEq] at hd'
  subst hd'
  by_cases hfirst : firstLevelIndex b = firstLevelIndex a
  · exact ⟨directory, table, hd, hfirst ▸ ht⟩
  · rw [Function.update_of_ne hfirst] at ht'
    exact ⟨directory, table', hd, ht'⟩

/-- No entry is cleared yet. -/
theorem Cleared.refl (p : Process) : p.Cleared (fun _ => False) p :=
  ⟨rfl, fun _ => Iff.rfl, fun _ _ h => h.elim, fun _ _ _ => rfl⟩

/-- One more entry is cleared. -/
theorem Cleared.insert {cleared : Nat → Prop} (h : p.Cleared cleared P) {a : Nat}
    (ha : PageAddress a) (htable : p.HasTable a) :
    p.Cleared (fun b => cleared b ∨ b = a) (P.setPte a 0) := by
  have htable' : P.HasTable a := (h.table a).mpr htable
  have hpte : ∀ b, PageAddress b → (P.setPte a 0).pte b = if b = a then 0 else P.pte b :=
    fun b hb => pte_setPte ha.1 ha.2 hb.1 hb.2 htable'
  refine ⟨?_, fun b => (hasTable_setPte htable').trans (h.table b), ?_, ?_⟩
  · rw [setPte_rest, h.rest]
  · rintro b hb (hc | rfl)
    · rw [hpte b hb, h.null b hb hc, ite_self]
    · rw [hpte b hb, if_pos rfl]
  · intro b hb hn
    rw [not_or] at hn
    rw [hpte b hb, if_neg hn.2, h.other b hb hn.1]

/-- An address without a table has no entry to clear. -/
theorem pte_of_not_hasTable {a : Nat} (h : ¬ p.HasTable a) : p.pte a = 0 := by
  -- Without a table the lookup yields the null entry.
  by_contra hne
  exact h (hasTable_of_pte hne)

/-- What matters of the cleared addresses are those with a second-level table. -/
theorem Cleared.congr {cleared cleared' : Nat → Prop} (h : p.Cleared cleared P)
    (hc : ∀ a, p.HasTable a → (cleared a ↔ cleared' a)) : p.Cleared cleared' P := by
  refine ⟨h.rest, h.table, fun a ha hca => ?_, fun a ha hca => ?_⟩
  · by_cases htable : p.HasTable a
    · exact h.null a ha ((hc a htable).mpr hca)
    · exact pte_of_not_hasTable fun ht => htable ((h.table a).mp ht)
  · by_cases htable : p.HasTable a
    · exact h.other a ha fun hn => hca ((hc a htable).mp hn)
    · rw [pte_of_not_hasTable htable,
        pte_of_not_hasTable fun ht => htable ((h.table a).mp ht)]

/-- An entry with a frame is in a second-level table. -/
theorem HoldsFrame.hasTable {a f : Nat} (h : p.HoldsFrame a f) : p.HasTable a :=
  hasTable_of_pte h.2.1

/-- So is an entry with a slot. -/
theorem HoldsSlot.hasTable {a i : Nat} (h : p.HoldsSlot a i) : p.HasTable a := by
  refine hasTable_of_pte fun hzero => ?_
  have hswapped := h.1
  rw [hzero] at hswapped
  cases hswapped

end Process

/-! ### The walk -/

/-- The state of the walk when these entries are done: they are null, and what they held is
free. -/
structure Walked (s : Mm) (tid : ThreadId) (cleared : Nat → Prop) (t : Mm) : Prop where
  rest : t = { s with
    ptable := t.ptable
    frames := t.frames
    swapBitfield := t.swapBitfield }
  entry : ∃ P, t.ptable = Function.update s.ptable (tid2pid tid) P ∧
    (s.getProcess tid).Cleared cleared P
  wf : t.frames.Wf
  range : t.frames.start = s.frames.start ∧ t.frames.stop = s.frames.stop
  used : ∀ f, t.frames.Used f ↔ s.frames.Used f ∧
    ¬ ∃ a, cleared a ∧ (s.getProcess tid).HoldsFrame a f
  slots : ∀ i, bitfieldGet t.swapBitfield i = true ↔ bitfieldGet s.swapBitfield i = true ∧
    ¬ ∃ a, cleared a ∧ (s.getProcess tid).HoldsSlot a i

/-- After a slot is freed its bit is clear and no other has changed. -/
theorem bitfieldGet_freed (bitfield : Bitfield) (n i : Nat) :
    bitfieldGet (bitfieldSet bitfield n false) i = true ↔
      bitfieldGet bitfield i = true ∧ n ≠ i := by
  rw [bitfieldGet_bitfieldSet]
  split
  next heq => exact ⟨nofun, fun h => absurd heq.symm h.2⟩
  next hne => exact (and_iff_left (Ne.symm hne)).symm

namespace Walked

variable {s t t' : Mm} {tid : ThreadId} {cleared : Nat → Prop}

/-- Nothing is done yet. -/
theorem start (hwf : s.frames.Wf) : Walked s tid (fun _ => False) s := by
  refine ⟨rfl, ⟨_, (Function.update_eq_self _ _).symm, .refl _⟩, hwf, ⟨rfl, rfl⟩, fun f => ?_,
    fun i => ?_⟩
  · simp
  · simp

/-- What matters of the entries that are done are those with a second-level table. -/
theorem congr (h : Walked s tid cleared t) {cleared' : Nat → Prop}
    (hc : ∀ a, (s.getProcess tid).HasTable a → (cleared a ↔ cleared' a)) :
    Walked s tid cleared' t := by
  obtain ⟨P, hP, hcleared⟩ := h.entry
  refine ⟨h.rest, ⟨P, hP, hcleared.congr hc⟩, h.wf, h.range, fun f => ?_, fun i => ?_⟩
  · rw [h.used f]
    refine and_congr_right fun _ => not_congr (exists_congr fun a => ?_)
    exact and_congr_left fun hf => hc a hf.hasTable
  · rw [h.slots i]
    refine and_congr_right fun _ => not_congr (exists_congr fun a => ?_)
    exact and_congr_left fun hf => hc a hf.hasTable

/-- The entry that the walk comes to is still that of the start. -/
theorem lookup (h : Walked s tid cleared t) {a : Nat} (ha : PageAddress a)
    (htable : (s.getProcess tid).HasTable a) (hnew : ¬ cleared a) :
    t.pagerTableLookup tid a = some ((s.getProcess tid).pte a) := by
  obtain ⟨P, hP, hcleared⟩ := h.entry
  have hget : t.getProcess tid = P := by
    rw [Mm.getProcess, hP, Function.update_self]
  obtain ⟨directory, table, hd, ht⟩ := (hcleared.table a).mpr htable
  rw [← hcleared.other a ha hnew]
  simp only [Mm.pagerTableLookup, hget, hd, Option.bind_eq_bind, Option.bind_some, ht,
    Process.pte]

/-- `free_entry` has given back what the entry held (`hfreed`), and clears it. -/
theorem clear (h : Walked s tid cleared t) {a : Nat} (ha : PageAddress a)
    (htable : (s.getProcess tid).HasTable a) {u : Mm}
    (hrest : u = { t with frames := u.frames, swapBitfield := u.swapBitfield })
    (hwf : u.frames.Wf)
    (hrange : u.frames.start = t.frames.start ∧ u.frames.stop = t.frames.stop)
    (hused : ∀ f, u.frames.Used f ↔ t.frames.Used f ∧ ¬ (s.getProcess tid).HoldsFrame a f)
    (hslots : ∀ i, bitfieldGet u.swapBitfield i = true ↔
      bitfieldGet t.swapBitfield i = true ∧ ¬ (s.getProcess tid).HoldsSlot a i) :
    Walked s tid (fun b => cleared b ∨ b = a) (u.setPte tid a 0) := by
  obtain ⟨P, hP, hcleared⟩ := h.entry
  have hptable : u.ptable = Function.update s.ptable (tid2pid tid) P := by
    rw [hrest]
    exact hP
  -- What is cleared so far gives back its frames and slots, and now the page at `a` too.
  have hor : ∀ Q : Nat → Prop, (∃ b, (cleared b ∨ b = a) ∧ Q b) ↔ (∃ b, cleared b ∧ Q b) ∨ Q a := by
    intro Q
    simp only [or_and_right, exists_or, exists_eq_left]
  refine ⟨?_, ⟨P.setPte a 0, ?_, hcleared.insert ha htable⟩, hwf,
    ⟨hrange.1.trans h.range.1, hrange.2.trans h.range.2⟩, fun f => ?_, fun i => ?_⟩
  · rw [Mm.setPte, Mm.updateProcess, hrest, h.rest]
  · show Function.update u.ptable (tid2pid tid) ((u.ptable (tid2pid tid)).setPte a 0) = _
    rw [hptable, Function.update_self, Function.update_idem]
  · show u.frames.Used f ↔ _
    rw [hused f, h.used f, hor, not_or, and_assoc]
  · show bitfieldGet u.swapBitfield i = true ↔ _
    rw [hslots i, h.slots i, hor, not_or, and_assoc]

/-- One turn of the walk, for an entry in range. -/
theorem freeEntry (h : Walked s tid cleared t) {a : Nat} (ha : PageAddress a)
    (htable : (s.getProcess tid).HasTable a) (hnew : ¬ cleared a)
    (hs : t.freeEntry tid a = some t') : Walked s tid (fun b => cleared b ∨ b = a) t' := by
  rw [Mm.freeEntry, h.lookup ha htable hnew, Option.bind_eq_bind, Option.bind_some] at hs
  dsimp only at hs
  split at hs
  -- The three branches of `free_entry`: the slot, the frame, or nothing is given back.
  next hswapped =>
    obtain ⟨u, hu, hs⟩ := Option.bind_eq_some_iff.mp hs
    obtain rfl := Option.some.inj hs
    obtain rfl := Mm.swapFree_run hu
    have hnoframe : ∀ f, ¬ (s.getProcess tid).HoldsFrame a f := fun f hf => by
      rw [hf.1] at hswapped
      cases hswapped
    refine h.clear ha htable rfl h.wf ⟨rfl, rfl⟩ (fun f => ?_) (fun i => ?_)
    · exact (and_iff_left (hnoframe f)).symm
    · show bitfieldGet (bitfieldSet _ _ false) i = true ↔ _
      rw [bitfieldGet_freed, Process.HoldsSlot, hswapped, Int.toNat_natCast, eq_self, true_and]
  next hresident =>
    rw [Bool.not_eq_true] at hresident
    have hnoslot : ∀ i, ¬ (s.getProcess tid).HoldsSlot a i := fun i hi => by
      rw [hi.1] at hresident
      cases hresident
    split at hs
    next hne =>
      obtain ⟨u, hu, hs⟩ := Option.bind_eq_some_iff.mp hs
      obtain rfl := Option.some.inj hs
      obtain ⟨hrest, hwf, hstart, hstop, hused⟩ := Mm.frameFree_run h.wf hu
      refine h.clear ha htable ?_ hwf ⟨hstart, hstop⟩ (fun f => ?_) (fun i => ?_)
      · rw [hrest]
      · rw [hused f, Process.HoldsFrame, hresident, eq_self, true_and, ne_comm]
        exact and_congr_right fun _ => not_congr (and_iff_right hne).symm
      · rw [hrest]
        exact (and_iff_left (hnoslot i)).symm
    next heq =>
      rw [not_not] at heq
      rw [Option.bind_eq_bind, Option.bind_some, Option.some.injEq] at hs
      subst hs
      refine h.clear ha htable rfl h.wf ⟨rfl, rfl⟩ (fun f => ?_) (fun i => ?_)
      · exact (and_iff_left fun hf => hf.2.1 heq).symm
      · exact (and_iff_left (hnoslot i)).symm

/-- The whole walk. -/
theorem run (hwf : s.frames.Wf) {inRange : Nat → Bool}
    (hs : s.walkPageTable tid (fun s a => if inRange a then s.freeEntry tid a else some s) =
      some t) :
    Walked s tid (fun a => PageAddress a ∧ inRange a = true) t := by
  rw [Mm.walkPageTable_eq] at hs
  obtain ⟨directory, hd, hs⟩ := Option.bind_eq_some_iff.mp hs
  have htable : ∀ a, a ∈ tableAddresses directory ↔
      PageAddress a ∧ (s.getProcess tid).HasTable a := by
    intro a
    rw [mem_tableAddresses]
    refine and_congr_right fun _ => ⟨fun ⟨table, ht⟩ => ⟨directory, table, hd, ht⟩, ?_⟩
    rintro ⟨directory', table, hd', ht⟩
    obtain rfl := Option.some.inj (hd.symm.trans hd')
    exact ⟨table, ht⟩
  -- The invariant of the walk: the entries done so far that are in range are cleared.
  have hstart : Walked s tid (fun a => a ∈ ([] : List Nat) ∧ inRange a = true) s :=
    (start hwf).congr fun a _ => by simp
  have hwalked := Lib.foldlM_list_run
    (fun done t => Walked s tid (fun a => a ∈ done ∧ inRange a = true) t)
    (tableAddresses directory) [] (by
      intro done a todo heq u u' hu hturn
      rw [List.nil_append] at heq
      have hmem : a ∈ tableAddresses directory := by simp [heq]
      obtain ⟨haddress, hatable⟩ := (htable a).mp hmem
      -- No address comes twice, so the entry is still the one of the start.
      have hnew : a ∉ done := by
        have hnodup := nodup_tableAddresses directory
        rw [heq, List.nodup_append] at hnodup
        exact fun hd => hnodup.2.2 a hd a (by simp) rfl
      split at hturn
      next hin =>
        refine (hu.freeEntry haddress hatable (fun hc => hnew hc.1) hturn).congr fun b _ => ?_
        rw [List.mem_append, List.mem_singleton, or_and_right]
        exact or_congr_right ⟨fun hb : b = a => ⟨hb, hb ▸ hin⟩, fun hb => hb.1⟩
      next hout =>
        obtain rfl := Option.some.inj hturn
        refine hu.congr fun b _ => ?_
        rw [List.mem_append, List.mem_singleton, or_and_right]
        exact (or_iff_left fun hb : b = a ∧ _ => hout (hb.1 ▸ hb.2)).symm)
    hstart hs
  rw [List.nil_append] at hwalked
  refine hwalked.congr fun a hatable => ?_
  rw [htable a]
  exact ⟨fun h => ⟨h.1.1, h.2⟩, fun h => ⟨⟨h.1, hatable⟩, h.2⟩⟩

end Walked

/-! ### The queues -/

/-- The item is that of a page of the thread in the range. -/
def PageQueueItem.InRange (it : PageQueueItem) (tid : ThreadId) (start stop : Nat) : Prop :=
  tid = it.tid ∧ start ≤ it.virtualAddress ∧ it.virtualAddress < stop

instance (it : PageQueueItem) (tid : ThreadId) (start stop : Nat) :
    Decidable (it.InRange tid start stop) :=
  inferInstanceAs (Decidable (_ ∧ _ ∧ _))

/-- The item has this slot in the swap file. -/
def PageQueueItem.HoldsSlot (it : PageQueueItem) (i : Nat) : Prop :=
  it.swapOffset ≠ -1 ∧ it.swapOffset.toNat / pageSize = i

/-- What becomes of an item that is being swapped: the flag is set for a page in range, and the
initiator is forgotten when it is the thread. -/
structure PageQueueItem.Cancelled (tid : ThreadId) (start stop : Nat) (it it' : PageQueueItem) :
    Prop where
  rest : it' = { it with processDeleted := it'.processDeleted, initiator := it'.initiator }
  flag : it'.processDeleted = true ↔ it.processDeleted = true ∨ it.InRange tid start stop
  initiator : it'.initiator =
    if tid = it.initiator ∧ start ≤ it.virtualAddress ∧ it.virtualAddress < stop then nilthread
    else it.initiator

namespace Mm

/-- An item of the range is flagged, and any other stays. -/
theorem cancelItem_cancelled (tid : ThreadId) (start stop : Nat) (it : PageQueueItem) :
    it.Cancelled tid start stop
      (cancelItem tid (fun a => decide (a ≥ start ∧ a < stop)) it) := by
  refine ⟨?_, ?_, ?_⟩
  · rw [cancelItem]
    split
    · split
      · rfl
      · rfl
    · split
      · rfl
      · rfl
  · rw [cancelItem_processDeleted, decide_eq_true_eq]
    rfl
  · rw [cancelItem_initiator]
    simp only [decide_eq_true_eq]

/-- The loop over the active pages, when it has ended. -/
theorem freeActivePages_run {s s' : Mm} {chosen : PageQueueItem → Bool}
    (h : s.freeActivePages chosen = some s') :
    s' = { s with
      swapBitfield := s'.swapBitfield
      activePages := s.activePages.filter fun it => !chosen it } ∧
    ∀ i, bitfieldGet s'.swapBitfield i = true ↔ bitfieldGet s.swapBitfield i = true ∧
      ¬ ∃ it ∈ s.activePages, chosen it = true ∧ it.HoldsSlot i := by
  obtain ⟨t, ht, h⟩ := Option.bind_eq_some_iff.mp h
  obtain rfl := Option.some.inj h
  -- The invariant of the loop: the slots of the items done so far are free.
  have hloop := Lib.foldlM_list_run
    (fun done t => t = { s with swapBitfield := t.swapBitfield } ∧
      ∀ i, bitfieldGet t.swapBitfield i = true ↔ bitfieldGet s.swapBitfield i = true ∧
        ¬ ∃ it ∈ done, it.HoldsSlot i)
    (s.activePages.filter chosen) [] (by
      rintro done it todo - t t' ⟨hrest, hslots⟩ hturn
      have hmem : ∀ i, (∃ it' ∈ done ++ [it], it'.HoldsSlot i) ↔
          (∃ it' ∈ done, it'.HoldsSlot i) ∨ it.HoldsSlot i := by
        intro i
        simp only [List.mem_append, List.mem_singleton, or_and_right, exists_or, exists_eq_left]
      split at hturn
      next hne =>
        obtain rfl := swapFree_run hturn
        refine ⟨?_, fun i => ?_⟩
        · rw [hrest]
        · show bitfieldGet (bitfieldSet _ _ false) i = true ↔ _
          rw [bitfieldGet_freed, hslots i, hmem i, not_or, and_assoc, PageQueueItem.HoldsSlot,
            and_iff_right hne]
      next heq =>
        obtain rfl := Option.some.inj hturn
        refine ⟨hrest, fun i => ?_⟩
        rw [hslots i, hmem i, or_iff_left fun hslot => heq hslot.1])
    (s := s) ⟨rfl, fun i => by simp⟩ ht
  rw [List.nil_append] at hloop
  obtain ⟨hrest, hslots⟩ := hloop
  refine ⟨?_, fun i => ?_⟩
  · rw [hrest]
  · show bitfieldGet t.swapBitfield i = true ↔ _
    rw [hslots i]
    refine and_congr_right fun _ => not_congr (exists_congr fun it => ?_)
    rw [List.mem_filter, and_assoc]

/-- What `pager_free_range` does, and nothing else. -/
structure FreedExactly (s : Mm) (tid : ThreadId) (start stop : Nat) (s' : Mm) : Prop where
  rest : s' = { s with
    ptable := s'.ptable
    frames := s'.frames
    swapBitfield := s'.swapBitfield
    activePages := s'.activePages
    swappingPages := s'.swappingPages }
  entries : ∃ P, s'.ptable = Function.update s.ptable (tid2pid tid) P ∧
    (s.getProcess tid).Cleared (fun a => PageAddress a ∧ start ≤ a ∧ a < stop) P
  wf : s'.frames.Wf
  range : s'.frames.start = s.frames.start ∧ s'.frames.stop = s.frames.stop
  frames : ∀ f, s'.frames.Used f ↔ s.frames.Used f ∧
    ¬ ∃ a, (PageAddress a ∧ start ≤ a ∧ a < stop) ∧ (s.getProcess tid).HoldsFrame a f
  slots : ∀ i, bitfieldGet s'.swapBitfield i = true ↔ bitfieldGet s.swapBitfield i = true ∧
    (¬ ∃ a, (PageAddress a ∧ start ≤ a ∧ a < stop) ∧ (s.getProcess tid).HoldsSlot a i) ∧
    ¬ ∃ it ∈ s.activePages, it.InRange tid start stop ∧ it.HoldsSlot i
  active : s'.activePages = s.activePages.filter fun it => !decide (it.InRange tid start stop)
  swapping : List.Forall₂ (PageQueueItem.Cancelled tid start stop) s.swappingPages
    s'.swappingPages

/-- The walk over all tables, by induction on the addresses that are left, and then the queues. -/
theorem pagerFreeRange_run {s s' : Mm} (hwf : s.frames.Wf) {tid : ThreadId} {start stop : Nat}
    (h : s.pagerFreeRange tid start stop = some s') : s.FreedExactly tid start stop s' := by
  obtain ⟨t, ht, h⟩ := Option.bind_eq_some_iff.mp h
  obtain ⟨u, hu, h⟩ := Option.bind_eq_some_iff.mp h
  obtain rfl := Option.some.inj h
  have hwalked : Walked s tid (fun a => PageAddress a ∧ start ≤ a ∧ a < stop) t :=
    (Walked.run hwf ht).congr fun a _ => by rw [decide_eq_true_eq]
  obtain ⟨hrest, hslots⟩ := freeActivePages_run hu
  have hactive : t.activePages = s.activePages := by rw [hwalked.rest]
  have hswapping : u.swappingPages = s.swappingPages := by rw [hrest, hwalked.rest]
  -- The code tests the range once for the entries and once for the items.
  have hchosen : ∀ it : PageQueueItem, decide (tid = it.tid ∧
      decide (it.virtualAddress ≥ start ∧ it.virtualAddress < stop) = true) =
        decide (it.InRange tid start stop) := by
    intro it
    simp only [decide_eq_true_eq]
    rfl
  refine ⟨?_, ?_, ?_, ?_, fun f => ?_, fun i => ?_, ?_, ?_⟩
  · rw [cancelSwapping, hrest, hwalked.rest]
  · rw [cancelSwapping, hrest]
    exact hwalked.entry
  · rw [cancelSwapping, hrest]
    exact hwalked.wf
  · rw [cancelSwapping, hrest]
    exact hwalked.range
  · rw [cancelSwapping, hrest]
    exact hwalked.used f
  · show bitfieldGet u.swapBitfield i = true ↔ _
    rw [hslots i, hwalked.slots i, and_assoc, hactive]
    refine and_congr_right fun _ => and_congr_right fun _ => not_congr (exists_congr fun it => ?_)
    rw [hchosen it, decide_eq_true_eq]
  · show u.activePages = _
    rw [hrest]
    simp only [hchosen, hactive]
  · show List.Forall₂ _ _ (u.swappingPages.map _)
    rw [hswapping, List.forall₂_map_right_iff]
    exact List.forall₂_same.mpr fun it _ => cancelItem_cancelled tid start stop it

end Mm

/-- `pager_free_range` is exact: whatever it returns with is the state without the pages of
the range. It returns in every reachable state, for every process. The walk comes once to
every address that has a table, because the address that is put together from the indices of
an address is that address, also in the upper half, where the sign bit is set. -/
theorem free_range_exact (s : Mm) (hwf : s.frames.Wf) (tid : ThreadId) (start stop : Nat) :
    (∀ s', s.pagerFreeRange tid start stop = some s' → s.FreedExactly tid start stop s') ∧
    (s.Reachable Mm.anyStep → ∀ p, s.Live p → tid = threadId p →
      ∃ s', s.pagerFreeRange tid start stop = some s') ∧
    (∀ directory, (s.getProcess tid).pageIndex = some directory → ∃ addresses : List Nat,
      addresses.Nodup ∧
      (∀ a, a ∈ addresses ↔ PageAddress a ∧ ∃ table, directory (firstLevelIndex a) = some table) ∧
      ∀ body, s.walkPageTable tid body = addresses.foldlM body s) ∧
    (∀ a, PageAddress a → createVirtualAddress (firstLevelIndex a) (secondLevelIndex a) = a) ∧
    ∀ i < firstLevelEntries, ∀ j < secondLevelEntries,
      ((BitVec.ofNat 32 i <<< 20) ||| (BitVec.ofNat 32 j <<< 12)).toInt % 2 ^ 32 =
        (createVirtualAddress i j : Nat) := by
  refine ⟨fun s' h => Mm.pagerFreeRange_run hwf h, ?_, ?_,
    fun a => createVirtualAddress_index, fun i hi j hj => createVirtualAddress_word hi hj⟩
  · rintro hreach p hlive rfl
    obtain ⟨φ, hinv, -⟩ := hreach.inv
    obtain ⟨s', hs', -⟩ := pagerFreeRange_spec hinv hlive start stop
    exact ⟨s', hs'⟩
  · intro directory hdirectory
    refine ⟨tableAddresses directory, nodup_tableAddresses directory,
      fun a => mem_tableAddresses, fun body => ?_⟩
    rw [Mm.walkPageTable_eq, hdirectory, Option.bind_some]

/-- One of three pages is freed, while two of them are in memory. -/
theorem free_range_exact_threeFaults :
    ∃ s s' : Mm, Mm.runOn Mm.anyStep (.small 2) threeFaults = some s ∧
      s.pagerFreeRange (threadId 1) heapStart (heapStart + pageSize) = some s' ∧
      s.FreedExactly (threadId 1) heapStart (heapStart + pageSize) s' := by
  obtain ⟨s, hs, hreach, hlive⟩ := Mm.exists_runOn Mm.anyStep
    (Mm.Boot.small_ok Nat.two_pos (by decide)) threeFaults
    (fun s => s.Live 1) (by decide +kernel)
  obtain ⟨φ, hinv, -⟩ := hreach.inv
  have hexact := free_range_exact s hinv.frames.wf (threadId 1) heapStart (heapStart + pageSize)
  obtain ⟨s', hs'⟩ := hexact.2.1 hreach 1 hlive rfl
  exact ⟨s, s', hs, hs', hexact.1 s' hs'⟩

end Sos
