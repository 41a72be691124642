import Sos.Lib.Loop
import Sos.Process

/-!
# `Sos.Paging.Fields`: which fields of a process-table entry are written

Most of the memory management writes no field of a process-table entry but its page table
(`Mm.KeepsFields`). One lemma for each function says so. Nothing about the state is needed:
the lemmas hold of every call that returns. `virtual_mapping` counts a page that is referenced
for the first time, and `pager_free_all` counts every entry of every second level table down.
-/

set_option autoImplicit false

namespace Sos

/-- The number of second level tables. -/
def Process.tables (P : Process) : Nat :=
  match P.pageIndex with
  | none => 0
  | some directory => (List.range firstLevelEntries).countP fun i => (directory i).isSome

/-- Two entries that differ in their page tables only. -/
def Process.SameFields (P P' : Process) : Prop := P' = { P with pageIndex := P'.pageIndex }

namespace Process.SameFields

/-- An entry differs from itself in nothing. -/
theorem refl (P : Process) : P.SameFields P := rfl

/-- Only page tables are written in two steps if only page tables are written in each. -/
theorem trans {P Q R : Process} (h : P.SameFields Q) (h' : Q.SameFields R) : P.SameFields R := by
  rw [SameFields] at h h' ⊢
  rw [h', h]

/-- A store to a page table entry writes the page table only. -/
theorem setPte (P : Process) (addr word : Nat) : P.SameFields (P.setPte addr word) := by
  unfold Process.setPte
  split
  · rfl
  · split
    · rfl
    · rfl

end Process.SameFields

namespace Mm

/-- Nothing in the process table has been written but page tables. -/
def KeepsFields (s s' : Mm) : Prop := ∀ q, (s.ptable q).SameFields (s'.ptable q)

variable {s s₁ s' : Mm} {tid : ThreadId} {addr : Nat}

namespace KeepsFields

/-- A function that does not touch the process table keeps its fields. -/
theorem of_ptable (h : s'.ptable = s.ptable) : s.KeepsFields s' := fun q => by
  rw [h]
  exact .refl _

/-- Doing nothing keeps the fields. -/
theorem refl (s : Mm) : s.KeepsFields s := of_ptable rfl

/-- Two functions keep the fields one after the other if each of them does. -/
theorem trans (h : s.KeepsFields s₁) (h' : s₁.KeepsFields s') : s.KeepsFields s' :=
  fun q => (h q).trans (h' q)

/-- An update of one entry keeps the fields of the table if it keeps those of the entry. -/
theorem updateProcess {f : Process → Process} (hf : ∀ P : Process, P.SameFields (f P)) :
    s.KeepsFields (s.updateProcess tid f) := by
  intro q
  simp only [Mm.updateProcess]
  by_cases hq : q = tid2pid tid
  · rw [hq, Function.update_self]
    exact hf _
  · rw [Function.update_of_ne hq]
    exact .refl _

/-- A store to a page table entry keeps the fields. -/
theorem setPte (s : Mm) (tid : ThreadId) (addr word : Nat) :
    s.KeepsFields (s.setPte tid addr word) :=
  KeepsFields.updateProcess fun P => Process.SameFields.setPte P addr word

end KeepsFields

/-! ### Frames and page table entries -/

/-- `frame_alloc` does not touch the process table. -/
theorem frameAlloc_fields {frame : Nat} (h : s.frameAlloc = some (s', frame)) :
    s'.ptable = s.ptable := by
  obtain ⟨⟨frames, f⟩, -, h⟩ := Option.bind_eq_some_iff.mp h
  dsimp only at h
  split at h
  · cases h
    rfl
  · cases h
    rfl

/-- `frame_free` does not touch the process table. -/
theorem frameFree_fields {frame : Nat} (h : s.frameFree frame = some s') :
    s'.ptable = s.ptable := by
  obtain ⟨frames, -, h⟩ := Option.bind_eq_some_iff.mp h
  cases h
  rfl

/-- `swap_free` does not touch the process table. -/
theorem swapFree_fields {offset : Int} (h : s.swapFree offset = some s') :
    s'.ptable = s.ptable := by
  unfold swapFree at h
  split at h
  · cases h
  · obtain ⟨-, h⟩ := Option.ite_none_right_eq_some.mp h
    cases h
    rfl

/-- `mark_dirty` writes an entry of a page table. -/
theorem markDirty_fields (h : s.markDirty tid addr = some s') : s.KeepsFields s' := by
  obtain ⟨current, -, h⟩ := Option.bind_eq_some_iff.mp h
  obtain ⟨-, h⟩ := Option.ite_none_left_eq_some.mp h
  cases h
  exact .setPte s tid addr _

/-- `mark_swapped` writes an entry of a page table. -/
theorem markSwapped_fields {location : Int} (h : s.markSwapped tid addr location = some s') :
    s.KeepsFields s' := by
  obtain ⟨-, -, h⟩ := Option.bind_eq_some_iff.mp h
  obtain ⟨-, h⟩ := Option.ite_none_left_eq_some.mp h
  cases h
  exact .setPte s tid addr _

/-- A new second level table is a part of the page table. -/
theorem createSecondLevelTable_fields (h : s.createSecondLevelTable tid addr = some s') :
    s.KeepsFields s' := by
  obtain ⟨directory, hd, h⟩ := Option.bind_eq_some_iff.mp h
  split at h
  · cases h
    exact .refl s
  · cases h
    exact .updateProcess fun P => rfl

/-- A mapping is in the kernel, not in the process table. -/
theorem mapFpage_fields {frame rights : Nat} {ok : Bool} :
    (s.mapFpage tid addr frame rights ok).1.ptable = s.ptable := by
  unfold mapFpage
  split
  · rfl
  · split
    · rfl
    · rfl

/-! ### Swapping -/

/-- `second_chance_select` does not touch the process table. -/
theorem secondChanceSelect_fields {page : Option PageQueueItem}
    (h : s.secondChanceSelect = some (s', page)) : s'.ptable = s.ptable := by
  obtain ⟨⟨result, σ, queue⟩, hsel, h⟩ := Option.bind_eq_some_iff.mp h
  cases h
  exact (Lib.SecondChance.select_spec isReferenced dereference
    (P := fun σ => σ.ptable = s.ptable) _ _ _ _ _ _ (fun _ _ _ hp => hp) rfl hsel).1

/-- `allocate_swap_entry` does not touch the process table. -/
theorem allocateSwapEntry_fields (s : Mm) : s.allocateSwapEntry.1.ptable = s.ptable := by
  unfold allocateSwapEntry
  split
  · rfl
  · rfl

/-- Writing a page back marks its entry as swapped at most. -/
theorem writeBack_fields {initiator : ThreadId} {page : PageQueueItem} {r : SwapOutResult}
    (h : s.writeBack initiator page = some (s', r)) : s.KeepsFields s' := by
  obtain ⟨dirty, -, h⟩ := Option.bind_eq_some_iff.mp h
  dsimp only at h
  split at h
  · obtain ⟨physical, -, h⟩ := Option.bind_eq_some_iff.mp h
    obtain ⟨-, h⟩ := Option.ite_none_left_eq_some.mp h
    cases h
    exact .refl s
  · split at h
    · cases h
    · obtain ⟨pte, -, h⟩ := Option.bind_eq_some_iff.mp h
      obtain ⟨s₁, hs₁, h⟩ := Option.bind_eq_some_iff.mp h
      obtain ⟨s₂, hs₂, h⟩ := Option.bind_eq_some_iff.mp h
      cases h
      exact (KeepsFields.of_ptable (frameFree_fields hs₁)).trans (markSwapped_fields hs₂)

/-- So does `swap_out` as a whole. -/
theorem swapOut_fields {initiator : ThreadId} {r : SwapOutResult}
    (h : s.swapOut initiator = some (s', r)) : s.KeepsFields s' := by
  obtain ⟨⟨s₁, selected⟩, hsel, h⟩ := Option.bind_eq_some_iff.mp h
  have hs₁ : s.KeepsFields s₁ := .of_ptable (secondChanceSelect_fields hsel)
  cases selected with
  | none =>
      cases h
      exact hs₁
  | some page =>
      obtain ⟨-, h⟩ := Option.ite_none_left_eq_some.mp h
      refine hs₁.trans ?_
      -- A clean page is given up at once, and a dirty one is written to its slot, which it may
      -- have to get first.
      split at h
      · have hslot : s₁.KeepsFields s₁.allocateSwapEntry.1 :=
          .of_ptable (allocateSwapEntry_fields s₁)
        dsimp only at h
        split at h
        · obtain ⟨rfl, -⟩ := Prod.mk.inj (Option.some.inj h)
          exact hslot
        · exact hslot.trans (writeBack_fields h)
      · exact writeBack_fields h

/-- The callback for a write marks the entry of the page when it was the last one. -/
theorem swapWriteCallback_fields {page : PageQueueItem} {status : NfsStatus}
    (h : s.swapWriteCallback page status = some s') : s.KeepsFields s' := by
  cases status with
  | ok =>
      simp only [swapWriteCallback] at h
      -- More batches to come; or the last one: the page is not used any more, or it has been used
      -- again.
      split at h
      · obtain rfl := Option.some.inj h
        exact .of_ptable rfl
      · split at h
        · split at h
          · obtain ⟨pte, -, h⟩ := Option.bind_eq_some_iff.mp h
            obtain ⟨s₁, hs₁, h⟩ := Option.bind_eq_some_iff.mp h
            obtain ⟨s₂, hs₂, h⟩ := Option.bind_eq_some_iff.mp h
            have hp := frameFree_fields hs₁
            have hk₁ : s.KeepsFields s₁ := .of_ptable hp
            -- A waiting thread changes no field of a process.
            refine (hk₁.trans (markSwapped_fields hs₂)).trans (.of_ptable ?_)
            split at h
            · cases h
              rfl
            · cases h
              rfl
          · cases h
            exact .of_ptable rfl
        · refine .of_ptable ?_
          split at h
          · cases h
            split
            · rfl
            · rfl
          · cases h
            split
            · rfl
            · rfl
  | noSpace => cases h
  | error => cases h

/-- The callback for a read copies bytes and wakes a thread; the entry has been written before. -/
theorem swapReadCallback_fields {page : PageQueueItem} {status : NfsStatus} {bytesRead : Nat}
    {data : Nat → UInt8} (h : s.swapReadCallback page status bytesRead data = some s') :
    s'.ptable = s.ptable := by
  unfold swapReadCallback at h
  -- The process is gone, or the batch is copied.
  split at h
  · cases h
    rfl
  · cases status with
    | ok =>
        dsimp only at h
        split at h
        · cases h
        · obtain ⟨pte, -, h⟩ := Option.bind_eq_some_iff.mp h
          -- The last batch wakes the thread, and any other asks for the next one.
          split at h
          · cases h
            rfl
          · cases h
            rfl
    | noSpace => cases h
    | error => cases h

/-! ### Page faults -/

/-- `allocate_new_frame` writes what `swap_out` does. -/
theorem allocateNewFrame_fields {frame : Nat} (h : s.allocateNewFrame tid = some (s', frame)) :
    s.KeepsFields s' := by
  obtain ⟨⟨s₁, f⟩, hs₁, h⟩ := Option.bind_eq_some_iff.mp h
  have hk₁ : s.KeepsFields s₁ := .of_ptable (frameAlloc_fields hs₁)
  dsimp only at h
  -- A free frame, or one that is swapped out for this.
  split at h
  · cases h
    exact hk₁
  · obtain ⟨⟨s₂, result⟩, hs₂, h⟩ := Option.bind_eq_some_iff.mp h
    have hk₂ := hk₁.trans (swapOut_fields hs₂)
    cases result with
    -- With the page clean, its frame is there at once.
    | swappingComplete =>
        obtain ⟨⟨s₃, g⟩, hs₃, h⟩ := Option.bind_eq_some_iff.mp h
        obtain ⟨-, h⟩ := Option.ite_none_left_eq_some.mp h
        cases h
        exact hk₂.trans (.of_ptable (frameAlloc_fields hs₃))
    | swappingPending | outOfSwapSpace | noPageAvailable =>
        cases h
        exact hk₂

/-- `map_page` marks the page dirty at most, and maps it with the word of its entry. -/
theorem mapResident_eq_some {access : Nat} {env : FaultEnv} {r : MappingResult}
    (h : s.mapResident tid addr access env = some (s', r)) :
    ∃ s₁ pte, (s₁ = s ∨ s.markDirty tid addr = some s₁) ∧
      s' = (s₁.mapFpage tid addr (clearLowerBits pte) access env.mapOk).1 := by
  unfold mapResident at h
  split at h
  · obtain ⟨s₁, hs₁, h⟩ := Option.bind_eq_some_iff.mp h
    obtain ⟨pte, -, h⟩ := Option.bind_eq_some_iff.mp h
    obtain rfl := congrArg Prod.fst (Option.some.inj h)
    exact ⟨s₁, pte, Or.inr hs₁, rfl⟩
  · obtain ⟨s₁, hs₁, h⟩ := Option.bind_eq_some_iff.mp h
    obtain ⟨pte, -, h⟩ := Option.bind_eq_some_iff.mp h
    obtain rfl := congrArg Prod.fst (Option.some.inj h)
    exact ⟨s₁, pte, Or.inl (Option.some.inj hs₁).symm, rfl⟩

/-- Mapping a page that is in memory sets its dirty bit at most. -/
theorem mapResident_fields {access : Nat} {env : FaultEnv} {r : MappingResult}
    (h : s.mapResident tid addr access env = some (s', r)) : s.KeepsFields s' := by
  obtain ⟨s₁, pte, rfl | hs₁, rfl⟩ := mapResident_eq_some h
  · exact .of_ptable mapFpage_fields
  · exact (markDirty_fields hs₁).trans (.of_ptable mapFpage_fields)

/-- Reading a page back writes its entry. -/
theorem mapSwapped_fields {access : Nat} {env : FaultEnv} {r : MappingResult}
    (h : s.mapSwapped tid addr access env = some (s', r)) : s.KeepsFields s' := by
  obtain ⟨⟨s₁, f⟩, hs₁, h⟩ := Option.bind_eq_some_iff.mp h
  have hk₁ := allocateNewFrame_fields hs₁
  dsimp only at h
  split at h
  · cases h
    exact hk₁
  · cases h
    exact hk₁.trans (.setPte s₁ tid addr f)

/-- The process has one more page. -/
def countPage (s : Mm) (tid : ThreadId) : Mm :=
  s.updateProcess tid fun p => { p with size := (p.size + 1) % 2 ^ 32 }

/-- A page that is referenced for the first time is counted first; behind that only page tables
are written. -/
theorem mapFirstReference_fields {access : Nat} {env : FaultEnv} {r : MappingResult}
    (h : s.mapFirstReference tid addr access env = some (s', r)) :
    (s.countPage tid).KeepsFields s' := by
  obtain ⟨⟨s₁, f⟩, hs₁, h⟩ := Option.bind_eq_some_iff.mp h
  have hk₁ := (allocateNewFrame_fields hs₁).trans (.setPte s₁ tid addr f)
  dsimp only at h
  split at h
  · cases h
    exact hk₁
  · split at h
    · obtain ⟨s₂, hs₂, h⟩ := Option.bind_eq_some_iff.mp h
      have hk₂ := markDirty_fields hs₂
      exact (hk₁.trans hk₂).trans (mapResident_fields h)
    · exact hk₁.trans (mapResident_fields h)

/-- A fault writes no field of an entry but the page table, and the size of the process when
its page is referenced for the first time. -/
theorem virtualMapping_fields {access : Nat} {env : FaultEnv} {r : MappingResult}
    (h : s.virtualMapping tid addr access env = some (s', r)) :
    ∃ s₁ entry, s.createSecondLevelTable tid (pageAlign addr) = some s₁ ∧
      s₁.pagerTableLookup tid (pageAlign addr) = some entry ∧
      (if entry = 0 then (s₁.countPage tid).KeepsFields s' else s₁.KeepsFields s') := by
  obtain ⟨-, h⟩ := Option.ite_none_left_eq_some.mp h
  obtain ⟨s₁, hs₁, h⟩ := Option.bind_eq_some_iff.mp h
  obtain ⟨entry, hentry, h⟩ := Option.bind_eq_some_iff.mp h
  refine ⟨s₁, entry, hs₁, hentry, ?_⟩
  split at h
  next hzero =>
    rw [if_pos hzero]
    exact mapFirstReference_fields h
  next hzero =>
    rw [if_neg hzero]
    split at h
    · exact mapSwapped_fields h
    · exact mapResident_fields h

/-! ### Walking over a page table -/

variable {body : Mm → Nat → Option Mm}

/-- The body runs once for every entry of every second level table. -/
theorem walkPageTable_cost {R : Nat → Mm → Mm → Prop} (hrefl : ∀ s, R 0 s s)
    (htrans : ∀ {m n s s₁ s'}, R m s s₁ → R n s₁ s' → R (m + n) s s')
    (hbody : ∀ s a s', body s a = some s' → R 1 s s')
    (h : s.walkPageTable tid body = some s') :
    R ((s.getProcess tid).tables * secondLevelEntries) s s' := by
  obtain ⟨directory, hd, h⟩ := Option.bind_eq_some_iff.mp h
  have hall := Lib.foldlM_cost
    (c := fun i => if (directory i).isSome then secondLevelEntries else 0) hrefl htrans ?_ _ h
  swap
  · -- one second level table
    intro s i s' h
    cases hi : directory i with
    | none =>
        simp only [hi] at h
        obtain rfl := Option.some.inj h
        exact hrefl s
    | some table =>
        simp only [hi] at h
        have hrow := Lib.foldlM_cost (c := fun _ => 1) hrefl htrans
          (fun s j s' hs => hbody s _ s' hs) _ h
        simpa using hrow
  -- The cost of the walk: a row for each second-level table.
  have hsum : ((List.range firstLevelEntries).map fun i =>
      if (directory i).isSome then secondLevelEntries else 0).sum =
      (s.getProcess tid).tables * secondLevelEntries := by
    rw [Process.tables, hd]
    dsimp only
    induction List.range firstLevelEntries with
    | nil => simp
    | cons i l ih =>
        rw [List.map_cons, List.sum_cons, ih, List.countP_cons]
        split
        · rw [Nat.add_mul, Nat.one_mul, Nat.add_comm]
        · rw [Nat.add_zero, Nat.zero_add]
  rwa [hsum] at hall

/-- A walk over a page table keeps the fields if its body does. -/
theorem walkPageTable_fields (hbody : ∀ s a s', body s a = some s' → s.KeepsFields s')
    (h : s.walkPageTable tid body = some s') : s.KeepsFields s' :=
  walkPageTable_cost (R := fun _ s s' => s.KeepsFields s') .refl .trans hbody h

/-- `pager_unmap_range` removes hardware mappings only. -/
theorem pagerUnmapRange_fields {start stop : Nat} (h : s.pagerUnmapRange tid start stop = some s') :
    s'.ptable = s.ptable := by
  refine walkPageTable_cost (R := fun _ s s' => s'.ptable = s.ptable) (fun _ => rfl)
    (fun h h' => h'.trans h) ?_ h
  intro s a s' h
  obtain ⟨pte, -, h⟩ := Option.bind_eq_some_iff.mp h
  split at h
  · cases h
    rfl
  · cases h
    rfl

/-- Freeing what an entry refers to clears the entry. -/
theorem freeEntry_fields (h : s.freeEntry tid addr = some s') : s.KeepsFields s' := by
  obtain ⟨pte, -, h⟩ := Option.bind_eq_some_iff.mp h
  dsimp only at h
  split at h
  · obtain ⟨s₁, hs₁, h⟩ := Option.bind_eq_some_iff.mp h
    cases h
    exact (KeepsFields.of_ptable (swapFree_fields hs₁)).trans (.setPte s₁ tid addr 0)
  · split at h
    · obtain ⟨s₁, hs₁, h⟩ := Option.bind_eq_some_iff.mp h
      cases h
      exact (KeepsFields.of_ptable (frameFree_fields hs₁)).trans (.setPte s₁ tid addr 0)
    · cases h
      exact .setPte s tid addr 0

/-- The loop over the active pages does not touch the process table. -/
theorem freeActivePages_fields {chosen : PageQueueItem → Bool}
    (h : s.freeActivePages chosen = some s') : s'.ptable = s.ptable := by
  obtain ⟨s₁, hs₁, h⟩ := Option.bind_eq_some_iff.mp h
  cases h
  have hloop : s₁.ptable = s.ptable := by
    refine Lib.foldlM_cost (R := fun (_ : Nat) (s s' : Mm) => s'.ptable = s.ptable)
      (c := fun _ => 0) (fun _ => rfl) (fun h h' => h'.trans h) ?_ _ hs₁
    intro s page s' h
    split at h
    · exact swapFree_fields h
    · cases h
      rfl
  exact hloop

/-- `pager_free_range` clears entries, and counts none of them down. -/
theorem pagerFreeRange_fields {start stop : Nat} (h : s.pagerFreeRange tid start stop = some s') :
    s.KeepsFields s' := by
  obtain ⟨s₁, hs₁, h⟩ := Option.bind_eq_some_iff.mp h
  obtain ⟨s₂, hs₂, h⟩ := Option.bind_eq_some_iff.mp h
  cases h
  have hwalk : s.KeepsFields s₁ := by
    refine walkPageTable_fields (fun s a s' h => ?_) hs₁
    split at h
    · exact freeEntry_fields h
    · cases h
      exact .refl s
  have hactive := freeActivePages_fields hs₂
  exact hwalk.trans (.of_ptable hactive)

/-- The size of the process has been counted down `n` times, and nothing else of its entry has
been written but the page table. -/
structure CountsDown (tid : ThreadId) (n : Nat) (s s' : Mm) : Prop where
  others : ∀ q, q ≠ tid2pid tid → (s.ptable q).SameFields (s'.ptable q)
  own : { s.getProcess tid with size := (s'.getProcess tid).size }.SameFields (s'.getProcess tid)
  size : ((s'.getProcess tid).size + n) % 2 ^ 32 = (s.getProcess tid).size % 2 ^ 32
  bound : (s.getProcess tid).size < 2 ^ 32 → (s'.getProcess tid).size < 2 ^ 32

namespace CountsDown

/-- Where only page tables are written, nothing is counted. -/
theorem of_fields (h : s.KeepsFields s') : CountsDown tid 0 s s' := by
  have hsize : (s'.getProcess tid).size = (s.getProcess tid).size := by
    have hp := h (tid2pid tid)
    rw [Process.SameFields] at hp
    rw [getProcess, hp]
    rfl
  refine ⟨fun q _ => h q, ?_, by rw [hsize, Nat.add_zero], fun hlt => hsize ▸ hlt⟩
  rw [hsize]
  exact h (tid2pid tid)

/-- The counts of two functions add up. -/
theorem trans {m n : Nat} (h : CountsDown tid m s s₁) (h' : CountsDown tid n s₁ s') :
    CountsDown tid (m + n) s s' := by
  refine ⟨fun q hq => (h.others q hq).trans (h'.others q hq), ?_, ?_, fun hlt =>
    h'.bound (h.bound hlt)⟩
  · have h1 := h.own
    have h2 := h'.own
    rw [Process.SameFields] at h1 h2 ⊢
    rw [h2, h1]
  · have h1 := h.size
    have h2 := h'.size
    omega

end CountsDown

/-- `pager_free_all` counts down for every entry of every second level table, whether it is in use
or not. -/
theorem pagerFreeAll_fields (h : s.pagerFreeAll tid = some s') :
    CountsDown tid ((s.getProcess tid).tables * secondLevelEntries) s s' := by
  obtain ⟨s₁, hs₁, h⟩ := Option.bind_eq_some_iff.mp h
  obtain ⟨s₂, hs₂, h⟩ := Option.bind_eq_some_iff.mp h
  cases h
  -- Each turn counts one page down, and leaves the fields alone.
  have hwalk : CountsDown tid ((s.getProcess tid).tables * secondLevelEntries) s s₁ := by
    refine walkPageTable_cost (R := CountsDown tid) (fun s => .of_fields (.refl s)) .trans ?_ hs₁
    intro s a s' h
    obtain ⟨σ, hσ, h⟩ := Option.bind_eq_some_iff.mp h
    obtain rfl := Option.some.inj h
    have hkeep : CountsDown tid 0 s σ := .of_fields (freeEntry_fields hσ)
    -- The size wraps around zero.
    have hdown : CountsDown tid 1 σ (σ.updateProcess tid fun p =>
        { p with size := (p.size + 2 ^ 32 - 1) % 2 ^ 32 }) := by
      refine ⟨fun q hq => ?_, ?_, ?_, fun _ => ?_⟩
      · simp only [updateProcess, Function.update_of_ne hq]
        exact .refl _
      · simp only [updateProcess, getProcess, Function.update_self]
        rfl
      · simp only [updateProcess, getProcess, Function.update_self]
        omega
      · simp only [updateProcess, getProcess, Function.update_self]
        omega
    have hboth := hkeep.trans hdown
    rwa [Nat.zero_add] at hboth
  have hactive := freeActivePages_fields hs₂
  have hrest : CountsDown tid 0 s₁ (s₂.cancelSwapping tid fun _ => true) :=
    .of_fields (.of_ptable hactive)
  have hboth := hwalk.trans hrest
  rwa [Nat.add_zero] at hboth

/-! ### Starting a process -/

/-- `pager_unmap_initializer` removes hardware mappings only. -/
theorem pagerUnmapInitializer_fields (s : Mm) (tid : ThreadId) :
    (s.pagerUnmapInitializer tid).ptable = s.ptable := by
  unfold pagerUnmapInitializer
  generalize (virtualStart - 0x710000) / pageSize = n
  refine Lib.foldl_range_induction (fun _ (σ : Mm) => σ.ptable = s.ptable) ?_ rfl
  exact fun _ _ _ hσ => hσ

/-- A process whose file has been loaded: its heap is freed before `initialized` is set. -/
theorem startProcess_fields {status : Int} {reply : Reply}
    (hinit : (s.getProcess tid).initialized = false) (hstatus : status ≠ 0)
    (h : s.startProcess tid status = some (s', reply)) :
    ∃ σ, s.KeepsFields σ ∧ s' = σ.updateProcess tid fun p => { p with initialized := true } := by
  simp only [startProcess, hinit, Bool.false_eq_true, if_false, if_pos hstatus,
    Option.bind_eq_bind, Option.bind_eq_some_iff] at h
  obtain ⟨s₁, hs₁, s₂, hs₂, s₃, hs₃, h⟩ := h
  have h₁ : s₁.ptable = s.ptable :=
    (pagerUnmapRange_fields hs₁).trans (pagerUnmapInitializer_fields _ _)
  have h₂ := (pagerUnmapRange_fields hs₂).trans h₁
  exact ⟨s₃, (KeepsFields.of_ptable h₂).trans (pagerFreeRange_fields hs₃),
    (congrArg Prod.fst (Option.some.inj h)).symm⟩

end Mm

end Sos
