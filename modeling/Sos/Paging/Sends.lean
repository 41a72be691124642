import Sos.Mm.Step
import Sos.Paging.Fields

/-!
# `Sos.Paging.Sends`: what the memory management sends

`Mm.Sends`: a function only adds to what has been sent, and its messages to threads are answers to
page faults, which have no words, and answers of `process_wait`, which have one. Like for
`KeepsFields`, nothing about the state is needed.

Most functions send nothing. `allocate_new_frame` reports that it gives up, the callbacks answer
page faults, and `wait_wakeup` answers the processes that wait.
-/

set_option autoImplicit false

namespace Sos

/-- A message of the memory management to a thread: the answer to a page fault or of
`process_wait`. -/
def Event.MmMessage (ev : Event) : Prop :=
  ∀ recipient label words, ev = .reply recipient label words →
    (label = pagefaultLabel ∧ words = []) ∨ (label = sosProcessWait ∧ words.length = 1)

namespace Mm

/-- The messages of `s'` are those of `s` and some more. -/
def Sends (s s' : Mm) : Prop := ∃ sent, s'.outbox = s.outbox ++ sent ∧ ∀ ev ∈ sent, ev.MmMessage

variable {s s₁ s' : Mm} {tid : ThreadId} {addr : Nat}

namespace Sends

/-- A function that leaves the outbox as it is sends nothing. -/
theorem of_eq (h : s'.outbox = s.outbox) : s.Sends s' := ⟨[], by rw [h, List.append_nil], nofun⟩

/-- Doing nothing sends nothing. -/
theorem refl (s : Mm) : s.Sends s := of_eq rfl

/-- A function that sends one message sends only messages of the memory management, if this one
is. -/
theorem one {ev : Event} (hev : ev.MmMessage) (h : s'.outbox = s.outbox ++ [ev]) : s.Sends s' :=
  ⟨[ev], h, fun _ hmem => List.mem_singleton.mp hmem ▸ hev⟩

/-- What two functions send one after the other. -/
theorem trans (h : s.Sends s₁) (h' : s₁.Sends s') : s.Sends s' := by
  obtain ⟨sent, hsent, hall⟩ := h
  obtain ⟨sent', hsent', hall'⟩ := h'
  refine ⟨sent ++ sent', by rw [hsent', hsent, List.append_assoc], fun ev hev => ?_⟩
  cases List.mem_append.mp hev with
  | inl hold => exact hall ev hold
  | inr hnew => exact hall' ev hnew

/-- The answer to a page fault. -/
theorem pagefault (s : Mm) (tid : ThreadId) : s.Sends (s.sendIpcReply tid pagefaultLabel []) :=
  .one (fun _ _ _ he => by cases he; exact Or.inl ⟨rfl, rfl⟩) rfl

/-- A message to the kernel debugger is not one to a thread. -/
theorem kdbEnter (s : Mm) (message : String) : s.Sends (s.kdbEnter message) :=
  .one (fun _ _ _ he => by cases he) rfl

end Sends

/-! ### Frames and page table entries -/

/-- `frame_alloc` sends nothing. -/
theorem frameAlloc_outbox {frame : Nat} (h : s.frameAlloc = some (s', frame)) :
    s'.outbox = s.outbox := by
  obtain ⟨⟨frames, f⟩, -, h⟩ := Option.bind_eq_some_iff.mp h
  dsimp only at h
  split at h
  · cases h
    rfl
  · cases h
    rfl

/-- `frame_free` sends nothing. -/
theorem frameFree_outbox {frame : Nat} (h : s.frameFree frame = some s') :
    s'.outbox = s.outbox := by
  obtain ⟨frames, -, h⟩ := Option.bind_eq_some_iff.mp h
  cases h
  rfl

/-- `swap_free` sends nothing. -/
theorem swapFree_outbox {offset : Int} (h : s.swapFree offset = some s') :
    s'.outbox = s.outbox := by
  unfold swapFree at h
  split at h
  · cases h
  · obtain ⟨-, h⟩ := Option.ite_none_right_eq_some.mp h
    cases h
    rfl

/-- `mark_dirty` sends nothing. -/
theorem markDirty_outbox (h : s.markDirty tid addr = some s') : s'.outbox = s.outbox := by
  obtain ⟨current, -, h⟩ := Option.bind_eq_some_iff.mp h
  obtain ⟨-, h⟩ := Option.ite_none_left_eq_some.mp h
  cases h
  rfl

/-- `mark_swapped` sends nothing. -/
theorem markSwapped_outbox {location : Int} (h : s.markSwapped tid addr location = some s') :
    s'.outbox = s.outbox := by
  obtain ⟨-, -, h⟩ := Option.bind_eq_some_iff.mp h
  obtain ⟨-, h⟩ := Option.ite_none_left_eq_some.mp h
  cases h
  rfl

/-- `create_second_level_table` sends nothing, whether there is a table already or not. -/
theorem createSecondLevelTable_outbox (h : s.createSecondLevelTable tid addr = some s') :
    s'.outbox = s.outbox := by
  obtain ⟨directory, hd, h⟩ := Option.bind_eq_some_iff.mp h
  split at h
  · cases h
    rfl
  · cases h
    rfl

/-- A mapping that the kernel makes, or refuses to make, is no message. -/
theorem mapFpage_outbox {frame rights : Nat} {ok : Bool} :
    (s.mapFpage tid addr frame rights ok).1.outbox = s.outbox := by
  unfold mapFpage
  split
  · rfl
  · split
    · rfl
    · rfl

/-! ### Swapping -/

/-- `second_chance_select` only moves items and removes mappings. -/
theorem secondChanceSelect_outbox {page : Option PageQueueItem}
    (h : s.secondChanceSelect = some (s', page)) : s'.outbox = s.outbox := by
  obtain ⟨⟨result, σ, queue⟩, hsel, h⟩ := Option.bind_eq_some_iff.mp h
  cases h
  exact (Lib.SecondChance.select_spec isReferenced dereference
    (P := fun σ => σ.outbox = s.outbox) _ _ _ _ _ _ (fun _ _ _ hp => hp) rfl hsel).1

/-- `allocate_swap_entry` sends nothing. -/
theorem allocateSwapEntry_outbox (s : Mm) : s.allocateSwapEntry.1.outbox = s.outbox := by
  unfold allocateSwapEntry
  split
  · rfl
  · rfl

/-- Writing a page back sends requests to the NFS server, but no message to a thread. -/
theorem writeBack_outbox {initiator : ThreadId} {page : PageQueueItem} {r : SwapOutResult}
    (h : s.writeBack initiator page = some (s', r)) : s'.outbox = s.outbox := by
  obtain ⟨dirty, -, h⟩ := Option.bind_eq_some_iff.mp h
  dsimp only at h
  split at h
  · obtain ⟨physical, -, h⟩ := Option.bind_eq_some_iff.mp h
    obtain ⟨-, h⟩ := Option.ite_none_left_eq_some.mp h
    cases h
    rfl
  · split at h
    · cases h
    · obtain ⟨pte, -, h⟩ := Option.bind_eq_some_iff.mp h
      obtain ⟨s₁, hs₁, h⟩ := Option.bind_eq_some_iff.mp h
      obtain ⟨s₂, hs₂, h⟩ := Option.bind_eq_some_iff.mp h
      cases h
      exact (markSwapped_outbox hs₂).trans (frameFree_outbox hs₁)

/-- `swap_out` sends nothing to a thread: the one that waits is answered by the callback. -/
theorem swapOut_outbox {initiator : ThreadId} {r : SwapOutResult}
    (h : s.swapOut initiator = some (s', r)) : s'.outbox = s.outbox := by
  obtain ⟨⟨s₁, selected⟩, hsel, h⟩ := Option.bind_eq_some_iff.mp h
  have hs₁ := secondChanceSelect_outbox hsel
  cases selected with
  | none =>
      cases h
      exact hs₁
  | some page =>
      obtain ⟨-, h⟩ := Option.ite_none_left_eq_some.mp h
      refine Eq.trans ?_ hs₁
      -- A clean page is given up at once, and a dirty one is written to its slot, which it may
      -- have to get first.
      split at h
      · have hslot := allocateSwapEntry_outbox s₁
        dsimp only at h
        split at h
        · obtain ⟨rfl, -⟩ := Prod.mk.inj (Option.some.inj h)
          exact hslot
        · exact (writeBack_outbox h).trans hslot
      · exact writeBack_outbox h

/-- The last acknowledgement answers the thread that waits for the frame. -/
theorem swapWriteCallback_sends {page : PageQueueItem} {status : NfsStatus}
    (h : s.swapWriteCallback page status = some s') : s.Sends s' := by
  cases status with
  | ok =>
      simp only [swapWriteCallback] at h
      -- More batches to come; or the last one: the page is not used any more, or it has been used
      -- again.
      split at h
      · obtain rfl := Option.some.inj h
        exact .of_eq rfl
      · split at h
        · split at h
          · obtain ⟨pte, -, h⟩ := Option.bind_eq_some_iff.mp h
            obtain ⟨s₁, hs₁, h⟩ := Option.bind_eq_some_iff.mp h
            obtain ⟨s₂, hs₂, h⟩ := Option.bind_eq_some_iff.mp h
            have hfree := frameFree_outbox hs₁
            have hquiet : s.Sends s₂ := .of_eq ((markSwapped_outbox hs₂).trans hfree)
            -- The thread that waits for the frame is answered, if there is one.
            split at h
            · cases h
              exact (hquiet.trans (.pagefault s₂ _)).trans (.of_eq rfl)
            · cases h
              exact hquiet.trans (.of_eq rfl)
          · cases h
            exact .of_eq rfl
        · split at h
          · cases h
            -- The page has been used again: the thread is answered all the same.
            split
            · exact (Sends.of_eq rfl).trans (.pagefault _ _)
            · exact .of_eq rfl
          · cases h
            split
            · exact (Sends.of_eq rfl).trans (.pagefault _ _)
            · exact .of_eq rfl
  | noSpace => cases h
  | error => cases h

/-- The callback for a read answers the page fault that has waited for the last piece. -/
theorem swapReadCallback_sends {page : PageQueueItem} {status : NfsStatus} {bytesRead : Nat}
    {data : Nat → UInt8} (h : s.swapReadCallback page status bytesRead data = some s') :
    s.Sends s' := by
  unfold swapReadCallback at h
  -- The process is gone, or the batch is copied.
  split at h
  · cases h
    exact .of_eq rfl
  · cases status with
    | ok =>
        dsimp only at h
        split at h
        · cases h
        · obtain ⟨pte, -, h⟩ := Option.bind_eq_some_iff.mp h
          -- The last batch answers the thread of the fault.
          split at h
          · cases h
            exact (Sends.of_eq rfl).trans (.pagefault _ _)
          · cases h
            exact .of_eq rfl
    | noSpace => cases h
    | error => cases h

/-- An answer of the NFS server leads to answers to page faults at most. -/
theorem nfsReply_sends {k : Nat} {status : NfsStatus} (h : s.nfsReply k status = some s') :
    s.Sends s' := by
  obtain ⟨request, -, h⟩ := Option.bind_eq_some_iff.mp h
  obtain ⟨page, -, h⟩ := Option.bind_eq_some_iff.mp h
  cases request with
  | write token offset data =>
      refine Sends.trans (.of_eq ?_) (swapWriteCallback_sends h)
      split
      · rfl
      · rfl
  | read token offset count =>
      refine Sends.trans (.of_eq ?_) (swapReadCallback_sends h)
      rfl

/-! ### Page faults -/

/-- `allocate_new_frame` reports that there is neither memory nor swap space. -/
theorem allocateNewFrame_sends {frame : Nat} (h : s.allocateNewFrame tid = some (s', frame)) :
    s.Sends s' := by
  obtain ⟨⟨s₁, f⟩, hs₁, h⟩ := Option.bind_eq_some_iff.mp h
  have hquiet₁ : s.Sends s₁ := .of_eq (frameAlloc_outbox hs₁)
  dsimp only at h
  -- A free frame, or one that is swapped out for this.
  split at h
  · cases h
    exact hquiet₁
  · obtain ⟨⟨s₂, result⟩, hs₂, h⟩ := Option.bind_eq_some_iff.mp h
    have hquiet₂ := hquiet₁.trans (.of_eq (swapOut_outbox hs₂))
    cases result with
    -- With the page clean, its frame is there at once.
    | swappingComplete =>
        obtain ⟨⟨s₃, g⟩, hs₃, h⟩ := Option.bind_eq_some_iff.mp h
        obtain ⟨-, h⟩ := Option.ite_none_left_eq_some.mp h
        cases h
        exact hquiet₂.trans (.of_eq (frameAlloc_outbox hs₃))
    | swappingPending =>
        cases h
        exact hquiet₂
    -- Without a page to swap out, or without a slot, the kernel debugger is entered.
    | outOfSwapSpace | noPageAvailable =>
        cases h
        exact hquiet₂.trans (.kdbEnter _ _)

/-- Mapping a page that is in memory sends nothing. -/
theorem mapResident_outbox {access : Nat} {env : FaultEnv} {r : MappingResult}
    (h : s.mapResident tid addr access env = some (s', r)) : s'.outbox = s.outbox := by
  obtain ⟨s₁, pte, rfl | hs₁, rfl⟩ := mapResident_eq_some h
  · exact mapFpage_outbox
  · exact mapFpage_outbox.trans (markDirty_outbox hs₁)

/-- Reading a page back sends nothing but what the search for a frame does. -/
theorem mapSwapped_sends {entry : Nat} {env : FaultEnv} {r : MappingResult}
    (h : s.mapSwapped tid addr entry env = some (s', r)) : s.Sends s' := by
  obtain ⟨⟨s₁, f⟩, hs₁, h⟩ := Option.bind_eq_some_iff.mp h
  have hframe := allocateNewFrame_sends hs₁
  dsimp only at h
  split at h
  · cases h
    exact hframe
  · cases h
    exact hframe.trans (.of_eq rfl)

/-- So does a page that is referenced for the first time. -/
theorem mapFirstReference_sends {access : Nat} {env : FaultEnv} {r : MappingResult}
    (h : s.mapFirstReference tid addr access env = some (s', r)) : s.Sends s' := by
  obtain ⟨⟨s₁, f⟩, hs₁, h⟩ := Option.bind_eq_some_iff.mp h
  have hsent := allocateNewFrame_sends hs₁
  have hframe : s.Sends s₁ := Sends.trans (.of_eq rfl) hsent
  have hentry : s.Sends (s₁.setPte tid addr f) := hframe.trans (.of_eq rfl)
  dsimp only at h
  split at h
  · cases h
    exact hentry
  · split at h
    · obtain ⟨s₂, hs₂, h⟩ := Option.bind_eq_some_iff.mp h
      have hdirty := markDirty_outbox hs₂
      exact hentry.trans (.of_eq ((mapResident_outbox h).trans hdirty))
    · exact hentry.trans (.of_eq (mapResident_outbox h))

/-- `virtual_mapping` sends nothing but what the search for a frame does. -/
theorem virtualMapping_sends {access : Nat} {env : FaultEnv} {r : MappingResult}
    (h : s.virtualMapping tid addr access env = some (s', r)) : s.Sends s' := by
  obtain ⟨-, h⟩ := Option.ite_none_left_eq_some.mp h
  obtain ⟨s₁, hs₁, h⟩ := Option.bind_eq_some_iff.mp h
  obtain ⟨entry, -, h⟩ := Option.bind_eq_some_iff.mp h
  refine Sends.trans (.of_eq (createSecondLevelTable_outbox hs₁)) ?_
  split at h
  · exact mapFirstReference_sends h
  · split at h
    · exact mapSwapped_sends h
    · exact .of_eq (mapResident_outbox h)

/-! ### Walking over a page table -/

/-- A walk over a page table sends nothing if its body does not. -/
theorem walkPageTable_outbox {body : Mm → Nat → Option Mm}
    (hbody : ∀ s a s', body s a = some s' → s'.outbox = s.outbox)
    (h : s.walkPageTable tid body = some s') : s'.outbox = s.outbox :=
  walkPageTable_cost (R := fun _ s s' => s'.outbox = s.outbox) (fun _ => rfl)
    (fun h h' => h'.trans h) hbody h

/-- `pager_unmap_range` sends nothing. -/
theorem pagerUnmapRange_outbox {start stop : Nat}
    (h : s.pagerUnmapRange tid start stop = some s') : s'.outbox = s.outbox := by
  refine walkPageTable_outbox ?_ h
  intro s a s' h
  obtain ⟨pte, -, h⟩ := Option.bind_eq_some_iff.mp h
  split at h
  · cases h
    rfl
  · cases h
    rfl

/-- Freeing what an entry refers to sends nothing. -/
theorem freeEntry_outbox (h : s.freeEntry tid addr = some s') : s'.outbox = s.outbox := by
  obtain ⟨pte, -, h⟩ := Option.bind_eq_some_iff.mp h
  dsimp only at h
  split at h
  · obtain ⟨s₁, hs₁, h⟩ := Option.bind_eq_some_iff.mp h
    cases h
    show s₁.outbox = s.outbox
    exact swapFree_outbox hs₁
  · split at h
    · obtain ⟨s₁, hs₁, h⟩ := Option.bind_eq_some_iff.mp h
      cases h
      show s₁.outbox = s.outbox
      exact frameFree_outbox hs₁
    · cases h
      rfl

/-- The loop over the active pages sends nothing. -/
theorem freeActivePages_outbox {chosen : PageQueueItem → Bool}
    (h : s.freeActivePages chosen = some s') : s'.outbox = s.outbox := by
  obtain ⟨s₁, hs₁, h⟩ := Option.bind_eq_some_iff.mp h
  cases h
  show s₁.outbox = s.outbox
  refine Lib.foldlM_cost (R := fun (_ : Nat) (s s' : Mm) => s'.outbox = s.outbox)
    (c := fun _ => 0) (fun _ => rfl) (fun h h' => h'.trans h) ?_ _ hs₁
  intro s page s' h
  split at h
  · exact swapFree_outbox h
  · cases h
    rfl

/-- `pager_free_range` sends nothing. -/
theorem pagerFreeRange_outbox {start stop : Nat} (h : s.pagerFreeRange tid start stop = some s') :
    s'.outbox = s.outbox := by
  obtain ⟨s₁, hs₁, h⟩ := Option.bind_eq_some_iff.mp h
  obtain ⟨s₂, hs₂, h⟩ := Option.bind_eq_some_iff.mp h
  cases h
  have hwalk : s₁.outbox = s.outbox := by
    refine walkPageTable_outbox (fun s a s' h => ?_) hs₁
    split at h
    · exact freeEntry_outbox h
    · cases h
      rfl
  exact (freeActivePages_outbox hs₂).trans hwalk

/-- `pager_free_all` sends nothing. -/
theorem pagerFreeAll_outbox (h : s.pagerFreeAll tid = some s') : s'.outbox = s.outbox := by
  obtain ⟨s₁, hs₁, h⟩ := Option.bind_eq_some_iff.mp h
  obtain ⟨s₂, hs₂, h⟩ := Option.bind_eq_some_iff.mp h
  cases h
  have hwalk : s₁.outbox = s.outbox := by
    refine walkPageTable_outbox (fun s a s' h => ?_) hs₁
    obtain ⟨σ, hσ, h⟩ := Option.bind_eq_some_iff.mp h
    cases h
    show σ.outbox = s.outbox
    exact freeEntry_outbox hσ
  exact (freeActivePages_outbox hs₂).trans hwalk

/-- `pager_unmap_initializer` sends nothing. -/
theorem pagerUnmapInitializer_outbox (s : Mm) (tid : ThreadId) :
    (s.pagerUnmapInitializer tid).outbox = s.outbox := by
  unfold pagerUnmapInitializer
  generalize (virtualStart - 0x710000) / pageSize = n
  refine Lib.foldl_range_induction (fun _ (σ : Mm) => σ.outbox = s.outbox) ?_ rfl
  exact fun _ _ _ hσ => hσ

/-! ### The process system calls -/

/-- A turn of the loop of `wait_wakeup` answers the process in this slot, if it waits for the one
that has ended. -/
theorem wakeupEntry_sends (finishedThread : ThreadId) (s : Mm) (i : Nat) :
    s.Sends (wakeupEntry finishedThread s i) := by
  unfold wakeupEntry
  dsimp only
  split
  · refine .one (fun _ _ _ he => ?_) rfl
    cases he
    exact Or.inr ⟨rfl, rfl⟩
  · exact .refl s

/-- `wait_wakeup` sends answers of `process_wait` with one word each. -/
theorem waitWakeup_sends (s : Mm) (finishedThread : ThreadId) :
    s.Sends (s.waitWakeup finishedThread) := by
  unfold waitWakeup
  generalize maxRunningProcess = n
  exact Lib.foldl_range_induction (fun _ (σ : Mm) => s.Sends σ)
    (fun i _ σ hσ => hσ.trans (wakeupEntry_sends finishedThread σ i)) (.refl s)

/-- `delete_process` sends what `wait_wakeup` does; its own reply is not among that. -/
theorem deleteProcess_sends {pid : Int} {reply : Reply}
    (h : s.deleteProcess tid pid = some (s', reply)) : s.Sends s' := by
  unfold deleteProcess at h
  -- The server does not delete itself, nor a process that is not there.
  split at h
  · cases h
    exact .refl s
  · dsimp only at h
    split at h
    · cases h
      exact .refl s
    · obtain ⟨s₁, hs₁, h⟩ := Option.bind_eq_some_iff.mp h
      obtain ⟨s₂, hs₂, h⟩ := Option.bind_eq_some_iff.mp h
      have hquiet : s.Sends s₂ :=
        .of_eq ((pagerFreeAll_outbox hs₂).trans (pagerUnmapRange_outbox hs₁))
      -- The end of the process is noted, and then those who wait are answered.
      have hdeleted : ∀ {t : Mm}, t.outbox = s₂.outbox ++
          [.deleted (tid2pid (s.getProcess (s.pid2tid pid.toNat)).tid)] → s.Sends t :=
        fun ht => hquiet.trans (.one (fun _ _ _ he => by cases he) ht)
      split at h
      · obtain ⟨rfl, -⟩ := Prod.mk.inj (Option.some.inj h)
        refine Sends.trans (hdeleted ?_) (waitWakeup_sends _ _)
        rfl
      · obtain ⟨rfl, -⟩ := Prod.mk.inj (Option.some.inj h)
        refine Sends.trans (hdeleted ?_) (waitWakeup_sends _ _)
        rfl

/-- `start_process` sends something only when it ends the process. -/
theorem startProcess_sends {status : Int} {reply : Reply}
    (h : s.startProcess tid status = some (s', reply)) : s.Sends s' := by
  unfold startProcess at h
  -- A process that has started already is refused; one whose file could not be loaded is deleted.
  split at h
  · cases h
    exact .refl s
  · split at h
    · obtain ⟨s₁, hs₁, h⟩ := Option.bind_eq_some_iff.mp h
      obtain ⟨s₂, hs₂, h⟩ := Option.bind_eq_some_iff.mp h
      obtain ⟨s₃, hs₃, h⟩ := Option.bind_eq_some_iff.mp h
      cases h
      -- Unmapping and freeing send nothing.
      have hunmap : s₁.outbox = s.outbox :=
        (pagerUnmapRange_outbox hs₁).trans (pagerUnmapInitializer_outbox _ _)
      exact .of_eq ((pagerFreeRange_outbox hs₃).trans ((pagerUnmapRange_outbox hs₂).trans hunmap))
    · obtain ⟨⟨s₁, reply₁⟩, hs₁, h⟩ := Option.bind_eq_some_iff.mp h
      cases h
      exact deleteProcess_sends hs₁

/-- `wait_process` returns its reply, or makes the caller wait, and sends nothing itself. -/
theorem waitProcess_outbox {pid : Int} {stack : Nat → Int} :
    (s.waitProcess tid pid stack).1.outbox = s.outbox := by
  unfold waitProcess
  split
  · rfl
  · split
    · rfl
    · dsimp only
      split
      · rfl
      · rfl

/-- The search for a free slot sends nothing. -/
theorem allocateProcessEntry_outbox : s.allocateProcessEntry.1.outbox = s.outbox := by
  unfold allocateProcessEntry
  split
  · rfl
  · dsimp only
    split
    · rfl
    · rfl

/-- `register_process` sends nothing. -/
theorem registerProcess_outbox {name : List UInt8} {now : Nat} :
    (s.registerProcess name now).1.outbox = s.outbox := by
  have hallocate := s.allocateProcessEntry_outbox
  unfold registerProcess
  cases hentry : s.allocateProcessEntry with
  | mk σ r =>
      rw [hentry] at hallocate
      cases r with
      | none => exact hallocate
      | some i => exact hallocate

/-- `pager` sends what the memory management may, and its own reply has no words. -/
theorem pager_sends {access : Nat} {env : FaultEnv} {reply : Reply}
    (h : s.pager tid addr access env = some (s', reply)) :
    s.Sends s' ∧ ∀ words, reply = some words → words = [] := by
  unfold pager at h
  -- Without the right to access, the process is deleted and gets no answer.
  split at h
  · obtain ⟨⟨s₁, reply₁⟩, hs₁, h⟩ := Option.bind_eq_some_iff.mp h
    cases h
    exact ⟨deleteProcess_sends hs₁, nofun⟩
  · split at h
    · cases h
      exact ⟨.of_eq mapFpage_outbox, fun _ he => (Option.some.inj he).symm⟩
    · obtain ⟨⟨s₁, result⟩, hs₁, h⟩ := Option.bind_eq_some_iff.mp h
      have hsends := virtualMapping_sends hs₁
      -- A thread whose page is there, or not to be had, is answered; one that waits for a frame
      -- is not.
      cases result with
      | mappingFailed | mappingSuccess =>
          cases h
          exact ⟨hsends, fun _ he => (Option.some.inj he).symm⟩
      | outOfFrames | pageNotAvailable =>
          cases h
          exact ⟨hsends, nofun⟩

end Mm

end Sos
