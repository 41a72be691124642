import Sos.Paging.SwapOut

/-!
# `Sos.Paging.Calls`: the process system calls

`pager_unmap_range`, `delete_process` and `start_process` as chains of moves. `Idle s p` says
that nothing will wake up the thread of slot `p` later: no item serves it, and it waits for no
process. It is what a thread needs to block or to be answered.

`delete_process` removes the hardware mappings of the pages below `stackTop`, then takes all
pages away and clears the slot. It fails on a slot whose thread id `register_process` has
overwritten: the id leads to the server's own slot, which has no page table.
-/

set_option autoImplicit false

namespace Sos

/-- Nothing will wake up the thread of slot `p`. -/
structure Idle (s : Mm) (p : Nat) : Prop where
  serves : ∀ id, ¬ Serves s.swappingPages s.requests (threadId p) id
  waitFor : p < maxRunningProcess → (s.ptable p).isActive = true →
    (s.ptable p).waitFor = nilthread

section

variable {φ : PageMap} {s : Mm} {p : Nat}

/-- A process that runs has no item that serves it. -/
theorem Inv.idle (h : Inv φ s) (hr : s.Running p) : Idle s p := by
  refine ⟨h.not_serves (by rw [hr.2]; exact nofun), fun hp hact => ?_⟩
  by_contra hne
  have := (h.roles.call p hp hact hne).2
  rw [hr.2] at this
  cases this

/-- The thread of an idle slot blocks in a system call, or goes on. -/
theorem Idle.block (h : Idle s p) {w : Wait} (hw : w ≠ .fault) :
    Move φ s .quiet φ (s.block (threadId p) w) :=
  .setWait h.serves h.waitFor hw

/-- An idle slot is sent a message. -/
theorem Idle.reply (h : Idle s p) (words : List Int) :
    Chain (fun _ _ ℓ => ℓ.Silent) φ s [.quiet, .quiet] φ
      (s.sendIpcReply (threadId p) 0 words) :=
  (Chain.quiet (.say (by simp [pagefaultLabel]))).append
    (Chain.quiet (.setWait h.serves h.waitFor nofun))

/-- A system call returns to an idle thread, or keeps it waiting, without a move that says
anything. -/
theorem Idle.replyWait (h : Idle s p) (reply : Reply) :
    ∃ ls, Chain (fun _ _ ℓ => ℓ.Silent) φ s ls φ (s.replyWait (threadId p) reply) := by
  cases reply with
  | none => exact ⟨[], .nil _ _⟩
  | some words => exact ⟨_, h.reply words⟩

/-! ### Unmapping -/

/-- `pager_unmap_range` removes the mappings of the pages in memory that are in range. -/
theorem pagerUnmapRange_spec (h : Inv φ s) (hlive : s.Live p) (start stop : Nat) :
    ∃ hw, s.pagerUnmapRange (threadId p) start stop = some { s with hw := hw } ∧
      (∀ t v, hw t v = none ∨ hw t v = s.hw t v) ∧
      ∀ pg, InRange p (between start stop) pg → (φ pg).Resident → hw pg.tid pg.addr = none := by
  obtain ⟨s', hs', hw, rfl, hhw, hdone⟩ := walkPageTable_spec h hlive
    (fun s virtualAddress => do
      let pte ← s.pagerTableLookup (threadId p) virtualAddress
      if virtualAddress ≥ start ∧ virtualAddress < stop ∧ pte ≠ 0 ∧ !isSwapped pte then
        some (s.unmapFpage (threadId p) virtualAddress)
      else some s)
    -- What holds when all pages below `a` have been visited.
    (fun a s' => ∃ hw, s' = { s with hw := hw } ∧ (∀ t v, hw t v = none ∨ hw t v = s.hw t v) ∧
      ∀ pg, InRange p (between start stop) pg → pg.addr < a → (φ pg).Resident →
        hw pg.tid pg.addr = none)
    (by
      rintro a b _ - habsent ⟨hw, rfl, hhw, hdone⟩
      refine ⟨hw, rfl, hhw, fun pg hin hlt hres => ?_⟩
      by_cases ha : pg.addr < a
      · exact hdone pg hin ha hres
      · obtain ⟨f, d, hold, hpg⟩ := hres
        rw [habsent pg hin.1 (by omega) hlt] at hpg
        cases hpg)
    (by
      rintro pg _ rfl htable ⟨hw, rfl, hhw, hdone⟩
      have hlook : ({ s with hw := hw } : Mm).pagerTableLookup (threadId pg.pid) pg.addr =
          some (φ pg).word := h.lookup htable
      have hok := h.ok pg
      have hnext : ∀ hw' : ThreadId → Nat → Option HwMapping,
          (∀ t v, hw' t v = none ∨ hw' t v = hw t v) →
          (InRange pg.pid (between start stop) pg → (φ pg).Resident →
            hw' pg.tid pg.addr = none) →
          (∀ t v, hw' t v = none ∨ hw' t v = s.hw t v) ∧
            ∀ q, InRange pg.pid (between start stop) q → q.addr < pg.addr + pageSize →
              (φ q).Resident → hw' q.tid q.addr = none := by
        intro hw' hsub hself
        refine ⟨fun t v => ?_, fun q hin hlt hres => ?_⟩
        · rcases hsub t v with h1 | h1
          · exact Or.inl h1
          · rw [h1]
            exact hhw t v
        · by_cases he : q = pg
          · subst he
            exact hself hin hres
          · have hne : q.addr ≠ pg.addr := fun ha => he (Page.ext hin.1 ha)
            have h1 := q.aligned
            have h2 := pg.aligned
            simp only [pageSize] at h1 h2 hlt
            rcases hsub q.tid q.addr with h3 | h3
            · exact h3
            · rw [h3]
              exact hdone q hin (by omega) hres
      simp only [hlook, Option.bind_eq_bind, Option.bind_some]
      split
      · refine ⟨_, rfl, _, rfl, hnext _ ?_ fun _ _ => if_pos ⟨rfl, rfl⟩⟩
        intro t v
        by_cases he : t = threadId pg.pid ∧ v = pg.addr
        · exact Or.inl (if_pos he)
        · exact Or.inr (if_neg he)
      -- A page that is in memory and in the range meets the condition of the source.
      next hcond =>
        refine ⟨_, rfl, hw, rfl, hnext hw (fun _ _ => Or.inr rfl) ?_⟩
        rintro hin ⟨f, d, hold, hpg⟩
        rw [hpg] at hok hcond
        refine absurd ?_ hcond
        have hbetween : pg.addr ≥ start ∧ pg.addr < stop := by
          simpa [between] using hin.2
        refine ⟨hbetween.1, hbetween.2, ?_, ?_⟩
        · rw [ne_eq, PageState.word_eq_zero hok]
          simp
        · rw [Bool.not_eq_true', Bool.eq_false_iff, ne_eq, PageState.isSwapped_word hok]
          rintro ⟨b, hb⟩
          cases hb)
    ⟨s.hw, rfl, fun _ _ => Or.inr rfl, fun _ _ hlt => absurd hlt (Nat.not_lt_zero _)⟩
  exact ⟨hw, hs', hhw, fun pg hin hres => hdone pg hin pg.bounded hres⟩

/-! ### `wait_wakeup` -/

/-- The threads that wait for a process are answered, and wait no longer. -/
theorem waitWakeup_spec (h : Inv φ s) (finishedThread : ThreadId) :
    ∃ ls, Chain (fun _ _ ℓ => ℓ.Silent) φ s ls φ (s.waitWakeup finishedThread) ∧
      (∀ q, Idle s q → Idle (s.waitWakeup finishedThread) q) ∧
      ∀ q, ((s.waitWakeup finishedThread).ptable q).isActive = (s.ptable q).isActive := by
  rw [Mm.waitWakeup]
  -- The invariant of the loop: what it has done is a chain of silent moves.
  refine Lib.foldl_range_induction
    (fun _ s' => ∃ ls, Chain (fun _ _ ℓ => ℓ.Silent) φ s ls φ s' ∧ (∀ q, Idle s q → Idle s' q) ∧
      ∀ q, (s'.ptable q).isActive = (s.ptable q).isActive)
    ?_ ⟨[], .nil _ _, fun _ hq => hq, fun _ => rfl⟩
  rintro i hi s' ⟨ls, hc, hidle, hactive⟩
  -- Process `i` waits for the one that has finished, or for any.
  by_cases hwake : (s'.ptable i).isActive = true ∧ (s'.ptable i).waitFor ≠ nilthread ∧
      ((s'.ptable i).waitFor = finishedThread ∨ (s'.ptable i).waitFor = anythread)
  · obtain ⟨hlive, hcall⟩ := (hc.inv h).roles.call i hi hwake.1 hwake.2.1
    -- A thread that waits for a process waits for no page.
    have hnone := (hc.inv h).not_serves (p := i) (by rw [hcall]; exact nofun)
    have hentry : Mm.wakeupEntry finishedThread s' i =
        { s' with
          outbox := s'.outbox ++
            [.reply (threadId i) sosProcessWait [(tid2pid finishedThread : Int)]]
          ptable := Function.update s'.ptable i { s'.ptable i with waitFor := nilthread }
          wait := Function.update s'.wait (threadId i) .ready } := by
      simp only [Mm.wakeupEntry, if_pos hwake, Mm.sendIpcReply]
      rw [hlive.2.2.2]
    rw [hentry]
    -- The answer has the label of the call, and is no answer to a fault.
    have hlabel : ∀ t words, Event.reply (threadId i) sosProcessWait
        [(tid2pid finishedThread : Int)] ≠ .reply t pagefaultLabel words := by
      simp [sosProcessWait, pagefaultLabel]
    refine ⟨_, hc.append ((Chain.quiet (.say hlabel)).append (Chain.quiet (.setWaitFor (p := i)
      hlive hnone (fun hn => absurd rfl hn) nofun))), fun q hq => ?_, fun q => ?_⟩
    · refine ⟨(hidle q hq).serves, fun hlt hact => ?_⟩
      -- Process `i` waits no more, and the others are as they were.
      by_cases hqi : q = i
      · simp only [hqi, Function.update_self]
      · simp only [Function.update_of_ne hqi] at hact ⊢
        exact (hidle q hq).waitFor hlt hact
    · by_cases hqi : q = i
      · simp only [hqi, Function.update_self, hactive]
      · simp only [Function.update_of_ne hqi, hactive]
  · rw [Mm.wakeupEntry, if_neg hwake]
    exact ⟨ls, hc, hidle, hactive⟩

/-- The processes `wait_wakeup` answers when a thread has finished. -/
def Mm.WaitsFor (s : Mm) (finishedThread : ThreadId) (q : Nat) : Prop :=
  (s.ptable q).isActive = true ∧ (s.ptable q).waitFor ≠ nilthread ∧
    ((s.ptable q).waitFor = finishedThread ∨ (s.ptable q).waitFor = anythread)

instance (s : Mm) (finishedThread : ThreadId) : DecidablePred (s.WaitsFor finishedThread) :=
  fun _ => inferInstanceAs (Decidable (_ ∧ _))

/-- `wait_wakeup` as one change: one message for each process that waits, in the order of the
table, and their `waitFor` is cleared. -/
theorem Mm.waitWakeup_eq (s : Mm) (finishedThread : ThreadId) :
    ∃ wait, s.waitWakeup finishedThread =
      { s with
        ptable := fun q => if q < maxRunningProcess ∧ s.WaitsFor finishedThread q then
          { s.ptable q with waitFor := nilthread } else s.ptable q
        outbox := s.outbox ++
          ((List.range maxRunningProcess).filter fun q => s.WaitsFor finishedThread q).map fun q =>
            Event.reply (s.ptable q).tid sosProcessWait [(tid2pid finishedThread : Int)]
        wait := wait } := by
  rw [Mm.waitWakeup]
  refine Lib.foldl_range_induction
    (fun n s' => ∃ wait, s' =
      { s with
        ptable := fun q => if q < n ∧ s.WaitsFor finishedThread q then
          { s.ptable q with waitFor := nilthread } else s.ptable q
        outbox := s.outbox ++
          ((List.range n).filter fun q => s.WaitsFor finishedThread q).map fun q =>
            Event.reply (s.ptable q).tid sosProcessWait [(tid2pid finishedThread : Int)]
        wait := wait }) ?_ ⟨s.wait, ?_⟩
  · rintro n - s' ⟨wait, rfl⟩
    -- The entry has not been visited yet.
    have hentry : ∀ P : Process, (if n < n ∧ s.WaitsFor finishedThread n then P else s.ptable n) =
        s.ptable n := fun _ => if_neg fun h => Nat.lt_irrefl n h.1
    have hnext : ∀ q, q ≠ n → (q < n + 1 ↔ q < n) := by
      intro q hq
      omega
    rw [List.range_succ, List.filter_append, List.map_append, ← List.append_assoc]
    by_cases hw : s.WaitsFor finishedThread n
    · have hw' := hw
      unfold Mm.WaitsFor at hw'
      simp only [Mm.wakeupEntry, hentry, if_pos hw', Mm.sendIpcReply]
      refine ⟨Function.update wait (s.ptable n).tid .ready, ?_⟩
      congr 1
      · funext q
        by_cases hq : q = n
        · rw [hq, Function.update_self, if_pos ⟨Nat.lt_succ_self n, hw⟩]
        · rw [Function.update_of_ne hq]
          simp only [hnext q hq]
      · simp [hw]
    · have hw' := hw
      unfold Mm.WaitsFor at hw'
      simp only [Mm.wakeupEntry, hentry, if_neg hw']
      refine ⟨wait, ?_⟩
      congr 1
      · funext q
        by_cases hq : q = n
        · simp only [hq, hw, and_false]
        · simp only [hnext q hq]
      · simp [hw]
  · simp

/-! ### `delete_process` -/

/-- What `delete_process` does with the slot once the memory of the process is freed. -/
def Mm.clearSlot (s : Mm) (p : Nat) : Mm :=
  { s with
    ptable := Function.update s.ptable p { s.ptable p with pageIndex := none, isActive := false }
    wait := Function.update s.wait (threadId p) .ready
    outbox := s.outbox ++ [.deleted p] }

/-- Only the slot of the process is cleared. -/
theorem Mm.clearSlot_of_ne (s : Mm) {p q : Nat} (h : q ≠ p) :
    (s.clearSlot p).ptable q = s.ptable q := Function.update_of_ne h _ _

/-- The slot that is cleared loses its page index and is not active any more. -/
theorem Mm.clearSlot_self (s : Mm) (p : Nat) :
    (s.clearSlot p).ptable p = { s.ptable p with pageIndex := none, isActive := false } :=
  Function.update_self ..

/-- A process is deleted: `ls₁` and `ls₂` are the moves before and after. -/
structure Deleted (φ : PageMap) (s : Mm) (p : Nat) (φ' : PageMap) (s' : Mm) : Prop where
  result : ∃ hw σ, { s with hw := hw }.pagerFreeAll (threadId p) = some σ ∧
    Released φ { s with hw := hw } p (fun _ => true) σ ∧ φ' = φ.release p (fun _ => true) ∧
    s' = (σ.clearSlot p).waitWakeup (threadId p)
  moves : ∃ σ σ' ls₁ ls₂, Chain (fun _ _ ℓ => ℓ.Silent) φ s ls₁ φ σ ∧ Unmapped s σ ∧
    (∀ q, (s.ptable q).Same (σ.ptable q)) ∧ Move φ σ (.delete p) φ' σ' ∧
    Chain (fun _ _ ℓ => ℓ.Silent) φ' σ' ls₂ φ' s'
  idle : ∀ q, q ≠ p → Idle s q → Idle s' q
  gone : (s'.ptable p).isActive = false

/-- The three things `delete_process` does with a pid it is given. -/
inductive DeleteResult (φ : PageMap) (s : Mm) (caller : ThreadId) (pid : Int) : Prop
  | refused (hdead : ∀ p : Nat, pid = (p : Int) → ¬ s.Live p)
      (hs : s.deleteProcess caller pid = some (s, some [-1]))
  | corrupted (hpid : 1 ≤ pid ∧ pid < maxRunningProcess)
      (htid : (s.ptable pid.toNat).tid = ⟨0, 1⟩) (hs : s.deleteProcess caller pid = none)
  | deleted {p : Nat} {φ' : PageMap} {s' : Mm} (hpid : pid = (p : Int)) (hlive : s.Live p)
      (hs : s.deleteProcess caller pid =
        some (s', if caller ≠ threadId p then some [(p : Int)] else none))
      (hd : Deleted φ s p φ' s')

/-- For a slot whose thread id was overwritten the entry of the thread is the server's own, which
has no page table to walk. -/
theorem deleteProcess_corrupted (h : Inv φ s) {caller : ThreadId}
    (hrange : ¬ ((p : Int) < 1 ∨ (p : Int) ≥ maxRunningProcess))
    (htid : (s.ptable p).tid = ⟨0, 1⟩) : s.deleteProcess caller p = none := by
  have hget : s.getProcess (s.pid2tid p) = s.ptable 0 := by
    rw [Mm.getProcess, Mm.pid2tid, htid]
    rfl
  obtain ⟨hroot, hact, hindex⟩ := h.tables.root
  have hwalk : s.pagerUnmapAll (s.ptable 0).tid = none := by
    have hnone : (s.ptable 0).pageIndex = none := by simpa using hindex
    simp [Mm.pagerUnmapAll, Mm.pagerUnmapRange, Mm.walkPageTable, Mm.getProcess, hroot, hnone]
  simp only [Mm.deleteProcess, if_neg hrange, Int.toNat_natCast, hget, hact, Bool.not_true,
    Bool.false_eq_true, if_false, hwalk, Option.bind_eq_bind, Option.bind_none]

/-- `delete_process` refuses the pid, or fails on an overwritten thread id, or deletes the
process. -/
theorem deleteProcess_spec (h : Inv φ s) (caller : ThreadId) (pid : Int) :
    DeleteResult φ s caller pid := by
  by_cases hrange : pid < 1 ∨ pid ≥ maxRunningProcess
  · refine .refused ?_ (by simp only [Mm.deleteProcess, if_pos hrange])
    rintro p rfl ⟨h1, h2, -⟩
    omega
  obtain ⟨p, rfl⟩ := Int.eq_ofNat_of_zero_le (show 0 ≤ pid by omega)
  have h1 : 1 ≤ p := by omega
  have h2 : p < maxRunningProcess := by omega
  rcases h.tables.entry p h1 h2 with ⟨hno, hversion⟩ | ⟨-, htid⟩
  · -- the entry of the thread is the entry of the slot
    have hget : s.getProcess (s.pid2tid p) = s.ptable p := by
      rw [Mm.getProcess, Mm.pid2tid, tid2pid, hno, reservedIdBits, Nat.shiftLeft_shiftRight]
    cases hact : (s.ptable p).isActive with
    | false =>
        refine .refused ?_ ?_
        · rintro q hq ⟨-, -, hactive, -⟩
          obtain rfl : p = q := Int.ofNat.inj hq
          rw [hact] at hactive
          cases hactive
        · simp only [Mm.deleteProcess, if_neg hrange, Int.toNat_natCast, hget, hact,
            Bool.not_false, if_true]
    | true =>
        have htid : (s.ptable p).tid = threadId p := by
          rw [threadId, ← hno, ← hversion hact]
        have hlive : s.Live p := ⟨h1, h2, hact, htid⟩
        obtain ⟨hw, hunmap, hhw, hdone⟩ := pagerUnmapRange_spec h hlive 0 stackTop
        let s₁ : Mm := { s with hw := hw }
        have hc₁ : Chain (fun _ _ ℓ => ℓ.Silent) φ s [.quiet] φ s₁ := Chain.quiet (.unmap hhw)
        obtain ⟨s₂, hfree, hrel⟩ := pagerFreeAll_spec (hc₁.inv h) hlive
        have hm : Move φ s₁ (.delete p) (φ.release p fun _ => true) (s₂.clearSlot p) :=
          .delete hlive (fun pg hp hlt hres => hdone pg ⟨hp, by simp [between, hlt]⟩ hres) hrel
        obtain ⟨ls, hc₃, hidle, hactive⟩ := waitWakeup_spec (hm.inv (hc₁.inv h)) (threadId p)
        refine .deleted rfl hlive ?_
          ⟨⟨hw, s₂, hfree, hrel, rfl, rfl⟩, ⟨_, _, _, _, hc₁, hhw, fun _ => .refl _, hm, hc₃⟩,
            fun q hq hidleq => hidle q ?_, ?_⟩
        · simp only [Mm.deleteProcess, if_neg hrange, Int.toNat_natCast, hget, hact, htid]
          have hunmap' : s.pagerUnmapAll (threadId p) = some s₁ := hunmap
          rw [hunmap', Option.bind_eq_bind, Option.bind_some, hfree]
          simp only [Bool.not_true, Bool.false_eq_true, if_false, Option.bind_some,
            Mm.abortIpcAndStop, Function.update_self, Function.update_idem, tid2pid_threadId,
            Mm.clearSlot]
          by_cases hcaller : caller = threadId p
          · simp [hcaller]
          · simp [hcaller]
        · refine ⟨fun id hs => hidleq.serves id ?_, fun hlt hact => ?_⟩
          · rw [Mm.clearSlot, hrel.swappingPages, hrel.requests] at hs
            exact serves_cancel (threadId_ne_nilthread q) hs
          · simp only [Mm.clearSlot, Function.update_of_ne hq, hrel.ptable_of_ne hq] at hact ⊢
            exact hidleq.waitFor hlt hact
        · rw [hactive]
          simp only [Mm.clearSlot, Function.update_self]
  -- The entry of the slot has lost its thread number.
  · exact .corrupted ⟨by omega, by omega⟩ htid (deleteProcess_corrupted h hrange htid)

/-- A running process can be deleted. -/
theorem deleteProcess_live (h : Inv φ s) (caller : ThreadId) (hlive : s.Live p) :
    ∃ φ' s', s.deleteProcess caller p =
        some (s', if caller ≠ threadId p then some [(p : Int)] else none) ∧
      Deleted φ s p φ' s' := by
  cases deleteProcess_spec h caller p with
  | refused hdead => exact absurd hlive (hdead p rfl)
  | corrupted _ htid =>
      rw [Int.toNat_natCast, hlive.2.2.2] at htid
      have hno := congrArg ThreadId.threadNo htid
      rw [threadId, Nat.shiftLeft_eq] at hno
      have h1 := hlive.1
      simp only [reservedIdBits] at hno
      omega
  | deleted hpid _ hs hd =>
      obtain rfl := Int.ofNat.inj hpid
      exact ⟨_, _, hs, hd⟩

/-! ### `start_process` -/

/-- `pager_unmap_initializer` removes hardware mappings and nothing else. -/
theorem pagerUnmapInitializer_spec (s : Mm) (tid : ThreadId) :
    ∃ hw, s.pagerUnmapInitializer tid = { s with hw := hw } ∧
      (∀ t v, hw t v = none ∨ hw t v = s.hw t v) ∧
      ∀ v, 0x710000 ≤ v → v < virtualStart → v % pageSize = 0 → hw tid v = none := by
  -- The invariant of the loop: the first `n` pages are unmapped, and nothing has been mapped.
  have hloop : ∃ hw, s.pagerUnmapInitializer tid = { s with hw := hw } ∧
      (∀ t v, hw t v = none ∨ hw t v = s.hw t v) ∧
      ∀ i < (virtualStart - 0x710000) / pageSize, hw tid (0x710000 + i * pageSize) = none := by
    rw [Mm.pagerUnmapInitializer]
    refine Lib.foldl_range_induction
      (fun n s' => ∃ hw, s' = { s with hw := hw } ∧
        (∀ t v, hw t v = none ∨ hw t v = s.hw t v) ∧
        ∀ i < n, hw tid (0x710000 + i * pageSize) = none)
      ?_ ⟨s.hw, rfl, fun _ _ => Or.inr rfl, fun i hi => absurd hi (Nat.not_lt_zero i)⟩
    rintro n - _ ⟨hw, rfl, hhw, hdone⟩
    refine ⟨_, rfl, ?_, ?_⟩
    · intro t v
      by_cases he : t = tid ∧ v = 0x710000 + n * pageSize
      · exact Or.inl (if_pos he)
      · simp only [if_neg he]
        exact hhw t v
    · intro i hi
      by_cases he : i = n
      · rw [he]
        exact if_pos ⟨rfl, rfl⟩
      · have hlt : i < n := by omega
        split
        · rfl
        · exact hdone i hlt
  obtain ⟨hw, hs, hhw, hdone⟩ := hloop
  refine ⟨hw, hs, hhw, fun v h1 h2 h3 => ?_⟩
  -- An aligned address in the range is that of some turn.
  have hv : v = 0x710000 + (v - 0x710000) / pageSize * pageSize := by
    simp only [pageSize] at h3 ⊢
    omega
  rw [hv]
  apply hdone
  simp only [virtualStart, pageSize] at h2 h3 ⊢
  omega

/-- A process is started: its heap is freed, then it is marked initialized. -/
def Started (φ : PageMap) (s : Mm) (p : Nat) (φ' : PageMap) (s' : Mm) : Prop :=
  ∃ σ σ' ls, Chain (fun _ _ ℓ => ℓ.Silent) φ s ls φ σ ∧ Unmapped s σ ∧
    (∀ q, (s.ptable q).Same (σ.ptable q)) ∧ Move φ σ (.release p heapStart heapEnd) φ' σ' ∧
    Unmapped s σ' ∧ Move φ' σ' (.start p) φ' s' ∧ s'.wait (threadId p) = .ready

/-- What is in memory after a release was so before. -/
theorem PageMap.resident_of_release {inRange : Nat → Bool} {pg : Page}
    (h : (φ.release p inRange pg).Resident) : (φ pg).Resident := by
  obtain ⟨f, d, hold, hpg⟩ := h
  have hframe : (φ.drop (InRange p inRange) pg).frame? = some f := by
    rw [← frame?_release, hpg]
    rfl
  -- A page that has been given up has no frame.
  rcases drop_eq_or φ (InRange p inRange) pg with ⟨-, he⟩ | ⟨-, he⟩
  · rw [he] at hframe
    cases hframe
  · rw [he] at hframe
    cases hst : φ pg with
    | absent =>
        rw [hst] at hframe
        cases hframe
    | swapped b =>
        rw [hst] at hframe
        cases hframe
    | resident f' d' hold' => exact ⟨f', d', hold', rfl⟩

/-- `start_process` for an initializer that has loaded its file. -/
theorem startProcess_started (h : Inv φ s) (hlive : s.Live p) (hidle : Idle s p) {status : Int}
    (hinit : (s.ptable p).initialized = false) (hstatus : status ≠ 0) :
    ∃ φ' s', s.startProcess (threadId p) status = some (s', none) ∧ Started φ s p φ' s' := by
  let s₁ : Mm := s.abortIpcAndStop (threadId p)
  have hc₁ : Chain (fun _ _ ℓ => ℓ.Silent) φ s [.quiet] φ s₁ := Chain.quiet (hidle.block nofun)
  obtain ⟨hw₂, hs₂, hhw₂, hphys⟩ := pagerUnmapInitializer_spec s₁ (threadId p)
  let s₂ : Mm := { s₁ with hw := hw₂ }
  have hc₂ := hc₁.append (Chain.quiet (.unmap (s := s₁) hhw₂))
  obtain ⟨hw₃, hs₃, hhw₃, hpages⟩ := pagerUnmapRange_spec (s := s₂) (hc₂.inv h) hlive 0 stackTop
  let s₃ : Mm := { s₁ with hw := hw₃ }
  have hc₃ := hc₂.append (Chain.quiet (.unmap (s := s₂) hhw₃))
  obtain ⟨hw₄, hs₄, hhw₄, hheap⟩ :=
    pagerUnmapRange_spec (s := s₃) (hc₃.inv h) hlive heapStart heapEnd
  let s₄ : Mm := { s₁ with hw := hw₄ }
  have hc₄ := hc₃.append (Chain.quiet (.unmap (s := s₃) hhw₄))
  obtain ⟨s₅, hs₅, hrel⟩ := pagerFreeRange_spec (s := s₄) (hc₄.inv h) hlive heapStart heapEnd
  have hunmapped : Unmapped s s₄ := by
    have h₁₂ : Unmapped s s₂ := hhw₂
    have h₂₃ : Unmapped s₂ s₃ := hhw₃
    have h₃₄ : Unmapped s₃ s₄ := hhw₄
    exact (h₁₂.trans h₂₃).trans h₃₄
  have hready : s₄.wait (threadId p) ≠ .fault := by
    rw [show s₄.wait (threadId p) = .ready from Function.update_self ..]
    exact nofun
  have hlive₅ : s₅.Live p := by
    rw [Mm.Live, LiveIn, hrel.same.isActive, hrel.same.tid]
    exact hlive
  -- Nothing is mapped again on the way.
  have h₃₅ : ∀ {t v}, hw₃ t v = none → s₅.hw t v = none := by
    intro t v hn
    rw [hrel.hw]
    rcases hhw₄ t v with h1 | h1
    · exact h1
    · exact h1.trans hn
  refine ⟨_, _, ?_, s₄, s₅, _, hc₄, hunmapped, fun _ => .refl _, .release hlive hready hheap hrel,
    ?_, .start hlive₅ ?_ ?_, ?_⟩
  · have hall : s₂.pagerUnmapAll (threadId p) = some s₃ := hs₃
    have hget : (s.getProcess (threadId p)).initialized = false := by
      rw [Mm.getProcess, tid2pid_threadId, hinit]
    simp only [Mm.startProcess, hget, Bool.false_eq_true, if_false, if_pos hstatus]
    rw [show s.abortIpcAndStop (threadId p) = s₁ from rfl, hs₂, hall, Option.bind_eq_bind,
      Option.bind_some, show s₃.pagerUnmapRange (threadId p) heapStart heapEnd = some s₄ from hs₄,
      Option.bind_some, show s₄.pagerFreeRange (threadId p) heapStart heapEnd = some s₅ from hs₅,
      Option.bind_some]
    simp only [Mm.updateProcess, Mm.getProcess, tid2pid_threadId]
  · intro t v
    rw [hrel.hw]
    exact hunmapped t v
  · intro v h1 h2 h3
    apply h₃₅
    rcases hhw₃ (threadId p) v with h4 | h4
    · exact h4
    · exact h4.trans (hphys v h1 h2 h3)
  · intro pg hp hlt hres
    exact h₃₅ (hpages pg ⟨hp, by simp [between, hlt]⟩ (PageMap.resident_of_release hres))
  · show s₅.wait (threadId p) = .ready
    rw [hrel.wait]
    exact Function.update_self ..

end

end Sos
