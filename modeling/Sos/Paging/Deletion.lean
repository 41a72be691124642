import Sos.Paging.Fields
import Sos.Paging.Reachable

/-!
# `Sos.Paging.Deletion`: the step in which a process goes

Three actions can delete a process: `delete_process`, a page fault without access, and
`start_process` for an executable that could not be loaded. `Inv.removed` says what all three
do: the mappings and the pages of the process are gone, its slot is cleared, and
`wait_wakeup` has run (`Removed`). `Inv.kept` is about the other steps: none of them writes the
fields of a process-table entry that say who runs and who waits, but for the two system calls
that are made for it.
-/

set_option autoImplicit false

namespace Sos

/-- The fields that say who runs and who waits are what they were. -/
structure Process.SameWait (P P' : Process) : Prop where
  isActive : P'.isActive = P.isActive
  tid : P'.tid = P.tid
  waitFor : P'.waitFor = P.waitFor

/-- An entry waits for what it waits for. -/
theorem Process.SameWait.refl (P : Process) : P.SameWait P := ⟨rfl, rfl, rfl⟩

/-- An entry of which only the page table is written waits for the same thread. -/
theorem Process.SameFields.sameWait {P P' : Process} (h : P.SameFields P') : P.SameWait P' := by
  rw [Process.SameFields] at h
  rw [h]
  exact ⟨rfl, rfl, rfl⟩

/-- Over two steps an entry waits for the same thread if it does over each. -/
theorem Process.SameWait.trans {P Q R : Process} (h : P.SameWait Q) (h' : Q.SameWait R) :
    P.SameWait R :=
  ⟨h'.isActive.trans h.isActive, h'.tid.trans h.tid, h'.waitFor.trans h.waitFor⟩

/-- A process is deleted in a step from `s` to `s'`: `σ` is the state in which its memory is
freed. Only the last message of the step, the answer to the caller, follows `wait_wakeup`. -/
structure Removed (φ : PageMap) (s : Mm) (p : Nat) (σ : Mm) (answer : List Event) (s' : Mm) :
    Prop where
  live : s.Live p
  free : ∃ hw wait, { s with hw := hw, wait := wait, outbox := [] }.pagerFreeAll (threadId p) =
      some σ ∧
    Released φ { s with hw := hw, wait := wait, outbox := [] } p (fun _ => true) σ
  result : ∃ wait, s' =
    { (σ.clearSlot p).waitWakeup (threadId p) with
      wait := wait
      outbox := ((σ.clearSlot p).waitWakeup (threadId p)).outbox ++ answer }
  answer : answer = [] ∨ ∃ t words, answer = [.reply t 0 words]

section

variable {φ : PageMap} {s s' : Mm} {a : Action} {p : Nat}

/-- The memory and the waits of a process that has been deleted, when its slot is cleared. -/
theorem Deleted.removed {t : ThreadId} {w : Wait} {φ' : PageMap} {s₁ : Mm} (hlive : s.Live p)
    (h : Deleted φ (s.clear.block t w) p φ' s₁) (caller : ThreadId) (reply : Reply) :
    ∃ σ answer, Removed φ s p σ answer (s₁.replyWait caller reply) := by
  obtain ⟨hw, σ, hfree, hrel, -, hs₁⟩ := h.result
  have hfreed : ∃ hw wait, { s with hw := hw, wait := wait, outbox := [] }.pagerFreeAll
      (threadId p) = some σ ∧
        Released φ { s with hw := hw, wait := wait, outbox := [] } p (fun _ => true) σ :=
    ⟨hw, _, hfree, hrel⟩
  -- The caller gets an answer, unless it is the one that has been deleted.
  cases reply with
  | none =>
      refine ⟨σ, [], hlive, hfreed, ⟨s₁.wait, ?_⟩, Or.inl rfl⟩
      rw [← hs₁, List.append_nil]
      rfl
  | some words =>
      refine ⟨σ, _, hlive, hfreed, ⟨Function.update s₁.wait caller .ready, ?_⟩,
        Or.inr ⟨caller, words, rfl⟩⟩
      rw [← hs₁]
      rfl

/-- The thread of a running process blocks in its message. -/
theorem Inv.blocked (h : Inv φ s) (hrun : s.Running p) (w : Wait) :
    Inv φ (s.clear.block (threadId p) w) :=
  h.clear.setWait (h.idle hrun).serves (h.idle hrun).waitFor

/-- What a step does that deletes a process. -/
theorem Inv.removed (h : Inv φ s) (hs : s.step a = some s') (hdel : s.deletes a = some p) :
    ∃ σ answer, Removed φ s p σ answer s' := by
  obtain ⟨hen, hexec⟩ := Mm.step_eq_some hs
  cases a with
  | fault q addr access env =>
      obtain ⟨hdenied, hqp⟩ := Option.ite_none_left_eq_some.mp hdel
      obtain rfl : q = p := Option.some.inj hqp
      have hrun : s.Running q := hen.1
      obtain ⟨φ', s₁, hs₁, hd⟩ :=
        deleteProcess_live (h.blocked hrun .fault) (threadId q) hrun.1
      have hdenied' : (s.clear.block (threadId q) .fault).isAccessGranted (threadId q) addr access =
          false := Bool.eq_false_iff.mpr hdenied
      have hstep : s.clear.exec (.fault q addr access env) = some s₁ := by
        simp only [Mm.exec, Mm.pager, hdenied', Bool.not_false, if_true, tid2pid_threadId, hs₁]
        rfl
      obtain rfl : s₁ = s' := Option.some.inj (hstep.symm.trans hexec)
      exact hd.removed hrun.1 (threadId q) none
  -- The initializer reports that it could not load the file.
  | startProcess q status =>
      obtain ⟨⟨hinit, hstatus⟩, hqp⟩ := Option.ite_none_right_eq_some.mp hdel
      obtain rfl : q = p := Option.some.inj hqp
      have hrun : s.Running q := hen
      obtain ⟨φ', s₁, hs₁, hd⟩ :=
        deleteProcess_live (h.blocked hrun .call) (threadId q) hrun.1
      have hget : ((s.clear.block (threadId q) .call).getProcess (threadId q)).initialized =
          false := by
        rw [Mm.getProcess, tid2pid_threadId]
        exact hinit
      have hstep : s.clear.exec (.startProcess q status) = some s₁ := by
        simp only [Mm.exec, Mm.startProcess, hget, Bool.false_eq_true, if_false, hstatus, ne_eq,
          not_true_eq_false, tid2pid_threadId, hs₁]
        rfl
      obtain rfl : s₁ = s' := Option.some.inj (hstep.symm.trans hexec)
      exact hd.removed hrun.1 (threadId q) none
  | deleteProcess q pid =>
      obtain ⟨⟨hpos, hlive⟩, hqp⟩ := Option.ite_none_right_eq_some.mp hdel
      obtain rfl : pid.toNat = p := Option.some.inj hqp
      have hrun : s.Running q := hen
      obtain ⟨φ', s₁, hs₁, hd⟩ :=
        deleteProcess_live (h.blocked hrun .call) (threadId q) hlive
      rw [Int.toNat_of_nonneg hpos] at hs₁
      have hstep : s.clear.exec (.deleteProcess q pid) = some (s₁.replyWait (threadId q)
          (if threadId q ≠ threadId pid.toNat then some [(pid : Int)] else none)) := by
        simp only [Mm.exec]
        rw [show (s.clear.block (threadId q) .call).deleteProcess (threadId q) pid = _ from hs₁]
        rfl
      obtain rfl := Option.some.inj (hstep.symm.trans hexec)
      exact hd.removed hlive (threadId q) _
  | store | nfsReply | unmapAll | waitProcess | createProcess => cases hdel

/-! ### The state after a deletion -/

namespace Removed

variable {σ : Mm} {answer : List Event}

/-- The scan finds the entries of the other processes as they were before the step. -/
theorem clearSlot_of_ne (h : Removed φ s p σ answer s') {q : Nat} (hq : q ≠ p) :
    (σ.clearSlot p).ptable q = s.ptable q := by
  obtain ⟨hw, wait, -, hrel⟩ := h.free
  rw [σ.clearSlot_of_ne hq, hrel.ptable_of_ne hq]

/-- The processes that wait for the deleted one are those that did before, without itself. -/
theorem waitsFor_iff (h : Removed φ s p σ answer s') (q : Nat) :
    (σ.clearSlot p).WaitsFor (threadId p) q ↔ q ≠ p ∧ s.WaitsFor (s.ptable p).tid q := by
  rw [h.live.2.2.2]
  by_cases hq : q = p
  · subst hq
    simp [Mm.WaitsFor, Mm.clearSlot_self]
  · simp only [Mm.WaitsFor, h.clearSlot_of_ne hq, ne_eq, hq, not_false_eq_true, true_and]

/-- The process table after the step. -/
theorem ptable (h : Removed φ s p σ answer s') (q : Nat) :
    s'.ptable q =
      if q < maxRunningProcess ∧ q ≠ p ∧ s.WaitsFor (s.ptable p).tid q then
        { s.ptable q with waitFor := nilthread }
      else (σ.clearSlot p).ptable q := by
  obtain ⟨wait, hs'⟩ := h.result
  obtain ⟨wait', hwakeup⟩ := (σ.clearSlot p).waitWakeup_eq (threadId p)
  rw [hs', hwakeup]
  dsimp only
  simp only [h.waitsFor_iff]
  split
  next hw => rw [h.clearSlot_of_ne hw.2.1]
  next => rfl

/-- The slot of the process is cleared in the state that its pages have left. -/
theorem ptable_self (h : Removed φ s p σ answer s') :
    s'.ptable p = { σ.ptable p with pageIndex := none, isActive := false } := by
  rw [h.ptable, if_neg fun hw => hw.2.1 rfl, σ.clearSlot_self]

/-- What is sent in the step. -/
theorem outbox (h : Removed φ s p σ answer s') :
    s'.outbox = .deleted p ::
      (((List.range maxRunningProcess).filter fun q => q ≠ p ∧ s.WaitsFor (s.ptable p).tid q).map
        fun q => Event.reply (s.ptable q).tid sosProcessWait [(p : Int)]) ++ answer := by
  obtain ⟨wait, hs'⟩ := h.result
  obtain ⟨wait', hwakeup⟩ := (σ.clearSlot p).waitWakeup_eq (threadId p)
  obtain ⟨hw, wait₀, -, hrel⟩ := h.free
  have houtbox : (σ.clearSlot p).outbox = [.deleted p] := by
    show σ.outbox ++ [Event.deleted p] = _
    rw [hrel.outbox]
    rfl
  rw [hs', hwakeup]
  simp only [h.waitsFor_iff, tid2pid_threadId, houtbox]
  refine congrArg (Event.deleted p :: · ++ answer) (List.map_congr_left fun q hq => ?_)
  have hqp : q ≠ p := by
    rw [List.mem_filter, decide_eq_true_eq] at hq
    exact hq.2.1
  rw [h.clearSlot_of_ne hqp]

end Removed

/-! ### The other steps -/

/-- A reply does not touch the process table. -/
theorem Mm.replyWait_ptable (s : Mm) (tid : ThreadId) (reply : Reply) :
    (s.replyWait tid reply).ptable = s.ptable := by
  cases reply with
  | none => rfl
  | some words => rfl

/-- An update of one entry changes no wait if it does not change that of the entry. -/
theorem Mm.updateProcess_sameWait {s : Mm} {tid : ThreadId} {f : Process → Process}
    (hf : ∀ P : Process, P.SameWait (f P)) (q : Nat) :
    (s.ptable q).SameWait ((s.updateProcess tid f).ptable q) := by
  simp only [Mm.updateProcess]
  by_cases hq : q = tid2pid tid
  · rw [hq, Function.update_self]
    exact hf _
  · rw [Function.update_of_ne hq]
    exact .refl _

/-- A page fault that deletes nobody. -/
theorem Mm.pager_sameWait {tid : ThreadId} {addr access : Nat} {env : FaultEnv} {reply : Reply}
    (hgranted : s.isAccessGranted tid addr access = true)
    (hs : s.pager tid addr access env = some (s', reply)) (q : Nat) :
    (s.ptable q).SameWait (s'.ptable q) := by
  simp only [Mm.pager, hgranted, Bool.not_true, Bool.false_eq_true, if_false] at hs
  split at hs
  -- An address of the hardware is mapped to itself, and any other by `virtual_mapping`.
  · obtain ⟨rfl, -⟩ := Prod.mk.inj (Option.some.inj hs)
    rw [Mm.oneToOneMapping, Mm.mapFpage_fields]
    exact .refl _
  · obtain ⟨⟨s₁, result⟩, hs₁, hs⟩ := Option.bind_eq_some_iff.mp hs
    have hs' : s₁ = s' := by
      cases result with
      | mappingFailed | mappingSuccess | outOfFrames | pageNotAvailable =>
          exact congrArg Prod.fst (Option.some.inj hs)
    obtain rfl := hs'
    obtain ⟨s₂, entry, hs₂, -, hkeep⟩ := Mm.virtualMapping_fields hs₁
    have hcreate := (Mm.createSecondLevelTable_fields hs₂ q).sameWait
    -- The page is counted only when its entry was null.
    split at hkeep
    · have hsize : ∀ P : Process, P.SameWait { P with size := (P.size + 1) % 2 ^ 32 } :=
        fun _ => ⟨rfl, rfl, rfl⟩
      have hcount : (s₂.ptable q).SameWait ((s₂.countPage tid).ptable q) :=
        Mm.updateProcess_sameWait hsize q
      exact (hcreate.trans hcount).trans (hkeep q).sameWait
    · exact hcreate.trans (hkeep q).sameWait

/-- A step that deletes nobody, and is no call of `create_process` or `wait_process`, leaves
everybody running and waiting as before. -/
theorem Inv.kept (h : Inv φ s) (hs : s.step a = some s') (hdel : s.deletes a = none)
    (hcreate : ∀ name now, a ≠ .createProcess name now)
    (hwait : ∀ q pid stack, a ≠ .waitProcess q pid stack) (q : Nat) :
    (s.ptable q).SameWait (s'.ptable q) := by
  obtain ⟨hen, hexec⟩ := Mm.step_eq_some hs
  -- One case for each entry point of the server.
  cases a with
  | fault p addr access env =>
      have hgranted : s.isAccessGranted (threadId p) addr access = true := by
        by_contra hdenied
        rw [Mm.deletes, if_neg hdenied] at hdel
        cases hdel
      simp only [Mm.exec, Option.bind_eq_bind, Option.bind_eq_some_iff] at hexec
      obtain ⟨⟨s₁, reply⟩, hs₁, hexec⟩ := hexec
      obtain rfl := Option.some.inj hexec
      rw [Mm.replyWait_ptable]
      have hgranted' : (s.clear.block (threadId p) .fault).isAccessGranted (threadId p) addr
          access = true := hgranted
      exact Mm.pager_sameWait hgranted' hs₁ q
  | store p addr byte =>
      obtain rfl := Option.some.inj hexec
      unfold Mm.storeByte
      split
      · exact .refl _
      · exact .refl _
  | nfsReply k status =>
      simp only [Mm.exec, Mm.nfsReply, Option.bind_eq_bind, Option.bind_eq_some_iff] at hexec
      obtain ⟨r, -, page, -, hexec⟩ := hexec
      cases r with
      | write token offset data =>
          have hkeep := (Mm.swapWriteCallback_fields hexec q).sameWait
          split at hkeep
          · exact hkeep
          · exact hkeep
      | read token offset count =>
          have hptable := Mm.swapReadCallback_fields hexec
          rw [hptable]
          exact .refl _
  | unmapAll p =>
      have hptable := Mm.pagerUnmapRange_fields hexec
      rw [hptable]
      exact .refl _
  | startProcess p status =>
      simp only [Mm.exec, Option.bind_eq_bind, Option.bind_eq_some_iff] at hexec
      obtain ⟨⟨s₁, reply⟩, hs₁, hexec⟩ := hexec
      obtain rfl := Option.some.inj hexec
      rw [Mm.replyWait_ptable]
      have hget : (s.clear.block (threadId p) .call).getProcess (threadId p) = s.ptable p := by
        rw [Mm.getProcess, tid2pid_threadId]
        rfl
      cases hinit : (s.ptable p).initialized with
      | true =>
          rw [Mm.startProcess, hget, hinit, if_pos rfl] at hs₁
          obtain ⟨rfl, -⟩ := Prod.mk.inj (Option.some.inj hs₁)
          exact .refl _
      | false =>
          -- A failed start deletes the process.
          by_cases hstatus : status = 0
          · rw [Mm.deletes, if_pos ⟨hinit, hstatus⟩] at hdel
            cases hdel
          · obtain ⟨σ, hkeep, rfl⟩ := Mm.startProcess_fields (hget ▸ hinit) hstatus hs₁
            have hset : ∀ P : Process, P.SameWait { P with initialized := true } :=
              fun _ => ⟨rfl, rfl, rfl⟩
            have hσ := (hkeep q).sameWait
            exact hσ.trans (Mm.updateProcess_sameWait hset q)
  | deleteProcess p pid =>
      have hrun : s.Running p := hen
      simp only [Mm.exec, Option.bind_eq_bind, Option.bind_eq_some_iff] at hexec
      obtain ⟨⟨s₁, reply⟩, hs₁, hexec⟩ := hexec
      obtain rfl := Option.some.inj hexec
      rw [Mm.replyWait_ptable]
      cases deleteProcess_spec (h.blocked hrun .call) (threadId p) pid with
      | refused hdead hrefused =>
          obtain rfl := congrArg Prod.fst (Option.some.inj (hs₁.symm.trans hrefused))
          exact .refl _
      | corrupted _ _ hnone =>
          rw [hnone] at hs₁
          cases hs₁
      | deleted hpid hlive =>
          subst hpid
          rw [Mm.deletes, if_pos ⟨by omega, hlive⟩] at hdel
          cases hdel
  | waitProcess p pid stack => exact absurd rfl (hwait p pid stack)
  | createProcess name now => exact absurd rfl (hcreate name now)

end

end Sos
