import Sos.Paging.Deletion
import Sos.Properties.ProcessTable

/-!
# `Sos.Properties.ProcessWait`: waiting for the end of a process

`process_wait` leaves the caller without an answer until `delete_process` scans the table.
`no_process_wait_lost` says that nobody waits in vain: a process that waits for a specific
thread waits for one that is active (`Mm.WaitsForActive`), and the deletion of a process
answers everybody who waits for it or for any process, once, and nobody else
(`Mm.AnswersWaiters`).

The scan runs after `is_active` of the deleted process has been cleared, so that a process
that was itself waiting is not answered.
-/

set_option autoImplicit false

namespace Sos

namespace Mm

/-- Whoever waits for a specific thread waits for an active process. -/
def WaitsForActive (s : Mm) : Prop :=
  ∀ p < maxRunningProcess, (s.ptable p).isActive = true → (s.ptable p).waitFor ≠ nilthread →
    (s.ptable p).waitFor ≠ anythread →
      ∃ q < maxRunningProcess, (s.ptable q).isActive = true ∧
        (s.ptable q).tid = (s.ptable p).waitFor

/-- The deletion of `p` in a step from `s` to `s'` answers the processes that wait for it. -/
structure AnswersWaiters (s : Mm) (p : Nat) (s' : Mm) : Prop where
  /-- Each of them gets one message, with the pid. -/
  once : ∀ q < maxRunningProcess, q ≠ p → s.WaitsFor (s.ptable p).tid q →
    s'.outbox.count (.reply (s.ptable q).tid sosProcessWait [(p : Int)]) = 1
  /-- Nobody else gets such a message. -/
  only : ∀ t words, Event.reply t sosProcessWait words ∈ s'.outbox →
    words = [(p : Int)] ∧ ∃ q < maxRunningProcess, q ≠ p ∧ s.WaitsFor (s.ptable p).tid q ∧
      t = (s.ptable q).tid
  /-- They wait no longer, and nobody else starts or stops waiting. -/
  reset : ∀ q, (s'.ptable q).waitFor =
    if q < maxRunningProcess ∧ q ≠ p ∧ s.WaitsFor (s.ptable p).tid q then nilthread
    else (s.ptable q).waitFor

end Mm

section

variable {φ : PageMap} {s s' : Mm} {p : Nat}

/-! ### Who is answered -/

/-- Two processes do not have one thread id. -/
theorem Mm.TableIdentity.tid_inj (h : s.TableIdentity) (hroot : tid2pid (s.ptable 0).tid = 0)
    {q q' : Nat} (hq : q < maxRunningProcess) (hq' : q' < maxRunningProcess)
    (ht : (s.ptable q).tid = (s.ptable q').tid) : q = q' := by
  have hpid : ∀ q, q < maxRunningProcess → tid2pid (s.ptable q).tid = q := by
    intro q hq
    by_cases h0 : q = 0
    · rw [h0, hroot]
    · exact h.pid q (by omega) hq
  rw [← hpid q hq, ← hpid q' hq', ht]

/-- A deletion answers everybody who waits for the process. -/
theorem Removed.answersWaiters {σ : Mm} {answer : List Event} (h : Removed φ s p σ answer s')
    (hid : s.TableIdentity) (hroot : tid2pid (s.ptable 0).tid = 0) : s.AnswersWaiters p s' := by
  -- The answer of the call itself is no wake-up of process_wait.
  have hanswer : ∀ t words, Event.reply t sosProcessWait words ∉ answer := by
    intro t words hm
    rcases h.answer with hnil | ⟨t', words', hreply⟩
    · rw [hnil] at hm
      cases hm
    · rw [hreply, List.mem_singleton, Event.reply.injEq] at hm
      exact absurd hm.2.1 (by decide)
  have hmem : ∀ t words, Event.reply t sosProcessWait words ∈ s'.outbox →
      Event.reply t sosProcessWait words ∈
        (((List.range maxRunningProcess).filter fun q =>
          q ≠ p ∧ s.WaitsFor (s.ptable p).tid q).map
          fun q => Event.reply (s.ptable q).tid sosProcessWait [(p : Int)]) := by
    intro t words hsent
    rw [h.outbox, List.cons_append, List.mem_cons, List.mem_append] at hsent
    rcases hsent with hdel | hsent | hm
    · cases hdel
    · exact hsent
    · exact absurd hm (hanswer t words)
  refine ⟨fun q hlt hq hw => ?_, fun t words hsent => ?_, fun q => ?_⟩
  -- The waiter is answered exactly once: no other slot has its thread id.
  · have hdel : Event.deleted p ≠ .reply (s.ptable q).tid sosProcessWait [(p : Int)] := nofun
    rw [h.outbox, List.cons_append, List.count_cons_of_ne hdel, List.count_append,
      List.count_eq_zero_of_not_mem (hanswer _ _), Nat.add_zero]
    refine List.count_eq_one_of_mem ?_ ?_
    · refine (List.nodup_range.filter _).map_on fun x hx y hy he => ?_
      rw [List.mem_filter, List.mem_range] at hx hy
      exact hid.tid_inj hroot hx.1 hy.1 (Event.reply.inj he).1
    · refine List.mem_map.mpr ⟨q, ?_, rfl⟩
      rw [List.mem_filter, List.mem_range, decide_eq_true_eq]
      exact ⟨hlt, hq, hw⟩
  · obtain ⟨q, hq, he⟩ := List.mem_map.mp (hmem t words hsent)
    rw [List.mem_filter, List.mem_range, decide_eq_true_eq] at hq
    obtain ⟨rfl, -, rfl⟩ := Event.reply.inj he
    exact ⟨rfl, q, hq.1, hq.2.1, hq.2.2, rfl⟩
  -- A woken process waits for nobody; the slot of the deleted one is cleared.
  · rw [h.ptable]
    split
    · rfl
    next hw =>
      by_cases hq : q = p
      · subst hq
        obtain ⟨hw, wait, -, hrel⟩ := h.free
        rw [σ.clearSlot_self]
        exact hrel.same.waitFor
      · rw [h.clearSlot_of_ne hq]

/-! ### Nobody waits for a process that is gone -/

/-- What `wait_process` does to the process table. -/
theorem Inv.wait_step (h : Inv φ s) (hown : s.OwnThreadNos) {pid : Int} {stack : Nat → Int}
    (hs : s.step (.waitProcess p pid stack) = some s') :
    s'.ptable = s.ptable ∨ ∃ t, s'.ptable = Function.update s.ptable p
        { s.ptable p with waitFor := t } ∧
      (t = anythread ∨ ∃ q < maxRunningProcess, (s.ptable q).isActive = true ∧
        (s.ptable q).tid = t) := by
  obtain ⟨-, hexec⟩ := Mm.step_eq_some hs
  have hs' : s' =
      ((s.clear.block (threadId p) .call).waitProcess (threadId p) pid stack).1.replyWait
        (threadId p) ((s.clear.block (threadId p) .call).waitProcess (threadId p) pid stack).2 :=
    (Option.some.inj hexec).symm
  rw [hs', Mm.replyWait_ptable]
  have hupdate : ∀ t, ((s.clear.block (threadId p) .call).updateProcess (threadId p)
      fun P => { P with waitFor := t }).ptable =
      Function.update s.ptable p { s.ptable p with waitFor := t } := by
    intro t
    simp only [Mm.updateProcess, Mm.getProcess, tid2pid_threadId]
    rfl
  unfold Mm.waitProcess
  split
  · exact Or.inr ⟨anythread, hupdate _, Or.inl rfl⟩
  · split
    · exact Or.inl rfl
    next hrange =>
      simp only []
      split
      · exact Or.inl rfl
      next hact =>
        refine Or.inr ⟨_, hupdate _, Or.inr ⟨tid2pid (s.ptable pid.toNat).tid, ?_, ?_, rfl⟩⟩
        · by_cases h0 : pid.toNat = 0
          · rw [h0, h.tables.root.1]
            decide
          · rw [hown.identity.pid pid.toNat (by omega) (by omega)]
            omega
        · rw [Bool.not_eq_true', Bool.not_eq_false] at hact
          exact hact

/-- A step keeps the invariant when whoever waits after it was waiting before it, and finds the
process it waits for as it was. -/
theorem Mm.WaitsForActive.of_kept (h : s.WaitsForActive)
    (hkept : ∀ p < maxRunningProcess, (s'.ptable p).isActive = true →
      (s'.ptable p).waitFor ≠ nilthread → (s'.ptable p).waitFor ≠ anythread →
        (∃ q < maxRunningProcess, (s'.ptable q).isActive = true ∧
          (s'.ptable q).tid = (s'.ptable p).waitFor) ∨
        ((s.ptable p).isActive = true ∧ (s.ptable p).waitFor = (s'.ptable p).waitFor ∧
          ∀ q < maxRunningProcess, (s.ptable q).isActive = true →
            (s.ptable q).tid = (s'.ptable p).waitFor →
              (s'.ptable q).isActive = true ∧ (s'.ptable q).tid = (s.ptable q).tid)) :
    s'.WaitsForActive := by
  intro p hp hact hnil hany
  rcases hkept p hp hact hnil hany with hfound | ⟨hact₀, hwf, htarget⟩
  · exact hfound
  · obtain ⟨q, hq, hactq, htid⟩ := h p hp hact₀ (hwf ▸ hnil) (hwf ▸ hany)
    obtain ⟨hactq', htid'⟩ := htarget q hq hactq (htid.trans hwf)
    exact ⟨q, hq, hactq', (htid'.trans htid).trans hwf⟩

/-- Nobody waits for a process that is gone, by cases on the action. -/
theorem Mm.WaitsForActive.step (h : s.WaitsForActive) (hinv : Inv φ s) (hown : s.OwnThreadNos)
    {a : Action} (hs : s.step a = some s') : s'.WaitsForActive := by
  refine h.of_kept fun q hq hact hnil hany => ?_
  cases hdel : s.deletes a with
  | some p =>
      obtain ⟨σ, answer, hr⟩ := hinv.removed hs hdel
      have hqp : q ≠ p := by
        rintro rfl
        rw [hr.ptable_self] at hact
        cases hact
      have hother : ∀ r, r ≠ p → (s'.ptable r).isActive = (s.ptable r).isActive ∧
          (s'.ptable r).tid = (s.ptable r).tid := by
        intro r hrp
        rw [hr.ptable]
        split
        · exact ⟨rfl, rfl⟩
        · rw [hr.clearSlot_of_ne hrp]
          exact ⟨rfl, rfl⟩
      -- Nobody is left who waits for the process that is gone.
      have hnot : ¬ s.WaitsFor (s.ptable p).tid q := by
        intro hw
        rw [hr.ptable, if_pos ⟨hq, hqp, hw⟩] at hnil
        exact hnil rfl
      have hwf : (s'.ptable q).waitFor = (s.ptable q).waitFor := by
        rw [hr.ptable, if_neg fun hw => hnot hw.2.2, hr.clearSlot_of_ne hqp]
      rw [(hother q hqp).1] at hact
      refine Or.inr ⟨hact, hwf.symm, fun r _ hactr htid => ?_⟩
      have hrp : r ≠ p := by
        rintro rfl
        exact hnot ⟨hact, hwf ▸ hnil, Or.inl (htid.trans hwf).symm⟩
      exact ⟨(hother r hrp).1.trans hactr, (hother r hrp).2⟩
  | none =>
      by_cases hcreate : ∃ name now, a = .createProcess name now
      · obtain ⟨name, now, rfl⟩ := hcreate
        obtain ⟨-, hptable⟩ | ⟨i, -, -, -, hfree, hptable⟩ := hinv.create_step hs
        · rw [hptable] at hact ⊢
          exact Or.inr ⟨hact, rfl, fun r _ hactr _ => ⟨hactr, rfl⟩⟩
        · have hqi : q ≠ i := by
            rintro rfl
            rw [hptable, Function.update_self] at hnil
            exact hnil rfl
          rw [hptable, Function.update_of_ne hqi] at hact ⊢
          refine Or.inr ⟨hact, rfl, fun r _ hactr _ => ?_⟩
          have hri : r ≠ i := by
            rintro rfl
            rw [hfree] at hactr
            cases hactr
          rw [Function.update_of_ne hri]
          exact ⟨hactr, rfl⟩
      · by_cases hwait : ∃ p pid stack, a = .waitProcess p pid stack
        · obtain ⟨p, pid, stack, rfl⟩ := hwait
          obtain hptable | ⟨t, hptable, ht⟩ := hinv.wait_step hown hs
          · rw [hptable] at hact ⊢
            exact Or.inr ⟨hact, rfl, fun r _ hactr _ => ⟨hactr, rfl⟩⟩
          · have hsame : ∀ r, (s'.ptable r).isActive = (s.ptable r).isActive ∧
                (s'.ptable r).tid = (s.ptable r).tid := by
              intro r
              rw [hptable]
              by_cases hrp : r = p
              · rw [hrp, Function.update_self]
                exact ⟨rfl, rfl⟩
              · rw [Function.update_of_ne hrp]
                exact ⟨rfl, rfl⟩
            by_cases hqp : q = p
            · have hwf : (s'.ptable q).waitFor = t := by
                rw [hptable, hqp, Function.update_self]
              rcases ht with rfl | ⟨r, hr, hactr, rfl⟩
              · exact absurd hwf hany
              · exact Or.inl ⟨r, hr, (hsame r).1.trans hactr, (hsame r).2.trans hwf.symm⟩
            · have hwf : (s'.ptable q).waitFor = (s.ptable q).waitFor := by
                rw [hptable, Function.update_of_ne hqp]
              exact Or.inr ⟨(hsame q).1 ▸ hact, hwf.symm, fun r _ hactr _ =>
                ⟨(hsame r).1.trans hactr, (hsame r).2⟩⟩
        · have hkept := hinv.kept hs hdel (fun name now ha => hcreate ⟨name, now, ha⟩)
            fun p pid stack ha => hwait ⟨p, pid, stack, ha⟩
          exact Or.inr ⟨(hkept q).isActive ▸ hact, (hkept q).waitFor.symm, fun r _ hactr _ =>
            ⟨(hkept r).isActive.trans hactr, (hkept r).tid⟩⟩

/-- By induction on the run. -/
theorem Mm.Reachable.waitsForActive (h : s.Reachable Mm.NameFits) :
    ∃ φ, Inv φ s ∧ Clean φ ∧ s.OwnThreadNos ∧ s.WaitsForActive := by
  refine h.stepInduction (fun _ s => s.OwnThreadNos ∧ s.WaitsForActive)
    (fun s hs => ⟨fun i h1 _ => ?_, fun p _ _ hnil => absurd (hs.waitFor p) hnil⟩) ?_
  · rw [(hs.entry i (by omega)).2.2]
  · rintro φ s a s' hinv - ⟨hown, hI⟩ hs hok ls φ' hp
    exact ⟨hown.step hinv hs hok hp, hI.step hinv hown hs⟩

end

/-! ### The main result -/

/-- No wake-up of `process_wait` is lost. In every run in which the names of the processes fit,
whoever waits for a specific thread waits for an active process, and the deletion of an active
process answers everybody who waits for it, once, and nobody else. -/
theorem no_process_wait_lost {s : Mm} (h : s.Reachable Mm.NameFits) :
    s.WaitsForActive ∧ ∀ caller p s', 1 ≤ p → p < maxRunningProcess →
      (s.ptable p).isActive = true → s.step (.deleteProcess caller p) = some s' →
        s.AnswersWaiters p s' := by
  obtain ⟨φ, hinv, hclean, hown, hwaits⟩ := h.waitsForActive
  refine ⟨hwaits, fun caller p s' h1 h2 hact hs => ?_⟩
  have hlive : s.Live p := by
    rcases hinv.tables.entry p h1 h2 with ⟨hno, hversion⟩ | ⟨-, htid⟩
    · refine ⟨h1, h2, hact, ?_⟩
      rw [threadId, ← hno, ← hversion hact]
    · have hpid := hown.identity.pid p h1 h2
      rw [htid] at hpid
      have hzero : tid2pid ⟨0, 1⟩ = 0 := rfl
      omega
  have hdel : s.deletes (.deleteProcess caller p) = some p := by
    rw [Mm.deletes, Int.toNat_natCast, if_pos ⟨Int.natCast_nonneg p, hlive⟩]
  obtain ⟨σ, answer, hr⟩ := hinv.removed hs hdel
  exact hr.answersWaiters hown.identity hinv.tables.root.1

/-- Process 1 waits for process 2, which process 3 deletes. -/
theorem no_process_wait_lost_three :
    ∃ s s', Mm.runOn Mm.NameFits (.small 2)
        [.createProcess [115] 0, .createProcess [116] 0, .createProcess [117] 0,
          .waitProcess 1 2 fun _ => 0] = some s ∧
      s.step (.deleteProcess 3 2) = some s' ∧ s.WaitsForActive ∧ s.WaitsFor (threadId 2) 1 ∧
      s.AnswersWaiters 2 s' := by
  obtain ⟨s, hs, hreach, hact, hen, htid, hwaits⟩ := Mm.exists_runOn Mm.NameFits
    (Mm.Boot.small_ok Nat.two_pos (by decide))
    [.createProcess [115] 0, .createProcess [116] 0, .createProcess [117] 0,
      .waitProcess 1 2 fun _ => 0]
    (fun s => (s.ptable 2).isActive = true ∧ s.Enabled (.deleteProcess 3 2) ∧
      (s.ptable 2).tid ≠ ⟨0, 1⟩ ∧ s.WaitsFor (threadId 2) 1) (by decide +kernel)
  obtain ⟨φ, hinv, hclean⟩ := hreach.inv
  obtain ⟨s', hs'⟩ := step_total hinv hclean hen fun hfails => htid hfails.2.2
  have hall := no_process_wait_lost hreach
  exact ⟨s, s', hs, hs', hall.1, hwaits, hall.2 3 2 s' (by decide) (by decide) hact hs'⟩

end Sos
