import Sos.Properties.ProcessTable

/-!
# `Sos.Properties.ProcessSlots`: slots of the process table are handed out

`slot_allocation`: in every state of every run `register_process` returns a free slot behind
slot 0 and changes no other, unless all of them are in use. `next_task` steps over a slot that
is in use only to fall back on the search of the whole table.

The pids of the processes are distinct, and none has the pid 0 of the server, as long as the
names fit into `command` with their terminating zero (`NameFits`): `register_process` hands out
pid 0 again if and only if the name has 32 characters (`pid_zero_again`).
-/

set_option autoImplicit false

namespace Sos

namespace Mm

/-- `register_process` returns a free slot and changes no other, or all are in use. -/
structure AllocatesSlots (s : Mm) : Prop where
  full : ∀ name now, (s.registerProcess name now).2 = none ↔
    ∀ i, 1 ≤ i → i < maxRunningProcess → (s.ptable i).isActive = true
  unchanged : ∀ name now, (s.registerProcess name now).2 = none →
    (s.registerProcess name now).1.ptable = s.ptable
  slot : ∀ name now i, (s.registerProcess name now).2 = some i →
    1 ≤ i ∧ i < maxRunningProcess ∧ (s.ptable i).isActive = false ∧
      ((s.registerProcess name now).1.ptable i).isActive = true ∧
      ∀ j, j ≠ i → (s.registerProcess name now).1.ptable j = s.ptable j

/-- No two active slots, of which slot 0 is one, have the same pid. -/
def DistinctPids (s : Mm) : Prop :=
  ∀ i < maxRunningProcess, ∀ j < maxRunningProcess, (s.ptable i).isActive = true →
    (s.ptable j).isActive = true → tid2pid (s.ptable i).tid = tid2pid (s.ptable j).tid → i = j

/-- A run under a condition is a run. -/
theorem Reachable.anyStep {ok : Mm → Action → Mm → Prop} {s : Mm} (h : s.Reachable ok) :
    s.Reachable Mm.anyStep := by
  induction h with
  | boot hb hs => exact .boot hb hs
  | step _ hs _ ih => exact ih.step hs trivial

/-- The search of the whole table finds nothing only when there is nothing. -/
theorem allocateProcessEntry_full {s : Mm} (h : s.allocateProcessEntry.2 = none) {i : Nat}
    (h1 : 1 ≤ i) (h2 : i < maxRunningProcess) : (s.ptable i).isActive = true := by
  -- Only the search of the whole table can come back with nothing.
  rw [allocateProcessEntry_snd] at h
  split at h
  · cases h
  · have hmem : i ∈ List.range' 1 (maxRunningProcess - 1) := by
      rw [List.mem_range'_1]
      simp only [maxRunningProcess] at *
      omega
    simpa using List.find?_eq_none.mp h i hmem

end Mm

/-- The search for an entry finds the next free one, or there is none. -/
theorem Inv.allocatesSlots {φ : PageMap} {s : Mm} (h : Inv φ s) : s.AllocatesSlots := by
  refine ⟨fun name now => ?_, fun name now => ?_, fun name now i => ?_⟩
  -- register_process finds no free slot, or the first one.
  · obtain ⟨n, ⟨hs, hfull⟩ | ⟨i, hs, -, h1, h2, hfree⟩⟩ := registerProcess_spec h name now
    · rw [hs]
      exact iff_of_true rfl fun i => Mm.allocateProcessEntry_full hfull
    · rw [hs]
      refine iff_of_false nofun fun hall => ?_
      rw [hall i h1 h2] at hfree
      cases hfree
  · obtain ⟨n, ⟨hs, -⟩ | ⟨i, hs, -⟩⟩ := registerProcess_spec h name now
    · rw [hs]
      exact fun _ => rfl
    · rw [hs]
      exact nofun
  · obtain ⟨n, ⟨hs, -⟩ | ⟨j, hs, -, h1, h2, hfree⟩⟩ := registerProcess_spec h name now
    · rw [hs]
      exact nofun
    · rw [hs]
      rintro ⟨⟩
      refine ⟨h1, h2, hfree, ?_, fun k hk => Function.update_of_ne hk _ _⟩
      dsimp only
      rw [Function.update_self]
      rfl

/-- The pid of every slot is its index. -/
def Mm.OwnPids (s : Mm) : Prop := ∀ i < maxRunningProcess, tid2pid (s.ptable i).tid = i

/-- Processes whose pids are their own have different pids. -/
theorem Mm.OwnPids.distinctPids {s : Mm} (h : s.OwnPids) : s.DistinctPids := by
  intro i hi j hj _ _ heq
  rwa [h i hi, h j hj] at heq

/-- Slots with their own thread numbers have their indices as pids. -/
theorem Inv.ownPids {φ : PageMap} {s : Mm} (h : Inv φ s) (hown : s.OwnThreadNos) : s.OwnPids := by
  intro i hi
  rcases Nat.eq_zero_or_pos i with rfl | hpos
  · exact h.tables.root.1
  · exact hown.identity.pid i hpos hi

/-! ### The main result -/

/-- In every state of every run `register_process` hands out a free slot behind slot 0, as long
as there is one. In a run in which the names fit the pids are distinct, and `register_process`
keeps them so and hands out another pid than 0 if and only if the next name fits as well. -/
theorem slot_allocation (s : Mm) :
    (s.Reachable Mm.anyStep → s.AllocatesSlots) ∧
    (s.Reachable Mm.NameFits → s.DistinctPids ∧
      ∀ name now i, (s.registerProcess name now).2 = some i →
        ((s.registerProcess name now).1.DistinctPids ∧
          tid2pid ((s.registerProcess name now).1.pid2tid i) ≠ 0 ↔ name.length < nName)) := by
  refine ⟨fun hreach => ?_, fun hreach => ?_⟩
  · obtain ⟨φ, hinv, -⟩ := hreach.inv
    exact hinv.allocatesSlots
  · obtain ⟨φ, hinv, -, hown⟩ := hreach.ownThreadNos
    have hpids := hinv.ownPids hown
    refine ⟨hpids.distinctPids, fun name now i hslot => ?_⟩
    obtain ⟨n, ⟨hs, -⟩ | ⟨j, hs, -, h1, h2, hfree⟩⟩ := registerProcess_spec hinv name now
    · rw [hs] at hslot
      cases hslot
    · rw [hs, Option.some.injEq] at hslot
      subst hslot
      have htid := hinv.registered_tid h1 h2 hfree name now
      -- A name without room for its terminating zero writes it into the thread number.
      have hpid : tid2pid ((s.registerProcess name now).1.pid2tid j) =
          if name.length < nName then j else 0 := by
        rw [hs]
        dsimp only [Mm.pid2tid]
        rw [Function.update_self, htid]
        split
        · exact tid2pid_threadId j
        · rfl
      refine ⟨fun ⟨_, hne⟩ => ?_, fun hname => ⟨?_, ?_⟩⟩
      · by_contra hlong
        rw [hpid, if_neg hlong] at hne
        exact hne rfl
      · refine Mm.OwnPids.distinctPids fun k hk => ?_
        by_cases hkj : k = j
        · rw [if_pos hname] at hpid
          rw [hkj]
          exact hpid
        · rw [hs]
          dsimp only
          rw [Function.update_of_ne hkj]
          exact hpids k hk
      · rw [hpid, if_pos hname]
        omega

/-- Process 2 deletes process 1, and then so many processes are created that the last slot is
used, and slot 1 again. -/
def slotsWrapped : List Action :=
  [.createProcess [115] 0, .createProcess [116] 0, .deleteProcess 2 1] ++
    List.replicate 126 (.createProcess [117] 0)

/-- The table is full, with a new process in slot 1. -/
theorem slot_allocation_wrapped :
    ∃ s, Mm.runOn Mm.NameFits (.small 2) slotsWrapped = some s ∧
      (∀ p < maxRunningProcess, (s.ptable p).isActive = true) ∧ (s.ptable 1).command = [117] ∧
        s.AllocatesSlots ∧ s.DistinctPids := by
  obtain ⟨s, hs, hreach, hactive, hname⟩ := Mm.exists_runOn Mm.NameFits
    (Mm.Boot.small_ok Nat.two_pos (by decide)) slotsWrapped
    (fun s => (∀ p < maxRunningProcess, (s.ptable p).isActive = true) ∧
      (s.ptable 1).command = [117]) (by decide +kernel)
  exact ⟨s, hs, hactive, hname, (slot_allocation s).1 hreach.anyStep,
    ((slot_allocation s).2 hreach).1⟩

/-- A process with a name of 32 letters gets slot 1, and the pid 0 of the server. -/
theorem pid_zero_again : ∃ s : Mm, s.Reachable Mm.anyStep ∧ (s.ptable 1).isActive = true ∧
    tid2pid (s.ptable 1).tid = 0 ∧ ¬ s.DistinctPids := by
  obtain ⟨s, -, hreach, hroot, hactive, hpid⟩ := Mm.exists_runOn Mm.anyStep
    (Mm.Boot.small_ok Nat.two_pos (by decide)) [.createProcess (List.replicate 32 115) 0]
    (fun s => ((s.ptable 0).isActive = true ∧ tid2pid (s.ptable 0).tid = 0) ∧
      (s.ptable 1).isActive = true ∧ tid2pid (s.ptable 1).tid = 0) (by decide +kernel)
  refine ⟨s, hreach, hactive, hpid, fun hdistinct => ?_⟩
  have heq := hdistinct 0 (by decide) 1 (by decide) hroot.1 hactive (hroot.2.trans hpid.symm)
  cases heq

end Sos
