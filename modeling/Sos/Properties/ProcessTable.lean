import Sos.Paging.Reachable

/-!
# `Sos.Properties.ProcessTable`: the process table finds every process

The pid of a process is its index in the process table, and the upper bits of its thread
number. `process_table_identity`: `get_process` finds the entry of a thread, and `pid2tid` and
`tid2pid` are inverse to each other, as long as the name of every process that is created fits
into `command` with its terminating zero. A process with a name of 32 characters runs under
the thread id that belongs to the server (`name_overwrites_tid`).

`strcpy_command` shows where the zero goes: it is the bytes behind `command` that a name of
that length changes, and what it makes of them is the `overflowTid` of the model.
-/

set_option autoImplicit false

namespace Sos

/-! ### The bytes of an entry -/

/-- The word of a thread id in memory, the most significant byte first. -/
def ThreadId.bytes (tid : ThreadId) : List UInt8 :=
  [24, 16, 8, 0].map fun k => UInt8.ofNat ((tid.threadNo * 2 ^ 14 + tid.version) / 2 ^ k)

/-- The string copy of C: the characters and a zero, whatever the size of the destination. -/
def strcpy (dest name : List UInt8) : List UInt8 := name ++ 0 :: dest.drop (name.length + 1)

/-- A thread number that loses its upper bits loses the first byte of its word. -/
theorem ThreadId.bytes_overflowTid {tid : ThreadId} (hno : tid.threadNo < 2 ^ 18)
    (hversion : tid.version < 2 ^ 14) : (overflowTid tid).bytes = 0 :: tid.bytes.tail := by
  obtain ⟨no, version⟩ := tid
  have hbyte : ∀ a b : Nat, a % 2 ^ 8 = b % 2 ^ 8 → UInt8.ofNat a = UInt8.ofNat b := by
    intro a b h
    exact UInt8.toNat_inj.mp (by simpa using h)
  dsimp only at hno hversion
  simp only [ThreadId.bytes, overflowTid, reservedIdBits, List.map_cons, List.map_nil,
    List.tail_cons]
  refine List.cons_eq_cons.mpr ⟨hbyte _ 0 (by omega), List.cons_eq_cons.mpr ⟨hbyte _ _ (by omega),
    List.cons_eq_cons.mpr ⟨hbyte _ _ (by omega), List.cons_eq_cons.mpr ⟨hbyte _ _ (by omega), rfl⟩⟩⟩⟩

/-- A name that fits with its terminating zero changes nothing behind `command`. -/
theorem strcpy_fits {command rest name : List UInt8} (hcommand : command.length = nName)
    (hname : name.length < nName) : (strcpy (command ++ rest) name).drop nName = rest := by
  have hdrop : (strcpy (command ++ rest) name).drop nName = (command ++ rest).drop nName := by
    rw [strcpy, List.drop_append, List.drop_eq_nil_of_le hname.le, List.nil_append]
    obtain ⟨k, hk⟩ : ∃ k, nName - name.length = k + 1 := ⟨nName - name.length - 1, by omega⟩
    rw [hk, List.drop_succ_cons, List.drop_drop]
    congr 1
    omega
  rw [hdrop, ← hcommand, List.drop_left]

/-- What `strcpy` of a name to `command` makes of the thread id behind it. -/
theorem strcpy_command {command rest name : List UInt8} {tid : ThreadId}
    (hcommand : command.length = nName) (hname : name.length ≤ nName)
    (hno : tid.threadNo < 2 ^ 18) (hversion : tid.version < 2 ^ 14) :
    (strcpy (command ++ (tid.bytes ++ rest)) name).drop nName =
      (if name.length < nName then tid else overflowTid tid).bytes ++ rest := by
  by_cases hfits : name.length < nName
  · rw [if_pos hfits, strcpy_fits hcommand hfits]
  · have hlength : name.length = nName := by omega
    rw [if_neg hfits, ThreadId.bytes_overflowTid hno hversion, strcpy, ← hlength, List.drop_left,
      List.cons_append]
    congr 1
    rw [hlength, ← hcommand, ← List.drop_drop, List.drop_left]
    rfl

/-! ### The table -/

namespace Mm

/-- Every slot, also a free one, is found by its own thread id. -/
structure TableIdentity (s : Mm) : Prop where
  pid : ∀ i, 1 ≤ i → i < maxRunningProcess → tid2pid (s.ptable i).tid = i
  entry : ∀ i, 1 ≤ i → i < maxRunningProcess → s.getProcess (s.ptable i).tid = s.ptable i
  tid : ∀ i, 1 ≤ i → i < maxRunningProcess →
    s.pid2tid (tid2pid (s.ptable i).tid) = (s.ptable i).tid

/-- The name of a process that is created fits into `command` with its terminating zero. -/
def NameFits (_ : Mm) (a : Action) (_ : Mm) : Prop :=
  ∀ name now, a = .createProcess name now → name.length < nName

instance (s : Mm) (a : Action) (s' : Mm) : Decidable (s.NameFits a s') := by
  match a with
  | .createProcess name now =>
      refine decidable_of_iff (name.length < nName) ⟨?_, fun h => h name now rfl⟩
      rintro h _ _ ⟨⟩
      exact h
  | .fault .. | .store .. | .nfsReply .. | .unmapAll _ | .startProcess .. | .deleteProcess ..
  | .waitProcess .. => exact .isTrue nofun

/-- `register_process` has written the entry of slot `i` and nothing else: the other entries
are the same, the copied name ends inside of `command`, and the thread number of the slot is
the one `process_init` gave it. -/
structure RegistersWithin (s : Mm) (name : List UInt8) (i : Nat) (s' : Mm) : Prop where
  others : ∀ j, j ≠ i → s'.ptable j = s.ptable j
  copy : ∀ command rest : List UInt8, command.length = nName →
    (strcpy (command ++ ((s.ptable i).tid.bytes ++ rest)) name).drop nName =
      (s.ptable i).tid.bytes ++ rest
  threadNo : (s'.ptable i).tid.threadNo = (s.ptable i).tid.threadNo

/-- The slots have their own thread numbers. -/
def OwnThreadNos (s : Mm) : Prop :=
  ∀ i, 1 ≤ i → i < maxRunningProcess → (s.ptable i).tid.threadNo = i <<< reservedIdBits

/-- If every slot has its own thread number, every slot is found by its thread id. -/
theorem OwnThreadNos.identity {s : Mm} (h : s.OwnThreadNos) : s.TableIdentity := by
  have hpid : ∀ i, 1 ≤ i → i < maxRunningProcess → tid2pid (s.ptable i).tid = i := by
    intro i h1 h2
    rw [tid2pid, h i h1 h2, Nat.shiftLeft_shiftRight]
  refine ⟨hpid, fun i h1 h2 => ?_, fun i h1 h2 => ?_⟩
  · rw [getProcess, hpid i h1 h2]
  · rw [pid2tid, hpid i h1 h2]

end Mm

section

variable {φ φ' : PageMap} {s s' : Mm}

/-- What a step has noted is no part of the table. -/
theorem Mm.clear_allocateProcessEntry (s : Mm) :
    s.clear.allocateProcessEntry.2 = s.allocateProcessEntry.2 := by
  rw [Mm.allocateProcessEntry_snd, Mm.allocateProcessEntry_snd]
  rfl

/-- What a step does that registers a process. -/
theorem Inv.create_step (h : Inv φ s) {name : List UInt8} {now : Nat}
    (hs : s.step (.createProcess name now) = some s') :
    (s.allocateProcessEntry.2 = none ∧ s'.ptable = s.ptable) ∨
      ∃ i, s.allocateProcessEntry.2 = some i ∧ 1 ≤ i ∧ i < maxRunningProcess ∧
        (s.ptable i).isActive = false ∧
        s'.ptable = Function.update s.ptable i ((s.ptable i).registered name now) := by
  have hexec : s.clear.exec (.createProcess name now) = some s' :=
    (Option.ite_none_right_eq_some.mp hs).2
  obtain ⟨n, ⟨hreg, hfull⟩ | ⟨i, hreg, hslot, h1, h2, hfree⟩⟩ :=
    registerProcess_spec h.clear name now
  · rw [Mm.clear_allocateProcessEntry] at hfull
    simp only [Mm.exec, hreg] at hexec
    obtain rfl := Option.some.inj hexec
    exact Or.inl ⟨hfull, rfl⟩
  · rw [Mm.clear_allocateProcessEntry] at hslot
    simp only [Mm.exec, hreg] at hexec
    obtain rfl := Option.some.inj hexec
    exact Or.inr ⟨i, hslot, h1, h2, hfree, rfl⟩

/-- Only a registration writes a thread id. -/
theorem Move.tid {ℓ : Label} (hm : Move φ s ℓ φ' s') {p : Nat} (hreg : ℓ ≠ .register p) :
    (s'.ptable p).tid = (s.ptable p).tid := by
  by_cases hdel : ℓ = .delete p
  · subst hdel
    cases hm with
    | delete _ _ hr => simp only [Function.update_self, hr.same.tid]
  · exact (hm.sameThread hreg hdel).tid

/-- As long as the names fit, the slots keep the thread numbers of `process_init`. -/
theorem Mm.OwnThreadNos.step (h : s.OwnThreadNos) (hinv : Inv φ s) {a : Action}
    (hs : s.step a = some s') (hok : s.NameFits a s') {ls : List Label}
    (hp : Performs φ s.clear a ls φ' s') : s'.OwnThreadNos := by
  -- Only register_process writes a thread id, and a name that fits leaves it alone.
  by_cases hcreate : ∃ name now, a = .createProcess name now
  · obtain ⟨name, now, rfl⟩ := hcreate
    obtain ⟨-, hptable⟩ | ⟨i, -, hi1, hi2, hfree, hptable⟩ := hinv.create_step hs
    · rwa [Mm.OwnThreadNos, hptable]
    · intro j h1 h2
      rw [hptable]
      by_cases hj : j = i
      · rw [hj, Function.update_self, hinv.registered_tid hi1 hi2 hfree, if_pos (hok name now rfl)]
        rfl
      · rw [Function.update_of_ne hj]
        exact h j h1 h2
  -- Every other step keeps the ids along its moves.
  · refine hp.chain.induction (I := fun _ s => s.OwnThreadNos) hinv.clear h ?_
    intro φ₁ σ ℓ φ₂ σ' _ hI hP hm j h1 h2
    rw [hm.tid]
    · exact hI j h1 h2
    · rintro rfl
      obtain ⟨⟨name, now, ha⟩, -⟩ := hP
      exact hcreate ⟨name, now, ha⟩

/-- By induction on the run. -/
theorem Mm.Reachable.ownThreadNos (h : s.Reachable Mm.NameFits) :
    ∃ φ, Inv φ s ∧ Clean φ ∧ s.OwnThreadNos := by
  refine h.stepInduction (fun _ s => s.OwnThreadNos) (fun s hs i h1 _ => ?_) ?_
  · rw [(hs.entry i (by omega)).2.2]
  · intro φ s a s' hinv _ hI hs hok ls φ' hp
    exact hI.step hinv hs hok hp

/-- A process with a name of 32 characters gets the thread id that leads to the server's own
slot. -/
theorem Inv.name_overwrites_tid (h : Inv φ s) {name : List UInt8} {now i : Nat}
    (hslot : s.allocateProcessEntry.2 = some i)
    (hs : s.step (.createProcess name now) = some s') (hname : ¬ name.length < nName) :
    1 ≤ i ∧ i < maxRunningProcess ∧ tid2pid (s'.ptable i).tid = 0 := by
  obtain ⟨hfull, -⟩ | ⟨j, hj, h1, h2, hfree, hptable⟩ := h.create_step hs
  · rw [hfull] at hslot
    cases hslot
  · obtain rfl : j = i := Option.some.inj (hj.symm.trans hslot)
    rw [hptable, Function.update_self, h.registered_tid h1 h2 hfree, if_neg hname]
    exact ⟨h1, h2, rfl⟩

end

/-! ### The main result -/

/-- In every run in which the names of the processes fit, `get_process` finds the entry of every
slot by its thread id, and `pid2tid` and `tid2pid` are inverse. A further process leaves it so,
and is written inside of its entry, if and only if its name has fewer than 32 characters. -/
theorem process_table_identity {s : Mm} (h : s.Reachable Mm.NameFits) :
    s.TableIdentity ∧ ∀ name now i s', s.allocateProcessEntry.2 = some i →
      s.step (.createProcess name now) = some s' →
        (s'.TableIdentity ∧ s.RegistersWithin name i s' ↔ name.length < nName) := by
  obtain ⟨φ, hinv, hclean, hown⟩ := h.ownThreadNos
  refine ⟨hown.identity, fun name now i s' hslot hs => ⟨fun ⟨hid, _⟩ => ?_, fun hname => ?_⟩⟩
  -- Left to right: the zero byte of a name too long has changed the id of its own slot.
  · by_contra hlong
    obtain ⟨h1, h2, hzero⟩ := hinv.name_overwrites_tid hslot hs hlong
    rw [hid.pid i h1 h2] at hzero
    omega
  -- Right to left: the name fits, so the step keeps the identity and the slot its id.
  · have hok : s.NameFits (.createProcess name now) s' := by
      rintro _ _ ⟨⟩
      exact hname
    obtain ⟨-, ls, φ', hp⟩ := step_spec hinv hclean hs
    have hown' := hown.step hinv hs hok hp
    obtain ⟨hfull, -⟩ | ⟨j, hj, h1, h2, hfree, hptable⟩ := hinv.create_step hs
    · rw [hfull] at hslot
      cases hslot
    · obtain rfl : j = i := Option.some.inj (hj.symm.trans hslot)
      refine ⟨hown'.identity, fun k hk => ?_, fun _ _ hcommand => strcpy_fits hcommand hname, ?_⟩
      · rw [hptable, Function.update_of_ne hk]
      · rw [hown' j h1 h2, hown j h1 h2]

/-- A process for the executable `s`. -/
theorem process_table_identity_create :
    ∃ s, Mm.runOn Mm.NameFits (.small 2) [.createProcess [115] 0] = some s ∧
      (s.ptable 1).isActive = true ∧ s.TableIdentity := by
  obtain ⟨s, hs, hreach, hactive⟩ := Mm.exists_runOn Mm.NameFits
    (Mm.Boot.small_ok Nat.two_pos (by decide)) [.createProcess [115] 0]
    (fun s => (s.ptable 1).isActive = true) (by decide +kernel)
  exact ⟨s, hs, hactive, (process_table_identity hreach).1⟩

/-- An executable whose name is 32 times the letter `s` gets pid 1, and `get_process` takes its
thread for the server. -/
theorem name_overflows_into_tid :
    ¬ ∀ s : Mm, s.Reachable Mm.anyStep → s.TableIdentity := by
  intro hall
  obtain ⟨s, -, hreach, -, hpid⟩ := Mm.exists_runOn Mm.anyStep
    (Mm.Boot.small_ok Nat.two_pos (by decide)) [.createProcess (List.replicate 32 115) 0]
    (fun s => (s.ptable 1).isActive = true ∧ tid2pid (s.ptable 1).tid = 0) (by decide +kernel)
  rw [(hall s hreach).pid 1 (Nat.le_refl 1) (by decide)] at hpid
  cases hpid

end Sos
