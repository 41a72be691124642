import Sos.Clock.Step
import Sos.Properties.FindFile
import Sos.Properties.ProcessSlots
import Sos.Server.State

/-!
# `Sos.Properties.Creation`: a process is created, or nothing has changed

`create_process_iff`: `create_process` either replies with the pid of an entry that it has
activated and whose thread it has started, or with an error and leaves the process table as it
was, if and only if `find_file` answers, and the request is refused before `sos_task_new` or the
kernel creates the thread of a process whose name fits.

When the kernel refuses, the entry stays active without a thread, and the reply is 255, the pid
of the words -1, -2 and -3 (`failed_task_stays`).
-/

set_option autoImplicit false

namespace Sos

/-! ### The file -/

namespace Io

variable {s : Io} {name : List UInt8} {page : IpcPage}

/-- The first file with the name cannot be executed, or is too big. -/
def NotExecutable (s : Io) (name : List UInt8) : Prop :=
  ∃ index file, s.IsFirst name (some index) ∧ s.fileCache[index]? = some file ∧
    ((s.files file).status.stFmode &&& fmExec = 0 ∨
      (s.files file).status.stSize > oneMegabyte * 4)

/-- There is only one first entry with a name. -/
theorem IsFirst.unique {i j : Nat} (hi : s.IsFirst name (some i)) (hj : s.IsFirst name (some j)) :
    i = j := by
  rcases Nat.lt_trichotomy i j with hlt | heq | hlt
  · exact absurd hi.2.1 (hj.2.2 i hlt)
  · exact heq
  · exact absurd hj.2.1 (hi.2.2 j hlt)

/-- The checks of `create_process` for a file in the cache. -/
theorem findExecutable_cached
    (hcached : ∃ file ∈ s.fileCache, (s.files file).filename = cString page.bytes nName) :
    (s.NotExecutable (cString page.bytes nName) ∧
      ∃ e < 0, ∀ null, s.findExecutable null (some page) = some (.error e)) ∨
    (¬ s.NotExecutable (cString page.bytes nName) ∧
      ∀ null, s.findExecutable null (some page) = some (.ok (cString page.bytes nName))) := by
  obtain ⟨file₀, hfile₀, hname₀⟩ := hcached
  have hsome : (s.fileCache.findIdx?
      fun file => (s.files file).filename = cString page.bytes nName).isSome := by
    rw [List.findIdx?_isSome, List.any_eq_true]
    exact ⟨file₀, hfile₀, decide_eq_true hname₀⟩
  obtain ⟨index, hindex⟩ := Option.isSome_iff_exists.mp hsome
  have hfirst : s.IsFirst (cString page.bytes nName) (some index) := by
    rw [← hindex]
    exact isFirst_findIdx?
  obtain ⟨file, hfile⟩ : ∃ file, s.fileCache[index]? = some file :=
    ⟨_, List.getElem?_eq_getElem hfirst.1⟩
  have hfind : ∀ null, s.findFile null (cString page.bytes nName) = some (some index) := by
    intro null
    unfold findFile
    rw [hindex]
  have hchecks : ∀ null, s.findExecutable null (some page) =
      if (s.files file).status.stFmode &&& fmExec = 0 then some (.error fileNotExecutable)
      else if (s.files file).status.stSize > oneMegabyte * 4 then some (.error fileTooBig)
      else some (.ok (cString page.bytes nName)) := by
    intro null
    simp only [findExecutable, hfind null, hfile, Option.bind_eq_bind, Option.bind_some]
  -- Both checks look at the first file with the name, which is the only one there is to look at.
  by_cases hexec : (s.files file).status.stFmode &&& fmExec = 0
  · refine Or.inl ⟨⟨index, file, hfirst, hfile, Or.inl hexec⟩, fileNotExecutable, by decide,
      fun null => ?_⟩
    rw [hchecks, if_pos hexec]
  · by_cases hbig : (s.files file).status.stSize > oneMegabyte * 4
    · refine Or.inl ⟨⟨index, file, hfirst, hfile, Or.inr hbig⟩, fileTooBig, by decide,
        fun null => ?_⟩
      rw [hchecks, if_neg hexec, if_pos hbig]
    · refine Or.inr ⟨?_, fun null => ?_⟩
      · rintro ⟨index', file', hfirst', hfile', hbad⟩
        obtain rfl := hfirst.unique hfirst'
        obtain rfl := Option.some.inj (hfile.symm.trans hfile')
        exact hbad.elim hexec hbig
      · rw [hchecks, if_neg hexec, if_neg hbig]

end Io

/-! ### The kernel calls -/

/-- If all calls of `sos_task_new` succeed, it returns the thread. -/
theorem sosTaskNew_succeed {tid : ThreadId} {calls : TaskCalls} (h : calls.Succeed) :
    sosTaskNew tid calls = (tid, true) := by
  obtain ⟨hcreate, hspace, hactivate | ⟨hcode, hagain⟩⟩ := h
  · simp [sosTaskNew, hcreate, hspace, hactivate]
  · simp [sosTaskNew, hcreate, hspace, hcode, hagain]

/-- Each of the numbers -1, -2 and -3 is pid 255. -/
theorem sosTaskNew_fail {tid : ThreadId} {calls : TaskCalls} (h : ¬ calls.Succeed) :
    (sosTaskNew tid calls).2 = false ∧ tid2pid (sosTaskNew tid calls).1 = 255 := by
  unfold sosTaskNew
  split
  · exact ⟨rfl, by decide⟩
  next hcreate =>
    split
    · exact ⟨rfl, by decide⟩
    next hspace =>
      simp only [Bool.not_eq_true', Bool.not_eq_false] at hcreate hspace
      split
      next hactivate => exact absurd ⟨hcreate, hspace, Or.inl hactivate⟩ h
      · split
        next hagain => exact absurd ⟨hcreate, hspace, Or.inr hagain⟩ h
        · exact ⟨rfl, by decide⟩

/-! ### The handler -/

namespace Server

variable {s : Server} {buf : Option IpcPage} {env : CreateEnv}

/-- The reply is the pid of an entry that was free, is active and whose thread was started. -/
def Created (s s' : Server) (reply : Int) (started : Option ThreadId) : Prop :=
  ∃ i : Nat, reply = i ∧ 1 ≤ i ∧ i < maxRunningProcess ∧ (s.mm.ptable i).isActive = false ∧
    (s'.mm.ptable i).isActive = true ∧ started = some (s'.mm.ptable i).tid

/-- The reply is an error, no thread was started and the process table is what it was. -/
def NotCreated (s s' : Server) (reply : Int) (started : Option ThreadId) : Prop :=
  reply < 0 ∧ started = none ∧ ∀ i < maxRunningProcess,
    (s'.mm.ptable i).isActive = (s.mm.ptable i).isActive ∧
    (s'.mm.ptable i).pageIndex = (s.mm.ptable i).pageIndex ∧
    s'.io.filetable i = s.io.filetable i

/-- `create_process` returns, and has created a process or left the table as it was. -/
def AllOrNothing (null : Option (List UInt8)) (s : Server) (buf : Option IpcPage)
    (env : CreateEnv) : Prop :=
  ∃ s' reply started, s.createProcess null buf env = some (s', reply, started) ∧
    (s.Created s' reply started ∨ s.NotCreated s' reply started)

/-- All entries that `register_process` may take are in use. -/
def TableFull (s : Server) : Prop :=
  ∀ i, 1 ≤ i → i < maxRunningProcess → (s.mm.ptable i).isActive = true

/-- `create_process` refuses before it calls `sos_task_new`. -/
def Refuses (s : Server) (name : List UInt8) (env : CreateEnv) : Prop :=
  (∀ file ∈ s.io.fileCache, (s.io.files file).filename ≠ name) ∨ s.io.NotExecutable name ∨
    env.initializer = false ∨ s.TableFull

/-- The name is in the cache or the cache is full, and the request is refused early, or the
kernel plays along and the name fits into `command` with its terminating zero. -/
def CreatesOrRefuses (s : Server) (buf : Option IpcPage) (env : CreateEnv) : Prop :=
  ∀ page, buf = some page →
    ((∃ file ∈ s.io.fileCache, (s.io.files file).filename = cString page.bytes nName) ∨
      s.io.fileCache.length = dirCacheSize) ∧
    (s.Refuses (cString page.bytes nName) env ∨
      ((cString page.bytes nName).length < nName ∧ env.calls.Succeed))

/-- A request that is refused before anything is written. -/
theorem allOrNothing_error {e : Int} (he : e < 0)
    (hfind : ∀ null, s.io.findExecutable null buf = some (.error e)) (null : Option (List UInt8)) :
    s.AllOrNothing null buf env := by
  refine ⟨s, e, none, ?_, Or.inr ⟨he, rfl, fun i _ => ⟨rfl, rfl, rfl⟩⟩⟩
  simp only [createProcess, hfind null, Option.bind_eq_bind, Option.bind_some]

/-- `register_process` in full. -/
theorem registerProcess_cases (hmm : s.mm.Reachable Mm.anyStep) (name : List UInt8)
    (heap : FileTableEntry) :
    (s.TableFull ∧ ∃ s' : Server, s.registerProcess name heap = (s', none) ∧
      s'.mm.ptable = s.mm.ptable ∧ s'.io = s.io) ∨
    (¬ s.TableFull ∧ ∃ (s' : Server) (i : Nat), s.registerProcess name heap = (s', some i) ∧
      1 ≤ i ∧ i < maxRunningProcess ∧ (s.mm.ptable i).isActive = false ∧
      (s'.mm.ptable i).isActive = true ∧
      (s'.mm.ptable i).tid = if name.length < nName then threadId i else ⟨0, 1⟩) := by
  obtain ⟨φ, hinv, -⟩ := hmm.inv
  unfold registerProcess
  -- The table is full, or the first free slot is taken.
  obtain ⟨n, ⟨hreg, hfull⟩ | ⟨i, hreg, -, h1, h2, hfree⟩⟩ :=
    Sos.registerProcess_spec hinv name s.clock.getTimeStamp
  · rw [hreg]
    exact Or.inl ⟨fun i => Mm.allocateProcessEntry_full hfull, _, rfl, rfl, rfl⟩
  · rw [hreg]
    refine Or.inr ⟨fun hall => ?_, _, i, rfl, h1, h2, hfree, ?_, ?_⟩
    · rw [hall i h1 h2] at hfree
      cases hfree
    · dsimp only
      -- With a name that is too long the thread id is overwritten.
      rw [Function.update_self]
      rfl
    · dsimp only
      rw [Function.update_self]
      exact hinv.registered_tid h1 h2 hfree name _

/-- `create_process` of an executable file. -/
theorem executable_iff (hmm : s.mm.Reachable Mm.anyStep) {name : List UInt8}
    (hfind : ∀ null, s.io.findExecutable null buf = some (.ok name)) :
    (∀ null, s.AllOrNothing null buf env) ↔ env.initializer = false ∨ s.TableFull ∨
      (name.length < nName ∧ env.calls.Succeed) := by
  cases hinit : env.initializer with
  | false =>
      refine iff_of_true (fun null => ?_) (Or.inl rfl)
      refine ⟨s, -1, none, ?_, Or.inr ⟨by decide, rfl, fun i _ => ⟨rfl, rfl, rfl⟩⟩⟩
      simp only [createProcess, hfind null, Option.bind_eq_bind, Option.bind_some, hinit,
        Bool.not_false, if_true]
  | true =>
      rw [or_iff_right (by decide : ¬ true = false)]
      -- `register_process` has written the entry before the kernel is asked.
      rcases registerProcess_cases hmm name env.heap with
        ⟨hfull, s', hreg, hptable, hio⟩ | ⟨hnot, s', i, hreg, h1, h2, hfree, hactive, htid⟩
      · refine iff_of_true (fun null => ?_) (Or.inl hfull)
        refine ⟨s', processTableFull, none, ?_, Or.inr ⟨by decide, rfl, fun i _ => ?_⟩⟩
        · simp only [createProcess, hfind null, Option.bind_eq_bind, Option.bind_some, hinit,
            Bool.not_true, Bool.false_eq_true, if_false, hreg]
        · rw [hptable, hio]
          exact ⟨rfl, rfl, rfl⟩
      · have hcreate : ∀ null, s.createProcess null buf env = some (s',
            ((tid2pid (sosTaskNew (s'.mm.ptable i).tid env.calls).1 : Nat) : Int),
            if (sosTaskNew (s'.mm.ptable i).tid env.calls).2 then some (s'.mm.ptable i).tid
            else none) := by
          intro null
          simp only [createProcess, hfind null, Option.bind_eq_bind, Option.bind_some, hinit,
            Bool.not_true, Bool.false_eq_true, if_false, hreg]
          rfl
        rw [or_iff_right hnot]
        constructor
        · intro hall
          obtain ⟨s₁, reply, started, hs₁, hresult⟩ := hall none
          rw [hcreate none, Option.some.injEq, Prod.mk.injEq, Prod.mk.injEq] at hs₁
          obtain ⟨-, hreply, -⟩ := hs₁
          -- The reply is 0 for a name that does not fit, and 255 when the kernel refuses.
          have hpid : ∃ j : Nat, reply = j ∧ 1 ≤ j ∧ j < maxRunningProcess := by
            rcases hresult with ⟨j, hj, hj1, hj2, -⟩ | ⟨hneg, -⟩
            · exact ⟨j, hj, hj1, hj2⟩
            · omega
          obtain ⟨j, rfl, hj1, hj2⟩ := hpid
          -- A reply of 255 is the pid of no slot.
          have hsucceed : env.calls.Succeed := by
            by_contra hfail
            rw [(sosTaskNew_fail hfail).2] at hreply
            simp only [maxRunningProcess] at hj2
            omega
          refine ⟨?_, hsucceed⟩
          -- A reply of 0 is the pid of the server's own entry.
          by_contra hlong
          rw [sosTaskNew_succeed hsucceed, htid, if_neg hlong] at hreply
          have hzero : tid2pid ⟨0, 1⟩ = 0 := rfl
          rw [hzero] at hreply
          omega
        · rintro ⟨hname, hsucceed⟩ null
          have hs' := hcreate null
          rw [sosTaskNew_succeed hsucceed] at hs'
          refine ⟨s', _, _, hs', Or.inl ⟨i, ?_, h1, h2, hfree, hactive, if_pos rfl⟩⟩
          rw [htid, if_pos hname, tid2pid_threadId]

end Server

/-! ### The main result -/

/-- `create_process` creates a process or changes nothing, whatever can be read at address 0, if
and only if `CreatesOrRefuses` holds. -/
theorem create_process_iff (s : Server) (hmm : s.mm.Reachable Mm.anyStep)
    (hle : s.io.fileCache.length ≤ dirCacheSize) (buf : Option IpcPage) (env : CreateEnv) :
    (∀ null, s.AllOrNothing null buf env) ↔ s.CreatesOrRefuses buf env := by
  -- The cases in the order of the source: no IPC page, a cached name, a name that is missing.
  cases buf with
  | none =>
      refine iff_of_true (Server.allOrNothing_error (e := executableNotFound) (by decide)
        fun _ => rfl) nofun
  | some page =>
      by_cases hcached : ∃ file ∈ s.io.fileCache,
          (s.io.files file).filename = cString page.bytes nName
      -- The cached file is not executable, or it is.
      · rcases Io.findExecutable_cached hcached with ⟨hbad, e, he, hfind⟩ | ⟨hgood, hfind⟩
        · refine iff_of_true (Server.allOrNothing_error he hfind) ?_
          rintro _ ⟨⟩
          exact ⟨Or.inl hcached, Or.inl (Or.inr (Or.inl hbad))⟩
        · refine (Server.executable_iff hmm hfind).trans ⟨fun hcond => ?_, fun hcond => ?_⟩
          · rintro _ ⟨⟩
            refine ⟨Or.inl hcached, ?_⟩
            rcases hcond with hinit | hfull | hok
            · exact Or.inl (Or.inr (Or.inr (Or.inl hinit)))
            · exact Or.inl (Or.inr (Or.inr (Or.inr hfull)))
            · exact Or.inr hok
          · rcases (hcond page rfl).2 with (hmissing | hbad | hrest) | hok
            · obtain ⟨file, hfile, hname⟩ := hcached
              exact absurd hname (hmissing file hfile)
            · exact absurd hbad hgood
            · exact hrest.imp_right Or.inl
            · exact Or.inr (Or.inr hok)
      · push Not at hcached
        -- A full cache has no null pointer behind its last entry, so that the search comes to an
        -- end.
        by_cases hfull : s.io.fileCache.length = dirCacheSize
        · refine iff_of_true (Server.allOrNothing_error (e := executableNotFound) (by decide)
            ((Io.findExecutable_missing_iff hle hcached).mpr hfull)) ?_
          rintro _ ⟨⟩
          exact ⟨Or.inr hfull, Or.inl (Or.inl hcached)⟩
        · -- `find_file` follows the null pointer behind the last entry
          refine iff_of_false (fun hall => ?_) fun hcond => ?_
          · obtain ⟨s', reply, started, hs', -⟩ := hall none
            have hroom : s.io.fileCache.length < dirCacheSize := Nat.lt_of_le_of_ne hle hfull
            simp only [Server.createProcess, Io.findExecutable,
              Io.findFile_follows_null hroom hcached, Option.bind_eq_bind, Option.bind_none] at hs'
            cases hs'
          · rcases (hcond page rfl).1 with ⟨file, hfile, hname⟩ | heq
            · exact hcached file hfile hname
            · exact hfull heq

/-! ### Two runs -/

/-- The process table after booting. -/
def bootedMm : Mm := (Mm.boot (.small 2)).get Mm.boot_small_two

/-- The memory after booting is a reachable state. -/
theorem bootedMm_reachable : bootedMm.Reachable Mm.anyStep :=
  .boot (Mm.Boot.small_ok Nat.two_pos (by decide)) (Option.some_get _).symm

/-- What `create_process` gets from outside when the kernel creates the thread, or does not. -/
def taskEnv (created : Bool) : CreateEnv where
  heap := FileServer.zeroedEntry
  initializer := true
  calls :=
    { createInactive := created
      setupSpace := true
      activate := true
      errorCode := 0
      activateAgain := false }

open FileServer in
/-- The first process is created when the directory has been listed. -/
theorem create_process_iff_shell : ∃ f : FileServer,
    (machine none).Reachable Lib.Machine.anyStep f ∧ f.io.fileCache.length = 2 ∧
      ∀ null, Server.AllOrNothing null ⟨bootedMm, f.io, Clock.started⟩ (some (namedPage shell))
        (taskEnv true) := by
  obtain ⟨f, -, hreach, hlength, hcached⟩ := Lib.Machine.exists_run (machine none)
    Lib.Machine.anyStep booted_init (startup.take 2)
    (fun f => f.io.fileCache.length = 2 ∧
      ∃ file ∈ f.io.fileCache, (f.io.files file).filename = cString (namedPage shell).bytes nName)
    (by decide +kernel)
  refine ⟨f, hreach, hlength, (create_process_iff ⟨bootedMm, f.io, Clock.started⟩
    bootedMm_reachable (by rw [hlength]; decide) _ (taskEnv true)).mpr ?_⟩
  rintro _ ⟨⟩
  exact ⟨Or.inl hcached, Or.inr ⟨by decide +kernel, rfl, rfl, Or.inl rfl⟩⟩

open FileServer in
/-- The kernel does not create the thread. The reply is the pid 255, and slot 1 stays active
without a thread. -/
theorem failed_task_stays : ∃ (f : FileServer) (s' : Server),
    (machine none).Reachable Lib.Machine.anyStep f ∧
      Server.createProcess none ⟨bootedMm, f.io, Clock.started⟩ (some (namedPage shell))
        (taskEnv false) = some (s', 255, none) ∧
      (bootedMm.ptable 1).isActive = false ∧ (s'.mm.ptable 1).isActive = true ∧
      ¬ Server.AllOrNothing none ⟨bootedMm, f.io, Clock.started⟩ (some (namedPage shell))
        (taskEnv false) := by
  -- The run lists the directory, and then `sosh` is created with a task that fails.
  obtain ⟨f, -, hreach, hcreate⟩ := Lib.Machine.exists_run (machine none)
    Lib.Machine.anyStep booted_init (startup.take 2)
    (fun f => (Server.createProcess none ⟨bootedMm, f.io, Clock.started⟩
      (some (namedPage shell)) (taskEnv false)).any fun r =>
        decide (r.2 = (255, none)) && (r.1.mm.ptable 1).isActive)
    (by decide +kernel)
  rw [Option.any_eq_true] at hcreate
  obtain ⟨⟨s', r⟩, hs', hP⟩ := hcreate
  rw [Bool.and_eq_true, decide_eq_true_eq] at hP
  obtain ⟨rfl, hactive⟩ := hP
  refine ⟨f, s', hreach, hs', by decide +kernel, hactive, ?_⟩
  -- It has neither created the process nor refused it.
  rintro ⟨s₁, reply, started, hs₁, hresult⟩
  obtain ⟨-, rfl, -⟩ := Prod.mk.inj (Option.some.inj (hs'.symm.trans hs₁))
  rcases hresult with ⟨i, hi, -, hlt, -⟩ | ⟨hneg, -⟩
  · simp only [maxRunningProcess] at hlt
    omega
  · exact absurd hneg (by decide)

end Sos
