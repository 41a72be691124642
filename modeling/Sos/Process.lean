import Sos.Mm.Pager

/-!
# `Sos.Process`: the process table and the process system calls

`process.c`, and the entry point `pager` of `mm/pager.c`, which deletes a process that
faults where it has no access. A system call handler returns the words of its reply, or
`none` when it sends no reply. Where the code closes files and removes timers, the event
`Event.deleted` stands for both.

`register_process` copies the name of the executable with `strcpy`. A name of 32 characters
writes its terminating zero into the first byte of `tid`, which is on this big-endian
machine the part of the thread number that holds the pid (`overflowTid`).
-/

set_option autoImplicit false

namespace Sos

/-- `tid` after a zero was written to the first byte of its word. -/
def overflowTid (tid : ThreadId) : ThreadId :=
  { tid with threadNo := tid.threadNo % 2 ^ reservedIdBits }

/-- The words of the message a system call handler leaves for the reply. -/
abbrev Reply : Type := Option (List Int)

/-- The words that `set_ipc_reply` appends: `args` many. Where the call has fewer arguments,
`va_arg` goes on with what is behind them (`stack`). -/
def setIpcReply (args : Nat) (given : List Int) (stack : Nat → Int) : List Int :=
  (given ++ (List.range (args - given.length)).map stack).take args

/-- `set_ipc_reply` sets as many words as it is told. -/
theorem setIpcReply_length (args : Nat) (given : List Int) (stack : Nat → Int) :
    (setIpcReply args given stack).length = args := by
  rw [setIpcReply, List.length_take, List.length_append, List.length_map, List.length_range]
  omega

namespace Mm

/-- `pid2tid`. -/
def pid2tid (s : Mm) (pid : Nat) : ThreadId := (s.ptable pid).tid

/-- One turn of the loop of `wait_wakeup`. -/
def wakeupEntry (finishedThread : ThreadId) (s : Mm) (i : Nat) : Mm :=
  let p := s.ptable i
  if p.isActive ∧ p.waitFor ≠ nilthread ∧ (p.waitFor = finishedThread ∨ p.waitFor = anythread) then
    let s := s.sendIpcReply p.tid sosProcessWait [tid2pid finishedThread]
    { s with ptable := Function.update s.ptable i { p with waitFor := nilthread } }
  else s

/-- `wait_wakeup`. -/
def waitWakeup (s : Mm) (finishedThread : ThreadId) : Mm :=
  (List.range maxRunningProcess).foldl (wakeupEntry finishedThread) s

/-- `allocate_process_entry`: the index of a free entry. -/
def allocateProcessEntry (s : Mm) : Mm × Option Nat :=
  if s.nextTask < maxRunningProcess ∧ (s.ptable s.nextTask).isActive = false then
    ({ s with nextTask := s.nextTask + 1 }, some s.nextTask)
  else
    let s := if s.nextTask = maxRunningProcess then { s with nextTask := 2 } else s
    (s, (List.range' 1 (maxRunningProcess - 1)).find? fun i => !(s.ptable i).isActive)

/-- `register_process`, without the file table. The result is the index of the entry,
`none` when the table is full. -/
def registerProcess (s : Mm) (name : List UInt8) (now : Nat) : Mm × Option Nat :=
  match s.allocateProcessEntry with
  | (s, none) => (s, none)
  | (s, some i) =>
    let p := s.ptable i
    let tid := if name.length < nName then p.tid else overflowTid p.tid
    ({ s with
        ptable := Function.update s.ptable i
          { p with
            command := name
            waitFor := nilthread
            startTime := now
            tid := { tid with version := 1 }
            isActive := true
            initialized := false
            pageIndex := some fun _ => none } },
      some i)

/-- `process_init`. The table before it is the static, zeroed one; every field it does not
write keeps its value. -/
def processInit (s : Mm) (rootThread : ThreadId) (now : Nat) : Mm :=
  let s :=
    { s with
      nextTask := 0
      ptable := fun i =>
        { s.ptable i with
          isActive := false
          initialized := false
          pageIndex := none
          size := 0
          startTime := 0
          waitFor := nilthread
          tid := ⟨i <<< reservedIdBits, 0⟩ } }
  let (s, _) := s.registerProcess "[sos]".toUTF8.toList now
  { s with
    ptable := Function.update s.ptable 0
      { s.ptable 0 with tid := rootThread, pageIndex := none } }

/-- `L4_AbortIpc_and_stop`: cancels the IPC a thread is blocked in and stops it. -/
def abortIpcAndStop (s : Mm) (tid : ThreadId) : Mm :=
  { s with wait := Function.update s.wait tid .ready }

/-- `delete_process`. -/
def deleteProcess (s : Mm) (tid : ThreadId) (pid : Int) : Option (Mm × Reply) := do
  if pid < 1 ∨ pid ≥ maxRunningProcess then some (s, some [-1])
  else
    let pid := pid.toNat
    let toDelete := s.getProcess (s.pid2tid pid)
    if !toDelete.isActive then some (s, some [-1])
    else
      let s ← s.pagerUnmapAll toDelete.tid
      let s ← s.pagerFreeAll toDelete.tid
      let s := { s with
        ptable := Function.update s.ptable pid { s.ptable pid with pageIndex := none } }
      let s := { s with outbox := s.outbox ++ [Event.deleted (tid2pid toDelete.tid)] }
      let s := s.abortIpcAndStop toDelete.tid
      let s := { s with
        ptable := Function.update s.ptable pid { s.ptable pid with isActive := false } }
      let s := s.waitWakeup toDelete.tid
      if tid ≠ toDelete.tid then some (s, some [tid2pid toDelete.tid]) else some (s, none)

/-- `start_process`. The initializer reports in `status` whether it has loaded the ELF
file. `L4_AbortIpc_and_stop_Thread` and `L4_Start_SpIp` leave the thread running at the
start of the text region. -/
def startProcess (s : Mm) (tid : ThreadId) (status : Int) : Option (Mm × Reply) := do
  if (s.getProcess tid).initialized then some (s, some [-1])
  else if status ≠ 0 then
    let s := s.abortIpcAndStop tid
    let s := s.pagerUnmapInitializer tid
    let s ← s.pagerUnmapAll tid
    let s ← s.pagerUnmapRange tid heapStart heapEnd
    let s ← s.pagerFreeRange tid heapStart heapEnd
    some (s.updateProcess tid fun p => { p with initialized := true }, none)
  else
    let (s, _) ← s.deleteProcess tid (tid2pid tid)
    some (s, none)

/-- `wait_process`. For a process that is not active the arguments of `set_ipc_reply` are one
place off: the number of the call stands where the number of words is read. -/
def waitProcess (s : Mm) (tid : ThreadId) (pid : Int) (stack : Nat → Int) : Mm × Reply :=
  if pid = -1 then (s.updateProcess tid fun p => { p with waitFor := anythread }, none)
  else if pid ≥ maxRunningProcess ∨ pid < -1 then (s, some [-1])
  else
    let waitProcess := s.getProcess (s.pid2tid pid.toNat)
    if !waitProcess.isActive then (s, some (setIpcReply sosProcessWait.toNat [1, pid] stack))
    else (s.updateProcess tid fun p => { p with waitFor := waitProcess.tid }, none)

/-- `pager`: answers a page fault. The reply of a mapped page has no words. `none` leaves
the thread waiting. A fault outside of its rights deletes the process. -/
def pager (s : Mm) (tid : ThreadId) (addr faultReason : Nat) (env : FaultEnv) :
    Option (Mm × Reply) := do
  if !s.isAccessGranted tid addr faultReason then
    let (s, _) ← s.deleteProcess tid (tid2pid tid)
    some (s, none)
  else if addr < virtualStart then some ((s.oneToOneMapping tid addr env).1, some [])
  else
    let (s, result) ← s.virtualMapping tid addr faultReason env
    match result with
    | .mappingFailed => some (s, some [])
    | .mappingSuccess => some (s, some [])
    | .outOfFrames => some (s, none)
    | .pageNotAvailable => some (s, none)

end Mm

end Sos
