import Sos.Clock.Driver
import Sos.Io.Step

/-!
# `Sos.Server.State`: the parts of the server together

The process table with the memory management, the file system and the clock, and the handlers
that write to more than one of them: `create_process`, with `register_process` in full and
`sos_task_new`, and `delete_process`.

What the kernel answers to the calls of `sos_task_new` is not known to the server (`TaskCalls`).
The numbers that it returns for a failure are converted to a pid like a thread id.
-/

set_option autoImplicit false

namespace Sos

structure Server where
  mm : Mm
  io : Io
  clock : Clock

/-- The thread id with this word. The version has the lower 14 bits. -/
def ThreadId.ofRaw (raw : Nat) : ThreadId := ⟨raw / 2 ^ 14 % 2 ^ 18, raw % 2 ^ 14⟩

/-- The kernel's answers to `sos_task_new`, in the order of the calls: `L4_ThreadControl` for the
inactive thread, `L4_SpaceControl`, `L4_ThreadControl` for the active thread, the error code of
that, and `L4_ThreadControl` once more for a thread that was active before. -/
structure TaskCalls where
  createInactive : Bool
  setupSpace : Bool
  activate : Bool
  errorCode : Nat
  activateAgain : Bool

/-- `sos_task_new`: the thread id it returns, and whether it has started the thread. The other
arguments go to the kernel. -/
def sosTaskNew (tid : ThreadId) (calls : TaskCalls) : ThreadId × Bool :=
  if !calls.createInactive then (.ofRaw (2 ^ 32 - 1), false)
  else if !calls.setupSpace then (.ofRaw (2 ^ 32 - 2), false)
  else if calls.activate then (tid, true)
  else if calls.errorCode = 6 ∧ calls.activateAgain then (tid, true)
  else (.ofRaw (2 ^ 32 - 3), false)

/-- The calls succeed, the third one at the second try at the latest. -/
def TaskCalls.Succeed (calls : TaskCalls) : Prop :=
  calls.createInactive = true ∧ calls.setupSpace = true ∧
    (calls.activate = true ∨ (calls.errorCode = 6 ∧ calls.activateAgain = true))

/-- What `create_process` gets from outside: what is in the memory that `malloc` returns for
descriptor 0, whether the initializer is in the boot image, and the kernel's answers. -/
structure CreateEnv where
  heap : FileTableEntry
  initializer : Bool
  calls : TaskCalls

namespace Server

/-- `register_process`: the index of the entry, `none` when the table is full. -/
def registerProcess (s : Server) (name : List UInt8) (heap : FileTableEntry) :
    Server × Option Nat :=
  match s.mm.registerProcess name s.clock.getTimeStamp with
  | (mm, none) => ({ s with mm := mm }, none)
  | (mm, some i) =>
    ({ s with mm := mm, io := s.io.registerFiletable i (mm.pid2tid i) heap }, some i)

/-- `create_process`: the word of the reply, and the thread that has been started. `null` is the
string at address 0, `none` when nothing can be read there. -/
def createProcess (null : Option (List UInt8)) (s : Server) (buf : Option IpcPage)
    (env : CreateEnv) : Option (Server × Int × Option ThreadId) := do
  match ← s.io.findExecutable null buf with
  | .error e => some (s, e, none)
  | .ok name =>
    if !env.initializer then some (s, -1, none)
    else
      match s.registerProcess name env.heap with
      | (s, none) => some (s, processTableFull, none)
      | (s, some i) =>
        let tid := s.mm.pid2tid i
        let (newtid, started) := sosTaskNew tid env.calls
        some (s, tid2pid newtid, if started then some tid else none)

/-- `delete_process`. The files and the timers do not depend on the memory, and are closed and
removed behind it here. `nullOwner` is the owner that `remove_timers` reads at address 0. -/
def deleteProcess (nullOwner : Option ThreadId) (s : Server) (tid : ThreadId) (words : List Nat) :
    Option (Server × Reply) :=
  match words with
  | [word] => do
    let pid := toInt32 word
    if pid < 1 ∨ pid ≥ maxRunningProcess then some (s, some [-1])
    else
      let toDelete := s.mm.getProcess (s.mm.pid2tid pid.toNat)
      if !toDelete.isActive then some (s, some [-1])
      else
        let (mm, reply) ← s.mm.deleteProcess tid pid
        let io ← s.io.closeFiles (tid2pid (s.mm.pid2tid pid.toNat)) toDelete.tid
        let clock ← s.clock.removeTimers nullOwner toDelete.tid
        some ({ mm := mm, io := io, clock := clock }, reply)
  | _ => some (s, some [-1])

/-- The state in which the handler of a system call of process `p` runs: nothing has been sent
for this call, and the thread is blocked in it. -/
def received (s : Server) (p : Nat) : Server :=
  { s with mm := { s.mm with outbox := [] }.block (threadId p) .call, io := s.io.cleared }

/-- The file system of the server, which sees the same process table. -/
def Agrees (s : Server) (f : FileServer) : Prop :=
  f.io = s.io ∧ ∀ p < maxRunningProcess,
    f.isActive p = (s.mm.ptable p).isActive ∧ f.tid p = (s.mm.ptable p).tid

/-- Two machines with the same process table agree. -/
theorem Agrees.of_table {mm : Mm} {f : FileServer} {clock : Clock} {isActive : Nat → Bool}
    {tid : Nat → ThreadId}
    (hfiles : ∀ p < maxRunningProcess, f.isActive p = isActive p ∧ f.tid p = tid p)
    (hmm : ∀ p < maxRunningProcess,
      (mm.ptable p).isActive = isActive p ∧ (mm.ptable p).tid = tid p) :
    Agrees ⟨mm, f.io, clock⟩ f := by
  refine ⟨rfl, fun p hp => ⟨?_, ?_⟩⟩
  · rw [(hfiles p hp).1, (hmm p hp).1]
  · rw [(hfiles p hp).2, (hmm p hp).2]

end Server

end Sos
