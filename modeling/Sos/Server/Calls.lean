import Sos.Server.State

/-!
# `Sos.Server.Calls`: the system calls

The table of `sysent.c`, with the handlers of `process.c` that no other module has: `get_pid`,
`get_process_status` and `get_executable_name`, and the checks that `start_process` and
`wait_process` make before they look at the process table. A handler gets the thread that calls,
the untyped words of the message and the memory behind the IPC page. What it copies to that page
is `PageData`.

`pager` deletes a process in full when it faults where it has no access.
-/

set_option autoImplicit false

namespace Sos

/-- The numbers of `syscalls.h`, in their order. -/
inductive Syscall
  | sosOpen
  | sosRead
  | sosWrite
  | sosClose
  | sosGetdirent
  | sosStat
  | sosProcessCreate
  | sosProcessStart
  | sosProcessDelete
  | sosProcessId
  | sosProcessStatus
  | sosProcessWait
  | sosProcessGetName
  | sosSleep
  | sosTimestamp
  | sosUnmapAll
deriving DecidableEq, Repr

/-- The number of a system call. -/
def Syscall.number (call : Syscall) : Nat := call.ctorIdx

/-- `init_systable`: every number up to `SYSENT_SIZE` has a handler. -/
def sysent : List Syscall :=
  [.sosOpen, .sosRead, .sosWrite, .sosClose, .sosGetdirent, .sosStat, .sosProcessCreate,
    .sosProcessStart, .sosProcessDelete, .sosProcessId, .sosProcessStatus, .sosProcessWait,
    .sosProcessGetName, .sosSleep, .sosTimestamp, .sosUnmapAll]

/-- Every system call is in the table under its number. -/
theorem sysent_number (call : Syscall) : sysent[call.number]? = some call := by
  cases call <;> rfl

/-- `process_t` of `process_shared.h`. -/
structure ProcessT where
  pid : Nat
  size : Nat
  stime : Nat
  ctime : Nat
  command : List UInt8
deriving DecidableEq

/-- `sizeof(process_t)`. -/
def sizeofProcessT : Nat := 4 * 4 + nName

/-- What a handler copies to the IPC page of the caller. -/
inductive PageData
  | status (status : Stat)
  | name (name : List UInt8)
  | processes (processes : List ProcessT)

/-- What a handler gets from outside besides the message: the memory behind the IPC page, whether
`malloc` and the network stack have memory, what `create_process` gets, and what is on the stack
behind the arguments of a call. -/
structure CallEnv where
  buf : Option IpcPage
  allocated : Bool
  create : CreateEnv
  stack : Nat → Int

namespace Server

/-! ### The handlers of `process.c` -/

/-- `get_pid`. -/
def getPid (tid : ThreadId) : Reply := some [tid2pid tid]

/-- The entry of `get_process_status` for a process. -/
def statusEntry (s : Server) (p : Process) : ProcessT where
  pid := tid2pid p.tid
  size := p.size
  stime := (s.clock.getTimeStamp + 2 ^ 64 - p.startTime) % 2 ^ 64 / 1000 % 2 ^ 32
  ctime := 0
  command := p.command

/-- The loop of `get_process_status`, with `added` entries written so far: it leaves the loop when
the count has become `maxProcesses`. -/
def statusEntries (s : Server) (maxProcesses : Nat) : List Nat → Nat → List ProcessT
  | [], _ => []
  | i :: rest, added =>
    if (s.mm.ptable i).isActive then
      s.statusEntry (s.mm.ptable i) ::
        if added + 1 = maxProcesses then [] else statusEntries s maxProcesses rest (added + 1)
    else statusEntries s maxProcesses rest added

/-- `get_process_status`. -/
def getProcessStatus (s : Server) (words : List Nat) (buf : Option IpcPage) :
    Reply × Option PageData :=
  match buf, words with
  | some _, [word] =>
    let maxProcesses := min word (pageSize / sizeofProcessT)
    let entries := s.statusEntries maxProcesses (List.range maxRunningProcess) 0
    (some [(entries.length : Nat)], some (.processes entries))
  | _, _ => (some [0], none)

/-- `get_executable_name`. -/
def getExecutableName (s : Server) (tid : ThreadId) (buf : Option IpcPage) :
    Reply × Option PageData :=
  match buf with
  | some _ =>
    if (s.mm.getProcess tid).initialized then (some [-1], none)
    else (some [0], some (.name (s.mm.getProcess tid).command))
  | none => (some [-1], none)

/-- `start_process`. It deletes the process when the file could not be loaded. -/
def startProcess (nullOwner : Option ThreadId) (s : Server) (tid : ThreadId) (words : List Nat) :
    Option (Server × Reply) :=
  match words with
  | [word] => do
    if (s.mm.getProcess tid).initialized ∨ toInt32 word ≠ 0 then
      let (mm, reply) ← s.mm.startProcess tid (toInt32 word)
      some ({ s with mm := mm }, reply)
    else
      let (s, _) ← s.deleteProcess nullOwner tid [tid2pid tid]
      some (s, none)
  | _ => some (s, some [-1])

/-- `wait_process`. -/
def waitProcess (s : Server) (tid : ThreadId) (words : List Nat) (stack : Nat → Int) :
    Server × Reply :=
  match words with
  | [word] =>
    let (mm, reply) := s.mm.waitProcess tid (toInt32 word) stack
    ({ s with mm := mm }, reply)
  | _ => (s, some [-1])

/-! ### The table -/

/-- What a handler leaves: the state, the reply, what it has copied and the thread that it has
started. -/
structure Handled where
  server : Server
  reply : Reply
  data : Option PageData := none
  started : Option ThreadId := none

/-- The handler behind an entry of `sysent`. `null` is the string at address 0, and `nullOwner`
the owner that `remove_timers` reads there. -/
def handle (null : Option (List UInt8)) (nullOwner : Option ThreadId) (s : Server) (tid : ThreadId)
    (words : List Nat) (env : CallEnv) : Syscall → Option Handled
  | .sosOpen => do
    let io ← s.io.openFile null tid words env.buf
    some { server := { s with io := io }, reply := none }
  | .sosRead => do
    let (io, reply) ← s.io.readFile tid words env.buf
    some { server := { s with io := io }, reply := reply }
  | .sosWrite => do
    let (io, reply) ← s.io.writeFile tid words env.buf env.allocated
    some { server := { s with io := io }, reply := reply }
  | .sosClose => do
    let (io, reply) ← s.io.closeFile tid words
    some { server := { s with io := io }, reply := reply }
  | .sosGetdirent => do
    let (reply, name) ← s.io.getDirent words env.buf
    some { server := s, reply := reply, data := name.map .name }
  | .sosStat => do
    let (reply, status) ← s.io.statFile null words env.buf
    some { server := s, reply := reply, data := status.map .status }
  | .sosProcessCreate => do
    let (s, reply, started) ← s.createProcess null env.buf env.create
    some { server := s, reply := some [reply], started := started }
  | .sosProcessStart => do
    let (s, reply) ← s.startProcess nullOwner tid words
    some { server := s, reply := reply }
  | .sosProcessDelete => do
    let (s, reply) ← s.deleteProcess nullOwner tid words
    some { server := s, reply := reply }
  | .sosProcessId => some { server := s, reply := getPid tid }
  | .sosProcessStatus =>
    let (reply, data) := s.getProcessStatus words env.buf
    some { server := s, reply := reply, data := data }
  | .sosProcessWait =>
    let (s, reply) := s.waitProcess tid words env.stack
    some { server := s, reply := reply }
  | .sosProcessGetName =>
    let (reply, data) := s.getExecutableName tid env.buf
    some { server := s, reply := reply, data := data }
  | .sosSleep =>
    let (clock, reply) := s.clock.sleepTimer tid words env.allocated
    some { server := { s with clock := clock }, reply := reply }
  | .sosTimestamp => some { server := s, reply := s.clock.sendTimestamp }
  | .sosUnmapAll => do
    let mm ← s.mm.pagerUnmapAll tid
    some { server := { s with mm := mm }, reply := none }

/-- `pager`. -/
def pager (nullOwner : Option ThreadId) (s : Server) (tid : ThreadId) (addr faultReason : Nat)
    (env : FaultEnv) : Option (Server × Reply) :=
  if !s.mm.isAccessGranted tid addr faultReason then do
    let (s, _) ← s.deleteProcess nullOwner tid [tid2pid tid]
    some (s, none)
  else do
    let (mm, reply) ← s.mm.pager tid addr faultReason env
    some ({ s with mm := mm }, reply)

end Server

end Sos
