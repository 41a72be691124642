import Sos.Clock.Step
import Sos.Server.Calls

/-!
# `Sos.Server.Step`: the whole server as a state machine

One action is one turn of `syscall_loop`, of the network stack or of an interrupt handler, with
all parts of the server together: a handler reads and writes the same process table, and a reply
of any part ends the wait of the thread that gets it.

Only threads that have been started act, and only while they are not blocked. The memory behind
the IPC page is part of the action: the loop looks it up before it calls a handler, and where the
process has no page table for it, it is whatever that lookup has read. What a handler copies to
memory of the clients is not followed.

`sent` are the messages of one step to threads of clients, with the call that each answers. A
handler leaves the label of its reply at 0; the ones that are sent later have the label of the
call.
-/

set_option autoImplicit false

namespace Sos

/-- A message to a thread of a client, with the call that it answers. It is `none` for the answer
to a page fault. -/
structure ClientMessage where
  call : Option Syscall
  recipient : ThreadId
  words : List Int
deriving DecidableEq

/-- The call that a message with this label is for. `nfs_read_callback` shifts the number of the
call itself, before `send_ipc_reply` does. -/
def callOfLabel (label : Int) : Option Syscall :=
  if label = sosOpen then some .sosOpen
  else if label = sosRead ∨ label = createSyscallNr sosRead then some .sosRead
  else if label = sosWrite then some .sosWrite
  else if label = sosProcessWait then some .sosProcessWait
  else if label = sosSleep then some .sosSleep
  else none

/-- A message that `send_ipc_reply` has sent. -/
def ClientMessage.ofEvent : Event → Option ClientMessage
  | .reply recipient label words => some ⟨callOfLabel label, recipient, words⟩
  | .kdbEnter _ => none
  | .deleted _ => none

/-- The server, the threads that have been started and not stopped since, and what the last step
has sent. -/
structure System where
  server : Server
  started : ThreadId → Bool
  sent : List ClientMessage

inductive SystemAction
  /-- Process `p` makes a system call with these words. -/
  | syscall (p : Nat) (call : Syscall) (words : List Nat) (env : CallEnv)
  /-- Process `p` faults at `addr`; `access` is the lower four bits of the label. -/
  | fault (p addr access : Nat) (env : FaultEnv)
  /-- Process `p` stores a byte through its hardware mappings. -/
  | store (p addr : Nat) (byte : UInt8)
  /-- The `k`-th outstanding request for the swap file is answered. -/
  | swapReply (k : Nat) (status : NfsStatus)
  /-- The `k`-th other outstanding request is answered. -/
  | nfsReply (k : Nat) (reply : NfsReply)
  /-- A character arrives on the console. -/
  | serialReceive (c : UInt8)
  /-- `n` ticks pass. -/
  | advance (n : Nat)
  /-- `timer_overflow_irq`. -/
  | timestampIrq
  /-- `timer0_irq`. -/
  | timer0Irq
  /-- The initializing thread calls `create_process` for the shell, whose name is in `page`. -/
  | createShell (page : IpcPage) (env : CreateEnv)

namespace System

/-- The thread of process `p` can run. -/
def Runs (s : System) (p : Nat) : Prop :=
  s.server.mm.Running p ∧ s.started (threadId p) = true

instance (s : System) (p : Nat) : Decidable (s.Runs p) :=
  inferInstanceAs (Decidable (_ ∧ _))

/-- The actions that can happen in a state. Words of a message have 32 bits. The directory has
been listed before the first process is created. -/
def Enabled (s : System) : SystemAction → Prop
  | .syscall p _ words _ => s.Runs p ∧ ∀ word ∈ words, word < 2 ^ 32
  | .fault p addr access _ => s.Runs p ∧ addr < addressSpace ∧ access < 16
  | .store p addr _ => s.Runs p ∧ addr < addressSpace ∧ s.server.mm.canStore (threadId p) addr
  | .swapReply k _ => k < s.server.mm.requests.length
  | .nfsReply k _ => k < s.server.io.rpcs.length
  | .serialReceive _ => True
  | .advance _ => True
  | .timestampIrq => s.server.clock.timestampIrq = true
  | .timer0Irq => s.server.clock.timer0Irq = true
  | .createShell _ _ => s.server.io.fileCacheInitialized = true

instance (s : System) (a : SystemAction) : Decidable (s.Enabled a) := by
  cases a with
  | syscall p _ words => exact inferInstanceAs (Decidable (s.Runs p ∧ ∀ word ∈ words, _))
  | fault => exact inferInstanceAs (Decidable (_ ∧ _))
  | store => exact inferInstanceAs (Decidable (_ ∧ _))
  | swapReply => exact inferInstanceAs (Decidable (_ < _))
  | nfsReply => exact inferInstanceAs (Decidable (_ < _))
  | serialReceive => exact inferInstanceAs (Decidable True)
  | advance => exact inferInstanceAs (Decidable True)
  | timestampIrq => exact inferInstanceAs (Decidable (_ = true))
  | timer0Irq => exact inferInstanceAs (Decidable (_ = true))
  | createShell => exact inferInstanceAs (Decidable (_ = true))

/-- Messages of the file system and of the clock end the wait of their recipients like those of
the memory management. -/
def deliver (mm : Mm) (events : List Event) : Mm :=
  events.foldl (fun mm ev =>
    match ev with
    | .reply recipient label words => mm.sendIpcReply recipient label words
    | .kdbEnter _ => mm
    | .deleted _ => mm) mm

/-- What a turn of the loop leaves: the handled message, the messages of the clock, and the thread
that the reply goes to, with its call. -/
def finish (s : System) (h : Server.Handled) (rung : List Event) (caller : ThreadId)
    (call : Option Syscall) : System :=
  let mm := deliver h.server.mm (h.server.io.outbox ++ rung)
  { server := { h.server with mm := mm.replyWait caller h.reply }
    started := fun tid =>
      (s.started tid || h.started = some tid) && !decide (.deleted (tid2pid tid) ∈ mm.outbox)
    sent := mm.outbox.filterMap ClientMessage.ofEvent ++
      (h.reply.map fun words => ⟨call, caller, words⟩).toList }

/-- What a turn leaves that nobody waits for. -/
def silent (s : System) (server : Server) (rung : List Event) : System :=
  s.finish { server := server, reply := none } rung nilthread none

/-- The state in which the handler of a message runs. `SOS_UNMAP_ALL` is sent without waiting for
an answer. -/
def received (s : System) (p : Nat) (call : Syscall) : Server :=
  if call = .sosUnmapAll then
    { s.server with mm := { s.server.mm with outbox := [] }, io := s.server.io.cleared }
  else s.server.received p

/-- The state before a message that is not from a process. -/
def cleared (s : System) : Server :=
  { s.server with mm := { s.server.mm with outbox := [] }, io := s.server.io.cleared }

/-- Handles one message. `none` is a failed assertion or an invalid access. -/
def exec (null : Option (List UInt8)) (nullOwner : Option ThreadId) (s : System) :
    SystemAction → Option System
  | .syscall p call words env => do
    let h ← (s.received p call).handle null nullOwner (threadId p) words env call
    some (s.finish h [] (threadId p) call)
  | .fault p addr access env => do
    let server := { s.cleared with mm := s.cleared.mm.block (threadId p) .fault }
    let (server, reply) ← server.pager nullOwner (threadId p) addr access env
    some (s.finish { server := server, reply := reply } [] (threadId p) none)
  | .store p addr byte =>
    some (s.silent { s.cleared with mm := s.cleared.mm.storeByte (threadId p) addr byte } [])
  | .swapReply k status => do
    let mm ← s.cleared.mm.nfsReply k status
    some (s.silent { s.cleared with mm := mm } [])
  | .nfsReply k reply => do
    let io ← s.cleared.io.nfsReply (fun p => (s.server.mm.ptable p).isActive) k reply
    some (s.silent { s.cleared with io := io } [])
  | .serialReceive c => do
    let io ← s.cleared.io.serialReceiveHandler c
    some (s.silent { s.cleared with io := io } [])
  | .advance n => some (s.silent { s.cleared with clock := s.server.clock.advance n } [])
  | .timestampIrq => do
    let clock ← s.server.clock.timerOverflowIrq
    some (s.silent { s.cleared with clock := clock } [])
  | .timer0Irq => do
    let (clock, ringing) ← s.server.clock.timer0Handler
    some (s.silent { s.cleared with clock := clock } (ringing.map Clock.wakeup))
  | .createShell page env => do
    let (server, _, started) ← s.cleared.createProcess null (some page) env
    some (s.finish { server := server, reply := none, started := started } [] nilthread none)

/-- The server when `io_init` has sent its requests. `heap` is what is in the memory of descriptor
0 of its own entry in the process table. -/
def boot (b : Mm.Boot) (heap : FileTableEntry) : Option System := do
  let mm ← Mm.boot b
  let files ← FileServer.boot b.rootThread heap
  some
    { server := { mm := mm, io := files.io, clock := Clock.started }
      started := fun _ => false
      sent := [] }

/-- The server, from `io_init` on. -/
def machine (null : Option (List UInt8)) (nullOwner : Option ThreadId) :
    Lib.Machine System SystemAction where
  init s := ∃ b heap, b.Ok ∧ boot b heap = some s
  step s a := if s.Enabled a then s.exec null nullOwner a else none

/-- A step of the machine is an enabled action that returns. -/
theorem step_eq_some {null : Option (List UInt8)} {nullOwner : Option ThreadId} {s s' : System}
    {a : SystemAction} (h : (machine null nullOwner).step s a = some s') :
    s.Enabled a ∧ s.exec null nullOwner a = some s' :=
  Option.ite_none_right_eq_some.mp h

end System

end Sos
