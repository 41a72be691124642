import Sos.Process

/-!
# `Sos.Mm.Step`: the server's memory management as a transition system

One action is one turn of `syscall_loop`: a message of a user thread or of the network
stack is handled to its end, and a reply is sent if the handler wants one. The server has a
single thread, so actions do not overlap. What overlaps is what they leave behind: threads
without an answer and NFS requests in flight.

A user thread acts only while it is not blocked in an IPC (`Enabled`). Its store through a
writable mapping is an action as well. The NFS server answers the outstanding requests in
any order. A write reaches the swap file when it is acknowledged, and a read returns what
the file holds when it is answered.

The loop maps the IPC page of the caller into the server before it calls a handler. None of
the handlers here uses it, so that is left out.
-/

set_option autoImplicit false

namespace Sos

inductive Action
  /-- Process `p` faults at `addr`; `access` is the lower four bits of the label. -/
  | fault (p addr access : Nat) (env : FaultEnv)
  /-- Process `p` stores a byte through its hardware mappings. -/
  | store (p addr : Nat) (byte : UInt8)
  /-- The NFS server answers the `k`-th outstanding request for the swap file. -/
  | nfsReply (k : Nat) (status : NfsStatus)
  /-- Process `p` calls `SOS_UNMAP_ALL`. -/
  | unmapAll (p : Nat)
  | startProcess (p : Nat) (status : Int)
  | deleteProcess (p : Nat) (pid : Int)
  /-- `stack` is what is behind the arguments of a call of `set_ipc_reply`. -/
  | waitProcess (p : Nat) (pid : Int) (stack : Nat → Int)
  /-- A new process for the executable `name` is registered and started. -/
  | createProcess (name : List UInt8) (now : Nat)

/-- Slot `p` of the process table holds a running user process. A slot whose thread id
`register_process` has overwritten has no thread. -/
def LiveIn (ptable : Nat → Process) (p : Nat) : Prop :=
  1 ≤ p ∧ p < maxRunningProcess ∧ (ptable p).isActive = true ∧ (ptable p).tid = threadId p

instance (ptable : Nat → Process) (p : Nat) : Decidable (LiveIn ptable p) := by
  unfold LiveIn
  infer_instance

namespace Mm

def Live (s : Mm) (p : Nat) : Prop := LiveIn s.ptable p

instance (s : Mm) (p : Nat) : Decidable (s.Live p) :=
  inferInstanceAs (Decidable (LiveIn s.ptable p))

/-- The process runs: it is not blocked in a page fault or in a system call. -/
def Running (s : Mm) (p : Nat) : Prop := s.Live p ∧ s.wait (threadId p) = .ready

instance (s : Mm) (p : Nat) : Decidable (s.Running p) := by
  unfold Running
  infer_instance

/-- Whether a thread can store to an address. -/
def canStore (s : Mm) (tid : ThreadId) (addr : Nat) : Bool :=
  match s.hw tid (pageAlign addr) with
  | some m => m.rights &&& writable != 0
  | none => false

/-- The actions that can happen in a state. Addresses are machine words, and the label of a
message carries four bits of fault reason. -/
def Enabled (s : Mm) : Action → Prop
  | .fault p addr access _ => s.Running p ∧ addr < addressSpace ∧ access < 16
  | .store p addr _ => s.Running p ∧ addr < addressSpace ∧ s.canStore (threadId p) addr
  | .nfsReply k _ => k < s.requests.length
  | .unmapAll p => s.Running p
  | .startProcess p _ => s.Running p
  | .deleteProcess p _ => s.Running p
  | .waitProcess p _ _ => s.Running p
  | .createProcess name _ => name.length ≤ nName

instance (s : Mm) (a : Action) : Decidable (s.Enabled a) := by
  cases a with
  | fault => exact inferInstanceAs (Decidable (_ ∧ _))
  | store => exact inferInstanceAs (Decidable (_ ∧ _))
  | nfsReply => exact inferInstanceAs (Decidable (_ < _))
  | unmapAll p => exact inferInstanceAs (Decidable (s.Running p))
  | startProcess p => exact inferInstanceAs (Decidable (s.Running p))
  | deleteProcess p => exact inferInstanceAs (Decidable (s.Running p))
  | waitProcess p => exact inferInstanceAs (Decidable (s.Running p))
  | createProcess => exact inferInstanceAs (Decidable (_ ≤ _))

/-- A thread blocks in its message to the server. -/
def block (s : Mm) (tid : ThreadId) (wait : Wait) : Mm :=
  { s with wait := Function.update s.wait tid wait }

/-- `L4_ReplyWait`: the reply of the handler, if it wants one, to the thread whose message
it has handled. The handlers leave the label 0. -/
def replyWait (s : Mm) (tid : ThreadId) : Reply → Mm
  | some words => s.sendIpcReply tid 0 words
  | none => s

/-- A byte stored through a mapping. -/
def storeByte (s : Mm) (tid : ThreadId) (addr : Nat) (byte : UInt8) : Mm :=
  match s.hw tid (pageAlign addr) with
  | some m => { s with phys := Function.update s.phys (m.frame + addr % pageSize) byte }
  | none => s

/-- The item a callback's token points to. -/
def findItem (s : Mm) (token : Nat) : Option PageQueueItem :=
  s.swappingPages.find? fun it => it.id = token

/-- The answer to an outstanding NFS request: the swap file is written or read, and the
callback runs. -/
def nfsReply (s : Mm) (k : Nat) (status : NfsStatus) : Option Mm := do
  let request ← s.requests[k]?
  let page ← s.findItem request.token
  let s := { s with requests := s.requests.eraseIdx k }
  match request with
  | .write _ offset data =>
    let s := if status = .ok then
        { s with swapFile := fun o =>
            if offset ≤ o ∧ o < offset + batchSize then data (o - offset).toNat else s.swapFile o }
      else s
    s.swapWriteCallback page status
  | .read _ offset count =>
    s.swapReadCallback page status count fun i => s.swapFile (offset + i)

/-- Handles one action. `none` is a failed assertion or an invalid access in the server. -/
def exec (s : Mm) : Action → Option Mm
  | .fault p addr access env => do
    let (s, reply) ← (s.block (threadId p) .fault).pager (threadId p) addr access env
    some (s.replyWait (threadId p) reply)
  | .store p addr byte => some (s.storeByte (threadId p) addr byte)
  | .nfsReply k status => s.nfsReply k status
  | .unmapAll p => s.pagerUnmapAll (threadId p)
  | .startProcess p status => do
    let (s, reply) ← (s.block (threadId p) .call).startProcess (threadId p) status
    some (s.replyWait (threadId p) reply)
  | .deleteProcess p pid => do
    let (s, reply) ← (s.block (threadId p) .call).deleteProcess (threadId p) pid
    some (s.replyWait (threadId p) reply)
  | .waitProcess p pid stack =>
    let (s, reply) := (s.block (threadId p) .call).waitProcess (threadId p) pid stack
    some (s.replyWait (threadId p) reply)
  | .createProcess name now =>
    match s.registerProcess name now with
    | (s, none) => some s
    | (s, some i) => some { s with wait := Function.update s.wait (s.pid2tid i) .ready }

/-- One action from its message to its reply. The outbox holds what this action sent. -/
def step (s : Mm) (a : Action) : Option Mm :=
  if s.Enabled a then { s with outbox := [] }.exec a else none

/-- What the machine has after booting: the memory the frame table manages, what is in
memory, and what `malloc` returns for the two bit fields. -/
structure Boot where
  low : Nat
  high : Nat
  frameHeap : Bitfield
  swapHeap : Bitfield
  phys : Nat → UInt8
  swapFile : Int → UInt8
  rootThread : ThreadId
  now : Nat

/-- What `main` assumes of the machine: the memory is page aligned and above page 0, and the
root thread, which the kernel starts the server in, has a reserved thread number. -/
structure Boot.Ok (b : Boot) : Prop where
  low_pos : pageSize ≤ b.low
  low_lt_high : b.low < b.high
  high_le : b.high ≤ addressSpace
  low_aligned : b.low % pageSize = 0
  high_aligned : b.high % pageSize = 0
  rootThread : tid2pid b.rootThread = 0

/-- `main`: `frame_init`, `pager_init` and `process_init`. -/
def boot (b : Boot) : Option Mm := do
  let frames ← FrameTable.frameInit b.low b.high b.frameHeap
  let s : Mm :=
    { ptable := fun _ =>
        { initialized := false, isActive := false, command := [], tid := nilthread
          waitFor := nilthread, size := 0, startTime := 0, pageIndex := none }
      nextTask := 0
      frames := frames
      swapBitfield := b.swapHeap
      activePages := []
      swappingPages := []
      nextItem := 0
      hw := fun _ _ => none
      phys := b.phys
      requests := []
      swapFile := b.swapFile
      wait := fun _ => .ready
      outbox := [] }
  some (s.swapInit.processInit b.rootThread b.now)

end Mm

end Sos
