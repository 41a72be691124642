import Sos.Io.File
import Sos.Mm.Step
import Sos.Lib.Machine

/-!
# `Sos.Io.Step`: the file system of the server as a state machine

The actions are the messages that reach the file system: the system calls of processes, the
answers of the NFS server to the outstanding requests, in any order, and the characters that
arrive on the console. Processes are created in any free slot of the process table, and any
process is deleted at any time. A process can send a message while an earlier one of it has
not been answered.

The initializing thread waits in `io_init` until the directory has been listed, and starts
the first process after that.
-/

set_option autoImplicit false

namespace Sos

/-- The file system, with what it looks up in the process table. -/
structure FileServer where
  io : Io
  isActive : Nat → Bool
  tid : Nat → ThreadId

inductive FileAction
  /-- Process `p` sends `SOS_OPEN` with these words; `page` is its IPC page. -/
  | openFile (p : Nat) (words : List Nat) (page : Option IpcPage)
  | readFile (p : Nat) (words : List Nat) (page : Option IpcPage)
  | writeFile (p : Nat) (words : List Nat) (page : Option IpcPage) (allocated : Bool)
  | closeFile (p : Nat) (words : List Nat)
  /-- The NFS server answers the `k`-th outstanding request. -/
  | nfsReply (k : Nat) (reply : NfsReply)
  /-- A character arrives on the console. -/
  | serialReceive (c : UInt8)
  /-- `create_process` for the name in `page`, in slot `p`; `heap` is what is in the memory
  that `malloc` returns for descriptor 0. -/
  | createProcess (p : Nat) (page : Option IpcPage) (heap : FileTableEntry)
  /-- Process `p` is deleted. -/
  | deleteProcess (p : Nat)

namespace Io

/-- The state before the next message: nothing has been sent, read or written yet. -/
def cleared (s : Io) : Io := { s with outbox := [], accesses := [], messages := [] }

/-- The `k`-th outstanding request is answered. -/
def nfsReply (isActive : Nat → Bool) (s : Io) (k : Nat) (r : NfsReply) : Option Io := do
  let rpc ← s.rpcs[k]?
  { s with rpcs := s.rpcs.eraseIdx k }.callback isActive rpc r

/-- The file system in the static, zeroed memory of the server. -/
def zeroed : Io where
  fileCache := []
  fileCacheInitialized := false
  files _ :=
    { filename := []
      status := { stType := 0, stFmode := 0, stSize := 0, stCtime := 0, stAtime := 0 }
      creationPending := false
      reader := nilthread
      serialHandle := false
      nfsHandle := 0
      device := .nfs }
  nextFile := 0
  entries _ := none
  nextEntry := 0
  filetable _ _ := none
  console :=
    { readPosition := 0, writePosition := 0, buffer := fun _ => 0, size := 0, overflow := false }
  rpcs := []
  outbox := []
  accesses := []
  messages := []

end Io

namespace FileServer

/-- Process `p` runs. A slot whose thread id `register_process` has overwritten has no
thread. -/
def Live (s : FileServer) (p : Nat) : Prop :=
  1 ≤ p ∧ p < maxRunningProcess ∧ s.isActive p = true ∧ s.tid p = threadId p

instance (s : FileServer) (p : Nat) : Decidable (s.Live p) := by
  unfold Live
  infer_instance

/-- The caller is a process, the slot of a new process is free, and words have 32 bits. -/
def Enabled (s : FileServer) : FileAction → Prop
  | .openFile p words _ => s.Live p ∧ ∀ word ∈ words, word < 2 ^ 32
  | .readFile p words _ => s.Live p ∧ ∀ word ∈ words, word < 2 ^ 32
  | .writeFile p words _ _ => s.Live p ∧ ∀ word ∈ words, word < 2 ^ 32
  | .closeFile p words => s.Live p ∧ ∀ word ∈ words, word < 2 ^ 32
  | .nfsReply k _ => k < s.io.rpcs.length
  | .serialReceive _ => True
  | .createProcess p _ _ =>
    1 ≤ p ∧ p < maxRunningProcess ∧ s.isActive p = false ∧ s.io.fileCacheInitialized = true
  | .deleteProcess p => s.Live p

instance (s : FileServer) (a : FileAction) : Decidable (s.Enabled a) := by
  cases a with
  | openFile => exact inferInstanceAs (Decidable (_ ∧ _))
  | readFile => exact inferInstanceAs (Decidable (_ ∧ _))
  | writeFile => exact inferInstanceAs (Decidable (_ ∧ _))
  | closeFile => exact inferInstanceAs (Decidable (_ ∧ _))
  | nfsReply => exact inferInstanceAs (Decidable (_ < _))
  | serialReceive => exact inferInstanceAs (Decidable True)
  | createProcess => exact inferInstanceAs (Decidable (_ ∧ _))
  | deleteProcess p => exact inferInstanceAs (Decidable (s.Live p))

/-- The thread id that `register_process` leaves in slot `p`. -/
def newTid (p : Nat) (name : List UInt8) : ThreadId :=
  if name.length < nName then threadId p else { overflowTid (threadId p) with version := 1 }

/-- The part of `create_process` that concerns the file system. -/
def createProcess (null : Option (List UInt8)) (s : FileServer) (p : Nat)
    (page : Option IpcPage) (heap : FileTableEntry) : Option FileServer := do
  match ← s.io.findExecutable null page with
  | .error _ => some s
  | .ok name =>
    some
      { io := s.io.registerFiletable p (newTid p name) heap
        isActive := Function.update s.isActive p true
        tid := Function.update s.tid p (newTid p name) }

/-- Handles one message. `none` is a failed assertion or an invalid access. -/
def exec (null : Option (List UInt8)) (s : FileServer) : FileAction → Option FileServer
  | .openFile p words page => (s.io.openFile null (threadId p) words page).map ({ s with io := · })
  | .readFile p words page =>
    (s.io.readFile (threadId p) words page).map ({ s with io := ·.1 })
  | .writeFile p words page allocated =>
    (s.io.writeFile (threadId p) words page allocated).map ({ s with io := ·.1 })
  | .closeFile p words => (s.io.closeFile (threadId p) words).map ({ s with io := ·.1 })
  | .nfsReply k r => (s.io.nfsReply s.isActive k r).map ({ s with io := · })
  | .serialReceive c => (s.io.serialReceiveHandler c).map ({ s with io := · })
  | .createProcess p page heap => s.createProcess null p page heap
  | .deleteProcess p =>
    (s.io.closeFiles p (threadId p)).map fun io =>
      { s with io := io, isActive := Function.update s.isActive p false }

/-- The file system when `io_init` has sent its requests. `heap` is what is in the memory of
descriptor 0 of the server's own entry in the process table. -/
def boot (rootThread : ThreadId) (heap : FileTableEntry) : Option FileServer :=
  ((Io.zeroed.registerFiletable 0 ⟨0, 1⟩ heap).ioInit rootThread).map fun io =>
    { io := io
      isActive := fun p => p == 0
      tid := fun p => if p = 0 then rootThread else ⟨p <<< reservedIdBits, 0⟩ }

/-- The file system, from `io_init` on. -/
def machine (null : Option (List UInt8)) : Lib.Machine FileServer FileAction where
  init s := ∃ rootThread heap, boot rootThread heap = some s
  step s a := if s.Enabled a then { s with io := s.io.cleared }.exec null a else none

/-- A step of the machine is an enabled action that returns. -/
theorem step_eq_some {null : Option (List UInt8)} {s s' : FileServer} {a : FileAction}
    (h : (machine null).step s a = some s') :
    s.Enabled a ∧ { s with io := s.io.cleared }.exec null a = some s' :=
  Option.ite_none_right_eq_some.mp h

end FileServer

end Sos
