import Sos.Mm.Frames

/-!
# `Sos.Mm.State`: what the pager and the swapper run on

One record holds what `mm/pager.c`, `mm/swapper.c`, `mm/frames.c` and the memory side of
`process.c` read and write: the process table with the page tables, the frame table, the
bit field of the swap file and the two page queues. It also holds the parts of the world
that code acts on: each thread's hardware mappings, the physical memory, the outstanding
NFS requests for the swap file and the file itself, and which threads are blocked.

A `page_queue_item` is identified by its address (`id`), which is the token of its NFS
requests. `malloc` hands out a fresh one each time (`nextItem`). The two tail queues are
lists of items, first element first.

The file table of a process (`filetable`) is not here; the pager never reads it.
-/

set_option autoImplicit false

namespace Sos

/-- A second level page table: the words of its entries. -/
abbrev SecondLevelTable : Type := Nat → Nat

/-- A first level page table: for each entry a null pointer or a second level table. -/
abbrev PageDirectory : Type := Nat → Option SecondLevelTable

/-- `process` of `process.h`. `pageIndex` is `none` for the null pointer. -/
structure Process where
  initialized : Bool
  isActive : Bool
  command : List UInt8
  tid : ThreadId
  waitFor : ThreadId
  size : Nat
  startTime : Nat
  pageIndex : Option PageDirectory

def maxRunningProcess : Nat := 128
def nName : Nat := 32
def reservedIdBits : Nat := 10

/-- `page_queue_item` of `swapper.h`. -/
structure PageQueueItem where
  id : Nat
  processDeleted : Bool
  tid : ThreadId
  virtualAddress : Nat
  swapOffset : Int
  toSwap : Int
  initiator : ThreadId

/-- `BATCH_SIZE`: bytes per NFS request for the swap file. -/
def batchSize : Nat := 512

def maxSwapEntries : Nat := 5000

/-- An NFS request for the swap file that has not been answered. A write carries the bytes
`nfs_write` copied into its packet. -/
inductive SwapRequest
  | write (token : Nat) (offset : Int) (data : Nat → UInt8)
  | read (token : Nat) (offset : Int) (count : Nat)

/-- The page queue item a request was sent for. -/
def SwapRequest.token : SwapRequest → Nat
  | .write token _ _ => token
  | .read token _ _ => token

def SwapRequest.isWrite : SwapRequest → Bool
  | .write _ _ _ => true
  | .read _ _ _ => false

inductive NfsStatus
  | ok
  | noSpace
  | error
deriving DecidableEq, Repr

/-- What can be seen of the server from outside during one step: the IPC messages it sends,
the calls of `L4_KDB_Enter`, and the processes it deletes. -/
inductive Event
  | reply (recipient : ThreadId) (label : Int) (words : List Int)
  | kdbEnter (message : String)
  | deleted (pid : Nat)
deriving DecidableEq

/-- `L4_PAGEFAULT`, the label of page fault messages and of the answers to them. -/
def pagefaultLabel : Int := -2

def sosProcessWait : Int := 11

/-- The state of the server's memory management and of what it acts on. -/
structure Mm where
  ptable : Nat → Process
  nextTask : Nat
  frames : FrameTable
  swapBitfield : Bitfield
  activePages : List PageQueueItem
  swappingPages : List PageQueueItem
  nextItem : Nat
  hw : ThreadId → Nat → Option HwMapping
  phys : Nat → UInt8
  requests : List SwapRequest
  swapFile : Int → UInt8
  wait : ThreadId → Wait
  outbox : List Event

/-! ### Thread ids and the process table -/

/-- `tid2pid`. -/
def tid2pid (tid : ThreadId) : Nat := tid.threadNo >>> reservedIdBits

/-- The thread id the user process in slot `p` runs under: `process_init` gives the slot
thread number `p << RESERVED_ID_BITS`, `register_process` sets version 1. -/
def threadId (p : Nat) : ThreadId := ⟨p <<< reservedIdBits, 1⟩

/-- A thread id names its process. -/
theorem tid2pid_threadId (p : Nat) : tid2pid (threadId p) = p := by
  simp [tid2pid, threadId, Nat.shiftLeft_shiftRight]

/-- Different processes have different thread ids. -/
theorem threadId_inj {p q : Nat} (h : threadId p = threadId q) : p = q := by
  have := congrArg tid2pid h
  rwa [tid2pid_threadId, tid2pid_threadId] at this

/-- No process has the thread id that stands for nobody. -/
theorem threadId_ne_nilthread (p : Nat) : threadId p ≠ nilthread := by
  intro h
  cases congrArg ThreadId.version h

/-- A process's page table entry for an address: 0 where there is no second level table. -/
def Process.pte (p : Process) (addr : Nat) : Nat :=
  match p.pageIndex with
  | none => 0
  | some directory =>
    match directory (firstLevelIndex addr) with
    | none => 0
    | some table => table (secondLevelIndex addr)

/-- Overwrites a page table entry. Without a second level table nothing changes. -/
def Process.setPte (p : Process) (addr word : Nat) : Process :=
  match p.pageIndex with
  | none => p
  | some directory =>
    match directory (firstLevelIndex addr) with
    | none => p
    | some table =>
      { p with
        pageIndex := some (Function.update directory (firstLevelIndex addr)
          (some (Function.update table (secondLevelIndex addr) word))) }

namespace Mm

/-- `get_process`. The indices from `maxRunningProcess` on, which the code asserts are not
asked for, hold inactive entries. -/
def getProcess (s : Mm) (tid : ThreadId) : Process := s.ptable (tid2pid tid)

def updateProcess (s : Mm) (tid : ThreadId) (f : Process → Process) : Mm :=
  { s with ptable := Function.update s.ptable (tid2pid tid) (f (s.getProcess tid)) }

/-! ### Kernel calls -/

/-- `L4_UnmapFpage` of one page. -/
def unmapFpage (s : Mm) (tid : ThreadId) (virtualAddress : Nat) : Mm :=
  { s with
    hw := fun t v => if t = tid ∧ v = virtualAddress then none else s.hw t v }

/-- `L4_MapFpage` of one page. The kernel takes empty rights as a request to unmap. When it
has no memory for the mapping (`ok` false) it removes what was there and reports failure. -/
def mapFpage (s : Mm) (tid : ThreadId) (virtualAddress frame rights : Nat) (ok : Bool) :
    Mm × Bool :=
  if rights = 0 then (s.unmapFpage tid virtualAddress, true)
  else if ok then
    ({ s with
        hw := fun t v =>
          if t = tid ∧ v = virtualAddress then some ⟨frame, rights⟩ else s.hw t v }, true)
  else (s.unmapFpage tid virtualAddress, false)

/-- `send_ipc_reply`: sends an IPC to a thread, which stops waiting. -/
def sendIpcReply (s : Mm) (recipient : ThreadId) (label : Int) (words : List Int) : Mm :=
  { s with
    outbox := s.outbox ++ [.reply recipient label words]
    wait := Function.update s.wait recipient .ready }

/-- `L4_KDB_Enter`. -/
def kdbEnter (s : Mm) (message : String) : Mm :=
  { s with outbox := s.outbox ++ [.kdbEnter message] }

end Mm

/-! ### Physical memory -/

def memset (mem : Nat → UInt8) (dest : Nat) (value : UInt8) (count : Nat) : Nat → UInt8 :=
  fun a => if dest ≤ a ∧ a < dest + count then value else mem a

def memcpy (mem : Nat → UInt8) (dest : Nat) (data : Nat → UInt8) (count : Nat) :
    Nat → UInt8 :=
  fun a => if dest ≤ a ∧ a < dest + count then data (a - dest) else mem a

namespace Mm

/-- `frame_alloc`: takes a frame and fills it with zeroes; 0 when there is none. -/
def frameAlloc (s : Mm) : Option (Mm × Nat) := do
  let (frames, frame) ← s.frames.frameAlloc
  if frame = 0 then some ({ s with frames := frames }, 0)
  else some ({ s with frames := frames, phys := memset s.phys frame 0 pageSize }, frame)

/-- `frame_free`. -/
def frameFree (s : Mm) (frame : Nat) : Option Mm := do
  let frames ← s.frames.frameFree frame
  some { s with frames := frames }

/-! ### Page tables (`pager.c`) -/

/-- `pager_table_lookup`: the page table entry of an address, `none` when there is no
second level table. For a process without a first level table (`page_index` is null) the
code computes an address near 0 and reads it; that is `none` here too. -/
def pagerTableLookup (s : Mm) (tid : ThreadId) (addr : Nat) : Option Nat := do
  let directory ← (s.getProcess tid).pageIndex
  let table ← directory (firstLevelIndex addr)
  some (table (secondLevelIndex addr))

/-- `pager_physical_lookup`. Where the code follows a null pointer this is `none`. -/
def pagerPhysicalLookup (s : Mm) (tid : ThreadId) (addr : Nat) : Option Nat := do
  let pte ← s.pagerTableLookup tid addr
  some (clearLowerBits pte)

/-- Stores a word in the page table entry of an address. -/
def setPte (s : Mm) (tid : ThreadId) (addr word : Nat) : Mm :=
  s.updateProcess tid fun p => p.setPte addr word

/-- `mark_dirty`, with its assertion that the page is not swapped out. -/
def markDirty (s : Mm) (tid : ThreadId) (addr : Nat) : Option Mm := do
  let current ← s.pagerTableLookup tid addr
  if isSwapped current then none
  else some (s.setPte tid addr (current ||| 0x2))

/-- The part of `virtual_mapping` that calls `create_second_level_table`: makes sure there
is a second level table, all zero when it is new. -/
def createSecondLevelTable (s : Mm) (tid : ThreadId) (addr : Nat) : Option Mm := do
  let directory ← (s.getProcess tid).pageIndex
  match directory (firstLevelIndex addr) with
  | some _ => some s
  | none =>
    some (s.updateProcess tid fun p =>
      { p with
        pageIndex := some (Function.update directory (firstLevelIndex addr)
          (some fun _ => 0)) })

end Mm

end Sos
