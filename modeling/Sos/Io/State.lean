import Sos.Process
import Sos.Datastructures.CircularBuffer

/-!
# `Sos.Io.State`: what the file system of the server runs on

The data of `io/io.h` and of the file tables in `process.h`. A `file_info` is never freed,
so that all of them are in a table (`files`), indexed by their addresses. A
`file_table_entry` is allocated when a file is opened and freed when it is closed: `entries`
holds the ones that are allocated. `malloc` hands out a fresh address each time. Reading or
freeing an entry that is not allocated is an invalid access, and so is following a null
pointer.

The file cache is the list of the entries of the array that are in use; its length is
`file_cache_next_entry`.

The requests to the NFS server that have not been answered are `rpcs`. The token of a
request is the address it was sent with: of a `file_info` for `nfs_create` and `nfs_lookup`,
of a `file_table_entry` for `nfs_read` and `nfs_write`.
-/

set_option autoImplicit false

namespace Sos

/-! ### Constants (`io_shared.h`, `io.h`, `sos_shared.h`, `process_shared.h`) -/

def fmWrite : Nat := 1
def fmRead : Nat := 2
def fmExec : Nat := 4
def oRdonly : Nat := fmRead
def oWronly : Nat := fmWrite
def oRdwr : Nat := fmRead ||| fmWrite

def stFile : Nat := 1
def stSpecial : Nat := 2

def processMaxFiles : Nat := 16
def maxPathLength : Nat := 255
def dirCacheSize : Nat := 0x100
def ipcMemorySize : Nat := 0x10000
def readBufferSize : Nat := 0x1000
def swapFd : Nat := 1

def sosOpen : Int := 0
def sosRead : Int := 1
def sosWrite : Int := 2

def executableNotFound : Int := -1
def processTableFull : Int := -2
def fileNotExecutable : Int := -3
def fileTooBig : Int := -4

/-- `CREATE_SYSCALL_NR`. -/
def createSyscallNr (number : Int) : Int := number * 16

/-! ### The heap of the network stack (`lwipopts.h`, `core/mem.c`, `core/pbuf.c`) -/

/-- `MEM_SIZE`. -/
def memSize : Nat := 0x10000

/-- `SIZEOF_STRUCT_MEM`: the header of a block. -/
def sizeofStructMem : Nat := 12

/-- `sizeof(struct pbuf)`. -/
def sizeofPbuf : Nat := 40

/-- `PBUF_TRANSPORT_HLEN`, `PBUF_IP_HLEN` and `PBUF_LINK_HLEN`. -/
def pbufHeaderLen : Nat := 20 + 20 + 16

/-- `MEM_ALIGN_SIZE`. -/
def memAlignSize (size : Nat) : Nat := (size + 3) / 4 * 4

/-- What `pbuf_alloc` asks `mem_malloc` for. Its parameter `size` has 16 bits. -/
def pbufSize (size : Nat) : Nat := memAlignSize (sizeofPbuf + size % 2 ^ 16 + pbufHeaderLen)

/-- `mem_malloc` can serve this in an empty heap: it needs room for the header of the block and
for the header of the rest. -/
def PbufFits (size : Nat) : Prop := pbufSize size + 2 * sizeofStructMem ≤ memSize

instance (size : Nat) : Decidable (PbufFits size) := inferInstanceAs (Decidable (_ ≤ _))

/-! ### Files -/

/-- `stat_t`. -/
structure Stat where
  stType : Nat
  stFmode : Nat
  stSize : Nat
  stCtime : Nat
  stAtime : Nat
deriving DecidableEq, Repr

/-- Which functions the pointers `open`, `read`, `write` and `close` of a `file_info` are:
those of `io_serial.c`, or those of `io_nfs.c`, which has no `close`. -/
inductive Device
  | serial
  | nfs
deriving DecidableEq, Repr

/-- `file_info` of `io.h`. There is one serial device, with one circular buffer. -/
structure FileInfo where
  filename : List UInt8
  status : Stat
  creationPending : Bool
  reader : ThreadId
  /-- `serial_handle` is not the null pointer. -/
  serialHandle : Bool
  nfsHandle : Nat
  device : Device
deriving DecidableEq

/-- `file_table_entry` of `io.h`. `file` and `clientBuffer` are `none` for the null pointer. -/
structure FileTableEntry where
  file : Option Nat
  owner : ThreadId
  mode : Nat
  awaitsCallback : Bool
  clientBuffer : Option Nat
  toRead : Nat
  toWrite : Nat
  writePosition : Nat
  readPosition : Nat
deriving DecidableEq

/-! ### The NFS server -/

/-- What the server uses of `fattr_t`. -/
structure Fattr where
  mode : Nat
  size : Nat
  atime : Nat
  ctime : Nat
deriving DecidableEq, Repr

/-- A request that has not been answered. -/
inductive Rpc
  | create (file : Nat)
  | lookup (file : Nat)
  | readdir (cookie : Int)
  | read (entry : Nat) (handle position count : Nat)
  | write (entry : Nat) (handle position count : Nat)
deriving DecidableEq

/-- The answer to a request: what the callback is called with. Each request has its own part
of this record. -/
structure NfsReply where
  status : NfsStatus
  handle : Nat
  attr : Fattr
  bytesRead : Nat
  data : Nat → UInt8
  filenames : List (List UInt8)
  nextCookie : Int
  /-- How many more buffers for requests the network stack has while the callback runs. This
  is not in the answer: it depends on what else is in the heap of the stack. -/
  buffers : Nat

/-! ### The state -/

/-- A piece of the client's memory that the server reads or, with `data`, writes. -/
structure Access where
  addr : Nat
  length : Nat
  data : Option (Nat → UInt8)

/-- The state of the file system. `outbox`, `accesses` and `messages` record what one step
does: the replies it sends, the memory of clients it reads and writes, and the lengths of
the messages of `nfs_write`. -/
structure Io where
  fileCache : List Nat
  fileCacheInitialized : Bool
  files : Nat → FileInfo
  nextFile : Nat
  entries : Nat → Option FileTableEntry
  nextEntry : Nat
  filetable : Nat → Nat → Option Nat
  console : CircularBuffer
  rpcs : List Rpc
  outbox : List Event
  accesses : List Access
  messages : List Nat

/-- The memory behind the client's IPC page: its address in the server, and its contents. -/
structure IpcPage where
  addr : Nat
  bytes : Nat → UInt8

/-- The string at the start of a buffer, cut off after `n` characters. -/
def cString (bytes : Nat → UInt8) (n : Nat) : List UInt8 :=
  ((List.range n).map bytes).takeWhile (· ≠ 0)

namespace Io

/-- `send_ipc_reply`. -/
def sendIpcReply (s : Io) (recipient : ThreadId) (label : Int) (words : List Int) : Io :=
  { s with outbox := s.outbox ++ [.reply recipient label words] }

def updateFile (s : Io) (file : Nat) (f : FileInfo → FileInfo) : Io :=
  { s with files := Function.update s.files file (f (s.files file)) }

/-- Overwrites an allocated entry. -/
def setEntry (s : Io) (entry : Nat) (f : FileTableEntry) : Io :=
  { s with entries := Function.update s.entries entry (some f) }

/-- `malloc` of a `file_table_entry` with these contents. -/
def allocEntry (s : Io) (f : FileTableEntry) : Io × Nat :=
  ({ s with
      entries := Function.update s.entries s.nextEntry (some f)
      nextEntry := s.nextEntry + 1 }, s.nextEntry)

/-- `malloc` of a `file_info` with these contents. -/
def allocFile (s : Io) (f : FileInfo) : Io × Nat :=
  ({ s with
      files := Function.update s.files s.nextFile f
      nextFile := s.nextFile + 1 }, s.nextFile)

/-- `free` of a `file_table_entry`, which has to be allocated. -/
def freeEntry (s : Io) (entry : Nat) : Option Io := do
  let _ ← s.entries entry
  some { s with entries := Function.update s.entries entry none }

/-- Stores a pointer in a file table. -/
def setFiletable (s : Io) (pid fd : Nat) (entry : Option Nat) : Io :=
  { s with
    filetable := Function.update s.filetable pid
      (Function.update (s.filetable pid) fd entry) }

/-- The server reads or writes memory of a client. -/
def access (s : Io) (addr length : Nat) (data : Option (Nat → UInt8)) : Io :=
  { s with accesses := s.accesses ++ [⟨addr, length, data⟩] }

end Io

end Sos
