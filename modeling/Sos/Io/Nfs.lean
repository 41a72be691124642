import Sos.Io.Table

/-!
# `Sos.Io.Nfs`: files on the NFS server

`io/io_nfs.c`: the requests that the server sends, and the callbacks that run when they are
answered. `create_nfs` stores the thread that opens the file in `reader` and the mode it
asks for in `st_fmode` until the file is created.

The first section has the message that `nfs_write` of `libs/nfs` builds, as the lengths of
the pieces that are copied into it one behind the other. The buffer of a message is
`udpPayload` bytes long. `initbuf` takes it from the heap of the network stack and asserts that
there was one; it is freed when the callback of the request has returned.

`nfs_readdir_callback` can make many requests at once, and `buffers` of the answer says how
many of them get a buffer. The other functions make one request. In `write_nfs`, which reads the
client's memory once it has the buffer, `allocated` says whether there is one. In the others
the assertion holds: where it fails, the server stops and no state follows.
-/

set_option autoImplicit false

namespace Sos

/-- The modes that the owner bits of a file on the server grant. -/
def accessModes (mode : Nat) : Nat :=
  (if mode &&& 0o400 ≠ 0 then fmRead else 0) ||| (if mode &&& 0o200 ≠ 0 then fmWrite else 0) |||
    (if mode &&& 0o100 ≠ 0 then fmExec else 0)

/-! ### The messages of the RPC library -/

/-- `UDP_PAYLOAD`: what `initbuf` allocates for a message. -/
def udpPayload : Nat := 1200

/-- How many buffers of `initbuf` the heap of the network stack holds when nothing else is in
it: each is a block with a header, and there is a header behind the last one. -/
def maxRequests : Nat := (memSize - sizeofStructMem) / (sizeofStructMem + pbufSize udpPayload)

example : maxRequests = 50 := rfl

/-- A signed 32-bit value as the length of a `memcpy`. -/
def sizeT (count : Int) : Nat := (count % 2 ^ 32).toNat

/-- `adddata`: the length, the data and the fill. -/
def adddataLengths (size : Int) : List Nat :=
  [4, sizeT size] ++ if size.tmod 4 ≠ 0 then [sizeT (4 - size.tmod 4)] else []

/-- `initbuf`: the transaction id, the type of the call, the call body, the credentials with
the stamp, the name of the machine and three ids, and the verifier. -/
def initbufLengths : List Nat := [4, 4, 16, 8, 4] ++ adddataLengths 5 ++ [4, 4, 4, 8]

/-- `nfs_write`: `writeargs_t` is a file handle of 32 bytes and three words. -/
def nfsWriteLengths (count : Int) : List Nat := initbufLengths ++ [44] ++ adddataLengths count

namespace Io

/-! ### Opening and creating files -/

/-- `nfs_set_status`. -/
def nfsSetStatus (s : Io) (file : Nat) (r : NfsReply) : Option Io :=
  let s := s.updateFile file fun f => { f with nfsHandle := r.handle }
  match r.status with
  | .ok =>
    (s.updateFile file fun f =>
      { f with
        status :=
          { stType := stFile
            stFmode := accessModes r.attr.mode
            stSize := r.attr.size
            stCtime := r.attr.ctime / 1000
            stAtime := r.attr.atime / 1000 } }).fileCacheInsert file
  | _ => some s

/-- `open_nfs`. -/
def openNfs (s : Io) (file : Nat) (tid : ThreadId) (mode : Nat) : Io :=
  match s.findFreeFileSlot (tid2pid tid) with
  | none => s.sendIpcReply tid sosOpen [-1]
  | some fd =>
    if mode &&& (s.files file).status.stFmode = mode then
      let (s, entry) := s.createFileDescriptor file tid mode
      (s.setFiletable (tid2pid tid) fd (some entry)).sendIpcReply tid sosOpen [fd]
    else s.sendIpcReply tid sosOpen [-1]

/-- `create_nfs`. The fields of the status that it does not set get their values when the
request is answered. -/
def createNfs (s : Io) (name : List UInt8) (recipient : ThreadId) (mode : Nat) : Io × Nat :=
  let (s, file) := s.allocFile
    { filename := name
      status := { stType := 0, stFmode := mode, stSize := 0, stCtime := 0, stAtime := 0 }
      creationPending := true
      reader := recipient
      serialHandle := false
      nfsHandle := 0
      device := .nfs }
  ({ s with rpcs := s.rpcs ++ [.create file] }, file)

/-- The cases of `nfs_create_callback`. The thread that opens the file and its mode are still
in `reader` and `st_fmode`. -/
def nfsCreateStatus (isActive : Nat → Bool) (s : Io) (file : Nat) (r : NfsReply) :
    Option Io :=
  let mode := (s.files file).status.stFmode
  let reader := (s.files file).reader
  match r.status with
  | .ok => do
    let s ← s.nfsSetStatus file r
    some (if isActive (tid2pid reader) then s.openNfs file reader mode else s)
  | _ => some (if isActive (tid2pid reader) then s.sendIpcReply reader sosOpen [-1] else s)

/-- `nfs_create_callback`. -/
def nfsCreateCallback (isActive : Nat → Bool) (s : Io) (file : Nat) (r : NfsReply) :
    Option Io := do
  let s ← s.nfsCreateStatus isActive file r
  some (s.updateFile file fun f => { f with reader := nilthread })

/-! ### Reading and writing -/

/-- `read_nfs`. -/
def readNfs (s : Io) (entry : Nat) : Option Io := do
  let f ← s.entries entry
  let file ← f.file
  let s := { s with
    rpcs := s.rpcs ++ [Rpc.read entry (s.files file).nfsHandle f.readPosition f.toRead] }
  some (s.setEntry entry { f with awaitsCallback := true })

/-- `nfs_read_callback`. An entry whose process was deleted is freed. -/
def nfsReadCallback (s : Io) (entry : Nat) (r : NfsReply) : Option Io := do
  let f ← s.entries entry
  if !f.awaitsCallback then s.freeEntry entry
  else
    match r.status with
    | .ok => do
      let s := s.setEntry entry
        { f with readPosition := (f.readPosition + r.bytesRead) % 2 ^ 32 }
      let addr ← f.clientBuffer
      let s := s.access addr r.bytesRead (some r.data)
      some (s.sendIpcReply f.owner (createSyscallNr sosRead) [r.bytesRead])
    | _ => some (s.sendIpcReply f.owner (createSyscallNr sosRead) [-1])

/-- `write_nfs`, with the message that `nfs_write` builds. -/
def writeNfs (s : Io) (entry : Nat) (allocated : Bool) : Option Io := do
  let f ← s.entries entry
  let file ← f.file
  let addr ← f.clientBuffer
  if allocated then
    let s := { s with
      rpcs := s.rpcs ++ [Rpc.write entry (s.files file).nfsHandle f.writePosition f.toWrite]
      messages := s.messages ++ [(nfsWriteLengths (toInt32 f.toWrite)).sum] }
    let s := s.access addr (sizeT (toInt32 f.toWrite)) none
    some (s.setEntry entry { f with awaitsCallback := true })
  else none

/-- `nfs_write_callback`. -/
def nfsWriteCallback (s : Io) (entry : Nat) (r : NfsReply) : Option Io := do
  let f ← s.entries entry
  if !f.awaitsCallback then s.freeEntry entry
  else
    match r.status with
    | .ok => do
      let file ← f.file
      let s := s.setEntry entry { f with writePosition := (f.writePosition + f.toWrite) % 2 ^ 32 }
      let s := s.updateFile file fun i =>
        { i with status := { i.status with stSize := r.attr.size, stAtime := r.attr.atime / 1000 } }
      some (s.sendIpcReply f.owner sosWrite [f.toWrite])
    | .noSpace => some (s.sendIpcReply f.owner sosWrite [0])
    | .error => some (s.sendIpcReply f.owner sosWrite [-1])

/-! ### The directory -/

/-- One turn of the loop of `nfs_readdir_callback`, with the number of buffers that are left.
`initbuf` asserts that `nfs_lookup` gets one. -/
def readdirEntry : Io × Nat → List UInt8 → Option (Io × Nat)
  | (s, buffers), name =>
    if name.length < maxPathLength - 1 then
      let filename := name.takeWhile (· ≠ 0)
      if filename ≠ ".".toUTF8.toList ∧ filename ≠ "..".toUTF8.toList ∧
          filename ≠ "swap".toUTF8.toList then
        let (s, file) := s.allocFile
          { filename := filename
            status := { stType := 0, stFmode := fmExec, stSize := 0, stCtime := 0, stAtime := 0 }
            creationPending := true
            reader := anythread
            serialHandle := false
            nfsHandle := 0
            device := .nfs }
        if 0 < buffers then some ({ s with rpcs := s.rpcs ++ [.lookup file] }, buffers - 1)
        else none
      else some (s, buffers)
    else some (s, buffers)

/-- `nfs_readdir_callback`, with the assertion in `initbuf` for each request. -/
def nfsReaddirCallback (s : Io) (r : NfsReply) : Option Io := do
  let (s, buffers) ← (r.filenames.take dirCacheSize).foldlM readdirEntry (s, r.buffers)
  if r.nextCookie > 0 then
    if 0 < buffers then some { s with rpcs := s.rpcs ++ [.readdir r.nextCookie] } else none
  else some { s with fileCacheInitialized := true }

/-- The answer to a request: its callback runs. -/
def callback (isActive : Nat → Bool) (s : Io) (rpc : Rpc) (r : NfsReply) : Option Io :=
  match rpc with
  | .create file => s.nfsCreateCallback isActive file r
  | .lookup file => s.nfsSetStatus file r
  | .readdir _ => s.nfsReaddirCallback r
  | .read entry _ _ _ => s.nfsReadCallback entry r
  | .write entry _ _ _ => s.nfsWriteCallback entry r

end Io

end Sos
