import Sos.Io.Serial
import Sos.Io.Nfs

/-!
# `Sos.Io.File`: the system calls for files

The handlers of `io/io.c` and what `process.c` does with the file table of a process when it
is created and deleted. A handler gets the thread that calls, the untyped words of its
message, and the memory behind its IPC page, `none` when that is not mapped. `open_file`,
`read_file` and `write_file` leave the reply to the device. A descriptor and a length are
words, and the code converts them to `int`; as words the valid descriptors are the same.
-/

set_option autoImplicit false

namespace Sos.Io

/-! ### System calls -/

/-- The function behind the pointer `open` of a file. -/
def openDevice (s : Io) (file : Nat) (tid : ThreadId) (mode : Nat) : Io :=
  match (s.files file).device with
  | .serial => s.openSerial file tid mode
  | .nfs => s.openNfs file tid mode

/-- `open_file`. -/
def openFile (null : Option (List UInt8)) (s : Io) (tid : ThreadId) (words : List Nat)
    (buf : Option IpcPage) : Option Io :=
  match buf, words with
  | some page, [word] =>
    let mode := word % 2 ^ 8
    if mode ≠ oRdonly ∧ mode ≠ oRdwr ∧ mode ≠ oWronly then
      some (s.sendIpcReply tid sosOpen [-1])
    else do
      let name := cString page.bytes maxPathLength
      match ← s.findFile null name with
      | none => some (s.createNfs name tid mode).1
      | some index =>
        let file ← s.fileCache[index]?
        some (s.openDevice file tid mode)
  | _, _ => some (s.sendIpcReply tid sosOpen [-1])

/-- The function behind the pointer `read` of a file. -/
def readDevice (s : Io) (entry : Nat) (device : Device) : Option Io :=
  match device with
  | .serial => s.readSerial entry
  | .nfs => s.readNfs entry

/-- `read_file`. -/
def readFile (s : Io) (tid : ThreadId) (words : List Nat) (buf : Option IpcPage) :
    Option (Io × Reply) :=
  match buf, words with
  | some page, [fd, toRead] => do
    match ← s.canRead tid fd with
    | none => some (s, some [-1])
    | some (entry, f) =>
      let s := s.setEntry entry { f with toRead := toRead, clientBuffer := some page.addr }
      let file ← f.file
      let s ← s.readDevice entry (s.files file).device
      some (s, none)
  | _, _ => some (s, some [-1])

/-- The function behind the pointer `write` of a file. -/
def writeDevice (s : Io) (entry : Nat) (device : Device) (allocated : Bool) : Option Io :=
  match device with
  | .serial => s.writeSerial entry allocated
  | .nfs => s.writeNfs entry allocated

/-- `write_file`. The length is compared as a signed value. -/
def writeFile (s : Io) (tid : ThreadId) (words : List Nat) (buf : Option IpcPage)
    (allocated : Bool) : Option (Io × Reply) :=
  match buf, words with
  | some page, [fd, toWrite] => do
    match ← s.canWrite tid fd with
    | none => some (s, some [-1])
    | some (entry, f) =>
      if toInt32 toWrite > ipcMemorySize then some (s, some [-1])
      else
        let s := s.setEntry entry { f with toWrite := toWrite, clientBuffer := some page.addr }
        let file ← f.file
        let s ← s.writeDevice entry (s.files file).device allocated
        some (s, none)
  | _, _ => some (s, some [-1])

/-- The function behind the pointer `close` of a file, which is null for NFS files. -/
def closeDevice (s : Io) (entry : Nat) (device : Device) : Option Io :=
  match device with
  | .serial => s.closeSerial entry
  | .nfs => some s

/-- `close_file`. -/
def closeFile (s : Io) (tid : ThreadId) (words : List Nat) : Option (Io × Reply) :=
  match words with
  | [fd] =>
    match s.isValidFiledescriptor tid fd with
    | none => some (s, some [-1])
    | some entry => do
      let f ← s.entries entry
      let file ← f.file
      let s ← s.closeDevice entry (s.files file).device
      let s ← s.freeEntry entry
      some (s.setFiletable (tid2pid tid) fd none, some [0])
  | _ => some (s, some [-1])

/-- `stat_file`: the reply, and the status that is copied to the IPC page. -/
def statFile (null : Option (List UInt8)) (s : Io) (words : List Nat) (buf : Option IpcPage) :
    Option (Reply × Option Stat) :=
  match buf, words with
  | some page, [] => do
    match ← s.findFile null (cString page.bytes maxPathLength) with
    | some index =>
      let file ← s.fileCache[index]?
      some (some [0], some (s.files file).status)
    | none => some (some [-1], none)
  | _, _ => some (some [-1], none)

/-- `get_dirent`: the reply, and the name that is copied to the IPC page. -/
def getDirent (s : Io) (words : List Nat) (buf : Option IpcPage) :
    Option (Reply × Option (List UInt8)) :=
  match buf, words with
  | some _, [pos] =>
    if pos = s.fileCache.length then some (some [0], none)
    else if pos > s.fileCache.length then some (some [-1], none)
    else do
      let file ← s.fileCache[pos]?
      some (some [((s.files file).filename.length : Nat)], some (s.files file).filename)
  | _, _ => some (some [-1], none)

/-! ### Processes -/

/-- The checks of `create_process`: the name of the executable, or the error that the handler
replies. -/
def findExecutable (null : Option (List UInt8)) (s : Io) (buf : Option IpcPage) :
    Option (Except Int (List UInt8)) :=
  match buf with
  | none => some (.error executableNotFound)
  | some page => do
    let name := cString page.bytes nName
    match ← s.findFile null name with
    | none => some (.error executableNotFound)
    | some index => do
      let file ← s.fileCache[index]?
      let status := (s.files file).status
      if status.stFmode &&& fmExec = 0 then some (.error fileNotExecutable)
      else if status.stSize > oneMegabyte * 4 then some (.error fileTooBig)
      else some (.ok name)

/-- The file table in `register_process`. Descriptor 0 is for writing to the console. The
fields of its entry that are not set keep what `malloc` has returned (`heap`). -/
def registerFiletable (s : Io) (pid : Nat) (tid : ThreadId) (heap : FileTableEntry) : Io :=
  let s := { s with filetable := Function.update s.filetable pid fun _ => none }
  let (s, entry) := s.allocEntry
    { heap with
      file := s.fileCache.head?
      mode := fmWrite
      owner := tid
      toRead := 0
      clientBuffer := none }
  s.setFiletable pid 0 (some entry)

/-- One turn of the loop over the file table in `delete_process`. -/
def closeEntry (pid : Nat) (tid : ThreadId) (s : Io) (fd : Nat) : Option Io :=
  match s.filetable pid fd with
  | none => some s
  | some entry => do
    let f ← s.entries entry
    if f.awaitsCallback then some (s.setEntry entry { f with awaitsCallback := false })
    else do
      let file ← f.file
      let s := if (s.files file).reader = tid then
          s.updateFile file fun i => { i with reader := nilthread }
        else s
      let s ← s.freeEntry entry
      some (s.setFiletable pid fd none)

/-- The loop over the file table in `delete_process`. -/
def closeFiles (s : Io) (pid : Nat) (tid : ThreadId) : Option Io :=
  (List.range processMaxFiles).foldlM (closeEntry pid tid) s

/-- `io_init`. The first `nfs_readdir` is sent here. -/
def ioInit (s : Io) (rootThread : ThreadId) : Option Io := do
  let s := { s with
    console :=
      { readPosition := 0
        writePosition := 0
        buffer := s.console.buffer
        size := readBufferSize
        overflow := false } }
  let (s, console) := s.allocFile
    { filename := "console".toUTF8.toList
      status :=
        { stType := stSpecial, stFmode := fmRead ||| fmWrite, stSize := 0, stCtime := 0,
          stAtime := 0 }
      creationPending := false
      reader := nilthread
      serialHandle := true
      nfsHandle := 0
      device := .serial }
  let s ← s.fileCacheInsert console
  let (s, swap) := s.createNfs "swap".toUTF8.toList nilthread 0
  let (s, entry) := s.createFileDescriptor swap rootThread (fmRead ||| fmWrite)
  let s := s.setFiletable 0 swapFd (some entry)
  some { s with rpcs := s.rpcs ++ [.readdir 0] }

end Sos.Io
