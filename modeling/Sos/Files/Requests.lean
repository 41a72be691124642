import Sos.Files.Tables

/-!
# `Sos.Files.Requests`: the handlers and the requests of others

`s.after rpcs` is the file system in a state in which some requests have been sent before. A
handler does there what it does without them: it adds its own requests behind them, and does not
look at them. `rpcs` is in the model what the queue of the NFS library is in the server, so that
a handler that looked at it would look into the library.
-/

set_option autoImplicit false

namespace Sos

namespace Io

/-- The state with these requests before its own. -/
def after (s : Io) (rpcs : List Rpc) : Io := { s with rpcs := rpcs ++ s.rpcs }

variable {s : Io} {rpcs : List Rpc}

/-- No requests in front. -/
@[simp] theorem after_nil (s : Io) : s.after [] = s := rfl

/-- The requests that were outstanding come first. -/
@[simp] theorem rpcs_after (s : Io) (rpcs : List Rpc) : (s.after rpcs).rpcs = rpcs ++ s.rpcs := rfl

/-- Two steps in a row, the first of which moves its requests behind the others. -/
theorem bind_after {α : Type} {o : Option Io} {f g : Io → Option α} {h : α → α}
    (hf : ∀ s, f (s.after rpcs) = (g s).map h) :
    (o.map (·.after rpcs)).bind f = (o.bind g).map h := by
  cases o with
  | none => rfl
  | some s => exact hf s

/-- An update of a file looks at no request. -/
theorem updateFile_after (file : Nat) (f : FileInfo → FileInfo) :
    (s.after rpcs).updateFile file f = (s.updateFile file f).after rpcs := rfl

/-- Nor does an update of a descriptor. -/
theorem setEntry_after (entry : Nat) (f : FileTableEntry) :
    (s.after rpcs).setEntry entry f = (s.setEntry entry f).after rpcs := rfl

/-! ### Opening and creating files -/

/-- `file_cache_insert` looks at no request. -/
theorem fileCacheInsert_after (file : Nat) :
    (s.after rpcs).fileCacheInsert file = (s.fileCacheInsert file).map (·.after rpcs) := by
  unfold fileCacheInsert
  rw [show (s.after rpcs).fileCache = s.fileCache from rfl]
  split <;> rfl

/-- `open_nfs` looks at no request. -/
theorem openNfs_after (file : Nat) (tid : ThreadId) (mode : Nat) :
    (s.after rpcs).openNfs file tid mode = (s.openNfs file tid mode).after rpcs := by
  unfold openNfs
  rw [show (s.after rpcs).findFreeFileSlot (tid2pid tid) = s.findFreeFileSlot (tid2pid tid) from
    rfl]
  split
  · rfl
  · rw [show (s.after rpcs).files = s.files from rfl]
    split <;> rfl

/-- `open_serial` looks at no request. -/
theorem openSerial_after (file : Nat) (tid : ThreadId) (mode : Nat) :
    (s.after rpcs).openSerial file tid mode = (s.openSerial file tid mode).after rpcs := by
  unfold openSerial
  rw [show (s.after rpcs).findFreeFileSlot (tid2pid tid) = s.findFreeFileSlot (tid2pid tid) from
    rfl]
  split
  · rfl
  · dsimp only
    rw [show (s.after rpcs).files = s.files from rfl]
    split
    · rfl
    · split <;> rfl

/-- `create_nfs` appends its request. -/
theorem createNfs_after (name : List UInt8) (recipient : ThreadId) (mode : Nat) :
    ((s.after rpcs).createNfs name recipient mode).1 =
      (s.createNfs name recipient mode).1.after rpcs := by
  unfold createNfs after allocFile
  dsimp only
  rw [List.append_assoc]

/-- `open_file` makes the same requests behind the others, branch by branch. -/
theorem openFile_after (null : Option (List UInt8)) (tid : ThreadId) (words : List Nat)
    (buf : Option IpcPage) :
    (s.after rpcs).openFile null tid words buf =
      (s.openFile null tid words buf).map (·.after rpcs) := by
  unfold openFile
  split
  · dsimp only
    -- A bad mode, a new file, or a file of the cache, which the device opens.
    split
    · rfl
    · rw [show (s.after rpcs).findFile null = s.findFile null from rfl]
      -- The search may follow a null pointer; it does so whatever the requests are.
      cases s.findFile null (cString _ maxPathLength) with
      | none => rfl
      | some found =>
          cases found with
          | none => exact congrArg some (createNfs_after _ _ _)
          | some index =>
              rw [show (s.after rpcs).fileCache = s.fileCache from rfl, Option.bind_eq_bind,
                Option.bind_some, Option.bind_eq_bind, Option.bind_some]
              dsimp only
              cases s.fileCache[index]? with
              | none => rfl
              | some file =>
                  show some ((s.after rpcs).openDevice file tid _) = some (Io.after _ rpcs)
                  unfold openDevice
                  rw [show (s.after rpcs).files = s.files from rfl]
                  split
                  · rw [openSerial_after]
                  · rw [openNfs_after]
  · rfl

/-! ### Reading, writing and closing -/

/-- `read_serial` looks at no request. -/
theorem readSerial_after (entry : Nat) :
    (s.after rpcs).readSerial entry = (s.readSerial entry).map (·.after rpcs) := by
  unfold readSerial
  rw [show (s.after rpcs).entries = s.entries from rfl,
    show (s.after rpcs).console = s.console from rfl]
  cases s.entries entry with
  | none => rfl
  | some f =>
      rw [Option.bind_eq_bind, Option.bind_some, Option.bind_eq_bind, Option.bind_some]
      dsimp only
      split
      · cases f.clientBuffer with
        | none => rfl
        | some addr => rfl
      · rfl

/-- `read_nfs` appends its request. -/
theorem readNfs_after (entry : Nat) :
    (s.after rpcs).readNfs entry = (s.readNfs entry).map (·.after rpcs) := by
  unfold readNfs
  rw [show (s.after rpcs).entries = s.entries from rfl,
    show (s.after rpcs).files = s.files from rfl]
  cases s.entries entry with
  | none => rfl
  | some f =>
      rw [Option.bind_eq_bind, Option.bind_some, Option.bind_eq_bind, Option.bind_some]
      cases f.file with
      | none => rfl
      | some file =>
          refine congrArg some ?_
          unfold after setEntry
          dsimp only
          rw [List.append_assoc]

/-- `write_serial` looks at no request. -/
theorem writeSerial_after (entry : Nat) (allocated : Bool) :
    (s.after rpcs).writeSerial entry allocated =
      (s.writeSerial entry allocated).map (·.after rpcs) := by
  unfold writeSerial
  rw [show (s.after rpcs).entries = s.entries from rfl,
    show (s.after rpcs).files = s.files from rfl]
  -- The record, the file and the buffer are looked up before the requests matter.
  cases s.entries entry with
  | none => rfl
  | some f =>
      rw [Option.bind_eq_bind, Option.bind_some, Option.bind_eq_bind, Option.bind_some]
      cases f.file with
      | none => rfl
      | some file =>
          rw [Option.bind_some, Option.bind_some]
          split
          · cases f.clientBuffer with
            | none => rfl
            | some addr => rfl
          · rfl

/-- `write_nfs` appends its request. -/
theorem writeNfs_after (entry : Nat) (allocated : Bool) :
    (s.after rpcs).writeNfs entry allocated =
      (s.writeNfs entry allocated).map (·.after rpcs) := by
  unfold writeNfs
  rw [show (s.after rpcs).entries = s.entries from rfl,
    show (s.after rpcs).files = s.files from rfl]
  cases s.entries entry with
  | none => rfl
  | some f =>
      rw [Option.bind_eq_bind, Option.bind_some, Option.bind_eq_bind, Option.bind_some]
      cases f.file with
      | none => rfl
      | some file =>
          rw [Option.bind_some, Option.bind_some]
          cases f.clientBuffer with
          | none => rfl
          | some addr =>
              rw [Option.bind_some, Option.bind_some]
              cases allocated with
              | false => rfl
              | true =>
                  -- The new request goes behind all others.
                  refine congrArg some ?_
                  unfold after access setEntry
                  dsimp only
                  rw [List.append_assoc]

/-- So does a read of either device. -/
theorem readDevice_after (entry : Nat) (device : Device) :
    (s.after rpcs).readDevice entry device =
      (s.readDevice entry device).map (·.after rpcs) := by
  cases device with
  | serial => exact readSerial_after entry
  | nfs => exact readNfs_after entry

/-- So does a write to either device. -/
theorem writeDevice_after (entry : Nat) (device : Device) (allocated : Bool) :
    (s.after rpcs).writeDevice entry device allocated =
      (s.writeDevice entry device allocated).map (·.after rpcs) := by
  cases device with
  | serial => exact writeSerial_after entry allocated
  | nfs => exact writeNfs_after entry allocated

/-- `read_file` makes the same requests behind the others. -/
theorem readFile_after (tid : ThreadId) (words : List Nat) (buf : Option IpcPage) :
    (s.after rpcs).readFile tid words buf =
      (s.readFile tid words buf).map fun x => (x.1.after rpcs, x.2) := by
  unfold readFile
  split
  · rw [show (s.after rpcs).canRead tid = s.canRead tid from rfl]
    -- A message that is refused changes nothing.
    cases s.canRead tid _ with
    | none => rfl
    | some x =>
        cases x with
        | none => rfl
        | some ef =>
            obtain ⟨entry, f⟩ := ef
            rw [Option.bind_eq_bind, Option.bind_some, Option.bind_eq_bind, Option.bind_some]
            dsimp only
            cases f.file with
            | none => rfl
            | some file =>
                rw [Option.bind_some, Option.bind_some, setEntry_after, readDevice_after]
                exact bind_after fun s => rfl
  · rfl

/-- `write_file` makes the same requests behind the others. -/
theorem writeFile_after (tid : ThreadId) (words : List Nat) (buf : Option IpcPage)
    (allocated : Bool) :
    (s.after rpcs).writeFile tid words buf allocated =
      (s.writeFile tid words buf allocated).map fun x => (x.1.after rpcs, x.2) := by
  unfold writeFile
  split
  · rw [show (s.after rpcs).canWrite tid = s.canWrite tid from rfl]
    -- A message that is refused changes nothing.
    cases s.canWrite tid _ with
    | none => rfl
    | some x =>
        cases x with
        | none => rfl
        | some ef =>
            obtain ⟨entry, f⟩ := ef
            rw [Option.bind_eq_bind, Option.bind_some, Option.bind_eq_bind, Option.bind_some]
            dsimp only
            split
            · rfl
            · cases f.file with
              | none => rfl
              | some file =>
                  rw [Option.bind_some, Option.bind_some, setEntry_after, writeDevice_after]
                  exact bind_after fun s => rfl
  · rfl

/-- The search in a file table looks at no request. -/
theorem findEntry_after (pid : Nat) (p : Nat → FileTableEntry → Option Bool) (fds : List Nat) :
    (s.after rpcs).findEntry pid p fds = s.findEntry pid p fds := by
  induction fds with
  | nil => rfl
  | cons fd fds ih =>
      rw [findEntry, findEntry, ih]
      rfl

/-- `close_serial` looks at no request. -/
theorem closeSerial_after (entry : Nat) :
    (s.after rpcs).closeSerial entry = (s.closeSerial entry).map (·.after rpcs) := by
  unfold closeSerial
  rw [show (s.after rpcs).entries = s.entries from rfl,
    show (s.after rpcs).files = s.files from rfl]
  cases s.entries entry with
  | none => rfl
  | some f =>
      rw [Option.bind_eq_bind, Option.bind_some, Option.bind_eq_bind, Option.bind_some]
      -- A descriptor that may not read releases nothing.
      split
      · rfl
      · cases f.file with
        | none => rfl
        | some file =>
            rw [Option.bind_some, Option.bind_some]
            dsimp only
            rw [findEntry_after]
            cases s.findEntry (tid2pid f.owner) _ _ with
            | none => rfl
            | some other => cases other <;> rfl

/-- Nor does a close of either device. -/
theorem closeDevice_after (entry : Nat) (device : Device) :
    (s.after rpcs).closeDevice entry device =
      (s.closeDevice entry device).map (·.after rpcs) := by
  cases device with
  | serial => exact closeSerial_after entry
  | nfs => rfl

/-- `free` looks at no request. -/
theorem freeEntry_after (entry : Nat) :
    (s.after rpcs).freeEntry entry = (s.freeEntry entry).map (·.after rpcs) := by
  unfold freeEntry
  rw [show (s.after rpcs).entries = s.entries from rfl]
  cases s.entries entry <;> rfl

/-- `close_file` looks at no request. -/
theorem closeFile_after (tid : ThreadId) (words : List Nat) :
    (s.after rpcs).closeFile tid words =
      (s.closeFile tid words).map fun x => (x.1.after rpcs, x.2) := by
  unfold closeFile
  split
  · rw [show (s.after rpcs).isValidFiledescriptor tid = s.isValidFiledescriptor tid from rfl]
    split
    · rfl
    -- The device first, then `free`, then the slot.
    next entry _ =>
      rw [show (s.after rpcs).entries = s.entries from rfl,
        show (s.after rpcs).files = s.files from rfl]
      cases s.entries entry with
      | none => rfl
      | some f =>
          rw [Option.bind_eq_bind, Option.bind_some, Option.bind_eq_bind, Option.bind_some]
          cases f.file with
          | none => rfl
          | some file =>
              rw [Option.bind_some, Option.bind_some, closeDevice_after]
              refine bind_after fun s => ?_
              rw [freeEntry_after]
              exact bind_after fun s => rfl
  · rfl

/-! ### The console -/

/-- The search for the descriptor that reads looks at no request. -/
theorem getReadingFileHandle_after (file : Nat) :
    (s.after rpcs).getReadingFileHandle file = s.getReadingFileHandle file :=
  findEntry_after _ _ _

/-- A character from the console looks at no request. -/
theorem serialReceiveHandler_after (c : UInt8) :
    (s.after rpcs).serialReceiveHandler c =
      (s.serialReceiveHandler c).map (·.after rpcs) := by
  unfold serialReceiveHandler
  rw [show (s.after rpcs).getFileForSerial = s.getFileForSerial from rfl,
    show (s.after rpcs).console = s.console from rfl]
  cases s.getFileForSerial with
  | none => rfl
  | some file =>
      rw [Option.bind_eq_bind, Option.bind_some, Option.bind_eq_bind, Option.bind_some]
      dsimp only
      rw [show ({ s.after rpcs with console := (s.console.write c).1 } : Io) =
        Io.after { s with console := (s.console.write c).1 } rpcs from rfl]
      -- The state with the character in the buffer is like any other from here on.
      generalize ({ s with console := (s.console.write c).1 } : Io) = s'
      rw [getReadingFileHandle_after]
      cases s'.getReadingFileHandle file with
      | none => rfl
      | some found =>
          cases found with
          | none => rfl
          | some entry =>
              rw [Option.bind_some, Option.bind_some]
              dsimp only
              -- The reader is served if the line is complete.
              split
              · exact readSerial_after entry
              · rfl

/-! ### Processes -/

/-- One turn of the loop over the descriptors of a deleted process. -/
theorem closeEntry_after (pid : Nat) (tid : ThreadId) (fd : Nat) :
    closeEntry pid tid (s.after rpcs) fd = (closeEntry pid tid s fd).map (·.after rpcs) := by
  unfold closeEntry
  rw [show (s.after rpcs).filetable = s.filetable from rfl]
  split
  · rfl
  next entry _ =>
    rw [show (s.after rpcs).entries = s.entries from rfl,
      show (s.after rpcs).files = s.files from rfl]
    cases s.entries entry with
    | none => rfl
    | some f =>
        rw [Option.bind_eq_bind, Option.bind_some, Option.bind_eq_bind, Option.bind_some]
        -- A descriptor that waits is marked, and any other is freed.
        split
        · rfl
        · cases f.file with
          | none => rfl
          | some file =>
              rw [Option.bind_some, Option.bind_some]
              -- The reader of the file goes if it is this process.
              split
              · dsimp only
                rw [updateFile_after, freeEntry_after]
                exact bind_after fun s => rfl
              · dsimp only
                rw [freeEntry_after]
                exact bind_after fun s => rfl

/-- The whole loop, by induction on the slots that are left. -/
theorem closeFiles_after (pid : Nat) (tid : ThreadId) :
    (s.after rpcs).closeFiles pid tid = (s.closeFiles pid tid).map (·.after rpcs) := by
  have h (fds : List Nat) : ∀ s : Io, fds.foldlM (closeEntry pid tid) (s.after rpcs) =
      (fds.foldlM (closeEntry pid tid) s).map (·.after rpcs) := by
    induction fds with
    | nil => exact fun _ => rfl
    | cons fd fds ih =>
        intro s
        rw [List.foldlM_cons, List.foldlM_cons, closeEntry_after]
        exact bind_after ih
  exact h _ s

/-! ### The callbacks -/

/-- The answer to a lookup looks at no other request. -/
theorem nfsSetStatus_after (file : Nat) (r : NfsReply) :
    (s.after rpcs).nfsSetStatus file r = (s.nfsSetStatus file r).map (·.after rpcs) := by
  unfold nfsSetStatus
  dsimp only
  split
  · rw [updateFile_after, updateFile_after, fileCacheInsert_after]
  · rfl

/-- The answer to a creation looks at no other request. -/
theorem nfsCreateCallback_after (isActive : Nat → Bool) (file : Nat) (r : NfsReply) :
    (s.after rpcs).nfsCreateCallback isActive file r =
      (s.nfsCreateCallback isActive file r).map (·.after rpcs) := by
  have hstatus : (s.after rpcs).nfsCreateStatus isActive file r =
      (s.nfsCreateStatus isActive file r).map (·.after rpcs) := by
    unfold nfsCreateStatus
    rw [show (s.after rpcs).files = s.files from rfl]
    dsimp only
    -- The answer decides about the cache, and whether the client is there about the reply.
    split
    · rw [nfsSetStatus_after]
      refine bind_after fun s => ?_
      split
      · rw [openNfs_after]
        rfl
      · rfl
    · split <;> rfl
  unfold nfsCreateCallback
  rw [hstatus]
  exact bind_after fun s => rfl

/-- The answer to a read looks at no other request. -/
theorem nfsReadCallback_after (entry : Nat) (r : NfsReply) :
    (s.after rpcs).nfsReadCallback entry r =
      (s.nfsReadCallback entry r).map (·.after rpcs) := by
  unfold nfsReadCallback
  rw [show (s.after rpcs).entries = s.entries from rfl]
  cases s.entries entry with
  | none => rfl
  | some f =>
      rw [Option.bind_eq_bind, Option.bind_some, Option.bind_eq_bind, Option.bind_some]
      split
      · exact freeEntry_after entry
      · split
        · cases f.clientBuffer <;> rfl
        · rfl

/-- The answer to a write looks at no other request. -/
theorem nfsWriteCallback_after (entry : Nat) (r : NfsReply) :
    (s.after rpcs).nfsWriteCallback entry r =
      (s.nfsWriteCallback entry r).map (·.after rpcs) := by
  unfold nfsWriteCallback
  rw [show (s.after rpcs).entries = s.entries from rfl]
  cases s.entries entry with
  | none => rfl
  | some f =>
      rw [Option.bind_eq_bind, Option.bind_some, Option.bind_eq_bind, Option.bind_some]
      split
      · exact freeEntry_after entry
      · split
        · cases f.file <;> rfl
        · rfl
        · rfl

/-- The lookups go behind the requests that have been sent before. -/
theorem listFiles_after (names : List (List UInt8)) : ∀ s : Io,
    names.foldl listFile (s.after rpcs) = (names.foldl listFile s).after rpcs := by
  induction names with
  | nil => exact fun _ => rfl
  | cons name names ih =>
      intro s
      have hlookup : (s.after rpcs).listFile name = (s.listFile name).after rpcs := by
        unfold listFile after
        dsimp only
        rw [List.append_assoc]
      rw [List.foldl_cons, List.foldl_cons, hlookup, ih]

/-- So does the request for the next part of the listing. -/
theorem nfsReaddirCallback_after (r : NfsReply) :
    (s.after rpcs).nfsReaddirCallback r = (s.nfsReaddirCallback r).map (·.after rpcs) := by
  have hpart : (s.after rpcs).listPart r = (s.listPart r).after rpcs := by
    unfold listPart
    rw [listFiles_after]
    dsimp only
    split
    · unfold after
      dsimp only
      rw [List.append_assoc]
    · rfl
  rw [nfsReaddirCallback_eq, nfsReaddirCallback_eq, hpart]
  split
  · rfl
  · rfl

/-- A callback sends its requests behind the ones that have been sent before. -/
theorem callback_after (isActive : Nat → Bool) (rpc : Rpc) (r : NfsReply) :
    (s.after rpcs).callback isActive rpc r =
      (s.callback isActive rpc r).map (·.after rpcs) := by
  cases rpc with
  | create file => exact nfsCreateCallback_after isActive file r
  | lookup file => exact nfsSetStatus_after file r
  | readdir _ => exact nfsReaddirCallback_after r
  | read entry => exact nfsReadCallback_after entry r
  | write entry => exact nfsWriteCallback_after entry r

end Io

namespace FileServer

/-- The server with requests that have been sent before. -/
def after (s : FileServer) (rpcs : List Rpc) : FileServer := { s with io := s.io.after rpcs }

/-- What a step has noted is forgotten whatever the requests are. -/
theorem cleared_after (s : FileServer) (rpcs : List Rpc) :
    { s.after rpcs with io := (s.after rpcs).io.cleared } =
      FileServer.after { s with io := s.io.cleared } rpcs := rfl

/-- Creating a process looks at no request. -/
theorem createProcess_after (null : Option (List UInt8)) (s : FileServer) (rpcs : List Rpc)
    (p : Nat) (page : Option IpcPage) (heap : FileTableEntry) :
    (s.after rpcs).createProcess null p page heap =
      (s.createProcess null p page heap).map (·.after rpcs) := by
  unfold createProcess
  rw [show (s.after rpcs).io.findExecutable null page = s.io.findExecutable null page from rfl]
  cases s.io.findExecutable null page with
  | none => rfl
  | some name => cases name <;> rfl

/-- A message that is no answer of the NFS server is handled as if nothing had been sent
before. -/
theorem exec_after (null : Option (List UInt8)) (s : FileServer) (rpcs : List Rpc) {a : FileAction}
    (ha : ∀ k r, a ≠ .nfsReply k r) :
    (s.after rpcs).exec null a = (s.exec null a).map (·.after rpcs) := by
  -- No handler but the answer itself looks at the list of requests.
  cases a with
  | openFile p words page =>
      show ((s.io.after rpcs).openFile null (threadId p) words page).map _ = _
      rw [Io.openFile_after, exec, Option.map_map, Option.map_map]
      rfl
  | readFile p words page =>
      show ((s.io.after rpcs).readFile (threadId p) words page).map _ = _
      rw [Io.readFile_after, exec, Option.map_map, Option.map_map]
      rfl
  | writeFile p words page allocated =>
      show ((s.io.after rpcs).writeFile (threadId p) words page allocated).map _ = _
      rw [Io.writeFile_after, exec, Option.map_map, Option.map_map]
      rfl
  | closeFile p words =>
      show ((s.io.after rpcs).closeFile (threadId p) words).map _ = _
      rw [Io.closeFile_after, exec, Option.map_map, Option.map_map]
      rfl
  | nfsReply k r => exact absurd rfl (ha k r)
  | serialReceive c =>
      show ((s.io.after rpcs).serialReceiveHandler c).map _ = _
      rw [Io.serialReceiveHandler_after, exec, Option.map_map, Option.map_map]
      rfl
  | createProcess p page heap => exact createProcess_after null s rpcs p page heap
  | deleteProcess p =>
      show ((s.io.after rpcs).closeFiles p (threadId p)).map _ = _
      rw [Io.closeFiles_after, exec, Option.map_map, Option.map_map]
      rfl

end FileServer

end Sos
