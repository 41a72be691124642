import Sos.Io.Step

/-!
# `Sos.Files.Tables`: what one message can do to the tables of the file system

The properties of the file system are about the file cache, the file tables, the allocated
entries and the outstanding requests. `FileTables` is this part of the state, and the
relation `Outcome` lists what a message can change in it. Every invariant is proved over
the outcomes.
-/

set_option autoImplicit false

namespace Sos

/-- The state of the file system without the console's buffer and without what the last step
has sent, read and written. -/
structure FileTables where
  fileCache : List Nat
  files : Nat → FileInfo
  nextFile : Nat
  entries : Nat → Option FileTableEntry
  nextEntry : Nat
  filetable : Nat → Nat → Option Nat
  rpcs : List Rpc
  isActive : Nat → Bool
  tid : Nat → ThreadId

/-- The tables, for a process table with these active slots and thread ids. -/
def Io.tables (s : Io) (isActive : Nat → Bool) (tid : Nat → ThreadId) : FileTables where
  fileCache := s.fileCache
  files := s.files
  nextFile := s.nextFile
  entries := s.entries
  nextEntry := s.nextEntry
  filetable := s.filetable
  rpcs := s.rpcs
  isActive := isActive
  tid := tid

def FileServer.tables (s : FileServer) : FileTables := s.io.tables s.isActive s.tid

/-- The `file_info` of the console, the first one that is allocated. -/
def consoleFile : Nat := 0

/-- The name under which the console is opened. -/
def consoleName : List UInt8 := "console".toUTF8.toList

/-! ### Requests and descriptors -/

/-- The `file_table_entry` that a request carries as its token. -/
def Rpc.entry : Rpc → Option Nat
  | .read entry _ _ _ => some entry
  | .write entry _ _ _ => some entry
  | .create _ | .lookup _ | .readdir _ => none

/-- The `file_info` that a request carries as its token. -/
def Rpc.file : Rpc → Option Nat
  | .create file => some file
  | .lookup file => some file
  | .readdir _ | .read .. | .write .. => none

/-- The mode that a descriptor needs for a request. -/
def Rpc.accessMode : Rpc → Nat
  | .read .. => fmRead
  | .write .. => fmWrite
  | .create _ | .lookup _ | .readdir _ => 0

/-- The handle a request names. -/
def Rpc.handle : Rpc → Nat
  | .read _ handle _ _ => handle
  | .write _ handle _ _ => handle
  | .create _ | .lookup _ | .readdir _ => 0

/-- The process and the descriptor that a `SOS_READ`, `SOS_WRITE` or `SOS_CLOSE` names. -/
def FileAction.descriptor : FileAction → Option (Nat × Nat)
  | .readFile p [fd, _] _ => some (p, fd)
  | .writeFile p [fd, _] _ _ => some (p, fd)
  | .closeFile p [fd] => some (p, fd)
  | _ => none

/-- The mode that a `SOS_READ` or `SOS_WRITE` needs, if its message passes the other checks. -/
def FileAction.accessMode : FileAction → Option Nat
  | .readFile _ [_, _] (some _) => some fmRead
  | .writeFile _ [_, toWrite] (some _) _ =>
    if toInt32 toWrite > ipcMemorySize then none else some fmWrite
  | _ => none

/-- Two contents of an entry that differ in the buffer and the positions only. -/
structure SameHandle (f f' : FileTableEntry) : Prop where
  file : f'.file = f.file
  owner : f'.owner = f.owner
  mode : f'.mode = f.mode
  awaitsCallback : f'.awaitsCallback = f.awaitsCallback

/-- Two contents of a `file_info` with the same name and the same functions. -/
structure SameDevice (i i' : FileInfo) : Prop where
  filename : i'.filename = i.filename
  device : i'.device = i.device
  serialHandle : i'.serialHandle = i.serialHandle

/-- Two contents of a `file_info` that differ in the size and the times only. -/
structure SameAccess (i i' : FileInfo) : Prop extends SameDevice i i' where
  reader : i'.reader = i.reader
  stFmode : i'.status.stFmode = i.status.stFmode
  nfsHandle : i'.nfsHandle = i.nfsHandle

/-- What `nfs_readdir_callback` makes of a name in the listing: nothing if it ignores it. -/
def listedName (name : List UInt8) : Option (List UInt8) :=
  if name.length < maxPathLength - 1 then
    let filename := name.takeWhile (· ≠ 0)
    if filename ≠ ".".toUTF8.toList ∧ filename ≠ "..".toUTF8.toList ∧
        filename ≠ "swap".toUTF8.toList then some filename
    else none
  else none

/-- The names for which `nfs_readdir_callback` sends a lookup. -/
def NfsReply.listed (r : NfsReply) : List (List UInt8) :=
  (r.filenames.take dirCacheSize).filterMap listedName

/-- The `file_info` of a listed file until its lookup is answered. -/
def listedInfo (name : List UInt8) : FileInfo where
  filename := name
  status := { stType := 0, stFmode := fmExec, stSize := 0, stCtime := 0, stAtime := 0 }
  creationPending := true
  reader := anythread
  serialHandle := false
  nfsHandle := 0
  device := .nfs

/-- How many requests `nfs_readdir_callback` makes: the lookups, and one for the next part. -/
def NfsReply.requests (r : NfsReply) : Nat :=
  r.listed.length + if r.nextCookie > 0 then 1 else 0

/-! ### The callback for a part of the listing -/

namespace Io

/-- A listed file and the lookup for it. -/
def listFile (s : Io) (filename : List UInt8) : Io :=
  { s with
    files := Function.update s.files s.nextFile (listedInfo filename)
    nextFile := s.nextFile + 1
    rpcs := s.rpcs ++ [.lookup s.nextFile] }

/-- What `nfs_readdir_callback` does if there is a buffer for each of its requests. -/
def listPart (s : Io) (r : NfsReply) : Io :=
  let s := r.listed.foldl listFile s
  if r.nextCookie > 0 then { s with rpcs := s.rpcs ++ [.readdir r.nextCookie] }
  else { s with fileCacheInitialized := true }

/-- A name that is ignored makes no request. -/
theorem readdirEntry_ignored {name : List UInt8} (h : listedName name = none) (s : Io)
    (buffers : Nat) : readdirEntry (s, buffers) name = some (s, buffers) := by
  unfold listedName at h
  rw [readdirEntry]
  split
  next hlength =>
    rw [if_pos hlength] at h
    dsimp only at h ⊢
    split
    next hname =>
      rw [if_pos hname] at h
      cases h
    next => rfl
  next => rfl

/-- A listed name takes a buffer for its lookup. -/
theorem readdirEntry_listed {name filename : List UInt8} (h : listedName name = some filename)
    (s : Io) (buffers : Nat) : readdirEntry (s, buffers) name =
      if 0 < buffers then some (s.listFile filename, buffers - 1) else none := by
  unfold listedName at h
  rw [readdirEntry]
  -- The checks of the source are those of `listedName`, in the same order.
  split
  next hlength =>
    rw [if_pos hlength] at h
    dsimp only at h ⊢
    split
    next hname =>
      rw [if_pos hname] at h
      cases h
      rfl
    next hname =>
      rw [if_neg hname] at h
      cases h
  next hlength =>
    rw [if_neg hlength] at h
    cases h

/-- The loop ends if there are buffers for all lookups, and stops the server if not. -/
theorem readdirEntries_eq (names : List (List UInt8)) (s : Io) (buffers : Nat) :
    names.foldlM readdirEntry (s, buffers) =
      if (names.filterMap listedName).length ≤ buffers then
        some ((names.filterMap listedName).foldl listFile s,
          buffers - (names.filterMap listedName).length)
      else none := by
  induction names generalizing s buffers with
  | nil => rfl
  | cons name names ih =>
      -- A name that is ignored takes no buffer.
      rw [List.foldlM_cons]
      cases hname : listedName name with
      | none =>
          rw [readdirEntry_ignored hname, List.filterMap_cons_none hname, Option.bind_eq_bind,
            Option.bind_some, ih]
      | some filename =>
          rw [readdirEntry_listed hname, List.filterMap_cons_some hname, List.length_cons,
            List.foldl_cons]
          -- A name that is looked up takes one, or stops the server.
          by_cases hbuffers : 0 < buffers
          · have hlength : (names.filterMap listedName).length + 1 ≤ buffers ↔
                (names.filterMap listedName).length ≤ buffers - 1 := by omega
            rw [if_pos hbuffers, Option.bind_eq_bind, Option.bind_some, ih, Nat.sub_sub,
              Nat.add_comm 1, if_congr hlength rfl rfl]
          · rw [if_neg hbuffers, if_neg (by omega)]
            rfl

/-- `nfs_readdir_callback` returns exactly if there is a buffer for each of its requests. -/
theorem nfsReaddirCallback_eq (s : Io) (r : NfsReply) :
    s.nfsReaddirCallback r = if r.requests ≤ r.buffers then some (s.listPart r) else none := by
  unfold nfsReaddirCallback listPart NfsReply.requests
  rw [readdirEntries_eq]
  change (if r.listed.length ≤ r.buffers then some (r.listed.foldl listFile s,
    r.buffers - r.listed.length) else none).bind _ = _
  by_cases hlookups : r.listed.length ≤ r.buffers
  · rw [if_pos hlookups, Option.bind_some]
    dsimp only
    by_cases hmore : r.nextCookie > 0
    · have hleft : 0 < r.buffers - r.listed.length ↔ r.listed.length + 1 ≤ r.buffers := by omega
      rw [if_pos hmore, if_pos hmore, if_pos hmore, if_congr hleft rfl rfl]
    · rw [if_neg hmore, if_neg hmore, if_neg hmore, Nat.add_zero, if_pos hlookups]
  · rw [if_neg hlookups, if_neg (by omega)]
    rfl

/-- When it returns, it has made all of them. -/
theorem nfsReaddirCallback_some {s s' : Io} {r : NfsReply} (h : s.nfsReaddirCallback r = some s') :
    r.requests ≤ r.buffers ∧ s' = s.listPart r := by
  rw [nfsReaddirCallback_eq] at h
  obtain ⟨hbuffers, h⟩ := Option.ite_none_right_eq_some.mp h
  exact ⟨hbuffers, (Option.some.inj h).symm⟩

end Io

namespace FileTables

variable (c : FileTables)

/-- Process `p` runs. -/
def Live (p : Nat) : Prop :=
  1 ≤ p ∧ p < maxRunningProcess ∧ c.isActive p = true ∧ c.tid p = threadId p

instance (p : Nat) : Decidable (c.Live p) := by
  unfold Live
  infer_instance

/-- Entry `e` is in slot `fd` of the file table of `p`. -/
def Slot (p fd e : Nat) : Prop := fd < processMaxFiles ∧ c.filetable p fd = some e

instance (p fd e : Nat) : Decidable (c.Slot p fd e) := by
  unfold Slot
  infer_instance

/-- A slot with an entry that is open for reading on the console. -/
def ReadsConsole (p fd : Nat) : Prop :=
  ∃ e f, c.Slot p fd e ∧ c.entries e = some f ∧ f.file = some consoleFile ∧
    f.mode &&& fmRead ≠ 0

/-- The requests whose token is entry `e`. -/
def outstanding (e : Nat) : Nat := c.rpcs.countP fun rpc => rpc.entry = some e

/-- The files whose creation or lookup has not been answered. -/
def pending : List Nat := c.rpcs.filterMap Rpc.file

/-! ### Changes -/

def setFile (file : Nat) (i : FileInfo) : FileTables :=
  { c with files := Function.update c.files file i }

/-- A new `file_info`, and a request for it. -/
def request (i : FileInfo) (rpc : Nat → Rpc) : FileTables :=
  { c with
    files := Function.update c.files c.nextFile i
    nextFile := c.nextFile + 1
    rpcs := c.rpcs ++ [rpc c.nextFile] }

/-- A new entry in a slot. -/
def openSlot (p fd : Nat) (f : FileTableEntry) : FileTables :=
  { c with
    entries := Function.update c.entries c.nextEntry (some f)
    nextEntry := c.nextEntry + 1
    filetable := Function.update c.filetable p
      (Function.update (c.filetable p) fd (some c.nextEntry)) }

def setEntry (e : Nat) (f : FileTableEntry) : FileTables :=
  { c with entries := Function.update c.entries e (some f) }

def freeEntry (e : Nat) : FileTables :=
  { c with entries := Function.update c.entries e none }

/-- An entry is freed and its slot cleared. -/
def closeSlot (p fd e : Nat) : FileTables :=
  { c with
    entries := Function.update c.entries e none
    filetable := Function.update c.filetable p (Function.update (c.filetable p) fd none) }

def send (rpc : Rpc) : FileTables := { c with rpcs := c.rpcs ++ [rpc] }

/-- The `k`-th request is answered. -/
def answer (k : Nat) : FileTables := { c with rpcs := c.rpcs.eraseIdx k }

/-- A file enters the cache. -/
def insert (file : Nat) (i : FileInfo) : FileTables :=
  { c with
    files := Function.update c.files file i
    fileCache := c.fileCache ++ [file] }

def lookup (name : List UInt8) : FileTables := c.request (listedInfo name) .lookup

/-- The next part of the listing is requested, if there is one. -/
def follow (nextCookie : Int) : FileTables :=
  if nextCookie > 0 then c.send (.readdir nextCookie) else c

def setReader (file : Nat) (reader : ThreadId) : FileTables :=
  c.setFile file { c.files file with reader := reader }

/-- The file table of a new process. -/
def register (p : Nat) (tid : ThreadId) (f : FileTableEntry) : FileTables :=
  { c with
    entries := Function.update c.entries c.nextEntry (some f)
    nextEntry := c.nextEntry + 1
    filetable := Function.update c.filetable p
      (Function.update (fun _ => none) 0 (some c.nextEntry))
    isActive := Function.update c.isActive p true
    tid := Function.update c.tid p tid }

/-! ### What a change writes -/

section

variable {c}

/-- The descriptors after an update. -/
theorem setEntry_entries (e : Nat) (f : FileTableEntry) :
    (c.setEntry e f).entries = Function.update c.entries e (some f) := rfl

/-- The descriptors after an open. -/
theorem openSlot_entries (p fd : Nat) (f : FileTableEntry) :
    (c.openSlot p fd f).entries = Function.update c.entries c.nextEntry (some f) := rfl

/-- The file tables after an open. -/
theorem openSlot_filetable (p fd : Nat) (f : FileTableEntry) :
    (c.openSlot p fd f).filetable =
      Function.update c.filetable p
        (Function.update (c.filetable p) fd (some c.nextEntry)) := rfl

/-- The descriptors after a close. -/
theorem closeSlot_entries (p fd e : Nat) :
    (c.closeSlot p fd e).entries = Function.update c.entries e none := rfl

/-- The file tables after a close. -/
theorem closeSlot_filetable (p fd e : Nat) :
    (c.closeSlot p fd e).filetable =
      Function.update c.filetable p (Function.update (c.filetable p) fd none) := rfl

/-- The descriptors after a process is registered. -/
theorem register_entries (p : Nat) (t : ThreadId) (f : FileTableEntry) :
    (c.register p t f).entries = Function.update c.entries c.nextEntry (some f) := rfl

/-- The file tables after a process is registered. -/
theorem register_filetable (p : Nat) (t : ThreadId) (f : FileTableEntry) :
    (c.register p t f).filetable =
      Function.update c.filetable p
        (Function.update (fun _ => none) 0 (some c.nextEntry)) := rfl

/-- The processes after one is registered. -/
theorem register_isActive (p : Nat) (t : ThreadId) (f : FileTableEntry) :
    (c.register p t f).isActive = Function.update c.isActive p true := rfl

/-- The files after an update. -/
theorem setFile_files (file : Nat) (i : FileInfo) :
    (c.setFile file i).files = Function.update c.files file i := rfl

/-- The files after one is put into the cache. -/
theorem insert_files (file : Nat) (i : FileInfo) :
    (c.insert file i).files = Function.update c.files file i := rfl

/-- The files after one gets a reader. -/
theorem setReader_files (file : Nat) (reader : ThreadId) :
    (c.setReader file reader).files =
      Function.update c.files file { c.files file with reader := reader } := rfl

/-- The reader of that file. -/
theorem setReader_reader (file : Nat) (reader : ThreadId) :
    ((c.setReader file reader).files file).reader = reader := by
  rw [setReader_files, Function.update_self]

/-- The files after one is asked for. -/
theorem request_files (i : FileInfo) (rpc : Nat → Rpc) :
    (c.request i rpc).files = Function.update c.files c.nextFile i := rfl

end

/-! ### Outcomes -/

/-- A descriptor that `create_file_descriptor` has made. -/
structure Opens (f : FileTableEntry) (file : Nat) (owner : ThreadId) (mode : Nat) : Prop where
  file : f.file = some file
  owner : f.owner = owner
  mode : f.mode = mode
  awaitsCallback : f.awaitsCallback = false

/-- What the loop of `delete_process` leaves after these slots of process `p`: their entries
are freed, except for those with `awaits_callback`, whose flag is reset. -/
structure Closes (p : Nat) (fds : List Nat) (c' : FileTables) : Prop where
  fileCache : c'.fileCache = c.fileCache
  nextFile : c'.nextFile = c.nextFile
  nextEntry : c'.nextEntry = c.nextEntry
  rpcs : c'.rpcs = c.rpcs
  isActive : c'.isActive = c.isActive
  tid : c'.tid = c.tid
  filetable : ∀ q, q ≠ p → c'.filetable q = c.filetable q
  rest : ∀ fd, fd ∉ fds → c'.filetable p fd = c.filetable p fd
  other : ∀ e, (∀ fd ∈ fds, c.filetable p fd ≠ some e) → c'.entries e = c.entries e
  killed : ∀ fd ∈ fds, ∀ e f, c.filetable p fd = some e → c.entries e = some f →
    f.awaitsCallback = true → c'.entries e = some { f with awaitsCallback := false }
  freed : ∀ fd ∈ fds, ∀ e f, c.filetable p fd = some e → c.entries e = some f →
    f.awaitsCallback = false → c'.entries e = none
  device : ∀ file, SameDevice (c.files file) (c'.files file)
  stFmode : ∀ file, (c'.files file).status.stFmode = (c.files file).status.stFmode
  reader : ∀ file, (c'.files file).reader = (c.files file).reader ∨
    (c.files file).reader = threadId p ∧ (c'.files file).reader = nilthread
  released : ∀ fd ∈ fds, ∀ e f file, c.filetable p fd = some e → c.entries e = some f →
    f.awaitsCallback = false → f.file = some file → (c'.files file).reader ≠ threadId p

/-- What a message can do to the tables. -/
inductive Outcome : FileAction → FileTables → Prop
  | same (a : FileAction) : Outcome a c
  | buffers (a : FileAction) {e : Nat} {f f' : FileTableEntry} (hf : c.entries e = some f)
      (hsame : SameHandle f f') : Outcome a (c.setEntry e f')
  /-- `open_file` of a file that is not in the cache. -/
  | requested {p word : Nat} {page : IpcPage} {i : FileInfo}
      (hname : i.filename = cString page.bytes maxPathLength)
      (hnew : ∀ file ∈ c.fileCache, (c.files file).filename ≠ i.filename)
      (hdevice : i.device = .nfs) (hserial : i.serialHandle = false)
      (hreader : i.reader = threadId p)
      (hmode : word % 2 ^ 8 = oRdonly ∨ word % 2 ^ 8 = oRdwr ∨ word % 2 ^ 8 = oWronly) :
      Outcome (.openFile p [word] (some page)) (c.request i .create)
  /-- `open_nfs`, or `open_serial` for writing. -/
  | opened {p word fd file : Nat} {page : IpcPage} {f : FileTableEntry}
      (hfile : file ∈ c.fileCache) (hfree : fd < processMaxFiles ∧ c.filetable p fd = none)
      (hopens : Opens f file (threadId p) (word % 2 ^ 8))
      (hmode : f.mode = oRdonly ∨ f.mode = oRdwr ∨ f.mode = oWronly)
      (haccess : (c.files file).device = .nfs ∧
          f.mode &&& (c.files file).status.stFmode = f.mode ∨
        (c.files file).device = .serial ∧ f.mode &&& fmRead = 0) :
      Outcome (.openFile p [word] (some page)) (c.openSlot p fd f)
  /-- `open_serial` for reading. -/
  | acquired {p word fd file : Nat} {page : IpcPage} {f : FileTableEntry}
      (hfile : file ∈ c.fileCache) (hfree : fd < processMaxFiles ∧ c.filetable p fd = none)
      (hopens : Opens f file (threadId p) (word % 2 ^ 8))
      (hmode : f.mode = oRdonly ∨ f.mode = oRdwr ∨ f.mode = oWronly)
      (hread : f.mode &&& fmRead ≠ 0) (hdevice : (c.files file).device = .serial)
      (hreader : (c.files file).reader = nilthread ∨ (c.files file).reader = threadId p) :
      Outcome (.openFile p [word] (some page))
        ((c.setReader file (threadId p)).openSlot p fd f)
  /-- `read_nfs` or `write_nfs`. -/
  | asked {a : FileAction} {p fd e file : Nat} {f f' : FileTableEntry} {rpc : Rpc}
      (ha : a.descriptor = some (p, fd)) (haccess : a.accessMode = some rpc.accessMode)
      (hslot : c.Slot p fd e) (hf : c.entries e = some f)
      (hsame : SameHandle { f with awaitsCallback := true } f') (hfile : f.file = some file)
      (hdevice : (c.files file).device = .nfs) (hrpc : rpc.entry = some e)
      (hhandle : rpc.handle = (c.files file).nfsHandle)
      (hmode : f.mode &&& rpc.accessMode ≠ 0) :
      Outcome a ((c.send rpc).setEntry e f')
  | closed {p fd e file : Nat} {f : FileTableEntry} (hslot : c.Slot p fd e)
      (hf : c.entries e = some f) (hfile : f.file = some file)
      (hkept : (c.files file).device = .nfs ∨ f.mode &&& fmRead = 0 ∨
        ∃ fd' e' f' file', c.Slot (tid2pid f.owner) fd' e' ∧ c.entries e' = some f' ∧
          e ≠ e' ∧ f'.mode &&& fmRead ≠ 0 ∧ f'.file = some file' ∧
          (c.files file').serialHandle = (c.files file).serialHandle) :
      Outcome (.closeFile p [fd]) (c.closeSlot p fd e)
  /-- `close_serial` of the last descriptor for reading. -/
  | released {p fd e file : Nat} {f : FileTableEntry} (hslot : c.Slot p fd e)
      (hf : c.entries e = some f) (hfile : f.file = some file)
      (hdevice : (c.files file).device = .serial) (hread : f.mode &&& fmRead ≠ 0)
      (hlast : ∀ fd' e' f' file', c.Slot (tid2pid f.owner) fd' e' → c.entries e' = some f' →
        e ≠ e' → f'.mode &&& fmRead ≠ 0 → f'.file = some file' →
        (c.files file').serialHandle ≠ (c.files file).serialHandle) :
      Outcome (.closeFile p [fd]) ((c.setReader file nilthread).closeSlot p fd e)
  /-- `nfs_read_callback` or `nfs_write_callback`. -/
  | answered {k e : Nat} {r : NfsReply} {rpc : Rpc} {f f' : FileTableEntry}
      {files : Nat → FileInfo} (hrpc : c.rpcs[k]? = some rpc) (he : rpc.entry = some e)
      (hf : c.entries e = some f) (hawaits : f.awaitsCallback = true) (hsame : SameHandle f f')
      (hfiles : ∀ file, SameAccess (c.files file) (files file)) :
      Outcome (.nfsReply k r) { (c.answer k).setEntry e f' with files := files }
  /-- One of these callbacks for an entry of a deleted process. -/
  | dropped {k e : Nat} {r : NfsReply} {rpc : Rpc} {f : FileTableEntry}
      (hrpc : c.rpcs[k]? = some rpc) (he : rpc.entry = some e) (hf : c.entries e = some f)
      (hkilled : f.awaitsCallback = false) :
      Outcome (.nfsReply k r) ((c.answer k).freeEntry e)
  /-- `nfs_create_callback` or `nfs_set_status`, for an error. -/
  | failed {k file : Nat} {r : NfsReply} {rpc : Rpc} {i : FileInfo}
      (hrpc : c.rpcs[k]? = some rpc) (hfile : rpc.file = some file) (hstatus : r.status ≠ .ok)
      (hsame : SameDevice (c.files file) i) :
      Outcome (.nfsReply k r) ((c.answer k).setFile file i)
  /-- One of these callbacks for a file on the server. -/
  | cached {k file : Nat} {r : NfsReply} {rpc : Rpc} {i : FileInfo}
      (hrpc : c.rpcs[k]? = some rpc) (hfile : rpc.file = some file) (hstatus : r.status = .ok)
      (hroom : c.fileCache.length < dirCacheSize) (hsame : SameDevice (c.files file) i)
      (hmode : i.status.stFmode = accessModes r.attr.mode) :
      Outcome (.nfsReply k r) ((c.answer k).insert file i)
  /-- `nfs_create_callback`, which opens the new file. -/
  | created {k file fd : Nat} {r : NfsReply} {i : FileInfo} {f : FileTableEntry}
      (hrpc : c.rpcs[k]? = some (.create file)) (hstatus : r.status = .ok)
      (hroom : c.fileCache.length < dirCacheSize) (hsame : SameDevice (c.files file) i)
      (hmode : i.status.stFmode = accessModes r.attr.mode)
      (hactive : c.isActive (tid2pid (c.files file).reader) = true)
      (hfree : fd < processMaxFiles ∧ c.filetable (tid2pid (c.files file).reader) fd = none)
      (hopens : Opens f file (c.files file).reader (c.files file).status.stFmode)
      (haccess : f.mode &&& accessModes r.attr.mode = f.mode) :
      Outcome (.nfsReply k r)
        (((c.answer k).insert file i).openSlot (tid2pid (c.files file).reader) fd f)
  /-- `nfs_readdir_callback`. -/
  | listed {k : Nat} {r : NfsReply} {cookie : Int} (hrpc : c.rpcs[k]? = some (.readdir cookie)) :
      Outcome (.nfsReply k r) ((r.listed.foldl lookup (c.answer k)).follow r.nextCookie)
  /-- `register_process`. -/
  | registered {p : Nat} {page : Option IpcPage} {heap f : FileTableEntry} {name : List UInt8}
      (hopens : f.file = c.fileCache.head? ∧ f.mode = fmWrite ∧ f.owner = FileServer.newTid p name ∧
        f.awaitsCallback = heap.awaitsCallback) :
      Outcome (.createProcess p page heap) (c.register p (FileServer.newTid p name) f)
  /-- `delete_process`. -/
  | deleted {p : Nat} {c' : FileTables} (h : c.Closes p (List.range processMaxFiles) c') :
      Outcome (.deleteProcess p) { c' with isActive := Function.update c'.isActive p false }

end FileTables

end Sos
