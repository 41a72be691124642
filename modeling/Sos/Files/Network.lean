import Sos.Files.Requests
import Sos.Nfs.Replies
import Sos.Nfs.Transport

/-!
# `Sos.Files.Network`: the file system on the NFS library

The file system of `Sos.Io.Step` has a list of requests that have not been answered, and an
answer is an action. In the server there is no such list: a handler calls a function of
`nfsrpc.c`, which puts the callback and its token into the queue of `transport.c`, and an answer
is a datagram that `my_recv` finds an item of that queue for. Here the two are put together. The
item holds the request, which stands for the callback and the token.

`callOf` is what a request is made with: the file handles and names of the file system, the data
of the client's page for a write, and `mnt_point`, which the server has from mounting the
directory. `replyOf` takes the datagram apart with the function that `rpc_send` was called with.
What is neither in a message nor in the state is what is on the stack (`Stack`).

`cookieOf_handleOf` and `length_message_write` connect the two levels: the file handle that the
NFS server gave is what it gets back, and the lengths that the file system adds up for a write
are those of the message.
-/

set_option autoImplicit false

namespace Sos

open Nfs (Transport)

/-! ### From a datagram to an answer -/

/-- A file handle as a number. -/
def handleOf (fh : Nfs.Cookie) : Nat := fh.val.foldl (fun n byte => n * 2 ^ 8 + byte.toNat) 0

/-- The file handle with this number. -/
def cookieOf (handle : Nat) : Nfs.Cookie :=
  ⟨(List.range Nfs.fhsize).map fun i => UInt8.ofNat (handle / 2 ^ (8 * (Nfs.fhsize - 1 - i))),
    by rw [List.length_map, List.length_range]⟩

def statusOf (status : Int) : NfsStatus :=
  if status = 0 then .ok else if status = 28 then .noSpace else .error

/-- What the file system uses of the attributes. -/
def fattrOf (a : Nfs.Fattr) : Fattr :=
  { mode := a.mode, size := a.size, atime := a.atime.useconds, ctime := a.ctime.useconds }

/-- The reply to `nfs_create` and `nfs_lookup`. -/
def handleReply (stack : NfsReply) (x : Int × Option (Nfs.Cookie × Nfs.Fattr)) : NfsReply :=
  match x.2 with
  | some fa => { stack with status := statusOf x.1, handle := handleOf fa.1, attr := fattrOf fa.2 }
  | none => { stack with status := statusOf x.1 }

/-- The reply to `nfs_read`. -/
def dataReply (stack : NfsReply) (x : Int × Option (Nfs.Fattr × Int × List UInt8)) : NfsReply :=
  match x.2 with
  | some r =>
    { stack with
      status := statusOf x.1
      attr := fattrOf r.1
      bytesRead := sizeT r.2.1
      data := fun i => r.2.2.getD i (stack.data i) }
  | none => { stack with status := statusOf x.1, bytesRead := 0 }

/-- The reply to `nfs_write`. -/
def attrReply (stack : NfsReply) (x : Int × Option Nfs.Fattr) : NfsReply :=
  match x.2 with
  | some a => { stack with status := statusOf x.1, attr := fattrOf a }
  | none => { stack with status := statusOf x.1 }

/-- The reply to `nfs_readdir`. -/
def entriesReply (stack : NfsReply) (x : Int × Option (Nat × List (List UInt8) × Int)) : NfsReply :=
  match x.2 with
  | some r => { stack with status := statusOf x.1, filenames := r.2.1, nextCookie := r.2.2 }
  | none => { stack with status := statusOf x.1, filenames := [], nextCookie := 0 }

/-- What the callback of a request is called with for a datagram. -/
def replyOf (stack : NfsReply) (rpc : Rpc) (d : List UInt8) : Option NfsReply :=
  match rpc with
  | .create _ => (Nfs.nfsCreateCb d).map (handleReply stack)
  | .lookup _ => (Nfs.nfsLookupCb d).map (handleReply stack)
  | .readdir _ => (Nfs.nfsReaddirCb d).map (entriesReply stack)
  | .read .. => (Nfs.nfsReadCb d).map (dataReply stack)
  | .write .. => (Nfs.nfsWriteCb d).map (attrReply stack)

/-! ### From a request to a call -/

/-- What is on the stack of the server where a function puts a record that it does not fill: the
results of a reply that has none, and the `sattr_t` of `create_nfs`, whose times are not set. -/
structure Stack where
  reply : NfsReply
  sat : Nfs.Sattr

/-- A signed value as a word. -/
def wordOf (n : Int) : Nat := (n % 2 ^ 32).toNat

/-- The call of a request. `page` is the client's IPC page, where the data of a write is. -/
def callOf (mntPoint : Nfs.Cookie) (s : Io) (page : Option IpcPage) (stack : Stack) :
    Rpc → Option Nfs.Call
  | .create file =>
    some ⟨.create, (mntPoint, (s.files file).filename,
      { stack.sat with uid := 1000, gid := 1000, size := 0, mode := 0o400 ||| 0o200 })⟩
  | .lookup file => some ⟨.lookup, (mntPoint, (s.files file).filename)⟩
  | .readdir cookie => some ⟨.readdir, (mntPoint, wordOf cookie, maxPathLength)⟩
  | .read _ handle position count => some ⟨.read, (cookieOf handle, position, count)⟩
  | .write _ handle position count =>
    page.map fun page =>
      ⟨.write, (cookieOf handle, position, (List.range count).map page.bytes)⟩

/-! ### The server -/

/-- The file system and the library. Between two steps there are no requests in `server.io.rpcs`:
they are handed to the library. -/
structure FileNetwork where
  server : FileServer
  transport : Transport Rpc

/-- An answer of the NFS server. -/
def FileAction.isReply : FileAction → Bool
  | .openFile .. | .readFile .. | .writeFile .. | .closeFile .. => false
  | .nfsReply _ _ => true
  | .serialReceive _ | .createProcess .. | .deleteProcess _ => false

/-- The IPC page of the process that wants to write. -/
def FileAction.writePage : FileAction → Option IpcPage
  | .writeFile _ _ page _ => page
  | .openFile .. | .readFile .. | .closeFile .. | .nfsReply _ _ => none
  | .serialReceive _ | .createProcess .. | .deleteProcess _ => none

inductive FileNetworkAction
  /-- A message of a process or of the console, not an answer of the NFS server. -/
  | message (a : FileAction) (stack : Stack)
  /-- `nfs_timeout` is called. -/
  | timeout
  /-- A datagram arrives. -/
  | arrive (d : List UInt8) (stack : Stack)

section

variable (mntPoint : Nfs.Cookie) (nfsPort : Nat) (null : Option (List UInt8))

/-- The requests of a handler are sent, in the order in which it makes them. A message that does
not fit is written beyond its buffer. -/
def sendAll (s : Io) (page : Option IpcPage) (stack : Stack) :
    List Rpc → Transport Rpc → Option (Transport Rpc)
  | [], t => some t
  | rpc :: rpcs, t => do
    let c ← callOf mntPoint s page stack rpc
    if c.Fits t.getXid.2 then do
      let t ← t.getXid.1.rpcSend (c.message t.getXid.2) nfsPort rpc
      sendAll s page stack rpcs t
    else none

namespace FileNetwork

/-- The state after a handler. -/
def flush (s : FileServer) (page : Option IpcPage) (stack : Stack) (t : Transport Rpc) :
    Option FileNetwork := do
  let t ← sendAll mntPoint nfsPort s.io page stack s.io.rpcs t
  some
    { server := { s with io := { s.io with rpcs := [] } }
      transport := { t with outbox := [] } }

def Enabled (s : FileNetwork) : FileNetworkAction → Prop
  | .message a _ => a.isReply = false ∧ s.server.Enabled a
  | .timeout => True
  | .arrive _ _ => True

instance (s : FileNetwork) (a : FileNetworkAction) : Decidable (s.Enabled a) := by
  cases a with
  | arrive => exact inferInstanceAs (Decidable True)
  | message a _ => exact inferInstanceAs (Decidable (a.isReply = false ∧ s.server.Enabled a))
  | timeout => exact inferInstanceAs (Decidable True)

/-- Handles a message or a datagram. -/
def exec (s : FileNetwork) : FileNetworkAction → Option FileNetwork
  | .message a stack => do
    let server ← { s.server with io := s.server.io.cleared }.exec null a
    flush mntPoint nfsPort server a.writePage stack s.transport
  | .timeout => some { s with transport := { s.transport.nfsTimeout with outbox := [] } }
  | .arrive d stack => do
    let x ← s.transport.myRecv d
    match x.2 with
    | none => some { s with transport := x.1 }
    | some rpc => do
      let r ← replyOf stack.reply rpc d
      let io ← s.server.io.cleared.callback s.server.isActive rpc r
      flush mntPoint nfsPort { s.server with io := io } none stack x.1

/-- The file system and the library, from `io_init` on. -/
def machine : Lib.Machine FileNetwork FileNetworkAction where
  init s := ∃ rootThread heap server stack curXid,
    FileServer.boot rootThread heap = some server ∧
      flush mntPoint nfsPort server none stack { curXid := curXid, queue := [], outbox := [] } =
        some s
  step s a := if s.Enabled a then s.exec mntPoint nfsPort null a else none

end FileNetwork

end

namespace FileNetwork

/-- The file system with the requests that the library holds. -/
def files (s : FileNetwork) : FileServer := s.server.after (s.transport.queue.map (·.func))

variable {mntPoint : Nfs.Cookie} {nfsPort : Nat} {page : Option IpcPage} {stack : Stack}

/-- The requests go to the end of the queue. -/
theorem sendAll_queue {io : Io} {rpcs : List Rpc} {t t' : Transport Rpc}
    (h : sendAll mntPoint nfsPort io page stack rpcs t = some t') :
    t'.queue.map (·.func) = t.queue.map (·.func) ++ rpcs := by
  induction rpcs generalizing t with
  | nil =>
      cases h
      rw [List.append_nil]
  | cons rpc rpcs ih =>
      obtain ⟨c, -, h⟩ := Option.bind_eq_some_iff.mp h
      obtain ⟨-, h⟩ := Option.ite_none_right_eq_some.mp h
      have hextract := Nfs.extractXid_message (Nat.mod_lt (t.curXid + 1) (Nat.two_pow_pos 32)) c
      obtain ⟨t₁, ht₁, h⟩ := Option.bind_eq_some_iff.mp h
      rw [Transport.getXid, Transport.rpcSend_eq _ hextract, Option.some.injEq] at ht₁
      rw [ih h, ← ht₁, List.map_append, List.append_assoc]
      rfl

/-- What a handler has sent is in the queue. -/
theorem files_flush {server : FileServer} {t : Transport Rpc} {s : FileNetwork}
    (h : flush mntPoint nfsPort server page stack t = some s) :
    s.server.io.rpcs = [] ∧ s.files = server.after (t.queue.map (·.func)) := by
  obtain ⟨t', ht', h⟩ := Option.bind_eq_some_iff.mp h
  cases h
  refine ⟨rfl, ?_⟩
  unfold files FileServer.after Io.after
  dsimp only
  rw [List.append_nil, sendAll_queue ht']

end FileNetwork

/-! ### The file system and the messages -/

/-- The NFS server gets the file handle back that it gave. -/
theorem cookieOf_handleOf (fh : Nfs.Cookie) : cookieOf (handleOf fh) = fh := by
  refine Subtype.ext ?_
  have hdigits := Lib.digits_foldl fh.val
  rw [fh.property] at hdigits
  exact hdigits

/-- The lengths that the file system adds up for a write are the length of its message. -/
theorem length_message_write {mntPoint : Nfs.Cookie} {s : Io} {page : IpcPage} {stack : Stack}
    {entry handle position count : Nat} {c : Nfs.Call} (hcount : count < 2 ^ 31)
    (hc : callOf mntPoint s (some page) stack (.write entry handle position count) = some c)
    (txid : Nat) : (c.message txid).length = (nfsWriteLengths (toInt32 count)).sum := by
  cases hc
  have hdata : ((List.range count).map page.bytes).length = count := by
    rw [List.length_map, List.length_range]
  have hlt : ((List.range count).map page.bytes).length < 2 ^ 31 := by rwa [hdata]
  have hlength := Nfs.length_nfsWrite txid (cookieOf handle) position hlt
  rw [hdata] at hlength
  rw [toInt32_of_lt hcount]
  exact hlength

end Sos
