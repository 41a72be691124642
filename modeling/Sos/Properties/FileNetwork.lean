import Sos.Files.Network
import Sos.Files.Reachable

/-!
# `Sos.Properties.FileNetwork`: the file system over the NFS library

`files_over_network`: the file system on the NFS library does only what the file system does
that keeps its requests in a list and gets each of them answered at most once. A datagram that an
item of the queue waits for is the answer to the request of that item, and every other datagram,
a late or a second answer among them, changes nothing, as would the timeouts that the server does
not have. So what holds of every state of the file system holds also over a network that loses,
doubles and reorders datagrams.
-/

set_option autoImplicit false

namespace Sos

namespace FileNetwork

open Nfs (Transport)

variable {mntPoint : Nfs.Cookie} {nfsPort : Nat} {null : Option (List UInt8)} {stack : Stack}
variable {s s' : FileNetwork}

/-- What is enabled does not depend on the requests, but for their answers. -/
theorem enabled_after (server : FileServer) (rpcs : List Rpc) {a : FileAction}
    (ha : a.isReply = false) : (server.after rpcs).Enabled a = server.Enabled a := by
  cases a with
  | nfsReply => cases ha
  | openFile => rfl
  | readFile => rfl
  | writeFile => rfl
  | closeFile => rfl
  | serialReceive => rfl
  | createProcess => rfl
  | deleteProcess => rfl

/-- A message is handled as the file system handles it. -/
theorem files_message {a : FileAction} (hen : s.Enabled (.message a stack))
    (h : s.exec mntPoint nfsPort null (.message a stack) = some s') :
    s'.server.io.rpcs = [] ∧ (FileServer.machine null).step s.files a = some s'.files := by
  obtain ⟨server, hexec, h⟩ := Option.bind_eq_some_iff.mp h
  obtain ⟨hrpcs, hfiles⟩ := files_flush h
  refine ⟨hrpcs, ?_⟩
  -- A message is never an answer of the file server, so the queue plays no part in it.
  have hne (k : Nat) (r : NfsReply) : a ≠ .nfsReply k r := by
    intro heq
    subst heq
    cases hen.1
  have hen' : s.files.Enabled a := by
    unfold files
    rw [enabled_after _ _ hen.1]
    exact hen.2
  show (if s.files.Enabled a then _ else none) = _
  rw [if_pos hen', hfiles]
  unfold files
  rw [FileServer.cleared_after, FileServer.exec_after null _ _ hne, hexec, Option.map_some]

/-- The answer to a request: the item of the queue is the request in the list. -/
theorem files_answer (null : Option (List UInt8)) {d : List UInt8}
    {x : Transport Rpc × Option Rpc} {rpc : Rpc} {r : NfsReply} {io : Io}
    {page : Option IpcPage} (hrpcs : s.server.io.rpcs = []) (hx : s.transport.myRecv d = some x)
    (hfound : x.2 = some rpc)
    (hio : s.server.io.cleared.callback s.server.isActive rpc r = some io)
    (h : flush mntPoint nfsPort { s.server with io := io } page stack x.1 = some s') :
    s'.server.io.rpcs = [] ∧
      ∃ k, (FileServer.machine null).step s.files (.nfsReply k r) = some s'.files := by
  obtain ⟨hrpcs', hfiles⟩ := files_flush h
  obtain ⟨xid, -, hx⟩ := Option.bind_eq_some_iff.mp hx
  cases hx
  obtain ⟨item, hitem, rfl⟩ := Option.map_eq_some_iff.mp hfound
  obtain ⟨k, hk, hrest⟩ := Nfs.getFromQueue_eraseIdx hitem
  refine ⟨hrpcs', k, ?_⟩
  -- The requests in the list are those of the queue.
  have hlist : s.files.io.rpcs = s.transport.queue.map (·.func) := by
    show _ ++ s.server.io.rpcs = _
    rw [hrpcs, List.append_nil]
  have hget : s.files.io.rpcs[k]? = some item.func := by
    rw [hlist, List.getElem?_map, hk, Option.map_some]
  have hen : s.files.Enabled (.nfsReply k r) := (List.getElem?_eq_some_iff.mp hget).1
  have hserver : s.server.io.cleared =
      ({ s.server.io.cleared with rpcs := [] } : Io) := by
    rw [← hrpcs]
    rfl
  have herase : ({ s.files.io.cleared with rpcs := s.files.io.rpcs.eraseIdx k } : Io) =
      s.server.io.cleared.after ((s.transport.queue.eraseIdx k).map (·.func)) := by
    rw [hlist, List.eraseIdx_map, hserver]
    unfold Io.after files FileServer.after
    rw [List.append_nil]
    rfl
  show (if s.files.Enabled _ then _ else none) = _
  rw [if_pos hen, hfiles]
  show (Io.nfsReply _ s.files.io.cleared k r).map _ = _
  unfold Io.nfsReply
  rw [show s.files.io.cleared.rpcs[k]? = some item.func from hget, Option.bind_eq_bind,
    Option.bind_some]
  show (Io.callback _ ({ s.files.io.cleared with rpcs := s.files.io.rpcs.eraseIdx k } : Io) _ _).map
    _ = _
  rw [herase, Io.callback_after]
  show ((s.server.io.cleared.callback s.server.isActive item.func r).map _).map _ = _
  rw [hio, hrest]
  rfl

/-- A step is one of the file system, or nothing happens there. -/
theorem files_step {a : FileNetworkAction} (hrpcs : s.server.io.rpcs = [])
    (h : (machine mntPoint nfsPort null).step s a = some s') :
    s'.server.io.rpcs = [] ∧
      (s'.files = s.files ∨ ∃ b, (FileServer.machine null).step s.files b = some s'.files) := by
  obtain ⟨hen, hexec⟩ := Option.ite_none_right_eq_some.mp h
  -- Messages and answers are one step of the file server; time only moves the queue.
  cases a with
  | message a stack =>
      obtain ⟨hrpcs', hstep⟩ := files_message hen hexec
      exact ⟨hrpcs', Or.inr ⟨a, hstep⟩⟩
  | timeout =>
      cases hexec
      refine ⟨hrpcs, Or.inl ?_⟩
      show s.server.after ((s.transport.queue.map Nfs.RpcQueue.tick).map (·.func)) = _
      rw [List.map_map]
      exact congrArg s.server.after (List.map_congr_left fun item _ => item.tick_func)
  | arrive d stack =>
      obtain ⟨x, hx, hexec⟩ := Option.bind_eq_some_iff.mp hexec
      cases hfound : x.2 with
      -- A datagram that nothing in the queue waits for leaves everything as it was.
      | none =>
          rw [hfound] at hexec
          cases hexec
          obtain ⟨xid, -, hx⟩ := Option.bind_eq_some_iff.mp hx
          cases hx
          refine ⟨hrpcs, Or.inl ?_⟩
          have hnone := Nfs.getFromQueue_none (Option.map_eq_none_iff.mp hfound)
          show s.server.after (((Nfs.getFromQueue xid s.transport.queue).2).map (·.func)) = _
          rw [hnone]
          rfl
      -- The call with this id is taken from the queue and its callback runs.
      | some rpc =>
          rw [hfound] at hexec
          obtain ⟨r, -, hexec⟩ := Option.bind_eq_some_iff.mp hexec
          obtain ⟨io, hio, hflush⟩ := Option.bind_eq_some_iff.mp hexec
          obtain ⟨hrpcs', k, hstep⟩ := files_answer null hrpcs hx hfound hio hflush
          exact ⟨hrpcs', Or.inr ⟨_, hstep⟩⟩

/-- Over the network the file system is in the states that it is in when the answers come in some
order, each request answered at most once. -/
theorem files_over_network
    (h : (machine mntPoint nfsPort null).Reachable Lib.Machine.anyStep s) :
    s.server.io.rpcs = [] ∧ (FileServer.machine null).Reachable Lib.Machine.anyStep s.files := by
  -- No request is left in the server between two steps: each one is put into the queue at once.
  refine h.invariant (fun s => s.server.io.rpcs = [] ∧
    (FileServer.machine null).Reachable Lib.Machine.anyStep s.files) ?_ ?_
  · rintro s ⟨rootThread, heap, server, stack, curXid, hboot, hflush⟩
    obtain ⟨hrpcs, hfiles⟩ := files_flush hflush
    refine ⟨hrpcs, s.files, ⟨rootThread, heap, ?_⟩, .refl _⟩
    rw [hboot, hfiles]
    rfl
  · intro s a s' hinv _ hstep
    obtain ⟨hrpcs, hfiles⟩ := files_step hinv.1 hstep
    refine ⟨hrpcs, ?_⟩
    cases hfiles with
    | inl heq =>
        rw [heq]
        exact hinv.2
    | inr hmove =>
        obtain ⟨b, hb⟩ := hmove
        exact hinv.2.path ((Lib.Machine.Path.refl _).step trivial hb)

/-- The handle of the directory that the server has mounted. -/
def rootHandle : Nfs.Cookie := cookieOf 1

/-- A stack of zeroes. -/
def zeroStack : Stack where
  reply := FileServer.okReply 0
  sat := ⟨0, 0, 0, 0, ⟨0, 0⟩, ⟨0, 0⟩⟩

/-- The network after `io_init`. -/
def booted : FileNetwork :=
  (flush rootHandle 2049 FileServer.booted none zeroStack
    { curXid := 100, queue := [], outbox := [] }).get (by decide +kernel)

/-- The server starts in this state, whatever is at address 0. -/
theorem booted_init : (machine rootHandle 2049 null).init booted :=
  ⟨⟨64, 1⟩, FileServer.zeroedEntry, FileServer.booted, zeroStack, 100, (Option.some_get _).symm,
    (Option.some_get _).symm⟩

/-- The directory with one file in it. -/
def oneFile : List UInt8 :=
  Nfs.encodeReply 102 (p := .readdir) (.ok ([⟨3, FileServer.shell, 1⟩], true))

/-- The listing of the directory arrives twice: the file in it is looked up once. -/
theorem files_over_network_startup : ∃ s : FileNetwork, s.transport.queue.length = 3 ∧
    s.server.io.rpcs = [] ∧
      (FileServer.machine none).Reachable Lib.Machine.anyStep s.files := by
  obtain ⟨s, -, hreach, hlength⟩ := Lib.Machine.exists_run (machine rootHandle 2049 none)
    Lib.Machine.anyStep booted_init [.arrive oneFile zeroStack, .arrive oneFile zeroStack]
    (fun s => s.transport.queue.length = 3) (by decide +kernel)
  exact ⟨s, hlength, files_over_network hreach⟩

end FileNetwork

end Sos
