import Sos.Files.Positions
import Sos.Lib.CString
import Sos.Properties.FileHandles
import Sos.Properties.IpcPage

/-!
# `Sos.Properties.FileStreams`: the bytes that go through the descriptors of files

A descriptor has one position for reading and one for writing, and `nfs_read_callback` and
`nfs_write_callback` advance them when the NFS server has answered. `Storage` follows what has
really been transferred: the bytes that processes have got from an entry, those of it that the
NFS server has stored, and what the files hold then.

`file_streams`: as long as no process uses a descriptor while its last request for it is
outstanding, the positions of every descriptor are the lengths of these two streams, modulo
`2 ^ 32`; there is at most one request for it, and this request is for the file of the descriptor,
at the end of the stream, with the data that was in the IPC page.
-/

set_option autoImplicit false

namespace Sos

/-- The bytes that the server writes to memory of a client. -/
def Access.written (x : Access) : List UInt8 :=
  x.data.elim [] fun data => (List.range x.length).map data

/-- The position in the file that a request is for. -/
def Rpc.position : Rpc → Nat
  | .read _ _ position _ => position
  | .write _ _ position _ => position
  | .create _ | .lookup _ | .readdir _ => 0

/-- The files on the NFS server, and what has gone through each entry. -/
structure Storage where
  /-- The bytes of a file, which its handle names. -/
  content : Nat → Nat → UInt8
  /-- The data of the last write request. -/
  carried : Nat → List UInt8
  /-- What has been copied to the clients. -/
  received : Nat → List UInt8
  /-- What the NFS server has stored. -/
  sent : Nat → List UInt8

namespace Storage

def start (content : Nat → Nat → UInt8) : Storage where
  content := content
  carried _ := []
  received _ := []
  sent _ := []

/-- The stream that a request of an entry is for. -/
def stream (x : Storage) (rpc : Rpc) (e : Nat) : List UInt8 :=
  if rpc.accessMode = fmWrite then x.sent e else x.received e

/-- The NFS server has answered a request; `accesses` are those of the callback. A file is created
with size 0, also when it exists already. -/
def answer (x : Storage) (rpc : Rpc) (r : NfsReply) (accesses : List Access) : Storage :=
  match rpc with
  | .read e _ _ _ =>
    { x with
      received := Function.update x.received e
        (x.received e ++ accesses.flatMap Access.written) }
  | .write e handle position _ =>
    if r.status = .ok then
      { x with
        content := Function.update x.content handle
          (Lib.store (x.content handle) position (x.carried e))
        sent := Function.update x.sent e (x.sent e ++ x.carried e) }
    else x
  | .create _ =>
    if r.status = .ok then { x with content := Function.update x.content r.handle fun _ => 0 }
    else x
  | .lookup _ | .readdir _ => x

/-- What one step transfers. The message of `nfs_write` is built at once, so that the data is what
is in the IPC page then. -/
def record (s : FileServer) (a : FileAction) (s' : FileServer) (x : Storage) : Storage :=
  match a with
  | .writeFile _ [_, toWrite] (some page) _ =>
    (s.transfer a).elim x fun t =>
      { x with carried := Function.update x.carried t.1 ((List.range toWrite).map page.bytes) }
  | .nfsReply k r => (s.io.rpcs[k]?).elim x fun rpc => x.answer rpc r s'.io.accesses
  | _ => x

end Storage

namespace FileTables

/-- A request of an entry is for its file, at the end of the stream, and the length of a write is
that of the data. -/
structure Matches (c : FileTables) (x : Storage) (rpc : Rpc) (e : Nat) : Prop where
  position : rpc.position = (x.stream rpc e).length % 2 ^ 32
  carried : rpc.accessMode = fmWrite → (x.carried e).length = rpc.count
  file : ∀ f, c.entries e = some f → ∃ file ∈ c.fileCache, f.file = some file ∧
    file ≠ consoleFile ∧ rpc.handle = (c.files file).nfsHandle
  toWrite : ∀ f, c.entries e = some f → rpc.accessMode = fmWrite → f.toWrite = rpc.count

structure StreamsOk (c : FileTables) (x : Storage) : Prop where
  positions : ∀ e f file, c.entries e = some f → f.file = some file → file ≠ consoleFile →
    f.readPosition = (x.received e).length % 2 ^ 32 ∧
      f.writePosition = (x.sent e).length % 2 ^ 32
  fresh : ∀ e, c.nextEntry ≤ e → x.received e = [] ∧ x.sent e = []
  unused : ∀ e f file, c.entries e = some f → f.file = some file → file ∉ c.fileCache →
    x.received e = []
  single : ∀ e, c.outstanding e ≤ 1
  requests : ∀ rpc ∈ c.rpcs, ∀ e, rpc.entry = some e → Matches c x rpc e

variable {c c' : FileTables} {x x' : Storage}

/-! ### What changes -/

/-- The change of one entry, its streams and its requests. -/
theorem StreamsOk.change {e : Nat} (h : c.StreamsOk x) (he : e < c.nextEntry)
    (hnext : c'.nextEntry = c.nextEntry) (hcache : c'.fileCache = c.fileCache)
    (hhandle : ∀ file, (c'.files file).nfsHandle = (c.files file).nfsHandle)
    (hentries : ∀ e', e' ≠ e → c'.entries e' = c.entries e')
    (hstreams : ∀ e', e' ≠ e → x'.received e' = x.received e' ∧ x'.sent e' = x.sent e' ∧
      x'.carried e' = x.carried e')
    (hpositions : ∀ f file, c'.entries e = some f → f.file = some file → file ≠ consoleFile →
      f.readPosition = (x'.received e).length % 2 ^ 32 ∧
        f.writePosition = (x'.sent e).length % 2 ^ 32)
    (hunused : ∀ f file, c'.entries e = some f → f.file = some file → file ∉ c.fileCache →
      x'.received e = [])
    (hsingle : ∀ e', c'.outstanding e' ≤ 1)
    (hrequests : ∀ rpc ∈ c'.rpcs, rpc ∈ c.rpcs ∧ rpc.entry ≠ some e ∨
      rpc.entry = some e ∧ Matches c' x' rpc e) : c'.StreamsOk x' where
  positions e' f file hf hfile hne := by
    -- Entry `e` is given by the hypotheses, the streams of every other entry are unchanged.
    by_cases heq : e' = e
    · subst heq
      exact hpositions f file hf hfile hne
    · rw [(hstreams e' heq).1, (hstreams e' heq).2.1]
      exact h.positions e' f file (hentries e' heq ▸ hf) hfile hne
  fresh e' hle := by
    rw [hnext] at hle
    have hne : e' ≠ e := by omega
    rw [(hstreams e' hne).1, (hstreams e' hne).2.1]
    exact h.fresh e' hle
  unused e' f file hf hfile hnot := by
    rw [hcache] at hnot
    by_cases heq : e' = e
    · subst heq
      exact hunused f file hf hfile hnot
    · rw [(hstreams e' heq).1]
      exact h.unused e' f file (hentries e' heq ▸ hf) hfile hnot
  single := hsingle
  -- A request for `e` is new or gone, so an old one belongs to another entry.
  requests rpc hmem e' he' := by
    cases hrequests rpc hmem with
    | inr hnew =>
        have heq : e = e' := Option.some.inj (hnew.1.symm.trans he')
        exact heq ▸ hnew.2
    | inl hold =>
        have hne : e' ≠ e := fun heq => hold.2 (heq ▸ he')
        have hmatch := h.requests rpc hold.1 e' he'
        constructor
        case position =>
          rw [hmatch.position]
          unfold Storage.stream
          rw [(hstreams e' hne).1, (hstreams e' hne).2.1]
        case carried =>
          rw [(hstreams e' hne).2.2]
          exact hmatch.carried
        case file =>
          intro f hf
          obtain ⟨file, hcached, hfile, hconsole, heq⟩ := hmatch.file f (hentries e' hne ▸ hf)
          exact ⟨file, hcache ▸ hcached, hfile, hconsole, heq.trans (hhandle file).symm⟩
        case toWrite =>
          intro f hf
          exact hmatch.toWrite f (hentries e' hne ▸ hf)

/-- Requests are answered that are of no entry. -/
theorem StreamsOk.answer_file {k : Nat} {rpc : Rpc} (h : c.StreamsOk x)
    (hrpc : c.rpcs[k]? = some rpc) (hnone : rpc.entry = none) : (c.answer k).StreamsOk x where
  positions := h.positions
  fresh := h.fresh
  unused := h.unused
  single e := by
    rw [outstanding_answer_file hrpc hnone]
    exact h.single e
  requests rpc hmem e he := by
    have hmatch := h.requests rpc (List.mem_of_mem_eraseIdx hmem) e he
    exact ⟨hmatch.position, hmatch.carried, hmatch.file, hmatch.toWrite⟩

/-- The answered request was the only one of its entry. -/
theorem StreamsOk.answered {k e : Nat} {rpc : Rpc} (h : c.StreamsOk x)
    (hrpc : c.rpcs[k]? = some rpc) (he : rpc.entry = some e) : (c.answer k).outstanding e = 0 := by
  have hcount := outstanding_answer hrpc e
  have hsingle := h.single e
  rw [if_pos he] at hcount
  omega

/-- No request is for a descriptor without outstanding requests. -/
theorem ne_of_outstanding {e : Nat} {rpc : Rpc} (hzero : c.outstanding e = 0)
    (hmem : rpc ∈ c.rpcs) : rpc.entry ≠ some e := by
  intro he
  have hpos := outstanding_pos hmem he
  omega

variable {s s' : Io} {isActive isActive' : Nat → Bool} {tid tid' : Nat → ThreadId}

/-- A handler that leaves the positions alone. -/
theorem StreamsOk.keeps (h : (s.tables isActive tid).StreamsOk x) (hk : s.KeepsPositions s')
    (htokens : ∀ rpc ∈ s.rpcs, ∀ e, rpc.entry = some e → e < s.nextEntry)
    (hcache : ∀ file ∈ s.fileCache, file ∈ s'.fileCache)
    (hhandle : ∀ file ∈ s.fileCache, (s'.files file).nfsHandle = (s.files file).nfsHandle) :
    (s'.tables isActive' tid').StreamsOk x := by
  obtain ⟨new, hrpcs, hnew⟩ := hk.requests
  -- The step adds only requests without an entry.
  have hold : ∀ rpc ∈ s'.rpcs, ∀ e, rpc.entry = some e → rpc ∈ s.rpcs := by
    intro rpc hmem e he
    rw [hrpcs] at hmem
    cases List.mem_append.mp hmem with
    | inl hmem => exact hmem
    | inr hmem =>
        rw [hnew rpc hmem] at he
        cases he
  constructor
  case positions =>
    intro e f' file hf' hfile hne
    -- An entry was there before with the same positions, or is new and starts at zero.
    rcases hk.entries e f' hf' with ⟨f, hf, hsame⟩ | ⟨hle, hzero⟩
    · rw [hsame.readPosition, hsame.writePosition]
      exact h.positions e f file hf (hsame.file ▸ hfile) hne
    · obtain ⟨hreceived, hsent⟩ := h.fresh e hle
      obtain ⟨hread, hwrite⟩ := hzero fun hconsole =>
        hne (Option.some.inj (hfile.symm.trans hconsole))
      rw [hread, hwrite, hreceived, hsent]
      exact ⟨rfl, rfl⟩
  case fresh =>
    intro e hle
    exact h.fresh e (Nat.le_trans hk.next hle)
  case unused =>
    intro e f' file hf' hfile hnot
    rcases hk.entries e f' hf' with ⟨f, hf, hsame⟩ | ⟨hle, -⟩
    · exact h.unused e f file hf (hsame.file ▸ hfile) fun hcached => hnot (hcache file hcached)
    · exact (h.fresh e hle).1
  case single =>
    intro e
    have hnone : new.countP (fun rpc => rpc.entry = some e) = 0 := by
      rw [List.countP_eq_zero]
      intro rpc hmem
      rw [hnew rpc hmem]
      simp
    have hsingle : s.rpcs.countP (fun rpc => rpc.entry = some e) ≤ 1 := h.single e
    show s'.rpcs.countP _ ≤ 1
    rw [hrpcs, List.countP_append, hnone]
    exact hsingle
  case requests =>
    intro rpc hmem e he
    have hmem' := hold rpc hmem e he
    have hmatch := h.requests rpc hmem' e he
    have hentry : ∀ f', s'.entries e = some f' → ∃ f, s.entries e = some f ∧
        SamePositions f f' := by
      intro f' hf'
      -- An entry with a request under way is not a new one.
      rcases hk.entries e f' hf' with hsame | ⟨hle, -⟩
      · exact hsame
      · exact absurd (htokens rpc hmem' e he) (Nat.not_lt.mpr hle)
    constructor
    case position => exact hmatch.position
    case carried => exact hmatch.carried
    case file =>
      intro f' hf'
      obtain ⟨f, hf, hsame⟩ := hentry f' hf'
      obtain ⟨file, hcached, hfile, hne, heq⟩ := hmatch.file f hf
      exact ⟨file, hcache file hcached, hsame.file.trans hfile, hne,
        heq.trans (hhandle file hcached).symm⟩
    case toWrite =>
      intro f' hf' hmode
      obtain ⟨f, hf, hsame⟩ := hentry f' hf'
      exact hsame.toWrite.trans (hmatch.toWrite f hf hmode)

/-- A request is sent for an entry that has none. -/
theorem StreamsOk.asked {e file : Nat} {f f' : FileTableEntry} {rpc : Rpc} (h : c.StreamsOk x)
    (hentries : c'.entries = Function.update c.entries e (some f'))
    (hrpcs : c'.rpcs = c.rpcs ++ [rpc]) (hnext : c'.nextEntry = c.nextEntry)
    (hcache : c'.fileCache = c.fileCache) (hfiles : c'.files = c.files)
    (hzero : c.outstanding e = 0) (he : e < c.nextEntry) (hf : c.entries e = some f)
    (hfile : f.file = some file) (hcached : file ∈ c.fileCache) (hne : file ≠ consoleFile)
    (hfile' : f'.file = f.file) (hread : f'.readPosition = f.readPosition)
    (hwrite : f'.writePosition = f.writePosition) (hrpc : rpc.entry = some e)
    (hhandle : rpc.handle = (c.files file).nfsHandle)
    (hposition : rpc.position = (x.stream rpc e).length % 2 ^ 32)
    (htoWrite : rpc.accessMode = fmWrite → f'.toWrite = rpc.count)
    (hreceived : x'.received = x.received) (hsent : x'.sent = x.sent)
    (hother : ∀ e', e' ≠ e → x'.carried e' = x.carried e')
    (hcarried : rpc.accessMode = fmWrite → (x'.carried e).length = rpc.count) :
    c'.StreamsOk x' := by
  have hself : c'.entries e = some f' := by rw [hentries, Function.update_self]
  refine h.change he hnext hcache (fun file => by rw [hfiles]) ?_ ?_ ?_ ?_ ?_ ?_
  -- The position of the request is the length of its stream; both stay as they are.
  · intro e' heq
    rw [hentries, Function.update_of_ne heq]
  · intro e' heq
    rw [hreceived, hsent]
    exact ⟨rfl, rfl, hother e' heq⟩
  · intro g i hg hi hconsole
    obtain rfl := Option.some.inj (hself.symm.trans hg)
    rw [hread, hwrite, hreceived, hsent]
    exact h.positions e f i hf (hfile' ▸ hi) hconsole
  · intro g i hg hi hnot
    obtain rfl := Option.some.inj (hself.symm.trans hg)
    rw [hfile', hfile, Option.some.injEq] at hi
    exact absurd (hi ▸ hcached) hnot
  -- The entry had no request, so now it has one.
  · intro e'
    have hcount : c'.outstanding e' = (c.send rpc).outstanding e' := by
      show c'.rpcs.countP _ = (c.rpcs ++ [rpc]).countP _
      rw [hrpcs]
    have hsingle := h.single e'
    rw [hcount, outstanding_send, hrpc]
    split
    next heq =>
      rw [Option.some.injEq] at heq
      rw [← heq, hzero]
    next => exact hsingle
  · intro rpc' hmem
    rw [hrpcs] at hmem
    cases List.mem_append.mp hmem with
    | inl hmem => exact Or.inl ⟨hmem, ne_of_outstanding hzero hmem⟩
    | inr hmem =>
        obtain rfl := List.mem_singleton.mp hmem
        refine Or.inr ⟨hrpc, ?_, hcarried, ?_, ?_⟩
        · rw [hposition]
          unfold Storage.stream
          rw [hreceived, hsent]
        · intro g hg
          obtain rfl := Option.some.inj (hself.symm.trans hg)
          refine ⟨file, hcache ▸ hcached, hfile'.trans hfile, hne, ?_⟩
          rw [hhandle, hfiles]
        · intro g hg
          obtain rfl := Option.some.inj (hself.symm.trans hg)
          exact htoWrite

/-- The request of an entry is answered. -/
theorem StreamsOk.answer_entry {k e : Nat} {rpc : Rpc} (h : c.StreamsOk x)
    (hrpc : c.rpcs[k]? = some rpc) (he : rpc.entry = some e) (hlt : e < c.nextEntry)
    (hnext : c'.nextEntry = c.nextEntry) (hcache : c'.fileCache = c.fileCache)
    (hhandle : ∀ file, (c'.files file).nfsHandle = (c.files file).nfsHandle)
    (hrpcs : c'.rpcs = c.rpcs.eraseIdx k)
    (hentries : ∀ e', e' ≠ e → c'.entries e' = c.entries e')
    (hstreams : ∀ e', e' ≠ e → x'.received e' = x.received e' ∧ x'.sent e' = x.sent e' ∧
      x'.carried e' = x.carried e')
    (hpositions : ∀ f', c'.entries e = some f' → ∃ f, c.entries e = some f ∧ f'.file = f.file ∧
      ∀ file, f.file = some file → file ≠ consoleFile →
        f'.readPosition = (x'.received e).length % 2 ^ 32 ∧
          f'.writePosition = (x'.sent e).length % 2 ^ 32) : c'.StreamsOk x' := by
  have hcount : ∀ e', c'.outstanding e' = (c.answer k).outstanding e' := by
    intro e'
    show c'.rpcs.countP _ = (c.rpcs.eraseIdx k).countP _
    rw [hrpcs]
  refine h.change hlt hnext hcache hhandle hentries hstreams ?_ ?_ ?_ ?_
  · intro f' file hf' hfile hne
    obtain ⟨f, hf, hsame, hpos⟩ := hpositions f' hf'
    exact hpos file (hsame ▸ hfile) hne
  · intro f' file hf' hfile hnot
    obtain ⟨f, hf, hsame, -⟩ := hpositions f' hf'
    -- The file of a request is in the cache.
    obtain ⟨i, hcached, hi, -⟩ := (h.requests rpc (List.mem_of_getElem? hrpc) e he).file f hf
    rw [hsame, hi, Option.some.injEq] at hfile
    exact absurd (hfile ▸ hcached) hnot
  · intro e'
    have hle := h.single e'
    have hanswer := outstanding_answer hrpc e'
    rw [hcount]
    omega
  · intro rpc' hmem
    rw [hrpcs] at hmem
    refine Or.inl ⟨List.mem_of_mem_eraseIdx hmem, ?_⟩
    exact ne_of_outstanding (c := c.answer k) (h.answered hrpc he) hmem

/-- An entry without a request gets another buffer and other lengths. -/
theorem StreamsOk.setEntry {e : Nat} {f f' : FileTableEntry} (h : c.StreamsOk x)
    (hzero : c.outstanding e = 0) (he : e < c.nextEntry) (hf : c.entries e = some f)
    (hfile : f'.file = f.file) (hread : f'.readPosition = f.readPosition)
    (hwrite : f'.writePosition = f.writePosition) (hreceived : x'.received = x.received)
    (hsent : x'.sent = x.sent) (hother : ∀ e', e' ≠ e → x'.carried e' = x.carried e') :
    (c.setEntry e f').StreamsOk x' := by
  have hself : (c.setEntry e f').entries e = some f' := Function.update_self ..
  refine h.change he rfl rfl (fun _ => rfl) ?_ ?_ ?_ ?_ h.single ?_
  · exact fun e' hne => Function.update_of_ne hne ..
  · intro e' hne
    rw [hreceived, hsent]
    exact ⟨rfl, rfl, hother e' hne⟩
  · intro g i hg hi hconsole
    obtain rfl := Option.some.inj (hself.symm.trans hg)
    rw [hread, hwrite, hreceived, hsent]
    exact h.positions e f i hf (hfile ▸ hi) hconsole
  · intro g i hg hi hnot
    obtain rfl := Option.some.inj (hself.symm.trans hg)
    rw [hreceived]
    exact h.unused e f i hf (hfile ▸ hi) hnot
  -- An old request cannot be for `e`, which has none.
  · exact fun rpc hmem => Or.inl ⟨hmem, ne_of_outstanding hzero hmem⟩

/-- The contents of the files do not matter here. -/
theorem StreamsOk.of_streams (h : c.StreamsOk x) (hreceived : x'.received = x.received)
    (hsent : x'.sent = x.sent) (hcarried : x'.carried = x.carried) : c.StreamsOk x' := by
  obtain ⟨content, carried, received, sent⟩ := x
  obtain ⟨content', carried', received', sent'⟩ := x'
  dsimp only at hreceived hsent hcarried
  subst hreceived hsent hcarried
  refine ⟨h.positions, h.fresh, h.unused, h.single, fun rpc hmem e he => ?_⟩
  have hmatch := h.requests rpc hmem e he
  exact ⟨hmatch.position, hmatch.carried, hmatch.file, hmatch.toWrite⟩

end FileTables

namespace Io

variable {s s' : Io}

/-- What passes the check of the mode is a valid descriptor. -/
theorem canAccess_valid {t : ThreadId} {fd bit e : Nat} {f : FileTableEntry}
    (h : s.canAccess t fd bit = some (some (e, f))) : s.isValidFiledescriptor t fd = some e := by
  unfold canAccess at h
  split at h
  · cases h
  next hvalid =>
    obtain ⟨g, -, h⟩ := Option.bind_eq_some_iff.mp h
    rw [Option.some.injEq] at h
    split at h
    · cases h
      exact hvalid
    · cases h

/-- What a callback of an entry leaves as it is. -/
structure AnswersEntry (s : Io) (e : Nat) (s' : Io) : Prop where
  rpcs : s'.rpcs = s.rpcs
  nextEntry : s'.nextEntry = s.nextEntry
  fileCache : s'.fileCache = s.fileCache
  nfsHandle : ∀ file, (s'.files file).nfsHandle = (s.files file).nfsHandle
  entries : ∀ e', e' ≠ e → s'.entries e' = s.entries e'

/-- After `free` the descriptor is gone. -/
theorem freeEntry_answers {e : Nat} (h : s.freeEntry e = some s') :
    s.AnswersEntry e s' ∧ s'.entries e = none := by
  obtain ⟨f, -, h⟩ := Option.bind_eq_some_iff.mp h
  cases h
  refine ⟨⟨rfl, rfl, rfl, fun _ => rfl, fun e' hne => ?_⟩, Function.update_self ..⟩
  exact Function.update_of_ne hne ..

/-- `nfs_read_callback` frees the entry, or copies the data and advances the position, or reports
an error. -/
theorem nfsReadCallback_cases {e : Nat} {r : NfsReply} (h : s.nfsReadCallback e r = some s') :
    s.AnswersEntry e s' ∧ ∃ f, s.entries e = some f ∧
      (s'.entries e = none ∨ s'.entries e = some f ∧ s'.accesses = s.accesses ∨
        r.status = .ok ∧ s'.entries e = some
            { f with readPosition := (f.readPosition + r.bytesRead) % 2 ^ 32 } ∧
          ∃ addr, s'.accesses = s.accesses ++ [⟨addr, r.bytesRead, some r.data⟩]) := by
  obtain ⟨f, hf, h⟩ := Option.bind_eq_some_iff.mp h
  -- Killed entry, failed read, or the data copied and the position moved on.
  split at h
  · obtain ⟨hkeeps, hnone⟩ := freeEntry_answers h
    exact ⟨hkeeps, f, hf, Or.inl hnone⟩
  · split at h
    next hok =>
      obtain ⟨addr, -, h⟩ := Option.bind_eq_some_iff.mp h
      cases h
      refine ⟨⟨rfl, rfl, rfl, fun _ => rfl, fun e' hne => ?_⟩, f, hf,
        Or.inr (Or.inr ⟨hok, setEntry_self .., addr, rfl⟩)⟩
      exact Function.update_of_ne hne ..
    next =>
      cases h
      exact ⟨⟨rfl, rfl, rfl, fun _ => rfl, fun _ _ => rfl⟩, f, hf, Or.inr (Or.inl ⟨hf, rfl⟩)⟩

/-- `nfs_write_callback` frees the entry, or advances the position, or reports an error. -/
theorem nfsWriteCallback_cases {e : Nat} {r : NfsReply} (h : s.nfsWriteCallback e r = some s') :
    s.AnswersEntry e s' ∧ ∃ f, s.entries e = some f ∧
      (s'.entries e = none ∨ r.status ≠ .ok ∧ s'.entries e = some f ∨
        r.status = .ok ∧ s'.entries e = some
          { f with writePosition := (f.writePosition + f.toWrite) % 2 ^ 32 }) := by
  obtain ⟨f, hf, h⟩ := Option.bind_eq_some_iff.mp h
  -- Killed entry, or by the status: only `NFS_OK` moves the position.
  split at h
  · obtain ⟨hkeeps, hnone⟩ := freeEntry_answers h
    exact ⟨hkeeps, f, hf, Or.inl hnone⟩
  · split at h
    next hok =>
      obtain ⟨file, -, h⟩ := Option.bind_eq_some_iff.mp h
      cases h
      refine ⟨⟨rfl, rfl, rfl, fun i => ?_, fun e' hne => ?_⟩, f, hf,
        Or.inr (Or.inr ⟨hok, setEntry_self ..⟩)⟩
      · show (Function.update s.files file _ i).nfsHandle = _
        by_cases hi : i = file
        · rw [hi, Function.update_self]
          rfl
        · rw [Function.update_of_ne hi]
      · exact Function.update_of_ne hne ..
    next hstatus =>
      cases h
      refine ⟨⟨rfl, rfl, rfl, fun _ => rfl, fun _ _ => rfl⟩, f, hf, Or.inr (Or.inl ⟨?_, hf⟩)⟩
      rw [hstatus]
      exact nofun
    next hstatus =>
      cases h
      refine ⟨⟨rfl, rfl, rfl, fun _ => rfl, fun _ _ => rfl⟩, f, hf, Or.inr (Or.inl ⟨?_, hf⟩)⟩
      rw [hstatus]
      exact nofun

end Io

namespace FileServer

variable {null : Option (List UInt8)} {s s' : FileServer} {a : FileAction} {x : Storage}

/-! ### One step -/

/-- No process uses a descriptor while a request for it is outstanding: the process waits for the
answer in `L4_Call`. -/
def Sequential (s : FileServer) (a : FileAction) : Prop :=
  ∀ d ∈ a.descriptor, ∀ e ∈ s.io.isValidFiledescriptor (threadId d.1) d.2,
    s.tables.outstanding e = 0

instance (s : FileServer) (a : FileAction) : Decidable (s.Sequential a) := by
  unfold Sequential
  infer_instance

/-- A file on the NFS server is not the console. -/
theorem ne_console (hwf : s.tables.Wf) {file : Nat} (hdevice : (s.io.files file).device = .nfs) :
    file ≠ consoleFile := by
  rintro rfl
  have hserial : (s.io.files consoleFile).device = .serial := hwf.files.serial
  rw [hserial] at hdevice
  cases hdevice

/-- What is known about the entry of a request that passes the checks. -/
theorem idle_entry (hwf : s.tables.Wf) (hseq : s.Sequential a) {p fd bit e file : Nat}
    {f : FileTableEntry} (hp : s.Live p) (ha : a.descriptor = some (p, fd))
    (hcan : s.io.canAccess (threadId p) fd bit = some (some (e, f))) (hfile : f.file = some file) :
    s.tables.outstanding e = 0 ∧ e < s.tables.nextEntry ∧ s.tables.entries e = some f ∧
      file ∈ s.tables.fileCache := by
  obtain ⟨hslot, hf, -⟩ := Io.canAccess_spec s.isActive s.tid hcan
  obtain ⟨i, hcached, hi, -⟩ := (hwf.handles p fd e f hp.1 hp.2.2.1 hslot hf).file
  have hsame : file = i := Option.some.inj (hfile.symm.trans hi)
  exact ⟨hseq (p, fd) ha e (Io.canAccess_valid hcan), hwf.entries.allocated e f hf, hf,
    hsame ▸ hcached⟩

/-- A `SOS_READ` or `SOS_WRITE` that passes the checks. -/
theorem streamsOk_transfer {e : Nat} {f : FileTableEntry} (hwf : s.tables.Wf)
    (h : s.tables.StreamsOk x) (hseq : s.Sequential a) (hsome : s.transfer a = some (e, f))
    (hs : (machine null).step s a = some s') :
    s'.tables.StreamsOk (Storage.record s a s' x) := by
  obtain ⟨file, ht⟩ := step_transfers hsome hs
  obtain ⟨hen, -⟩ := step_eq_some hs
  have hcache : ∀ i ∈ s.io.fileCache, i ∈ s'.io.fileCache :=
    fun i hi => ((step_wf hwf hs).1.cacheKept hwf.files).cached.subset hi
  have hhandle : ∀ i ∈ s.io.fileCache, (s'.io.files i).nfsHandle = (s.io.files i).nfsHandle :=
    fun i hi => step_nfsHandle hwf hs hi
  -- A read or a write, on NFS or on the console, as in io.c.
  cases ht with
  | @read p fd toRead _ _ page f₁ _ hcan hfile hdevice =>
      obtain ⟨hzero, hlt, hf, hcached⟩ := idle_entry hwf hseq hen.1 rfl hcan hfile
      have hself := Io.setEntry_self s.io.cleared e
        { f₁ with toRead := toRead, clientBuffer := some page.addr }
      cases hdev : (s.io.files file).device with
      | nfs =>
          -- On NFS the request carries the position, which is the length of the stream.
          have hne := ne_console hwf hdev
          have hpos := (h.positions e f₁ file hf hfile hne).1
          rw [hdev, Io.readNfs_eq hself hfile, Option.some.injEq] at hdevice
          have hentries : s'.io.entries = Function.update s.io.entries e (some { f₁ with
              toRead := toRead, clientBuffer := some page.addr, awaitsCallback := true }) := by
            rw [← hdevice]
            exact Function.update_idem ..
          have hrpcs : s'.io.rpcs = s.io.rpcs ++
              [.read e (s.io.files file).nfsHandle f₁.readPosition toRead] := by
            rw [← hdevice]
            rfl
          exact h.asked hentries hrpcs (by show s'.io.nextEntry = _; rw [← hdevice]; rfl)
            (by show s'.io.fileCache = _; rw [← hdevice]; rfl)
            (by show s'.io.files = _; rw [← hdevice]; rfl) hzero hlt hf hfile hcached hne rfl rfl rfl
            rfl rfl hpos nofun rfl rfl (fun _ _ => rfl) nofun
      -- The console keeps no position.
      | serial =>
          rw [hdev] at hdevice
          have hset : ((s.io.cleared.setEntry e { f₁ with
              toRead := toRead, clientBuffer := some page.addr }).tables s.isActive s.tid).StreamsOk
              x := h.setEntry hzero hlt hf rfl rfl rfl rfl rfl fun _ _ => rfl
          exact hset.keeps (Io.readSerial_keepsPositions hdevice) hwf.entries.tokens hcache hhandle
  | @write p fd toWrite _ _ page f₁ allocated _ hcan hlimit hword hfile hdevice =>
      obtain ⟨hzero, hlt, hf, hcached⟩ := idle_entry hwf hseq hen.1 rfl hcan hfile
      have hself := Io.setEntry_self s.io.cleared e
        { f₁ with toWrite := toWrite, clientBuffer := some page.addr }
      -- The bytes that the write carries are the page's, at the moment of the call.
      have hrecord : Storage.record s (.writeFile p [fd, toWrite] (some page) allocated) s' x =
          { x with
            carried := Function.update x.carried e ((List.range toWrite).map page.bytes) } := by
        show (s.transfer _).elim x _ = _
        rw [transfer, if_neg (Int.not_lt.mpr hlimit), hcan]
        rfl
      have hother : ∀ e', e' ≠ e → Function.update x.carried e ((List.range toWrite).map page.bytes)
          e' = x.carried e' := fun e' hne => Function.update_of_ne hne ..
      rw [hrecord]
      cases hdev : (s.io.files file).device with
      | nfs =>
          have hne := ne_console hwf hdev
          have hpos := (h.positions e f₁ file hf hfile hne).2
          rw [hdev, Io.writeNfs_eq hself hfile rfl hword, Option.ite_none_right_eq_some,
            Option.some.injEq] at hdevice
          obtain ⟨-, hdevice⟩ := hdevice
          have hentries : s'.io.entries = Function.update s.io.entries e (some { f₁ with
              toWrite := toWrite, clientBuffer := some page.addr, awaitsCallback := true }) := by
            rw [← hdevice]
            exact Function.update_idem ..
          have hrpcs : s'.io.rpcs = s.io.rpcs ++
              [.write e (s.io.files file).nfsHandle f₁.writePosition toWrite] := by
            rw [← hdevice]
            rfl
          refine h.asked hentries hrpcs (by show s'.io.nextEntry = _; rw [← hdevice]; rfl)
            (by show s'.io.fileCache = _; rw [← hdevice]; rfl)
            (by show s'.io.files = _; rw [← hdevice]; rfl) hzero hlt hf hfile hcached hne rfl rfl rfl
            rfl rfl hpos (fun _ => rfl) rfl rfl hother fun _ => ?_
          show (Function.update x.carried e _ e).length = toWrite
          rw [Function.update_self, List.length_map, List.length_range]
      | serial =>
          rw [hdev] at hdevice
          have hset : ((s.io.cleared.setEntry e { f₁ with
              toWrite := toWrite, clientBuffer := some page.addr }).tables s.isActive s.tid).StreamsOk
              { x with
                carried := Function.update x.carried e ((List.range toWrite).map page.bytes) } :=
            h.setEntry hzero hlt hf rfl rfl rfl rfl rfl hother
          exact hset.keeps (Io.writeSerial_keepsPositions hdevice) hwf.entries.tokens hcache hhandle

/-- The NFS server answers a request. -/
theorem streamsOk_nfsReply {k : Nat} {r : NfsReply} (hwf : s.tables.Wf)
    (h : s.tables.StreamsOk x) (hs : (machine null).step s (.nfsReply k r) = some s') :
    s'.tables.StreamsOk (Storage.record s (.nfsReply k r) s' x) := by
  have hcache : ∀ i ∈ s.io.fileCache, i ∈ s'.io.fileCache :=
    fun i hi => ((step_wf hwf hs).1.cacheKept hwf.files).cached.subset hi
  have hhandle : ∀ i ∈ s.io.fileCache, (s'.io.files i).nfsHandle = (s.io.files i).nfsHandle :=
    fun i hi => step_nfsHandle hwf hs hi
  obtain ⟨-, hexec⟩ := step_eq_some hs
  obtain ⟨io, hio, rfl⟩ := Option.map_eq_some_iff.mp hexec
  obtain ⟨rpc, hrpc, hcall⟩ := Option.bind_eq_some_iff.mp hio
  have hget : s.tables.rpcs[k]? = some rpc := hrpc
  have hrecord : Storage.record s (.nfsReply k r) { s with io := io } x =
      x.answer rpc r io.accesses := by
    show (s.io.rpcs[k]?).elim x _ = _
    rw [show s.io.rpcs[k]? = some rpc from hrpc]
    rfl
  rw [hrecord]
  -- The callbacks of the requests for files.
  have hfile : rpc.entry = none → ({ s with io := io } : FileServer).tables.StreamsOk x := by
    intro hnone
    have hanswer : (({ s.io.cleared with rpcs := s.io.rpcs.eraseIdx k } : Io).tables s.isActive
        s.tid).StreamsOk x := h.answer_file hget hnone
    exact hanswer.keeps (Io.callback_keepsPositions hnone hcall)
      (fun rpc hmem => hwf.entries.tokens rpc (List.mem_of_mem_eraseIdx hmem)) hcache hhandle
  have htoken := hwf.entries.tokens rpc (List.mem_of_getElem? hget)
  cases rpc with
  | lookup file => exact hfile rfl
  | readdir cookie => exact hfile rfl
  | create file =>
      refine (hfile rfl).of_streams ?_ ?_ ?_
      all_goals
        unfold Storage.answer
        dsimp only
        split
      all_goals rfl
  | read e handle position count =>
      obtain ⟨hans, f, hf, hcases⟩ := Io.nfsReadCallback_cases hcall
      refine h.answer_entry hget rfl (htoken e rfl) hans.nextEntry hans.fileCache hans.nfsHandle
        hans.rpcs hans.entries ?_ ?_
      · intro e' hne
        exact ⟨Function.update_of_ne hne .., rfl, rfl⟩
      · intro f' hf'
        have hentry : io.entries e = some f' := hf'
        have hself : (x.answer (.read e handle position count) r io.accesses).received e =
            x.received e ++ io.accesses.flatMap Access.written := Function.update_self ..
        rw [hself]
        rcases hcases with hnone | ⟨hsame, hacc⟩ | ⟨-, hadvance, addr, hacc⟩
        · rw [hnone] at hentry
          cases hentry
        · obtain rfl := Option.some.inj (hsame.symm.trans hentry)
          rw [hacc]
          refine ⟨f, hf, rfl, fun file hfile hne => ?_⟩
          show f.readPosition = (x.received e ++ []).length % 2 ^ 32 ∧ _
          rw [List.append_nil]
          exact h.positions e f file hf hfile hne
        · obtain rfl := Option.some.inj (hadvance.symm.trans hentry)
          refine ⟨f, hf, rfl, fun file hfile hne => ?_⟩
          obtain ⟨hread, hwrite⟩ := h.positions e f file hf hfile hne
          refine ⟨?_, hwrite⟩
          have hlength : (io.accesses.flatMap Access.written).length = r.bytesRead := by
            rw [hacc]
            show ((List.range r.bytesRead).map r.data ++ []).length = r.bytesRead
            rw [List.append_nil, List.length_map, List.length_range]
          show (f.readPosition + r.bytesRead) % 2 ^ 32 = _
          rw [List.length_append, hlength, hread, Nat.mod_add_mod]
  | write e handle position count =>
      obtain ⟨hans, f, hf, hcases⟩ := Io.nfsWriteCallback_cases hcall
      have hmatch := h.requests _ (List.mem_of_getElem? hget) e rfl
      refine h.answer_entry hget rfl (htoken e rfl) hans.nextEntry hans.fileCache hans.nfsHandle
        hans.rpcs hans.entries ?_ ?_
      · intro e' hne
        unfold Storage.answer
        dsimp only
        split
        · exact ⟨rfl, Function.update_of_ne hne .., rfl⟩
        · exact ⟨rfl, rfl, rfl⟩
      · intro f' hf'
        have hentry : io.entries e = some f' := hf'
        unfold Storage.answer
        dsimp only
        rcases hcases with hnone | ⟨hno, hsame⟩ | ⟨hok, hadvance⟩
        · rw [hnone] at hentry
          cases hentry
        · obtain rfl := Option.some.inj (hsame.symm.trans hentry)
          rw [if_neg hno]
          exact ⟨f, hf, rfl, fun file => h.positions e f file hf⟩
        · obtain rfl := Option.some.inj (hadvance.symm.trans hentry)
          rw [if_pos hok]
          refine ⟨f, hf, rfl, fun file hfile hne => ?_⟩
          obtain ⟨hread, hwrite⟩ := h.positions e f file hf hfile hne
          refine ⟨hread, ?_⟩
          have hlength : f.toWrite = (x.carried e).length :=
            (hmatch.toWrite f hf rfl).trans (hmatch.carried rfl).symm
          show (f.writePosition + f.toWrite) % 2 ^ 32 =
            (Function.update x.sent e (x.sent e ++ x.carried e) e).length % 2 ^ 32
          rw [Function.update_self, List.length_append, hwrite, hlength, Nat.mod_add_mod]

/-- Every other step leaves the positions alone. -/
theorem step_keepsPositions (hwf : s.tables.Wf) (htransfer : s.transfer a = none)
    (hreply : ∀ k r, a ≠ .nfsReply k r) (hs : (machine null).step s a = some s') :
    s.io.cleared.KeepsPositions s'.io := by
  obtain ⟨-, hexec⟩ := step_eq_some hs
  cases a with
  | readFile p words page =>
      rw [step_refused (a := .readFile p words page) trivial htransfer hs]
      exact .refl _
  | writeFile p words page allocated =>
      rw [step_refused (a := .writeFile p words page allocated) trivial htransfer hs]
      exact .refl _
  | openFile p words page =>
      obtain ⟨io, hio, rfl⟩ := Option.map_eq_some_iff.mp hexec
      exact Io.openFile_keepsPositions hio
  | closeFile p words =>
      obtain ⟨r, hr, rfl⟩ := Option.map_eq_some_iff.mp hexec
      exact Io.closeFile_keepsPositions hr
  | nfsReply k r => exact absurd rfl (hreply k r)
  | serialReceive c =>
      obtain ⟨io, hio, rfl⟩ := Option.map_eq_some_iff.mp hexec
      exact Io.serialReceiveHandler_keepsPositions hio
  | createProcess p page heap =>
      obtain ⟨found, -, hexec⟩ := Option.bind_eq_some_iff.mp hexec
      cases found with
      | error code =>
          cases hexec
          exact .refl _
      | ok name =>
          cases hexec
          have hhead : s.io.fileCache.head? = some consoleFile := hwf.files.head
          -- The descriptor of a new process is one of the console.
          exact .alloc rfl (fun hne => absurd hhead hne) rfl rfl
  | deleteProcess p =>
      obtain ⟨io, hio, rfl⟩ := Option.map_eq_some_iff.mp hexec
      exact Io.closeFiles_keepsPositions hio

/-- A step that starts no transfer and is no answer adds nothing to the record. -/
theorem record_of_none (htransfer : s.transfer a = none) (hreply : ∀ k r, a ≠ .nfsReply k r) :
    Storage.record s a s' x = x := by
  unfold Storage.record
  split
  · rw [htransfer]
    rfl
  · exact absurd rfl (hreply _ _)
  · rfl

/-- Every step of a process that waits for its answers keeps the streams, by cases on the
action. -/
theorem streamsOk_step (hwf : s.tables.Wf) (h : s.tables.StreamsOk x) (hseq : s.Sequential a)
    (hs : (machine null).step s a = some s') :
    s'.tables.StreamsOk (Storage.record s a s' x) := by
  cases htransfer : s.transfer a with
  | some t => exact streamsOk_transfer (e := t.1) (f := t.2) hwf h hseq htransfer hs
  | none =>
      by_cases hreply : ∃ k r, a = .nfsReply k r
      · obtain ⟨k, r, rfl⟩ := hreply
        exact streamsOk_nfsReply hwf h hs
      · have hno : ∀ k r, a ≠ .nfsReply k r := fun k r ha => hreply ⟨k, r, ha⟩
        rw [record_of_none htransfer hno]
        have hcleared : (s.io.cleared.tables s.isActive s.tid).StreamsOk x := h
        exact hcleared.keeps (step_keepsPositions hwf htransfer hno hs) hwf.entries.tokens
          (fun i hi => ((step_wf hwf hs).1.cacheKept hwf.files).cached.subset hi)
          fun i hi => step_nfsHandle hwf hs hi

/-- After booting nothing has gone through a descriptor. -/
theorem boot_streamsOk {rootThread : ThreadId} {heap : FileTableEntry}
    (h : boot rootThread heap = some s) (content : Nat → Nat → UInt8) :
    s.tables.StreamsOk (Storage.start content) := by
  have hbooted := boot_booted h
  have hnone : ∀ rpc ∈ s.tables.rpcs, rpc.entry = none := fun rpc hmem => hbooted.no_tokens hmem
  refine ⟨?_, fun _ _ => ⟨rfl, rfl⟩, fun _ _ _ _ _ _ => rfl, ?_, ?_⟩
  · obtain rfl := Option.some.inj h
    intro e f file hf hfile hne
    -- Descriptor 0 has no file yet, and the positions of descriptor 1 are set.
    change Function.update (Function.update (fun _ => none) 0 _) 1 _ e = some f at hf
    by_cases h1 : e = 1
    · rw [h1, Function.update_self, Option.some.injEq] at hf
      subst hf
      exact ⟨rfl, rfl⟩
    · rw [Function.update_of_ne h1] at hf
      by_cases h0 : e = 0
      · rw [h0, Function.update_self, Option.some.injEq] at hf
        subst hf
        cases hfile
      · rw [Function.update_of_ne h0] at hf
        cases hf
  · intro e
    rw [FileTables.outstanding_eq_zero fun rpc hmem he => by rw [hnone rpc hmem] at he; cases he]
    exact Nat.zero_le 1
  · intro rpc hmem e he
    rw [hnone rpc hmem] at he
    cases he

/-! ### Every run -/

/-- The file system with what is transferred. -/
def streaming (null : Option (List UInt8)) (content : Nat → Nat → UInt8) :
    Lib.Machine (FileServer × Storage) FileAction :=
  (machine null).withHistory (Storage.start content) Storage.record

/-- Requests come one after the other, and what they transfer fits in the page and in the
message. -/
def Orderly (s : FileServer) (a : FileAction) : Prop := s.Sequential a ∧ s.FitsPage a

instance (s : FileServer) (a : FileAction) : Decidable (s.Orderly a) :=
  inferInstanceAs (Decidable (_ ∧ _))

/-- The state of a run. -/
structure Streaming (x : FileServer × Storage) : Prop where
  wf : x.1.tables.Wf
  streams : x.1.tables.StreamsOk x.2

/-- A step with its record keeps the streams and what they rest on. -/
theorem Streaming.step {content : Nat → Nat → UInt8} {x x' : FileServer × Storage}
    (h : Streaming x) (hok : x.1.Orderly a) (hs : (streaming null content).step x a = some x') :
    Streaming x' := by
  obtain ⟨hstep, hrecord⟩ := Lib.Machine.withHistory_step hs
  refine ⟨(step_wf h.wf hstep).2, ?_⟩
  rw [hrecord]
  exact streamsOk_step h.wf h.streams hok.1 hstep

/-- By induction on the run. -/
theorem Reachable.streaming {content : Nat → Nat → UInt8} {x : FileServer × Storage}
    (h : (streaming null content).Reachable (Lib.Machine.onState Orderly) x) : Streaming x := by
  refine h.invariant Streaming ?_ fun _ _ _ hI hok hs => hI.step hok hs
  rintro ⟨s₀, x₀⟩ ⟨⟨rootThread, heap, hboot⟩, hstart⟩
  dsimp only at hstart
  subst hstart
  exact ⟨(boot_booted hboot).wf, boot_streamsOk hboot content⟩

/-- A descriptor of a file on the NFS server is at the end of what has gone through it, in both
directions, and so is its request. -/
structure AtEnd (s : FileServer) (x : Storage) (e : Nat) (f : FileTableEntry) (file : Nat) :
    Prop where
  readPosition : f.readPosition = (x.received e).length % 2 ^ 32
  writePosition : f.writePosition = (x.sent e).length % 2 ^ 32
  single : s.tables.outstanding e ≤ 1
  handle : ∀ rpc ∈ s.io.rpcs, rpc.entry = some e → rpc.handle = (s.io.files file).nfsHandle
  position : ∀ rpc ∈ s.io.rpcs, rpc.entry = some e →
    rpc.position = (x.stream rpc e).length % 2 ^ 32
  carried : ∀ rpc ∈ s.io.rpcs, rpc.entry = some e → rpc.accessMode = fmWrite →
    rpc.count = (x.carried e).length

/-- In every run the positions of a descriptor are what has gone through it. -/
theorem file_streams {content : Nat → Nat → UInt8} {x : FileServer × Storage}
    (h : (streaming null content).Reachable (Lib.Machine.onState Orderly) x) {e file : Nat}
    {f : FileTableEntry} (hf : x.1.io.entries e = some f) (hfile : f.file = some file)
    (hne : file ≠ consoleFile) : x.1.AtEnd x.2 e f file := by
  have hstreams := (Reachable.streaming h).streams
  obtain ⟨hread, hwrite⟩ := hstreams.positions e f file hf hfile hne
  refine ⟨hread, hwrite, hstreams.single e, ?_, ?_, ?_⟩
  · intro rpc hmem he
    obtain ⟨i, -, hi, -, hhandle⟩ := (hstreams.requests rpc hmem e he).file f hf
    rw [hhandle, Option.some.inj (hi.symm.trans hfile)]
    rfl
  · exact fun rpc hmem he => (hstreams.requests rpc hmem e he).position
  · exact fun rpc hmem he hmode => ((hstreams.requests rpc hmem e he).carried hmode).symm

/-- A file that is empty at first. -/
def empty (_ _ : Nat) : UInt8 := 0

/-- The first process writes two bytes to a file, and the answer arrives. -/
def writesTwo : List FileAction :=
  openedShell ++ [.writeFile 1 [1, 2] (some (namedPage [65, 66])) true, .nfsReply 1 (okReply 0o700)]

/-- Two bytes have been written and acknowledged. -/
theorem file_streams_writesTwo : ∃ (x : FileServer × Storage) (f : FileTableEntry),
    f.writePosition = 2 ∧ x.1.AtEnd x.2 3 f 2 := by
  obtain ⟨x, -, hreach, hentry⟩ := Lib.Machine.exists_run (streaming none empty)
    (Lib.Machine.onState Orderly) (s := (booted, Storage.start empty)) ⟨booted_init, rfl⟩ writesTwo
    (fun x => (x.1.io.entries 3).any fun f => f.file = some 2 ∧ f.writePosition = 2)
    (by decide +kernel)
  obtain ⟨f, hf, hfile⟩ := (Option.any_eq_true _ _).mp hentry
  obtain ⟨hfile, hposition⟩ := of_decide_eq_true hfile
  exact ⟨x, f, hposition, file_streams hreach hf hfile (by decide)⟩

end FileServer

end Sos
