import Sos.Nfs.Requests

/-!
# `Sos.Nfs.Replies`: the replies of the NFS server

The functions of `nfsrpc.c` that run when a reply arrives. They take the header off the message
with `check_errors`, then the status and, for `NFS_OK`, the results, and call the function that
the caller of `nfs_read` and its siblings has passed. To read behind the end of a message is an
invalid access.

`encodeReply` is the other side: the messages of a server, which executes the call, refuses it
with a status, or does not accept the message at all.

* `callback_encodeReply`: the callback gets what the server answered.
-/

set_option autoImplicit false

namespace Sos.Nfs

def errOk : Int := 0
def errBadMsg : Int := -1
def errNotAccepted : Int := -2
def errFailure : Int := -3

def nfsOk : Nat := 0

/-- `fattr_t`. -/
structure Fattr where
  type : Nat
  mode : Nat
  nlink : Nat
  uid : Nat
  gid : Nat
  size : Nat
  blocksize : Nat
  rdev : Nat
  blocks : Nat
  fsid : Nat
  fileid : Nat
  atime : Timeval
  mtime : Timeval
  ctime : Timeval
deriving DecidableEq, Repr

/-! ### Taking a reply apart -/

/-- `getfrombuf` of a `struct cookie`. -/
def getCookie (pbuf : List UInt8) : Option (Cookie × List UInt8) :=
  if h : fhsize ≤ pbuf.length then
    some (⟨pbuf.take fhsize, by rw [List.length_take, Nat.min_eq_left h]⟩, pbuf.drop fhsize)
  else none

/-- `getfrombuf` of a `timeval_t`. -/
def getTimeval (pbuf : List UInt8) : Option (Timeval × List UInt8) := do
  let (seconds, pbuf) ← getfrombuf pbuf
  let (useconds, pbuf) ← getfrombuf pbuf
  some (⟨seconds, useconds⟩, pbuf)

/-- `getfrombuf` of a `fattr_t`. -/
def getFattr (pbuf : List UInt8) : Option (Fattr × List UInt8) := do
  let (type, pbuf) ← getfrombuf pbuf
  let (mode, pbuf) ← getfrombuf pbuf
  let (nlink, pbuf) ← getfrombuf pbuf
  let (uid, pbuf) ← getfrombuf pbuf
  let (gid, pbuf) ← getfrombuf pbuf
  let (size, pbuf) ← getfrombuf pbuf
  let (blocksize, pbuf) ← getfrombuf pbuf
  let (rdev, pbuf) ← getfrombuf pbuf
  let (blocks, pbuf) ← getfrombuf pbuf
  let (fsid, pbuf) ← getfrombuf pbuf
  let (fileid, pbuf) ← getfrombuf pbuf
  let (atime, pbuf) ← getTimeval pbuf
  let (mtime, pbuf) ← getTimeval pbuf
  let (ctime, pbuf) ← getTimeval pbuf
  some (⟨type, mode, nlink, uid, gid, size, blocksize, rdev, blocks, fsid, fileid, atime, mtime,
    ctime⟩, pbuf)

/-- `check_errors`. The flavour of the verifier is looked at, but nothing follows from it, and
its body is taken to be empty. -/
def checkErrors (pbuf : List UInt8) : Option (Int × List UInt8) := do
  let (_, pbuf) ← getfrombuf pbuf
  let (ctype, pbuf) ← getfrombuf pbuf
  if ctype ≠ msgReply then some (errBadMsg, pbuf)
  else do
    let (r, pbuf) ← getfrombuf pbuf
    if r ≠ msgAccepted then do
      let (r, pbuf) ← getfrombuf pbuf
      if r = 1 then do
        let (_, pbuf) ← getfrombuf pbuf
        some (errNotAccepted, pbuf)
      else some (errNotAccepted, pbuf)
    else do
      let (_, pbuf) ← getfrombuf pbuf
      let (_, pbuf) ← getfrombuf pbuf
      let (r, pbuf) ← getfrombuf pbuf
      if r = success then some (errOk, pbuf) else some (errFailure, pbuf)

/-- What the callbacks have in common: the status, which is -1 when there is none in the
message, and the results behind it, which are only there for `NFS_OK`. -/
def statusCb {α : Type} (results : List UInt8 → Option α) (pbuf : List UInt8) :
    Option (Int × Option α) := do
  let (err, pbuf) ← checkErrors pbuf
  if err = 0 then do
    let (status, pbuf) ← getfrombuf pbuf
    if status = nfsOk then (results pbuf).map fun a => (0, some a)
    else some (toInt32 status, none)
  else some (-1, none)

/-- The results are attributes. -/
def attrResults (pbuf : List UInt8) : Option Fattr := (getFattr pbuf).map (·.1)

/-- The results are a file handle and attributes. -/
def handleResults (pbuf : List UInt8) : Option (Cookie × Fattr) := do
  let (newFh, pbuf) ← getCookie pbuf
  let (pattrs, _) ← getFattr pbuf
  some (newFh, pattrs)

/-- The results are attributes, a number of bytes, and the rest of the message, which the pointer
to the data points to. -/
def dataResults (pbuf : List UInt8) : Option (Fattr × Int × List UInt8) := do
  let (pattrs, pbuf) ← getFattr pbuf
  let (size, pbuf) ← getfrombuf pbuf
  some (pattrs, toInt32 size, pbuf)

/-- The results are the number of entries, their names, and the cookie. -/
def entriesResults (pbuf : List UInt8) : Option (Nat × List (List UInt8) × Int) := do
  let (numEntries, nextCookie) ← getentriesReaddir pbuf 0
  let filenames ← filenamesLoop pbuf.length pbuf
  some (numEntries, filenames, toInt32 nextCookie)

/-- `nfs_getattr_cb`. -/
def nfsGetattrCb : List UInt8 → Option (Int × Option Fattr) := statusCb attrResults

/-- `nfs_lookup_cb`. -/
def nfsLookupCb : List UInt8 → Option (Int × Option (Cookie × Fattr)) := statusCb handleResults

/-- `nfs_create_cb`. -/
def nfsCreateCb : List UInt8 → Option (Int × Option (Cookie × Fattr)) := statusCb handleResults

/-- `nfs_read_cb`. -/
def nfsReadCb : List UInt8 → Option (Int × Option (Fattr × Int × List UInt8)) :=
  statusCb dataResults

/-- `nfs_write_cb`. -/
def nfsWriteCb : List UInt8 → Option (Int × Option Fattr) := statusCb attrResults

/-- `nfs_readdir_cb`. -/
def nfsReaddirCb : List UInt8 → Option (Int × Option (Nat × List (List UInt8) × Int)) :=
  statusCb entriesResults

/-- What a callback is passed with `NFS_OK`. -/
abbrev View : Proc → Type
  | .getattr => Fattr
  | .lookup => Cookie × Fattr
  | .create => Cookie × Fattr
  | .read => Fattr × Int × List UInt8
  | .write => Fattr
  | .readdir => Nat × List (List UInt8) × Int

/-- The function that `rpc_send` is called with for a procedure. -/
def callback : (p : Proc) → List UInt8 → Option (Int × Option (View p))
  | .getattr => nfsGetattrCb
  | .lookup => nfsLookupCb
  | .create => nfsCreateCb
  | .read => nfsReadCb
  | .write => nfsWriteCb
  | .readdir => nfsReaddirCb

/-- The results of each procedure in a message. -/
def results : (p : Proc) → List UInt8 → Option (View p)
  | .getattr => attrResults
  | .lookup => handleResults
  | .create => handleResults
  | .read => dataResults
  | .write => attrResults
  | .readdir => entriesResults

/-- Every callback checks the status first and then reads its results. -/
theorem callback_eq (p : Proc) : callback p = statusCb (results p) := by
  cases p <;> rfl

/-! ### The server's side: the layout of a reply -/

/-- The results of each procedure. -/
abbrev Result : Proc → Type
  | .getattr => Fattr
  | .lookup => Cookie × Fattr
  | .create => Cookie × Fattr
  | .read => Fattr × List UInt8
  | .write => Fattr
  | .readdir => List DirEntry × Bool

/-- The answer of a server: the results, a status other than `NFS_OK`, a status of the RPC layer
other than `SUCCESS`, or a message that is denied, with the reason and, for an authentication
error, its number. -/
inductive Answer (p : Proc)
  | ok (result : Result p)
  | error (status : Nat)
  | failed (acceptStat : Nat)
  | denied (rejectStat authStat : Nat)

def Timeval.Ok (t : Timeval) : Prop := t.seconds < 2 ^ 32 ∧ t.useconds < 2 ^ 32

/-- The words of a `fattr_t`. -/
def Fattr.words (a : Fattr) : List Nat :=
  [a.type, a.mode, a.nlink, a.uid, a.gid, a.size, a.blocksize, a.rdev, a.blocks, a.fsid, a.fileid,
    a.atime.seconds, a.atime.useconds, a.mtime.seconds, a.mtime.useconds, a.ctime.seconds,
    a.ctime.useconds]

def Fattr.Ok (a : Fattr) : Prop := ∀ word ∈ a.words, word < 2 ^ 32

instance (a : Fattr) : Decidable a.Ok := inferInstanceAs (Decidable (∀ word ∈ _, _))

/-- Results that fit into a message. -/
def ResultOk : (p : Proc) → Result p → Prop
  | .getattr, a => a.Ok
  | .lookup, (_, a) => a.Ok
  | .create, (_, a) => a.Ok
  | .read, (a, data) => a.Ok ∧ data.length < 2 ^ 31
  | .write, a => a.Ok
  | .readdir, (entries, _) => ∀ e ∈ entries, e.Ok

instance (p : Proc) (r : Result p) : Decidable (ResultOk p r) :=
  match p, r with
  | .getattr, a => inferInstanceAs (Decidable a.Ok)
  | .lookup, x => inferInstanceAs (Decidable x.2.Ok)
  | .create, x => inferInstanceAs (Decidable x.2.Ok)
  | .read, x => inferInstanceAs (Decidable (x.1.Ok ∧ x.2.length < 2 ^ 31))
  | .write, a => inferInstanceAs (Decidable a.Ok)
  | .readdir, x => inferInstanceAs (Decidable (∀ e ∈ x.1, e.Ok))

/-- An answer that a server can give. -/
def Answer.Ok {p : Proc} : Answer p → Prop
  | .ok result => ResultOk p result
  | .error status => status ≠ nfsOk ∧ status < 2 ^ 32
  | .failed acceptStat => acceptStat ≠ success ∧ acceptStat < 2 ^ 32
  | .denied rejectStat authStat => rejectStat < 2 ^ 32 ∧ authStat < 2 ^ 32

instance {p : Proc} (answer : Answer p) : Decidable answer.Ok :=
  match answer with
  | .ok result => inferInstanceAs (Decidable (ResultOk p result))
  | .denied _ _ => inferInstanceAs (Decidable (_ ∧ _))
  | .failed _ => inferInstanceAs (Decidable (_ ∧ _))
  | .error _ => inferInstanceAs (Decidable (_ ∧ _))

def Fattr.bytes (a : Fattr) : List UInt8 := a.words.flatMap wordBytes

/-- The results in a message. -/
def resultBytes : (p : Proc) → Result p → List UInt8
  | .getattr, a => a.bytes
  | .lookup, (fh, a) => fh.val ++ a.bytes
  | .create, (fh, a) => fh.val ++ a.bytes
  | .read, (a, data) => a.bytes ++ stringBytes data
  | .write, a => a.bytes
  | .readdir, (entries, eof) => entriesBytes eof entries

/-- The header of an accepted message. The verifier is the empty one. -/
def replyHeader (xid acceptStat : Nat) : List UInt8 :=
  wordBytes xid ++ (wordBytes msgReply ++ (wordBytes msgAccepted ++ (wordBytes authNull ++
    (wordBytes 0 ++ wordBytes acceptStat))))

/-- The header of a message that is denied. -/
def deniedHeader (xid rejectStat : Nat) : List UInt8 :=
  wordBytes xid ++ (wordBytes msgReply ++ (wordBytes msgDenied ++ wordBytes rejectStat))

/-- The message of a server with this answer. -/
def encodeReply (xid : Nat) {p : Proc} : Answer p → List UInt8
  | .ok result => replyHeader xid success ++ (wordBytes nfsOk ++ resultBytes p result)
  | .error status => replyHeader xid success ++ wordBytes status
  | .failed acceptStat => replyHeader xid acceptStat
  | .denied rejectStat authStat => deniedHeader xid rejectStat ++ wordBytes authStat

/-- What the callback sees of the results. The data of a file is followed by the fill. -/
def view : (p : Proc) → Result p → View p
  | .getattr, a => a
  | .lookup, x => x
  | .create, x => x
  | .read, (a, data) =>
    (a, data.length, data ++ List.replicate (padded data.length - data.length) 0)
  | .write, a => a
  | .readdir, (entries, _) =>
    (entries.length, entries.map (·.name), toInt32 (lastCookie 0 entries))

/-- What the callback is called with for an answer. -/
def Answer.seen {p : Proc} : Answer p → Int × Option (View p)
  | .ok result => (0, some (view p result))
  | .error status => (toInt32 status, none)
  | .failed _ => (-1, none)
  | .denied _ _ => (-1, none)

/-! ### What the callback gets -/

/-- What is read first from a message that begins with a word. -/
theorem getfrombuf_bind {α : Type} {n : Nat} (h : n < 2 ^ 32) (pbuf : List UInt8)
    (f : Nat × List UInt8 → Option α) : (getfrombuf (wordBytes n ++ pbuf) >>= f) = f (n, pbuf) := by
  rw [getfrombuf_wordBytes h, Option.bind_eq_bind, Option.bind_some]

/-- A time is read back. -/
theorem getTimeval_bytes {t : Timeval} (h : t.Ok) (pbuf : List UInt8) :
    getTimeval (t.bytes ++ pbuf) = some (t, pbuf) := by
  unfold getTimeval Timeval.bytes
  rw [List.append_assoc]
  exact (getfrombuf_bind h.1 _ _).trans (getfrombuf_bind h.2 _ _)

/-- What is read first from a message that begins with a time. -/
theorem getTimeval_bind {α : Type} {t : Timeval} (h : t.Ok) (pbuf : List UInt8)
    (f : Timeval × List UInt8 → Option α) : (getTimeval (t.bytes ++ pbuf) >>= f) = f (t, pbuf) := by
  rw [getTimeval_bytes h, Option.bind_eq_bind, Option.bind_some]

/-- The fields are taken in the order of the record. -/
theorem getFattr_bytes {a : Fattr} (h : a.Ok) (pbuf : List UInt8) :
    getFattr (a.bytes ++ pbuf) = some (a, pbuf) := by
  have hword {w : Nat} (hw : w ∈ a.words := by simp [Fattr.words]) : w < 2 ^ 32 := h w hw
  -- The fields in the order of `getattr`, each one in front of all that follow.
  have hbytes : a.bytes ++ pbuf = wordBytes a.type ++ (wordBytes a.mode ++ (wordBytes a.nlink ++
      (wordBytes a.uid ++ (wordBytes a.gid ++ (wordBytes a.size ++ (wordBytes a.blocksize ++
        (wordBytes a.rdev ++ (wordBytes a.blocks ++ (wordBytes a.fsid ++ (wordBytes a.fileid ++
          (a.atime.bytes ++ (a.mtime.bytes ++ (a.ctime.bytes ++ pbuf))))))))))))) := by
    simp only [Fattr.bytes, Fattr.words, Timeval.bytes, List.flatMap_cons, List.flatMap_nil,
      List.append_assoc, List.nil_append]
  unfold getFattr
  rw [hbytes]
  -- Eleven words and three times.
  refine (getfrombuf_bind hword _ _).trans ?_
  refine (getfrombuf_bind hword _ _).trans ?_
  refine (getfrombuf_bind hword _ _).trans ?_
  refine (getfrombuf_bind hword _ _).trans ?_
  refine (getfrombuf_bind hword _ _).trans ?_
  refine (getfrombuf_bind hword _ _).trans ?_
  refine (getfrombuf_bind hword _ _).trans ?_
  refine (getfrombuf_bind hword _ _).trans ?_
  refine (getfrombuf_bind hword _ _).trans ?_
  refine (getfrombuf_bind hword _ _).trans ?_
  refine (getfrombuf_bind hword _ _).trans ?_
  refine (getTimeval_bind ⟨hword, hword⟩ _ _).trans ?_
  refine (getTimeval_bind ⟨hword, hword⟩ _ _).trans ?_
  exact getTimeval_bind ⟨hword, hword⟩ _ _

/-- A file handle is read back. -/
theorem getCookie_append (fh : Cookie) (pbuf : List UInt8) :
    getCookie (fh.val ++ pbuf) = some (fh, pbuf) := by
  have hlength : fh.val.length = fhsize := fh.property
  unfold getCookie
  rw [dif_pos (by rw [List.length_append]; omega), Option.some.injEq, Prod.mk.injEq]
  exact ⟨Subtype.ext (List.take_left' hlength), List.drop_left' hlength⟩

/-- `check_errors` accepts a reply whose call has been accepted. -/
theorem checkErrors_replyHeader {xid r : Nat} (hxid : xid < 2 ^ 32) (hr : r < 2 ^ 32)
    (pbuf : List UInt8) :
    checkErrors (replyHeader xid r ++ pbuf) =
      some (if r = success then errOk else errFailure, pbuf) := by
  unfold checkErrors replyHeader
  simp only [List.append_assoc]
  refine (getfrombuf_bind hxid _ _).trans ?_
  refine (getfrombuf_bind (by decide) _ _).trans ?_
  refine (getfrombuf_bind (by decide) _ _).trans ?_
  refine (getfrombuf_bind (by decide) _ _).trans ?_
  refine (getfrombuf_bind (by decide) _ _).trans ?_
  refine (getfrombuf_bind hr _ _).trans ?_
  dsimp only
  split <;> rfl

/-- `check_errors` refuses a reply whose call has been denied. -/
theorem checkErrors_deniedHeader {xid r authStat : Nat} (hxid : xid < 2 ^ 32) (hr : r < 2 ^ 32)
    (hauth : authStat < 2 ^ 32) :
    ∃ pbuf, checkErrors (deniedHeader xid r ++ wordBytes authStat) =
      some (errNotAccepted, pbuf) := by
  -- Nothing follows the last word.
  have hlast := getfrombuf_bind (α := Int × List UInt8) hauth []
  rw [List.append_nil] at hlast
  unfold checkErrors deniedHeader
  simp only [List.append_assoc]
  -- With a version mismatch one word less is read.
  by_cases h : r = 1
  · refine ⟨[], (getfrombuf_bind hxid _ _).trans ?_⟩
    refine (getfrombuf_bind (by decide) _ _).trans ?_
    refine (getfrombuf_bind (by decide) _ _).trans ?_
    refine (getfrombuf_bind hr _ _).trans ?_
    dsimp only
    rw [if_pos h]
    exact hlast _
  · refine ⟨wordBytes authStat, (getfrombuf_bind hxid _ _).trans ?_⟩
    refine (getfrombuf_bind (by decide) _ _).trans ?_
    refine (getfrombuf_bind (by decide) _ _).trans ?_
    refine (getfrombuf_bind hr _ _).trans ?_
    exact if_neg h

section

variable {α : Type} {results : List UInt8 → Option α} {xid : Nat}

/-- A callback with status `NFS_OK` gets the results. -/
theorem statusCb_ok (hxid : xid < 2 ^ 32) (pbuf : List UInt8) :
    statusCb results (replyHeader xid success ++ (wordBytes nfsOk ++ pbuf)) =
      (results pbuf).map fun a => (0, some a) := by
  unfold statusCb
  rw [checkErrors_replyHeader hxid (by decide), if_pos rfl, Option.bind_eq_bind, Option.bind_some]
  exact getfrombuf_bind (by decide) _ _

/-- A callback with another status gets that status and no results. -/
theorem statusCb_error (hxid : xid < 2 ^ 32) {status : Nat} (hne : status ≠ nfsOk)
    (hlt : status < 2 ^ 32) (pbuf : List UInt8) :
    statusCb results (replyHeader xid success ++ (wordBytes status ++ pbuf)) =
      some (toInt32 status, none) := by
  unfold statusCb
  rw [checkErrors_replyHeader hxid (by decide), if_pos rfl, Option.bind_eq_bind, Option.bind_some]
  exact (getfrombuf_bind hlt _ _).trans (if_neg hne)

/-- A callback whose call has failed gets `-1`. -/
theorem statusCb_failed (hxid : xid < 2 ^ 32) {r : Nat} (hne : r ≠ success) (hlt : r < 2 ^ 32)
    (pbuf : List UInt8) : statusCb results (replyHeader xid r ++ pbuf) = some (-1, none) := by
  unfold statusCb
  rw [checkErrors_replyHeader hxid hlt, if_neg hne, Option.bind_eq_bind, Option.bind_some]
  rfl

/-- A callback whose call has been denied gets `-1`. -/
theorem statusCb_denied (hxid : xid < 2 ^ 32) {r authStat : Nat} (hr : r < 2 ^ 32)
    (hauth : authStat < 2 ^ 32) :
    statusCb results (deniedHeader xid r ++ wordBytes authStat) = some (-1, none) := by
  obtain ⟨pbuf, hcheck⟩ := checkErrors_deniedHeader hxid hr hauth
  unfold statusCb
  rw [hcheck, Option.bind_eq_bind, Option.bind_some]
  rfl

end

/-- The results are taken out of the message that a server makes of them. -/
theorem results_resultBytes {p : Proc} {r : Result p} (hr : ResultOk p r) :
    results p (resultBytes p r) = some (view p r) := by
  -- The attributes alone, and a file handle with its attributes, are results of several
  -- procedures.
  have hattr (a : Fattr) (ha : a.Ok) : getFattr a.bytes = some (a, []) := by
    rw [← List.append_nil a.bytes]
    exact getFattr_bytes ha []
  have hhandle (x : Cookie × Fattr) (hx : x.2.Ok) :
      handleResults (x.1.val ++ x.2.bytes) = some x := by
    unfold handleResults
    rw [getCookie_append, Option.bind_eq_bind, Option.bind_some]
    dsimp only
    rw [hattr x.2 hx]
    rfl
  cases p with
  | getattr =>
      show (getFattr r.bytes).map _ = _
      rw [hattr r hr]
      rfl
  | lookup => exact hhandle r hr
  | create => exact hhandle r hr
  | read =>
      -- The length is a positive `int`.
      have hdata : r.2.length < 2 ^ 31 := hr.2
      show dataResults (r.1.bytes ++ stringBytes r.2) = _
      unfold dataResults stringBytes
      rw [getFattr_bytes hr.1, Option.bind_eq_bind, Option.bind_some]
      dsimp only
      rw [getfrombuf_wordBytes (by omega), Option.bind_eq_bind, Option.bind_some]
      dsimp only
      rw [toInt32_of_lt hdata]
      rfl
  | write =>
      show (getFattr r.bytes).map _ = _
      rw [hattr r hr]
      rfl
  | readdir =>
      -- The number of bytes bounds the two loops.
      have hfuel := length_entriesBytes r.2 r.1
      show entriesResults (entriesBytes r.2 r.1) = _
      unfold entriesResults getentriesReaddir
      rw [getentriesLoop_entriesBytes hr _ _ _ _ hfuel, Option.bind_eq_bind, Option.bind_some]
      dsimp only
      rw [filenamesLoop_entriesBytes hr _ _ hfuel, Nat.zero_add]
      rfl

/-- The callback gets what the server answered: the results, its status, or -1 when there is no
status in the message. -/
theorem callback_encodeReply {xid : Nat} (hxid : xid < 2 ^ 32) {p : Proc} {answer : Answer p}
    (h : answer.Ok) : callback p (encodeReply xid answer) = some answer.seen := by
  rw [callback_eq]
  cases answer with
  | ok r =>
      show statusCb _ (replyHeader xid success ++ (wordBytes nfsOk ++ resultBytes p r)) = _
      rw [statusCb_ok hxid, results_resultBytes h]
      rfl
  | error status =>
      show statusCb _ (replyHeader xid success ++ wordBytes status) = _
      rw [← List.append_nil (wordBytes status), statusCb_error hxid h.1 h.2]
      rfl
  | failed r =>
      show statusCb _ (replyHeader xid r) = _
      rw [← List.append_nil (replyHeader xid r), statusCb_failed hxid h.1 h.2]
      rfl
  | denied r authStat =>
      show statusCb _ (deniedHeader xid r ++ wordBytes authStat) = _
      rw [statusCb_denied hxid h.1 h.2]
      rfl

end Sos.Nfs
