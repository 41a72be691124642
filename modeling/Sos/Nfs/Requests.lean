import Sos.Io.Readdir
import Sos.Lib.Codec

/-!
# `Sos.Nfs.Requests`: the messages of the calls to the NFS server

The functions of `libs/nfs/src/transport.c` that build a message, and the functions of
`nfsrpc.c` that send one. A message is the list of the bytes between `payload` and `arg[0]`:
`addtobuf` copies to `arg[0]` and moves it on. The words of the machine are big-endian, so that
a `memcpy` of a word or of a record of words is already in the order of the network.

`decodeCall` is the other side: what a server takes out of a message, by the layout of the calls
that the comments of `rpc.h` give.

* `decodeCall_message`: the server finds the call that was made, the transaction id, and the
  user it is made for; also the length of the credentials agrees with what is in them.
* `length_nfsWrite`: the message of `nfs_write` has the length that its pieces add up to.
-/

set_option autoImplicit false

namespace Sos.Nfs

open Lib (Codec)

/-! ### Constants (`rpc.h`) -/

def msgCall : Nat := 0
def msgReply : Nat := 1
def msgAccepted : Nat := 0
def msgDenied : Nat := 1
def success : Nat := 0
def authNull : Nat := 0
def authUnix : Nat := 1
def srpcVersion : Nat := 2
def nfsNumber : Nat := 100003
def nfsVersion : Nat := 2
def fhsize : Nat := 32

def nfsprocGetattr : Nat := 1
def nfsprocLookup : Nat := 4
def nfsprocRead : Nat := 6
def nfsprocWrite : Nat := 8
def nfsprocCreate : Nat := 9
def nfsprocReaddir : Nat := 16

/-- `NFS_MACHINE_NAME`, "boggo". -/
def nfsMachineName : List UInt8 := [0x62, 0x6F, 0x67, 0x67, 0x6F]

/-! ### Records (`rpc.h`) -/

/-- `struct cookie`, a file handle. -/
abbrev Cookie : Type := { bytes : List UInt8 // bytes.length = fhsize }

/-- `timeval_t`. -/
structure Timeval where
  seconds : Nat
  useconds : Nat
deriving DecidableEq, Repr

/-- `sattr_t`. -/
structure Sattr where
  mode : Nat
  uid : Nat
  gid : Nat
  size : Nat
  atime : Timeval
  mtime : Timeval
deriving DecidableEq, Repr

/-! ### Building a message (`transport.c`) -/

/-- `addtobuf`. The pbuf of `initbuf` has room for `UDP_PAYLOAD` bytes, and neither this function
nor its callers look at how much is left. Here a message can have any length, and `Call.Fits`
says whether it stays in its buffer. -/
def addtobuf (pbuf data : List UInt8) : List UInt8 := pbuf ++ data

/-- `adddata`. -/
def adddata (pbuf data : List UInt8) : List UInt8 :=
  let pbuf := addtobuf pbuf (wordBytes data.length)
  let pbuf := addtobuf pbuf data
  if data.length % 4 ≠ 0 then addtobuf pbuf (List.replicate (4 - data.length % 4) 0) else pbuf

/-- `addstring`, for a string without its terminating zero. -/
def addstring (pbuf data : List UInt8) : List UInt8 := adddata pbuf data

/-- `initbuf`, with the transaction id from `get_xid`. -/
def initbuf (txid prognum vernum procnum : Nat) : List UInt8 :=
  let pbuf := addtobuf [] (wordBytes txid)
  let pbuf := addtobuf pbuf (wordBytes msgCall)
  let pbuf := addtobuf pbuf
    (wordBytes srpcVersion ++ wordBytes prognum ++ wordBytes vernum ++ wordBytes procnum)
  let nsize := padded nfsMachineName.length
  let pbuf := addtobuf pbuf (wordBytes authUnix ++ wordBytes (5 * 4 + nsize))
  -- The stamp.
  let pbuf := addtobuf pbuf (wordBytes 37)
  let pbuf := addstring pbuf nfsMachineName
  -- uid, gid and the number of further groups.
  let pbuf := addtobuf pbuf (wordBytes 0)
  let pbuf := addtobuf pbuf (wordBytes 0)
  let pbuf := addtobuf pbuf (wordBytes 0)
  addtobuf pbuf (wordBytes authNull ++ wordBytes 0)

/-- The bytes of a `timeval_t` in memory. -/
def Timeval.bytes (t : Timeval) : List UInt8 := wordBytes t.seconds ++ wordBytes t.useconds

/-- The bytes of a `sattr_t` in memory. -/
def Sattr.bytes (sat : Sattr) : List UInt8 :=
  wordBytes sat.mode ++ wordBytes sat.uid ++ wordBytes sat.gid ++ wordBytes sat.size ++
    sat.atime.bytes ++ sat.mtime.bytes

/-! ### The calls (`nfsrpc.c`) -/

/-- `nfs_getattr`. -/
def nfsGetattr (txid : Nat) (fh : Cookie) : List UInt8 :=
  addtobuf (initbuf txid nfsNumber nfsVersion nfsprocGetattr) fh.val

/-- `nfs_lookup`. -/
def nfsLookup (txid : Nat) (cwd : Cookie) (name : List UInt8) : List UInt8 :=
  let pbuf := initbuf txid nfsNumber nfsVersion nfsprocLookup
  let pbuf := addtobuf pbuf cwd.val
  addstring pbuf name

/-- `nfs_create`. -/
def nfsCreate (txid : Nat) (fh : Cookie) (name : List UInt8) (sat : Sattr) : List UInt8 :=
  let pbuf := initbuf txid nfsNumber nfsVersion nfsprocCreate
  let pbuf := addtobuf pbuf fh.val
  let pbuf := addstring pbuf name
  addtobuf pbuf sat.bytes

/-- `nfs_read`: a `readargs_t`, whose `totalcount` is unused. -/
def nfsRead (txid : Nat) (fh : Cookie) (pos count : Nat) : List UInt8 :=
  let pbuf := initbuf txid nfsNumber nfsVersion nfsprocRead
  addtobuf pbuf (fh.val ++ wordBytes pos ++ wordBytes count ++ wordBytes 0)

/-- `nfs_write`: a `writeargs_t`, whose `beginoffset` and `totalcount` are unused, and the
data. -/
def nfsWrite (txid : Nat) (fh : Cookie) (offset : Nat) (data : List UInt8) : List UInt8 :=
  let pbuf := initbuf txid nfsNumber nfsVersion nfsprocWrite
  let pbuf := addtobuf pbuf (fh.val ++ wordBytes 0 ++ wordBytes offset ++ wordBytes 0)
  adddata pbuf data

/-- `nfs_readdir`: a `readdirargs_t`. -/
def nfsReaddir (txid : Nat) (pfh : Cookie) (cookie size : Nat) : List UInt8 :=
  let pbuf := initbuf txid nfsNumber nfsVersion nfsprocReaddir
  addtobuf pbuf (pfh.val ++ wordBytes cookie ++ wordBytes size)

/-- The procedures of the server that are called. -/
inductive Proc
  | getattr
  | lookup
  | create
  | read
  | write
  | readdir
deriving DecidableEq, Repr

/-- What holds of each of the procedures. -/
instance (P : Proc → Prop) [DecidablePred P] : Decidable (∀ p, P p) :=
  decidable_of_iff (P .getattr ∧ P .lookup ∧ P .create ∧ P .read ∧ P .write ∧ P .readdir)
    ⟨fun h p => by cases p <;> simp only [h], fun h => by simp only [h, and_self]⟩

/-- What each procedure is called with. -/
abbrev Args : Proc → Type
  | .getattr => Cookie
  | .lookup => Cookie × List UInt8
  | .create => Cookie × List UInt8 × Sattr
  | .read => Cookie × Nat × Nat
  | .write => Cookie × Nat × List UInt8
  | .readdir => Cookie × Nat × Nat

/-- A call of one of the functions. -/
structure Call where
  proc : Proc
  args : Args proc

/-- The message of a call. -/
def Call.message (txid : Nat) : Call → List UInt8
  | ⟨.getattr, fh⟩ => nfsGetattr txid fh
  | ⟨.lookup, (cwd, name)⟩ => nfsLookup txid cwd name
  | ⟨.create, (fh, name, sat)⟩ => nfsCreate txid fh name sat
  | ⟨.read, (fh, pos, count)⟩ => nfsRead txid fh pos count
  | ⟨.write, (fh, offset, data)⟩ => nfsWrite txid fh offset data
  | ⟨.readdir, (pfh, cookie, size)⟩ => nfsReaddir txid pfh cookie size

/-- The message stays in the buffer that `initbuf` has allocated. -/
def Call.Fits (c : Call) (txid : Nat) : Prop := (c.message txid).length ≤ udpPayload

instance (c : Call) (txid : Nat) : Decidable (c.Fits txid) :=
  inferInstanceAs (Decidable (_ ≤ _))

/-! ### The server's side: the layout of a call -/

/-- The number of a procedure. -/
def Proc.number : Proc → Nat
  | .getattr => nfsprocGetattr
  | .lookup => nfsprocLookup
  | .create => nfsprocCreate
  | .read => nfsprocRead
  | .write => nfsprocWrite
  | .readdir => nfsprocReaddir

/-- The procedure with a number. -/
def Proc.ofNumber (n : Nat) : Option Proc :=
  [Proc.getattr, .lookup, .create, .read, .write, .readdir].find? fun p => p.number = n

/-- The procedures have different numbers. -/
theorem Proc.ofNumber_number (p : Proc) : Proc.ofNumber p.number = some p := by
  cases p <;> decide

/-- `opaque_auth`: the flavour and the body. -/
def authCodec : Codec (Nat × List UInt8) := .prod .word .var

/-- The credentials of a Unix user: the stamp, the name of the machine, the user, the group and
the number of further groups. -/
def authUnixCodec : Codec (Nat × List UInt8 × Nat × Nat × Nat) :=
  .prod .word (.prod .var (.prod .word (.prod .word .word)))

/-- `rpc_msg` with a `call_body`. -/
structure CallHeader where
  xid : Nat
  mtype : Nat
  rpcvers : Nat
  prog : Nat
  vers : Nat
  proc : Nat
  cred : Nat × List UInt8
  verf : Nat × List UInt8

def callHeaderCodec : Codec CallHeader :=
  .iso (.prod .word (.prod .word (.prod .word (.prod .word (.prod .word (.prod .word
      (.prod authCodec authCodec)))))))
    (fun x => ⟨x.1, x.2.1, x.2.2.1, x.2.2.2.1, x.2.2.2.2.1, x.2.2.2.2.2.1, x.2.2.2.2.2.2.1,
      x.2.2.2.2.2.2.2⟩)
    (fun h => (h.xid, h.mtype, h.rpcvers, h.prog, h.vers, h.proc, h.cred, h.verf)) fun _ => rfl

def cookieCodec : Codec Cookie := .fixed fhsize

def timevalCodec : Codec Timeval :=
  .iso (.prod .word .word) (fun x => ⟨x.1, x.2⟩) (fun t => (t.seconds, t.useconds)) fun _ => rfl

def sattrCodec : Codec Sattr :=
  .iso (.prod .word (.prod .word (.prod .word (.prod .word (.prod timevalCodec timevalCodec)))))
    (fun x => ⟨x.1, x.2.1, x.2.2.1, x.2.2.2.1, x.2.2.2.2.1, x.2.2.2.2.2⟩)
    (fun s => (s.mode, s.uid, s.gid, s.size, s.atime, s.mtime)) fun _ => rfl

/-- The arguments of each procedure. The counts that are unused are left out of the value. -/
def argsCodec : (p : Proc) → Codec (Args p)
  | .getattr => cookieCodec
  | .lookup => .prod cookieCodec .var
  | .create => .prod cookieCodec (.prod .var sattrCodec)
  | .read =>
    .iso (.prod cookieCodec (.prod .word (.prod .word .word)))
      (fun x => (x.1, x.2.1, x.2.2.1)) (fun x => (x.1, x.2.1, x.2.2, 0)) fun _ => rfl
  | .write =>
    .iso (.prod cookieCodec (.prod .word (.prod .word (.prod .word .var))))
      (fun x => (x.1, x.2.2.1, x.2.2.2.2)) (fun x => (x.1, 0, x.2.1, 0, x.2.2)) fun _ => rfl
  | .readdir => .prod cookieCodec (.prod .word .word)

/-- The arguments are values of their types in C: words of 32 bits, and strings whose length is
such a word. -/
def Call.Ok (c : Call) : Prop := (argsCodec c.proc).Ok c.args

instance (c : Call) : Decidable c.Ok := (argsCodec c.proc).decidableOk c.args

/-- A call as the server sees it. -/
structure ServerCall where
  xid : Nat
  machine : List UInt8
  uid : Nat
  gid : Nat
  call : Call

/-- What the server takes out of a message. It does not look at what is not a call of the NFS
program, at other credentials, or at a message with bytes behind the arguments. -/
def decodeCall (message : List UInt8) : Option ServerCall := do
  let (h, message) ← callHeaderCodec.decode message
  if h.mtype = msgCall ∧ h.rpcvers = srpcVersion ∧ h.prog = nfsNumber ∧ h.vers = nfsVersion ∧
      h.cred.1 = authUnix then do
    let (cred, body) ← authUnixCodec.decode h.cred.2
    let proc ← Proc.ofNumber h.proc
    let (args, message) ← (argsCodec proc).decode message
    if body = [] ∧ message = [] then
      some ⟨h.xid, cred.2.1, cred.2.2.1, cred.2.2.2.1, ⟨proc, args⟩⟩
    else none
  else none

/-! ### What the server finds -/

/-- `adddata` writes what the codec writes. -/
theorem adddata_eq (pbuf data : List UInt8) :
    adddata pbuf data = pbuf ++ Codec.var.encode data := by
  show _ = pbuf ++ (wordBytes data.length ++ (data ++ List.replicate (Codec.fill _) 0))
  unfold adddata addtobuf Codec.fill
  split
  · rw [show (4 - data.length % 4) % 4 = 4 - data.length % 4 by omega]
    simp only [List.append_assoc]
  · rw [show (4 - data.length % 4) % 4 = 0 by omega]
    simp only [List.replicate_zero, List.append_assoc, List.append_nil]

/-- The header of the message. -/
def header (txid procnum : Nat) : CallHeader :=
  { xid := txid
    mtype := msgCall
    rpcvers := srpcVersion
    prog := nfsNumber
    vers := nfsVersion
    proc := procnum
    cred := (authUnix, authUnixCodec.encode (37, nfsMachineName, 0, 0, 0))
    verf := (authNull, []) }

/-- The length of the credentials is the length of the body that follows. -/
theorem initbuf_eq (txid procnum : Nat) :
    initbuf txid nfsNumber nfsVersion procnum = callHeaderCodec.encode (header txid procnum) := by
  have hheader : callHeaderCodec.encode (header txid procnum) =
      wordBytes txid ++ (wordBytes msgCall ++ (wordBytes srpcVersion ++ (wordBytes nfsNumber ++
        (wordBytes nfsVersion ++ (wordBytes procnum ++
          (authCodec.encode (authUnix, authUnixCodec.encode (37, nfsMachineName, 0, 0, 0)) ++
            authCodec.encode (authNull, []))))))) := rfl
  have hcred : authCodec.encode (authUnix, authUnixCodec.encode (37, nfsMachineName, 0, 0, 0)) =
      wordBytes authUnix ++ wordBytes (5 * 4 + padded nfsMachineName.length) ++ wordBytes 37 ++
        Codec.var.encode nfsMachineName ++ wordBytes 0 ++ wordBytes 0 ++ wordBytes 0 := by decide
  have hverf : authCodec.encode (authNull, []) = wordBytes authNull ++ wordBytes 0 := by decide
  rw [hheader, hcred, hverf]
  unfold initbuf addstring
  simp only [adddata_eq, addtobuf, List.append_assoc, List.nil_append]

/-- A message is the header and the arguments, in the layout of the server. -/
theorem message_eq (txid : Nat) (c : Call) :
    c.message txid =
      callHeaderCodec.encode (header txid c.proc.number) ++ (argsCodec c.proc).encode c.args := by
  obtain ⟨proc, args⟩ := c
  cases proc with
  | getattr =>
      show addtobuf _ _ = _
      rw [initbuf_eq]
      rfl
  | lookup =>
      show addstring (addtobuf _ _) _ = _
      rw [initbuf_eq, addstring, adddata_eq, addtobuf, List.append_assoc]
      rfl
  | create =>
      show addtobuf (addstring (addtobuf _ _) _) _ = _
      rw [initbuf_eq, addstring, adddata_eq, addtobuf, addtobuf, List.append_assoc,
        List.append_assoc]
      rfl
  | read =>
      show addtobuf _ _ = _
      rw [initbuf_eq, addtobuf, List.append_assoc, List.append_assoc]
      rfl
  | write =>
      show adddata (addtobuf _ _) _ = _
      rw [initbuf_eq, adddata_eq, addtobuf, List.append_assoc, List.append_assoc,
        List.append_assoc, List.append_assoc]
      rfl
  | readdir =>
      show addtobuf _ _ = _
      rw [initbuf_eq, addtobuf, List.append_assoc]
      rfl

/-- The header of every call can be read back. -/
theorem header_ok {txid : Nat} (htxid : txid < 2 ^ 32) (p : Proc) :
    callHeaderCodec.Ok (header txid p.number) := by
  have hproc : p.number < 2 ^ 32 := by cases p <;> decide
  have hcall : Codec.word.Ok msgCall := Nat.two_pow_pos 32
  have hrpcvers : Codec.word.Ok srpcVersion := (by decide : srpcVersion < 2 ^ 32)
  have hprog : Codec.word.Ok nfsNumber := (by decide : nfsNumber < 2 ^ 32)
  have hvers : Codec.word.Ok nfsVersion := (by decide : nfsVersion < 2 ^ 32)
  have hunix : Codec.word.Ok authUnix := (by decide : authUnix < 2 ^ 32)
  have hnull : Codec.word.Ok authNull := Nat.two_pow_pos 32
  have hcred : (authUnixCodec.encode (37, nfsMachineName, 0, 0, 0)).length = 28 := rfl
  have hbody : Codec.var.Ok (authUnixCodec.encode (37, nfsMachineName, 0, 0, 0)) := by
    show List.length _ < 2 ^ 32
    rw [hcred]
    decide
  have hempty : Codec.var.Ok [] := Nat.two_pow_pos 32
  exact ⟨htxid, hcall, hrpcvers, hprog, hvers, hproc, ⟨hunix, hbody⟩, hnull, hempty⟩

/-- The credentials are the same in every call. -/
theorem decode_credentials :
    authUnixCodec.decode (header 0 0).cred.2 = some ((37, nfsMachineName, 0, 0, 0), []) := by
  have hword {n : Nat} (h : n ≤ 37) : Codec.word.Ok n := Nat.lt_of_le_of_lt h (by decide)
  have hname : Codec.var.Ok nfsMachineName := by
    show nfsMachineName.length < 2 ^ 32
    decide
  have h := authUnixCodec.decode_encode (37, nfsMachineName, 0, 0, 0) []
    ⟨hword (by decide), hname, hword (by decide), hword (by decide), hword (by decide)⟩
  rwa [List.append_nil] at h

/-- The server finds the call that was made. -/
theorem decodeCall_message {txid : Nat} (htxid : txid < 2 ^ 32) {c : Call} (hc : c.Ok) :
    decodeCall (c.message txid) = some ⟨txid, nfsMachineName, 0, 0, c⟩ := by
  have hargs := (argsCodec c.proc).decode_encode c.args [] hc
  rw [List.append_nil] at hargs
  unfold decodeCall
  rw [message_eq, callHeaderCodec.decode_encode _ _ (header_ok htxid c.proc), Option.bind_eq_bind,
    Option.bind_some]
  dsimp only
  rw [if_pos ⟨rfl, rfl, rfl, rfl, rfl⟩]
  show (authUnixCodec.decode (header 0 0).cred.2).bind _ = _
  rw [decode_credentials, Option.bind_some]
  show (Proc.ofNumber c.proc.number).bind _ = _
  rw [Proc.ofNumber_number, Option.bind_some]
  dsimp only
  rw [hargs]
  rfl

/-! ### How long the messages are -/

/-- The lengths that `nfs_write` adds up for data of this length. -/
theorem length_nfsWrite (txid : Nat) (fh : Cookie) (offset : Nat) {data : List UInt8}
    (h : data.length < 2 ^ 31) :
    (nfsWrite txid fh offset data).length = (nfsWriteLengths data.length).sum := by
  -- The remainder and the fill of C's `int` arithmetic, for a length that is not negative.
  have hmod : (data.length : Int).tmod 4 = ((data.length % 4 : Nat) : Int) := rfl
  have hsize (n : Nat) (hn : n < 2 ^ 32) : sizeT n = n := by
    unfold sizeT
    omega
  have hinit : (initbuf txid nfsNumber nfsVersion nfsprocWrite).length = initbufLengths.sum := rfl
  have hcookie : fh.val.length = 32 := fh.property
  have hword (n : Nat) : (wordBytes n).length = 4 := rfl
  unfold nfsWrite nfsWriteLengths adddataLengths
  rw [adddata_eq, List.length_append, Codec.length_var, addtobuf, List.length_append, hinit,
    hmod, hsize _ (by omega)]
  simp only [List.length_append, hcookie, hword, List.sum_append, List.sum_cons, List.sum_nil,
    Codec.fill]
  split
  -- The data ends within a word, and the rest of it is filled.
  next hne =>
    have hrest : sizeT (4 - ((data.length % 4 : Nat) : Int)) = 4 - data.length % 4 := by
      unfold sizeT
      omega
    rw [hrest, List.sum_cons, List.sum_nil]
    omega
  -- The data ends at a word.
  next heq =>
    rw [List.sum_nil]
    omega

end Sos.Nfs
