import Sos.Io.Nfs

/-!
# `Sos.Io.Readdir`: the answer to `nfs_readdir`

`nfs_readdir_cb` and `getentries_readdir` of `libs/nfs` take a part of the directory out of a
message: here, the bytes behind the header, which `check_errors` has taken off. The words of a
message are big-endian, as the words of the machine are. To read behind the end of a message is
an invalid access, and a length that is negative is one that is too large.

* `nfsReaddirCb_readdirMessage`: what the callback gets for the message of a server. It gets the
  names of the entries and the cookie of the last one, as a signed value, whether the directory
  ends there or not.
-/

set_option autoImplicit false

namespace Sos

/-! ### Reading a message -/

/-- `getfrombuf` of a word: the word, and what is behind it. -/
def getfrombuf : List UInt8 → Option (Nat × List UInt8)
  | a :: b :: c :: d :: buf =>
    some (((a.toNat * 2 ^ 8 + b.toNat) * 2 ^ 8 + c.toNat) * 2 ^ 8 + d.toNat, buf)
  | _ => none

/-- `pbuf_adv_arg`. -/
def pbufAdvArg (buf : List UInt8) (len : Nat) : Option (List UInt8) :=
  if len ≤ buf.length then some (buf.drop len) else none

/-- The length of a string in a message, with the fill. -/
def padded (size : Nat) : Nat := if size % 4 ≠ 0 then size + (4 - size % 4) else size

/-- `skipstring`. -/
def skipstring (buf : List UInt8) : Option (List UInt8) := do
  let (size, buf) ← getfrombuf buf
  pbufAdvArg buf (padded size)

/-- The loop of `getentries_readdir`. The word behind the last entry is read, and `cookie = 0`
assigns to the parameter, so that it has no effect. -/
def getentriesLoop : Nat → Nat → Nat → List UInt8 → Option (Nat × Nat)
  | 0, _, _, _ => none
  | fuel + 1, count, cookie, buf => do
    let (tmp, buf) ← getfrombuf buf
    if tmp = 0 then do
      let _ ← getfrombuf buf
      some (count, cookie)
    else do
      let (_, buf) ← getfrombuf buf
      let buf ← skipstring buf
      let (cookie, buf) ← getfrombuf buf
      getentriesLoop fuel (count + 1) cookie buf

/-- `getentries_readdir`: the number of entries, and `*cookie`, which is `next_cookie` of the
caller. Every turn takes more than one byte. -/
def getentriesReaddir (buf : List UInt8) (nextCookie : Nat) : Option (Nat × Nat) :=
  getentriesLoop buf.length 0 nextCookie buf

/-- The loop of `nfs_readdir_cb`, which finds the names. -/
def filenamesLoop : Nat → List UInt8 → Option (List (List UInt8))
  | 0, _ => none
  | fuel + 1, buf => do
    let (tmp, buf) ← getfrombuf buf
    if tmp = 0 then some []
    else do
      let (_, buf) ← getfrombuf buf
      let (size, buf) ← getfrombuf buf
      let file := buf.take size
      let buf ← pbufAdvArg buf (padded size)
      let (_, buf) ← getfrombuf buf
      let filenames ← filenamesLoop fuel buf
      some (file :: filenames)

/-- What the callback of `nfs_readdir` is called with. -/
structure ReaddirArgs where
  status : NfsStatus
  numEntries : Nat
  filenames : List (List UInt8)
  nextCookie : Int
deriving DecidableEq

/-- The status in a message: `NFS_OK`, `NFSERR_NOSPC`, or another error. -/
def nfsStatus (status : Nat) : NfsStatus :=
  if status = 0 then .ok else if status = 28 then .noSpace else .error

/-- `nfs_readdir_cb`. -/
def nfsReaddirCb (buf : List UInt8) : Option ReaddirArgs := do
  let (status, buf) ← getfrombuf buf
  if nfsStatus status = .ok then do
    let (numEntries, nextCookie) ← getentriesReaddir buf 0
    let filenames ← filenamesLoop buf.length buf
    some ⟨.ok, numEntries, filenames, toInt32 nextCookie⟩
  else some ⟨nfsStatus status, 0, [], 0⟩

/-! ### Writing a message -/

/-- An entry of the directory on the server. -/
structure DirEntry where
  fileid : Nat
  name : List UInt8
  cookie : Nat
deriving DecidableEq

/-- An entry that fits into a message. -/
structure DirEntry.Ok (e : DirEntry) : Prop where
  fileid : e.fileid < 2 ^ 32
  name : e.name.length < 2 ^ 31
  cookie : e.cookie < 2 ^ 32

instance (e : DirEntry) : Decidable e.Ok :=
  decidable_of_iff (e.fileid < 2 ^ 32 ∧ e.name.length < 2 ^ 31 ∧ e.cookie < 2 ^ 32)
    ⟨fun h => ⟨h.1, h.2.1, h.2.2⟩, fun h => ⟨h.fileid, h.name, h.cookie⟩⟩

def wordBytes (n : Nat) : List UInt8 :=
  [UInt8.ofNat (n / 2 ^ 24), UInt8.ofNat (n / 2 ^ 16), UInt8.ofNat (n / 2 ^ 8), UInt8.ofNat n]

def stringBytes (name : List UInt8) : List UInt8 :=
  wordBytes name.length ++ (name ++ List.replicate (padded name.length - name.length) 0)

/-- The entries, each behind a 1, then a 0, and whether the directory ends here. -/
def entriesBytes (eof : Bool) : List DirEntry → List UInt8
  | [] => wordBytes 0 ++ wordBytes eof.toNat
  | e :: entries =>
    wordBytes 1 ++ (wordBytes e.fileid ++
      (stringBytes e.name ++ (wordBytes e.cookie ++ entriesBytes eof entries)))

/-- The answer of the server with these entries. -/
def readdirMessage (eof : Bool) (entries : List DirEntry) : List UInt8 :=
  wordBytes 0 ++ entriesBytes eof entries

/-- The cookie of the last entry. -/
def lastCookie (nextCookie : Nat) (entries : List DirEntry) : Nat :=
  (entries.getLast?.map (·.cookie)).getD nextCookie

/-- Without entries the cookie is the one that was asked for. -/
@[simp] theorem lastCookie_nil (nextCookie : Nat) : lastCookie nextCookie [] = nextCookie := rfl

/-- Each entry brings its own cookie. -/
theorem lastCookie_cons (nextCookie : Nat) (e : DirEntry) (entries : List DirEntry) :
    lastCookie nextCookie (e :: entries) = lastCookie e.cookie entries := by
  unfold lastCookie
  cases entries with
  | nil => rfl
  | cons e' entries => rw [List.getLast?_cons_cons, List.getLast?_cons, Option.map_some]; rfl

/-! ### Reading what was written -/

/-- A word is read back. -/
@[simp] theorem getfrombuf_wordBytes {n : Nat} (h : n < 2 ^ 32) (buf : List UInt8) :
    getfrombuf (wordBytes n ++ buf) = some (n, buf) := by
  show some (_, buf) = some (n, buf)
  rw [UInt8.toNat_ofNat', UInt8.toNat_ofNat', UInt8.toNat_ofNat', UInt8.toNat_ofNat']
  congr 2
  omega

/-- Padding adds bytes. -/
theorem le_padded (size : Nat) : size ≤ padded size := by
  unfold padded
  split
  · omega
  · exact Nat.le_refl size

/-- A string with its fill is taken off the message. -/
theorem pbufAdvArg_string (name buf : List UInt8) :
    pbufAdvArg (name ++ List.replicate (padded name.length - name.length) 0 ++ buf)
      (padded name.length) = some buf := by
  have hle := le_padded name.length
  have hlength : (name ++ List.replicate (padded name.length - name.length) (0 : UInt8)).length =
      padded name.length := by
    rw [List.length_append, List.length_replicate]
    omega
  unfold pbufAdvArg
  rw [if_pos (by rw [List.length_append, hlength]; omega), List.drop_left' hlength]

/-- `skipstring` skips the name with its padding. -/
theorem skipstring_stringBytes {name : List UInt8} (h : name.length < 2 ^ 31)
    (buf : List UInt8) : skipstring (stringBytes name ++ buf) = some buf := by
  unfold skipstring stringBytes
  rw [List.append_assoc, getfrombuf_wordBytes (by omega), Option.bind_eq_bind, Option.bind_some]
  exact pbufAdvArg_string name buf

/-- The first loop counts the entries and keeps the last cookie, by induction on them. -/
theorem getentriesLoop_entriesBytes {entries : List DirEntry} (h : ∀ e ∈ entries, e.Ok)
    (eof : Bool) (fuel count cookie : Nat) (hfuel : entries.length < fuel) :
    getentriesLoop fuel count cookie (entriesBytes eof entries) =
      some (count + entries.length, lastCookie cookie entries) := by
  induction entries generalizing fuel count cookie with
  | nil =>
      -- No entry follows: the zero and the end-of-file flag.
      obtain ⟨fuel, rfl⟩ := Nat.exists_eq_succ_of_ne_zero (Nat.ne_of_gt hfuel)
      have heof : eof.toNat < 2 ^ 32 := Nat.lt_of_le_of_lt (Bool.toNat_le eof) (by decide)
      rw [getentriesLoop, entriesBytes, getfrombuf_wordBytes (by decide), Option.bind_eq_bind,
        Option.bind_some]
      dsimp only
      rw [if_pos rfl, ← List.append_nil (wordBytes eof.toNat), getfrombuf_wordBytes heof]
      rfl
  | cons e entries ih =>
      obtain ⟨fuel, rfl⟩ := Nat.exists_eq_succ_of_ne_zero
        (Nat.ne_of_gt (Nat.lt_of_le_of_lt (Nat.zero_le _) hfuel))
      have he := h e List.mem_cons_self
      have hrest := ih (fun e' he' => h e' (List.mem_cons_of_mem e he')) fuel (count + 1) e.cookie
        (Nat.lt_of_succ_lt_succ hfuel)
      -- An entry follows; its fields are read one by one, and the rest is the induction
      -- hypothesis.
      rw [getentriesLoop, entriesBytes, getfrombuf_wordBytes (by decide), Option.bind_eq_bind,
        Option.bind_some]
      dsimp only
      rw [if_neg Nat.one_ne_zero, getfrombuf_wordBytes he.fileid, Option.bind_eq_bind,
        Option.bind_some]
      dsimp only
      rw [skipstring_stringBytes he.name, Option.bind_some, getfrombuf_wordBytes he.cookie,
        Option.bind_some]
      dsimp only
      rw [hrest, lastCookie_cons, List.length_cons, Nat.add_assoc, Nat.add_comm 1]

/-- The second loop collects the names, by induction on the entries. -/
theorem filenamesLoop_entriesBytes {entries : List DirEntry} (h : ∀ e ∈ entries, e.Ok)
    (eof : Bool) (fuel : Nat) (hfuel : entries.length < fuel) :
    filenamesLoop fuel (entriesBytes eof entries) = some (entries.map (·.name)) := by
  induction entries generalizing fuel with
  | nil =>
      obtain ⟨fuel, rfl⟩ := Nat.exists_eq_succ_of_ne_zero (Nat.ne_of_gt hfuel)
      -- No entry follows.
      rw [filenamesLoop, entriesBytes, getfrombuf_wordBytes (by decide), Option.bind_eq_bind,
        Option.bind_some]
      rfl
  | cons e entries ih =>
      obtain ⟨fuel, rfl⟩ := Nat.exists_eq_succ_of_ne_zero
        (Nat.ne_of_gt (Nat.lt_of_le_of_lt (Nat.zero_le _) hfuel))
      have he := h e List.mem_cons_self
      have hname := he.name
      have hrest := ih (fun e' he' => h e' (List.mem_cons_of_mem e he')) fuel
        (Nat.lt_of_succ_lt_succ hfuel)
      -- An entry follows; its name is taken with the padding and cut to its length.
      rw [filenamesLoop, entriesBytes, getfrombuf_wordBytes (by decide), Option.bind_eq_bind,
        Option.bind_some]
      dsimp only
      rw [if_neg Nat.one_ne_zero, getfrombuf_wordBytes he.fileid, Option.bind_eq_bind,
        Option.bind_some]
      dsimp only
      rw [stringBytes, List.append_assoc, getfrombuf_wordBytes (by omega), Option.bind_eq_bind,
        Option.bind_some]
      dsimp only
      rw [pbufAdvArg_string, Option.bind_some, getfrombuf_wordBytes he.cookie, Option.bind_some]
      dsimp only
      rw [hrest, Option.bind_some, List.append_assoc, List.take_left]
      rfl

/-- Every entry takes at least one byte, so that the length bounds the loops. -/
theorem length_entriesBytes (eof : Bool) (entries : List DirEntry) :
    entries.length < (entriesBytes eof entries).length := by
  induction entries with
  | nil => exact Nat.zero_lt_succ _
  | cons e entries ih =>
      unfold entriesBytes
      rw [List.length_append, List.length_append, List.length_append, List.length_append,
        List.length_cons]
      have hword : (wordBytes 1).length = 4 := rfl
      omega

/-- What the callback is called with for the entries of a server. -/
theorem nfsReaddirCb_readdirMessage {entries : List DirEntry} (h : ∀ e ∈ entries, e.Ok)
    (eof : Bool) :
    nfsReaddirCb (readdirMessage eof entries) =
      some ⟨.ok, entries.length, entries.map (·.name), toInt32 (lastCookie 0 entries)⟩ := by
  have hfuel := length_entriesBytes eof entries
  have hstatus : nfsStatus 0 = .ok := rfl
  unfold nfsReaddirCb readdirMessage getentriesReaddir
  rw [getfrombuf_wordBytes (by decide), Option.bind_eq_bind, Option.bind_some]
  dsimp only
  rw [if_pos hstatus, getentriesLoop_entriesBytes h eof _ _ _ hfuel, Option.bind_eq_bind,
    Option.bind_some]
  dsimp only
  rw [filenamesLoop_entriesBytes h eof _ hfuel, Nat.zero_add]
  rfl

end Sos
