import Sos.Files.Tables

/-!
# `Sos.Files.Effects`: what the handlers for files send

`Effects` says that a handler sends only replies of one word for `SOS_OPEN`, `SOS_READ` and
`SOS_WRITE`, and requests that are not for the listing of the directory, and leaves the
console's buffer and the flag of the file cache alone. Every handler is of this kind, but for
the two that read and fill the console's buffer and the one that goes on with the listing.

* `readSerial_effects`: what `read_serial` does to the buffer of the console.
* `nfsReply_effects`: an answer of the NFS server, whatever it is for.
* `step_listing`: one step of the file system.
-/

set_option autoImplicit false

namespace Sos

/-- A reply of one word to a call for a file. `nfs_read_callback` shifts the number of the call
itself, before `send_ipc_reply` does. -/
def Event.FileReply (ev : Event) : Prop :=
  ∃ t label word, ev = .reply t label [word] ∧
    (label = sosOpen ∨ label = sosRead ∨ label = createSyscallNr sosRead ∨ label = sosWrite)

/-- A request for a part of the directory, or for an entry of it. -/
def Rpc.listing : Rpc → Bool
  | .lookup _ => true
  | .readdir _ => true
  | .create _ | .read .. | .write .. => false

namespace Io

/-- The messages of `s'` are those of `s` and replies of one word. -/
def Replies (s s' : Io) : Prop :=
  ∃ sent, s'.outbox = s.outbox ++ sent ∧ ∀ ev ∈ sent, ev.FileReply

/-- No reply is sent. -/
theorem Replies.of_eq {s s' : Io} (h : s'.outbox = s.outbox) : Replies s s' :=
  ⟨[], by rw [h, List.append_nil], nofun⟩

/-- One reply is sent, with one of the labels of the file system. -/
theorem Replies.one {s s' : Io} {t : ThreadId} {label word : Int}
    (hlabel : label = sosOpen ∨ label = sosRead ∨ label = createSyscallNr sosRead ∨
      label = sosWrite) (h : s'.outbox = s.outbox ++ [.reply t label [word]]) : Replies s s' := by
  refine ⟨_, h, ?_⟩
  intro ev hev
  exact ⟨t, label, word, List.mem_singleton.mp hev, hlabel⟩

/-- The replies of one step after those of another. -/
theorem Replies.trans {s s' s'' : Io} (h : Replies s s') (h' : Replies s' s'') :
    Replies s s'' := by
  obtain ⟨sent, hsent, hall⟩ := h
  obtain ⟨sent', hsent', hall'⟩ := h'
  refine ⟨sent ++ sent', by rw [hsent', hsent, List.append_assoc], ?_⟩
  intro ev hev
  cases List.mem_append.mp hev with
  | inl hold => exact hall ev hold
  | inr hnew => exact hall' ev hnew

/-- The requests of `s'` are those of `s` and some that are not for the listing. -/
def Requests (s s' : Io) : Prop :=
  ∃ sent, s'.rpcs = s.rpcs ++ sent ∧ ∀ rpc ∈ sent, rpc.listing = false

/-- No request is made. -/
theorem Requests.of_eq {s s' : Io} (h : s'.rpcs = s.rpcs) : Requests s s' :=
  ⟨[], by rw [h, List.append_nil], nofun⟩

/-- One request is made, and it does not list the directory. -/
theorem Requests.one {s s' : Io} {rpc : Rpc} (hrpc : rpc.listing = false)
    (h : s'.rpcs = s.rpcs ++ [rpc]) : Requests s s' :=
  ⟨_, h, fun _ hmem => List.mem_singleton.mp hmem ▸ hrpc⟩

/-- The requests of one step after those of another. -/
theorem Requests.trans {s s' s'' : Io} (h : Requests s s') (h' : Requests s' s'') :
    Requests s s'' := by
  obtain ⟨sent, hsent, hall⟩ := h
  obtain ⟨sent', hsent', hall'⟩ := h'
  refine ⟨sent ++ sent', by rw [hsent', hsent, List.append_assoc], ?_⟩
  intro rpc hrpc
  cases List.mem_append.mp hrpc with
  | inl hold => exact hall rpc hold
  | inr hnew => exact hall' rpc hnew

/-- A handler that has nothing to do with the console's buffer and the listing. -/
structure Effects (s s' : Io) : Prop where
  replies : Replies s s'
  console : s'.console = s.console
  initialized : s'.fileCacheInitialized = s.fileCacheInitialized
  requests : Requests s s'

namespace Effects

variable {s s' s'' : Io}

/-- A step that touches none of the four. -/
theorem of_eq (houtbox : s'.outbox = s.outbox) (hconsole : s'.console = s.console)
    (hflag : s'.fileCacheInitialized = s.fileCacheInitialized) (hrpcs : s'.rpcs = s.rpcs) :
    Effects s s' :=
  ⟨.of_eq houtbox, hconsole, hflag, .of_eq hrpcs⟩

/-- Nothing happens. -/
theorem refl (s : Io) : Effects s s := of_eq rfl rfl rfl rfl

/-- One step after another. -/
theorem trans (h : Effects s s') (h' : Effects s' s'') : Effects s s'' :=
  ⟨h.replies.trans h'.replies, h'.console.trans h.console, h'.initialized.trans h.initialized,
    h.requests.trans h'.requests⟩

/-- A reply is sent last. -/
theorem reply {t : ThreadId} {label word : Int}
    (hlabel : label = sosOpen ∨ label = sosRead ∨ label = createSyscallNr sosRead ∨
      label = sosWrite) (houtbox : s'.outbox = s.outbox ++ [.reply t label [word]])
    (hconsole : s'.console = s.console)
    (hflag : s'.fileCacheInitialized = s.fileCacheInitialized) (hrpcs : s'.rpcs = s.rpcs) :
    Effects s s' :=
  ⟨.one hlabel houtbox, hconsole, hflag, .of_eq hrpcs⟩

/-- A request is sent last. -/
theorem request {rpc : Rpc} (hrpc : rpc.listing = false) (houtbox : s'.outbox = s.outbox)
    (hconsole : s'.console = s.console)
    (hflag : s'.fileCacheInitialized = s.fileCacheInitialized)
    (hrpcs : s'.rpcs = s.rpcs ++ [rpc]) : Effects s s' :=
  ⟨.of_eq houtbox, hconsole, hflag, .one hrpc hrpcs⟩

/-- Freeing a descriptor sends nothing. -/
theorem free {e : Nat} (h : s.freeEntry e = some s') : Effects s s' := by
  obtain ⟨f, -, h⟩ := Option.bind_eq_some_iff.mp h
  cases h
  exact of_eq rfl rfl rfl rfl

end Effects

/-! ### Opening and creating files -/

/-- `open_nfs` sends one reply: the descriptor. -/
theorem openNfs_effects (s : Io) (file : Nat) (t : ThreadId) (mode : Nat) :
    Effects s (s.openNfs file t mode) := by
  unfold openNfs
  split
  · exact .reply (Or.inl rfl) rfl rfl rfl rfl
  · split
    · exact .reply (Or.inl rfl) rfl rfl rfl rfl
    · exact .reply (Or.inl rfl) rfl rfl rfl rfl

/-- `open_serial` sends one reply: the descriptor, or that somebody reads the console. -/
theorem openSerial_effects (s : Io) (file : Nat) (t : ThreadId) (mode : Nat) :
    Effects s (s.openSerial file t mode) := by
  unfold openSerial
  split
  · exact .reply (Or.inl rfl) rfl rfl rfl rfl
  · dsimp only
    split
    · exact .reply (Or.inl rfl) rfl rfl rfl rfl
    · split
      · exact .reply (Or.inl rfl) rfl rfl rfl rfl
      · exact .reply (Or.inl rfl) rfl rfl rfl rfl

/-- Opening a file sends one reply, or makes one request for a file that is not in the cache. -/
theorem openFile_effects {null : Option (List UInt8)} {s s' : Io} {t : ThreadId}
    {words : List Nat} {page : Option IpcPage} (h : s.openFile null t words page = some s') :
    Effects s s' := by
  unfold openFile at h
  split at h
  -- The branches of `open_file`: a mode that is none, a new file, a file of the cache.
  · dsimp only at h
    split at h
    · cases h
      exact .reply (Or.inl rfl) rfl rfl rfl rfl
    · obtain ⟨found, -, h⟩ := Option.bind_eq_some_iff.mp h
      cases found with
      | none =>
          -- The reply is put off until the NFS server has created the file.
          cases h
          exact .request (rfl : (Rpc.create s.nextFile).listing = false) rfl rfl rfl rfl
      | some index =>
          obtain ⟨file, -, h⟩ := Option.bind_eq_some_iff.mp h
          cases h
          unfold openDevice
          split
          · exact openSerial_effects ..
          · exact openNfs_effects ..
  · cases h
    exact .reply (Or.inl rfl) rfl rfl rfl rfl

/-- The answer to a lookup sends nothing: no client waits for it. -/
theorem nfsSetStatus_effects {s s' : Io} {file : Nat} {r : NfsReply}
    (h : s.nfsSetStatus file r = some s') : Effects s s' := by
  unfold nfsSetStatus at h
  dsimp only at h
  split at h
  · unfold fileCacheInsert at h
    split at h
    · cases h
      exact .of_eq rfl rfl rfl rfl
    · cases h
  · cases h
    exact .of_eq rfl rfl rfl rfl

/-- The answer to a creation sends the reply that `open_file` has put off. -/
theorem nfsCreateCallback_effects {isActive : Nat → Bool} {s s' : Io} {file : Nat}
    {r : NfsReply} (h : s.nfsCreateCallback isActive file r = some s') : Effects s s' := by
  obtain ⟨s₁, hstatus, h⟩ := Option.bind_eq_some_iff.mp h
  cases h
  -- A client that is still there gets its descriptor or an error, and otherwise nobody gets
  -- anything.
  have hsame : Effects s s₁ := by
    unfold nfsCreateStatus at hstatus
    dsimp only at hstatus
    split at hstatus
    · obtain ⟨s₂, hset, hstatus⟩ := Option.bind_eq_some_iff.mp hstatus
      have hsame := nfsSetStatus_effects hset
      cases hstatus
      split
      · exact hsame.trans (openNfs_effects ..)
      · exact hsame
    · cases hstatus
      split
      · exact .reply (Or.inl rfl) rfl rfl rfl rfl
      · exact .refl s
  exact hsame.trans (.of_eq rfl rfl rfl rfl)

/-! ### Reading, writing and closing -/

/-- `read_serial` takes what it replies with off the console's buffer. -/
theorem readSerial_effects {s s' : Io} {e : Nat} (h : s.readSerial e = some s') :
    ∃ f, s.entries e = some f ∧ s'.console = (s.console.read f.toRead).1 ∧
      s'.fileCacheInitialized = s.fileCacheInitialized ∧
      (((s.console.read f.toRead).2 = 0 ∧ s'.outbox = s.outbox ∧ s'.accesses = s.accesses) ∨
      ∃ addr, s'.outbox = s.outbox ++
          [.reply f.owner sosRead [((s.console.read f.toRead).2 : Nat)]] ∧
        s'.accesses = s.accesses ++ [⟨addr, s.console.copied, some s.console.copy⟩]) := by
  obtain ⟨f, hf, h⟩ := Option.bind_eq_some_iff.mp h
  dsimp only at h
  refine ⟨f, hf, ?_⟩
  split at h
  · obtain ⟨addr, -, h⟩ := Option.bind_eq_some_iff.mp h
    cases h
    exact ⟨rfl, rfl, Or.inr ⟨addr, rfl, rfl⟩⟩
  next hnone =>
    cases h
    exact ⟨rfl, rfl, Or.inl ⟨by omega, rfl, rfl⟩⟩

/-- A read of the console that finds characters sends one reply. -/
theorem readSerial_replies {s s' : Io} {e : Nat} (h : s.readSerial e = some s') :
    Replies s s' := by
  obtain ⟨f, -, -, -, hsent⟩ := readSerial_effects h
  cases hsent with
  | inl hnone => exact .of_eq hnone.2.1
  | inr hone =>
      obtain ⟨addr, houtbox, -⟩ := hone
      exact .one (Or.inr (Or.inl rfl)) houtbox

/-- A read of the console asks the NFS server for nothing. -/
theorem readSerial_requests {s s' : Io} {e : Nat} (h : s.readSerial e = some s') :
    Requests s s' := by
  obtain ⟨f, -, h⟩ := Option.bind_eq_some_iff.mp h
  dsimp only at h
  split at h
  · obtain ⟨addr, -, h⟩ := Option.bind_eq_some_iff.mp h
    cases h
    exact .of_eq rfl
  · cases h
    exact .of_eq rfl

/-- A read of a file asks the NFS server and replies later. -/
theorem readNfs_effects {s s' : Io} {e : Nat} (h : s.readNfs e = some s') : Effects s s' := by
  obtain ⟨f, -, h⟩ := Option.bind_eq_some_iff.mp h
  obtain ⟨file, -, h⟩ := Option.bind_eq_some_iff.mp h
  cases h
  exact .request rfl rfl rfl rfl rfl

/-- `read_file` of the console takes from its buffer, so it is not one of the others. -/
theorem readFile_requests {s : Io} {r : Io × Reply} {t : ThreadId} {words : List Nat}
    {page : Option IpcPage} (h : s.readFile t words page = some r) :
    Requests s r.1 ∧ r.1.fileCacheInitialized = s.fileCacheInitialized := by
  unfold readFile at h
  split at h
  · obtain ⟨entry, -, h⟩ := Option.bind_eq_some_iff.mp h
    cases entry with
    | none =>
        cases h
        exact ⟨.of_eq rfl, rfl⟩
    | some ef =>
        -- The device decides: the console asks for nothing, and the NFS server is asked for the
        -- data.
        obtain ⟨file, -, h⟩ := Option.bind_eq_some_iff.mp h
        obtain ⟨s₁, hdevice, h⟩ := Option.bind_eq_some_iff.mp h
        cases h
        unfold readDevice at hdevice
        split at hdevice
        · obtain ⟨f, -, -, hflag, -⟩ := readSerial_effects hdevice
          have hrequests := readSerial_requests hdevice
          exact ⟨hrequests, hflag⟩
        · have heffects := readNfs_effects hdevice
          exact ⟨heffects.requests, heffects.initialized⟩
  · cases h
    exact ⟨.of_eq rfl, rfl⟩

/-- What a read sends has the label of a read, for either device. -/
theorem readFile_replies {s : Io} {r : Io × Reply} {t : ThreadId} {words : List Nat}
    {page : Option IpcPage} (h : s.readFile t words page = some r) : Replies s r.1 := by
  unfold readFile at h
  split at h
  · obtain ⟨entry, -, h⟩ := Option.bind_eq_some_iff.mp h
    cases entry with
    | none =>
        cases h
        exact .of_eq rfl
    | some ef =>
        -- The device decides: the console may reply now, and the NFS server replies later.
        obtain ⟨file, -, h⟩ := Option.bind_eq_some_iff.mp h
        obtain ⟨s₁, hdevice, h⟩ := Option.bind_eq_some_iff.mp h
        cases h
        unfold readDevice at hdevice
        split at hdevice
        · have hreplies := readSerial_replies hdevice
          exact hreplies
        · have heffects := readNfs_effects hdevice
          exact heffects.replies
  · cases h
    exact .of_eq rfl

/-- A character from the console asks the NFS server for nothing. -/
theorem serialReceiveHandler_requests {s s' : Io} {c : UInt8}
    (h : s.serialReceiveHandler c = some s') :
    Requests s s' ∧ s'.fileCacheInitialized = s.fileCacheInitialized := by
  obtain ⟨file, -, h⟩ := Option.bind_eq_some_iff.mp h
  dsimp only at h
  obtain ⟨reading, -, h⟩ := Option.bind_eq_some_iff.mp h
  split at h
  · split at h
    · obtain ⟨f, -, -, hflag, -⟩ := readSerial_effects h
      have hrequests := readSerial_requests h
      exact ⟨hrequests, hflag⟩
    · cases h
      exact ⟨.of_eq rfl, rfl⟩
  · cases h
    exact ⟨.of_eq rfl, rfl⟩

/-- A character sends at most the reply to the read that waits for it. -/
theorem serialReceiveHandler_replies {s s' : Io} {c : UInt8}
    (h : s.serialReceiveHandler c = some s') : Replies s s' := by
  obtain ⟨file, -, h⟩ := Option.bind_eq_some_iff.mp h
  dsimp only at h
  obtain ⟨reading, -, h⟩ := Option.bind_eq_some_iff.mp h
  split at h
  · split at h
    · have hreplies := readSerial_replies h
      exact hreplies
    · cases h
      exact .of_eq rfl
  · cases h
    exact .of_eq rfl

/-- A write to the console replies at once, and one to a file asks the NFS server. -/
theorem writeDevice_effects {s s' : Io} {e : Nat} {device : Device} {allocated : Bool}
    (h : s.writeDevice e device allocated = some s') : Effects s s' := by
  unfold writeDevice at h
  -- The console replies at once, and the NFS server is asked.
  split at h
  · obtain ⟨f, -, h⟩ := Option.bind_eq_some_iff.mp h
    obtain ⟨file, -, h⟩ := Option.bind_eq_some_iff.mp h
    split at h
    · obtain ⟨addr, -, h⟩ := Option.bind_eq_some_iff.mp h
      cases h
      exact .reply (Or.inr (Or.inr (Or.inr rfl))) rfl rfl rfl rfl
    · cases h
  · obtain ⟨f, -, h⟩ := Option.bind_eq_some_iff.mp h
    obtain ⟨file, -, h⟩ := Option.bind_eq_some_iff.mp h
    obtain ⟨addr, -, h⟩ := Option.bind_eq_some_iff.mp h
    obtain ⟨-, h⟩ := Option.ite_none_right_eq_some.mp h
    cases h
    exact .request rfl rfl rfl rfl rfl

/-- `write_file` checks the message and leaves the rest to the device. -/
theorem writeFile_effects {s : Io} {r : Io × Reply} {t : ThreadId} {words : List Nat}
    {page : Option IpcPage} {allocated : Bool} (h : s.writeFile t words page allocated = some r) :
    Effects s r.1 := by
  unfold writeFile at h
  split at h
  · obtain ⟨entry, -, h⟩ := Option.bind_eq_some_iff.mp h
    cases entry with
    | none =>
        cases h
        exact .refl s
    | some ef =>
        -- What is too long for the IPC page is refused before the device is reached.
        dsimp only at h
        split at h
        · cases h
          exact .refl s
        · obtain ⟨file, -, h⟩ := Option.bind_eq_some_iff.mp h
          obtain ⟨s₁, hdevice, h⟩ := Option.bind_eq_some_iff.mp h
          cases h
          have heffects := writeDevice_effects hdevice
          exact ⟨heffects.replies, heffects.console, heffects.initialized, heffects.requests⟩
  · cases h
    exact .refl s

/-- Closing the console sends nothing of its own. -/
theorem closeSerial_effects {s s' : Io} {e : Nat} (h : s.closeSerial e = some s') :
    Effects s s' := by
  obtain ⟨f, -, h⟩ := Option.bind_eq_some_iff.mp h
  split at h
  · cases h
    exact .refl s
  · obtain ⟨file, -, h⟩ := Option.bind_eq_some_iff.mp h
    obtain ⟨other, -, h⟩ := Option.bind_eq_some_iff.mp h
    cases other with
    | some e' =>
        cases h
        exact .refl s
    | none =>
        cases h
        exact .of_eq rfl rfl rfl rfl

/-- The reply to a close is sent by the handler and not here. -/
theorem closeFile_effects {s : Io} {r : Io × Reply} {t : ThreadId} {words : List Nat}
    (h : s.closeFile t words = some r) : Effects s r.1 := by
  unfold closeFile at h
  split at h
  · split at h
    · cases h
      exact .refl s
    · obtain ⟨f, -, h⟩ := Option.bind_eq_some_iff.mp h
      obtain ⟨file, -, h⟩ := Option.bind_eq_some_iff.mp h
      obtain ⟨s₁, hclose, h⟩ := Option.bind_eq_some_iff.mp h
      obtain ⟨s₂, hfree, h⟩ := Option.bind_eq_some_iff.mp h
      cases h
      -- Only the console has something to do on a close.
      have hdevice : Effects s s₁ := by
        unfold closeDevice at hclose
        split at hclose
        · exact closeSerial_effects hclose
        · cases hclose
          exact .refl _
      exact (hdevice.trans (.free hfree)).trans (.of_eq rfl rfl rfl rfl)
  · cases h
    exact .refl s

/-! ### Answers of the NFS server -/

/-- The answer to a read sends one reply. -/
theorem nfsReadCallback_effects {s s' : Io} {e : Nat} {r : NfsReply}
    (h : s.nfsReadCallback e r = some s') : Effects s s' := by
  obtain ⟨f, -, h⟩ := Option.bind_eq_some_iff.mp h
  split at h
  · exact .free h
  · split at h
    · obtain ⟨addr, -, h⟩ := Option.bind_eq_some_iff.mp h
      cases h
      exact .reply (Or.inr (Or.inr (Or.inl rfl))) rfl rfl rfl rfl
    · cases h
      exact .reply (Or.inr (Or.inr (Or.inl rfl))) rfl rfl rfl rfl

/-- The answer to a write sends one reply. -/
theorem nfsWriteCallback_effects {s s' : Io} {e : Nat} {r : NfsReply}
    (h : s.nfsWriteCallback e r = some s') : Effects s s' := by
  obtain ⟨f, -, h⟩ := Option.bind_eq_some_iff.mp h
  split at h
  · exact .free h
  · split at h
    · obtain ⟨file, -, h⟩ := Option.bind_eq_some_iff.mp h
      cases h
      exact .reply (Or.inr (Or.inr (Or.inr rfl))) rfl rfl rfl rfl
    · cases h
      exact .reply (Or.inr (Or.inr (Or.inr rfl))) rfl rfl rfl rfl
    · cases h
      exact .reply (Or.inr (Or.inr (Or.inr rfl))) rfl rfl rfl rfl

/-- The lookups for these names change neither the replies nor the console nor the flag. -/
theorem listFiles_same (names : List (List UInt8)) (s : Io) :
    (names.foldl listFile s).outbox = s.outbox ∧
      (names.foldl listFile s).console = s.console ∧
      (names.foldl listFile s).fileCacheInitialized = s.fileCacheInitialized := by
  induction names generalizing s with
  | nil => exact ⟨rfl, rfl, rfl⟩
  | cons name names ih => exact ih (s.listFile name)

/-- The end of the listing sets the flag. -/
theorem listPart_effects (s : Io) (r : NfsReply) :
    Replies s (s.listPart r) ∧ (s.listPart r).console = s.console ∧
      (s.listPart r).fileCacheInitialized =
        (s.fileCacheInitialized || !decide (r.nextCookie > 0)) := by
  obtain ⟨houtbox, hconsole, hflag⟩ := listFiles_same r.listed s
  unfold listPart
  dsimp only
  split
  next hmore =>
    rw [decide_eq_true hmore, Bool.not_true, Bool.or_false]
    exact ⟨.of_eq houtbox, hconsole, hflag⟩
  next hlast =>
    rw [decide_eq_false hlast, Bool.not_false, Bool.or_true]
    exact ⟨.of_eq houtbox, hconsole, rfl⟩

/-- An answer of the NFS server. Only the one to a request for the directory goes on with the
listing or sets the flag. -/
theorem nfsReply_effects {isActive : Nat → Bool} {s s' : Io} {k : Nat} {r : NfsReply}
    (h : s.nfsReply isActive k r = some s') :
    Replies s s' ∧ s'.console = s.console ∧
      ((s'.fileCacheInitialized = s.fileCacheInitialized ∧
          (∀ cookie, s.rpcs[k]? ≠ some (.readdir cookie)) ∧
          Requests { s with rpcs := s.rpcs.eraseIdx k } s') ∨
        ∃ cookie, s.rpcs[k]? = some (.readdir cookie) ∧
          { s with rpcs := s.rpcs.eraseIdx k }.nfsReaddirCallback r = some s') := by
  obtain ⟨rpc, hrpc, h⟩ := Option.bind_eq_some_iff.mp h
  -- The callbacks that have nothing to do with the listing.
  have hother : Effects { s with rpcs := s.rpcs.eraseIdx k } s' →
      (∀ cookie, rpc ≠ .readdir cookie) →
      Replies s s' ∧ s'.console = s.console ∧
        ((s'.fileCacheInitialized = s.fileCacheInitialized ∧
            (∀ cookie, s.rpcs[k]? ≠ some (.readdir cookie)) ∧
            Requests { s with rpcs := s.rpcs.eraseIdx k } s') ∨
          ∃ cookie, s.rpcs[k]? = some (.readdir cookie) ∧
            { s with rpcs := s.rpcs.eraseIdx k }.nfsReaddirCallback r = some s') := by
    intro heffects hnot
    refine ⟨heffects.replies, heffects.console, Or.inl ⟨heffects.initialized, ?_,
      heffects.requests⟩⟩
    intro cookie hcookie
    exact hnot cookie (Option.some.inj (hrpc.symm.trans hcookie))
  cases rpc with
  | create => exact hother (nfsCreateCallback_effects h) nofun
  | lookup => exact hother (nfsSetStatus_effects h) nofun
  | read => exact hother (nfsReadCallback_effects h) nofun
  | write => exact hother (nfsWriteCallback_effects h) nofun
  | readdir cookie =>
      obtain ⟨-, rfl⟩ := nfsReaddirCallback_some h
      obtain ⟨hreplies, hconsole, -⟩ := listPart_effects { s with rpcs := s.rpcs.eraseIdx k } r
      exact ⟨hreplies, hconsole, Or.inr ⟨cookie, hrpc, h⟩⟩

/-! ### Processes -/

/-- A new process has its console without a reply and without a request. -/
theorem registerFiletable_effects (s : Io) (p : Nat) (t : ThreadId) (heap : FileTableEntry) :
    Effects s (s.registerFiletable p t heap) := .of_eq rfl rfl rfl rfl

/-- One turn of the loop over the descriptors of a deleted process. -/
theorem closeEntry_effects {s s' : Io} {p fd : Nat} {t : ThreadId}
    (h : closeEntry p t s fd = some s') : Effects s s' := by
  unfold closeEntry at h
  -- An empty slot, a descriptor with an answer on its way, and any other.
  split at h
  · cases h
    exact .refl s
  · obtain ⟨f, -, h⟩ := Option.bind_eq_some_iff.mp h
    split at h
    · cases h
      exact .of_eq rfl rfl rfl rfl
    · obtain ⟨file, -, h⟩ := Option.bind_eq_some_iff.mp h
      dsimp only at h
      obtain ⟨s₁, hfree, h⟩ := Option.bind_eq_some_iff.mp h
      cases h
      refine (Effects.trans ?_ (.free hfree)).trans (.of_eq rfl rfl rfl rfl)
      split
      · exact .of_eq rfl rfl rfl rfl
      · exact .refl s

/-- By induction on the descriptors that are left. -/
theorem closeEntries_effects {s s' : Io} {p : Nat} {t : ThreadId} {fds : List Nat}
    (h : fds.foldlM (closeEntry p t) s = some s') : Effects s s' := by
  induction fds generalizing s with
  | nil =>
      cases h
      exact .refl _
  | cons fd fds ih =>
      rw [List.foldlM_cons] at h
      obtain ⟨s₁, hs₁, h⟩ := Option.bind_eq_some_iff.mp h
      exact (closeEntry_effects hs₁).trans (ih h)

/-- Deleting a process closes its files without a reply. -/
theorem closeFiles_effects {s s' : Io} {p : Nat} {t : ThreadId} (h : s.closeFiles p t = some s') :
    Effects s s' := closeEntries_effects h

end Io

namespace FileServer

/-- The requests that are left when a message has been taken. -/
def unanswered (s : FileServer) : FileAction → List Rpc
  | .nfsReply k _ => s.io.rpcs.eraseIdx k
  | _ => s.io.rpcs

/-- The message is an answer to a request for the directory. -/
def answersReaddir (s : FileServer) : FileAction → Bool
  | .nfsReply k _ => (s.io.rpcs[k]? matches some (.readdir _))
  | _ => false

/-- An answer belongs to the listing if the request with its number is a `readdir`. -/
theorem answersReaddir_iff {s : FileServer} {k : Nat} {r : NfsReply} :
    s.answersReaddir (.nfsReply k r) = true ↔ ∃ cookie, s.io.rpcs[k]? = some (.readdir cookie) := by
  unfold answersReaddir
  dsimp only
  split
  next cookie hcookie => exact ⟨fun _ => ⟨cookie, hcookie⟩, fun _ => rfl⟩
  next hnot =>
    refine ⟨fun h => absurd h Bool.false_ne_true, ?_⟩
    rintro ⟨cookie, hcookie⟩
    exact absurd hcookie (hnot cookie)

/-- A step is an answer to a request for the directory, or it has nothing to do with the
listing. -/
theorem step_listing {null : Option (List UInt8)} {s s' : FileServer} {a : FileAction}
    (h : (machine null).step s a = some s') :
    (s.answersReaddir a = false ∧
        s'.io.fileCacheInitialized = s.io.fileCacheInitialized ∧
        ∃ sent, s'.io.rpcs = s.unanswered a ++ sent ∧ ∀ rpc ∈ sent, rpc.listing = false) ∨
      ∃ k r cookie, a = .nfsReply k r ∧ s.io.rpcs[k]? = some (.readdir cookie) ∧
        { s.io.cleared with rpcs := s.io.rpcs.eraseIdx k }.nfsReaddirCallback r = some s'.io := by
  obtain ⟨-, hexec⟩ := step_eq_some h
  cases a with
  | openFile p words page =>
      obtain ⟨io, hio, rfl⟩ := Option.map_eq_some_iff.mp hexec
      have heffects := Io.openFile_effects hio
      exact Or.inl ⟨rfl, heffects.initialized, heffects.requests⟩
  | readFile p words page =>
      obtain ⟨x, hx, rfl⟩ := Option.map_eq_some_iff.mp hexec
      obtain ⟨hrequests, hflag⟩ := Io.readFile_requests hx
      exact Or.inl ⟨rfl, hflag, hrequests⟩
  | writeFile p words page allocated =>
      obtain ⟨x, hx, rfl⟩ := Option.map_eq_some_iff.mp hexec
      have heffects := Io.writeFile_effects hx
      exact Or.inl ⟨rfl, heffects.initialized, heffects.requests⟩
  | closeFile p words =>
      obtain ⟨x, hx, rfl⟩ := Option.map_eq_some_iff.mp hexec
      have heffects := Io.closeFile_effects hx
      exact Or.inl ⟨rfl, heffects.initialized, heffects.requests⟩
  -- The only step that may answer a part of the listing.
  | nfsReply k reply =>
      obtain ⟨io, hio, rfl⟩ := Option.map_eq_some_iff.mp hexec
      obtain ⟨-, -, hother | hlisting⟩ := Io.nfsReply_effects hio
      · obtain ⟨hflag, hnot, hrequests⟩ := hother
        refine Or.inl ⟨?_, hflag, hrequests⟩
        rw [← Bool.not_eq_true, answersReaddir_iff]
        rintro ⟨cookie, hcookie⟩
        exact hnot cookie hcookie
      · obtain ⟨cookie, hcookie, hio'⟩ := hlisting
        exact Or.inr ⟨k, reply, cookie, rfl, hcookie, hio'⟩
  | serialReceive c =>
      obtain ⟨io, hio, rfl⟩ := Option.map_eq_some_iff.mp hexec
      obtain ⟨hrequests, hflag⟩ := Io.serialReceiveHandler_requests hio
      exact Or.inl ⟨rfl, hflag, hrequests⟩
  | createProcess p page heap =>
      obtain ⟨found, -, hexec⟩ := Option.bind_eq_some_iff.mp hexec
      cases found with
      | error =>
          cases hexec
          exact Or.inl ⟨rfl, rfl, Io.Requests.of_eq rfl⟩
      | ok name =>
          cases hexec
          exact Or.inl ⟨rfl, rfl, Io.Requests.of_eq rfl⟩
  | deleteProcess p =>
      obtain ⟨io, hio, rfl⟩ := Option.map_eq_some_iff.mp hexec
      have heffects := Io.closeFiles_effects hio
      exact Or.inl ⟨rfl, heffects.initialized, heffects.requests⟩

end FileServer

end Sos
