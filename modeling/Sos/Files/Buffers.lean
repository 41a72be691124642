import Sos.Files.Handles

/-!
# `Sos.Files.Buffers`: the pointers to the IPC pages of clients

A `file_table_entry` has a pointer to the IPC page of the last request that went through it.
`SameBuffers` says that a handler leaves these pointers as they are, and the size of the
console's buffer. Every handler does, except that `read_file` and `write_file` store the
pointer of their request before they call the device.
-/

set_option autoImplicit false

namespace Sos

namespace Io

/-- The pointers of `s'` were in the same entries before, and the buffer of the console has
the same size. -/
structure SameBuffers (s s' : Io) : Prop where
  pointers : ∀ e f' b, s'.entries e = some f' → f'.clientBuffer = some b →
    ∃ f, s.entries e = some f ∧ f.clientBuffer = some b
  console : s.console.Valid → s'.console.Valid ∧ s'.console.size = s.console.size

namespace SameBuffers

variable {s s' s'' : Io}

/-- A step that keeps the descriptors and the console keeps their buffers. -/
theorem of_entries (h : s'.entries = s.entries) (hconsole : s'.console = s.console) :
    SameBuffers s s' where
  pointers e f' b hf' hb := ⟨f', h ▸ hf', hb⟩
  console hvalid := by
    rw [hconsole]
    exact ⟨hvalid, rfl⟩

/-- Nothing happens to the buffers. -/
theorem refl (s : Io) : SameBuffers s s := of_entries rfl rfl

/-- One step after another. -/
theorem trans (h : SameBuffers s s') (h' : SameBuffers s' s'') : SameBuffers s s'' where
  pointers e f'' b hf'' hb := by
    obtain ⟨f', hf', hb'⟩ := h'.pointers e f'' b hf'' hb
    exact h.pointers e f' b hf' hb'
  console hvalid := by
    obtain ⟨hvalid', hsize⟩ := h.console hvalid
    obtain ⟨hvalid'', hsize'⟩ := h'.console hvalid'
    exact ⟨hvalid'', hsize'.trans hsize⟩

/-- One entry gets other contents, with the same pointer. -/
theorem update {e : Nat} {f g : FileTableEntry} (hf : s.entries e = some f)
    (hentries : s'.entries = Function.update s.entries e (some g))
    (hbuffer : g.clientBuffer = f.clientBuffer)
    (hconsole : s.console.Valid → s'.console.Valid ∧ s'.console.size = s.console.size) :
    SameBuffers s s' where
  pointers e₁ f₁ b hf₁ hb := by
    rw [hentries] at hf₁
    by_cases he : e₁ = e
    · subst he
      rw [Function.update_self, Option.some.injEq] at hf₁
      exact ⟨f, hf, by rw [← hbuffer, hf₁, hb]⟩
    · rw [Function.update_of_ne he] at hf₁
      exact ⟨f₁, hf₁, hb⟩
  console := hconsole

/-- A new entry, without a pointer. -/
theorem alloc {e : Nat} {f' : FileTableEntry}
    (hentries : s'.entries = Function.update s.entries e (some f'))
    (hbuffer : f'.clientBuffer = none) (hconsole : s'.console = s.console) :
    SameBuffers s s' where
  pointers e₁ g b hg hb := by
    rw [hentries] at hg
    by_cases he : e₁ = e
    · subst he
      rw [Function.update_self, Option.some.injEq] at hg
      rw [← hg, hbuffer] at hb
      cases hb
    · rw [Function.update_of_ne he] at hg
      exact ⟨g, hg, hb⟩
  console hvalid := by
    rw [hconsole]
    exact ⟨hvalid, rfl⟩

/-- The buffer of a descriptor goes with it. -/
theorem free {e : Nat} (h : s.freeEntry e = some s') : SameBuffers s s' := by
  obtain ⟨f, -, h⟩ := Option.bind_eq_some_iff.mp h
  cases h
  exact ⟨fun e₁ g b hg hb =>
    ⟨g, FileTables.entries_free (c := s.tables (fun _ => true) threadId) hg, hb⟩,
    fun hvalid => ⟨hvalid, rfl⟩⟩

end SameBuffers

/-! ### The handlers -/

/-- A descriptor of a file on the NFS server starts without a buffer. -/
theorem openNfs_sameBuffers (s : Io) (file : Nat) (t : ThreadId) (mode : Nat) :
    SameBuffers s (s.openNfs file t mode) := by
  unfold openNfs
  split
  · exact .of_entries rfl rfl
  · split
    · exact .alloc rfl rfl rfl
    · exact .of_entries rfl rfl

/-- `open_serial` leaves the buffer to the first read. -/
theorem openSerial_sameBuffers (s : Io) (file : Nat) (t : ThreadId) (mode : Nat) :
    SameBuffers s (s.openSerial file t mode) := by
  unfold openSerial
  split
  · exact .of_entries rfl rfl
  · dsimp only
    split
    · exact .of_entries rfl rfl
    · split
      · exact .alloc rfl rfl rfl
      · exact .alloc rfl rfl rfl

/-- Opening gives no descriptor a buffer. -/
theorem openFile_sameBuffers {null : Option (List UInt8)} {s s' : Io} {t : ThreadId}
    {words : List Nat} {page : Option IpcPage} (h : s.openFile null t words page = some s') :
    SameBuffers s s' := by
  unfold openFile at h
  split at h
  -- The branches of `open_file`: a mode that is none, a new file, a file of the cache.
  · dsimp only at h
    split at h
    · cases h
      exact .of_entries rfl rfl
    · obtain ⟨found, -, h⟩ := Option.bind_eq_some_iff.mp h
      cases found with
      | none =>
          cases h
          exact .of_entries rfl rfl
      | some index =>
          obtain ⟨file, -, h⟩ := Option.bind_eq_some_iff.mp h
          cases h
          unfold openDevice
          split
          · exact openSerial_sameBuffers ..
          · exact openNfs_sameBuffers ..
  · cases h
    exact .of_entries rfl rfl

/-- A read of the console takes characters out of a buffer that stays where it is. -/
theorem readSerial_sameBuffers {s s' : Io} {e : Nat} (h : s.readSerial e = some s') :
    SameBuffers s s' := by
  obtain ⟨f, hf, h⟩ := Option.bind_eq_some_iff.mp h
  dsimp only at h
  split at h
  · obtain ⟨addr, -, h⟩ := Option.bind_eq_some_iff.mp h
    cases h
    exact .update (g := { f with toRead := 0 }) hf rfl rfl fun hvalid => hvalid.read f.toRead
  · cases h
    exact ⟨fun _ g b hg hb => ⟨g, hg, hb⟩, fun hvalid => hvalid.read f.toRead⟩

/-- A read changes no buffer's size, whatever the device is. -/
theorem readDevice_sameBuffers {s s' : Io} {e : Nat} {device : Device}
    (h : s.readDevice e device = some s') : SameBuffers s s' := by
  unfold readDevice at h
  split at h
  · exact readSerial_sameBuffers h
  · obtain ⟨f, hf, h⟩ := Option.bind_eq_some_iff.mp h
    obtain ⟨file, -, h⟩ := Option.bind_eq_some_iff.mp h
    cases h
    exact .update (g := { f with awaitsCallback := true }) hf rfl rfl
      fun hvalid => ⟨hvalid, rfl⟩

/-- A write touches no buffer. -/
theorem writeDevice_sameBuffers {s s' : Io} {e : Nat} {device : Device} {allocated : Bool}
    (h : s.writeDevice e device allocated = some s') : SameBuffers s s' := by
  unfold writeDevice at h
  split at h
  -- The console's branch first: it replies at once and keeps no entry busy.
  · obtain ⟨f, -, h⟩ := Option.bind_eq_some_iff.mp h
    obtain ⟨file, -, h⟩ := Option.bind_eq_some_iff.mp h
    split at h
    · obtain ⟨addr, -, h⟩ := Option.bind_eq_some_iff.mp h
      cases h
      exact .of_entries rfl rfl
    · cases h
  -- The NFS branch sets the flag of the entry and leaves its buffer.
  · obtain ⟨f, hf, h⟩ := Option.bind_eq_some_iff.mp h
    obtain ⟨file, -, h⟩ := Option.bind_eq_some_iff.mp h
    obtain ⟨addr, -, h⟩ := Option.bind_eq_some_iff.mp h
    obtain ⟨-, h⟩ := Option.ite_none_right_eq_some.mp h
    cases h
    exact .update (g := { f with awaitsCallback := true }) hf rfl rfl
      fun hvalid => ⟨hvalid, rfl⟩

/-- Closing the console gives its buffer up and takes no other. -/
theorem closeSerial_sameBuffers {s s' : Io} {e : Nat} (h : s.closeSerial e = some s') :
    SameBuffers s s' := by
  obtain ⟨f, -, h⟩ := Option.bind_eq_some_iff.mp h
  split at h
  · cases h
    exact .of_entries rfl rfl
  · obtain ⟨file, -, h⟩ := Option.bind_eq_some_iff.mp h
    obtain ⟨other, -, h⟩ := Option.bind_eq_some_iff.mp h
    cases other with
    | some e' =>
        cases h
        exact .of_entries rfl rfl
    | none =>
        cases h
        exact .of_entries rfl rfl

/-- Closing a descriptor leaves the other buffers as they are. -/
theorem closeFile_sameBuffers {s : Io} {r : Io × Reply} {t : ThreadId} {words : List Nat}
    (h : s.closeFile t words = some r) : SameBuffers s r.1 := by
  unfold closeFile at h
  split at h
  -- The checks of the message first, then `close` of the device and `free`.
  · split at h
    · cases h
      exact .refl s
    · obtain ⟨f, -, h⟩ := Option.bind_eq_some_iff.mp h
      obtain ⟨file, -, h⟩ := Option.bind_eq_some_iff.mp h
      obtain ⟨s₁, hclose, h⟩ := Option.bind_eq_some_iff.mp h
      obtain ⟨s₂, hfree, h⟩ := Option.bind_eq_some_iff.mp h
      cases h
      -- Only the console has something to do on a close.
      have hdevice : SameBuffers s s₁ := by
        unfold closeDevice at hclose
        split at hclose
        · exact closeSerial_sameBuffers hclose
        · cases hclose
          exact .refl _
      exact (hdevice.trans (.free hfree)).trans (.of_entries rfl rfl)
  · cases h
    exact .refl s

/-- The answer to a lookup has nothing to do with buffers. -/
theorem nfsSetStatus_sameBuffers {s s' : Io} {file : Nat} {r : NfsReply}
    (h : s.nfsSetStatus file r = some s') : SameBuffers s s' := by
  unfold nfsSetStatus at h
  dsimp only at h
  split at h
  · unfold fileCacheInsert at h
    split at h
    · cases h
      exact .of_entries rfl rfl
    · cases h
  · cases h
    exact .of_entries rfl rfl

/-- The answer to a creation gives no descriptor a buffer. -/
theorem nfsCreateCallback_sameBuffers {isActive : Nat → Bool} {s s' : Io} {file : Nat}
    {r : NfsReply} (h : s.nfsCreateCallback isActive file r = some s') : SameBuffers s s' := by
  obtain ⟨s₁, hstatus, h⟩ := Option.bind_eq_some_iff.mp h
  cases h
  have hsame : SameBuffers s s₁ := by
    unfold nfsCreateStatus at hstatus
    dsimp only at hstatus
    split at hstatus
    -- The answer is positive: the file goes into the cache, and a client that is still there gets
    -- its descriptor.
    · obtain ⟨s₂, hset, hstatus⟩ := Option.bind_eq_some_iff.mp hstatus
      have hsame := nfsSetStatus_sameBuffers hset
      cases hstatus
      split
      · exact hsame.trans (openNfs_sameBuffers ..)
      · exact hsame
    -- The answer is negative: a client that is still there gets an error.
    · cases hstatus
      split
      · exact .of_entries rfl rfl
      · exact .refl s
  exact hsame.trans (.of_entries rfl rfl)

/-- The answer to a read copies to the client's page and to no buffer. -/
theorem nfsReadCallback_sameBuffers {s s' : Io} {e : Nat} {r : NfsReply}
    (h : s.nfsReadCallback e r = some s') : SameBuffers s s' := by
  obtain ⟨f, hf, h⟩ := Option.bind_eq_some_iff.mp h
  split at h
  · exact .free h
  · split at h
    · obtain ⟨addr, -, h⟩ := Option.bind_eq_some_iff.mp h
      cases h
      exact .update (g := { f with readPosition := (f.readPosition + r.bytesRead) % 2 ^ 32 })
        hf rfl rfl fun hvalid => ⟨hvalid, rfl⟩
    · cases h
      exact .of_entries rfl rfl

/-- The answer to a write changes a position and no buffer. -/
theorem nfsWriteCallback_sameBuffers {s s' : Io} {e : Nat} {r : NfsReply}
    (h : s.nfsWriteCallback e r = some s') : SameBuffers s s' := by
  obtain ⟨f, hf, h⟩ := Option.bind_eq_some_iff.mp h
  split at h
  · exact .free h
  · split at h
    · obtain ⟨file, -, h⟩ := Option.bind_eq_some_iff.mp h
      cases h
      exact .update (g := { f with writePosition := (f.writePosition + f.toWrite) % 2 ^ 32 })
        hf rfl rfl fun hvalid => ⟨hvalid, rfl⟩
    · cases h
      exact .of_entries rfl rfl
    · cases h
      exact .of_entries rfl rfl

/-- A lookup touches no entry. -/
theorem listFiles_sameBuffers (names : List (List UInt8)) (s : Io) :
    SameBuffers s (names.foldl listFile s) := by
  induction names generalizing s with
  | nil => exact .refl s
  | cons name names ih =>
      have hlookup : SameBuffers s (s.listFile name) := .of_entries rfl rfl
      exact hlookup.trans (ih _)

/-- Neither does the request for the next part of the listing. -/
theorem listPart_sameBuffers (s : Io) (r : NfsReply) : SameBuffers s (s.listPart r) := by
  have hall := listFiles_sameBuffers r.listed s
  unfold listPart
  dsimp only
  split
  · exact hall.trans (.of_entries rfl rfl)
  · exact hall.trans (.of_entries rfl rfl)

/-- Every answer of the NFS server keeps the buffers, whichever callback it is for. -/
theorem nfsReply_sameBuffers {isActive : Nat → Bool} {s s' : Io} {k : Nat} {r : NfsReply}
    (h : s.nfsReply isActive k r = some s') : SameBuffers s s' := by
  obtain ⟨rpc, -, h⟩ := Option.bind_eq_some_iff.mp h
  have hanswer : SameBuffers s { s with rpcs := s.rpcs.eraseIdx k } := .of_entries rfl rfl
  refine hanswer.trans ?_
  cases rpc with
  | create => exact nfsCreateCallback_sameBuffers h
  | lookup => exact nfsSetStatus_sameBuffers h
  | readdir =>
      obtain ⟨-, rfl⟩ := nfsReaddirCallback_some h
      exact listPart_sameBuffers ..
  | read => exact nfsReadCallback_sameBuffers h
  | write => exact nfsWriteCallback_sameBuffers h

/-- A character goes into a buffer that keeps its size. -/
theorem serialReceiveHandler_sameBuffers {s s' : Io} {c : UInt8}
    (h : s.serialReceiveHandler c = some s') : SameBuffers s s' := by
  obtain ⟨file, -, h⟩ := Option.bind_eq_some_iff.mp h
  dsimp only at h
  obtain ⟨reading, -, h⟩ := Option.bind_eq_some_iff.mp h
  -- The character has gone into the buffer before anybody reads.
  have hwrite : SameBuffers s { s with console := (s.console.write c).1 } :=
    ⟨fun _ g b hg hb => ⟨g, hg, hb⟩, fun hvalid => hvalid.write c⟩
  cases reading with
  | none =>
      cases h
      exact hwrite
  | some e =>
      -- The descriptor that reads is served only if the line is complete.
      dsimp only at h
      split at h
      · exact hwrite.trans (readSerial_sameBuffers h)
      · cases h
        exact hwrite

/-- One turn of the loop over the descriptors of a deleted process. -/
theorem closeEntry_sameBuffers {s s' : Io} {p fd : Nat} {t : ThreadId}
    (h : closeEntry p t s fd = some s') : SameBuffers s s' := by
  unfold closeEntry at h
  -- An empty slot, a descriptor with an answer on its way, and any other.
  split at h
  · cases h
    exact .refl s
  · obtain ⟨f, hf, h⟩ := Option.bind_eq_some_iff.mp h
    split at h
    · cases h
      exact .update (g := { f with awaitsCallback := false }) hf rfl rfl
        fun hvalid => ⟨hvalid, rfl⟩
    · obtain ⟨file, -, h⟩ := Option.bind_eq_some_iff.mp h
      dsimp only at h
      obtain ⟨s₁, hfree, h⟩ := Option.bind_eq_some_iff.mp h
      cases h
      refine (SameBuffers.trans ?_ (.free hfree)).trans (.of_entries rfl rfl)
      split
      · exact .of_entries rfl rfl
      · exact .refl s

/-- The loop over the descriptors of a deleted process, by induction on what is left of it. -/
theorem closeFiles_sameBuffers {s s' : Io} {p : Nat} {t : ThreadId} {fds : List Nat}
    (h : fds.foldlM (closeEntry p t) s = some s') : SameBuffers s s' := by
  induction fds generalizing s with
  | nil =>
      cases h
      exact .refl _
  | cons fd fds ih =>
      rw [List.foldlM_cons] at h
      obtain ⟨s₁, hs₁, h⟩ := Option.bind_eq_some_iff.mp h
      exact (closeEntry_sameBuffers hs₁).trans (ih h)

end Io

end Sos
