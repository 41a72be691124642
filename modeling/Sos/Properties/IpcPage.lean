import Sos.Files.Buffers
import Sos.Files.Reachable

/-!
# `Sos.Properties.IpcPage`: what a `SOS_READ` or `SOS_WRITE` reads and writes

`stays_inside_iff`: while the server serves a `SOS_READ` or `SOS_WRITE`, it reads and writes
only the frame of the caller's IPC page, and the message to the NFS server fits in its
buffer, if and only if the length meets `FitsPage`. For a file on the server the lengths have
to be at most `PAGESIZE` for reading and 1084 for writing, which nothing checks: the limit
`IPC_MEMORY_SIZE` is larger, and a negative length passes it. A read from the console is
always inside the page, because the buffer of the console is smaller than it. A write to the
console has to be for at most `PAGESIZE` bytes too, unless its length as a 16-bit value is too
large for the heap of the network stack: then an assertion stops the server before it copies
anything.

A request is served by the step that receives it, and by the answer of the NFS server or by
the character that ends the line, whichever comes, after any other steps.
-/

set_option autoImplicit false

namespace Sos

/-! ### The message of `nfs_write` -/

/-- What is left of a message for the data of `nfs_write`. -/
def nfsMaxWrite : Nat := udpPayload - (initbufLengths.sum + 44 + 4)

/-- A word is the same as a `size_t` after it has been an `int`. -/
theorem sizeT_toInt32 {word : Nat} (h : word < 2 ^ 32) : sizeT (toInt32 word) = word := by
  unfold sizeT toInt32
  rw [Nat.mod_eq_of_lt h]
  split
  · omega
  · omega

/-- The message fits if and only if the data does. -/
theorem nfsWriteLengths_le {word : Nat} (h : word < 2 ^ 32) :
    (nfsWriteLengths (toInt32 word)).sum ≤ udpPayload ↔ word ≤ nfsMaxWrite := by
  have hsum : (nfsWriteLengths (toInt32 word)).sum =
      initbufLengths.sum + 44 + (adddataLengths (toInt32 word)).sum := by
    simp only [nfsWriteLengths, List.sum_append, List.sum_cons, List.sum_nil, Nat.add_zero]
  have hheader : initbufLengths.sum = 68 := by decide
  have hmax : nfsMaxWrite = 1084 := by decide
  rw [hsum, hheader, hmax]
  unfold adddataLengths
  rw [List.sum_append, List.sum_cons, List.sum_cons, List.sum_nil, sizeT_toInt32 h]
  -- A length below 2^31 is copied as it is, with up to three bytes of padding.
  by_cases hsmall : word < 2 ^ 31
  · rw [toInt32_of_lt hsmall]
    have hmod : ((word : Int).tmod 4) = (word % 4 : Nat) := rfl
    rw [hmod]
    split
    next hrest =>
      have hpad : sizeT (4 - (word % 4 : Nat)) = 4 - word % 4 := by
        unfold sizeT
        omega
      rw [List.sum_cons, List.sum_nil, hpad, udpPayload]
      omega
    next hrest =>
      rw [List.sum_nil, udpPayload]
      omega
  · -- a negative length is copied as a large one
    constructor
    · intro hle
      exfalso
      have hpayload : udpPayload = 1200 := rfl
      rw [hpayload] at hle
      omega
    · intro hle
      omega

namespace Io

/-! ### Transfers -/

/-- The descriptor that has been set. -/
theorem setEntry_self (s : Io) (e : Nat) (f : FileTableEntry) :
    (s.setEntry e f).entries e = some f := Function.update_self ..

/-- A read that passes the checks: the device serves it. -/
theorem readFile_eq {s : Io} {t : ThreadId} {fd toRead e file : Nat} {page : IpcPage}
    {f : FileTableEntry} (hcan : s.canRead t fd = some (some (e, f))) (hfile : f.file = some file) :
    s.readFile t [fd, toRead] (some page) =
      ((s.setEntry e { f with toRead := toRead, clientBuffer := some page.addr }).readDevice e
        (s.files file).device).map (·, none) := by
  rw [readFile, hcan, Option.bind_eq_bind, Option.bind_some]
  dsimp only
  rw [hfile, Option.bind_eq_bind, Option.bind_some, Option.map_eq_bind]
  rfl

/-- A write that passes the checks. -/
theorem writeFile_eq {s : Io} {t : ThreadId} {fd toWrite e file : Nat} {page : IpcPage}
    {f : FileTableEntry} {allocated : Bool} (hcan : s.canWrite t fd = some (some (e, f)))
    (hlimit : toInt32 toWrite ≤ ipcMemorySize) (hfile : f.file = some file) :
    s.writeFile t [fd, toWrite] (some page) allocated =
      ((s.setEntry e { f with toWrite := toWrite, clientBuffer := some page.addr }).writeDevice e
        (s.files file).device allocated).map (·, none) := by
  rw [writeFile, hcan, Option.bind_eq_bind, Option.bind_some]
  dsimp only
  rw [if_neg (Int.not_lt.mpr hlimit), hfile, Option.bind_eq_bind, Option.bind_some,
    Option.map_eq_bind]
  rfl

/-- What a read of a file asks the NFS server for. -/
theorem readNfs_eq {s : Io} {e file : Nat} {f : FileTableEntry} (hf : s.entries e = some f)
    (hfile : f.file = some file) :
    s.readDevice e .nfs = some ({ s with
      rpcs := s.rpcs ++ [Rpc.read e (s.files file).nfsHandle f.readPosition f.toRead] }.setEntry e
        { f with awaitsCallback := true }) := by
  simp [readDevice, readNfs, hf, hfile]

/-- What a write to a file reads of the client's page and asks the NFS server for. -/
theorem writeNfs_eq {s : Io} {e file addr : Nat} {f : FileTableEntry} {allocated : Bool}
    (hf : s.entries e = some f) (hfile : f.file = some file)
    (hbuffer : f.clientBuffer = some addr) (hword : f.toWrite < 2 ^ 32) :
    s.writeDevice e .nfs allocated = if allocated then some (({ s with
      rpcs := s.rpcs ++ [Rpc.write e (s.files file).nfsHandle f.writePosition f.toWrite]
      messages := s.messages ++ [(nfsWriteLengths (toInt32 f.toWrite)).sum] }.access addr
        f.toWrite none).setEntry e { f with awaitsCallback := true }) else none := by
  simp [writeDevice, writeNfs, hf, hfile, hbuffer, sizeT_toInt32 hword]

/-- What a write to the console reads of the client's page. -/
theorem writeSerial_eq {s : Io} {e file addr : Nat} {f : FileTableEntry} {allocated : Bool}
    (hf : s.entries e = some f) (hfile : f.file = some file)
    (hbuffer : f.clientBuffer = some addr) (hserial : (s.files file).serialHandle = true) :
    s.writeDevice e .serial allocated =
      if allocated = true ∧ PbufFits f.toWrite then
        some ((s.access addr f.toWrite none).sendIpcReply f.owner sosWrite [f.toWrite])
      else none := by
  simp [writeDevice, writeSerial, hf, hfile, hbuffer, hserial]

/-- What `read_serial` copies: nothing, or what the console has stored. -/
theorem readSerial_accesses {s s' : Io} {e : Nat} (h : s.readSerial e = some s') :
    s'.rpcs = s.rpcs ∧ s'.messages = s.messages ∧ (s'.accesses = s.accesses ∨
      ∃ f addr toRead, s.entries e = some f ∧ f.clientBuffer = some addr ∧
        0 < s.console.readable toRead ∧
        s'.accesses = s.accesses ++ [⟨addr, s.console.copied, some s.console.copy⟩]) := by
  obtain ⟨f, hf, h⟩ := Option.bind_eq_some_iff.mp h
  dsimp only at h
  -- Something is copied only when the buffer has a line or enough characters.
  split at h
  next hsend =>
    obtain ⟨addr, hbuffer, h⟩ := Option.bind_eq_some_iff.mp h
    cases h
    refine ⟨rfl, rfl, Or.inr ⟨f, addr, f.toRead, hf, hbuffer, ?_, rfl⟩⟩
    unfold CircularBuffer.read at hsend
    dsimp only at hsend
    split at hsend
    · assumption
    · exact hsend
  next =>
    cases h
    exact ⟨rfl, rfl, Or.inl rfl⟩

end Io

/-- Every byte of an access is in one of these frames. -/
def Access.Inside (x : Access) (frames : Nat → Prop) : Prop :=
  ∃ frame, frames frame ∧ frame ≤ x.addr ∧ x.addr + x.length ≤ frame + pageSize

/-- The number of bytes that a request is for. -/
def Rpc.count : Rpc → Nat
  | .read _ _ _ count => count
  | .write _ _ _ count => count
  | .create _ | .lookup _ | .readdir _ => 0

namespace FileAction

/-- A `SOS_READ` or `SOS_WRITE`. -/
def IsTransfer : FileAction → Prop
  | .readFile .. => True
  | .writeFile .. => True
  | _ => False

/-- The frame of the IPC page that comes with a `SOS_READ` or `SOS_WRITE`. -/
def buffer : FileAction → Option Nat
  | .readFile _ _ page => page.map (·.addr)
  | .writeFile _ _ page _ => page.map (·.addr)
  | _ => none

/-- The limit on the length, for the two devices. For a write it only counts if there is a buffer
for what is copied. -/
def Fits : FileAction → Device → Prop
  | .readFile _ [_, toRead] _, .nfs => toRead ≤ pageSize
  | .writeFile _ [_, toWrite] _ allocated, .nfs => allocated = true → toWrite ≤ nfsMaxWrite
  | .writeFile _ [_, toWrite] _ allocated, .serial =>
    allocated = true ∧ PbufFits toWrite → toWrite ≤ pageSize
  | _, _ => True

instance (a : FileAction) (device : Device) : Decidable (a.Fits device) := by
  unfold Fits
  split
  all_goals infer_instance

end FileAction

namespace FileServer

/-- The entry of a `SOS_READ` or `SOS_WRITE` that passes the checks. -/
def transfer (s : FileServer) : FileAction → Option (Nat × FileTableEntry)
  | .readFile p [fd, _] (some _) => (s.io.canRead (threadId p) fd).join
  | .writeFile p [fd, toWrite] (some _) _ =>
    if toInt32 toWrite > ipcMemorySize then none else (s.io.canWrite (threadId p) fd).join
  | _ => none

/-- The entry that the next character may be for. -/
def waiting (s : FileServer) : Option Nat :=
  (s.io.getFileForSerial.bind s.io.getReadingFileHandle).join

/-- The IPC page of a process that uses entry `e` is in one of these frames. -/
def Backs (e : Nat) (frames : Nat → Prop) (s : FileServer) (a : FileAction) : Prop :=
  ∀ r ∈ s.transfer a, r.1 = e → ∀ frame ∈ a.buffer, frames frame

/-- The limits on the length of a request that passes the checks. -/
def FitsPage (s : FileServer) (a : FileAction) : Prop :=
  ∀ r ∈ s.transfer a, ∀ file ∈ r.2.file, a.Fits (s.io.files file).device

instance (s : FileServer) (a : FileAction) : Decidable (s.FitsPage a) := by
  unfold FitsPage
  infer_instance

/-- What the server reads and writes for a request is inside the frames of the caller's IPC
page, and its message to the NFS server fits. -/
structure StaysInside (null : Option (List UInt8)) (s : FileServer) (a : FileAction) : Prop where
  /-- In the step that receives the request. -/
  received : ∀ s', (machine null).step s a = some s' →
    (∀ x ∈ s'.io.accesses, x.Inside (· ∈ a.buffer)) ∧ ∀ n ∈ s'.io.messages, n ≤ udpPayload
  /-- When the NFS server answers, with at most as many bytes as the request is for. -/
  answered : ∀ frames s' rpc e s₁ k r s₂, (∀ frame ∈ a.buffer, frames frame) →
    (machine null).step s a = some s' → s'.io.rpcs = s.io.rpcs ++ [rpc] → rpc.entry = some e →
    (machine null).Path (Backs e frames) s' s₁ → s₁.io.rpcs[k]? = some rpc →
    r.bytesRead ≤ rpc.count → (machine null).step s₁ (.nfsReply k r) = some s₂ →
    ∀ x ∈ s₂.io.accesses, x.Inside frames
  /-- When a character arrives on the console. -/
  typed : ∀ frames s' e f s₁ c s₂, (∀ frame ∈ a.buffer, frames frame) →
    s.transfer a = some (e, f) → (machine null).step s a = some s' →
    (machine null).Path (Backs e frames) s' s₁ → s₁.waiting = some e →
    (machine null).step s₁ (.serialReceive c) = some s₂ → ∀ x ∈ s₂.io.accesses, x.Inside frames

variable {null : Option (List UInt8)} {s s' : FileServer} {a : FileAction}

/-! ### A `SOS_READ` or `SOS_WRITE` -/

/-- A request that does not pass the checks changes nothing. -/
theorem step_refused (ha : a.IsTransfer) (hnone : s.transfer a = none)
    (h : (machine null).step s a = some s') : s'.io = s.io.cleared := by
  obtain ⟨-, hexec⟩ := step_eq_some h
  -- A message without its words or its access is answered at once.
  cases a with
  | readFile p words page =>
      obtain ⟨r, hr, rfl⟩ := Option.map_eq_some_iff.mp hexec
      unfold Io.readFile at hr
      split at hr
      next page fd toRead =>
        obtain ⟨access, hcan, hr⟩ := Option.bind_eq_some_iff.mp hr
        cases access with
        | none =>
            cases hr
            rfl
        | some access =>
            have hsome : s.io.canRead (threadId p) fd = some (some access) := hcan
            rw [transfer, hsome] at hnone
            cases hnone
      next =>
        cases hr
        rfl
  | writeFile p words page allocated =>
      obtain ⟨r, hr, rfl⟩ := Option.map_eq_some_iff.mp hexec
      unfold Io.writeFile at hr
      split at hr
      next page fd toWrite =>
        obtain ⟨access, hcan, hr⟩ := Option.bind_eq_some_iff.mp hr
        cases access with
        | none =>
            cases hr
            rfl
        | some access =>
            dsimp only at hr
            split at hr
            -- Longer than a page: the code refuses it before it looks at the descriptor.
            · cases hr
              rfl
            next hlimit =>
              have hsome : s.io.canWrite (threadId p) fd = some (some access) := hcan
              rw [transfer, if_neg hlimit, hsome] at hnone
              cases hnone
      next =>
        cases hr
        rfl
  | _ => cases ha

/-- A request that passes the checks: the entry gets the pointer and the length, and the
device serves it. -/
inductive Transfers (s : FileServer) : FileAction → Nat → Nat → Io → Prop
  | read {p fd toRead e file : Nat} {page : IpcPage} {f : FileTableEntry} {io : Io}
      (hcan : s.io.canRead (threadId p) fd = some (some (e, f))) (hfile : f.file = some file)
      (h : (s.io.cleared.setEntry e
          { f with toRead := toRead, clientBuffer := some page.addr }).readDevice e
            (s.io.files file).device = some io) :
      Transfers s (.readFile p [fd, toRead] (some page)) e file io
  | write {p fd toWrite e file : Nat} {page : IpcPage} {f : FileTableEntry} {allocated : Bool}
      {io : Io} (hcan : s.io.canWrite (threadId p) fd = some (some (e, f)))
      (hlimit : toInt32 toWrite ≤ ipcMemorySize) (hword : toWrite < 2 ^ 32)
      (hfile : f.file = some file)
      (h : (s.io.cleared.setEntry e
          { f with toWrite := toWrite, clientBuffer := some page.addr }).writeDevice e
            (s.io.files file).device allocated = some io) :
      Transfers s (.writeFile p [fd, toWrite] (some page) allocated) e file io

/-- An action with a transfer reaches the device with the length and the address of the
message. -/
theorem step_transfers {e : Nat} {f : FileTableEntry} (hsome : s.transfer a = some (e, f))
    (h : (machine null).step s a = some s') : ∃ file, s.Transfers a e file s'.io := by
  obtain ⟨hen, hexec⟩ := step_eq_some h
  unfold transfer at hsome
  split at hsome
  next p fd toRead page =>
    have hcan : s.io.cleared.canRead (threadId p) fd = some (some (e, f)) :=
      Option.join_eq_some_iff.mp hsome
    obtain ⟨r, hr, rfl⟩ := Option.map_eq_some_iff.mp hexec
    cases hfile : f.file with
    | none =>
        rw [Io.readFile, hcan, Option.bind_eq_bind, Option.bind_some] at hr
        dsimp only at hr
        -- The write is checked against the page size before the descriptor.
        rw [hfile] at hr
        cases hr
    | some file =>
        rw [Io.readFile_eq hcan hfile] at hr
        obtain ⟨io, hio, rfl⟩ := Option.map_eq_some_iff.mp hr
        exact ⟨file, .read hcan hfile hio⟩
  next p fd toWrite page allocated =>
    split at hsome
    · cases hsome
    next hlimit =>
      have hcan : s.io.cleared.canWrite (threadId p) fd = some (some (e, f)) :=
        Option.join_eq_some_iff.mp hsome
      obtain ⟨r, hr, rfl⟩ := Option.map_eq_some_iff.mp hexec
      have hword : toWrite < 2 ^ 32 :=
        hen.2 toWrite (List.mem_cons_of_mem _ (List.mem_singleton.mpr rfl))
      cases hfile : f.file with
      | none =>
          rw [Io.writeFile, hcan, Option.bind_eq_bind, Option.bind_some] at hr
          dsimp only at hr
          rw [if_neg hlimit, hfile] at hr
          cases hr
      | some file =>
          rw [Io.writeFile_eq hcan (Int.not_lt.mp hlimit) hfile] at hr
          obtain ⟨io, hio, rfl⟩ := Option.map_eq_some_iff.mp hr
          exact ⟨file, .write hcan (Int.not_lt.mp hlimit) hword hfile hio⟩
  next => cases hsome

/-- The entry has the pointer to the frame of the IPC page, and no other entry changes its
pointer. -/
theorem Transfers.sameBuffers {e file : Nat} {io : Io} (h : s.Transfers a e file io) :
    ∃ f f' b, s.transfer a = some (e, f) ∧ a.buffer = some b ∧ f'.clientBuffer = some b ∧
      Io.SameBuffers (s.io.cleared.setEntry e f') io := by
  cases h with
  | @read p fd toRead _ _ page f _ hcan hfile hdevice =>
      refine ⟨f, { f with toRead := toRead, clientBuffer := some page.addr }, page.addr, ?_, rfl,
        rfl, Io.readDevice_sameBuffers hdevice⟩
      rw [transfer, hcan]
      rfl
  | @write p fd toWrite _ _ page f _ _ hcan hlimit hword hfile hdevice =>
      refine ⟨f, { f with toWrite := toWrite, clientBuffer := some page.addr }, page.addr, ?_, rfl,
        rfl, Io.writeDevice_sameBuffers hdevice⟩
      rw [transfer, if_neg (Int.not_lt.mpr hlimit), hcan]
      rfl

/-- What a step has noted is no buffer. -/
theorem cleared_sameBuffers (s : Io) : Io.SameBuffers s s.cleared := .of_entries rfl rfl

/-- Only a request that passes the checks stores a pointer. -/
theorem step_sameBuffers (hnone : s.transfer a = none) (h : (machine null).step s a = some s') :
    Io.SameBuffers s.io s'.io := by
  obtain ⟨-, hexec⟩ := step_eq_some h
  have hcleared := cleared_sameBuffers s.io
  cases a with
  -- A transfer without an entry is refused, and the refusal touches no entry.
  | readFile p words page =>
      rw [step_refused (a := .readFile p words page) trivial hnone h]
      exact hcleared
  | writeFile p words page allocated =>
      rw [step_refused (a := .writeFile p words page allocated) trivial hnone h]
      exact hcleared
  | openFile p words page =>
      obtain ⟨io, hio, rfl⟩ := Option.map_eq_some_iff.mp hexec
      exact hcleared.trans (Io.openFile_sameBuffers hio)
  | closeFile p words =>
      obtain ⟨r, hr, rfl⟩ := Option.map_eq_some_iff.mp hexec
      exact hcleared.trans (Io.closeFile_sameBuffers hr)
  | nfsReply k r =>
      obtain ⟨io, hio, rfl⟩ := Option.map_eq_some_iff.mp hexec
      exact hcleared.trans (Io.nfsReply_sameBuffers hio)
  | serialReceive c =>
      obtain ⟨io, hio, rfl⟩ := Option.map_eq_some_iff.mp hexec
      exact hcleared.trans (Io.serialReceiveHandler_sameBuffers hio)
  | createProcess p page heap =>
      obtain ⟨found, -, hexec⟩ := Option.bind_eq_some_iff.mp hexec
      cases found with
      | error code =>
          cases hexec
          exact hcleared
      | ok name =>
          cases hexec
          exact hcleared.trans (.alloc rfl rfl rfl)
  | deleteProcess p =>
      obtain ⟨io, hio, rfl⟩ := Option.map_eq_some_iff.mp hexec
      exact hcleared.trans (Io.closeFiles_sameBuffers hio)

/-- The pointer of entry `e` is one of these frames. -/
def Buffered (e : Nat) (frames : Nat → Prop) (s : FileServer) : Prop :=
  ∀ f b, s.io.entries e = some f → f.clientBuffer = some b → frames b

/-- A descriptor's transfer stays inside as long as its buffer is the same. -/
theorem Buffered.same {e : Nat} {frames : Nat → Prop} (hb : s.Buffered e frames)
    (h : Io.SameBuffers s.io s'.io) : s'.Buffered e frames := by
  intro f' b hf' hbuffer
  obtain ⟨f, hf, hbuffer⟩ := h.pointers e f' b hf' hbuffer
  exact hb f b hf hbuffer

/-- A transfer sets the buffer of its own descriptor. -/
theorem Transfers.buffered {e e' file : Nat} {frames : Nat → Prop}
    (h : s.Transfers a e' file s'.io) (hbacks : s.Backs e frames a)
    (hold : e ≠ e' → s.Buffered e frames) : s'.Buffered e frames := by
  obtain ⟨f, f', b, htransfer, hpage, hset, hsame⟩ := h.sameBuffers
  intro g b' hg hbuffer
  obtain ⟨g₀, hg₀, hbuffer⟩ := hsame.pointers e g b' hg hbuffer
  change Function.update s.io.entries e' (some f') e = some g₀ at hg₀
  by_cases he : e = e'
  · subst he
    rw [Function.update_self, Option.some.injEq] at hg₀
    rw [← hg₀, hset, Option.some.injEq] at hbuffer
    exact hbacks (e, f) htransfer rfl b' (hbuffer ▸ hpage)
  · rw [Function.update_of_ne he] at hg₀
    exact hold he g₀ b' hg₀ hbuffer

/-- Every step keeps the buffer inside the page it is backed by. -/
theorem Buffered.step {e : Nat} {frames : Nat → Prop} (hb : s.Buffered e frames)
    (hbacks : s.Backs e frames a) (h : (machine null).step s a = some s') :
    s'.Buffered e frames := by
  cases htransfer : s.transfer a with
  | none => exact hb.same (step_sameBuffers htransfer h)
  | some r =>
      obtain ⟨file, hfile⟩ := step_transfers htransfer h
      exact hfile.buffered hbacks fun _ => hb

/-- By induction on the path. -/
theorem Buffered.path {e : Nat} {frames : Nat → Prop} (hb : s.Buffered e frames)
    (hpath : (machine null).Path (Backs e frames) s s') : s'.Buffered e frames :=
  hpath.invariant (Buffered e frames) (fun _ _ _ hb hbacks hs => hb.step hbacks hs) hb

/-- The buffer of the console has its size. -/
def ConsoleValid (s : FileServer) : Prop :=
  s.io.console.Valid ∧ s.io.console.size = readBufferSize

/-- The console's buffer is valid as long as it is the same. -/
theorem ConsoleValid.same (hv : s.ConsoleValid) (h : Io.SameBuffers s.io s'.io) :
    s'.ConsoleValid := by
  obtain ⟨hvalid, hsize⟩ := h.console hv.1
  exact ⟨hvalid, hsize.trans hv.2⟩

/-- Every step keeps the console's buffer valid, by cases on the action. -/
theorem ConsoleValid.step (hv : s.ConsoleValid) (h : (machine null).step s a = some s') :
    s'.ConsoleValid := by
  cases htransfer : s.transfer a with
  | none => exact hv.same (step_sameBuffers htransfer h)
  | some r =>
      obtain ⟨file, hfile⟩ := step_transfers htransfer h
      obtain ⟨f, f', b, -, -, -, hsame⟩ := hfile.sameBuffers
      obtain ⟨hvalid, hsize⟩ := hsame.console hv.1
      exact ⟨hvalid, hsize.trans hv.2⟩

/-- By induction on the path. -/
theorem ConsoleValid.path {ok : FileServer → FileAction → Prop} (hv : s.ConsoleValid)
    (hpath : (machine null).Path ok s s') : s'.ConsoleValid :=
  hpath.invariant ConsoleValid (fun _ _ _ hv _ hs => hv.step hs) hv

/-- After booting the console's buffer is empty. -/
theorem boot_console {rootThread : ThreadId} {heap : FileTableEntry}
    (h : boot rootThread heap = some s) : s.ConsoleValid := by
  obtain rfl := Option.some.inj h
  have hpos : 0 < readBufferSize := by decide
  exact ⟨⟨hpos, hpos⟩, rfl⟩

/-- The console's buffer is valid in every reachable state. -/
theorem Reachable.console {ok : FileServer → FileAction → Prop}
    (h : (machine null).Reachable ok s) : s.ConsoleValid := by
  obtain ⟨s₀, ⟨rootThread, heap, hboot⟩, hpath⟩ := h
  exact (boot_console hboot).path hpath

/-! ### What is read and written -/

/-- An access that starts at a frame and is no longer than a page is inside. -/
theorem inside_of_le {addr length : Nat} {data : Option (Nat → UInt8)} {frames : Nat → Prop}
    (hframe : frames addr) (hle : length ≤ pageSize) :
    (⟨addr, length, data⟩ : Access).Inside frames :=
  ⟨addr, hframe, Nat.le_refl _, Nat.add_le_add_left hle addr⟩

/-- `read_serial` stays inside the page. -/
theorem readSerial_inside (io : Io) {io' : Io} {e : Nat} {frames : Nat → Prop}
    (hvalid : io.console.Valid) (hsize : io.console.size = readBufferSize)
    (hempty : io.accesses = [])
    (hframes : ∀ f b, io.entries e = some f → f.clientBuffer = some b → frames b)
    (h : io.readSerial e = some io') : ∀ x ∈ io'.accesses, x.Inside frames := by
  obtain ⟨-, -, haccesses⟩ := Io.readSerial_accesses h
  rcases haccesses with hsame | ⟨f, addr, toRead, hf, hbuffer, hread, hnew⟩
  · rw [hsame, hempty]
    exact nofun
  · rw [hnew, hempty]
    intro x hx
    rw [List.mem_singleton.mp hx]
    have hfits : io.console.Fits := by
      show io.console.size ≤ 2 ^ 30
      rw [hsize]
      decide
    have hlt := CircularBuffer.copied_lt hvalid hfits hread
    rw [hsize] at hlt
    exact inside_of_le (hframes f addr hf hbuffer) (Nat.le_of_lt hlt)

/-- A character that arrives is copied to the page of the entry that waits. -/
theorem typed_inside {e : Nat} {frames : Nat → Prop} {c : UInt8} (hv : s.ConsoleValid)
    (hb : s.Buffered e frames) (hwaiting : s.waiting = some e)
    (h : (machine null).step s (.serialReceive c) = some s') :
    ∀ x ∈ s'.io.accesses, x.Inside frames := by
  obtain ⟨-, hexec⟩ := step_eq_some h
  obtain ⟨io, hio, rfl⟩ := Option.map_eq_some_iff.mp hexec
  obtain ⟨file, hfile, hio⟩ := Option.bind_eq_some_iff.mp hio
  dsimp only at hio
  obtain ⟨reading, hreading, hio⟩ := Option.bind_eq_some_iff.mp hio
  have hsame : s.waiting = reading := by
    have hserial : s.io.getFileForSerial = some file := hfile
    have hhandle : s.io.getReadingFileHandle file = some reading := hreading
    rw [waiting, hserial, Option.bind_some, hhandle]
    rfl
  rw [← hsame, hwaiting] at hio
  dsimp only at hio
  obtain ⟨hvalid, hsize⟩ := hv.1.write c
  split at hio
  -- Only `readSerial` of the waiting entry copies something.
  · exact readSerial_inside { s.io.cleared with console := (s.io.console.write c).1 }
      hvalid (hsize.trans hv.2) rfl hb hio
  · cases hio
    exact nofun

/-- The answer to a read is copied to the page, and the one to a write is not. -/
theorem answered_inside {e k : Nat} {frames : Nat → Prop} {rpc : Rpc} {r : NfsReply}
    (hb : s.Buffered e frames) (hrpc : s.io.rpcs[k]? = some rpc) (he : rpc.entry = some e)
    (hfits : ∀ e handle position count, rpc = .read e handle position count →
      r.bytesRead ≤ pageSize)
    (h : (machine null).step s (.nfsReply k r) = some s') :
    ∀ x ∈ s'.io.accesses, x.Inside frames := by
  obtain ⟨-, hexec⟩ := step_eq_some h
  obtain ⟨io, hio, rfl⟩ := Option.map_eq_some_iff.mp hexec
  obtain ⟨rpc', hrpc', hio⟩ := Option.bind_eq_some_iff.mp hio
  have hsame : rpc' = rpc := Option.some.inj (hrpc'.symm.trans hrpc)
  subst hsame
  cases rpc' with
  -- Only a read copies its answer into the client's page.
  | create | lookup | readdir => cases he
  | read entry handle position count =>
      obtain rfl := Option.some.inj he
      obtain ⟨f, hf, hio⟩ := Option.bind_eq_some_iff.mp hio
      split at hio
      · obtain ⟨g, -, hio⟩ := Option.bind_eq_some_iff.mp hio
        cases hio
        exact nofun
      · split at hio
        · obtain ⟨addr, hbuffer, hio⟩ := Option.bind_eq_some_iff.mp hio
          cases hio
          intro x hx
          rw [List.mem_singleton.mp hx]
          exact inside_of_le (hb f addr hf hbuffer) (hfits _ _ _ _ rfl)
        · cases hio
          exact nofun
  | write entry handle position count =>
      obtain ⟨f, hf, hio⟩ := Option.bind_eq_some_iff.mp hio
      split at hio
      · obtain ⟨g, -, hio⟩ := Option.bind_eq_some_iff.mp hio
        cases hio
        exact nofun
      · split at hio
        · obtain ⟨file, -, hio⟩ := Option.bind_eq_some_iff.mp hio
          cases hio
          exact nofun
        · cases hio
          exact nofun
        · cases hio
          exact nofun

/-- What the system call does once the descriptor is known to be readable. -/
theorem step_readFile {p fd toRead e file : Nat} {page : IpcPage} {f : FileTableEntry}
    (hen : s.Enabled (.readFile p [fd, toRead] (some page)))
    (hcan : s.io.canRead (threadId p) fd = some (some (e, f))) (hfile : f.file = some file) :
    (machine null).step s (.readFile p [fd, toRead] (some page)) =
      ((s.io.cleared.setEntry e
        { f with toRead := toRead, clientBuffer := some page.addr }).readDevice e
          (s.io.files file).device).map ({ s with io := · }) := by
  have hcleared : s.io.cleared.canRead (threadId p) fd = some (some (e, f)) := hcan
  show (if _ then (s.io.cleared.readFile (threadId p) [fd, toRead] (some page)).map _ else none) = _
  rw [if_pos hen, Io.readFile_eq hcleared hfile, Option.map_map]
  rfl

/-- What the system call does once the descriptor is known to be writable. -/
theorem step_writeFile {p fd toWrite e file : Nat} {page : IpcPage} {f : FileTableEntry}
    {allocated : Bool} (hen : s.Enabled (.writeFile p [fd, toWrite] (some page) allocated))
    (hcan : s.io.canWrite (threadId p) fd = some (some (e, f)))
    (hlimit : toInt32 toWrite ≤ ipcMemorySize) (hfile : f.file = some file) :
    (machine null).step s (.writeFile p [fd, toWrite] (some page) allocated) =
      ((s.io.cleared.setEntry e
        { f with toWrite := toWrite, clientBuffer := some page.addr }).writeDevice e
          (s.io.files file).device allocated).map ({ s with io := · }) := by
  have hcleared : s.io.cleared.canWrite (threadId p) fd = some (some (e, f)) := hcan
  show (if _ then (s.io.cleared.writeFile (threadId p) [fd, toWrite] (some page) allocated).map _
    else none) = _
  rw [if_pos hen, Io.writeFile_eq hcleared hlimit hfile, Option.map_map]
  rfl

/-- A write to the console copies its data, if there is a buffer for it. -/
theorem writeConsole_received {e file addr : Nat} {f : FileTableEntry} {allocated : Bool}
    {io io' : Io} (hf : io.entries e = some f) (hfile : f.file = some file)
    (hbuffer : f.clientBuffer = some addr) (hserial : (io.files file).serialHandle = true)
    (h : io.writeDevice e .serial allocated = some io') :
    (allocated = true ∧ PbufFits f.toWrite) ∧
      io'.accesses = io.accesses ++ [⟨addr, f.toWrite, none⟩] ∧ io'.messages = io.messages ∧
      io'.rpcs = io.rpcs := by
  rw [Io.writeSerial_eq hf hfile hbuffer hserial] at h
  obtain ⟨hallocated, h⟩ := Option.ite_none_right_eq_some.mp h
  cases h
  exact ⟨hallocated, rfl, rfl, rfl⟩

/-- The file of a descriptor that passes the checks. -/
theorem file_of_canAccess {p fd bit e : Nat} {f : FileTableEntry} (hwf : s.tables.Wf)
    (hp : s.Live p) (hcan : s.io.canAccess (threadId p) fd bit = some (some (e, f))) :
    ∃ file, f.file = some file ∧
      ((s.io.files file).device = .serial → (s.io.files file).serialHandle = true) := by
  obtain ⟨hslot, hf, -⟩ := Io.canAccess_spec s.isActive s.tid hcan
  obtain ⟨file, hcached, hfile, -⟩ := (hwf.handles p fd e f hp.1 hp.2.2.1 hslot hf).file
  refine ⟨file, hfile, fun hserial => ?_⟩
  have hconsole := hwf.files.eq_console (hwf.files.cached_lt hcached) hserial
  rw [hconsole]
  exact hwf.files.serialHandle

/-- The step that receives a request stays inside the page, if the length fits. -/
theorem received_inside (hwf : s.tables.Wf) (hv : s.ConsoleValid) (hen : s.Enabled a)
    (ha : a.IsTransfer) (hfits : s.FitsPage a) (h : (machine null).step s a = some s') :
    (∀ x ∈ s'.io.accesses, x.Inside (· ∈ a.buffer)) ∧ ∀ n ∈ s'.io.messages, n ≤ udpPayload := by
  cases htransfer : s.transfer a with
  | none =>
      rw [step_refused ha htransfer h]
      exact ⟨nofun, nofun⟩
  | some r =>
      obtain ⟨e, f₀⟩ := r
      obtain ⟨file, hdevice⟩ := step_transfers htransfer h
      have hlimits := hfits (e, f₀) htransfer
      cases hdevice with
      | @read p fd toRead _ _ page f _ hcan hfile hread =>
          have hself := Io.setEntry_self s.io.cleared e
            { f with toRead := toRead, clientBuffer := some page.addr }
          cases hdev : (s.io.files file).device with
          -- The console copies what it has at once, or keeps the address of the page for later.
          | serial =>
              rw [hdev] at hread
              constructor
              · refine readSerial_inside (s.io.cleared.setEntry e _) hv.1 hv.2 rfl ?_ hread
                intro g b hg hb
                rw [hself, Option.some.injEq] at hg
                rw [← hg] at hb
                exact hb
              · rw [(Io.readSerial_accesses hread).2.1]
                exact nofun
          -- A request for the NFS server touches no memory yet.
          | nfs =>
              rw [hdev, Io.readNfs_eq hself hfile] at hread
              rw [← Option.some.inj hread]
              exact ⟨nofun, nofun⟩
      | @write p fd toWrite _ _ page f allocated _ hcan hlimit hword hfile hwrite =>
          have hself := Io.setEntry_self s.io.cleared e
            { f with toWrite := toWrite, clientBuffer := some page.addr }
          have hff : f₀ = f := by
            rw [transfer, if_neg (Int.not_lt.mpr hlimit), hcan] at htransfer
            exact (Prod.mk.inj (Option.some.inj htransfer)).2.symm
          obtain ⟨file', hfile', hserial⟩ := file_of_canAccess hwf hen.1 hcan
          obtain rfl : file' = file := Option.some.inj (hfile'.symm.trans hfile)
          have hlimits := hlimits file' (hff ▸ hfile)
          cases hdev : (s.io.files file').device with
          | serial =>
              rw [hdev] at hwrite hlimits
              obtain ⟨hallocated, haccesses, hmessages, -⟩ :=
                writeConsole_received hself hfile rfl (hserial hdev) hwrite
              rw [haccesses, hmessages]
              refine ⟨fun x hx => ?_, nofun⟩
              rw [List.mem_singleton.mp hx]
              exact inside_of_le rfl (hlimits hallocated)
          | nfs =>
              rw [hdev] at hwrite hlimits
              rw [Io.writeNfs_eq hself hfile rfl hword] at hwrite
              obtain ⟨hallocated, hwrite⟩ := Option.ite_none_right_eq_some.mp hwrite
              rw [← Option.some.inj hwrite]
              refine ⟨fun x hx => ?_, fun n hn => ?_⟩
              · rw [List.mem_singleton.mp hx]
                exact inside_of_le rfl (Nat.le_trans (hlimits hallocated) (by decide))
              · rw [List.mem_singleton.mp hn]
                exact (nfsWriteLengths_le hword).mpr (hlimits hallocated)

/-- The request that a `SOS_READ` or `SOS_WRITE` sends is for its entry, and a read asks for
what fits. -/
theorem sent_fits {rpc : Rpc} (hwf : s.tables.Wf) (hen : s.Enabled a) (ha : a.IsTransfer)
    (hfits : s.FitsPage a) (h : (machine null).step s a = some s')
    (hsent : s'.io.rpcs = s.io.rpcs ++ [rpc]) :
    ∃ e f, s.transfer a = some (e, f) ∧ rpc.entry = some e ∧
      ∀ e handle position count, rpc = .read e handle position count → count ≤ pageSize := by
  -- The step sent a request, so it cannot be a refused one.
  have hnew : s'.io.rpcs ≠ s.io.rpcs := by
    intro hsame
    have hlength := congrArg List.length (hsent.symm.trans hsame)
    rw [List.length_append] at hlength
    exact absurd hlength (Nat.succ_ne_self _)
  cases htransfer : s.transfer a with
  | none =>
      rw [step_refused ha htransfer h] at hnew
      exact absurd rfl hnew
  | some r =>
      obtain ⟨e, f₀⟩ := r
      obtain ⟨file, hdevice⟩ := step_transfers htransfer h
      have hlimits := hfits (e, f₀) htransfer
      refine ⟨e, f₀, rfl, ?_⟩
      cases hdevice with
      | @read p fd toRead _ _ page f _ hcan hfile hread =>
          have hff : f₀ = f := by
            rw [transfer, hcan] at htransfer
            exact (Prod.mk.inj (Option.some.inj htransfer)).2.symm
          have hlimits := hlimits file (hff ▸ hfile)
          have hself := Io.setEntry_self s.io.cleared e
            { f with toRead := toRead, clientBuffer := some page.addr }
          -- A read of the console sends nothing.
          cases hdev : (s.io.files file).device with
          | serial =>
              rw [hdev] at hread
              exact absurd (Io.readSerial_accesses hread).1 hnew
          | nfs =>
              rw [hdev] at hread hlimits
              rw [Io.readNfs_eq hself hfile] at hread
              rw [← Option.some.inj hread] at hsent
              obtain rfl := List.singleton_inj.mp (List.append_cancel_left hsent)
              exact ⟨rfl, fun _ _ _ _ hrpc => (Rpc.read.inj hrpc).2.2.2 ▸ hlimits⟩
      | @write p fd toWrite _ _ page f allocated _ hcan hlimit hword hfile hwrite =>
          obtain ⟨file', hfile', hserial⟩ := file_of_canAccess hwf hen.1 hcan
          obtain rfl : file' = file := Option.some.inj (hfile'.symm.trans hfile)
          have hself := Io.setEntry_self s.io.cleared e
            { f with toWrite := toWrite, clientBuffer := some page.addr }
          -- A write to the console sends nothing either, and a write carries no read.
          cases hdev : (s.io.files file').device with
          | serial =>
              rw [hdev] at hwrite
              exact absurd (writeConsole_received hself hfile rfl (hserial hdev) hwrite).2.2.2 hnew
          | nfs =>
              rw [hdev, Io.writeNfs_eq hself hfile rfl hword] at hwrite
              obtain ⟨-, hwrite⟩ := Option.ite_none_right_eq_some.mp hwrite
              rw [← Option.some.inj hwrite] at hsent
              obtain rfl := List.singleton_inj.mp (List.append_cancel_left hsent)
              exact ⟨rfl, nofun⟩

/-- The lengths are within the limits: nothing else is touched. -/
theorem FitsPage.staysInside (hwf : s.tables.Wf) (hv : s.ConsoleValid) (hen : s.Enabled a)
    (ha : a.IsTransfer) (hfits : s.FitsPage a) : StaysInside null s a where
  received _ h := received_inside hwf hv hen ha hfits h
  answered frames s' rpc e s₁ k r s₂ hframes h hsent he hpath hrpc hcount hanswer := by
    obtain ⟨e', f, htransfer, he', hread⟩ := sent_fits hwf hen ha hfits h hsent
    obtain rfl : e' = e := Option.some.inj (he'.symm.trans he)
    obtain ⟨file, htransfers⟩ := step_transfers htransfer h
    have hb : s'.Buffered e' frames :=
      htransfers.buffered (fun _ _ _ => hframes) fun hne => absurd rfl hne
    refine answered_inside (hb.path hpath) hrpc he ?_ hanswer
    intro e handle position count hrpc'
    rw [hrpc'] at hcount
    exact Nat.le_trans hcount (hread e handle position count hrpc')
  typed frames s' e f s₁ c s₂ hframes htransfer h hpath hwaiting htyped := by
    obtain ⟨file, htransfers⟩ := step_transfers htransfer h
    have hb : s'.Buffered e frames :=
      htransfers.buffered (fun _ _ _ => hframes) fun hne => absurd rfl hne
    exact typed_inside ((hv.step h).path hpath) (hb.path hpath) hwaiting htyped

/-- The answer to a read that is waited for is copied as it is. -/
theorem step_answer {k e handle position count b : Nat} {f : FileTableEntry} {r : NfsReply}
    (hrpc : s.io.rpcs[k]? = some (.read e handle position count)) (hf : s.io.entries e = some f)
    (hawaits : f.awaitsCallback = true) (hbuffer : f.clientBuffer = some b)
    (hok : r.status = .ok) : ∃ s', (machine null).step s (.nfsReply k r) = some s' ∧
      s'.io.accesses = [⟨b, r.bytesRead, some r.data⟩] := by
  obtain ⟨hk, -⟩ := List.getElem?_eq_some_iff.mp hrpc
  have hcleared : s.io.cleared.rpcs[k]? = some (.read e handle position count) := hrpc
  have hentry : s.io.cleared.entries e = some f := hf
  have hstep : (machine null).step s (.nfsReply k r) =
      (s.io.cleared.nfsReply s.isActive k r).map ({ s with io := · }) := by
    show (if k < s.io.rpcs.length then _ else none) = _
    rw [if_pos hk]
    rfl
  have hreply : ∃ io, s.io.cleared.nfsReply s.isActive k r = some io ∧
      io.accesses = [⟨b, r.bytesRead, some r.data⟩] := by
    rw [Io.nfsReply, hcleared, Option.bind_eq_bind, Option.bind_some]
    simp only [Io.callback, Io.nfsReadCallback, hentry, hawaits, hok, hbuffer,
      Option.bind_eq_bind, Option.bind_some, Bool.not_true]
    exact ⟨_, rfl, rfl⟩
  obtain ⟨io, hio, haccesses⟩ := hreply
  exact ⟨{ s with io := io }, by rw [hstep, hio]; rfl, haccesses⟩

/-- A read from a file on the server sends its request. -/
theorem step_readNfs {p fd toRead e file : Nat} {page : IpcPage} {f : FileTableEntry}
    (hen : s.Enabled (.readFile p [fd, toRead] (some page)))
    (hcan : s.io.canRead (threadId p) fd = some (some (e, f))) (hfile : f.file = some file)
    (hdevice : (s.io.files file).device = .nfs) :
    ∃ s', (machine null).step s (.readFile p [fd, toRead] (some page)) = some s' ∧
      s'.io.rpcs = s.io.rpcs ++
        [Rpc.read e (s.io.files file).nfsHandle f.readPosition toRead] ∧
      s'.io.entries e = some { f with
        toRead := toRead
        clientBuffer := some page.addr
        awaitsCallback := true } := by
  have hself := Io.setEntry_self s.io.cleared e
    { f with toRead := toRead, clientBuffer := some page.addr }
  rw [step_readFile hen hcan hfile, hdevice, Io.readNfs_eq hself hfile, Option.map_some]
  exact ⟨_, rfl, rfl, Io.setEntry_self ..⟩

/-- An access from the start of the page stays inside it only if its length fits. -/
theorem le_of_inside {addr length : Nat} {data : Option (Nat → UInt8)} {page : IpcPage}
    (hpage : page.addr = addr)
    (h : (⟨addr, length, data⟩ : Access).Inside (· ∈ (some page).map IpcPage.addr)) :
    length ≤ pageSize := by
  obtain ⟨frame, hframe, -, hle⟩ := h
  obtain rfl : page.addr = frame := Option.some.inj hframe
  rw [hpage] at hle
  exact Nat.le_of_add_le_add_left hle

/-- Whatever does not fit is read or written outside the page, or does not fit in the
message. -/
theorem StaysInside.fitsPage (hwf : s.tables.Wf) (hen : s.Enabled a)
    (hinside : StaysInside null s a) : s.FitsPage a := by
  rintro ⟨e, f⟩ htransfer file hfile
  have hsome : s.transfer a = some (e, f) := htransfer
  unfold transfer at hsome
  split at hsome
  next p fd toRead page =>
    have hcan : s.io.canRead (threadId p) fd = some (some (e, f)) :=
      Option.join_eq_some_iff.mp hsome
    cases hdev : (s.io.files file).device with
    | serial => exact trivial
    | nfs =>
        obtain ⟨s', hstep, hrpcs, hentry⟩ :
            ∃ s', (machine null).step s _ = some s' ∧ _ ∧ _ := step_readNfs hen hcan hfile hdev
        have hlast : s'.io.rpcs[s.io.rpcs.length]? = some (Rpc.read e
            (s.io.files file).nfsHandle f.readPosition toRead) := by
          rw [hrpcs]
          exact List.getElem?_concat_length ..
        -- The server answers with as many bytes as the request is for.
        obtain ⟨s₂, hanswer, haccesses⟩ : ∃ s₂, (machine null).step s' _ = some s₂ ∧ _ :=
          step_answer (r := { okReply 0 with bytesRead := toRead }) hlast hentry rfl rfl rfl
        have hinside := hinside.answered (· ∈ (some page).map IpcPage.addr) s' _ e s' _ _ s₂
          (fun _ hframe => hframe) hstep hrpcs rfl (.refl _) hlast (Nat.le_refl _) hanswer
        rw [haccesses] at hinside
        exact le_of_inside rfl (hinside _ (List.mem_singleton.mpr rfl))
  next p fd toWrite page allocated =>
    split at hsome
    · cases hsome
    next hlimit =>
      have hcan : s.io.canWrite (threadId p) fd = some (some (e, f)) :=
        Option.join_eq_some_iff.mp hsome
      have hword : toWrite < 2 ^ 32 :=
        hen.2 toWrite (List.mem_cons_of_mem _ (List.mem_singleton.mpr rfl))
      have hstep : (machine null).step s _ = _ :=
        step_writeFile hen hcan (Int.not_lt.mp hlimit) hfile
      have hself := Io.setEntry_self s.io.cleared e
        { f with toWrite := toWrite, clientBuffer := some page.addr }
      obtain ⟨file', hfile', hserial⟩ := file_of_canAccess hwf hen.1 hcan
      obtain rfl : file' = file := Option.some.inj (hfile'.symm.trans hfile)
      cases hdev : (s.io.files file').device with
      | serial =>
          intro hallocated
          rw [hdev, Io.writeSerial_eq hself hfile rfl (hserial hdev), if_pos hallocated,
            Option.map_some] at hstep
          exact le_of_inside rfl
            ((hinside.received _ hstep).1 _ (List.mem_singleton.mpr rfl))
      | nfs =>
          intro hallocated
          rw [hdev, Io.writeNfs_eq hself hfile rfl hword, if_pos hallocated,
            Option.map_some] at hstep
          exact (nfsWriteLengths_le hword).mp
            ((hinside.received _ hstep).2 _ (List.mem_singleton.mpr rfl))
  next => cases hsome

/-- For every `SOS_READ` and `SOS_WRITE` in every state that is reached: what is read and
written is inside the page if and only if the length is within the limits. -/
theorem stays_inside_iff {ok : FileServer → FileAction → Prop}
    (hreach : (machine null).Reachable ok s) (hen : s.Enabled a) (ha : a.IsTransfer) :
    StaysInside null s a ↔ s.FitsPage a :=
  ⟨StaysInside.fitsPage (Reachable.wf hreach) hen,
    FitsPage.staysInside (Reachable.wf hreach) (Reachable.console hreach) hen ha⟩

/-- The first process has a file on the server open for reading and writing. -/
def openedShell : List FileAction := startup ++ [.openFile 1 [oRdwr] (some (namedPage shell))]

/-- A read of a whole page from a file on the server. -/
theorem stays_inside_iff_page : ∃ s : FileServer,
    StaysInside none s (.readFile 1 [1, pageSize] (some (namedPage []))) := by
  obtain ⟨s, -, hreach, hen, hfits⟩ := Lib.Machine.exists_run (machine none)
    Lib.Machine.anyStep booted_init openedShell
    (fun s => s.Enabled (.readFile 1 [1, pageSize] (some (namedPage []))) ∧
      s.FitsPage (.readFile 1 [1, pageSize] (some (namedPage [])))) (by decide +kernel)
  exact ⟨s, (stays_inside_iff hreach hen trivial).mpr hfits⟩

/-- A write of 1085 bytes to a file on the server, and two writes to the console: one byte more
than a page, and `IPC_MEMORY_SIZE` bytes, for which `pbuf_alloc` is asked for 0. -/
theorem outside_page : ∃ s : FileServer, (machine none).Reachable Lib.Machine.anyStep s ∧
    ¬ StaysInside none s (.writeFile 1 [1, nfsMaxWrite + 1] (some (namedPage [])) true) ∧
    ¬ StaysInside none s (.writeFile 1 [0, pageSize + 1] (some (namedPage [])) true) ∧
    ¬ StaysInside none s (.writeFile 1 [0, ipcMemorySize] (some (namedPage [])) true) := by
  obtain ⟨s, -, hreach, hwrite, hpage, hlimit⟩ := Lib.Machine.exists_run (machine none)
    Lib.Machine.anyStep booted_init openedShell
    (fun s =>
      (s.Enabled (.writeFile 1 [1, nfsMaxWrite + 1] (some (namedPage [])) true) ∧
        ¬ s.FitsPage (.writeFile 1 [1, nfsMaxWrite + 1] (some (namedPage [])) true)) ∧
      (s.Enabled (.writeFile 1 [0, pageSize + 1] (some (namedPage [])) true) ∧
        ¬ s.FitsPage (.writeFile 1 [0, pageSize + 1] (some (namedPage [])) true)) ∧
      s.Enabled (.writeFile 1 [0, ipcMemorySize] (some (namedPage [])) true) ∧
        ¬ s.FitsPage (.writeFile 1 [0, ipcMemorySize] (some (namedPage [])) true))
    (by decide +kernel)
  have hwf := Reachable.wf hreach
  exact ⟨s, hreach, fun h => hwrite.2 (h.fitsPage hwf hwrite.1),
    fun h => hpage.2 (h.fitsPage hwf hpage.1), fun h => hlimit.2 (h.fitsPage hwf hlimit.1)⟩

end FileServer

end Sos
