import Sos.Files.Reachable

/-!
# `Sos.Properties.FileAccess`: files are used as their modes allow

`file_access_control`: the mode of a descriptor is contained in the mode that its file had
when the descriptor was created, which for a file on the server is what its owner bits
grant; and `read_file` and `write_file` reach a file through such a descriptor of the caller
only.

A record of the run (`AccessHistory`) has what the NFS server has answered for each file, and
the mode of the file at the moment each descriptor was created.
-/

set_option autoImplicit false

namespace Sos

/-! ### The modes of a file on the server -/

/-- The mode of a file has the bits that the owner has on the server. -/
structure GrantedBy (stFmode mode : Nat) : Prop where
  read : stFmode &&& fmRead ≠ 0 ↔ mode &&& 0o400 ≠ 0
  write : stFmode &&& fmWrite ≠ 0 ↔ mode &&& 0o200 ≠ 0
  exec : stFmode &&& fmExec ≠ 0 ↔ mode &&& 0o100 ≠ 0

/-- The bits of a mode that is put together from three conditions. -/
theorem modeBits : ∀ read write exec : Bool,
    let mode := (if read then fmRead else 0) ||| (if write then fmWrite else 0) |||
      (if exec then fmExec else 0)
    (mode &&& fmRead ≠ 0 ↔ read = true) ∧ (mode &&& fmWrite ≠ 0 ↔ write = true) ∧
      (mode &&& fmExec ≠ 0 ↔ exec = true) := by
  decide

/-- The modes that the file server's bits allow. -/
theorem accessModes_granted (mode : Nat) : GrantedBy (accessModes mode) mode := by
  have hbits := modeBits (decide (mode &&& 0o400 ≠ 0)) (decide (mode &&& 0o200 ≠ 0))
    (decide (mode &&& 0o100 ≠ 0))
  simp only [decide_eq_true_eq] at hbits
  exact ⟨hbits.1, hbits.2.1, hbits.2.2⟩

/-- A bit of a contained mode is a bit of the mode that contains it. -/
theorem and_ne_zero_of_contained {mode access bit : Nat} (hmode : mode &&& access = mode)
    (hbit : mode &&& bit ≠ 0) : access &&& bit ≠ 0 := by
  intro hzero
  rw [← hmode, Nat.and_assoc, hzero, Nat.and_zero] at hbit
  exact hbit rfl

/-! ### The record of a run -/

/-- What the server has answered for a file, and the mode that the file of a descriptor had
when the descriptor was created. -/
structure AccessHistory where
  granted : Nat → Option Nat
  created : Nat → Nat

namespace FileTables

/-- The mode of the file of an entry. -/
def entryMode (c : FileTables) (e : Nat) : Nat :=
  match (c.entries e).bind FileTableEntry.file with
  | some file => (c.files file).status.stFmode
  | none => 0

/-- The file whose creation or lookup is answered without an error. -/
def answeredFile (c : FileTables) : FileAction → Option (Nat × Nat)
  | .nfsReply k r =>
    if r.status = .ok then (c.rpcs[k]?.bind Rpc.file).map fun file => (file, r.attr.mode)
    else none
  | _ => none

/-- The record after a step. -/
def recordAccess (c : FileTables) (a : FileAction) (c' : FileTables) (h : AccessHistory) :
    AccessHistory where
  granted :=
    match c.answeredFile a with
    | some (file, mode) => Function.update h.granted file (some mode)
    | none => h.granted
  created e := if e < c.nextEntry then h.created e else c'.entryMode e

/-- What the record says about the tables. -/
structure Recorded (c : FileTables) (h : AccessHistory) : Prop where
  granted : ∀ file ∈ c.fileCache, file ≠ consoleFile →
    ∃ mode, h.granted file = some mode ∧ (c.files file).status.stFmode = accessModes mode
  created : ∀ p fd e, 1 ≤ p → c.isActive p = true → c.Slot p fd e → h.created e = c.entryMode e

variable {c c' : FileTables} {h : AccessHistory}

/-- The mode of an entry is that of its file. -/
theorem entryMode_eq {e file : Nat} {f : FileTableEntry} (hf : c.entries e = some f)
    (hfile : f.file = some file) : c.entryMode e = (c.files file).status.stFmode := by
  unfold entryMode
  rw [hf, Option.bind_some, hfile]

/-- A file whose creation or lookup is answered has been asked for. -/
theorem answeredFile_spec {a : FileAction} {file mode : Nat}
    (ha : c.answeredFile a = some (file, mode)) : file ∈ c.pending := by
  unfold answeredFile at ha
  split at ha
  · split at ha
    · obtain ⟨file', hfile, he⟩ := Option.map_eq_some_iff.mp ha
      obtain ⟨rpc, hrpc, hfile⟩ := Option.bind_eq_some_iff.mp hfile
      cases he
      exact mem_pending hrpc hfile
    · cases ha
  · cases ha

/-- A file enters the cache with the mode that the server has answered. -/
theorem Outcome.enters {a : FileAction} (ho : c.Outcome a c') {file : Nat}
    (hfile : file ∈ c'.fileCache) : file ∈ c.fileCache ∨
      ∃ mode, c.answeredFile a = some (file, mode) ∧
        (c'.files file).status.stFmode = accessModes mode := by
  -- The answer that is positive is recorded with its mode.
  have hanswered {k file : Nat} {r : NfsReply} {rpc : Rpc} (hrpc : c.rpcs[k]? = some rpc)
      (hfile : rpc.file = some file) (hstatus : r.status = .ok) :
      c.answeredFile (.nfsReply k r) = some (file, r.attr.mode) := by
    unfold answeredFile
    dsimp only
    rw [if_pos hstatus, hrpc, Option.bind_some, hfile, Option.map_some]
  -- Only a positive answer puts a file into the cache.
  cases ho with
  | same | buffers | requested | opened | acquired | asked | closed | released | answered |
    dropped | failed | registered => exact Or.inl hfile
  | @cached k file₁ r rpc i hrpc hfile₁ hstatus hroom hsame hmode =>
      rcases List.mem_append.mp hfile with hold | hnew
      · exact Or.inl hold
      · have he := List.mem_singleton.mp hnew
        subst he
        refine Or.inr ⟨r.attr.mode, hanswered hrpc hfile₁ hstatus, ?_⟩
        rw [insert_files, Function.update_self, hmode]
  | @created k file₁ fd r i f hrpc hstatus hroom hsame hmode =>
      rcases List.mem_append.mp hfile with hold | hnew
      · exact Or.inl hold
      · have he := List.mem_singleton.mp hnew
        subst he
        refine Or.inr ⟨r.attr.mode, hanswered hrpc rfl hstatus, ?_⟩
        show (((c.answer k).insert file i).files file).status.stFmode = _
        rw [insert_files, Function.update_self, hmode]
  -- A listing asks for files and leaves the cache.
  | @listed k r cookie hrpc =>
      have hlisted (names : List (List UInt8)) (c : FileTables) :
          (names.foldl lookup c).fileCache = c.fileCache := by
        induction names generalizing c with
        | nil => rfl
        | cons name names ih =>
            rw [List.foldl_cons, ih]
            rfl
      rw [(follow_tables r.nextCookie _).2.2.2.2.2, hlisted] at hfile
      exact Or.inl hfile
  | deleted hcloses => exact Or.inl (hcloses.fileCache ▸ hfile)

/-- Every step keeps the record of the last mode in force, by cases on the step. -/
theorem Recorded.outcome {a : FileAction} (hrec : Recorded c h) (hwf : c.Wf) (hsent : c.Sent a)
    (ho : c.Outcome a c') : Recorded c' (c.recordAccess a c' h) where
  granted file hfile hne := by
    rcases ho.enters hfile with hold | ⟨mode, ha, hmode⟩
    · obtain ⟨mode, hgranted, hmode⟩ := hrec.granted file hold hne
      refine ⟨mode, ?_, ((ho.cacheKept hwf.files).stFmode file hold).trans hmode⟩
      unfold recordAccess
      dsimp only
      cases ha : c.answeredFile a with
      | none => exact hgranted
      | some answered =>
          -- The answer is for a file that is not in the cache yet.
          have hother : file ≠ answered.1 := fun he =>
            hwf.files.pending_not_cached (answeredFile_spec ha) (he ▸ hold)
          show Function.update h.granted answered.1 _ file = some mode
          rw [Function.update_of_ne hother, hgranted]
    · refine ⟨mode, ?_, hmode⟩
      unfold recordAccess
      dsimp only
      rw [ha]
      exact Function.update_self ..
  created p fd e hpos hp hslot := by
    have hex : ∃ f', c'.entries e = some f' :=
      (hwf.outcome hsent ho).entries.slots p fd e hp hslot
    obtain ⟨f', hf'⟩ := hex
    show (if e < c.nextEntry then h.created e else c'.entryMode e) = c'.entryMode e
    rcases ho.slot hwf.files hwf.entries hsent.deletes hsent.opens hp hslot hf' with hold | hnew
    · obtain ⟨f, hf, hcont⟩ := hold.entry
      obtain ⟨file, hcached, hfile, -⟩ := (hwf.handles p fd e f hpos hold.active hold.slot hf).file
      rw [if_pos (hwf.entries.slot_lt hold.active hold.slot),
        hrec.created p fd e hpos hold.active hold.slot, entryMode_eq hf hfile,
        entryMode_eq hf' (hcont.file.trans hfile), (ho.cacheKept hwf.files).stFmode file hcached]
    · rw [if_neg]
      rw [hnew.1]
      exact Nat.lt_irrefl _

/-- A request to the server names a file that may be used in this way. -/
theorem Outcome.asks_access {a : FileAction} (ho : c.Outcome a c') (hwf : c.Wf)
    (hsent : c.Sent a) {rpc : Rpc} (hmem : rpc ∈ c'.rpcs) :
    rpc ∈ c.rpcs ∨ rpc.accessMode = 0 ∨ ∃ file ∈ c.fileCache,
      rpc.handle = (c.files file).nfsHandle ∧
        (c.files file).status.stFmode &&& rpc.accessMode ≠ 0 := by
  have hlisted (names : List (List UInt8)) (c : FileTables) (rpc : Rpc)
      (hmem : rpc ∈ (names.foldl lookup c).rpcs) : rpc ∈ c.rpcs ∨ rpc.accessMode = 0 := by
    induction names generalizing c with
    | nil => exact Or.inl hmem
    | cons name names ih =>
        rcases ih (c.lookup name) hmem with hold | hzero
        · rcases List.mem_append.mp hold with hold | hnew
          · exact Or.inl hold
          · rw [List.mem_singleton.mp hnew]
            exact Or.inr rfl
        · exact Or.inr hzero
  cases ho with
  | same | buffers | opened | acquired | closed | released | registered => exact Or.inl hmem
  | requested =>
      rcases List.mem_append.mp hmem with hold | hnew
      · exact Or.inl hold
      · rw [List.mem_singleton.mp hnew]
        exact Or.inr (Or.inl rfl)
  -- The descriptor was opened with no more access than the file grants.
  | @asked a p fd e file f f' rpc' ha haccess hslot hf hsame hfile hdevice hrpc hhandle hmode =>
      rcases List.mem_append.mp hmem with hold | hnew
      · exact Or.inl hold
      · rw [List.mem_singleton.mp hnew]
        have hp := hsent.names p fd ha
        obtain ⟨file', hcached, hfile', haccess⟩ :=
          (hwf.handles p fd e f hp.1 hp.2.2.1 hslot hf).file
        have hfiles : file' = file := Option.some.inj (hfile'.symm.trans hfile)
        subst hfiles
        exact Or.inr (Or.inr ⟨file', hcached, hhandle, and_ne_zero_of_contained haccess hmode⟩)
  | answered => exact Or.inl (mem_rpcs_answer hmem)
  | dropped => exact Or.inl (mem_rpcs_answer hmem)
  | failed => exact Or.inl (mem_rpcs_answer hmem)
  | cached => exact Or.inl (mem_rpcs_answer hmem)
  | created => exact Or.inl (mem_rpcs_answer hmem)
  | @listed k r cookie hrpc =>
      have hall : rpc ∈ (r.listed.foldl lookup (c.answer k)).rpcs ∨ rpc.accessMode = 0 := by
        unfold follow at hmem
        split at hmem
        · rcases List.mem_append.mp hmem with hold | hnew
          · exact Or.inl hold
          · rw [List.mem_singleton.mp hnew]
            exact Or.inr rfl
        · exact Or.inl hmem
      rcases hall with hold | hzero
      · rcases hlisted r.listed (c.answer k) rpc hold with hold | hzero
        · exact Or.inl (mem_rpcs_answer hold)
        · exact Or.inr (Or.inl hzero)
      · exact Or.inr (Or.inl hzero)
  | deleted hcloses => exact Or.inl (hcloses.rpcs ▸ hmem)

end FileTables

namespace FileServer

/-- The record before anything has happened. -/
def noHistory : AccessHistory where
  granted _ := none
  created _ := 0

/-- The file system with the record of the run. -/
def recorded (null : Option (List UInt8)) :
    Lib.Machine (FileServer × AccessHistory) FileAction :=
  (machine null).withHistory noHistory fun s a s' => s.tables.recordAccess a s'.tables

/-- A call of process `p` goes through a descriptor of its own that has the mode bit. -/
def UsesDescriptor (s : FileServer) (p : Nat) (words : List Nat) (bit : Nat) : Prop :=
  ∃ fd n e f file, words = [fd, n] ∧ s.tables.Slot p fd e ∧ s.tables.entries e = some f ∧
    f.owner = threadId p ∧ f.mode &&& bit ≠ 0 ∧ f.file = some file ∧
    (s.tables.files file).status.stFmode &&& bit ≠ 0

/-- File access control in a state and its record. -/
structure AccessControlled (null : Option (List UInt8)) (s : FileServer) (h : AccessHistory) :
    Prop where
  /-- The mode of a descriptor is within the mode of its file at its creation, which for a
  file on the server is the one that the owner bits grant. -/
  descriptor : ∀ p fd e, 1 ≤ p → s.isActive p = true → s.tables.Slot p fd e →
    ∃ f file, s.tables.entries e = some f ∧ f.file = some file ∧
      f.mode &&& h.created e = f.mode ∧
      h.created e = (s.tables.files file).status.stFmode ∧
      ((s.tables.files file).device = .nfs →
        ∃ mode, h.granted file = some mode ∧ GrantedBy (h.created e) mode)
  /-- `read_file` calls the function of the file only so. -/
  reads : ∀ p words page io, s.Live p →
    s.io.readFile (threadId p) words page = some (io, none) → s.UsesDescriptor p words fmRead
  /-- `write_file` calls the function of the file only so. -/
  writes : ∀ p words page allocated io, s.Live p →
    s.io.writeFile (threadId p) words page allocated = some (io, none) →
    s.UsesDescriptor p words fmWrite
  /-- A read or write that is sent to the server is for a file that may be read or written. -/
  requests : ∀ a s', (machine null).step s a = some s' → ∀ rpc ∈ s'.io.rpcs,
    rpc ∈ s.io.rpcs ∨ rpc.accessMode = 0 ∨ ∃ file ∈ s.io.fileCache,
      rpc.handle = (s.io.files file).nfsHandle ∧
        (s.io.files file).status.stFmode &&& rpc.accessMode ≠ 0

variable {null : Option (List UInt8)} {s : FileServer} {h : AccessHistory}

/-- A descriptor that passes the check of `can_read` or `can_write`. -/
theorem usesDescriptor {p fd n bit e : Nat} {f : FileTableEntry} (hwf : s.tables.Wf)
    (hp : s.Live p) (hcan : s.io.canAccess (threadId p) fd bit = some (some (e, f))) :
    s.UsesDescriptor p [fd, n] bit := by
  obtain ⟨hslot, hf, hbit⟩ := Io.canAccess_spec s.isActive s.tid hcan
  have hhandle := hwf.handles p fd e f hp.1 hp.2.2.1 hslot hf
  obtain ⟨file, -, hfile, hmode⟩ := hhandle.file
  exact ⟨fd, n, e, f, file, rfl, hslot, hf, hhandle.owner hp.2.2.2, hbit, hfile,
    and_ne_zero_of_contained hmode hbit⟩

/-- A read that is not refused has a descriptor that may read. -/
theorem readFile_usesDescriptor {p : Nat} {words : List Nat} {page : Option IpcPage} {io : Io}
    (hwf : s.tables.Wf) (hp : s.Live p)
    (hread : s.io.readFile (threadId p) words page = some (io, none)) :
    s.UsesDescriptor p words fmRead := by
  unfold Io.readFile at hread
  split at hread
  · obtain ⟨access, hcan, hread⟩ := Option.bind_eq_some_iff.mp hread
    cases access with
    | none => cases hread
    | some access => exact usesDescriptor hwf hp hcan
  · cases hread

/-- A write that is not refused has a descriptor that may write. -/
theorem writeFile_usesDescriptor {p : Nat} {words : List Nat} {page : Option IpcPage}
    {allocated : Bool} {io : Io} (hwf : s.tables.Wf) (hp : s.Live p)
    (hwrite : s.io.writeFile (threadId p) words page allocated = some (io, none)) :
    s.UsesDescriptor p words fmWrite := by
  unfold Io.writeFile at hwrite
  split at hwrite
  · obtain ⟨access, hcan, hwrite⟩ := Option.bind_eq_some_iff.mp hwrite
    cases access with
    | none => cases hwrite
    | some access => exact usesDescriptor hwf hp hcan
  · cases hwrite

/-- By induction on the run. -/
theorem Recorded.reachable (hreach : (recorded null).Reachable Lib.Machine.anyStep (s, h)) :
    s.tables.Wf ∧ s.tables.Recorded h := by
  -- The invariant of the tables goes along with the record.
  have hall := hreach.invariant (fun x => x.1.tables.Wf ∧ x.1.tables.Recorded x.2) ?_ ?_
  · exact hall
  · rintro ⟨s₀, h₀⟩ ⟨⟨rootThread, heap, hboot⟩, -⟩
    have hbooted := boot_booted hboot
    refine ⟨hbooted.wf, ?_, ?_⟩
    -- After booting the cache has the console only, and its mode is not recorded.
    · intro file hfile hne
      have hcache : s₀.tables.fileCache = [consoleFile] := hbooted.fileCache
      change file ∈ s₀.tables.fileCache at hfile
      rw [hcache] at hfile
      exact absurd (List.mem_singleton.mp hfile) hne
    -- And the only process is the server itself.
    · intro p fd e hpos hp hslot
      exact absurd hpos (by rw [(hbooted.slot hp hslot).1]; decide)
  · rintro ⟨s₁, h₁⟩ a ⟨s₂, h₂⟩ ⟨hwf, hrec⟩ - hs
    obtain ⟨hs, hh⟩ := Lib.Machine.withHistory_step hs
    obtain ⟨ho, hwf'⟩ := step_wf hwf hs
    obtain ⟨hen, -⟩ := step_eq_some hs
    refine ⟨hwf', ?_⟩
    rw [hh]
    exact hrec.outcome hwf hen.sent ho

/-- File access control, in every state that is reached. -/
theorem file_access_control (hreach : (recorded null).Reachable Lib.Machine.anyStep (s, h)) :
    AccessControlled null s h := by
  obtain ⟨hwf, hrec⟩ := Recorded.reachable hreach
  refine ⟨?_, ?_, ?_, ?_⟩
  -- Descriptors first: their mode is one that was in force when they were made.
  · intro p fd e hpos hp hslot
    obtain ⟨f, hf⟩ := hwf.entries.slots p fd e hp hslot
    obtain ⟨file, hcached, hfile, hmode⟩ := (hwf.handles p fd e f hpos hp hslot hf).file
    have hcreated : h.created e = (s.tables.files file).status.stFmode :=
      (hrec.created p fd e hpos hp hslot).trans (FileTables.entryMode_eq hf hfile)
    refine ⟨f, file, hf, hfile, by rw [hcreated, hmode], hcreated, ?_⟩
    intro hdevice
    -- The console is on no NFS server.
    have hne : file ≠ consoleFile := by
      rintro rfl
      rw [hwf.files.serial] at hdevice
      cases hdevice
    obtain ⟨mode, hgranted, haccess⟩ := hrec.granted file hcached hne
    refine ⟨mode, hgranted, ?_⟩
    rw [hcreated, haccess]
    exact accessModes_granted mode
  -- Then reads, writes, and what is asked of the NFS server.
  · exact fun p words page io hp hread => readFile_usesDescriptor hwf hp hread
  · exact fun p words page allocated io hp hwrite => writeFile_usesDescriptor hwf hp hwrite
  · intro a s' hs rpc hmem
    obtain ⟨ho, -⟩ := step_wf hwf hs
    obtain ⟨hen, -⟩ := step_eq_some hs
    exact ho.asks_access hwf hen.sent hmem

/-- A process opens a file on the server. -/
theorem file_access_control_oneFile : ∃ (s : FileServer) (h : AccessHistory),
    s.io.filetable 1 1 ≠ none ∧ AccessControlled none s h := by
  have hinit : (recorded none).init (booted, noHistory) := ⟨booted_init, rfl⟩
  obtain ⟨⟨s, h⟩, -, hreach, hopen⟩ := Lib.Machine.exists_run (recorded none)
    Lib.Machine.anyStep hinit
    (startup ++ [.openFile 1 [oRdonly] (some (namedPage shell))])
    (fun x => x.1.io.filetable 1 1 ≠ none) (by decide +kernel)
  exact ⟨s, h, hopen, file_access_control hreach⟩

end FileServer

end Sos
