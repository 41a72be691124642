import Mathlib.Data.List.Nodup
import Sos.Files.Outcomes

/-!
# `Sos.Files.Invariant`: the files and the entries

Two invariants, each kept by every outcome.

* `FilesOk`: the console is the first file of the cache, all other files are on the server,
  and a file waits for at most one answer, before it enters the cache.
* `EntriesOk`: the slots of active processes have different allocated entries, and an entry
  of an active process that a request carries has `awaits_callback` set.
-/

set_option autoImplicit false

namespace Sos

namespace FileTables

/-! ### Files -/

structure FilesOk (c : FileTables) : Prop where
  nodup : (c.fileCache ++ c.pending).Nodup
  allocated : ∀ file ∈ c.fileCache ++ c.pending, file < c.nextFile
  head : c.fileCache.head? = some consoleFile
  filename : (c.files consoleFile).filename = consoleName
  serial : (c.files consoleFile).device = .serial
  serialHandle : (c.files consoleFile).serialHandle = true
  stFmode : (c.files consoleFile).status.stFmode = fmRead ||| fmWrite
  nfs : ∀ file, file < c.nextFile → file ≠ consoleFile →
    (c.files file).device = .nfs ∧ (c.files file).serialHandle = false
  creator : ∀ file, .create file ∈ c.rpcs →
    (c.files file).reader = nilthread ∨ ∃ p, (c.files file).reader = threadId p

variable {c c' : FileTables}

/-- The console is in the cache from `io_init` on. -/
theorem FilesOk.cached_console (h : c.FilesOk) : consoleFile ∈ c.fileCache :=
  List.mem_of_head? h.head

/-- Nobody asks the NFS server for the console. -/
theorem FilesOk.pending_ne_console (h : c.FilesOk) {file : Nat} (hfile : file ∈ c.pending) :
    file ≠ consoleFile := by
  intro he
  have hdisjoint := (List.nodup_append.mp h.nodup).2.2
  exact hdisjoint consoleFile h.cached_console file hfile he.symm

/-- A file that is asked for is not in the cache yet. -/
theorem FilesOk.pending_not_cached (h : c.FilesOk) {file : Nat} (hfile : file ∈ c.pending) :
    file ∉ c.fileCache := by
  intro hcached
  exact (List.nodup_append.mp h.nodup).2.2 file hcached file hfile rfl

/-- A file is the console if it has its device. -/
theorem FilesOk.eq_console (h : c.FilesOk) {file : Nat} (hfile : file < c.nextFile)
    (hdevice : (c.files file).device = .serial) : file = consoleFile := by
  by_contra hne
  rw [(h.nfs file hfile hne).1] at hdevice
  cases hdevice

/-- The files in the cache have been allocated. -/
theorem FilesOk.cached_lt (h : c.FilesOk) {file : Nat} (hfile : file ∈ c.fileCache) :
    file < c.nextFile := h.allocated file (List.mem_append_left _ hfile)

/-- The file of an outstanding request is pending. -/
theorem mem_pending {k file : Nat} {rpc : Rpc} (hrpc : c.rpcs[k]? = some rpc)
    (hfile : rpc.file = some file) : file ∈ c.pending :=
  List.mem_filterMap.mpr ⟨rpc, List.mem_of_getElem? hrpc, hfile⟩

/-- The same for a creation. -/
theorem create_mem_pending {file : Nat} (h : .create file ∈ c.rpcs) : file ∈ c.pending :=
  List.mem_filterMap.mpr ⟨.create file, h, rfl⟩

/-- A change that leaves the cache and sends no request for a file. -/
theorem FilesOk.of_same (h : c.FilesOk) (hcache : c'.fileCache = c.fileCache)
    (hnext : c'.nextFile = c.nextFile) (hpending : c'.pending.Sublist c.pending)
    (hdevice : ∀ file, SameDevice (c.files file) (c'.files file))
    (hmode : (c'.files consoleFile).status.stFmode = (c.files consoleFile).status.stFmode)
    (hcreator : ∀ file, .create file ∈ c'.rpcs →
      (c'.files file).reader = nilthread ∨ ∃ p, (c'.files file).reader = threadId p) :
    c'.FilesOk where
  nodup := by
    rw [hcache]
    exact h.nodup.sublist ((List.Sublist.refl _).append hpending)
  allocated file hfile := by
    rw [hcache] at hfile
    rw [hnext]
    exact h.allocated file (((List.Sublist.refl _).append hpending).subset hfile)
  head := by rw [hcache, h.head]
  filename := by rw [(hdevice consoleFile).filename, h.filename]
  serial := by rw [(hdevice consoleFile).device, h.serial]
  serialHandle := by rw [(hdevice consoleFile).serialHandle, h.serialHandle]
  stFmode := by rw [hmode, h.stFmode]
  nfs file hlt hne := by
    rw [hnext] at hlt
    rw [(hdevice file).device, (hdevice file).serialHandle]
    exact h.nfs file hlt hne
  creator := hcreator

/-- A change of the entries and of the file tables. -/
theorem FilesOk.of_files (h : c.FilesOk) (hcache : c'.fileCache = c.fileCache)
    (hnext : c'.nextFile = c.nextFile) (hrpcs : c'.rpcs = c.rpcs) (hfiles : c'.files = c.files) :
    c'.FilesOk := by
  refine h.of_same hcache hnext ?_ ?_ ?_ ?_
  · rw [pending, pending, hrpcs]
  · intro file
    rw [hfiles]
    exact ⟨rfl, rfl, rfl⟩
  · rw [hfiles]
  · rw [hrpcs, hfiles]
    exact h.creator

/-- A file that is not pending gets another reader. -/
theorem FilesOk.setReader (h : c.FilesOk) {file : Nat} (hfile : file ∈ c.fileCache)
    (reader : ThreadId) : (c.setReader file reader).FilesOk := by
  have hself : (c.setReader file reader).files file = { c.files file with reader := reader } :=
    Function.update_self ..
  have hother : ∀ file', file' ≠ file → (c.setReader file reader).files file' = c.files file' :=
    fun file' hne => Function.update_of_ne hne ..
  have hsame : ∀ file', SameDevice (c.files file') ((c.setReader file reader).files file') ∧
      ((c.setReader file reader).files file').status.stFmode =
        (c.files file').status.stFmode := by
    intro file'
    by_cases hne : file' = file
    · subst hne
      rw [hself]
      exact ⟨⟨rfl, rfl, rfl⟩, rfl⟩
    · rw [hother file' hne]
      exact ⟨⟨rfl, rfl, rfl⟩, rfl⟩
  refine h.of_same rfl rfl (List.Sublist.refl _) (fun file' => (hsame file').1)
    (hsame consoleFile).2 ?_
  -- The reader of a file that is still to be created stays, since only files of the cache get one.
  intro file' hcreate
  have hne : file' ≠ file := by
    intro he
    exact h.pending_not_cached (create_mem_pending hcreate) (he ▸ hfile)
  rw [hother file' hne]
  exact h.creator file' hcreate

/-- A new `file_info` of a file on the server, and a request for it. -/
theorem FilesOk.request (h : c.FilesOk) {i : FileInfo} {rpc : Nat → Rpc}
    (hfile : (rpc c.nextFile).file = some c.nextFile) (hdevice : i.device = .nfs)
    (hserial : i.serialHandle = false)
    (hreader : rpc c.nextFile = .create c.nextFile → ∃ p, i.reader = threadId p) :
    (c.request i rpc).FilesOk := by
  have hself : (c.request i rpc).files c.nextFile = i := Function.update_self ..
  have hother : ∀ file, file ≠ c.nextFile → (c.request i rpc).files file = c.files file :=
    fun file hne => Function.update_of_ne hne ..
  have hpending : (c.request i rpc).pending = c.pending ++ [c.nextFile] := by
    show (c.rpcs ++ [rpc c.nextFile]).filterMap Rpc.file = _
    rw [List.filterMap_append, List.filterMap_cons_some hfile, List.filterMap_nil]
    rfl
  have hconsole : consoleFile ≠ c.nextFile := Nat.ne_of_lt (h.cached_lt h.cached_console)
  constructor
  -- The new file is behind all others.
  case nodup =>
    rw [hpending]
    show (c.fileCache ++ (c.pending ++ [c.nextFile])).Nodup
    rw [← List.append_assoc, List.nodup_append]
    refine ⟨h.nodup, List.nodup_singleton _, ?_⟩
    intro file hmem file' hmem' he
    rw [List.mem_singleton.mp hmem'] at he
    exact absurd (h.allocated file hmem) (by rw [he]; exact Nat.lt_irrefl _)
  case allocated =>
    intro file hmem
    rw [hpending] at hmem
    change file ∈ c.fileCache ++ (c.pending ++ [c.nextFile]) at hmem
    rw [← List.append_assoc] at hmem
    show file < c.nextFile + 1
    rcases List.mem_append.mp hmem with hold | hnew
    · exact Nat.lt_succ_of_lt (h.allocated file hold)
    · rw [List.mem_singleton.mp hnew]
      exact Nat.lt_succ_self _
  case head => exact h.head
  case filename => rw [hother _ hconsole, h.filename]
  case serial => rw [hother _ hconsole, h.serial]
  case serialHandle => rw [hother _ hconsole, h.serialHandle]
  case stFmode => rw [hother _ hconsole, h.stFmode]
  case nfs =>
    intro file hlt hne
    change file < c.nextFile + 1 at hlt
    by_cases hnew : file = c.nextFile
    · subst hnew
      rw [hself]
      exact ⟨hdevice, hserial⟩
    · rw [hother file hnew]
      exact h.nfs file (by omega) hne
  -- The process that waits for a created file is its reader for now.
  case creator =>
    intro file hmem
    change .create file ∈ c.rpcs ++ [rpc c.nextFile] at hmem
    rcases List.mem_append.mp hmem with hold | hnew
    · have hlt := h.allocated file (List.mem_append_right _ (create_mem_pending hold))
      rw [hother file (Nat.ne_of_lt hlt)]
      exact h.creator file hold
    · have hrpc := List.mem_singleton.mp hnew
      have hne : file = c.nextFile := by
        rw [← hrpc] at hfile
        exact Option.some.inj hfile
      subst hne
      rw [hself]
      exact Or.inr (hreader hrpc.symm)

/-- The pending files before and after an answer for one of them. -/
theorem pending_answer {k file : Nat} {rpc : Rpc} (hrpc : c.rpcs[k]? = some rpc)
    (hfile : rpc.file = some file) : c.pending.Perm (file :: (c.answer k).pending) := by
  obtain ⟨hk, hget⟩ := List.getElem?_eq_some_iff.mp hrpc
  have hperm := List.getElem_cons_eraseIdx_perm hk
  rw [hget] at hperm
  have hmap := (hperm.symm.filterMap Rpc.file)
  rwa [List.filterMap_cons_some hfile] at hmap

/-- An answer makes no file pending. -/
theorem pending_answer_sublist (c : FileTables) (k : Nat) :
    (c.answer k).pending.Sublist c.pending :=
  (List.eraseIdx_sublist c.rpcs k).filterMap Rpc.file

/-- An answer takes one request away and adds none. -/
theorem mem_rpcs_answer {k : Nat} {rpc : Rpc} (h : rpc ∈ (c.answer k).rpcs) : rpc ∈ c.rpcs :=
  List.mem_of_mem_eraseIdx h

/-- A file whose answer has arrived is not pending any more. -/
theorem FilesOk.answered_not_pending (h : c.FilesOk) {k file : Nat} {rpc : Rpc}
    (hrpc : c.rpcs[k]? = some rpc) (hfile : rpc.file = some file) :
    file ∉ (c.answer k).pending := by
  have hnodup := ((pending_answer hrpc hfile).nodup_iff).mp (List.nodup_append.mp h.nodup).2.1
  exact (List.nodup_cons.mp hnodup).1

/-- The answer of a request for a file that says that there is an error. -/
theorem FilesOk.failed (h : c.FilesOk) {k file : Nat} {rpc : Rpc} {i : FileInfo}
    (hrpc : c.rpcs[k]? = some rpc) (hfile : rpc.file = some file)
    (hsame : SameDevice (c.files file) i) : ((c.answer k).setFile file i).FilesOk := by
  have hself : ((c.answer k).setFile file i).files file = i := Function.update_self ..
  have hother : ∀ file', file' ≠ file → ((c.answer k).setFile file i).files file' = c.files file' :=
    fun file' hne => Function.update_of_ne hne ..
  -- The answer frees the file of its request, and the console is no file of a request.
  refine h.of_same rfl rfl (pending_answer_sublist c k) ?_ ?_ ?_
  · intro file'
    by_cases hne : file' = file
    · subst hne
      rw [hself]
      exact hsame
    · rw [hother file' hne]
      exact ⟨rfl, rfl, rfl⟩
  · rw [hother _ (h.pending_ne_console (mem_pending hrpc hfile)).symm]
  · intro file' hcreate
    have hne : file' ≠ file := by
      -- A file that has been answered is asked for only once.
      intro he
      subst he
      have hmem : file' ∈ (c.answer k).pending := create_mem_pending hcreate
      exact h.answered_not_pending hrpc hfile hmem
    rw [hother file' hne]
    exact h.creator file' (mem_rpcs_answer hcreate)

/-- The answer with which a file enters the cache. -/
theorem FilesOk.insert (h : c.FilesOk) {k file : Nat} {rpc : Rpc} {i : FileInfo}
    (hrpc : c.rpcs[k]? = some rpc) (hfile : rpc.file = some file)
    (hsame : SameDevice (c.files file) i) : ((c.answer k).insert file i).FilesOk := by
  have hfailed := h.failed hrpc hfile hsame
  -- The file moves from the pending ones to the cache: together they are the same.
  have hperm : (((c.answer k).insert file i).fileCache ++
      ((c.answer k).insert file i).pending).Perm (c.fileCache ++ c.pending) := by
    show ((c.fileCache ++ [file]) ++ (c.answer k).pending).Perm _
    rw [List.append_assoc]
    exact (pending_answer hrpc hfile).symm.append_left c.fileCache
  constructor
  case nodup => exact hperm.symm.nodup h.nodup
  case allocated =>
    intro file' hmem
    exact h.allocated file' (hperm.mem_iff.mp hmem)
  case head =>
    show (c.fileCache ++ [file]).head? = some consoleFile
    rw [List.head?_append, h.head]
    rfl
  case filename => exact hfailed.filename
  case serial => exact hfailed.serial
  case serialHandle => exact hfailed.serialHandle
  case stFmode => exact hfailed.stFmode
  case nfs => exact hfailed.nfs
  case creator => exact hfailed.creator

/-- The lookups of one part of the listing, by induction on the names. -/
theorem FilesOk.listed (h : c.FilesOk) (names : List (List UInt8)) :
    (names.foldl lookup c).FilesOk := by
  induction names generalizing c with
  | nil => exact h
  | cons name names ih =>
      rw [List.foldl_cons]
      exact ih (h.request rfl rfl rfl nofun)

/-- A request that is not for a new file changes nothing here. -/
theorem FilesOk.send (h : c.FilesOk) {rpc : Rpc} (hfile : rpc.file = none) :
    (c.send rpc).FilesOk := by
  refine h.of_same rfl rfl ?_ (fun _ => ⟨rfl, rfl, rfl⟩) rfl ?_
  · show ((c.rpcs ++ [rpc]).filterMap Rpc.file).Sublist _
    rw [List.filterMap_append, List.filterMap_cons_none hfile, List.filterMap_nil, List.append_nil]
    exact List.Sublist.refl _
  · intro file hmem
    rcases List.mem_append.mp hmem with hold | hnew
    · exact h.creator file hold
    · rw [← List.mem_singleton.mp hnew] at hfile
      cases hfile

/-- A read or a write is for a descriptor and not for a new file. -/
theorem Rpc.file_of_entry {rpc : Rpc} {e : Nat} (h : rpc.entry = some e) : rpc.file = none := by
  cases rpc with
  | create | lookup | readdir => cases h
  | read | write => rfl

/-- Every step keeps the files apart, by cases on the step. -/
theorem FilesOk.outcome {a : FileAction} (h : c.FilesOk) (ho : c.Outcome a c')
    (hcached : ∀ p fd e f file, c.Live p → c.Slot p fd e → c.entries e = some f →
      f.file = some file → file ∈ c.fileCache)
    (hen : ∀ p fd, a.descriptor = some (p, fd) → c.Live p) : c'.FilesOk := by
  -- The outcomes differ in what they do to the files: nothing, the reader of one, a new one, or
  -- an answer.
  cases ho with
  | same => exact h
  | buffers => exact h.of_files rfl rfl rfl rfl
  | requested hname hnew hdevice hserial hreader =>
      exact h.request rfl hdevice hserial fun _ => ⟨_, hreader⟩
  | opened => exact h.of_files rfl rfl rfl rfl
  | acquired hfile => exact (h.setReader hfile _).of_files rfl rfl rfl rfl
  | asked ha haccess hslot hf hsame hfile hdevice hrpc =>
      exact (h.send (Rpc.file_of_entry hrpc)).of_files rfl rfl rfl rfl
  | closed => exact h.of_files rfl rfl rfl rfl
  -- A descriptor of a process is for a file in the cache.
  | released hslot hf hfile =>
      exact (h.setReader (hcached _ _ _ _ _ (hen _ _ rfl) hslot hf hfile) _).of_files
        rfl rfl rfl rfl
  | answered hrpc he hf hawaits hsame hfiles =>
      refine h.of_same rfl rfl (pending_answer_sublist c _) (fun file => (hfiles file).toSameDevice)
        (hfiles consoleFile).stFmode ?_
      intro file hmem
      rw [(hfiles file).reader]
      exact h.creator file (mem_rpcs_answer hmem)
  | dropped hrpc he hf hkilled =>
      refine h.of_same rfl rfl (pending_answer_sublist c _) (fun _ => ⟨rfl, rfl, rfl⟩) rfl ?_
      exact fun file hmem => h.creator file (mem_rpcs_answer hmem)
  | failed hrpc hfile hstatus hsame => exact h.failed hrpc hfile hsame
  | cached hrpc hfile hstatus hroom hsame => exact h.insert hrpc hfile hsame
  | created hrpc hstatus hroom hsame =>
      exact (h.insert hrpc rfl hsame).of_files rfl rfl rfl rfl
  | @listed k r cookie hrpc =>
      -- The answer is taken away first, then the lookups are made, and then the next part is
      -- asked for.
      have hanswer : (c.answer k).FilesOk := by
        refine h.of_same rfl rfl (pending_answer_sublist c k) (fun _ => ⟨rfl, rfl, rfl⟩) rfl ?_
        exact fun file hmem => h.creator file (mem_rpcs_answer hmem)
      have hall := hanswer.listed r.listed
      unfold follow
      split
      · exact hall.send rfl
      · exact hall
  | registered => exact h.of_files rfl rfl rfl rfl
  | deleted hcloses =>
      refine h.of_same hcloses.fileCache hcloses.nextFile ?_ hcloses.device
        (hcloses.stFmode consoleFile) ?_
      · show (List.filterMap Rpc.file _).Sublist _
        rw [hcloses.rpcs]
        exact List.Sublist.refl _
      -- A deletion may take the reader of the console away, and nobody's reader otherwise.
      · intro file hmem
        have hold : .create file ∈ c.rpcs := hcloses.rpcs ▸ hmem
        rcases hcloses.reader file with hsame | ⟨-, hnil⟩
        · rw [hsame]
          exact h.creator file hold
        · exact Or.inl hnil

/-! ### Entries -/

structure EntriesOk (c : FileTables) : Prop where
  allocated : ∀ e f, c.entries e = some f → e < c.nextEntry
  tokens : ∀ rpc ∈ c.rpcs, ∀ e, rpc.entry = some e → e < c.nextEntry
  slots : ∀ p fd e, c.isActive p = true → c.Slot p fd e → ∃ f, c.entries e = some f
  injective : ∀ p q fd fd' e, c.isActive p = true → c.isActive q = true → c.Slot p fd e →
    c.Slot q fd' e → p = q ∧ fd = fd'
  awaiting : ∀ p fd e f, c.isActive p = true → c.Slot p fd e → c.entries e = some f →
    ∀ rpc ∈ c.rpcs, rpc.entry = some e → f.awaitsCallback = true

/-- The descriptors of a process have been allocated. -/
theorem EntriesOk.slot_lt (h : c.EntriesOk) {p fd e : Nat} (hp : c.isActive p = true)
    (hslot : c.Slot p fd e) : e < c.nextEntry := by
  obtain ⟨f, hf⟩ := h.slots p fd e hp hslot
  exact h.allocated e f hf

/-- A change of the files and of the requests for files. -/
theorem EntriesOk.of_same (h : c.EntriesOk) (hentries : c'.entries = c.entries)
    (hnext : c'.nextEntry = c.nextEntry) (htable : c'.filetable = c.filetable)
    (hactive : c'.isActive = c.isActive)
    (hrpcs : ∀ rpc ∈ c'.rpcs, ∀ e, rpc.entry = some e → rpc ∈ c.rpcs) : c'.EntriesOk where
  allocated := by
    rw [hentries, hnext]
    exact h.allocated
  tokens rpc hmem e he := by
    rw [hnext]
    exact h.tokens rpc (hrpcs rpc hmem e he) e he
  slots p fd e hp hslot := by
    rw [Slot, htable] at hslot
    rw [hactive] at hp
    rw [hentries]
    exact h.slots p fd e hp hslot
  injective p q fd fd' e hp hq hslot hslot' := by
    rw [Slot, htable] at hslot hslot'
    rw [hactive] at hp hq
    exact h.injective p q fd fd' e hp hq hslot hslot'
  awaiting p fd e f hp hslot hf rpc hmem he := by
    rw [Slot, htable] at hslot
    rw [hactive] at hp
    rw [hentries] at hf
    exact h.awaiting p fd e f hp hslot hf rpc (hrpcs rpc hmem e he) he

/-- An update keeps the descriptors apart as long as it does not forget that an answer is waited
for. -/
theorem EntriesOk.setEntry (h : c.EntriesOk) {e : Nat} {f f' : FileTableEntry}
    (hf : c.entries e = some f) (hawaits : f.awaitsCallback = true → f'.awaitsCallback = true) :
    (c.setEntry e f').EntriesOk where
  allocated e' g hg := by
    -- Each field is about another descriptor, which has not changed, or about this one.
    by_cases he : e' = e
    · subst he
      exact h.allocated e' f hf
    · rw [setEntry_entries, Function.update_of_ne he] at hg
      exact h.allocated e' g hg
  tokens := h.tokens
  slots p fd e' hp hslot := by
    by_cases he : e' = e
    · subst he
      exact ⟨f', Function.update_self ..⟩
    · rw [setEntry_entries, Function.update_of_ne he]
      exact h.slots p fd e' hp hslot
  injective := h.injective
  awaiting p fd e' g hp hslot hg rpc hmem hrpc := by
    by_cases he : e' = e
    · subst he
      rw [setEntry_entries, Function.update_self, Option.some.injEq] at hg
      subst hg
      exact hawaits (h.awaiting p fd e' f hp hslot hf rpc hmem hrpc)
    · rw [setEntry_entries, Function.update_of_ne he] at hg
      exact h.awaiting p fd e' g hp hslot hg rpc hmem hrpc

/-- A slot after a new entry was stored in one of the slots. -/
theorem slot_openSlot {p fd q fd' e : Nat} {f : FileTableEntry}
    (h : (c.openSlot p fd f).Slot q fd' e) :
    (q = p ∧ fd' = fd ∧ e = c.nextEntry) ∨ ((q = p → fd' ≠ fd) ∧ c.Slot q fd' e) := by
  obtain ⟨hlt, he⟩ := h
  by_cases hq : q = p
  · subst hq
    rw [openSlot_filetable, Function.update_self] at he
    by_cases hfd : fd' = fd
    · subst hfd
      rw [Function.update_self, Option.some.injEq] at he
      exact Or.inl ⟨rfl, rfl, he.symm⟩
    · rw [Function.update_of_ne hfd] at he
      exact Or.inr ⟨fun _ => hfd, hlt, he⟩
  · rw [openSlot_filetable, Function.update_of_ne hq] at he
    exact Or.inr ⟨fun h => absurd h hq, hlt, he⟩

/-- The descriptor of an open gets a number that is not used yet. -/
theorem EntriesOk.openSlot (h : c.EntriesOk) (p fd : Nat) (f : FileTableEntry) :
    (c.openSlot p fd f).EntriesOk where
  allocated e g hg := by
    show e < c.nextEntry + 1
    by_cases he : e = c.nextEntry
    · omega
    · rw [openSlot_entries, Function.update_of_ne he] at hg
      exact Nat.lt_succ_of_lt (h.allocated e g hg)
  tokens rpc hmem e he := Nat.lt_succ_of_lt (h.tokens rpc hmem e he)
  slots q fd' e hq hslot := by
    rcases slot_openSlot hslot with ⟨rfl, rfl, rfl⟩ | ⟨-, hold⟩
    · exact ⟨f, Function.update_self ..⟩
    · have hlt := h.slot_lt hq hold
      rw [openSlot_entries, Function.update_of_ne (Nat.ne_of_lt hlt)]
      exact h.slots q fd' e hq hold
  injective q q' fd₁ fd₂ e hq hq' hslot hslot' := by
    rcases slot_openSlot hslot with ⟨rfl, rfl, rfl⟩ | ⟨-, hold⟩
    · rcases slot_openSlot hslot' with ⟨rfl, rfl, -⟩ | ⟨-, hold'⟩
      · exact ⟨rfl, rfl⟩
      · exact absurd (h.slot_lt hq' hold') (Nat.lt_irrefl _)
    · rcases slot_openSlot hslot' with ⟨rfl, rfl, rfl⟩ | ⟨-, hold'⟩
      · exact absurd (h.slot_lt hq hold) (Nat.lt_irrefl _)
      · exact h.injective q q' fd₁ fd₂ e hq hq' hold hold'
  awaiting q fd' e g hq hslot hg rpc hmem hrpc := by
    -- No request carries the new entry.
    have hlt := h.tokens rpc hmem e hrpc
    rcases slot_openSlot hslot with ⟨rfl, rfl, rfl⟩ | ⟨-, hold⟩
    · exact absurd hlt (Nat.lt_irrefl _)
    · rw [openSlot_entries, Function.update_of_ne (Nat.ne_of_lt hlt)] at hg
      exact h.awaiting q fd' e g hq hold hg rpc hmem hrpc

/-- What is left after a close was there before, and is another slot. -/
theorem slot_closeSlot {p fd q fd' e e' : Nat} (h : (c.closeSlot p fd e).Slot q fd' e') :
    (q = p → fd' ≠ fd) ∧ c.Slot q fd' e' := by
  obtain ⟨hlt, he⟩ := h
  by_cases hq : q = p
  · subst hq
    rw [closeSlot_filetable, Function.update_self] at he
    by_cases hfd : fd' = fd
    · subst hfd
      rw [Function.update_self] at he
      cases he
    · rw [Function.update_of_ne hfd] at he
      exact ⟨fun _ => hfd, hlt, he⟩
  · rw [closeSlot_filetable, Function.update_of_ne hq] at he
    exact ⟨fun h => absurd h hq, hlt, he⟩

/-- Freeing an entry that is in none of the slots that are left. -/
theorem EntriesOk.of_free (h : c.EntriesOk) {e : Nat}
    (hentries : c'.entries = Function.update c.entries e none)
    (hnext : c'.nextEntry = c.nextEntry) (hactive : c'.isActive = c.isActive)
    (hslots : ∀ p fd e', c.isActive p = true → c'.Slot p fd e' → c.Slot p fd e' ∧ e' ≠ e)
    (hrpcs : ∀ rpc ∈ c'.rpcs, ∀ e', rpc.entry = some e' → rpc ∈ c.rpcs) : c'.EntriesOk where
  allocated e' g hg := by
    rw [hnext]
    -- The descriptor that is gone is in no slot, so that the fields about slots are as before.
    by_cases he : e' = e
    · subst he
      rw [hentries, Function.update_self] at hg
      cases hg
    · rw [hentries, Function.update_of_ne he] at hg
      exact h.allocated e' g hg
  tokens rpc hmem e' he := by
    rw [hnext]
    exact h.tokens rpc (hrpcs rpc hmem e' he) e' he
  slots p fd e' hp hslot := by
    rw [hactive] at hp
    obtain ⟨hold, hne⟩ := hslots p fd e' hp hslot
    rw [hentries, Function.update_of_ne hne]
    exact h.slots p fd e' hp hold
  injective p q fd fd' e' hp hq hslot hslot' := by
    rw [hactive] at hp hq
    exact h.injective p q fd fd' e' hp hq (hslots p fd e' hp hslot).1 (hslots q fd' e' hq hslot').1
  awaiting p fd e' g hp hslot hg rpc hmem hrpc := by
    rw [hactive] at hp
    obtain ⟨hold, hne⟩ := hslots p fd e' hp hslot
    rw [hentries, Function.update_of_ne hne] at hg
    exact h.awaiting p fd e' g hp hold hg rpc (hrpcs rpc hmem e' hrpc) hrpc

/-- Closing a slot leaves no other slot with its descriptor. -/
theorem EntriesOk.closeSlot (h : c.EntriesOk) {p fd e : Nat} (hp : c.isActive p = true)
    (hslot : c.Slot p fd e) : (c.closeSlot p fd e).EntriesOk := by
  refine h.of_free rfl rfl rfl ?_ fun rpc hmem _ _ => hmem
  intro q fd' e' hq hslot'
  obtain ⟨hother, hold⟩ := slot_closeSlot hslot'
  refine ⟨hold, ?_⟩
  intro he
  subst he
  have hsame := h.injective p q fd fd' e' hp hq hslot hold
  exact hother hsame.1.symm hsame.2.symm

/-- The slots after a process has been registered: its console and those of the others. -/
theorem slot_register {p q fd e : Nat} {t : ThreadId} {f : FileTableEntry}
    (h : (c.register p t f).Slot q fd e) :
    (q = p ∧ fd = 0 ∧ e = c.nextEntry) ∨ (q ≠ p ∧ c.Slot q fd e) := by
  obtain ⟨hlt, he⟩ := h
  by_cases hq : q = p
  · subst hq
    rw [register_filetable, Function.update_self] at he
    by_cases hfd : fd = 0
    · subst hfd
      rw [Function.update_self, Option.some.injEq] at he
      exact Or.inl ⟨rfl, rfl, he.symm⟩
    · rw [Function.update_of_ne hfd] at he
      cases he
  · rw [register_filetable, Function.update_of_ne hq] at he
    exact Or.inr ⟨hq, hlt, he⟩

/-- Registering a process makes only that one active. -/
theorem isActive_register {p q : Nat} {t : ThreadId} {f : FileTableEntry} (hq : q ≠ p)
    (h : (c.register p t f).isActive q = true) : c.isActive q = true := by
  rwa [register_isActive, Function.update_of_ne hq] at h

/-- The console of a new process gets a number that is not used yet. -/
theorem EntriesOk.register (h : c.EntriesOk) (p : Nat) (t : ThreadId) (f : FileTableEntry) :
    (c.register p t f).EntriesOk where
  allocated e g hg := by
    show e < c.nextEntry + 1
    by_cases he : e = c.nextEntry
    · omega
    · rw [register_entries, Function.update_of_ne he] at hg
      exact Nat.lt_succ_of_lt (h.allocated e g hg)
  tokens rpc hmem e he := Nat.lt_succ_of_lt (h.tokens rpc hmem e he)
  slots q fd e hq hslot := by
    -- The new slot has a new number, which no old slot and no request has.
    rcases slot_register hslot with ⟨rfl, rfl, rfl⟩ | ⟨hne, hold⟩
    · exact ⟨f, Function.update_self ..⟩
    · have hact := isActive_register hne hq
      rw [register_entries, Function.update_of_ne (Nat.ne_of_lt (h.slot_lt hact hold))]
      exact h.slots q fd e hact hold
  injective q q' fd fd' e hq hq' hslot hslot' := by
    rcases slot_register hslot with ⟨rfl, rfl, rfl⟩ | ⟨hne, hold⟩
    · rcases slot_register hslot' with ⟨rfl, rfl, -⟩ | ⟨hne', hold'⟩
      · exact ⟨rfl, rfl⟩
      · exact absurd (h.slot_lt (isActive_register hne' hq') hold') (Nat.lt_irrefl _)
    · have hact := isActive_register hne hq
      rcases slot_register hslot' with ⟨rfl, rfl, rfl⟩ | ⟨hne', hold'⟩
      · exact absurd (h.slot_lt hact hold) (Nat.lt_irrefl _)
      · exact h.injective q q' fd fd' e hact (isActive_register hne' hq') hold hold'
  awaiting q fd e g hq hslot hg rpc hmem hrpc := by
    have hlt := h.tokens rpc hmem e hrpc
    rcases slot_register hslot with ⟨rfl, rfl, rfl⟩ | ⟨hne, hold⟩
    · exact absurd hlt (Nat.lt_irrefl _)
    · rw [register_entries, Function.update_of_ne (Nat.ne_of_lt hlt)] at hg
      exact h.awaiting q fd e g (isActive_register hne hq) hold hg rpc hmem hrpc

/-- The slots of the other processes after the deletion of `p`. -/
theorem Closes.slot {p q fd e : Nat} {fds : List Nat} (h : c.Closes p fds c') (hq : q ≠ p)
    (hslot : c'.Slot q fd e) : c.Slot q fd e := by
  rwa [Slot, h.filetable q hq] at hslot

/-- The entries of the other processes after the deletion of `p`. -/
theorem Closes.kept (hok : c.EntriesOk) {p q fd e : Nat}
    (h : c.Closes p (List.range processMaxFiles) c') (hp : c.isActive p = true)
    (hq : c.isActive q = true) (hne : q ≠ p) (hslot : c.Slot q fd e) :
    c'.entries e = c.entries e := by
  refine h.other e ?_
  intro fd' hmem he
  exact hne (hok.injective q p fd fd' e hq hp hslot ⟨List.mem_range.mp hmem, he⟩).1

/-- Who is active after one process has been deleted. -/
theorem isActive_update_false {act : Nat → Bool} {p q : Nat}
    (h : Function.update act p false q = true) : q ≠ p ∧ act q = true := by
  by_cases hq : q = p
  · subst hq
    rw [Function.update_self] at h
    cases h
  · rw [Function.update_of_ne hq] at h
    exact ⟨hq, h⟩

/-- Deleting a process takes its slots away with their descriptors. -/
theorem EntriesOk.deleted (h : c.EntriesOk) {p : Nat}
    (hcloses : c.Closes p (List.range processMaxFiles) c') (hp : c.isActive p = true) :
    EntriesOk { c' with isActive := Function.update c'.isActive p false } where
  allocated e g hg := by
    show e < c'.nextEntry
    rw [hcloses.nextEntry]
    change c'.entries e = some g at hg
    -- The descriptors of the process that is gone, and those of others, which the loop has kept.
    by_cases hmine : ∀ fd ∈ List.range processMaxFiles, c.filetable p fd ≠ some e
    · rw [hcloses.other e hmine] at hg
      exact h.allocated e g hg
    · push Not at hmine
      obtain ⟨fd, hmem, he⟩ := hmine
      exact h.slot_lt hp ⟨List.mem_range.mp hmem, he⟩
  tokens rpc hmem e he := by
    show e < c'.nextEntry
    rw [hcloses.nextEntry]
    exact h.tokens rpc (hcloses.rpcs ▸ hmem) e he
  slots q fd e hq hslot := by
    show ∃ f, c'.entries e = some f
    obtain ⟨hne, hact⟩ := isActive_update_false hq
    rw [hcloses.isActive] at hact
    have hold := hcloses.slot hne hslot
    rw [Closes.kept h hcloses hp hact hne hold]
    exact h.slots q fd e hact hold
  injective q q' fd fd' e hq hq' hslot hslot' := by
    obtain ⟨hne, hact⟩ := isActive_update_false hq
    obtain ⟨hne', hact'⟩ := isActive_update_false hq'
    rw [hcloses.isActive] at hact hact'
    exact h.injective q q' fd fd' e hact hact' (hcloses.slot hne hslot) (hcloses.slot hne' hslot')
  awaiting q fd e g hq hslot hg rpc hmem hrpc := by
    obtain ⟨hne, hact⟩ := isActive_update_false hq
    rw [hcloses.isActive] at hact
    have hold := hcloses.slot hne hslot
    change c'.entries e = some g at hg
    rw [Closes.kept h hcloses hp hact hne hold] at hg
    exact h.awaiting q fd e g hact hold hg rpc (hcloses.rpcs ▸ hmem) hrpc

/-- A request that is not for a descriptor changes nothing here. -/
theorem EntriesOk.send (h : c.EntriesOk) {rpc : Rpc} (hrpc : rpc.entry = none) :
    (c.send rpc).EntriesOk := by
  refine h.of_same rfl rfl rfl rfl ?_
  intro rpc' hmem e he
  rcases List.mem_append.mp hmem with hold | hnew
  · exact hold
  · rw [List.mem_singleton.mp hnew, hrpc] at he
    cases he

/-- A request for a new file is not for a descriptor. -/
theorem EntriesOk.request (h : c.EntriesOk) {i : FileInfo} {rpc : Nat → Rpc}
    (hrpc : (rpc c.nextFile).entry = none) : (c.request i rpc).EntriesOk :=
  (h.send hrpc).of_same rfl rfl rfl rfl fun _ hmem _ _ => hmem

/-- The lookups of one part of the listing, by induction on the names. -/
theorem EntriesOk.listed (h : c.EntriesOk) (names : List (List UInt8)) :
    (names.foldl lookup c).EntriesOk := by
  induction names generalizing c with
  | nil => exact h
  | cons name names ih =>
      rw [List.foldl_cons]
      exact ih (h.request rfl)

/-- An answer leaves the descriptors alone. -/
theorem EntriesOk.answer (h : c.EntriesOk) (k : Nat) : (c.answer k).EntriesOk :=
  h.of_same rfl rfl rfl rfl fun _ hmem _ _ => mem_rpcs_answer hmem

/-- A request that carries an entry of an active process. -/
theorem EntriesOk.asked (h : c.EntriesOk) {p fd e : Nat} {rpc : Rpc} {f f' : FileTableEntry}
    (hp : c.isActive p = true) (hslot : c.Slot p fd e) (hf : c.entries e = some f)
    (hrpc : rpc.entry = some e) (hawaits : f'.awaitsCallback = true) :
    ((c.send rpc).setEntry e f').EntriesOk := by
  have hset : (c.setEntry e f').EntriesOk := h.setEntry hf fun _ => hawaits
  have hlt := h.slot_lt hp hslot
  constructor
  case allocated => exact hset.allocated
  -- The descriptor of the new request is that of a slot, and its flag is set.
  case tokens =>
    intro rpc' hmem e' he
    rcases List.mem_append.mp hmem with hold | hnew
    · exact h.tokens rpc' hold e' he
    · rw [List.mem_singleton.mp hnew, hrpc, Option.some.injEq] at he
      exact he ▸ hlt
  case slots => exact hset.slots
  case injective => exact hset.injective
  case awaiting =>
    intro q fd' e' g hq hslot' hg rpc' hmem he
    rcases List.mem_append.mp hmem with hold | hnew
    · exact hset.awaiting q fd' e' g hq hslot' hg rpc' hold he
    · rw [List.mem_singleton.mp hnew, hrpc, Option.some.injEq] at he
      subst he
      rw [setEntry_entries, Function.update_self, Option.some.injEq] at hg
      exact hg ▸ hawaits

/-- Every step keeps the descriptors apart, by cases on the step. -/
theorem EntriesOk.outcome {a : FileAction} (h : c.EntriesOk) (ho : c.Outcome a c')
    (hdesc : ∀ p fd, a.descriptor = some (p, fd) → c.Live p)
    (hdel : ∀ p, a = .deleteProcess p → c.Live p) : c'.EntriesOk := by
  cases ho with
  | same => exact h
  | buffers _ hf hsame => exact h.setEntry hf fun hawaits => hsame.awaitsCallback.trans hawaits
  | requested => exact h.request rfl
  | opened => exact h.openSlot ..
  | @acquired p word fd file page f =>
      have hset : (c.setReader file (threadId p)).EntriesOk :=
        h.of_same rfl rfl rfl rfl fun _ hmem _ _ => hmem
      exact hset.openSlot ..
  | asked ha haccess hslot hf hsame hfile hdevice hrpc =>
      exact h.asked (hdesc _ _ ha).2.2.1 hslot hf hrpc hsame.awaitsCallback
  | closed hslot => exact h.closeSlot (hdesc _ _ rfl).2.2.1 hslot
  | @released p fd e file f hslot =>
      have hset : (c.setReader file nilthread).EntriesOk :=
        h.of_same rfl rfl rfl rfl fun _ hmem _ _ => hmem
      exact hset.closeSlot (hdesc _ _ rfl).2.2.1 hslot
  | @answered k e r rpc f f' files hrpc he hf hawaits hsame =>
      have hset : ((c.answer k).setEntry e f').EntriesOk :=
        (h.answer k).setEntry hf fun hawaits => hsame.awaitsCallback.trans hawaits
      exact hset.of_same rfl rfl rfl rfl fun _ hmem _ _ => hmem
  | dropped hrpc he hf hkilled =>
      refine h.of_free rfl rfl rfl ?_ fun _ hmem _ _ => mem_rpcs_answer hmem
      intro p fd e' hp hslot
      refine ⟨hslot, ?_⟩
      -- The entry of an active process would have the flag set.
      rintro rfl
      have hawaits := h.awaiting p fd _ _ hp hslot hf _ (List.mem_of_getElem? hrpc) he
      exact absurd (hawaits.symm.trans hkilled) nofun
  | failed => exact (h.answer _).of_same rfl rfl rfl rfl fun _ hmem _ _ => hmem
  | cached => exact (h.answer _).of_same rfl rfl rfl rfl fun _ hmem _ _ => hmem
  | @created k file fd r i f =>
      have hinsert : ((c.answer k).insert file i).EntriesOk :=
        (h.answer k).of_same rfl rfl rfl rfl fun _ hmem _ _ => hmem
      exact hinsert.openSlot ..
  | @listed k r cookie hrpc =>
      have hall := (h.answer k).listed r.listed
      unfold follow
      split
      · exact hall.send rfl
      · exact hall
  | registered => exact h.register ..
  | deleted hcloses => exact h.deleted hcloses (hdel _ rfl).2.2.1

end FileTables

end Sos
