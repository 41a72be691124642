import Sos.Files.Answers

/-!
# `Sos.Files.Names`: the names of the files

The names that the server knows are those of the files in the cache and of the files whose
creation or lookup has not been answered. A message can take a name away, when the answer is
an error, or add names, when it sends requests: `Outcome.namesChange` says which.
-/

set_option autoImplicit false

namespace Sos

namespace FileTables

variable {c c' : FileTables}

/-- The name of a file. -/
def filename (c : FileTables) (file : Nat) : List UInt8 := (c.files file).filename

/-- The names in the cache and of the files whose requests have not been answered. -/
def names (c : FileTables) : List (List UInt8) := (c.fileCache ++ c.pending).map c.filename

/-- One name for every file in the cache and one for every file that is asked for. -/
theorem names_length (c : FileTables) :
    c.names.length = c.fileCache.length + c.pending.length := by
  rw [names, List.length_map, List.length_append]

/-- The names depend on the cache, the requests and the names of the files in them. -/
theorem names_eq (hcache : c'.fileCache = c.fileCache) (hpending : c'.pending = c.pending)
    (hfiles : ∀ file ∈ c.fileCache ++ c.pending, c'.filename file = c.filename file) :
    c'.names = c.names := by
  unfold names
  rw [hcache, hpending]
  exact List.map_congr_left hfiles

/-- A new request for a file. -/
theorem names_request (hfiles : c.FilesOk) {i : FileInfo} {rpc : Nat → Rpc}
    (hrpc : (rpc c.nextFile).file = some c.nextFile) :
    (c.request i rpc).names = c.names ++ [i.filename] := by
  have hpending : (c.request i rpc).pending = c.pending ++ [c.nextFile] := by
    show (c.rpcs ++ [rpc c.nextFile]).filterMap Rpc.file = _
    rw [List.filterMap_append, List.filterMap_cons_some hrpc]
    rfl
  have hself : (c.request i rpc).filename c.nextFile = i.filename := by
    rw [filename, request_files, Function.update_self]
  unfold names
  rw [hpending, ← List.append_assoc, List.map_append, List.map_singleton, hself]
  show (c.fileCache ++ c.pending).map _ ++ _ = _
  refine congrArg (· ++ [i.filename]) (List.map_congr_left fun file hfile => ?_)
  rw [filename, request_files, Function.update_of_ne (Nat.ne_of_lt (hfiles.allocated file hfile))]
  rfl

/-- The lookups for a part of the listing. -/
theorem names_listed (hfiles : c.FilesOk) (listed : List (List UInt8)) :
    (listed.foldl lookup c).names = c.names ++ listed := by
  induction listed generalizing c with
  | nil => rw [List.foldl_nil, List.append_nil]
  | cons name listed ih =>
      have hlookup : (c.lookup name).FilesOk := hfiles.request rfl rfl rfl nofun
      rw [List.foldl_cons, ih hlookup, lookup, names_request hfiles rfl, List.append_assoc]
      rfl

/-- The answer to a read or a write leaves the pending files. -/
theorem pending_answer_entry {k : Nat} {rpc : Rpc} (hrpc : c.rpcs[k]? = some rpc)
    (hnone : rpc.file = none) : (c.answer k).pending = c.pending := by
  obtain ⟨hk, hget⟩ := List.getElem?_eq_some_iff.mp hrpc
  show (c.rpcs.eraseIdx k).filterMap Rpc.file = c.rpcs.filterMap Rpc.file
  rw [List.eraseIdx_eq_take_drop_succ, List.filterMap_append]
  have hsplit : c.rpcs = c.rpcs.take k ++ rpc :: c.rpcs.drop (k + 1) := by
    rw [← hget, List.getElem_cons_drop, List.take_append_drop]
  conv => rhs; rw [hsplit, List.filterMap_append, List.filterMap_cons_none hnone]

/-- The names after a part of the listing. -/
theorem names_readdir (hfiles : c.FilesOk) {k : Nat} {r : NfsReply} {cookie : Int}
    (hrpc : c.rpcs[k]? = some (.readdir cookie)) :
    ((r.listed.foldl lookup (c.answer k)).follow r.nextCookie).names = c.names ++ r.listed := by
  have hanswer : (c.answer k).FilesOk := by
    refine hfiles.of_same rfl rfl (pending_answer_sublist c k) (fun _ => ⟨rfl, rfl, rfl⟩) rfl ?_
    exact fun file hmem => hfiles.creator file (mem_rpcs_answer hmem)
  have hnames : (c.answer k).names = c.names :=
    names_eq rfl (pending_answer_entry hrpc rfl) fun _ _ => rfl
  rw [← hnames, ← names_listed hanswer]
  unfold follow
  split
  · refine names_eq rfl ?_ fun _ _ => rfl
    show (_ ++ [Rpc.readdir r.nextCookie]).filterMap Rpc.file = _
    rw [List.filterMap_append]
    exact List.append_nil _
  · rfl

/-- The answer of a request that is not for a file. -/
theorem names_answer {k : Nat} {rpc : Rpc} (hrpc : c.rpcs[k]? = some rpc)
    (hnone : rpc.file = none) : (c.answer k).names = c.names :=
  names_eq rfl (pending_answer_entry hrpc hnone) fun _ _ => rfl

/-- A request that is not for a file. -/
theorem names_send {rpc : Rpc} (hnone : rpc.file = none) : (c.send rpc).names = c.names := by
  refine names_eq rfl ?_ fun _ _ => rfl
  show (c.rpcs ++ [rpc]).filterMap Rpc.file = _
  rw [List.filterMap_append, List.filterMap_cons_none hnone, List.filterMap_nil, List.append_nil]
  rfl

/-- The answer with which a file enters the cache. -/
theorem names_insert {k file : Nat} {rpc : Rpc} {i : FileInfo} (hrpc : c.rpcs[k]? = some rpc)
    (hfile : rpc.file = some file) (hname : i.filename = c.filename file) :
    ((c.answer k).insert file i).names.Perm c.names := by
  have hperm : (((c.answer k).insert file i).fileCache ++
      ((c.answer k).insert file i).pending).Perm (c.fileCache ++ c.pending) := by
    show ((c.fileCache ++ [file]) ++ (c.answer k).pending).Perm _
    rw [List.append_assoc]
    exact (pending_answer hrpc hfile).symm.append_left c.fileCache
  have hsame : ((c.answer k).insert file i).filename = c.filename :=
    funext fun _ => filename_update hname
  rw [names, names, hsame]
  exact hperm.map _

/-- The answer that a file could not be created or found. -/
theorem names_failed {k file : Nat} {i : FileInfo} (hname : i.filename = c.filename file) :
    ((c.answer k).setFile file i).names.Sublist c.names := by
  have hsame : ((c.answer k).setFile file i).filename = c.filename :=
    funext fun _ => filename_update hname
  rw [names, names, hsame]
  exact ((List.Sublist.refl _).append (pending_answer_sublist c k)).map _

/-- The reader of a file is no part of its name. -/
theorem names_setReader (file : Nat) (reader : ThreadId) : (c.setReader file reader).names = c.names :=
  names_eq rfl rfl fun _ _ => filename_update rfl

/-- What a message can do to the names. -/
inductive NamesChange (c : FileTables) (a : FileAction) : List (List UInt8) → Prop
  | kept {names : List (List UInt8)} (h : names.Subperm c.names) : NamesChange c a names
  | requested {p word : Nat} {page : IpcPage} (ha : a = .openFile p [word] (some page))
      (hmode : word % 2 ^ 8 = oRdonly ∨ word % 2 ^ 8 = oRdwr ∨ word % 2 ^ 8 = oWronly)
      (hnew : ∀ file ∈ c.fileCache, c.filename file ≠ cString page.bytes maxPathLength) :
      NamesChange c a (c.names ++ [cString page.bytes maxPathLength])
  | listed {k : Nat} {r : NfsReply} {cookie : Int} (ha : a = .nfsReply k r)
      (hrpc : c.rpcs[k]? = some (.readdir cookie)) : NamesChange c a (c.names ++ r.listed)

/-- Nothing happens to the names. -/
theorem NamesChange.of_eq {a : FileAction} (h : c'.names = c.names) : NamesChange c a c'.names :=
  .kept (h ▸ List.Subperm.refl _)

/-- What every step does to the list of names, by cases on the step. -/
theorem Outcome.namesChange {a : FileAction} (hfiles : c.FilesOk) (ho : c.Outcome a c') :
    NamesChange c a c'.names := by
  -- Three outcomes change the names: a request adds one, a negative answer takes one away, and a
  -- listing adds those of its part; a positive answer moves one from the requests to the cache.
  cases ho with
  | same | buffers | opened | closed | registered => exact .of_eq rfl
  | requested hname hnew hdevice hserial hreader hmode =>
      rw [names_request hfiles rfl, hname]
      exact .requested rfl hmode (hname ▸ hnew)
  | acquired => exact .of_eq (names_setReader ..)
  | @asked _ p fd e file f f' rpc ha haccess hslot hf hsame hfile hdevice hrpc =>
      show NamesChange c a (c.send rpc).names
      exact .of_eq (names_send (Rpc.file_of_entry hrpc))
  | released => exact .of_eq (names_setReader ..)
  | @answered k e _ _ _ f' files hrpc he hf hawaits hsame hdevice =>
      have hnames : FileTables.names { (c.answer k).setEntry e f' with files := files } =
          (c.answer k).names := names_eq rfl rfl fun file _ => (hdevice file).filename
      exact .of_eq (hnames.trans (names_answer hrpc (Rpc.file_of_entry he)))
  | dropped hrpc he => exact .of_eq (names_answer hrpc (Rpc.file_of_entry he))
  | failed hrpc hfile hstatus hsame => exact .kept (names_failed hsame.filename).subperm
  | cached hrpc hfile hstatus hroom hsame =>
      exact .kept (names_insert hrpc hfile hsame.filename).subperm
  | created hrpc hstatus hroom hsame =>
      exact .kept (names_insert hrpc rfl hsame.filename).subperm
  | listed hrpc =>
      rw [names_readdir hfiles hrpc]
      exact .listed rfl hrpc
  | deleted hcloses =>
      refine .of_eq (names_eq hcloses.fileCache ?_ fun file _ => (hcloses.device file).filename)
      show List.filterMap Rpc.file _ = _
      rw [hcloses.rpcs]
      rfl

/-- The files that are there keep their names. -/
structure KeepsNames (c c' : FileTables) : Prop where
  nextFile : c.nextFile ≤ c'.nextFile
  filename : ∀ file < c.nextFile, c'.filename file = c.filename file

/-- Nothing happens. -/
theorem KeepsNames.refl (c : FileTables) : KeepsNames c c := ⟨Nat.le_refl _, fun _ _ => rfl⟩

/-- One step after another. -/
theorem KeepsNames.trans {c'' : FileTables} (h : KeepsNames c c') (h' : KeepsNames c' c'') :
    KeepsNames c c'' :=
  ⟨Nat.le_trans h.nextFile h'.nextFile, fun file hlt =>
    (h'.filename file (Nat.lt_of_lt_of_le hlt h.nextFile)).trans (h.filename file hlt)⟩

/-- A step that makes no file keeps the names. -/
theorem KeepsNames.of_eq (hnext : c'.nextFile = c.nextFile)
    (hname : ∀ file, c'.filename file = c.filename file) : KeepsNames c c' :=
  ⟨Nat.le_of_eq hnext.symm, fun file _ => hname file⟩

/-- The number of a new file is not used yet. -/
theorem keepsNames_request (i : FileInfo) (rpc : Nat → Rpc) : KeepsNames c (c.request i rpc) := by
  refine ⟨Nat.le_succ _, fun file hlt => ?_⟩
  rw [filename, request_files, Function.update_of_ne (Nat.ne_of_lt hlt)]
  rfl

/-- The lookups of one part of the listing, by induction on the names. -/
theorem keepsNames_listed (listed : List (List UInt8)) : KeepsNames c (listed.foldl lookup c) := by
  induction listed generalizing c with
  | nil => exact .refl c
  | cons name listed ih => exact (keepsNames_request _ _).trans ih

/-- Asking for the next part of the directory makes no file. -/
theorem keepsNames_follow (nextCookie : Int) : KeepsNames c (c.follow nextCookie) := by
  unfold follow
  split
  · exact .of_eq rfl fun _ => rfl
  · exact .refl c

/-- No step changes the name of a file that exists. -/
theorem Outcome.keepsNames {a : FileAction} (ho : c.Outcome a c') : KeepsNames c c' := by
  cases ho with
  | same | buffers | opened | asked | closed | dropped | registered => exact .of_eq rfl fun _ => rfl
  | requested => exact keepsNames_request _ _
  | acquired => exact .of_eq rfl fun _ => filename_update rfl
  | released => exact .of_eq rfl fun _ => filename_update rfl
  | answered hrpc he hf hawaits hsame hfiles => exact .of_eq rfl fun file => (hfiles file).filename
  | failed hrpc hfile hstatus hsame => exact .of_eq rfl fun _ => filename_update hsame.filename
  | cached hrpc hfile hstatus hroom hsame =>
      exact .of_eq rfl fun _ => filename_update hsame.filename
  | created hrpc hstatus hroom hsame => exact .of_eq rfl fun _ => filename_update hsame.filename
  | @listed k =>
      have hanswer : KeepsNames c (c.answer k) := .of_eq rfl fun _ => rfl
      exact (hanswer.trans (keepsNames_listed _)).trans (keepsNames_follow _)
  | deleted hcloses => exact .of_eq hcloses.nextFile fun file => (hcloses.device file).filename

end FileTables

namespace FileServer

variable {null : Option (List UInt8)} {s s' : FileServer}

/-! ### The two requests for files -/

/-- A name that matches what is at address 0 finds no file. -/
theorem findFile_uncached {io : Io} {name : List UInt8} {index : Nat}
    (huncached : ∀ file ∈ io.fileCache, (io.files file).filename ≠ name)
    (h : io.findFile null name = some (some index)) : io.fileCache[index]? = none := by
  unfold Io.findFile at h
  split at h
  next i hfind =>
    obtain ⟨hlt, hsame, -⟩ := List.findIdx?_eq_some_iff_getElem.mp hfind
    exact absurd (of_decide_eq_true hsame) (huncached _ (List.getElem_mem hlt))
  next =>
    split at h
    · split at h
      · cases h
      · split at h
        · cases h
          exact List.getElem?_eq_none (Nat.le_refl _)
        · cases h
    · cases h

/-- `open_file` of a name that is not in the cache sends a request for a new file. -/
theorem openFile_requests {p word : Nat} {page : IpcPage}
    (hmode : word % 2 ^ 8 = oRdonly ∨ word % 2 ^ 8 = oRdwr ∨ word % 2 ^ 8 = oWronly)
    (huncached : ∀ file ∈ s.io.fileCache,
      s.tables.filename file ≠ cString page.bytes maxPathLength)
    (h : (machine null).step s (.openFile p [word] (some page)) = some s') :
    ∃ i : FileInfo, i.filename = cString page.bytes maxPathLength ∧
      s'.tables = s.tables.request i .create := by
  obtain ⟨-, hexec⟩ := step_eq_some h
  obtain ⟨io, hio, rfl⟩ := Option.map_eq_some_iff.mp hexec
  unfold Io.openFile at hio
  dsimp only at hio
  split at hio
  -- The mode is one of the three that the source accepts.
  next hbad =>
    rcases hmode with hm | hm | hm
    · exact absurd hm hbad.1
    · exact absurd hm hbad.2.1
    · exact absurd hm hbad.2.2
  next =>
    obtain ⟨found, hfind, hio⟩ := Option.bind_eq_some_iff.mp hio
    cases found with
    | none =>
        cases hio
        exact ⟨_, rfl, rfl⟩
    -- A name that no file of the cache has is found at no index of the cache.
    | some index =>
        obtain ⟨file, hindex, -⟩ := Option.bind_eq_some_iff.mp hio
        have hnone : s.io.cleared.fileCache[index]? = none := findFile_uncached huncached hfind
        exact absurd (hnone.symm.trans hindex) nofun

/-- Opening a file that is not in the cache appends its name, whether it is pending or not. -/
theorem openFile_names {p word : Nat} {page : IpcPage} (hwf : s.tables.Wf)
    (hmode : word % 2 ^ 8 = oRdonly ∨ word % 2 ^ 8 = oRdwr ∨ word % 2 ^ 8 = oWronly)
    (huncached : ∀ file ∈ s.io.fileCache,
      s.tables.filename file ≠ cString page.bytes maxPathLength)
    (h : (machine null).step s (.openFile p [word] (some page)) = some s') :
    s'.tables.names = s.tables.names ++ [cString page.bytes maxPathLength] := by
  obtain ⟨i, hi, htables⟩ := openFile_requests hmode huncached h
  rw [htables, FileTables.names_request hwf.files rfl, hi]

/-- A part of the listing: `nfs_readdir_callback` sends a request for each file in it. -/
theorem readdir_names {k : Nat} {r : NfsReply} {rpc : Rpc} (hwf : s.tables.Wf)
    (hreaddir : rpc matches .readdir _) (hrpc : s.io.rpcs[k]? = some rpc)
    (h : (machine null).step s (.nfsReply k r) = some s') :
    s'.tables.names = s.tables.names ++ r.listed := by
  cases rpc with
  | readdir cookie =>
      rw [step_nfsReply hrpc] at h
      have htables : s'.tables =
          (r.listed.foldl FileTables.lookup (s.tables.answer k)).follow r.nextCookie := by
        obtain ⟨io, hio, rfl⟩ := Option.map_eq_some_iff.mp h
        obtain ⟨-, rfl⟩ := Io.nfsReaddirCallback_some hio
        exact Io.listPart_tables ..
      rw [htables, FileTables.names_readdir hwf.files hrpc]
  | create | lookup | read | write => cases hreaddir

end FileServer

end Sos
