import Sos.Io.Layout
import Sos.Properties.FileCache

/-!
# `Sos.Properties.CreatedFile`: a created file is found again

A process opens a name that is not in the cache, and some time later the NFS server answers that
the file was created (`Creates`). `FoundAgain` is what the next `open_file` relies on: the search
finds the new entry, whose memory holds the name, zero included, in the array `filename`, and
the status behind it.

`created_file_iff`: that is so if and only if the name has fewer than `MAX_PATH_LENGTH`
characters and no other file of that name has entered the cache in the meantime. The answer that
comes at once leaves no time for that (`Creates.uncached_at_once`). `open_file` takes names of
`MAX_PATH_LENGTH` characters from the IPC page, and the zero of such a name is stored behind the
array (`longest_name_overflows`).
-/

set_option autoImplicit false

namespace Sos

namespace FileServer

variable {null : Option (List UInt8)} {s s₁ t t' : FileServer} {p word k : Nat} {page : IpcPage}
  {r : NfsReply}

/-- The name that `open_file` takes from the IPC page. -/
def openedName (page : IpcPage) : List UInt8 := cString page.bytes maxPathLength

/-- Process `p` opens a name that is not in the cache in the step from `s` to `s₁`, and after some
more steps, in the step from `t` to `t'`, the NFS server answers that the file was created. -/
structure Creates (null : Option (List UInt8)) (s s₁ t t' : FileServer) (p word : Nat)
    (page : IpcPage) (k : Nat) (r : NfsReply) : Prop where
  reachable : (machine null).Reachable Lib.Machine.anyStep s
  uncached : ∀ file ∈ s.io.fileCache, s.tables.filename file ≠ openedName page
  mode : word % 2 ^ 8 = oRdonly ∨ word % 2 ^ 8 = oRdwr ∨ word % 2 ^ 8 = oWronly
  opened : (machine null).step s (.openFile p [word] (some page)) = some s₁
  waited : (machine null).Path Lib.Machine.anyStep s₁ t
  request : t.io.rpcs[k]? = some (.create s.io.nextFile)
  ok : r.status = .ok
  answered : (machine null).step t (.nfsReply k r) = some t'

/-- The name finds this file, and its record holds the name in `filename`, whatever was in the
memory that `malloc` returned, and the status. -/
structure FoundAgain (null : Option (List UInt8)) (t : FileServer) (file : Nat)
    (name : List UInt8) (mode : Nat) : Prop where
  found : ∃ index, t.io.findFile null name = some (some index) ∧ t.io.fileCache[index]? = some file
  filename : t.tables.filename file = name
  stored : ∀ heap, Lib.IsString
    (setStatusRecord (createRecord heap name mode) (t.io.files file).status) 0 name
  inside : name.length < maxPathLength
  status : ∀ heap, HoldsStatus
    (setStatusRecord (createRecord heap name mode) (t.io.files file).status)
    (t.io.files file).status

/-- The name in the page ends within `MAX_PATH_LENGTH`. -/
theorem openedName_valid (page : IpcPage) :
    0 ∉ openedName page ∧ (openedName page).length ≤ maxPathLength :=
  FileTables.cString_valid _ _

/-- A name that is in the cache is found at its first place. -/
theorem findFile_eq_some {io : Io} {name : List UInt8} {index : Nat}
    (hfind : (io.fileCache.findIdx? fun file => (io.files file).filename = name) = some index) :
    io.findFile null name = some (some index) := by
  unfold Io.findFile
  rw [hfind]

namespace Creates

variable (h : Creates null s s₁ t t' p word page k r)

include h

/-- The state after the open is reachable. -/
theorem reachable_opened : (machine null).Reachable Lib.Machine.anyStep s₁ :=
  h.reachable.path (.step (.refl s) trivial h.opened)

/-- The invariant of the file system holds when the answer comes. -/
theorem wf : t.tables.Wf := Reachable.wf (h.reachable_opened.path h.waited)

/-- The request leaves the cache, and the new file has the name. -/
theorem opened_tables : s₁.io.fileCache = s.io.fileCache ∧ s₁.tables.nextFile = s.io.nextFile + 1 ∧
    s₁.tables.filename s.io.nextFile = openedName page ∧
    ∀ file < s.io.nextFile, s₁.tables.filename file = s.tables.filename file := by
  obtain ⟨i, hi, htables⟩ := openFile_requests h.mode h.uncached h.opened
  have hcache : s₁.tables.fileCache = s.tables.fileCache := by
    rw [htables]
    rfl
  have hnext : s₁.tables.nextFile = s.io.nextFile + 1 := by
    rw [htables]
    rfl
  refine ⟨hcache, hnext, ?_, fun file hlt => ?_⟩
  · rw [htables, FileTables.filename, FileTables.request_files]
    exact (congrArg FileInfo.filename (Function.update_self ..)).trans hi
  · rw [htables]
    exact (FileTables.keepsNames_request i .create).filename file hlt

/-- The file keeps its name until the answer arrives. -/
theorem filename : t.tables.filename s.io.nextFile = openedName page := by
  have hkeeps : t.tables.Wf ∧ FileTables.KeepsNames s₁.tables t.tables :=
    h.waited.relation (fun c c' => FileTables.KeepsNames c.tables c'.tables) (fun c => .refl _)
      (fun _ _ _ => .trans)
      (fun c a c' hwf _ hs => ⟨(step_wf hwf hs).2, (step_wf hwf hs).1.keepsNames⟩)
      (Reachable.wf h.reachable_opened)
  obtain ⟨-, hnext, hname, -⟩ := h.opened_tables
  rw [hkeeps.2.filename _ (by rw [hnext]; exact Nat.lt_succ_self _), hname]

/-- Nothing but the file enters the cache with the answer. -/
theorem cached : t'.io.fileCache = t.io.fileCache ++ [s.io.nextFile] ∧
    ∀ file, t'.tables.filename file = t.tables.filename file := by
  have hroom : t.io.fileCache.length < dirCacheSize := by
    by_contra hfull
    have hnone : (machine null).step t (.nfsReply k r) = none :=
      step_okReply_full h.request rfl h.ok (Nat.not_lt.mp hfull)
    exact absurd (hnone.symm.trans h.answered) nofun
  obtain ⟨t₁, hstep, hcached⟩ : ∃ t₁, (machine null).step t _ = some t₁ ∧ _ :=
    step_okReply h.request rfl h.ok hroom
  obtain rfl := Option.some.inj (hstep.symm.trans h.answered)
  exact ⟨hcached.fileCache, hcached.filename⟩

/-- Before the answer the new file is not in the cache. -/
theorem not_cached : s.io.nextFile ∉ t.io.fileCache :=
  h.wf.files.pending_not_cached (FileTables.mem_pending (c := t.tables) h.request rfl)

/-- The search finds the new entry when it is the first one with the name. -/
theorem found_iff :
    (∃ index, t'.io.findFile null (openedName page) = some (some index) ∧
      t'.io.fileCache[index]? = some s.io.nextFile) ↔
      ∀ file ∈ t.io.fileCache, t.tables.filename file ≠ openedName page := by
  obtain ⟨hcache, hnames⟩ := h.cached
  have hname : t'.tables.filename s.io.nextFile = openedName page := (hnames _).trans h.filename
  constructor
  · rintro ⟨index, hfind, hindex⟩ file hfile he
    -- The search ends at an entry that was in the cache before, which is not the new one.
    have hsome : (t'.io.fileCache.findIdx? fun file =>
        (t'.io.files file).filename = openedName page).isSome := by
      rw [List.findIdx?_isSome, List.any_eq_true, hcache]
      exact ⟨file, List.mem_append_left _ hfile, decide_eq_true ((hnames file).trans he)⟩
    obtain ⟨first, hfirst⟩ := Option.isSome_iff_exists.mp hsome
    obtain rfl : first = index := by
      have hsame : some (some first) = some (some index) :=
        (findFile_eq_some hfirst).symm.trans hfind
      exact Option.some.inj (Option.some.inj hsame)
    obtain ⟨hlt, -, hbefore⟩ := List.findIdx?_eq_some_iff_getElem.mp hfirst
    obtain ⟨i, hi, hget⟩ := List.getElem_of_mem hfile
    have hlast : first = t.io.fileCache.length := by
      rw [hcache] at hindex hlt
      rw [List.length_append, List.length_singleton] at hlt
      by_contra hne
      rw [List.getElem?_append_left (by omega)] at hindex
      exact h.not_cached (List.mem_of_getElem? hindex)
    refine hbefore i (by omega) (decide_eq_true ?_)
    simp only [hcache]
    rw [List.getElem_append_left hi, hget]
    exact (hnames file).trans he
  · intro hnew
    have hfind : (t'.io.fileCache.findIdx? fun file =>
        (t'.io.files file).filename = openedName page) = some t.io.fileCache.length := by
      rw [hcache, List.findIdx?_append, List.findIdx?_eq_none_iff.mpr]
      · have hlast : decide ((t'.io.files s.io.nextFile).filename = openedName page) = true :=
          decide_eq_true hname
        rw [Option.none_or, List.findIdx?_singleton, hlast, if_pos rfl, Option.map_some,
          Nat.zero_add]
      · intro file hfile
        exact decide_eq_false fun he => hnew file hfile ((hnames file).symm.trans he)
    refine ⟨_, findFile_eq_some hfind, ?_⟩
    rw [hcache, List.getElem?_concat_length]

/-- When the answer comes at once, the name is still not in the cache. -/
theorem uncached_at_once (hnow : t = s₁) :
    ∀ file ∈ t.io.fileCache, t.tables.filename file ≠ openedName page := by
  subst hnow
  obtain ⟨hcache, -, -, hkeeps⟩ := h.opened_tables
  intro file hfile
  rw [hcache] at hfile
  rw [hkeeps file ((Reachable.wf h.reachable).files.cached_lt hfile)]
  exact h.uncached file hfile

end Creates

/-- A created file is found again, with its name inside `filename`, exactly when the name is
shorter than `MAX_PATH_LENGTH` and no other file of the name has entered the cache before the
answer. -/
theorem created_file_iff (h : Creates null s s₁ t t' p word page k r) :
    FoundAgain null t' s.io.nextFile (openedName page) (word % 2 ^ 8) ↔
      (openedName page).length < maxPathLength ∧
        ∀ file ∈ t.io.fileCache, t.tables.filename file ≠ openedName page := by
  obtain ⟨hzero, hlength⟩ := openedName_valid page
  constructor
  · exact fun hfound => ⟨hfound.inside, h.found_iff.mp hfound.found⟩
  · rintro ⟨hinside, hnew⟩
    constructor
    case found => exact h.found_iff.mpr hnew
    case filename => exact (h.cached.2 _).trans h.filename
    case stored =>
      intro heap
      refine isString_setStatusRecord (isString_createRecord heap hzero hlength) ?_
      simp only [offsetofStatus, maxPathLength] at *
      omega
    case inside => exact hinside
    case status => exact fun heap => holdsStatus_setStatusRecord _ _

/-! ### Two runs -/

/-- The first process opens the name for reading and writing. -/
def opens (name : List UInt8) : FileAction := .openFile 1 [oRdwr] (some (namedPage name))

/-- The process opens the name after the startup, and the create request, the second one, is
answered at once. -/
def CreatesAtOnce (name : List UInt8) (s : FileServer) : Prop :=
  (∀ file ∈ s.io.fileCache, s.tables.filename file ≠ openedName (namedPage name)) ∧
    ((machine (some [])).step s (opens name)).any (fun s₁ =>
      s₁.io.rpcs[1]? = some (.create s.io.nextFile) ∧
        ((machine (some [])).step s₁ (.nfsReply 1 (okReply 0o700))).isSome)

instance (name : List UInt8) : DecidablePred (CreatesAtOnce name) := fun _ => instDecidableAnd

/-- A computed run that opens a file and gets its creation answered at once. -/
theorem exists_creates (name : List UInt8)
    (hrun : ((machine (some [])).runIf Lib.Machine.anyStep booted startup).any (CreatesAtOnce name)) :
    ∃ s s₁ t', Creates (some []) s s₁ s₁ t' 1 oRdwr (namedPage name) 1 (okReply 0o700) := by
  obtain ⟨s, -, hreach, huncached, hopen⟩ := Lib.Machine.exists_run (machine (some []))
    Lib.Machine.anyStep booted_init startup (CreatesAtOnce name) hrun
  obtain ⟨s₁, hopened, hcreate⟩ := (Option.any_eq_true _ _).mp hopen
  obtain ⟨hrequest, hanswer⟩ := of_decide_eq_true hcreate
  obtain ⟨t', ht'⟩ := Option.isSome_iff_exists.mp hanswer
  exact ⟨s, s₁, t', hreach, huncached, by decide, hopened, .refl _, hrequest, rfl, ht'⟩

/-- A new file is found again. -/
theorem notes_found_again : ∃ s s₁ t' : FileServer,
    Creates (some []) s s₁ s₁ t' 1 oRdwr (namedPage notes) 1 (okReply 0o700) ∧
      FoundAgain (some []) t' s.io.nextFile notes oRdwr := by
  obtain ⟨s, s₁, t', h⟩ := exists_creates notes (by decide +kernel)
  have hname : openedName (namedPage notes) = notes := by decide +kernel
  refine ⟨s, s₁, t', h, ?_⟩
  have hinside : (openedName (namedPage notes)).length < maxPathLength := by
    rw [hname]
    decide +kernel
  have hfound := (created_file_iff h).mpr ⟨hinside, h.uncached_at_once rfl⟩
  rwa [hname] at hfound

/-- The zero of a name of `MAX_PATH_LENGTH` characters is stored behind the array. -/
theorem longest_name_overflows : ∃ s s₁ t' : FileServer,
    Creates (some []) s s₁ s₁ t' 1 oRdwr (namedPage (List.replicate 255 97)) 1 (okReply 0o700) ∧
      ¬ FoundAgain (some []) t' s.io.nextFile (openedName (namedPage (List.replicate 255 97)))
        oRdwr := by
  obtain ⟨s, s₁, t', h⟩ := exists_creates (List.replicate 255 97) (by decide +kernel)
  exact ⟨s, s₁, t', h, fun hfound => absurd hfound.inside (by decide +kernel)⟩

end FileServer

end Sos
