import Sos.Files.Reachable

/-!
# `Sos.Properties.FindFile`: the search in the file cache

`find_file_iff`: `find_file` returns the first entry with the name, or -1, whatever is stored
at address 0, if and only if the name is in the cache or the cache is full. Otherwise the
loop goes on behind the entries in use and compares the name with the string at
`NULL->filename`.

The handlers that look up a name have the same limit. For a name that is not in the cache,
`stat_file`, `create_process` and `open_file` answer as documented if and only if the cache
is full. `missing_file_stops_server` is a `stat` of a missing file after booting.
-/

set_option autoImplicit false

namespace Sos

namespace Io

variable {s : Io} {name : List UInt8}

/-- The name of the file at an index of the cache. -/
def nameAt (s : Io) (index : Nat) : Option (List UInt8) :=
  s.fileCache[index]?.map fun file => (s.files file).filename

/-- The result that the comment of `find_file` promises: the index of the entry, or -1. -/
def IsFirst (s : Io) (name : List UInt8) : Option Nat → Prop
  | some index =>
    index < s.fileCache.length ∧ s.nameAt index = some name ∧
      ∀ earlier < index, s.nameAt earlier ≠ some name
  | none => ∀ index < s.fileCache.length, s.nameAt index ≠ some name

/-- `find_file` returns what it promises, and nothing of it comes from address 0. -/
def Finds (s : Io) (name : List UInt8) : Prop :=
  ∃ r, s.IsFirst name r ∧ ∀ null, s.findFile null name = some r

/-- The name at a place that is taken. -/
theorem nameAt_eq_some {index : Nat} (hlt : index < s.fileCache.length) :
    s.nameAt index = some (s.files s.fileCache[index]).filename := by
  rw [nameAt, List.getElem?_eq_getElem hlt, Option.map_some]

/-- The search in the entries in use finds the first one. -/
theorem isFirst_findIdx? :
    s.IsFirst name (s.fileCache.findIdx? fun file => (s.files file).filename = name) := by
  cases hfind : s.fileCache.findIdx? fun file => (s.files file).filename = name with
  -- The index found has the name, and no earlier one has it.
  | some index =>
      obtain ⟨hlt, hsame, hbefore⟩ := List.findIdx?_eq_some_iff_getElem.mp hfind
      refine ⟨hlt, ?_, ?_⟩
      · rw [nameAt_eq_some hlt, of_decide_eq_true hsame]
      · intro earlier hearlier
        rw [nameAt_eq_some (Nat.lt_trans hearlier hlt)]
        intro he
        exact hbefore earlier hearlier (decide_eq_true (Option.some.inj he))
  | none =>
      intro index hlt
      have hno := List.findIdx?_eq_none_iff.mp hfind _ (List.getElem_mem hlt)
      rw [nameAt_eq_some hlt]
      intro he
      exact of_decide_eq_false hno (Option.some.inj he)

/-- No place has a name that no file has. -/
theorem findIdx?_eq_none (hmissing : ∀ file ∈ s.fileCache, (s.files file).filename ≠ name) :
    (s.fileCache.findIdx? fun file => (s.files file).filename = name) = none :=
  List.findIdx?_eq_none_iff.mpr fun file hfile => decide_eq_false (hmissing file hfile)

/-- A name that is not in the cache is compared with what is at address 0. -/
theorem findFile_missing {null : Option (List UInt8)}
    (hmissing : ∀ file ∈ s.fileCache, (s.files file).filename ≠ name) :
    s.findFile null name =
      if s.fileCache.length < dirCacheSize then
        null.map fun atZero => if atZero = name then some s.fileCache.length else none
      else some none := by
  unfold findFile
  rw [findIdx?_eq_none hmissing]
  dsimp only
  cases null with
  | none => rfl
  | some atZero =>
      split
      · dsimp only
        rw [Option.map_some]
        split
        · rfl
        · rfl
      · rfl

/-- With a full cache the loop ends behind the last entry. -/
theorem findFile_full {null : Option (List UInt8)} (hfull : s.fileCache.length = dirCacheSize)
    (hmissing : ∀ file ∈ s.fileCache, (s.files file).filename ≠ name) :
    s.findFile null name = some none := by
  rw [findFile_missing hmissing, if_neg (Nat.not_lt.mpr (Nat.le_of_eq hfull.symm))]

/-- With room in the cache the loop follows the null pointer of the next entry. -/
theorem findFile_follows_null (hroom : s.fileCache.length < dirCacheSize)
    (hmissing : ∀ file ∈ s.fileCache, (s.files file).filename ≠ name) :
    s.findFile none name = none := by
  rw [findFile_missing hmissing, if_pos hroom]
  rfl

/-- The search comes to an end if a file has the name, or if the cache is full, so that the loop
meets no null pointer. -/
theorem finds_iff (hle : s.fileCache.length ≤ dirCacheSize) :
    s.Finds name ↔
      (∃ file ∈ s.fileCache, (s.files file).filename = name) ∨
        s.fileCache.length = dirCacheSize := by
  -- A cached name is found before the loop can leave the entries in use.
  by_cases hcached : ∃ file ∈ s.fileCache, (s.files file).filename = name
  · refine iff_of_true ⟨_, isFirst_findIdx?, fun null => ?_⟩ (Or.inl hcached)
    obtain ⟨file, hfile, hname⟩ := hcached
    have hsome : (s.fileCache.findIdx? fun file => (s.files file).filename = name).isSome := by
      rw [List.findIdx?_isSome, List.any_eq_true]
      exact ⟨file, hfile, decide_eq_true hname⟩
    obtain ⟨index, hindex⟩ := Option.isSome_iff_exists.mp hsome
    unfold findFile
    rw [hindex]
  · push Not at hcached
    constructor
    · rintro ⟨r, -, hr⟩
      refine Or.inr (Nat.le_antisymm hle (Nat.not_lt.mp fun hroom => ?_))
      -- Nothing can be read at address 0, so the loop does not come to its end.
      have hnone := hr none
      rw [findFile_follows_null hroom hcached] at hnone
      cases hnone
    · rintro (⟨file, hfile, hname⟩ | hfull)
      · exact absurd hname (hcached file hfile)
      · refine ⟨none, ?_, fun null => findFile_full hfull hcached⟩
        rw [← findIdx?_eq_none hcached]
        exact isFirst_findIdx?

/-! ### The handlers -/

variable {page : IpcPage}

/-- `stat_file` of a missing file: -1, and nothing is copied. -/
theorem statFile_missing_iff (hle : s.fileCache.length ≤ dirCacheSize)
    (hmissing : ∀ file ∈ s.fileCache,
      (s.files file).filename ≠ cString page.bytes maxPathLength) :
    (∀ null, s.statFile null [] (some page) = some (some [-1], none)) ↔
      s.fileCache.length = dirCacheSize := by
  constructor
  · intro hall
    refine Nat.le_antisymm hle (Nat.not_lt.mp fun hroom => ?_)
    have hnone := hall none
    simp only [statFile, findFile_follows_null hroom hmissing, Option.bind_eq_bind,
      Option.bind_none] at hnone
    cases hnone
  · intro hfull null
    simp only [statFile, findFile_full hfull hmissing, Option.bind_eq_bind, Option.bind_some]

/-- `create_process` of a missing file: `EXECUTABLE_NOT_FOUND`. -/
theorem findExecutable_missing_iff (hle : s.fileCache.length ≤ dirCacheSize)
    (hmissing : ∀ file ∈ s.fileCache, (s.files file).filename ≠ cString page.bytes nName) :
    (∀ null, s.findExecutable null (some page) = some (.error executableNotFound)) ↔
      s.fileCache.length = dirCacheSize := by
  constructor
  · intro hall
    refine Nat.le_antisymm hle (Nat.not_lt.mp fun hroom => ?_)
    have hnone := hall none
    simp only [findExecutable, findFile_follows_null hroom hmissing, Option.bind_eq_bind,
      Option.bind_none] at hnone
    cases hnone
  · intro hfull null
    simp only [findExecutable, findFile_full hfull hmissing, Option.bind_eq_bind,
      Option.bind_some]

/-- `open_file` of a missing file: the file is created. -/
theorem openFile_missing_iff {tid : ThreadId} {word : Nat}
    (hmode : word % 2 ^ 8 = oRdonly ∨ word % 2 ^ 8 = oRdwr ∨ word % 2 ^ 8 = oWronly)
    (hle : s.fileCache.length ≤ dirCacheSize)
    (hmissing : ∀ file ∈ s.fileCache,
      (s.files file).filename ≠ cString page.bytes maxPathLength) :
    (∀ null, s.openFile null tid [word] (some page) =
        some (s.createNfs (cString page.bytes maxPathLength) tid (word % 2 ^ 8)).1) ↔
      s.fileCache.length = dirCacheSize := by
  have hvalid : ¬ (word % 2 ^ 8 ≠ oRdonly ∧ word % 2 ^ 8 ≠ oRdwr ∧ word % 2 ^ 8 ≠ oWronly) := by
    rintro ⟨hrdonly, hrdwr, hwronly⟩
    rcases hmode with h | h | h
    · exact hrdonly h
    · exact hrdwr h
    · exact hwronly h
  -- Left to right, room in the cache makes the search read the null pointer of a free entry.
  constructor
  · intro hall
    refine Nat.le_antisymm hle (Nat.not_lt.mp fun hroom => ?_)
    have hnone := hall none
    simp only [openFile, if_neg hvalid, findFile_follows_null hroom hmissing,
      Option.bind_eq_bind, Option.bind_none] at hnone
    cases hnone
  -- Right to left, a full cache has no free entry to follow.
  · intro hfull null
    simp only [openFile, if_neg hvalid, findFile_full hfull hmissing, Option.bind_eq_bind,
      Option.bind_some]

/-- `find_file` is right, and follows no null pointer, exactly when the name is in the cache
or the cache is full. For a missing file, so are its three callers. -/
theorem find_file_iff (s : Io) (hle : s.fileCache.length ≤ dirCacheSize) :
    (∀ name, s.Finds name ↔
      (∃ file ∈ s.fileCache, (s.files file).filename = name) ∨
        s.fileCache.length = dirCacheSize) ∧
    (∀ page : IpcPage,
      (∀ file ∈ s.fileCache, (s.files file).filename ≠ cString page.bytes maxPathLength) →
      ((∀ null, s.statFile null [] (some page) = some (some [-1], none)) ↔
        s.fileCache.length = dirCacheSize) ∧
      ∀ tid word, word % 2 ^ 8 = oRdonly ∨ word % 2 ^ 8 = oRdwr ∨ word % 2 ^ 8 = oWronly →
        ((∀ null, s.openFile null tid [word] (some page) =
            some (s.createNfs (cString page.bytes maxPathLength) tid (word % 2 ^ 8)).1) ↔
          s.fileCache.length = dirCacheSize)) ∧
    (∀ page : IpcPage,
      (∀ file ∈ s.fileCache, (s.files file).filename ≠ cString page.bytes nName) →
      ((∀ null, s.findExecutable null (some page) = some (.error executableNotFound)) ↔
        s.fileCache.length = dirCacheSize)) := by
  refine ⟨fun name => finds_iff hle, fun page hmissing => ⟨statFile_missing_iff hle hmissing, ?_⟩,
    fun page hmissing => findExecutable_missing_iff hle hmissing⟩
  intro tid word hmode
  exact openFile_missing_iff hmode hle hmissing

end Io

namespace FileServer

/-- The name of a file. -/
def readme : List UInt8 := "readme".toUTF8.toList

/-- The swap file is created and two files are found, the second one first. -/
def threeFiles : List FileAction :=
  [.nfsReply 1 (listing [shell, readme]), .nfsReply 2 (okReply 0o600), .nfsReply 0 (okReply 0o600),
    .nfsReply 0 (okReply 0o700)]

/-- With the console in front the cache holds four files. The last one is found behind the
others. -/
theorem find_file_iff_threeFiles : ∃ s : FileServer,
    (machine none).Reachable Lib.Machine.anyStep s ∧
      s.io.fileCache.map (fun file => (s.io.files file).filename) =
        ["console".toUTF8.toList, readme, "swap".toUTF8.toList, shell] ∧ s.io.Finds shell := by
  obtain ⟨s, -, hreach, hnames⟩ := Lib.Machine.exists_run (machine none) Lib.Machine.anyStep
    booted_init threeFiles
    (fun s => s.io.fileCache.map (fun file => (s.io.files file).filename) =
      ["console".toUTF8.toList, readme, "swap".toUTF8.toList, shell]) (by decide +kernel)
  have hlength : s.io.fileCache.length = 4 := by
    have hfour := congrArg List.length hnames
    rwa [List.length_map] at hfour
  have hshell : ∃ file ∈ s.io.fileCache, (s.io.files file).filename = shell := by
    refine List.mem_map.mp ?_
    rw [hnames]
    exact List.mem_append_right [_, _, _] (List.mem_singleton_self shell)
  exact ⟨s, hreach, hnames,
    ((Io.find_file_iff s.io (by rw [hlength]; decide)).1 shell).mpr (Or.inl hshell)⟩

/-- After booting, `stat` of a file that does not exist follows the null pointer. -/
theorem missing_file_stops_server : ∃ s name, (machine none).Reachable Lib.Machine.anyStep s ∧
    s.io.fileCache.length ≤ dirCacheSize ∧ ¬ s.io.Finds name ∧
    s.io.statFile none [] (some (namedPage name)) = none := by
  have hfind : booted.io.findFile none shell = none := by decide +kernel
  refine ⟨booted, shell, ⟨booted, booted_init, .refl _⟩, by decide, ?_, by decide +kernel⟩
  rintro ⟨r, -, hr⟩
  rw [hr none] at hfind
  cases hfind

end FileServer

end Sos
