import Sos.Files.Names

/-!
# `Sos.Properties.FileCache`: one entry for each name

`one_entry_per_name`: the names of the files in the cache are pairwise different as long as
no file is requested under a name that is already in the cache or has been requested, that
is, in every run whose steps all meet `FreshNames`. Then all descriptors for a name are for
the same file, and `stat_file` finds what `get_dirent` has listed.

The condition is about the moment of the request, because a file enters the cache only when
the request is answered, and nothing looks at the cache again then. `FreshNames` excludes
nothing else: after a step that does not meet it, two answers of the NFS server lead to two
files with the same name (`duplicate_of_stale`). The run in `two_entries` is two processes
that open the same new file.
-/

set_option autoImplicit false

namespace Sos

namespace FileTables

variable {c c' : FileTables}

/-- The names are pairwise different, and they are strings that fit in a path. -/
structure NamesOk (c : FileTables) : Prop where
  nodup : c.names.Nodup
  valid : ∀ name ∈ c.names, 0 ∉ name ∧ name.length ≤ maxPathLength

/-- No file is requested under a name that is known. -/
structure Fresh (c : FileTables) (a : FileAction) : Prop where
  opens : ∀ p word page, a = .openFile p [word] (some page) →
    word % 2 ^ 8 = oRdonly ∨ word % 2 ^ 8 = oRdwr ∨ word % 2 ^ 8 = oWronly →
    cString page.bytes maxPathLength ∉ c.pending.map c.filename
  lists : ∀ k r cookie, a = .nfsReply k r → c.rpcs[k]? = some (.readdir cookie) →
    (c.names ++ r.listed).Nodup

/-! ### One message -/

/-- A name of the listing that is used ends within `MAX_PATH_LENGTH`. -/
theorem listedName_valid {name filename : List UInt8} (h : listedName name = some filename) :
    0 ∉ filename ∧ filename.length ≤ maxPathLength := by
  unfold listedName at h
  split at h
  next hlength =>
    dsimp only at h
    split at h
    · cases h
      constructor
      · intro hzero
        have hne := List.all_eq_true.mp List.all_takeWhile 0 hzero
        simp at hne
      · have hle := (List.takeWhile_sublist (p := (· ≠ 0)) (l := name)).length_le
        omega
    · cases h
  next => cases h

/-- A string that is read from memory has no zero and is not longer than it may be. -/
theorem cString_valid (bytes : Nat → UInt8) (n : Nat) :
    0 ∉ cString bytes n ∧ (cString bytes n).length ≤ n := by
  unfold cString
  constructor
  · intro hzero
    have hne := List.all_eq_true.mp List.all_takeWhile 0 hzero
    simp at hne
  · refine Nat.le_trans (List.takeWhile_sublist _).length_le ?_
    rw [List.length_map, List.length_range]

/-- So are all names that a part of the listing brings. -/
theorem listed_valid {r : NfsReply} {name : List UInt8} (h : name ∈ r.listed) :
    0 ∉ name ∧ name.length ≤ maxPathLength := by
  obtain ⟨entry, -, hname⟩ := List.mem_filterMap.mp h
  exact listedName_valid hname

/-- Names are taken from an IPC page or from a listing, which cut them off. -/
theorem Outcome.names_valid {a : FileAction} (ho : c.Outcome a c') (hfiles : c.FilesOk)
    (h : ∀ name ∈ c.names, 0 ∉ name ∧ name.length ≤ maxPathLength) :
    ∀ name ∈ c'.names, 0 ∉ name ∧ name.length ≤ maxPathLength := by
  have hchange := ho.namesChange hfiles
  generalize c'.names = names at hchange
  cases hchange with
  | kept hkept => exact fun name hname => h name (hkept.subset hname)
  | requested =>
      intro name hname
      rcases List.mem_append.mp hname with hold | hlast
      · exact h name hold
      · exact List.mem_singleton.mp hlast ▸ cString_valid _ _
  | listed =>
      intro name hname
      rcases List.mem_append.mp hname with hold | hnew
      · exact h name hold
      · exact listed_valid hnew

/-- A step whose names are fresh keeps the names apart, by cases on what it adds. -/
theorem NamesOk.outcome {a : FileAction} (h : c.NamesOk) (hfiles : c.FilesOk) (hfresh : c.Fresh a)
    (ho : c.Outcome a c') : c'.NamesOk := by
  have hchange := ho.namesChange hfiles
  generalize hnames : c'.names = names at hchange
  refine ⟨?_, ?_⟩
  · rw [hnames]
    -- A step adds no name, one that is fresh, or those of a listing that are fresh.
    cases hchange with
    | kept hkept =>
        obtain ⟨l, hperm, hsublist⟩ := hkept
        exact hperm.nodup (h.nodup.sublist hsublist)
    | requested ha hmode hnew =>
        refine List.nodup_append.mpr ⟨h.nodup, List.nodup_singleton _, ?_⟩
        -- The new name is neither in the cache nor pending.
        rintro name hname _ hlast rfl
        obtain ⟨file, hfile, he⟩ := List.mem_map.mp (List.mem_singleton.mp hlast ▸ hname)
        rcases List.mem_append.mp hfile with hcached | hpending
        · exact hnew file hcached he
        · exact hfresh.opens _ _ _ ha hmode (List.mem_map.mpr ⟨file, hpending, he⟩)
    | listed ha hrpc => exact hfresh.lists _ _ _ ha hrpc
  · exact ho.names_valid hfiles h.valid

end FileTables

namespace FileServer

variable {null : Option (List UInt8)} {s s' : FileServer} {a : FileAction}

/-- The condition on a message: a process opens no file whose creation has not been answered,
and a part of the listing has new names only. -/
def FreshNames (s : FileServer) : FileAction → Prop
  | .openFile _ [word] (some page) =>
    (word % 2 ^ 8 = oRdonly ∨ word % 2 ^ 8 = oRdwr ∨ word % 2 ^ 8 = oWronly) →
      cString page.bytes maxPathLength ∉ s.tables.pending.map s.tables.filename
  | .nfsReply k r =>
    (∃ rpc ∈ s.io.rpcs[k]?, rpc matches .readdir _) → (s.tables.names ++ r.listed).Nodup
  | _ => True

instance (s : FileServer) (a : FileAction) : Decidable (s.FreshNames a) := by
  match a with
  | .nfsReply .. => exact inferInstanceAs (Decidable (_ → _))
  | .openFile _ [_] (some _) => exact inferInstanceAs (Decidable (_ → _ ∉ _))
  | .openFile _ [_] none | .openFile _ [] _ | .openFile _ (_ :: _ :: _) _ | .readFile ..
  | .writeFile .. | .closeFile .. | .serialReceive _ | .createProcess .. | .deleteProcess _ =>
      exact inferInstanceAs (Decidable True)

/-- The condition on the server's state is one on its tables. -/
theorem FreshNames.fresh (h : s.FreshNames a) : s.tables.Fresh a where
  opens p word page ha hmode := by
    subst ha
    exact h hmode
  lists k r cookie ha hrpc := by
    subst ha
    exact h ⟨_, hrpc, rfl⟩

/-- A page that holds a string. -/
def Holds (page : IpcPage) (name : List UInt8) : Prop :=
  ∀ i ≤ name.length, page.bytes i = name.getD i 0

/-- One entry of the cache for each name. -/
structure OneEntryPerName (null : Option (List UInt8)) (s : FileServer) : Prop where
  names : (s.io.fileCache.map s.tables.filename).Nodup
  /-- Descriptors for one name share the `file_info`. -/
  shared : ∀ p fd e f file p' fd' e' f' file', 1 ≤ p → s.isActive p = true →
    s.tables.Slot p fd e → s.io.entries e = some f → f.file = some file →
    1 ≤ p' → s.isActive p' = true → s.tables.Slot p' fd' e' → s.io.entries e' = some f' →
    f'.file = some file' → s.tables.filename file = s.tables.filename file' → file = file'
  /-- What `get_dirent` returns for a position, `stat_file` finds there. -/
  listed : ∀ pos file page, s.io.fileCache[pos]? = some file →
    s.io.getDirent [pos] (some page) =
      some (some [((s.tables.filename file).length : Int)], some (s.tables.filename file)) ∧
    ∀ page', Holds page' (s.tables.filename file) →
      s.io.statFile null [] (some page') = some (some [0], some (s.io.files file).status)

/-- The name that a page holds is the name that is read from it. -/
theorem cString_of_holds {page : IpcPage} {name : List UInt8} (h : Holds page name)
    (hvalid : 0 ∉ name ∧ name.length ≤ maxPathLength) :
    cString page.bytes maxPathLength = name := by
  obtain ⟨rest, hrest⟩ := Nat.exists_eq_add_of_le hvalid.2
  have hstart : (List.range name.length).map page.bytes = name := by
    refine List.ext_getElem (by rw [List.length_map, List.length_range]) fun i hi hi' => ?_
    rw [List.getElem_map, List.getElem_range, h i (Nat.le_of_lt hi'), List.getD_eq_getElem _ _ hi']
  have hnonzero : ∀ c ∈ name, decide (c ≠ 0) = true := by
    intro c hc
    exact decide_eq_true fun he => hvalid.1 (he ▸ hc)
  rw [cString, hrest, List.range_add, List.map_append, hstart,
    List.takeWhile_append_of_pos hnonzero]
  -- The string ends where the page has a zero, or after all characters.
  cases rest with
  | zero => exact List.append_nil _
  | succ rest =>
      have hzero : page.bytes (name.length + 0) = 0 := by
        rw [Nat.add_zero, h name.length (Nat.le_refl _),
          List.getD_eq_default _ _ (Nat.le_refl _)]
      rw [List.range_succ_eq_map, List.map_cons, List.map_cons, hzero]
      exact List.append_nil _

/-- A file in a cache without doubled names is found by its name. -/
theorem findFile_cached {io : Io} {pos file : Nat}
    (hnodup : (io.fileCache.map fun file => (io.files file).filename).Nodup)
    (hpos : io.fileCache[pos]? = some file) :
    io.findFile null (io.files file).filename = some (some pos) := by
  obtain ⟨hlt, hget⟩ := List.getElem?_eq_some_iff.mp hpos
  have hfind : (io.fileCache.findIdx? fun file' =>
      (io.files file').filename = (io.files file).filename) = some pos := by
    refine List.findIdx?_eq_some_iff_getElem.mpr ⟨hlt, ?_, ?_⟩
    · rw [hget]
      exact decide_eq_true rfl
    · intro j hj hsame
      have hnames := of_decide_eq_true hsame
      rw [← hget] at hnames
      have hfiles := List.inj_on_of_nodup_map hnodup (List.getElem_mem _) (List.getElem_mem _) hnames
      exact absurd ((hnodup.of_map _).getElem_inj_iff.mp hfiles) (Nat.ne_of_lt hj)
  unfold Io.findFile
  rw [hfind]

/-- After booting there are two names, the console's and the swap file's. -/
theorem booted_names {c : FileTables} {heap : FileTableEntry} (h : Booted c heap) :
    c.NamesOk := by
  have hnames : c.names = [consoleName, "swap".toUTF8.toList] := by
    show (c.fileCache ++ c.rpcs.filterMap Rpc.file).map c.filename = _
    rw [h.fileCache, h.rpcs]
    show [(c.files consoleFile).filename, (c.files 1).filename] = _
    rw [h.console.2.2.2.2, h.swap.2.2.2]
  constructor
  case nodup =>
    rw [hnames]
    decide +kernel
  case valid =>
    rw [hnames]
    decide +kernel

/-- In every run the names are no longer than a path. -/
theorem Reachable.names_valid (h : (machine null).Reachable Lib.Machine.anyStep s) :
    ∀ name ∈ s.tables.names, 0 ∉ name ∧ name.length ≤ maxPathLength := by
  have hall := h.invariant (fun s => s.tables.Wf ∧
    ∀ name ∈ s.tables.names, 0 ∉ name ∧ name.length ≤ maxPathLength) ?_ ?_
  · exact hall.2
  · rintro s₀ ⟨rootThread, heap, hboot⟩
    have hbooted := boot_booted hboot
    exact ⟨hbooted.wf, (booted_names hbooted).valid⟩
  · rintro s₁ a s₂ ⟨hwf, hvalid⟩ - hs
    obtain ⟨ho, hwf'⟩ := step_wf hwf hs
    exact ⟨hwf', ho.names_valid hwf.files hvalid⟩

/-- By induction on the run. -/
theorem Reachable.names (h : (machine null).Reachable FreshNames s) : s.tables.NamesOk := by
  have hall := h.invariant (fun s => s.tables.Wf ∧ s.tables.NamesOk) ?_ ?_
  · exact hall.2
  · rintro s₀ ⟨rootThread, heap, hboot⟩
    have hbooted := boot_booted hboot
    exact ⟨hbooted.wf, booted_names hbooted⟩
  · rintro s₁ a s₂ ⟨hwf, hnames⟩ hok hs
    obtain ⟨ho, hwf'⟩ := step_wf hwf hs
    exact ⟨hwf', hnames.outcome hwf.files hok.fresh ho⟩

/-- One entry for each name, in every run whose requests are for new names. -/
theorem one_entry_per_name (h : (machine null).Reachable FreshNames s) :
    OneEntryPerName null s := by
  have hwf := Reachable.wf h
  have hnames := Reachable.names h
  -- Names in the cache are some of those that are different.
  have hcache : (s.io.fileCache.map s.tables.filename).Nodup := by
    have hall : ((s.tables.fileCache ++ s.tables.pending).map s.tables.filename).Nodup :=
      hnames.nodup
    rw [List.map_append] at hall
    exact (List.nodup_append.mp hall).1
  -- Different names in the cache make the two other parts.
  constructor
  case names => exact hcache
  case shared =>
    -- Two descriptors with files of one name have the same file.
    intro p fd e f file p' fd' e' f' file' hpos hp hslot hf hfile hpos' hp' hslot' hf' hfile' hname
    obtain ⟨g, hg, hgfile, -⟩ := (hwf.handles p fd e f hpos hp hslot hf).file
    obtain ⟨g', hg', hgfile', -⟩ := (hwf.handles p' fd' e' f' hpos' hp' hslot' hf').file
    obtain rfl : g = file := Option.some.inj (hgfile.symm.trans hfile)
    obtain rfl : g' = file' := Option.some.inj (hgfile'.symm.trans hfile')
    exact List.inj_on_of_nodup_map hcache hg hg' hname
  -- A file in the cache is listed at its place and found there by name.
  case listed =>
    intro pos file page hpos
    obtain ⟨hlt, -⟩ := List.getElem?_eq_some_iff.mp hpos
    have hvalid := hnames.valid (s.tables.filename file) (List.mem_map.mpr
      ⟨file, List.mem_append_left _ (List.mem_of_getElem? hpos), rfl⟩)
    constructor
    · unfold Io.getDirent
      dsimp only
      rw [if_neg (Nat.ne_of_lt hlt), if_neg (Nat.not_lt.mpr (Nat.le_of_lt hlt)), hpos]
      rfl
    · intro page' hholds
      have hfind : s.io.findFile null (s.tables.filename file) = some (some pos) :=
        findFile_cached hcache hpos
      unfold Io.statFile
      dsimp only
      rw [cString_of_holds hholds hvalid, hfind, Option.bind_eq_bind, Option.bind_some]
      dsimp only
      rw [hpos]
      rfl

/-! ### The condition is needed -/

/-- A request that does not meet the condition: a name is known twice. -/
theorem stale_names (hwf : s.tables.Wf) (hnames : s.tables.NamesOk) (hstale : ¬ s.FreshNames a)
    (h : (machine null).step s a = some s') : ¬ s'.tables.names.Nodup := by
  unfold FreshNames at hstale
  split at hstale
  next p word page =>
    obtain ⟨hmode, hpending⟩ := Classical.not_imp.mp hstale
    have hknown : cString page.bytes maxPathLength ∈ s.tables.pending.map s.tables.filename :=
      not_not.mp hpending
    -- The name is not in the cache, since it is pending.
    have huncached : ∀ file ∈ s.io.fileCache,
        s.tables.filename file ≠ cString page.bytes maxPathLength := by
      intro file hfile he
      have hall : ((s.tables.fileCache ++ s.tables.pending).map s.tables.filename).Nodup :=
        hnames.nodup
      rw [List.map_append] at hall
      exact (List.nodup_append.mp hall).2.2 _ (List.mem_map.mpr ⟨file, hfile, he⟩) _ hknown rfl
    have hmem : cString page.bytes maxPathLength ∈ s.tables.names := by
      rw [FileTables.names, List.map_append]
      exact List.mem_append_right _ hknown
    rw [openFile_names hwf hmode huncached h]
    intro hnodup
    exact (List.nodup_append.mp hnodup).2.2 _ hmem _ (List.mem_singleton.mpr rfl) rfl
  next k r =>
    obtain ⟨⟨rpc, hrpc, hreaddir⟩, hdup⟩ := Classical.not_imp.mp hstale
    rw [readdir_names hwf hreaddir hrpc h]
    exact hdup
  next => exact absurd trivial hstale

/-- A known file is in the cache after at most one answer. -/
theorem exists_cached {file : Nat} (hknown : file ∈ s.tables.fileCache ++ s.tables.pending)
    (hroom : s.io.fileCache.length < dirCacheSize) :
    ∃ s', (machine null).Path Lib.Machine.anyStep s s' ∧ file ∈ s'.io.fileCache ∧
      (s.tables.fileCache ++ s.tables.pending) ⊆ s'.tables.fileCache ++ s'.tables.pending ∧
      s.io.fileCache ⊆ s'.io.fileCache ∧
      s'.io.fileCache.length ≤ s.io.fileCache.length + 1 ∧
      s'.tables.filename = s.tables.filename := by
  -- The file is in the cache already, or the answer to its request puts it there.
  rcases List.mem_append.mp hknown with hcached | hpending
  · exact ⟨s, .refl s, hcached, List.Subset.refl _, List.Subset.refl _, Nat.le_succ _, rfl⟩
  · obtain ⟨k, s', hstep, hcache, hperm, hname⟩ :
        ∃ k s', (machine null).step s _ = some s' ∧ _ := step_cached hpending hroom
    refine ⟨s', .step (.refl s) trivial hstep, ?_, ?_, ?_, ?_, funext hname⟩
    · rw [hcache]
      exact List.mem_append_right _ (List.mem_singleton.mpr rfl)
    -- What was in the cache or asked for still is.
    · show s.io.fileCache ++ _ ⊆ s'.io.fileCache ++ _
      rw [hcache, List.append_assoc]
      intro file' hmem
      rcases List.mem_append.mp hmem with hold | hother
      · exact List.mem_append_left _ hold
      · exact List.mem_append_right _ (hperm.subset hother)
    · rw [hcache]
      exact List.subset_append_left _ _
    · rw [hcache, List.length_append]
      exact Nat.le_refl _

/-- After a request that does not meet the condition, the answers of the NFS server lead to a
state with a name twice in the cache, if there is room for two more files. -/
theorem duplicate_of_stale (hreach : (machine null).Reachable FreshNames s)
    (hstale : ¬ s.FreshNames a) (h : (machine null).step s a = some s')
    (hroom : s'.io.fileCache.length + 2 ≤ dirCacheSize) :
    ∃ s'', (machine null).Path Lib.Machine.anyStep s' s'' ∧
      ¬ (s''.io.fileCache.map s''.tables.filename).Nodup := by
  have hwf := Reachable.wf hreach
  have hwf' := (step_wf hwf h).2
  have hdup := stale_names hwf (Reachable.names hreach) hstale h
  -- Two known files have the same name.
  obtain ⟨f, hf, g, hg, hsame, hne⟩ : ∃ f ∈ s'.tables.fileCache ++ s'.tables.pending,
      ∃ g ∈ s'.tables.fileCache ++ s'.tables.pending,
        s'.tables.filename f = s'.tables.filename g ∧ f ≠ g := by
    by_contra hno
    push Not at hno
    exact hdup (hwf'.files.nodup.map_on hno)
  obtain ⟨s₁, hpath₁, hf₁, hknown, -, hlength, hname₁⟩ :
      ∃ s₁, (machine null).Path Lib.Machine.anyStep s' s₁ ∧ _ := exists_cached hf (by omega)
  obtain ⟨s₂, hpath₂, hg₂, -, hkept, -, hname₂⟩ :
      ∃ s₂, (machine null).Path Lib.Machine.anyStep s₁ s₂ ∧ _ :=
    exists_cached (hknown hg) (by omega)
  refine ⟨s₂, hpath₁.trans hpath₂, fun hnodup => hne ?_⟩
  refine List.inj_on_of_nodup_map hnodup (hkept hf₁) hg₂ ?_
  rw [hname₂, hname₁, hsame]

/-- A new file. -/
def notes : List UInt8 := "notes".toUTF8.toList

/-- A process creates a file. -/
theorem one_entry_per_name_created : ∃ s : FileServer,
    s.io.fileCache.length = 3 ∧ OneEntryPerName (some []) s := by
  obtain ⟨s, -, hreach, hlength⟩ := Lib.Machine.exists_run (machine (some [])) FreshNames
    booted_init (startup ++ [.openFile 1 [oRdwr] (some (namedPage notes)),
      .nfsReply 1 (okReply 0o700)])
    (fun s => s.io.fileCache.length = 3) (by decide +kernel)
  exact ⟨s, hlength, one_entry_per_name hreach⟩

/-- Two processes open the same new file, and both requests are answered. -/
theorem two_entries : ∃ s : FileServer,
    (machine (some [])).Reachable Lib.Machine.anyStep s ∧ ¬ OneEntryPerName (some []) s := by
  obtain ⟨s, -, hreach, hnames⟩ := Lib.Machine.exists_run (machine (some [])) Lib.Machine.anyStep
    booted_init (startup ++ [.createProcess 2 (some (namedPage shell)) zeroedEntry,
      .openFile 1 [oRdwr] (some (namedPage notes)), .openFile 2 [oRdwr] (some (namedPage notes)),
      .nfsReply 1 (okReply 0o700), .nfsReply 1 (okReply 0o700)])
    (fun s => ¬ (s.io.fileCache.map s.tables.filename).Nodup) (by decide +kernel)
  exact ⟨s, hreach, fun h => hnames h.names⟩

end FileServer

end Sos
