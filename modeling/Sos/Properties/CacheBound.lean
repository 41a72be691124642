import Sos.Files.Names

/-!
# `Sos.Properties.CacheBound`: the capacity of the file cache

`cache_never_full`: as long as no request is sent for a file for which there is no room left,
that is, in every run whose steps all meet `LeavesRoom`, `file_cache_insert` is never called
with a full cache, and every answer of the NFS server is handled. The condition counts the
files in the cache and the files whose requests have not been answered.

Nothing in the code counts them: `open_file` creates any number of files, and
`nfs_readdir_callback` limits each part of the listing but not their sum. After a step that
does not meet the condition, the NFS server can answer so that the assertion fails
(`full_of_excess`).
-/

set_option autoImplicit false

namespace Sos

namespace FileTables

variable {c c' : FileTables}

/-- There is room for what is requested. -/
structure Roomy (c : FileTables) (a : FileAction) : Prop where
  opens : ∀ p word page, a = .openFile p [word] (some page) →
    word % 2 ^ 8 = oRdonly ∨ word % 2 ^ 8 = oRdwr ∨ word % 2 ^ 8 = oWronly →
    (∀ file ∈ c.fileCache, c.filename file ≠ cString page.bytes maxPathLength) →
    c.fileCache.length + c.pending.length < dirCacheSize
  lists : ∀ k r cookie, a = .nfsReply k r → c.rpcs[k]? = some (.readdir cookie) →
    c.fileCache.length + c.pending.length + r.listed.length ≤ dirCacheSize

/-- A step that finds room leaves no more names than the cache has places. -/
theorem Roomy.outcome {a : FileAction} (hfiles : c.FilesOk) (hroomy : c.Roomy a)
    (h : c.names.length ≤ dirCacheSize) (ho : c.Outcome a c') :
    c'.names.length ≤ dirCacheSize := by
  have hchange := ho.namesChange hfiles
  generalize c'.names = names at hchange
  cases hchange with
  | kept hkept => exact Nat.le_trans hkept.length_le h
  | requested ha hmode hnew =>
      have hroom := hroomy.opens _ _ _ ha hmode hnew
      rw [List.length_append, names_length]
      exact hroom
  | listed ha hrpc =>
      rw [List.length_append, names_length]
      exact hroomy.lists _ _ _ ha hrpc

/-- Whatever happens, the cache does not hold more than it can. -/
theorem Outcome.cache_le {a : FileAction} (ho : c.Outcome a c')
    (h : c.fileCache.length ≤ dirCacheSize) : c'.fileCache.length ≤ dirCacheSize := by
  have hinsert (file : Nat) (hroom : c.fileCache.length < dirCacheSize) :
      (c.fileCache ++ [file]).length ≤ dirCacheSize := by
    rw [List.length_append]
    exact hroom
  -- Only two outcomes put a file into the cache, and both have checked for room.
  cases ho with
  | cached hrpc hfile hstatus hroom => exact hinsert _ hroom
  | created hrpc hstatus hroom => exact hinsert _ hroom
  | @listed k r cookie hrpc =>
      -- The lookups of a listing make requests, and the cache stays.
      have hfold : ∀ (names : List (List UInt8)) (c : FileTables),
          (names.foldl lookup c).fileCache = c.fileCache := by
        intro names
        induction names with
        | nil => exact fun _ => rfl
        | cons name names ih =>
            intro c
            rw [List.foldl_cons, ih]
            rfl
      rw [(follow_tables _ _).2.2.2.2.2, hfold]
      exact h
  | deleted hcloses =>
      show List.length (FileTables.fileCache _) ≤ _
      rw [hcloses.fileCache]
      exact h
  | _ => exact h

end FileTables

namespace FileServer

variable {null : Option (List UInt8)} {s s' : FileServer} {a : FileAction}

/-- The condition on a message: there is room in the cache for the files that are requested
and for those whose requests have not been answered. -/
def LeavesRoom (s : FileServer) : FileAction → Prop
  | .openFile _ [word] (some page) =>
    (word % 2 ^ 8 = oRdonly ∨ word % 2 ^ 8 = oRdwr ∨ word % 2 ^ 8 = oWronly) →
      (∀ file ∈ s.io.fileCache, s.tables.filename file ≠ cString page.bytes maxPathLength) →
      s.io.fileCache.length + s.tables.pending.length < dirCacheSize
  | .nfsReply k r =>
    (∃ rpc ∈ s.io.rpcs[k]?, rpc matches .readdir _) →
      s.io.fileCache.length + s.tables.pending.length + r.listed.length ≤ dirCacheSize
  | _ => True

instance (s : FileServer) (a : FileAction) : Decidable (s.LeavesRoom a) := by
  match a with
  | .openFile _ [_] (some _) => exact inferInstanceAs (Decidable (_ → _ → _))
  | .nfsReply .. => exact inferInstanceAs (Decidable (_ → _))
  | .openFile _ [_] none | .openFile _ [] _ | .openFile _ (_ :: _ :: _) _ | .readFile ..
  | .writeFile .. | .closeFile .. | .serialReceive _ | .createProcess .. | .deleteProcess _ =>
      exact inferInstanceAs (Decidable True)

/-- The condition on the server's state is one on its tables. -/
theorem LeavesRoom.roomy (h : s.LeavesRoom a) : s.tables.Roomy a where
  opens p word page ha hmode hnew := by
    subst ha
    exact h hmode hnew
  lists k r cookie ha hrpc := by
    subst ha
    exact h ⟨_, hrpc, rfl⟩

/-- The assertion of `file_cache_insert` holds when an answer arrives, and the server goes
on. -/
structure NeverFull (null : Option (List UInt8)) (s : FileServer) : Prop where
  room : ∀ rpc ∈ s.io.rpcs, ∀ file, rpc.file = some file → s.io.fileCache.length < dirCacheSize
  answers : ∀ k rpc file r, s.io.rpcs[k]? = some rpc → rpc.file = some file →
    ∃ s', (machine null).step s (.nfsReply k r) = some s'

/-- After booting the cache holds the console and the swap file is asked for. -/
theorem booted_names_length {c : FileTables} {heap : FileTableEntry} (h : Booted c heap) :
    c.names.length ≤ dirCacheSize := by
  rw [FileTables.names_length, FileTables.pending, h.fileCache, h.rpcs]
  decide

/-- By induction on the run: the names in the cache and those asked for fit into the cache. -/
theorem Reachable.names_le (h : (machine null).Reachable LeavesRoom s) :
    s.tables.names.length ≤ dirCacheSize := by
  have hall := h.invariant (fun s => s.tables.Wf ∧ s.tables.names.length ≤ dirCacheSize) ?_ ?_
  · exact hall.2
  · rintro s₀ ⟨rootThread, heap, hboot⟩
    have hbooted := boot_booted hboot
    exact ⟨hbooted.wf, booted_names_length hbooted⟩
  · rintro s₁ a s₂ ⟨hwf, hnames⟩ hok hs
    obtain ⟨ho, hwf'⟩ := step_wf hwf hs
    exact ⟨hwf', hok.roomy.outcome hwf.files hnames ho⟩

/-- An error is handled without the cache. -/
theorem step_errorReply {k file : Nat} {rpc : Rpc} {r : NfsReply}
    (hrpc : s.io.rpcs[k]? = some rpc) (hfile : rpc.file = some file) (herror : r.status ≠ .ok) :
    ∃ s', (machine null).step s (.nfsReply k r) = some s' := by
  rw [step_nfsReply hrpc]
  -- An answer that is an error sets the handle, and gets no further.
  cases rpc with
  | create file' =>
      rw [Io.callback, Io.nfsCreateCallback, Io.nfsCreateStatus]
      dsimp only
      split
      next hok => exact absurd hok herror
      next => exact ⟨_, rfl⟩
  | lookup file' =>
      rw [Io.callback, Io.nfsSetStatus]
      dsimp only
      split
      next hok => exact absurd hok herror
      next => exact ⟨_, rfl⟩
  | readdir | read | write => cases hfile

/-- The cache has room for every answer, in every run whose requests leave room. -/
theorem cache_never_full (h : (machine null).Reachable LeavesRoom s) : NeverFull null s := by
  have hnames := Reachable.names_le h
  rw [FileTables.names_length] at hnames
  -- The file of a request has its name among those that fit.
  have hroom : ∀ rpc ∈ s.io.rpcs, ∀ file, rpc.file = some file →
      s.io.fileCache.length < dirCacheSize := by
    intro rpc hmem file hfile
    have hpending : file ∈ s.tables.pending := List.mem_filterMap.mpr ⟨rpc, hmem, hfile⟩
    have hpos := List.length_pos_of_mem hpending
    have hcache : s.tables.fileCache.length = s.io.fileCache.length := rfl
    omega
  refine ⟨hroom, fun k rpc file r hrpc hfile => ?_⟩
  by_cases hok : r.status = .ok
  · obtain ⟨s', hstep, -⟩ : ∃ s', (machine null).step s _ = some s' ∧ _ :=
      step_okReply hrpc hfile hok (hroom rpc (List.mem_of_getElem? hrpc) file hfile)
    exact ⟨s', hstep⟩
  · exact step_errorReply hrpc hfile hok

/-! ### The condition is needed -/

/-- A request that does not meet the condition: there are too many files. -/
theorem excess_names (hwf : s.tables.Wf) (hexcess : ¬ s.LeavesRoom a)
    (h : (machine null).step s a = some s') : dirCacheSize < s'.tables.names.length := by
  unfold LeavesRoom at hexcess
  split at hexcess
  next p word page =>
    obtain ⟨hmode, hrest⟩ := Classical.not_imp.mp hexcess
    obtain ⟨huncached, hfull⟩ := Classical.not_imp.mp hrest
    rw [openFile_names hwf hmode huncached h, List.length_append, FileTables.names_length]
    exact Nat.lt_succ_of_le (Nat.not_lt.mp hfull)
  next k r =>
    obtain ⟨⟨rpc, hrpc, hreaddir⟩, hfull⟩ := Classical.not_imp.mp hexcess
    rw [readdir_names hwf hreaddir hrpc h, List.length_append, FileTables.names_length]
    exact Nat.not_le.mp hfull
  next => exact absurd trivial hexcess

/-- The answers fill the cache, and the next one stops the server. -/
theorem exists_full (hnames : dirCacheSize < s.tables.names.length)
    (hcache : s.io.fileCache.length ≤ dirCacheSize) :
    ∃ s' k, (machine null).Path Lib.Machine.anyStep s s' ∧
      s'.Enabled (.nfsReply k (okReply 0)) ∧
      (machine null).step s' (.nfsReply k (okReply 0)) = none := by
  obtain ⟨room, hroom⟩ := Nat.exists_eq_add_of_le hcache
  -- By induction on the room that is left in the cache.
  induction room generalizing s with
  -- The cache is full, and a file is still asked for: its answer stops the server.
  | zero =>
      rw [FileTables.names_length] at hnames
      have hlength : s.tables.fileCache.length = s.io.fileCache.length := rfl
      obtain ⟨file, hfile⟩ := List.exists_mem_of_length_pos
        (show 0 < s.tables.pending.length by omega)
      obtain ⟨rpc, hmem, hrpcfile⟩ := List.mem_filterMap.mp hfile
      obtain ⟨k, hrpc⟩ := List.mem_iff_getElem?.mp hmem
      exact ⟨s, k, .refl s, (List.getElem?_eq_some_iff.mp hrpc).1,
        step_okReply_full hrpc hrpcfile rfl (Nat.le_of_eq hroom)⟩
  | succ room ih =>
      have hsum := FileTables.names_length s.tables
      have hlength : s.tables.fileCache.length = s.io.fileCache.length := rfl
      obtain ⟨file, hfile⟩ := List.exists_mem_of_length_pos
        (show 0 < s.tables.pending.length by omega)
      -- With room left, the answer to some request takes one place of it.
      obtain ⟨k, s₁, hstep, hcached, hperm, -⟩ :
          ∃ k s₁, (machine null).step s _ = some s₁ ∧ _ := step_cached hfile (by omega)
      have hsum₁ := FileTables.names_length s₁.tables
      have hlength₁ : s₁.tables.fileCache.length = s₁.io.fileCache.length := rfl
      have hpending := hperm.length_eq
      rw [List.length_cons] at hpending
      have hgrown : s₁.io.fileCache.length = s.io.fileCache.length + 1 := by
        rw [hcached, List.length_append]
        rfl
      obtain ⟨s₂, k₂, hpath, hrest⟩ := ih (s := s₁) (by omega) (by omega) (by omega)
      exact ⟨s₂, k₂, (Lib.Machine.Path.step (.refl s) trivial hstep).trans hpath, hrest⟩

/-- After a request that does not meet the condition, the NFS server can answer so that the
assertion of `file_cache_insert` fails. -/
theorem full_of_excess (hreach : (machine null).Reachable LeavesRoom s)
    (hexcess : ¬ s.LeavesRoom a) (h : (machine null).step s a = some s') :
    ∃ s'' k, (machine null).Path Lib.Machine.anyStep s' s'' ∧
      s''.Enabled (.nfsReply k (okReply 0)) ∧
      (machine null).step s'' (.nfsReply k (okReply 0)) = none := by
  have hwf := Reachable.wf hreach
  have hnames := Reachable.names_le hreach
  rw [FileTables.names_length] at hnames
  refine exists_full (excess_names hwf hexcess h) ((step_wf hwf h).1.cache_le ?_)
  exact Nat.le_trans (Nat.le_add_right _ _) hnames

/-! ### A large directory -/

/-- A file of the directory: two letters, another one for each of 256 numbers. -/
def fileName (i : Nat) : List UInt8 := [UInt8.ofNat (65 + i / 16), UInt8.ofNat (65 + i % 16)]

/-- A part of the listing: `n` files from the `i`-th one on, with a cookie for the next part. -/
def filesPart (i n : Nat) : NfsReply :=
  { listing ((List.range n).map fun j => fileName (i + j)) with nextCookie := i + n }

/-- The swap file is created, and 254 files are listed, two in each part. The lookups of a part
are answered before the next part arrives, so that there are never more than three requests. -/
def fullListing : List FileAction :=
  .nfsReply 0 (okReply 0o600) :: (List.range 127).flatMap fun k =>
    [.nfsReply 0 (filesPart (2 * k) 2), .nfsReply 0 (okReply 0o600), .nfsReply 0 (okReply 0o600)]

/-- With the console, this is as many files as fit. -/
theorem cache_never_full_listed : ∃ s : FileServer,
    s.io.fileCache.length = dirCacheSize ∧ NeverFull none s := by
  obtain ⟨s, -, hreach, hcache⟩ := Lib.Machine.exists_run (machine none) LeavesRoom booted_init
    fullListing (fun s => s.io.fileCache.length = dirCacheSize) (by decide +kernel)
  exact ⟨s, hcache, cache_never_full hreach⟩

/-- The directory has one file more. The answer to its lookup stops the server. -/
theorem cache_overflows : ∃ s, (machine none).Reachable Lib.Machine.anyStep s ∧
    s.Enabled (.nfsReply 0 (okReply 0o600)) ∧
    (machine none).step s (.nfsReply 0 (okReply 0o600)) = none := by
  obtain ⟨s, -, hreach, hen, hstep⟩ := Lib.Machine.exists_run (machine none)
    Lib.Machine.anyStep booted_init (fullListing ++ [.nfsReply 0 (filesPart 254 1)])
    (fun s => s.Enabled (.nfsReply 0 (okReply 0o600)) ∧
      ((machine none).step s (.nfsReply 0 (okReply 0o600))).isNone = true) (by decide +kernel)
  exact ⟨s, hreach, hen, Option.isNone_iff_eq_none.mp hstep⟩

end FileServer

end Sos
