import Sos.Files.Reachable

/-!
# `Sos.Files.Answers`: what the NFS server can make of the outstanding requests

A file whose creation or lookup has not been answered enters the cache when the answer is
`NFS_OK` (`step_okReply`), unless the cache is full: then `file_cache_insert` stops the server
(`step_okReply_full`). The NFS server can answer in any order, so that every pending file can
enter the cache next.
-/

set_option autoImplicit false

namespace Sos

/-- An update that keeps the name of one file keeps the names of all. -/
theorem filename_update {files : Nat → FileInfo} {file file' : Nat} {i : FileInfo}
    (hname : i.filename = (files file).filename) :
    (Function.update files file i file').filename = (files file').filename := by
  by_cases he : file' = file
  · subst he
    rw [Function.update_self, hname]
  · rw [Function.update_of_ne he]

/-- `io'` has one more file in the cache, under the same names. -/
structure Cached (io io' : Io) (file : Nat) : Prop where
  fileCache : io'.fileCache = io.fileCache ++ [file]
  rpcs : io'.rpcs = io.rpcs
  filename : ∀ file', (io'.files file').filename = (io.files file').filename

namespace Io

variable {isActive : Nat → Bool} {s : Io} {file : Nat} {r : NfsReply}

/-- The insertion, after changes that keep the cache and the names. -/
theorem fileCacheInsert_ok {s₁ : Io} (hcache : s₁.fileCache = s.fileCache)
    (hrpcs : s₁.rpcs = s.rpcs)
    (hname : ∀ file', (s₁.files file').filename = (s.files file').filename)
    (hroom : s.fileCache.length < dirCacheSize) :
    ∃ s', s₁.fileCacheInsert file = some s' ∧ Cached s s' file := by
  unfold fileCacheInsert
  rw [hcache, if_pos hroom]
  refine ⟨_, rfl, ?_, hrpcs, fun file' => ?_⟩
  · show s₁.fileCache ++ [file] = _
    rw [hcache]
  · rw [← hname file']
    exact filename_update rfl

variable (file) in
/-- The answer to a lookup puts the file into the cache if there is room. -/
theorem nfsSetStatus_ok (hok : r.status = .ok) (hroom : s.fileCache.length < dirCacheSize) :
    ∃ s', s.nfsSetStatus file r = some s' ∧ Cached s s' file := by
  unfold nfsSetStatus
  dsimp only
  rw [hok]
  refine fileCacheInsert_ok rfl rfl (fun file' => ?_) hroom
  have hhandle : ((s.updateFile file fun f => { f with nfsHandle := r.handle }).files
      file').filename = (s.files file').filename := filename_update rfl
  rw [← hhandle]
  exact filename_update rfl

/-- With a full cache `create_file_descriptor` follows its assertion, and the server stops. -/
theorem nfsSetStatus_full (hok : r.status = .ok) (hfull : dirCacheSize ≤ s.fileCache.length) :
    s.nfsSetStatus file r = none := by
  unfold nfsSetStatus
  dsimp only
  rw [hok]
  exact if_neg (Nat.not_lt.mpr hfull)

/-- `open_nfs` takes a descriptor and leaves the cache and the requests alone. -/
theorem openNfs_cache (s : Io) (file : Nat) (t : ThreadId) (mode : Nat) :
    (s.openNfs file t mode).fileCache = s.fileCache ∧ (s.openNfs file t mode).rpcs = s.rpcs ∧
      (s.openNfs file t mode).files = s.files := by
  unfold openNfs
  split
  · exact ⟨rfl, rfl, rfl⟩
  · split
    · exact ⟨rfl, rfl, rfl⟩
    · exact ⟨rfl, rfl, rfl⟩

variable (isActive file) in
/-- The answer to a creation puts the file into the cache if there is room. -/
theorem nfsCreateCallback_ok (hok : r.status = .ok) (hroom : s.fileCache.length < dirCacheSize) :
    ∃ s', s.nfsCreateCallback isActive file r = some s' ∧ Cached s s' file := by
  obtain ⟨s₁, hset, hcached⟩ := nfsSetStatus_ok file hok hroom
  unfold nfsCreateCallback nfsCreateStatus
  dsimp only
  rw [hok]
  dsimp only
  rw [hset, Option.bind_eq_bind, Option.bind_some, Option.bind_some]
  -- What the client is told does not matter for the cache: it may be gone, or get a descriptor.
  refine ⟨_, rfl, ?_, ?_, fun file' => ?_⟩
  · show (ite _ _ _ : Io).fileCache = _
    split
    · rw [(openNfs_cache ..).1, hcached.fileCache]
    · exact hcached.fileCache
  · show (ite _ _ _ : Io).rpcs = _
    split
    · rw [(openNfs_cache ..).2.1, hcached.rpcs]
    · exact hcached.rpcs
  · rw [← hcached.filename file']
    split
    · refine Eq.trans (filename_update rfl) ?_
      rw [(openNfs_cache ..).2.2]
    · exact filename_update rfl

end Io

namespace FileServer

variable {null : Option (List UInt8)} {s : FileServer} {k file : Nat} {rpc : Rpc} {r : NfsReply}

/-- What the answer of a request runs. -/
theorem step_nfsReply (hrpc : s.io.rpcs[k]? = some rpc) :
    (machine null).step s (.nfsReply k r) =
      ({ s.io.cleared with rpcs := s.io.rpcs.eraseIdx k }.callback s.isActive rpc r).map
        ({ s with io := · }) := by
  obtain ⟨hk, -⟩ := List.getElem?_eq_some_iff.mp hrpc
  have hcleared : s.io.cleared.rpcs[k]? = some rpc := hrpc
  show (if k < s.io.rpcs.length then (s.io.cleared.nfsReply s.isActive k r).map _ else none) = _
  rw [if_pos hk, Io.nfsReply, hcleared, Option.bind_eq_bind, Option.bind_some]
  rfl

/-- The answer `NFS_OK` for a file: it enters the cache. -/
theorem step_okReply (hrpc : s.io.rpcs[k]? = some rpc) (hfile : rpc.file = some file)
    (hok : r.status = .ok) (hroom : s.io.fileCache.length < dirCacheSize) :
    ∃ s', (machine null).step s (.nfsReply k r) = some s' ∧
      Cached { s.io with rpcs := s.io.rpcs.eraseIdx k } s'.io file := by
  rw [step_nfsReply hrpc]
  -- Only creations and lookups are for a file; both end in `nfs_set_status`.
  cases rpc with
  | create file' =>
      obtain rfl : file' = file := Option.some.inj hfile
      obtain ⟨io, hio, hcached⟩ := Io.nfsCreateCallback_ok s.isActive file'
        (s := { s.io.cleared with rpcs := s.io.rpcs.eraseIdx k }) hok hroom
      refine ⟨{ s with io := io }, ?_, hcached.fileCache, hcached.rpcs, hcached.filename⟩
      rw [Io.callback, hio, Option.map_some]
  | lookup file' =>
      obtain rfl : file' = file := Option.some.inj hfile
      obtain ⟨io, hio, hcached⟩ := Io.nfsSetStatus_ok file'
        (s := { s.io.cleared with rpcs := s.io.rpcs.eraseIdx k }) hok hroom
      refine ⟨{ s with io := io }, ?_, hcached.fileCache, hcached.rpcs, hcached.filename⟩
      rw [Io.callback, hio, Option.map_some]
  | readdir | read | write => cases hfile

/-- The same answer when the cache is full: the assertion fails. -/
theorem step_okReply_full (hrpc : s.io.rpcs[k]? = some rpc) (hfile : rpc.file = some file)
    (hok : r.status = .ok) (hfull : dirCacheSize ≤ s.io.fileCache.length) :
    (machine null).step s (.nfsReply k r) = none := by
  have hnone (file' : Nat) :
      ({ s.io.cleared with rpcs := s.io.rpcs.eraseIdx k } : Io).nfsSetStatus file' r = none :=
    Io.nfsSetStatus_full hok hfull
  rw [step_nfsReply hrpc]
  -- The callback of either gets to `file_cache_insert`, whose assertion fails.
  cases rpc with
  | create file' =>
      rw [Io.callback, Io.nfsCreateCallback, Io.nfsCreateStatus]
      dsimp only
      rw [hok]
      dsimp only
      rw [hnone]
      rfl
  | lookup file' =>
      rw [Io.callback]
      dsimp only
      rw [hnone]
      rfl
  | readdir | read | write => cases hfile

/-! ### Any pending file can be the next -/

/-- A pending file enters the cache. -/
theorem step_cached (hfile : file ∈ s.tables.pending)
    (hroom : s.io.fileCache.length < dirCacheSize) :
    ∃ k s', (machine null).step s (.nfsReply k (okReply 0)) = some s' ∧
      s'.io.fileCache = s.io.fileCache ++ [file] ∧
      s.tables.pending.Perm (file :: s'.tables.pending) ∧
      ∀ file', (s'.io.files file').filename = (s.io.files file').filename := by
  obtain ⟨rpc, hmem, hrpcfile⟩ := List.mem_filterMap.mp hfile
  obtain ⟨k, hrpc⟩ := List.mem_iff_getElem?.mp hmem
  obtain ⟨s', hstep, hcached⟩ : ∃ s', (machine null).step s _ = some s' ∧ _ :=
    step_okReply (r := okReply 0) hrpc hrpcfile rfl hroom
  refine ⟨k, s', hstep, hcached.fileCache, ?_, hcached.filename⟩
  have hpending : s'.tables.pending = (s.tables.answer k).pending := by
    show s'.io.rpcs.filterMap Rpc.file = _
    rw [hcached.rpcs]
    rfl
  rw [hpending]
  exact FileTables.pending_answer hrpc hrpcfile

end FileServer

end Sos
