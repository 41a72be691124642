import Sos.Io.State

/-!
# `Sos.Io.Table`: the file cache and the file tables

The functions of `io/io.c` that the devices share: the search in the file cache, the
insertion into it, and the file tables of the processes with their checks.

`find_file` looks at all `DIR_CACHE_SIZE` entries of the cache, also at those that are still
null, whose `filename` is then the string at address 0. That string is a parameter (`null`):
`none` where the page is not mapped, and the server stops there.
-/

set_option autoImplicit false

namespace Sos.Io

/-! ### The file cache -/

/-- `file_cache_insert`, with its assertion. -/
def fileCacheInsert (s : Io) (file : Nat) : Option Io :=
  if s.fileCache.length < dirCacheSize then
    let s := s.updateFile file fun f => { f with creationPending := false }
    some { s with fileCache := s.fileCache ++ [file] }
  else none

/-- `find_file`: the first entry with this name. An index behind the entries in use is a
null entry whose name matches what is stored at address 0. -/
def findFile (null : Option (List UInt8)) (s : Io) (name : List UInt8) : Option (Option Nat) :=
  match s.fileCache.findIdx? fun file => (s.files file).filename = name with
  | some index => some (some index)
  | none =>
    if s.fileCache.length < dirCacheSize then
      match null with
      | none => none
      | some atZero => if atZero = name then some (some s.fileCache.length) else some none
    else some none

/-! ### File tables -/

/-- `find_free_file_slot`. -/
def findFreeFileSlot (s : Io) (pid : Nat) : Option Nat :=
  (List.range processMaxFiles).find? fun fd => (s.filetable pid fd).isNone

/-- `create_file_descriptor`. -/
def createFileDescriptor (s : Io) (file : Nat) (tid : ThreadId) (mode : Nat) : Io × Nat :=
  s.allocEntry
    { file := some file
      owner := tid
      toRead := 0
      toWrite := 0
      readPosition := 0
      writePosition := 0
      clientBuffer := none
      awaitsCallback := false
      mode := mode }

/-- The check of `is_valid_filedescriptor`: the entry behind a descriptor, which is given as
a word of a message, `none` when the descriptor is not valid. -/
def isValidFiledescriptor (s : Io) (tid : ThreadId) (fd : Nat) : Option Nat :=
  if fd < processMaxFiles then s.filetable (tid2pid tid) fd else none

/-- `can_write` and `can_read`, for one bit of the mode: the outer `none` is an invalid
access, the inner one a refusal. -/
def canAccess (s : Io) (tid : ThreadId) (fd bit : Nat) :
    Option (Option (Nat × FileTableEntry)) :=
  match s.isValidFiledescriptor tid fd with
  | none => some none
  | some entry => do
    let f ← s.entries entry
    some (if f.mode &&& bit ≠ 0 then some (entry, f) else none)

/-- `can_write`. -/
def canWrite (s : Io) (tid : ThreadId) (fd : Nat) : Option (Option (Nat × FileTableEntry)) :=
  s.canAccess tid fd fmWrite

/-- `can_read`. -/
def canRead (s : Io) (tid : ThreadId) (fd : Nat) : Option (Option (Nat × FileTableEntry)) :=
  s.canAccess tid fd fmRead

/-- A loop over a file table that looks for an entry: the first one that satisfies `p`. -/
def findEntry (s : Io) (pid : Nat) (p : Nat → FileTableEntry → Option Bool) :
    List Nat → Option (Option Nat)
  | [] => some none
  | fd :: rest =>
    match s.filetable pid fd with
    | none => s.findEntry pid p rest
    | some entry => do
      let f ← s.entries entry
      if ← p entry f then some (some entry) else s.findEntry pid p rest

end Sos.Io
