import Mathlib.Data.List.TakeWhile
import Sos.Client.Stubs
import Sos.Properties.CacheBound
import Sos.Properties.FileCache

/-!
# `Sos.Properties.DirEntries`: `getdirent` from the client to the file cache

`callGetdirent` is a whole call: the stub sends the position, `get_dirent` copies the name of the
entry to the IPC page and replies its length, and the stub copies it to the buffer. `ReadsEntry`
is what `sos.h` says about the result, and `enumerate` calls it for one position after the other,
as `dir` of the shell does.

`getdirent_iff`: for a buffer of this size, every call returns what it should and the
enumeration finds every file, if and only if the names in the cache have at least one
character and fit into the buffer. A call for one position does so if and only if the name there,
if there is one, fits. The length is the one of the name, also where only a part of it is copied
(`long_name`).
-/

set_option autoImplicit false

namespace Sos

open Lib (storeString)

namespace Client

/-- A call of `getdirent`, with what is in the IPC page and in the memory of the client. -/
def callGetdirent (s : Io) (page : IpcPage) (mem : Nat → UInt8) (pos : Int) (name nbyte : Nat) :
    Option (Int × (Nat → UInt8)) :=
  match s.getDirent [(pos % 2 ^ 32).toNat] (some page) with
  | some (some [word], some filename) =>
    getdirent (storeString page.bytes 0 filename) mem name nbyte (word % 2 ^ 32).toNat
  | some (some [word], none) => getdirent page.bytes mem name nbyte (word % 2 ^ 32).toNat
  | _ => none

/-- The names that a client reads in one call after the other, until one returns 0. -/
def enumerate (s : Io) (pages : Nat → IpcPage) (mem : Nat → UInt8) (name nbyte : Nat) :
    Nat → Nat → Option (List (List UInt8))
  | 0, _ => none
  | calls + 1, pos =>
    match callGetdirent s (pages pos) mem pos name nbyte with
    | some (received, mem) =>
      if received = 0 then some []
      else if received < 0 then none
      else (enumerate s pages mem name nbyte calls (pos + 1)).map fun names =>
        ((List.range received.toNat).map fun i => mem (name + i)) :: names
    | none => none

/-- The result of a call for a position: -1 where there is no entry, 0 for the next free one, and
else the number of bytes of the name that are in the buffer. -/
structure ReadsEntry (s : Io) (mem : Nat → UInt8) (pos : Int) (name nbyte : Nat) (received : Int)
    (mem' : Nat → UInt8) : Prop where
  missing : pos < 0 ∨ s.fileCache.length < pos → received = -1
  next : pos = s.fileCache.length → received = 0
  entry : ∀ (k file : Nat), pos = k → s.fileCache[k]? = some file →
    received = (min nbyte (s.files file).filename.length : Nat) ∧
      Lib.Holds mem' name ((s.files file).filename.take nbyte)
  inside : ∀ a, (a < name ∨ name + nbyte ≤ a) → mem' a = mem a

/-- Every call returns what it should, and the calls for one position after the other give the
names of all files. -/
structure ReadsDirectory (s : Io) (pages : Nat → IpcPage) (mem : Nat → UInt8)
    (name nbyte : Nat) : Prop where
  call : ∀ (pos : Int) page, -2 ^ 31 ≤ pos → pos < 2 ^ 31 → ∃ received mem',
    callGetdirent s page mem pos name nbyte = some (received, mem') ∧
      ReadsEntry s mem pos name nbyte received mem'
  enumerated : enumerate s pages mem name nbyte (s.fileCache.length + 1) 0 =
    some (s.fileCache.map fun file => (s.files file).filename.take nbyte)

/-- The array of the cache, and the names in it. -/
structure CacheFits (s : Io) : Prop where
  length : s.fileCache.length ≤ dirCacheSize
  names : ∀ file ∈ s.fileCache, (s.files file).filename.length ≤ maxPathLength

section

variable {s : Io} {page : IpcPage} {pages : Nat → IpcPage} {mem : Nat → UInt8} {pos : Int}
  {name nbyte k file : Nat}

/-! ### One call -/

/-- What the stub does with a reply that is a signed number. -/
theorem getdirent_received (ipc mem : Nat → UInt8) (hname : name ≠ 0) (hnbyte : nbyte < maxIoBuf)
    {word : Int} (hword : toInt32 (word % 2 ^ 32).toNat = word) :
    getdirent ipc mem name nbyte (word % 2 ^ 32).toNat = some (word,
      if word > 0 then memcpy mem name ipc (min nbyte (word.toNat + 1)) else mem) := by
  unfold getdirent
  rw [if_neg (not_not.mpr hnbyte), if_neg hname, hword]
  simp only
  split_ifs <;> rfl

/-- A signed word arrives as it was sent. -/
theorem toInt32_word {word : Int} (h : -2 ^ 31 ≤ word) (h' : word < 2 ^ 31) :
    toInt32 (word % 2 ^ 32).toNat = word := by
  unfold toInt32
  split_ifs <;> omega

/-- There is nothing at a position behind the cache or before it. -/
theorem call_missing (hname : name ≠ 0) (hnbyte : nbyte < maxIoBuf) (hcache : CacheFits s)
    (hlow : -2 ^ 31 ≤ pos) (hhigh : pos < 2 ^ 31) (h : pos < 0 ∨ s.fileCache.length < pos) :
    callGetdirent s page mem pos name nbyte = some (-1, mem) := by
  have hlength := hcache.length
  simp only [dirCacheSize] at hlength
  -- A negative position is a large unsigned word for the server.
  have hbehind : s.fileCache.length < (pos % 2 ^ 32).toNat := by omega
  unfold callGetdirent Io.getDirent
  simp only
  rw [if_neg (Nat.ne_of_gt hbehind), if_pos hbehind]
  exact getdirent_received _ _ hname hnbyte (toInt32_word (by decide) (by decide))

/-- The position behind the last entry gets zero, and nothing is copied. -/
theorem call_next (hname : name ≠ 0) (hnbyte : nbyte < maxIoBuf) (hcache : CacheFits s) :
    callGetdirent s page mem s.fileCache.length name nbyte = some (0, mem) := by
  have hlength := hcache.length
  simp only [dirCacheSize] at hlength
  unfold callGetdirent Io.getDirent
  simp only
  rw [if_pos (by omega)]
  exact getdirent_received _ _ hname hnbyte (toInt32_word (by decide) (by decide))

/-- For an entry, its length is returned, and what fits is copied, zero included. -/
theorem call_entry (hname : name ≠ 0) (hnbyte : nbyte < maxIoBuf) (hcache : CacheFits s)
    (hfile : s.fileCache[k]? = some file) :
    callGetdirent s page mem k name nbyte = some (((s.files file).filename.length : Int),
      if 0 < (s.files file).filename.length then memcpy mem name
        (storeString page.bytes 0 (s.files file).filename)
        (min nbyte ((s.files file).filename.length + 1))
      else mem) := by
  have hlength := hcache.length
  simp only [dirCacheSize] at hlength
  have hlong := hcache.names file (List.mem_of_getElem? hfile)
  simp only [maxPathLength] at hlong
  have hlt : k < s.fileCache.length := (List.getElem?_eq_some_iff.mp hfile).1
  have hpos : ((k : Int) % 2 ^ 32).toNat = k := by omega
  unfold callGetdirent Io.getDirent
  simp only [hpos]
  rw [if_neg (Nat.ne_of_lt hlt), if_neg (Nat.lt_asymm hlt), hfile]
  refine (getdirent_received _ _ hname hnbyte (toInt32_word (by omega) (by omega))).trans ?_
  rw [Int.toNat_natCast]
  congr 2
  split_ifs <;> first | rfl | omega

/-- What a call for an entry leaves in the memory of the client. -/
theorem holds_entry (ipc mem : Nat → UInt8) (name nbyte : Nat) (filename : List UInt8) :
    let mem' := if 0 < filename.length then memcpy mem name (storeString ipc 0 filename)
      (min nbyte (filename.length + 1)) else mem
    Lib.Holds mem' name (filename.take nbyte) ∧
      ∀ a, (a < name ∨ name + nbyte ≤ a) → mem' a = mem a := by
  dsimp only
  -- An empty name is not copied at all.
  by_cases hpos : 0 < filename.length
  · rw [if_pos hpos]
    constructor
    -- A byte within the buffer is that of the reply.
    · intro i hi
      have hlt := hi
      rw [List.length_take] at hlt
      have hbyte := (Lib.holds_append.mp (Lib.holds_store ipc 0 (filename ++ [0]))).1 i (by omega)
      rw [Nat.zero_add] at hbyte
      rw [memcpy, if_pos (by omega), Nat.add_sub_cancel_left, List.getElem_take]
      exact hbyte
    -- A byte outside of it is not written.
    · intro a ha
      rw [memcpy, if_neg (by omega)]
  · rw [if_neg hpos, List.length_eq_zero_iff.mp (Nat.eq_zero_of_not_pos hpos), List.take_nil]
    exact ⟨fun i hi => absurd hi (Nat.not_lt_zero i), fun _ _ => rfl⟩

/-- A call returns what it should for an entry if the name fits into the buffer, and only then
the number that it returns is right. -/
theorem readsEntry_iff (hname : name ≠ 0) (hnbyte : nbyte < maxIoBuf) (hcache : CacheFits s)
    (page : IpcPage) (mem : Nat → UInt8) (hfile : s.fileCache[k]? = some file) :
    (∃ received mem', callGetdirent s page mem k name nbyte = some (received, mem') ∧
      ReadsEntry s mem k name nbyte received mem') ↔ (s.files file).filename.length ≤ nbyte := by
  have hlt : k < s.fileCache.length := (List.getElem?_eq_some_iff.mp hfile).1
  rw [call_entry hname hnbyte hcache hfile]
  constructor
  · rintro ⟨received, mem', hcall, hreads⟩
    obtain ⟨rfl, -⟩ := Prod.mk.inj (Option.some.inj hcall)
    -- The length of the name is returned, also where the buffer is shorter.
    have hreceived := (hreads.entry k file rfl hfile).1
    omega
  · intro hfits
    obtain ⟨hholds, hinside⟩ := holds_entry page.bytes mem name nbyte (s.files file).filename
    refine ⟨_, _, rfl, ?_⟩
    constructor
    case missing => omega
    case next => omega
    case entry =>
      intro k' file' hk hfile'
      obtain rfl : k = k' := Int.ofNat_inj.mp hk
      obtain rfl : file = file' := Option.some.inj (hfile.symm.trans hfile')
      rw [Nat.min_eq_right hfits]
      exact ⟨rfl, hholds⟩
    case inside => exact hinside

/-- A call for a position without an entry always returns what it should. -/
theorem readsEntry_none (hname : name ≠ 0) (hnbyte : nbyte < maxIoBuf) (hcache : CacheFits s)
    (page : IpcPage) (mem : Nat → UInt8) (hlow : -2 ^ 31 ≤ pos) (hhigh : pos < 2 ^ 31)
    (hpos : ∀ k : Nat, pos = k → s.fileCache.length ≤ k) :
    ∃ received mem', callGetdirent s page mem pos name nbyte = some (received, mem') ∧
      ReadsEntry s mem pos name nbyte received mem' := by
  -- No entry is at this position, so that two of the four conditions are empty.
  have hentry (received : Int) (hmissing : pos < 0 ∨ s.fileCache.length < pos → received = -1)
      (hnext : pos = s.fileCache.length → received = 0) :
      ReadsEntry s mem pos name nbyte received mem := by
    refine ⟨hmissing, hnext, fun k file hk hfile => ?_, fun _ _ => rfl⟩
    have hlt : k < s.fileCache.length := (List.getElem?_eq_some_iff.mp hfile).1
    exact absurd (hpos k hk) (Nat.not_le.mpr hlt)
  -- The next free position, or one that is outside.
  by_cases hnext : pos = s.fileCache.length
  · subst hnext
    exact ⟨0, mem, call_next hname hnbyte hcache, hentry 0 (by omega) fun _ => rfl⟩
  · have hmissing : pos < 0 ∨ s.fileCache.length < pos := by
      by_contra hinside
      have hle := hpos pos.toNat (by omega)
      omega
    exact ⟨-1, mem, call_missing hname hnbyte hcache hlow hhigh hmissing,
      hentry (-1) (fun _ => rfl) (absurd · hnext)⟩

/-! ### The enumeration -/

/-- The names in the cache, in its order. -/
def names (s : Io) : List (List UInt8) := s.fileCache.map fun file => (s.files file).filename

/-- As long as the names fit, the enumeration gives all of them up to the first empty one. -/
theorem enumerate_eq (hname : name ≠ 0) (hnbyte : nbyte < maxIoBuf) (hcache : CacheFits s)
    (hfits : ∀ file ∈ s.fileCache, (s.files file).filename.length ≤ nbyte) (calls pos : Nat)
    (mem : Nat → UInt8) (hpos : pos ≤ s.fileCache.length)
    (hcalls : s.fileCache.length < pos + calls) :
    enumerate s pages mem name nbyte calls pos =
      some (((names s).drop pos).takeWhile (· ≠ [])) := by
  induction calls generalizing pos mem with
  | zero => omega
  | succ calls ih =>
      rw [enumerate]
      rcases Nat.lt_or_eq_of_le hpos with hlt | rfl
      · have hfile : s.fileCache[pos]? = some s.fileCache[pos] := List.getElem?_eq_getElem hlt
        generalize s.fileCache[pos] = file at hfile
        have hdrop : (names s).drop pos =
            (s.files file).filename :: (names s).drop (pos + 1) := by
          have hget : (names s)[pos]? = some (s.files file).filename := by
            rw [names, List.getElem?_map, hfile]
            rfl
          obtain ⟨hlt', hget⟩ := List.getElem?_eq_some_iff.mp hget
          rw [List.drop_eq_getElem_cons hlt', hget]
        rw [call_entry hname hnbyte hcache hfile, hdrop]
        simp only
        obtain ⟨hholds, -⟩ := holds_entry (pages pos).bytes mem name nbyte (s.files file).filename
        rw [List.take_of_length_le (hfits file (List.mem_of_getElem? hfile))] at hholds
        generalize (s.files file).filename = filename at hholds
        -- An empty name is the end of the enumeration for the client.
        by_cases hempty : filename = []
        · rw [hempty]
          rfl
        · have hpositive : 0 < filename.length := List.length_pos_iff.mpr hempty
          rw [if_neg (by omega), if_neg (by omega), ih _ _ hlt (by omega),
            List.takeWhile_cons, if_pos (decide_eq_true hempty), Option.map_some,
            Int.toNat_natCast]
          congr 2
          refine List.ext_getElem (by rw [List.length_map, List.length_range]) fun i hi hi' => ?_
          rw [List.getElem_map, List.getElem_range]
          exact hholds i hi'
      · rw [call_next hname hnbyte hcache, List.drop_of_length_le (by rw [names, List.length_map])]
        rfl

/-- A call returns what it should if and only if the name at its position, if there is one, fits
into the buffer. -/
theorem call_iff (hname : name ≠ 0) (hnbyte : nbyte < maxIoBuf) (hcache : CacheFits s)
    (page : IpcPage) (mem : Nat → UInt8) (hlow : -2 ^ 31 ≤ pos) (hhigh : pos < 2 ^ 31) :
    (∃ received mem', callGetdirent s page mem pos name nbyte = some (received, mem') ∧
        ReadsEntry s mem pos name nbyte received mem') ↔
      ∀ (k : Nat) file, pos = k → s.fileCache[k]? = some file →
        (s.files file).filename.length ≤ nbyte := by
  by_cases hentry : ∃ (k : Nat) (file : Nat), pos = k ∧ s.fileCache[k]? = some file
  · obtain ⟨k, file, rfl, hfile⟩ := hentry
    rw [readsEntry_iff hname hnbyte hcache page mem hfile]
    refine ⟨fun hfits k' file' hk hfile' => ?_, fun hall => hall k file rfl hfile⟩
    obtain rfl : k = k' := Int.ofNat_inj.mp hk
    obtain rfl : file = file' := Option.some.inj (hfile.symm.trans hfile')
    exact hfits
  · refine ⟨fun _ k file hk hfile => absurd ⟨k, file, hk, hfile⟩ hentry, fun _ => ?_⟩
    refine readsEntry_none hname hnbyte hcache page mem hlow hhigh fun k hk => ?_
    exact Nat.not_lt.mp fun hlt => hentry ⟨k, _, hk, List.getElem?_eq_getElem hlt⟩

/-- `getdirent` returns what it should for every position, and the enumeration finds every file,
if and only if every name in the cache has at least one character and fits into the buffer. For
one position it does so if and only if the name there fits, if there is one. -/
theorem getdirent_iff (pages : Nat → IpcPage) (mem : Nat → UInt8) (hname : name ≠ 0)
    (hnbyte : nbyte < maxIoBuf) (hcache : CacheFits s) :
    (ReadsDirectory s pages mem name nbyte ↔
      ∀ file ∈ s.fileCache, 1 ≤ (s.files file).filename.length ∧
        (s.files file).filename.length ≤ nbyte) ∧
    ∀ (pos : Int) page, -2 ^ 31 ≤ pos → pos < 2 ^ 31 →
      ((∃ received mem', callGetdirent s page mem pos name nbyte = some (received, mem') ∧
          ReadsEntry s mem pos name nbyte received mem') ↔
        ∀ (k : Nat) file, pos = k → s.fileCache[k]? = some file →
          (s.files file).filename.length ≤ nbyte) := by
  have hfirst (hfits : ∀ file ∈ s.fileCache, (s.files file).filename.length ≤ nbyte) :
      enumerate s pages mem name nbyte (s.fileCache.length + 1) 0 =
        some ((names s).takeWhile (· ≠ [])) :=
    enumerate_eq hname hnbyte hcache hfits _ 0 mem (Nat.zero_le _) (by omega)
  have htake (hfits : ∀ file ∈ s.fileCache, (s.files file).filename.length ≤ nbyte) :
      s.fileCache.map (fun file => (s.files file).filename.take nbyte) = names s :=
    List.map_congr_left fun file hfile => List.take_of_length_le (hfits file hfile)
  refine ⟨⟨?_, ?_⟩, fun pos page hlow hhigh => call_iff hname hnbyte hcache page mem hlow hhigh⟩
  · intro h
    have hfits : ∀ file ∈ s.fileCache, (s.files file).filename.length ≤ nbyte := by
      intro file hfile
      obtain ⟨k, hk⟩ := List.getElem?_of_mem hfile
      have hlt : k < s.fileCache.length := (List.getElem?_eq_some_iff.mp hk).1
      have hlength := hcache.length
      simp only [dirCacheSize] at hlength
      exact (readsEntry_iff hname hnbyte hcache (pages 0) mem hk).mp
        (h.call k (pages 0) (by omega) (by omega))
    -- The names fit, and no call of the enumeration has ended it before the last name.
    have henumerated := h.enumerated
    rw [hfirst hfits, htake hfits, Option.some.injEq, List.takeWhile_eq_self_iff] at henumerated
    intro file hfile
    have hne := of_decide_eq_true (henumerated _ (List.mem_map.mpr ⟨file, hfile, rfl⟩))
    exact ⟨List.length_pos_iff.mpr hne, hfits file hfile⟩
  · intro h
    have hfits : ∀ file ∈ s.fileCache, (s.files file).filename.length ≤ nbyte :=
      fun file hfile => (h file hfile).2
    constructor
    case call =>
      intro pos page hlow hhigh
      refine (call_iff hname hnbyte hcache page mem hlow hhigh).mpr fun k file _ hfile => ?_
      exact hfits file (List.mem_of_getElem? hfile)
    case enumerated =>
      rw [hfirst hfits, htake hfits, Option.some.injEq, List.takeWhile_eq_self_iff]
      intro filename hfilename
      obtain ⟨file, hfile, rfl⟩ := List.mem_map.mp hfilename
      exact decide_eq_true (List.length_pos_iff.mp (h file hfile).1)

end

end Client

namespace FileServer

open Client

/-- In every run the cache and its names fit into their arrays. -/
theorem Reachable.cacheFits {null : Option (List UInt8)} {s : FileServer}
    (h : (machine null).Reachable Lib.Machine.anyStep s) : CacheFits s.io := by
  -- Both bounds hold in every reachable state.
  constructor
  case length =>
    have hall := h.invariant
      (fun s => s.tables.Wf ∧ s.tables.fileCache.length ≤ dirCacheSize) ?_ ?_
    · exact hall.2
    -- After booting there is only the console.
    · rintro s₀ ⟨rootThread, heap, hboot⟩
      have hbooted := boot_booted hboot
      refine ⟨hbooted.wf, ?_⟩
      rw [hbooted.fileCache]
      decide
    · rintro s₁ a s₂ ⟨hwf, hlength⟩ - hs
      obtain ⟨ho, hwf'⟩ := step_wf hwf hs
      exact ⟨hwf', ho.cache_le hlength⟩
  case names =>
    intro file hfile
    exact (Reachable.names_valid h _ (List.mem_map.mpr ⟨file, List.mem_append_left _ hfile, rfl⟩)).2

/-- The state after booting is that of a run without steps. -/
theorem booted_reachable : (machine none).Reachable Lib.Machine.anyStep booted :=
  ⟨booted, booted_init, .refl _⟩

/-- The swap file has been created: its name and that of the console fit into ten bytes. -/
theorem getdirent_ten : ∃ s : FileServer,
    s.io.fileCache.map (fun file => (s.io.files file).filename) =
        ["console".toUTF8.toList, "swap".toUTF8.toList] ∧
      ReadsDirectory s.io (fun _ => namedPage []) (fun _ => 0) 4096 10 := by
  obtain ⟨s, -, hreach, hnames, hfits⟩ := Lib.Machine.exists_run (machine none)
    Lib.Machine.anyStep booted_init [.nfsReply 0 (okReply 0o600)]
    (fun s => s.io.fileCache.map (fun file => (s.io.files file).filename) =
        ["console".toUTF8.toList, "swap".toUTF8.toList] ∧
      ∀ file ∈ s.io.fileCache, 1 ≤ (s.io.files file).filename.length ∧
        (s.io.files file).filename.length ≤ 10) (by decide +kernel)
  exact ⟨s, hnames, (getdirent_iff _ _ (by decide) (by decide)
    (Reachable.cacheFits hreach)).1.mpr hfits⟩

/-- The name of the console does not fit into four bytes. -/
theorem long_name : ¬ ReadsDirectory booted.io (fun _ => namedPage []) (fun _ => 0) 4096 4 := by
  intro h
  have hconsole : booted.io.fileCache[0]? = some consoleFile := by decide +kernel
  have hfits := (readsEntry_iff (by decide) (by decide) (Reachable.cacheFits booted_reachable) (namedPage [])
    (fun _ => 0) hconsole).mp (h.call (0 : Nat) (namedPage []) (by decide) (by decide))
  exact absurd hfits (by decide +kernel)

end FileServer

end Sos
