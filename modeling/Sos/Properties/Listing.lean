import Mathlib.Data.List.Flatten
import Sos.Files.Effects
import Sos.Files.Reachable
import Sos.Io.Readdir

/-!
# `Sos.Properties.Listing`: the file cache is filled at boot

The server of the NFS files answers the requests for the directory with its parts (`batches`),
one after the other, and with an empty part after the last one. `directory_listed_iff`: the
callback for a part returns exactly if there are buffers for its requests, the chain of
requests ends if it always does, and when it has ended, there was one lookup for every usable
entry exactly if the directory is `Covered`.

`listing_stops_early` has a cookie for which the chain ends before the second part.
`listing_out_of_buffers` has a directory of 60 files whose lookups are not answered: the heap of
the network stack is full before the listing is complete, and an assertion stops the server.
-/

set_option autoImplicit false

namespace Sos

/-! ### The directory -/

/-- The names that are ignored. -/
def ignored : List (List UInt8) :=
  [".".toUTF8.toList, "..".toUTF8.toList, "swap".toUTF8.toList]

/-- An entry that should be in the file cache. -/
def Usable (name : List UInt8) : Prop := name.length < maxPathLength - 1 ∧ name ∉ ignored

instance (name : List UInt8) : Decidable (Usable name) := inferInstanceAs (Decidable (_ ∧ _))

/-- The part of a name that `strcmp` looks at. -/
def nameString (name : List UInt8) : List UInt8 := name.takeWhile (· ≠ 0)

/-- The names that should be looked up. -/
def usableNames (batches : List (List DirEntry)) : List (List UInt8) :=
  (batches.flatten.filter fun e => Usable e.name).map fun e => nameString e.name

/-- The parts that are asked for: up to the first one whose last cookie is negative as a signed
value. -/
def reached : List (List DirEntry) → List (List DirEntry)
  | [] => []
  | batch :: rest => if lastCookie 0 batch < 2 ^ 31 then batch :: reached rest else [batch]

/-- The parts of a directory, with cookies that are not zero. -/
def Splits (batches : List (List DirEntry)) : Prop :=
  ∀ batch ∈ batches, batch ≠ [] ∧ ∀ e ∈ batch, e.Ok ∧ e.cookie ≠ 0

instance (batches : List (List DirEntry)) : Decidable (Splits batches) :=
  inferInstanceAs (Decidable (∀ batch ∈ batches, _))

/-- The directories that are listed completely. -/
structure Covered (batches : List (List DirEntry)) : Prop where
  /-- No usable entry comes after a part whose last cookie is negative. -/
  cookies : ∀ batch ∈ batches.drop (reached batches).length, ∀ e ∈ batch, ¬ Usable e.name
  /-- Nor behind the first `DIR_CACHE_SIZE` entries of a part. -/
  counts : ∀ batch ∈ reached batches, ∀ e ∈ batch.drop dirCacheSize, ¬ Usable e.name
  /-- Nor has one a zero behind an ignored name. -/
  names : ∀ batch ∈ reached batches, ∀ e ∈ batch.take dirCacheSize, Usable e.name →
    nameString e.name ∉ ignored

/-- The names that are looked up for these parts. -/
def lookedUp (parts : List (List DirEntry)) : List (List UInt8) :=
  parts.flatMap fun batch => ((batch.map (·.name)).take dirCacheSize).filterMap listedName

/-- One more part brings the usable names among its first `DIR_CACHE_SIZE` entries. -/
theorem lookedUp_append (parts : List (List DirEntry)) (batch : List DirEntry) :
    lookedUp (parts ++ [batch]) =
      lookedUp parts ++ ((batch.map (·.name)).take dirCacheSize).filterMap listedName := by
  rw [lookedUp, List.flatMap_append, List.flatMap_singleton]
  rfl

/-- An entry that is looked up. -/
def Listed (name : List UInt8) : Prop := name.length < maxPathLength - 1 ∧ nameString name ∉ ignored

instance (name : List UInt8) : Decidable (Listed name) := inferInstanceAs (Decidable (_ ∧ _))

/-- Which names are looked up, and as what. -/
theorem listedName_eq (name : List UInt8) :
    listedName name = if Listed name then some (nameString name) else none := by
  have hmem : nameString name ∉ ignored ↔ nameString name ≠ ".".toUTF8.toList ∧
      nameString name ≠ "..".toUTF8.toList ∧ nameString name ≠ "swap".toUTF8.toList := by
    rw [ignored, List.mem_cons, List.mem_cons, List.mem_singleton, not_or, not_or]
  -- The length is checked first, as in nfs_readdir_callback, then the ignored names.
  unfold listedName
  by_cases hlength : name.length < maxPathLength - 1
  · rw [if_pos hlength]
    by_cases hname : nameString name ∉ ignored
    · have hlisted : Listed name := ⟨hlength, hname⟩
      rw [if_pos hlisted]
      exact if_pos (hmem.mp hname)
    · have hlisted : ¬ Listed name := fun h => hname h.2
      rw [if_neg hlisted]
      exact if_neg fun h => hname (hmem.mpr h)
  · have hlisted : ¬ Listed name := fun h => hlength h.1
    rw [if_neg hlength, if_neg hlisted]

/-- An ignored name has no zero in it. -/
theorem Listed.usable {name : List UInt8} (h : Listed name) : Usable name := by
  refine ⟨h.1, fun hname => h.2 ?_⟩
  have hall : ∀ name ∈ ignored, nameString name = name := by decide +kernel
  rw [hall name hname]
  exact hname

/-- The same of the entries of one part. -/
theorem filterMap_listedName (entries : List DirEntry) :
    (entries.map (·.name)).filterMap listedName =
      (entries.filter fun e => Listed e.name).map fun e => nameString e.name := by
  induction entries with
  | nil => rfl
  | cons e entries ih =>
      rw [List.map_cons, List.filterMap_cons, listedName_eq, List.filter_cons]
      by_cases he : Listed e.name
      · rw [if_pos he, if_pos (decide_eq_true he), List.map_cons, ← ih]
      · rw [if_neg he, if_neg (by rw [decide_eq_false he]; exact Bool.false_ne_true), ← ih]

/-- The parts that are asked for come first. -/
theorem reached_initial (batches : List (List DirEntry)) : reached batches <+: batches := by
  induction batches with
  | nil => exact List.prefix_rfl
  | cons batch rest ih =>
      unfold reached
      split
      · exact List.prefix_cons_inj batch |>.mpr ih
      · exact ⟨rest, rfl⟩

/-- The names that are looked up, as a filter of the entries. -/
theorem lookedUp_eq (parts : List (List DirEntry)) :
    lookedUp parts = ((parts.flatMap (List.take dirCacheSize)).filter fun e =>
      Listed e.name).map fun e => nameString e.name := by
  induction parts with
  | nil => rfl
  | cons batch rest ih =>
      rw [List.flatMap_cons, List.filter_append, List.map_append, ← ih, ← filterMap_listedName,
        List.map_take]
      rfl

/-- A usable entry is looked up, or it is one of those that the server takes for special. -/
theorem countP_usable (entries : List DirEntry) :
    (entries.countP fun e => Usable e.name) = (entries.countP fun e => Listed e.name) +
      entries.countP fun e => Usable e.name ∧ ¬ Listed e.name := by
  induction entries with
  | nil => rfl
  | cons e entries ih =>
      rw [List.countP_cons, List.countP_cons, List.countP_cons, ih]
      by_cases hlisted : Listed e.name
      · simp [hlisted, hlisted.usable]
        omega
      · by_cases husable : Usable e.name
        · simp [hlisted, husable]
          omega
        · simp [hlisted, husable]

/-- The entries of these parts are the first ones of each part and those behind them. -/
theorem countP_flatten_usable (parts : List (List DirEntry)) :
    (parts.flatten.countP fun e => Usable e.name) =
      ((parts.flatMap (List.take dirCacheSize)).countP fun e => Usable e.name) +
        (parts.flatMap (List.drop dirCacheSize)).countP fun e => Usable e.name := by
  induction parts with
  | nil => rfl
  | cons batch rest ih =>
      have hbatch : (batch.countP fun e => Usable e.name) =
          ((batch.take dirCacheSize).countP fun e => Usable e.name) +
            (batch.drop dirCacheSize).countP fun e => Usable e.name := by
        rw [← List.countP_append, List.take_append_drop]
      rw [List.flatten_cons, List.flatMap_cons, List.flatMap_cons, List.countP_append,
        List.countP_append, List.countP_append, hbatch, ih]
      omega

/-- The entries that should be looked up are those that are, and those that are missed. -/
theorem length_usableNames (batches : List (List DirEntry)) :
    (usableNames batches).length = (lookedUp (reached batches)).length +
      (((batches.drop (reached batches).length).flatten.countP fun e => Usable e.name) +
      (((reached batches).flatMap (List.drop dirCacheSize)).countP fun e => Usable e.name) +
      (((reached batches).flatMap (List.take dirCacheSize)).countP fun e =>
        Usable e.name ∧ ¬ Listed e.name)) := by
  have hall : (usableNames batches).length = batches.flatten.countP fun e => Usable e.name := by
    rw [usableNames, List.length_map, List.countP_eq_length_filter]
  have hlooked : (lookedUp (reached batches)).length =
      ((reached batches).flatMap (List.take dirCacheSize)).countP fun e => Listed e.name := by
    rw [lookedUp_eq, List.length_map, List.countP_eq_length_filter]
  have hsplit : reached batches ++ batches.drop (reached batches).length = batches :=
    List.prefix_iff_eq_append.mp (reached_initial batches)
  have hcount : (batches.flatten.countP fun e => Usable e.name) =
      ((reached batches).flatten.countP fun e => Usable e.name) +
        (batches.drop (reached batches).length).flatten.countP fun e => Usable e.name := by
    rw [← List.countP_append, ← List.flatten_append, hsplit]
  rw [hall, hcount, countP_flatten_usable, countP_usable (List.flatMap _ _), hlooked]
  omega

/-- All usable names are looked up if and only if the condition on the directory holds. -/
theorem lookedUp_iff (batches : List (List DirEntry)) :
    lookedUp (reached batches) = usableNames batches ↔ Covered batches := by
  have hlength := length_usableNames batches
  constructor
  · intro heq
    rw [heq] at hlength
    have hnone := Nat.add_eq_left.mp hlength.symm
    rw [Nat.add_eq_zero_iff, Nat.add_eq_zero_iff, List.countP_eq_zero, List.countP_eq_zero,
      List.countP_eq_zero] at hnone
    obtain ⟨⟨hcookies, hcounts⟩, hnames⟩ := hnone
    refine ⟨?_, ?_, ?_⟩
    · intro batch hbatch e he husable
      exact hcookies e (List.mem_flatten_of_mem hbatch he) (decide_eq_true husable)
    · intro batch hbatch e he husable
      exact hcounts e (List.mem_flatMap_of_mem hbatch he) (decide_eq_true husable)
    · intro batch hbatch e he husable hignored
      exact hnames e (List.mem_flatMap_of_mem hbatch he)
        (decide_eq_true ⟨husable, fun hlisted => hlisted.2 hignored⟩)
  · intro hcovered
    have hnone : (((batches.drop (reached batches).length).flatten.countP fun e => Usable e.name) +
        (((reached batches).flatMap (List.drop dirCacheSize)).countP fun e => Usable e.name) +
        (((reached batches).flatMap (List.take dirCacheSize)).countP fun e =>
          Usable e.name ∧ ¬ Listed e.name)) = 0 := by
      rw [Nat.add_eq_zero_iff, Nat.add_eq_zero_iff, List.countP_eq_zero, List.countP_eq_zero,
        List.countP_eq_zero]
      refine ⟨⟨?_, ?_⟩, ?_⟩
      · intro e he husable
        obtain ⟨batch, hbatch, he⟩ := List.mem_flatten.mp he
        exact hcovered.cookies batch hbatch e he (of_decide_eq_true husable)
      · intro e he husable
        obtain ⟨batch, hbatch, he⟩ := List.mem_flatMap.mp he
        exact hcovered.counts batch hbatch e he (of_decide_eq_true husable)
      · intro e he hmissed
        obtain ⟨husable, hnot⟩ := of_decide_eq_true hmissed
        obtain ⟨batch, hbatch, he⟩ := List.mem_flatMap.mp he
        exact hnot ⟨husable.1, hcovered.names batch hbatch e he husable⟩
    rw [hnone, Nat.add_zero] at hlength
    -- What is looked up is a sublist of the same length.
    have hentries : ((reached batches).flatMap (List.take dirCacheSize)).Sublist
        batches.flatten := by
      refine List.Sublist.trans ?_ (reached_initial batches).sublist.flatten
      rw [← List.flatMap_id]
      exact List.Sublist.flatMap_right _ fun batch _ => List.take_sublist _ batch
    have hsublist : (lookedUp (reached batches)).Sublist (usableNames batches) := by
      rw [lookedUp_eq]
      refine List.Sublist.map _ ((hentries.filter _).trans ?_)
      exact List.monotone_filter_right _ fun e he =>
        decide_eq_true (of_decide_eq_true he : Listed e.name).usable
    exact hsublist.eq_of_length hlength.symm

/-! ### The chain of requests -/

/-- The parts that were answered, and the names for which a lookup was sent. -/
structure ListingHistory where
  answered : List (List DirEntry)
  lookups : List (List UInt8)

/-- The cookie of the last answer. -/
def ListingHistory.cookie (r : ListingHistory) : Nat := lastCookie 0 (r.answered.getLastD [])

/-- The name in a request for an entry. -/
def Rpc.lookupName (files : Nat → FileInfo) : Rpc → Option (List UInt8)
  | .lookup file => some (files file).filename
  | _ => none

def Rpc.isReaddir : Rpc → Bool
  | .readdir _ => true
  | _ => false

namespace FileServer

/-- The next part; an empty one when there are no more. -/
def nextPart (batches : List (List DirEntry)) (r : ListingHistory) : List DirEntry :=
  (batches.drop r.answered.length).headD []

def recordListing (batches : List (List DirEntry)) (s : FileServer) (a : FileAction)
    (s' : FileServer) (r : ListingHistory) : ListingHistory where
  answered := if s.answersReaddir a then r.answered ++ [nextPart batches r] else r.answered
  lookups := r.lookups ++
    (s'.io.rpcs.drop (s.unanswered a).length).filterMap (Rpc.lookupName s'.io.files)

/-- The file system with the history of the listing. -/
def filling (null : Option (List UInt8)) (batches : List (List DirEntry)) :
    Lib.Machine (FileServer × ListingHistory) FileAction :=
  (machine null).withHistory ⟨[], []⟩ (recordListing batches)

/-- The server answers a request for the directory with the next part. While the callback runs,
the heap of the network stack holds the buffers of the requests that are outstanding, the
answered one among them, so that it has no room for more than the rest of `maxRequests`. -/
def ServesNext (batches : List (List DirEntry)) (x : FileServer × ListingHistory) :
    FileAction → Prop
  | .nfsReply k reply => x.1.answersReaddir (.nfsReply k reply) = true →
    (∃ eof : Bool, nfsReaddirCb (readdirMessage eof (nextPart batches x.2)) =
      some ⟨reply.status, reply.filenames.length, reply.filenames, reply.nextCookie⟩) ∧
      x.1.io.rpcs.length + reply.buffers ≤ maxRequests
  | _ => True

instance (batches : List (List DirEntry)) (x : FileServer × ListingHistory) (a : FileAction) :
    Decidable (ServesNext batches x a) := by
  match a with
  | .nfsReply .. => exact inferInstanceAs (Decidable (_ → _))
  | .openFile .. | .readFile .. | .writeFile .. | .closeFile .. | .serialReceive _
  | .createProcess .. | .deleteProcess _ => exact inferInstanceAs (Decidable True)

/-- While the directory is listed, one request for it is outstanding, and the names of the
parts that were answered have been looked up. -/
structure Listing (batches : List (List DirEntry)) (s : FileServer) (r : ListingHistory) :
    Prop where
  asked : s.io.fileCacheInitialized = false →
    s.io.rpcs.filter Rpc.isReaddir = [.readdir (toInt32 r.cookie)]
  prefix_ : s.io.fileCacheInitialized = false → r.answered <+: batches ∧
    reached batches = r.answered ++ reached (batches.drop r.answered.length)
  looked : s.io.fileCacheInitialized = false → r.lookups = lookedUp r.answered
  ended : s.io.fileCacheInitialized = true → s.io.rpcs.filter Rpc.isReaddir = []
  finished : s.io.fileCacheInitialized = true → r.lookups = lookedUp (reached batches)
  length_le : r.answered.length ≤ batches.length + 1

/-- Answering one request takes it out of the list and leaves the order. -/
theorem filter_eraseIdx {α : Type} {l : List α} {k : Nat} {x : α} (p : α → Bool)
    (h : l[k]? = some x) :
    l.filter p = (l.take k).filter p ++ ([x].filter p ++ (l.drop (k + 1)).filter p) ∧
      (l.eraseIdx k).filter p = (l.take k).filter p ++ (l.drop (k + 1)).filter p := by
  obtain ⟨hk, hget⟩ := List.getElem?_eq_some_iff.mp h
  have hsplit : l = l.take k ++ x :: l.drop (k + 1) := by
    rw [← hget, List.getElem_cons_drop, List.take_append_drop]
  constructor
  · conv => lhs; rw [hsplit]
    rw [← List.filter_append, ← List.filter_append, List.singleton_append]
  · rw [List.eraseIdx_eq_take_drop_succ, List.filter_append]

/-- The lookups that the loop of `nfs_readdir_callback` sends. -/
theorem listFiles_lookups (names : List (List UInt8)) (s : Io) :
    ∃ files : List Nat, (names.foldl Io.listFile s).rpcs = s.rpcs ++ files.map Rpc.lookup ∧
      (files.map fun file => ((names.foldl Io.listFile s).files file).filename) = names ∧
      ∀ file < s.nextFile, (names.foldl Io.listFile s).files file = s.files file := by
  induction names generalizing s with
  | nil => exact ⟨[], (List.append_nil _).symm, rfl, fun _ _ => rfl⟩
  | cons name names ih =>
      -- What the rest of the part leaves alone includes the file just listed.
      obtain ⟨files, hrpcs, hnames, hkept⟩ := ih (s.listFile name)
      have hfiles : (s.listFile name).files =
          Function.update s.files s.nextFile (listedInfo name) := rfl
      rw [List.foldl_cons]
      refine ⟨s.nextFile :: files, ?_, ?_, ?_⟩
      · rw [hrpcs, Io.listFile, List.append_assoc]
        rfl
      · rw [List.map_cons, hnames, hkept _ (Nat.lt_succ_self _), hfiles, Function.update_self]
        rfl
      · intro file hfile
        rw [hkept file (Nat.lt_succ_of_lt hfile), hfiles,
          Function.update_of_ne (Nat.ne_of_lt hfile)]

/-- What the answer to a request for the directory sends: the lookups, and the next request if
the cookie is positive. -/
theorem listPart_sends (s : Io) (r : NfsReply) :
    ∃ sent, (s.listPart r).rpcs = s.rpcs ++ sent ∧
      sent.filterMap (Rpc.lookupName (s.listPart r).files) = r.listed ∧
      sent.filter Rpc.isReaddir = if r.nextCookie > 0 then [.readdir r.nextCookie] else [] := by
  obtain ⟨files, hrpcs, hnames, -⟩ := listFiles_lookups r.listed s
  -- Lookups go out for the files of the part, the next readdir is only for its end.
  have hlookups : (files.map Rpc.lookup).filter Rpc.isReaddir = [] := by
    rw [List.filter_eq_nil_iff]
    intro rpc hrpc
    obtain ⟨file, -, rfl⟩ := List.mem_map.mp hrpc
    exact Bool.false_ne_true
  unfold Io.listPart
  dsimp only
  -- A cookie above zero asks for the next part; otherwise this was the last one.
  split
  next hmore =>
    refine ⟨files.map Rpc.lookup ++ [.readdir r.nextCookie], ?_, ?_, ?_⟩
    · rw [← List.append_assoc, ← hrpcs]
    · refine Eq.trans ?_ hnames
      rw [List.filterMap_append, List.filterMap_map, ← List.filterMap_eq_map]
      exact List.append_nil _
    · rw [List.filter_append, hlookups]
      rfl
  next hlast =>
    refine ⟨files.map Rpc.lookup, hrpcs, ?_, hlookups⟩
    refine Eq.trans ?_ hnames
    rw [List.filterMap_map, ← List.filterMap_eq_map]
    rfl

/-- A cookie is positive as an `int` if it is not zero and its highest bit is clear. -/
theorem toInt32_pos_iff {word : Nat} (h : word < 2 ^ 32) :
    toInt32 word > 0 ↔ word ≠ 0 ∧ word < 2 ^ 31 := by
  unfold toInt32
  rw [Nat.mod_eq_of_lt h]
  split
  · omega
  · omega

/-- The last cookie of a part that is not empty. -/
theorem lastCookie_ok {batch : List DirEntry} (hne : batch ≠ [])
    (hall : ∀ e ∈ batch, e.Ok ∧ e.cookie ≠ 0) :
    lastCookie 0 batch < 2 ^ 32 ∧ lastCookie 0 batch ≠ 0 := by
  have hlast : lastCookie 0 batch = (batch.getLast hne).cookie := by
    rw [lastCookie, List.getLast?_eq_some_getLast hne]
    rfl
  obtain ⟨hok, hcookie⟩ := hall _ (List.getLast_mem hne)
  rw [hlast]
  exact ⟨hok.cookie, hcookie⟩

/-- A step that has nothing to do with the listing. -/
theorem Listing.other {batches : List (List DirEntry)} {s s' : FileServer} {r : ListingHistory}
    {a : FileAction} (h : Listing batches s r) (hnot : s.answersReaddir a = false)
    (hflag : s'.io.fileCacheInitialized = s.io.fileCacheInitialized) {sent : List Rpc}
    (hrpcs : s'.io.rpcs = s.unanswered a ++ sent) (hsent : ∀ rpc ∈ sent, rpc.listing = false) :
    Listing batches s' (recordListing batches s a s' r) := by
  have hnone : sent.filter Rpc.isReaddir = [] := by
    rw [List.filter_eq_nil_iff]
    intro rpc hrpc
    have hother := hsent rpc hrpc
    cases rpc with
    | readdir => cases hother
    | _ => exact Bool.false_ne_true
  -- An answer to another request leaves the one for the listing.
  have hkept : (s.unanswered a).filter Rpc.isReaddir = s.io.rpcs.filter Rpc.isReaddir := by
    cases a with
    | nfsReply k reply =>
        show (s.io.rpcs.eraseIdx k).filter Rpc.isReaddir = _
        cases hrpc : s.io.rpcs[k]? with
        | none =>
            rw [List.eraseIdx_of_length_le (List.getElem?_eq_none_iff.mp hrpc)]
        | some rpc =>
            obtain ⟨hbefore, hafter⟩ := filter_eraseIdx Rpc.isReaddir hrpc
            have hother : [rpc].filter Rpc.isReaddir = [] := by
              cases rpc with
              | readdir cookie =>
                  rw [answersReaddir_iff.mpr ⟨cookie, hrpc⟩] at hnot
                  cases hnot
              | _ => rfl
            rw [hbefore, hafter, hother, List.nil_append]
    | _ => rfl
  have hreaddir : s'.io.rpcs.filter Rpc.isReaddir = s.io.rpcs.filter Rpc.isReaddir := by
    rw [hrpcs, List.filter_append, hnone, List.append_nil, hkept]
  have hlookups : (s'.io.rpcs.drop (s.unanswered a).length).filterMap
      (Rpc.lookupName s'.io.files) = [] := by
    rw [hrpcs, List.drop_left, List.filterMap_eq_nil_iff]
    intro rpc hrpc
    have hother := hsent rpc hrpc
    cases rpc with
    | lookup => cases hother
    | _ => rfl
  -- Nothing is recorded.
  have hrecord : recordListing batches s a s' r = r := by
    unfold recordListing
    rw [hlookups, hnot, if_neg Bool.false_ne_true, List.append_nil]
  rw [hrecord]
  constructor
  case asked => exact fun hopen => hreaddir.trans (h.asked (hflag ▸ hopen))
  case prefix_ => exact fun hopen => h.prefix_ (hflag ▸ hopen)
  case looked => exact fun hopen => h.looked (hflag ▸ hopen)
  case ended => exact fun hdone => hreaddir.trans (h.ended (hflag ▸ hdone))
  case finished => exact fun hdone => h.finished (hflag ▸ hdone)
  case length_le => exact h.length_le

/-- An answer to the request for the directory. -/
theorem Listing.answer {batches : List (List DirEntry)} {s s' : FileServer}
    {r : ListingHistory} {k : Nat} {reply : NfsReply} {cookie : Int} {eof : Bool}
    (h : Listing batches s r) (hb : Splits batches)
    (hrpc : s.io.rpcs[k]? = some (.readdir cookie))
    (hreply : nfsReaddirCb (readdirMessage eof (nextPart batches r)) =
      some ⟨reply.status, reply.filenames.length, reply.filenames, reply.nextCookie⟩)
    (hs' : s'.io = { s.io.cleared with rpcs := s.io.rpcs.eraseIdx k }.listPart reply) :
    Listing batches s' (recordListing batches s (.nfsReply k reply) s' r) := by
  have hanswers : s.answersReaddir (.nfsReply k reply) = true :=
    answersReaddir_iff.mpr ⟨cookie, hrpc⟩
  -- The directory is still listed, and this was the only request for it.
  obtain ⟨hbefore, hafter⟩ := filter_eraseIdx Rpc.isReaddir hrpc
  have hlength := congrArg List.length hbefore
  rw [List.length_append, List.length_append,
    show [Rpc.readdir cookie].filter Rpc.isReaddir = [.readdir cookie] from rfl,
    List.length_singleton] at hlength
  have hopen : s.io.fileCacheInitialized = false := by
    rw [← Bool.not_eq_true]
    intro hdone
    rw [h.ended hdone, List.length_nil] at hlength
    omega
  have hrest : (s.io.rpcs.eraseIdx k).filter Rpc.isReaddir = [] := by
    rw [h.asked hopen, List.length_singleton] at hlength
    rw [hafter, List.eq_nil_of_length_eq_zero (by omega :
        ((s.io.rpcs.take k).filter Rpc.isReaddir).length = 0),
      List.eq_nil_of_length_eq_zero (by omega :
        ((s.io.rpcs.drop (k + 1)).filter Rpc.isReaddir).length = 0), List.nil_append]
  obtain ⟨hinitial, hreached⟩ := h.prefix_ hopen
  -- The contents of the answer.
  have hpart : ∀ e ∈ nextPart batches r, e.Ok := by
    intro e he
    unfold nextPart at he
    cases hdrop : batches.drop r.answered.length with
    | nil =>
        rw [hdrop] at he
        cases he
    | cons batch rest =>
        rw [hdrop] at he
        have hmem : batch ∈ batches :=
          List.mem_of_mem_drop (hdrop ▸ List.mem_cons_self : batch ∈ batches.drop _)
        exact ((hb batch hmem).2 e he).1
  rw [nfsReaddirCb_readdirMessage hpart, Option.some.injEq, ReaddirArgs.mk.injEq] at hreply
  obtain ⟨-, -, hnames, hcookie⟩ := hreply
  obtain ⟨sent, hrpcs, hlookups, hreaddir⟩ :=
    listPart_sends { s.io.cleared with rpcs := s.io.rpcs.eraseIdx k } reply
  rw [← hs'] at hrpcs hlookups
  have hrpcs : s'.io.rpcs = s.io.rpcs.eraseIdx k ++ sent := hrpcs
  have hflag : s'.io.fileCacheInitialized = !decide (reply.nextCookie > 0) := by
    obtain ⟨-, -, hflag⟩ :=
      Io.listPart_effects { s.io.cleared with rpcs := s.io.rpcs.eraseIdx k } reply
    rw [hs', hflag]
    show (s.io.fileCacheInitialized || _) = _
    rw [hopen, Bool.false_or]
  have hrecord : recordListing batches s (.nfsReply k reply) s' r =
      ⟨r.answered ++ [nextPart batches r],
        lookedUp (r.answered ++ [nextPart batches r])⟩ := by
    unfold recordListing
    rw [if_pos hanswers, hrpcs]
    show (⟨_, r.lookups ++ ((s.io.rpcs.eraseIdx k ++ sent).drop
      (s.io.rpcs.eraseIdx k).length).filterMap _⟩ : ListingHistory) = _
    rw [List.drop_left, hlookups, NfsReply.listed, ← hnames, h.looked hopen, lookedUp_append]
  have hsent : s'.io.rpcs.filter Rpc.isReaddir =
      if reply.nextCookie > 0 then [.readdir reply.nextCookie] else [] := by
    rw [hrpcs, List.filter_append, hrest, List.nil_append, hreaddir]
  have hcookie' : ListingHistory.cookie ⟨r.answered ++ [nextPart batches r],
      lookedUp (r.answered ++ [nextPart batches r])⟩ = lastCookie 0 (nextPart batches r) := by
    unfold ListingHistory.cookie
    rw [List.getLastD_concat]
  have hlength_le : (r.answered ++ [nextPart batches r]).length ≤ batches.length + 1 := by
    have hle := hinitial.length_le
    rw [List.length_append, List.length_singleton]
    omega
  rw [hrecord]
  cases hdrop : batches.drop r.answered.length with
  | nil =>
      -- The empty part behind the last one.
      have hempty : nextPart batches r = [] := by
        unfold nextPart
        rw [hdrop]
        rfl
      have hlast : ¬ reply.nextCookie > 0 := by
        rw [← hcookie, hempty]
        decide
      have hdone : s'.io.fileCacheInitialized = true := by
        rw [hflag, decide_eq_false hlast, Bool.not_false]
      rw [hdrop, reached, List.append_nil] at hreached
      rw [if_neg hlast] at hsent
      refine ⟨?_, ?_, ?_, fun _ => hsent, fun _ => ?_, hlength_le⟩
      · exact fun hno => absurd (hdone.symm.trans hno) Bool.true_eq_false.mp
      · exact fun hno => absurd (hdone.symm.trans hno) Bool.true_eq_false.mp
      · exact fun hno => absurd (hdone.symm.trans hno) Bool.true_eq_false.mp
      · show lookedUp (r.answered ++ [nextPart batches r]) = lookedUp (reached batches)
        rw [lookedUp_append, hempty, hreached]
        exact List.append_nil _
  | cons batch rest =>
      have hbatch : nextPart batches r = batch := by
        unfold nextPart
        rw [hdrop]
        rfl
      have hmem : batch ∈ batches :=
        List.mem_of_mem_drop (hdrop ▸ List.mem_cons_self : batch ∈ batches.drop _)
      obtain ⟨hlt, hne⟩ := lastCookie_ok (hb batch hmem).1 (hb batch hmem).2
      rw [hdrop] at hreached
      rw [hbatch] at hcookie hcookie' hlength_le ⊢
      have hsplit : r.answered ++ batch :: rest = batches := by
        rw [← hdrop]
        exact List.prefix_iff_eq_append.mp hinitial
      by_cases hmore : lastCookie 0 batch < 2 ^ 31
      · -- the part is followed by another request
        have hpos : reply.nextCookie > 0 := by
          rw [← hcookie]
          exact (toInt32_pos_iff hlt).mpr ⟨hne, hmore⟩
        have hopen' : s'.io.fileCacheInitialized = false := by
          rw [hflag, decide_eq_true hpos, Bool.not_true]
        rw [if_pos hpos] at hsent
        refine ⟨fun _ => ?_, fun _ => ⟨?_, ?_⟩, fun _ => rfl, ?_, ?_, hlength_le⟩
        · rw [hsent, ← hcookie, hcookie']
        · exact ⟨rest, by rw [List.append_assoc, List.singleton_append, hsplit]⟩
        · rw [hreached, reached, if_pos hmore]
          show _ = (r.answered ++ [batch]) ++ reached (batches.drop (r.answered ++ [batch]).length)
          rw [List.length_append, List.length_singleton, ← List.drop_drop, hdrop,
            List.append_assoc]
          rfl
        · exact fun hno => absurd (hopen'.symm.trans hno) Bool.false_eq_true.mp
        · exact fun hno => absurd (hopen'.symm.trans hno) Bool.false_eq_true.mp
      · -- the cookie is negative, and the listing ends here
        have hlast : ¬ reply.nextCookie > 0 := by
          rw [← hcookie]
          exact fun hpos => hmore ((toInt32_pos_iff hlt).mp hpos).2
        have hdone : s'.io.fileCacheInitialized = true := by
          rw [hflag, decide_eq_false hlast, Bool.not_false]
        rw [if_neg hlast] at hsent
        refine ⟨?_, ?_, ?_, fun _ => hsent, fun _ => ?_, hlength_le⟩
        · exact fun hno => absurd (hdone.symm.trans hno) Bool.true_eq_false.mp
        · exact fun hno => absurd (hdone.symm.trans hno) Bool.true_eq_false.mp
        · exact fun hno => absurd (hdone.symm.trans hno) Bool.true_eq_false.mp
        · rw [hreached, reached, if_neg hmore]

/-- Every step keeps the chain of requests, by cases on the action. -/
theorem Listing.step {null : Option (List UInt8)} {batches : List (List DirEntry)}
    {s s' : FileServer} {r : ListingHistory} {a : FileAction} (h : Listing batches s r)
    (hb : Splits batches) (hok : ServesNext batches (s, r) a)
    (hs : (machine null).step s a = some s') :
    Listing batches s' (recordListing batches s a s' r) := by
  cases step_listing hs with
  | inl hother =>
      obtain ⟨hnot, hflag, sent, hrpcs, hsent⟩ := hother
      exact h.other hnot hflag hrpcs hsent
  | inr hanswer =>
      obtain ⟨k, reply, cookie, rfl, hrpc, hs'⟩ := hanswer
      obtain ⟨⟨eof, hreply⟩, -⟩ := hok (answersReaddir_iff.mpr ⟨cookie, hrpc⟩)
      exact h.answer hb hrpc hreply (Io.nfsReaddirCallback_some hs').2

/-- After booting the first part has been asked for. -/
theorem boot_listing {batches : List (List DirEntry)} {rootThread : ThreadId}
    {heap : FileTableEntry} {s : FileServer} (h : boot rootThread heap = some s) :
    Listing batches s ⟨[], []⟩ := by
  obtain rfl := Option.some.inj h
  have hnot : ¬ false = true := Bool.false_ne_true
  refine ⟨fun _ => rfl, fun _ => ⟨List.nil_prefix, rfl⟩, fun _ => rfl, ?_, ?_, Nat.zero_le _⟩
  · exact fun hno => absurd hno hnot
  · exact fun hno => absurd hno hnot

/-- By induction on the run. -/
theorem Reachable.listing {null : Option (List UInt8)} {batches : List (List DirEntry)}
    {s : FileServer} {r : ListingHistory} (hb : Splits batches)
    (h : (filling null batches).Reachable (ServesNext batches) (s, r)) : Listing batches s r := by
  refine h.invariant (fun x => Listing batches x.1 x.2) ?_ ?_
  · intro x hinit
    obtain ⟨⟨rootThread, heap, hboot⟩, hr⟩ := hinit
    rw [hr]
    exact boot_listing hboot
  · intro x a x' hI hok hs
    obtain ⟨hstep, hr⟩ := Lib.Machine.withHistory_step hs
    rw [hr]
    exact hI.step hb hok hstep

/-- The answer to a request for the directory is handled exactly if there is a buffer for each
request that the callback makes. -/
theorem step_readdir_iff {null : Option (List UInt8)} {s : FileServer} {k : Nat} {cookie : Int}
    (hrpc : s.io.rpcs[k]? = some (.readdir cookie)) (reply : NfsReply) :
    (∃ s', (machine null).step s (.nfsReply k reply) = some s') ↔
      reply.requests ≤ reply.buffers := by
  have hen : s.Enabled (.nfsReply k reply) := (List.getElem?_eq_some_iff.mp hrpc).1
  have hrpc' : s.io.cleared.rpcs[k]? = some (.readdir cookie) := hrpc
  have hstep : (machine null).step s (.nfsReply k reply) =
      (s.io.cleared.nfsReply s.isActive k reply).map ({ s with io := · }) := by
    show (if s.Enabled (.nfsReply k reply) then _ else none) = _
    rw [if_pos hen]
    rfl
  have hreply : s.io.cleared.nfsReply s.isActive k reply =
      ({ s.io.cleared with rpcs := s.io.rpcs.eraseIdx k } : Io).nfsReaddirCallback reply := by
    unfold Io.nfsReply
    rw [hrpc', Option.bind_eq_bind, Option.bind_some]
    rfl
  -- The callback stops the server just when it sends more requests than there are buffers.
  rw [hstep, hreply, Io.nfsReaddirCallback_eq]
  constructor
  · rintro ⟨s', hs'⟩
    obtain ⟨io, hio, -⟩ := Option.map_eq_some_iff.mp hs'
    exact (Option.ite_none_right_eq_some.mp hio).1
  · intro hbuffers
    rw [if_pos hbuffers, Option.map_some]
    exact ⟨_, rfl⟩

end FileServer

open FileServer

/-- The chain of requests ends after at most one more answer than there are parts: until then
a request with the last cookie is outstanding. Its answer is handled exactly if there are
buffers for the requests of the callback; otherwise the assertion in `initbuf` stops the server
before the listing is complete. When the chain has ended, there was one lookup for every usable
entry exactly if the directory is covered. -/
theorem directory_listed_iff {null : Option (List UInt8)} {batches : List (List DirEntry)}
    {s : FileServer} {r : ListingHistory} (hb : Splits batches)
    (h : (filling null batches).Reachable (ServesNext batches) (s, r)) :
    r.answered.length ≤ batches.length + 1 ∧
    (s.io.fileCacheInitialized = false → ∃ k,
      s.io.rpcs[k]? = some (.readdir (toInt32 r.cookie)) ∧
      ∀ reply, (∃ s', (machine null).step s (.nfsReply k reply) = some s') ↔
        reply.requests ≤ reply.buffers) ∧
    (s.io.fileCacheInitialized = true → (r.lookups = usableNames batches ↔ Covered batches)) := by
  have hlisting := Reachable.listing hb h
  refine ⟨hlisting.length_le, ?_, ?_⟩
  · intro hopen
    have hmem : Rpc.readdir (toInt32 r.cookie) ∈
        s.io.rpcs.filter Rpc.isReaddir := by
      rw [hlisting.asked hopen]
      exact List.mem_singleton_self _
    obtain ⟨k, hk⟩ := List.mem_iff_getElem?.mp (List.mem_filter.mp hmem).1
    exact ⟨k, hk, step_readdir_iff hk⟩
  · intro hdone
    rw [hlisting.finished hdone]
    exact lookedUp_iff batches

/-- Two parts: the first executable, and a directory and a file. -/
def twoParts : List (List DirEntry) :=
  [[⟨1, shell, 5⟩], [⟨2, ".".toUTF8.toList, 6⟩, ⟨3, "notes".toUTF8.toList, 7⟩]]

/-- A part of the listing that ends with this cookie. -/
def listingPart (names : List (List UInt8)) (cookie : Int) : NfsReply :=
  { listing names with nextCookie := cookie }

/-- A directory that comes in two parts, whose names are all looked up. -/
theorem directory_listed_iff_twoParts : ∃ (s : FileServer) (r : ListingHistory),
    s.io.fileCacheInitialized = true ∧ r.lookups = usableNames twoParts ∧ Covered twoParts := by
  have hsplits : Splits twoParts := by decide +kernel
  obtain ⟨⟨s, r⟩, -, hreach, hdone, hlookups⟩ := Lib.Machine.exists_run (filling none twoParts)
    (ServesNext twoParts)
    (show (filling none twoParts).init (booted, ⟨[], []⟩) from ⟨booted_init, rfl⟩)
    [.nfsReply 1 (listingPart [shell] 5),
      .nfsReply 2 (listingPart [".".toUTF8.toList, "notes".toUTF8.toList] 7), .nfsReply 3 (listing [])]
    (fun x => x.1.io.fileCacheInitialized = true ∧ x.2.lookups = usableNames twoParts)
    (by decide +kernel)
  exact ⟨s, r, hdone, hlookups, ((directory_listed_iff hsplits hreach).2.2 hdone).mp hlookups⟩

/-- The cookie of the first part is 2 ^ 31. -/
def largeCookie : List (List DirEntry) :=
  [[⟨1, ".".toUTF8.toList, 2 ^ 31⟩], [⟨2, shell, 2 ^ 31 + 1⟩]]

/-- The first executable is not looked up. -/
theorem listing_stops_early : ∃ (s : FileServer) (r : ListingHistory), Splits largeCookie ∧
    (filling none largeCookie).Reachable (ServesNext largeCookie) (s, r) ∧
    s.io.fileCacheInitialized = true ∧ r.lookups = [] ∧ usableNames largeCookie = [shell] := by
  obtain ⟨⟨s, r⟩, -, hreach, hdone, hlookups⟩ := Lib.Machine.exists_run (filling none largeCookie)
    (ServesNext largeCookie)
    (show (filling none largeCookie).init (booted, ⟨[], []⟩) from ⟨booted_init, rfl⟩)
    [.nfsReply 1 (listingPart [".".toUTF8.toList] (-2 ^ 31))]
    (fun x => x.1.io.fileCacheInitialized = true ∧ x.2.lookups = []) (by decide +kernel)
  exact ⟨s, r, by decide +kernel, hreach, hdone, hlookups, by decide +kernel⟩

/-- A directory of 60 files, in parts of ten. -/
def sixtyFiles : List (List DirEntry) :=
  (List.range 6).map fun k => (List.range 10).map fun i =>
    ⟨10 * k + i + 1, [UInt8.ofNat (97 + k), UInt8.ofNat (97 + i)], 10 * k + i + 1⟩

/-- The first four parts, and no answer to a lookup: there are ten more requests each time. -/
def fourParts : List FileAction :=
  (List.range 4).map fun k => .nfsReply (1 + 10 * k)
    { listingPart ((sixtyFiles.getD k []).map (·.name)) (10 * k + 10) with
      buffers := maxRequests - (2 + 10 * k) }

/-- The fifth part needs eleven more buffers, and there are eight. The directory is covered. -/
theorem listing_out_of_buffers : ∃ (s : FileServer) (r : ListingHistory), Covered sixtyFiles ∧
    (filling none sixtyFiles).Reachable (ServesNext sixtyFiles) (s, r) ∧
    s.io.fileCacheInitialized = false ∧ r.lookups.length = 40 ∧
    ∀ k reply, s.answersReaddir (.nfsReply k reply) = true →
      ServesNext sixtyFiles (s, r) (.nfsReply k reply) →
      (machine none).step s (.nfsReply k reply) = none := by
  obtain ⟨⟨s, r⟩, -, hreach, hopen, hlookups, hanswered, hlength⟩ :=
    Lib.Machine.exists_run (filling none sixtyFiles) (ServesNext sixtyFiles)
      (show (filling none sixtyFiles).init (booted, ⟨[], []⟩) from ⟨booted_init, rfl⟩) fourParts
      (fun x => x.1.io.fileCacheInitialized = false ∧ x.2.lookups.length = 40 ∧
        x.2.answered.length = 4 ∧ x.1.io.rpcs.length = 42) (by decide +kernel)
  have hsplits : Splits sixtyFiles := by decide +kernel
  have hcovered : Covered sixtyFiles := (lookedUp_iff sixtyFiles).mp (by decide +kernel)
  refine ⟨s, r, hcovered, hreach, hopen, hlookups, fun k reply hanswers hserves => ?_⟩
  obtain ⟨⟨eof, hreply⟩, hbuffers⟩ := hserves hanswers
  -- The contents of the fifth part.
  have hpart : nextPart sixtyFiles r = sixtyFiles.getD 4 [] := by
    unfold nextPart
    rw [hanswered]
    rfl
  rw [hpart, nfsReaddirCb_readdirMessage (by decide +kernel), Option.some.injEq,
    ReaddirArgs.mk.injEq] at hreply
  obtain ⟨-, -, hnames, hcookie⟩ := hreply
  have hrequests : reply.requests = 11 := by
    unfold NfsReply.requests NfsReply.listed
    rw [← hnames, ← hcookie]
    decide +kernel
  have hfull : ¬ reply.requests ≤ reply.buffers := by
    have hmax : maxRequests = 50 := rfl
    rw [hlength, hmax] at hbuffers
    omega
  obtain ⟨cookie, hrpc⟩ := answersReaddir_iff.mp hanswers
  refine Option.eq_none_iff_forall_ne_some.mpr fun s' hs' => hfull ?_
  exact (step_readdir_iff hrpc reply).mp ⟨s', hs'⟩

end Sos
