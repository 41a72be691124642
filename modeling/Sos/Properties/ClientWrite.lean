import Mathlib.Algebra.Ring.Int.Defs
import Sos.Client.Stubs
import Sos.Properties.Creation

/-!
# `Sos.Properties.ClientWrite`: `write` of `libsos` splits a buffer

`SplitsBuffer` is what a caller of `write` expects: the chunks fit into the memory to which the
pager grants access, they are consecutive pieces of the buffer, and the result is the error of
the server, or the number of bytes that it has written.

`write_iff`: this is so if and only if the buffer is not larger than a page, and its only chunk
is not written in part. The chunks are as large as `IPC_MEMORY_SIZE`, sixteen pages, and a chunk
that is written in part counts nothing.
-/

set_option autoImplicit false

namespace Sos

namespace Client

variable {server : Nat → List Nat → Nat} {file : Nat} {buf : List UInt8}

/-- The replies of the server to the chunks. -/
def replies (server : Nat → List Nat → Nat) (file : Nat) (chunks : List (List UInt8)) : List Int :=
  chunks.mapIdx fun k chunk => toInt32 (server k [file, chunk.length])

/-- What the replies say in the whole: the error, or the number of bytes that were written. -/
def written (replies : List Int) : Int := (replies.find? (· < 0)).getD replies.sum

/-- Every reply is an error, or a count up to the size of the chunk. -/
def CountsWithin (server : Nat → List Nat → Nat) (file : Nat) : Prop :=
  ∀ k toSend, toInt32 (server k [file, toSend]) ≤ toSend

/-- A call of `write` sends the buffer in pieces and returns what has been written. -/
structure SplitsBuffer (s : Mm) (tid : ThreadId) (server : Nat → List Nat → Nat) (file : Nat)
    (buf : List UInt8) : Prop where
  granted : ∀ chunk ∈ (write server file (some buf)).1, ∀ i < chunk.length,
    s.isAccessGranted tid (ipcMemoryStart + i) writable = true
  pieces : (write server file (some buf)).1.flatten <+: buf
  returned : (write server file (some buf)).2 =
    written (replies server file (write server file (some buf)).1)

/-! ### The IPC page -/

/-- The first page from `IPC_MEMORY_START` is the IPC page, and the next is nobody's. -/
theorem getAccessRights_ipc (s : Mm) (tid : ThreadId) {i : Nat} (hi : i ≤ 4096) :
    s.getAccessRights tid (ipcMemoryStart + i) =
      if i < 4096 then readWriteOnly else noAccess := by
  have hstart : ipcMemoryStart = 0x60000000 := rfl
  obtain ⟨h1, h2, h3, h4, h5, h6, h7, h8, h9, h10, h11⟩ := layout
  simp only [Mm.getAccessRights, hstart, h1, h2, h3, h4, h5, h6, h7, h8, h9, h10, h11]
  split_ifs <;> first | rfl | omega

/-- So the pager lets a client write up to the end of its IPC page. -/
theorem isAccessGranted_ipc_iff (s : Mm) (tid : ThreadId) {i : Nat} (hi : i ≤ 4096) :
    s.isAccessGranted tid (ipcMemoryStart + i) writable = true ↔ i < 4096 := by
  rw [Mm.isAccessGranted, getAccessRights_ipc s tid hi]
  by_cases hlt : i < 4096
  · rw [if_pos hlt]
    exact iff_of_true rfl hlt
  · rw [if_neg hlt]
    exact iff_of_false (by decide) hlt

/-- A chunk is inside of the memory to which there is access if it fits into a page. -/
theorem granted_iff (s : Mm) (tid : ThreadId) (chunk : List UInt8) :
    (∀ i < chunk.length, s.isAccessGranted tid (ipcMemoryStart + i) writable = true) ↔
      chunk.length ≤ 4096 := by
  constructor
  · intro h
    by_contra hlong
    -- The byte behind the page is where access ends.
    have hend := (isAccessGranted_ipc_iff s tid (Nat.le_refl 4096)).mp (h 4096 (by omega))
    exact Nat.lt_irrefl _ hend
  · intro hle i hi
    exact (isAccessGranted_ipc_iff s tid (by omega)).mpr (by omega)

/-! ### The loop -/

/-- The chunks are consecutive pieces, whatever the server replies. -/
theorem writeLoop_pieces (nbyte : Nat) (server : Nat → Nat → Nat) (realdata : List UInt8)
    (notSentCount : Int) :
    (writeLoop nbyte server realdata notSentCount).1.flatten <+: realdata := by
  induction server, realdata, notSentCount using writeLoop.induct nbyte with
  -- The server reports an error: the loop returns.
  | case1 server realdata notSentCount hpos toSend sent herror =>
      rw [writeLoop, if_pos hpos]
      simp only
      rw [if_pos herror, List.flatten_singleton]
      exact List.take_prefix _ _
  -- A part of the chunk has been written: the loop returns as well.
  | case2 server realdata notSentCount hpos toSend sent hcount hpart =>
      rw [writeLoop, if_pos hpos]
      simp only
      rw [if_neg hcount, if_pos hpart, List.flatten_singleton]
      exact List.take_prefix _ _
  -- The whole chunk has been written: the rest of the buffer follows.
  | case3 server realdata notSentCount hpos toSend sent hcount hall ih =>
      rw [writeLoop, if_pos hpos]
      simp only
      rw [if_neg hcount, if_neg hall, List.flatten_cons]
      conv_rhs => rw [← List.take_append_drop toSend realdata]
      exact (List.prefix_append_right_inj _).mpr ih
  | case4 server realdata notSentCount hdone =>
      rw [writeLoop, if_neg hdone, List.flatten_nil]
      exact List.nil_prefix

/-! ### The first chunk -/

/-- The shortcut for no bytes returns what the loop would. -/
theorem write_eq_writeLoop (server : Nat → List Nat → Nat) (file : Nat) (buf : List UInt8) :
    write server file (some buf) = writeLoop buf.length (fun k toSend => server k [file, toSend])
      buf (toInt32 buf.length) := by
  cases buf with
  | nil =>
      rw [writeLoop]
      rfl
  | cons b rest => rfl

/-- A buffer that is not larger than `IPC_MEMORY_SIZE` is one chunk, and what is returned depends
on the reply to it. -/
theorem write_one (server : Nat → List Nat → Nat) (file : Nat) (hpos : 0 < buf.length)
    (hsmall : buf.length ≤ ipcMemorySize) : write server file (some buf) = ([buf],
      if toInt32 (server 0 [file, buf.length]) < 0 then toInt32 (server 0 [file, buf.length])
      else if toInt32 (server 0 [file, buf.length]) ≠ buf.length then 0
      else buf.length) := by
  have hint : toInt32 buf.length = buf.length :=
    toInt32_of_lt (Nat.lt_of_le_of_lt hsmall (by decide))
  have hsend : (min (ipcMemorySize : Int) buf.length).toNat = buf.length := by omega
  rw [write_eq_writeLoop, hint, writeLoop, if_pos (by omega)]
  simp only [hsend, List.take_length, Int.sub_self]
  by_cases herror : toInt32 (server 0 [file, buf.length]) < 0
  · rw [if_pos herror, if_pos herror]
  · by_cases hpart : toInt32 (server 0 [file, buf.length]) ≠ buf.length
    · rw [if_neg herror, if_neg herror, if_pos hpart, if_pos hpart]
      rfl
    · rw [if_neg herror, if_neg herror, if_neg hpart, if_neg hpart, writeLoop,
        if_neg (Int.lt_irrefl 0), hint]

/-- The first chunk of a larger buffer is as large as `IPC_MEMORY_SIZE`. -/
theorem write_large (server : Nat → List Nat → Nat) (file : Nat)
    (hlarge : ipcMemorySize < buf.length) (hint : buf.length < 2 ^ 31) :
    buf.take ipcMemorySize ∈ (write server file (some buf)).1 := by
  have hsend : (min (ipcMemorySize : Int) buf.length).toNat = ipcMemorySize := by omega
  rw [write_eq_writeLoop, toInt32_of_lt hint, writeLoop, if_pos (by omega)]
  simp only [hsend]
  split_ifs
  · exact List.mem_singleton_self _
  · exact List.mem_singleton_self _
  · exact List.mem_cons_self

/-- The pieces of a large buffer reach behind the memory with access. -/
theorem exists_long_chunk (server : Nat → List Nat → Nat) (file : Nat) (buf : List UInt8)
    (hlarge : 4096 < buf.length) (hint : buf.length < 2 ^ 31) :
    ∃ chunk ∈ (write server file (some buf)).1, 4096 < chunk.length := by
  by_cases hsmall : buf.length ≤ ipcMemorySize
  · rw [write_one server file (by omega) hsmall]
    exact ⟨buf, List.mem_singleton_self _, hlarge⟩
  · refine ⟨_, write_large server file (Nat.not_le.mp hsmall) hint, ?_⟩
    rw [List.length_take]
    exact lt_min (by decide) hlarge

/-- The size of a larger buffer is taken for a negative number: nothing is sent. -/
theorem write_negative (server : Nat → List Nat → Nat) (file : Nat) (hword : buf.length < 2 ^ 32)
    (hint : 2 ^ 31 ≤ buf.length) :
    write server file (some buf) = ([], (buf.length : Int) - 2 ^ 32) := by
  have hneg : toInt32 buf.length = (buf.length : Int) - 2 ^ 32 := by
    rw [toInt32, Nat.mod_eq_of_lt hword, if_neg (by omega)]
  rw [write_eq_writeLoop, hneg, writeLoop, if_neg (by omega), hneg]

/-! ### The main result -/

/-- One reply says what has been written, or the error. -/
theorem written_singleton (sent : Int) : written [sent] = sent := by
  rw [written, List.find?_singleton, List.sum_singleton]
  split <;> rfl

/-- What is returned for one chunk is what the server has written if and only if that is not a
part of it. -/
theorem returned_one_iff (hcounts : CountsWithin server file) (hpos : 0 < buf.length)
    (hsmall : buf.length ≤ ipcMemorySize) :
    (write server file (some buf)).2 =
        written (replies server file (write server file (some buf)).1) ↔
      ¬ (0 < toInt32 (server 0 [file, buf.length]) ∧
        toInt32 (server 0 [file, buf.length]) < buf.length) := by
  have hle := hcounts 0 buf.length
  rw [write_one server file hpos hsmall]
  show _ = written [toInt32 (server 0 [file, buf.length])] ↔ _
  generalize toInt32 (server 0 [file, buf.length]) = sent at hle
  by_cases herror : sent < 0
  · rw [written_singleton, if_pos herror]
    omega
  · rw [written_singleton, if_neg herror]
    split_ifs <;> omega

/-- `write` splits the buffer and returns what has been written if and only if the buffer is not
larger than a page, and the server does not write a part of it. -/
theorem write_iff (s : Mm) (tid : ThreadId) (hlength : buf.length < 2 ^ 32)
    (hcounts : CountsWithin server file) : SplitsBuffer s tid server file buf ↔
      buf.length ≤ 4096 ∧ ¬ (0 < toInt32 (server 0 [file, buf.length]) ∧
        toInt32 (server 0 [file, buf.length]) < buf.length) := by
  constructor
  · intro h
    -- A longer buffer has a chunk behind the page, or is taken for a negative size.
    have hpage : buf.length ≤ 4096 := by
      by_contra hlarge
      by_cases hint : buf.length < 2 ^ 31
      · obtain ⟨chunk, hchunk, hlong⟩ :=
          exists_long_chunk server file buf (Nat.not_le.mp hlarge) hint
        have hfits := (granted_iff s tid chunk).mp (h.granted chunk hchunk)
        omega
      · have hreturned := h.returned
        rw [write_negative server file hlength (Nat.not_lt.mp hint)] at hreturned
        have hnothing : (buf.length : Int) - 2 ^ 32 = 0 := hreturned
        omega
    refine ⟨hpage, ?_⟩
    rcases Nat.eq_zero_or_pos buf.length with hzero | hpos
    · omega
    · exact (returned_one_iff hcounts hpos (hpage.trans (by decide))).mp h.returned
  · rintro ⟨hpage, hwhole⟩
    constructor
    case pieces =>
      rw [write_eq_writeLoop]
      exact writeLoop_pieces _ _ _ _
    case granted =>
      intro chunk hchunk
      rcases Nat.eq_zero_or_pos buf.length with hzero | hpos
      · rw [List.length_eq_zero_iff.mp hzero] at hchunk
        cases hchunk
      · rw [write_one server file hpos (hpage.trans (by decide))] at hchunk
        obtain rfl := List.mem_singleton.mp hchunk
        exact (granted_iff s tid _).mpr hpage
    case returned =>
      rcases Nat.eq_zero_or_pos buf.length with hzero | hpos
      · rw [List.length_eq_zero_iff.mp hzero]
        rfl
      · exact (returned_one_iff hcounts hpos (hpage.trans (by decide))).mpr hwhole

/-! ### Three calls -/

/-- A server that writes as much of a chunk as there is space for. -/
def spaceFor (space : Nat) (_ : Nat) (words : List Nat) : Nat := min space (words.getD 1 0)

/-- A device with limited space takes no more than it is given. -/
theorem spaceFor_countsWithin {space : Nat} (hspace : space < 2 ^ 31) (file : Nat) :
    CountsWithin (spaceFor space) file := by
  intro k toSend
  have hcount : spaceFor space k [file, toSend] = min space toSend := rfl
  rw [hcount, toInt32_of_lt (Nat.lt_of_le_of_lt (min_le_left _ _) hspace)]
  omega

/-- A short text is written. -/
theorem write_iff_text :
    SplitsBuffer bootedMm (threadId 1) (spaceFor 100) 3 [116, 101, 120, 116] :=
  (write_iff _ _ (by decide) (spaceFor_countsWithin (by decide) 3)).mpr (by decide)

/-- The last byte of a buffer that is one byte larger than a page is stored where there is no
access. When there is space for one byte of a text, that is written, but nothing is counted. -/
theorem larger_than_page :
    ¬ SplitsBuffer bootedMm (threadId 1) (spaceFor 10000) 3 (List.replicate 4097 0) ∧
      ¬ SplitsBuffer bootedMm (threadId 1) (spaceFor 1) 3 [116, 101, 120, 116] := by
  constructor
  · intro h
    obtain ⟨chunk, hchunk, hlong⟩ := exists_long_chunk (spaceFor 10000) 3
      (List.replicate 4097 0) (by rw [List.length_replicate]; decide)
      (by rw [List.length_replicate]; decide)
    have hfits := (granted_iff bootedMm (threadId 1) chunk).mp (h.granted chunk hchunk)
    omega
  · intro h
    exact (returned_one_iff (spaceFor_countsWithin (by decide) 3) (by decide) (by decide)).mp
      h.returned (by decide)

end Client

end Sos
