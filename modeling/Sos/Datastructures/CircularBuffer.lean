import Mathlib.Algebra.Group.Int.Defs
import Mathlib.Algebra.Group.Nat.Defs
import Mathlib.Logic.Function.Basic

/-!
# `Sos.Datastructures.CircularBuffer`: the buffer of the console

`datastructures/circular_buffer.c`. A read copies what is stored, in one or two pieces, to
the start of the destination, however much the caller has asked for, and returns how much of
it was asked for.

* `CircularBuffer.copied_lt`: a read copies less than the size of the buffer.
* `contents_write`, `contents_read`: the buffer is a queue. A write puts a character behind its
  contents unless it is full, and a read takes characters off the front.
-/

set_option autoImplicit false

namespace Sos

structure CircularBuffer where
  readPosition : Nat
  writePosition : Nat
  buffer : Nat → UInt8
  size : Nat
  overflow : Bool

namespace CircularBuffer

/-- `(size + write_position - read_position) % size`, in `int` arithmetic, as the word it is
converted to: the number of characters in the buffer, unless the sum overflows. -/
def stored (cb : CircularBuffer) : Nat :=
  let sum := ((cb.size : Int) + cb.writePosition - cb.readPosition).bmod (2 ^ 32)
  (sum.tmod cb.size % 2 ^ 32).toNat

/-- The number of bytes the `memcpy` calls of `circular_buffer_read` store. -/
def copied (cb : CircularBuffer) : Nat :=
  if cb.readPosition < cb.writePosition then cb.writePosition - cb.readPosition
  else cb.size - cb.readPosition + cb.writePosition

/-- The bytes those calls store, from the start of the destination. -/
def copy (cb : CircularBuffer) (i : Nat) : UInt8 :=
  if cb.readPosition < cb.writePosition then cb.buffer (cb.readPosition + i)
  else if i < cb.size - cb.readPosition then cb.buffer (cb.readPosition + i)
  else cb.buffer (i - (cb.size - cb.readPosition))

/-- `max_read` and `readable` of `circular_buffer_read`. `to_read` is a signed 32-bit value,
given as its word, and `readable` is computed with unsigned words. -/
def readable (cb : CircularBuffer) (toRead : Nat) : Nat :=
  let maxRead := if 2 ^ 31 ≤ toRead then toRead else min toRead (cb.size - 1)
  min cb.stored maxRead

/-- `circular_buffer_read`, without the copy: the buffer afterwards and what it returns. -/
def read (cb : CircularBuffer) (toRead : Nat) : CircularBuffer × Nat :=
  let readable := cb.readable toRead
  if readable > 0 then
    ({ cb with
        overflow := false
        readPosition := (cb.readPosition + readable) % 2 ^ 32 % cb.size }, readable)
  else (cb, readable)

/-- `circular_buffer_write` of one character. It returns the number of characters stored. -/
def write (cb : CircularBuffer) (c : UInt8) : CircularBuffer × Nat :=
  if cb.overflow then (cb, 0)
  else
    let cb := { cb with
      buffer := Function.update cb.buffer cb.writePosition c
      writePosition := (cb.writePosition + 1) % cb.size }
    if (cb.writePosition + 1) % cb.size = cb.readPosition then ({ cb with overflow := true }, 1)
    else (cb, 1)

/-- The positions are inside the buffer. -/
def Valid (cb : CircularBuffer) : Prop :=
  cb.readPosition < cb.size ∧ cb.writePosition < cb.size

/-- A read keeps the positions within the buffer. -/
theorem Valid.read {cb : CircularBuffer} (h : cb.Valid) (toRead : Nat) :
    (cb.read toRead).1.Valid ∧ (cb.read toRead).1.size = cb.size := by
  unfold CircularBuffer.read
  dsimp only
  split
  · exact ⟨⟨Nat.mod_lt _ (Nat.zero_lt_of_lt h.1), h.2⟩, rfl⟩
  · exact ⟨h, rfl⟩

/-- So does a write. -/
theorem Valid.write {cb : CircularBuffer} (h : cb.Valid) (c : UInt8) :
    (cb.write c).1.Valid ∧ (cb.write c).1.size = cb.size := by
  have hmod : (cb.writePosition + 1) % cb.size < cb.size := Nat.mod_lt _ (Nat.zero_lt_of_lt h.1)
  unfold CircularBuffer.write
  split
  · exact ⟨h, rfl⟩
  · dsimp only
    split
    · exact ⟨⟨h.1, hmod⟩, rfl⟩
    · exact ⟨⟨h.1, hmod⟩, rfl⟩

/-- The sum of `stored`, before it is an `int`. -/
def sum (cb : CircularBuffer) : Nat := cb.size + cb.writePosition - cb.readPosition

/-- The buffers for which the sum of `stored` is an `int`. -/
def Fits (cb : CircularBuffer) : Prop := cb.size ≤ 2 ^ 30

/-- The sum in the source is not negative. -/
theorem sum_of_valid {cb : CircularBuffer} (h : cb.Valid) :
    (cb.size : Int) + cb.writePosition - cb.readPosition = (cb.sum : Int) := by
  have hr := h.1
  unfold sum
  omega

/-- As long as the sum is an `int`, its remainder is what is stored. -/
theorem stored_of_sum {cb : CircularBuffer} (h : cb.Valid) (hsize : cb.size < 2 ^ 31)
    (hsum : cb.sum < 2 ^ 31) : cb.stored = cb.sum % cb.size := by
  have hlt : cb.sum % cb.size < cb.size := Nat.mod_lt _ (Nat.zero_lt_of_lt h.1)
  unfold stored
  dsimp only
  rw [sum_of_valid h, Int.bmod_eq_of_le (by omega) (by omega), ← Int.ofNat_tmod,
    Int.emod_eq_of_lt (by omega) (by omega), Int.toNat_natCast]

/-- A sum that is not an `int` becomes negative, and so does the remainder. -/
theorem stored_of_overflow {cb : CircularBuffer} (h : cb.Valid) (hsize : cb.size < 2 ^ 31)
    (hsum : 2 ^ 31 ≤ cb.sum) :
    cb.stored = if (2 ^ 32 - cb.sum) % cb.size = 0 then 0
      else 2 ^ 32 - (2 ^ 32 - cb.sum) % cb.size := by
  have hr := h.1
  have hw := h.2
  have hlt : (2 ^ 32 - cb.sum) % cb.size < cb.size := Nat.mod_lt _ (Nat.zero_lt_of_lt h.1)
  have hle : cb.sum < 2 ^ 32 := by
    unfold sum
    omega
  -- As an `int` the sum is negative: it lies between `2 ^ 31` and `2 ^ 32`.
  have hwrap : ((cb.sum : Nat) : Int).bmod (2 ^ 32) = -((2 ^ 32 - cb.sum : Nat) : Int) := by
    rw [Int.bmod_def]
    omega
  unfold stored
  dsimp only
  rw [sum_of_valid h, hwrap, Int.neg_tmod, ← Int.ofNat_tmod]
  -- C's remainder of a negative number is negative or zero, and as `unsigned` it is huge.
  split
  next hzero =>
    rw [hzero]
    rfl
  next hne => omega

/-- What the source computes as stored, while the sum does not overflow. -/
theorem stored_eq {cb : CircularBuffer} (h : cb.Valid) (hfits : cb.Fits) :
    cb.stored = (cb.size + cb.writePosition - cb.readPosition) % cb.size := by
  have hw := h.2
  have hsize : cb.size ≤ 2 ^ 30 := hfits
  refine stored_of_sum h (by omega) ?_
  unfold sum
  omega

/-- When there is something to return, the copy stores what the buffer holds. -/
theorem copied_eq {cb : CircularBuffer} (h : cb.Valid) (hfits : cb.Fits) {toRead : Nat}
    (hread : 0 < cb.readable toRead) : cb.copied = cb.stored := by
  have hstored : 0 < cb.stored := Nat.lt_of_lt_of_le hread (Nat.min_le_left _ _)
  have hr := h.1
  have hw := h.2
  unfold copied
  rw [stored_eq h hfits] at hstored ⊢
  split
  next hlt =>
    have hsplit : cb.size + cb.writePosition - cb.readPosition =
        cb.size + (cb.writePosition - cb.readPosition) := by omega
    rw [hsplit, Nat.add_mod_left, Nat.mod_eq_of_lt (by omega)]
  next hge =>
    -- The positions are not equal, since then nothing would be stored.
    have hne : cb.readPosition ≠ cb.writePosition := by
      intro he
      rw [he, Nat.add_sub_cancel, Nat.mod_self] at hstored
      exact Nat.lt_irrefl 0 hstored
    rw [Nat.mod_eq_of_lt (by omega)]
    omega

/-- A read copies less than the size of the buffer. -/
theorem copied_lt {cb : CircularBuffer} (h : cb.Valid) (hfits : cb.Fits) {toRead : Nat}
    (hread : 0 < cb.readable toRead) : cb.copied < cb.size := by
  rw [copied_eq h hfits hread, stored_eq h hfits]
  exact Nat.mod_lt _ (Nat.zero_lt_of_lt h.1)

/-! ### The buffer as a queue -/

/-- The number of characters in the buffer. -/
def count (cb : CircularBuffer) : Nat := (cb.size + cb.writePosition - cb.readPosition) % cb.size

/-- The characters in the buffer, the oldest first. -/
def contents (cb : CircularBuffer) : List UInt8 :=
  (List.range cb.count).map fun i => cb.buffer ((cb.readPosition + i) % cb.size)

/-- The flag says that the next position of the writer is the one of the reader. -/
structure Ok (cb : CircularBuffer) : Prop where
  valid : cb.Valid
  two_le : 2 ≤ cb.size
  overflow : cb.overflow = true ↔ (cb.writePosition + 1) % cb.size = cb.readPosition

/-- The contents have as many bytes as are stored. -/
@[simp] theorem length_contents (cb : CircularBuffer) : cb.contents.length = cb.count := by
  rw [contents, List.length_map, List.length_range]

/-- The bytes from the read position on, around the end of the buffer. -/
theorem getElem_contents (cb : CircularBuffer) {i : Nat} (h : i < cb.contents.length) :
    cb.contents[i] = cb.buffer ((cb.readPosition + i) % cb.size) := by
  simp [contents]

/-- A sum of a position and a number of characters wraps at most once. -/
theorem add_mod {size a b : Nat} (ha : a < size) (hb : b ≤ size) :
    (a + b) % size = if a + b < size then a + b else a + b - size := by
  split
  · exact Nat.mod_eq_of_lt ‹_›
  · rw [Nat.mod_eq_sub_mod (by omega), Nat.mod_eq_of_lt (by omega)]

/-- How many bytes are stored, by which position is in front. -/
theorem count_eq {cb : CircularBuffer} (h : cb.Valid) :
    cb.count = if cb.readPosition ≤ cb.writePosition then cb.writePosition - cb.readPosition
      else cb.size + cb.writePosition - cb.readPosition := by
  have hr := h.1
  have hw := h.2
  unfold count
  split
  · rw [show cb.size + cb.writePosition - cb.readPosition =
        cb.writePosition - cb.readPosition + cb.size by omega, Nat.add_mod_right,
      Nat.mod_eq_of_lt (by omega)]
  · exact Nat.mod_eq_of_lt (by omega)

/-- One byte of the buffer always stays free. -/
theorem count_lt {cb : CircularBuffer} (h : cb.Valid) : cb.count < cb.size :=
  Nat.mod_lt _ (Nat.zero_lt_of_lt h.1)

/-- The writer is behind the contents. -/
theorem writePosition_eq {cb : CircularBuffer} (h : cb.Valid) :
    cb.writePosition = (cb.readPosition + cb.count) % cb.size := by
  have hr := h.1
  have hw := h.2
  rw [add_mod h.1 (Nat.le_of_lt (count_lt h)), count_eq h]
  split
  · split <;> omega
  · split <;> omega

/-- The next position of the writer is the reader's when the buffer is full. -/
theorem next_iff {cb : CircularBuffer} (h : cb.Valid) (htwo : 2 ≤ cb.size) :
    (cb.writePosition + 1) % cb.size = cb.readPosition ↔ cb.count = cb.size - 1 := by
  have hr := h.1
  have hw := h.2
  rw [add_mod hw (by omega), count_eq h]
  split
  · split <;> omega
  · split <;> omega

/-- The flag says that the buffer is full. -/
theorem Ok.overflow_iff {cb : CircularBuffer} (h : cb.Ok) :
    cb.overflow = true ↔ cb.count = cb.size - 1 :=
  h.overflow.trans (next_iff h.valid h.two_le)

/-- A write that finds the buffer full changes nothing. -/
theorem write_full {cb : CircularBuffer} (h : cb.Ok) (hfull : cb.count = cb.size - 1) (c : UInt8) :
    cb.write c = (cb, 0) := by
  rw [write, if_pos (h.overflow_iff.mpr hfull)]

/-- A write that does not find the buffer full. -/
theorem write_eq {cb : CircularBuffer} (h : cb.Ok) (hroom : cb.count ≠ cb.size - 1) (c : UInt8) :
    cb.write c =
      ({ cb with
          buffer := Function.update cb.buffer cb.writePosition c
          writePosition := (cb.writePosition + 1) % cb.size
          overflow := decide
            (((cb.writePosition + 1) % cb.size + 1) % cb.size = cb.readPosition) }, 1) := by
  have hover : cb.overflow = false := by
    rw [← Bool.not_eq_true, h.overflow_iff]
    exact hroom
  unfold write
  rw [hover, if_neg Bool.false_ne_true]
  dsimp only
  split
  next he => rw [decide_eq_true he]
  next he => rw [decide_eq_false he]

/-- A write keeps a buffer good. -/
theorem Ok.write {cb : CircularBuffer} (h : cb.Ok) (c : UInt8) : (cb.write c).1.Ok := by
  by_cases hfull : cb.count = cb.size - 1
  · rw [write_full h hfull]
    exact h
  · refine ⟨(h.valid.write c).1, ?_, ?_⟩
    · rw [(h.valid.write c).2]
      exact h.two_le
    · rw [write_eq h hfull]
      exact decide_eq_true_iff

/-- A write puts the character behind the contents, unless the buffer is full. -/
theorem contents_write {cb : CircularBuffer} (h : cb.Ok) (hroom : cb.count ≠ cb.size - 1)
    (c : UInt8) : (cb.write c).1.contents = cb.contents ++ [c] := by
  have hcount := count_lt h.valid
  have hr := h.valid.1
  have hw := h.valid.2
  -- One character more, and the writer's position was behind the others.
  have hmore : (cb.write c).1.count = cb.count + 1 := by
    rw [count_eq (h.valid.write c).1, write_eq h hroom]
    dsimp only
    have hold := count_eq h.valid
    rw [add_mod hw (by have := h.two_le; omega)]
    split at hold
    · split <;> split at * <;> omega
    · split <;> split at * <;> omega
  unfold contents
  rw [hmore, List.range_succ, List.map_append, write_eq h hroom]
  dsimp only
  congr 1
  · apply List.map_congr_left
    intro i hi
    have hi := List.mem_range.mp hi
    rw [Function.update_of_ne]
    rw [writePosition_eq h.valid, add_mod hr (by omega), add_mod hr (by omega)]
    split <;> split <;> omega
  · rw [List.map_singleton, ← writePosition_eq h.valid, Function.update_self]

/-- A read moves the position of the reader over what it returns. -/
theorem read_eq (cb : CircularBuffer) (toRead : Nat) :
    cb.read toRead =
      (if cb.readable toRead > 0 then
        { cb with
          overflow := false
          readPosition := (cb.readPosition + cb.readable toRead) % 2 ^ 32 % cb.size }
      else cb, cb.readable toRead) := by
  unfold read
  dsimp only
  split
  · rfl
  · rfl

/-- A read gets no more than is stored. -/
theorem readable_le {cb : CircularBuffer} (h : cb.Valid) (hfits : cb.Fits) (toRead : Nat) :
    cb.readable toRead ≤ cb.count := by
  unfold readable
  rw [stored_eq h hfits]
  exact Nat.min_le_left _ _

/-- For a length that is not negative a read returns what is there of it. -/
theorem readable_eq {cb : CircularBuffer} (h : cb.Valid) (hfits : cb.Fits) {n : Nat}
    (hn : n < 2 ^ 31) : cb.readable n = min n cb.count := by
  have hcount := count_lt h
  unfold readable
  rw [stored_eq h hfits, ← count, if_neg (by omega)]
  show min cb.count (min n (cb.size - 1)) = min n cb.count
  omega

/-- What is left in the buffer after a read. -/
theorem count_read {cb : CircularBuffer} (h : cb.Ok) (hfits : cb.Fits) (toRead : Nat) :
    (cb.read toRead).1.count = cb.count - cb.readable toRead := by
  have hle := readable_le h.valid hfits toRead
  have hcount := count_lt h.valid
  have hr := h.valid.1
  have hw := h.valid.2
  have hsize : cb.size ≤ 2 ^ 30 := hfits
  rw [count_eq (h.valid.read toRead).1, read_eq]
  have hold := count_eq h.valid
  dsimp only
  -- Whether anything is read, and then whether the read position wraps.
  split
  · dsimp only
    rw [Nat.mod_eq_of_lt (by omega : cb.readPosition + cb.readable toRead < 2 ^ 32),
      add_mod hr (by omega : cb.readable toRead ≤ cb.size)]
    split at hold
    · split <;> split at * <;> omega
    · split <;> split at * <;> omega
  · rw [← hold]
    omega

/-- A read keeps a buffer good. -/
theorem Ok.read {cb : CircularBuffer} (h : cb.Ok) (hfits : cb.Fits) (toRead : Nat) :
    (cb.read toRead).1.Ok := by
  have hvalid := (h.valid.read toRead).1
  have hsize := (h.valid.read toRead).2
  -- A read that returns something clears the overflow flag, and the buffer is not full then.
  by_cases hsome : cb.readable toRead > 0
  · refine ⟨hvalid, by rw [hsize]; exact h.two_le, ?_⟩
    have hover : (cb.read toRead).1.overflow = false := by
      rw [read_eq, if_pos hsome]
    have hless : (cb.read toRead).1.count < cb.size - 1 := by
      have hcount := count_lt h.valid
      have hle := readable_le h.valid hfits toRead
      rw [count_read h hfits]
      omega
    rw [hover, next_iff hvalid (by rw [hsize]; exact h.two_le), hsize]
    constructor
    · intro hfalse
      cases hfalse
    · intro hfull
      omega
  -- Nothing is read: the buffer stays as it is.
  · have hsame : (cb.read toRead).1 = cb := by rw [read_eq, if_neg hsome]
    rw [hsame]
    exact h

/-- A read takes what it returns off the front of the contents. -/
theorem contents_read {cb : CircularBuffer} (h : cb.Ok) (hfits : cb.Fits) (toRead : Nat) :
    (cb.read toRead).1.contents = cb.contents.drop (cb.readable toRead) := by
  have hle := readable_le h.valid hfits toRead
  have hcount := count_lt h.valid
  have hr := h.valid.1
  have hsize : cb.size ≤ 2 ^ 30 := hfits
  apply List.ext_getElem
  · rw [length_contents, count_read h hfits, List.length_drop, length_contents]
  -- Byte by byte: both sides are at the same place, counted around the end.
  intro i hi hi'
  rw [length_contents, count_read h hfits] at hi
  rw [List.getElem_drop, getElem_contents, getElem_contents, read_eq]
  dsimp only
  split
  · dsimp only
    rw [Nat.mod_eq_of_lt (by omega : cb.readPosition + cb.readable toRead < 2 ^ 32),
      Nat.mod_add_mod, Nat.add_assoc]
  -- The source returns early when nothing is readable.
  next hnone =>
    rw [show cb.readable toRead = 0 by omega, Nat.zero_add]

/-- What a read copies are the contents. -/
theorem getElem_copy {cb : CircularBuffer} (h : cb.Valid) {i : Nat} (hi : i < cb.contents.length) :
    cb.contents[i] = cb.copy i := by
  have hr := h.1
  have hw := h.2
  have hcount := count_lt h
  have hold := count_eq h
  have hi' : i < cb.count := by rwa [length_contents] at hi
  rw [getElem_contents]
  unfold copy
  rw [add_mod hr (by omega)]
  -- The source copies in one piece, or in two around the end of the buffer.
  split
  next hbefore =>
    split
    next => rfl
    next hge => rw [if_pos (by omega)]
  -- The second piece starts at the beginning of the buffer.
  next hbehind =>
    split at hold
    · omega
    · rw [if_neg (by omega), if_neg (by omega),
        show i - (cb.size - cb.readPosition) = cb.readPosition + i - cb.size by omega]

/-- The bytes that a read returns are the front of the contents. -/
theorem copy_eq {cb : CircularBuffer} (h : cb.Ok) (hfits : cb.Fits) (toRead : Nat) :
    (List.range (cb.readable toRead)).map cb.copy = cb.contents.take (cb.readable toRead) := by
  have hle := readable_le h.valid hfits toRead
  apply List.ext_getElem
  · rw [List.length_map, List.length_range, List.length_take, length_contents]
    omega
  · intro i hi hi'
    rw [List.getElem_take, List.getElem_map, List.getElem_range, getElem_copy h.valid]

end CircularBuffer

end Sos
