import Sos.Datastructures.CircularBuffer
import Sos.Mm.State

/-!
# `Sos.Properties.BufferRead`: what a read of the buffer stores

`circular_buffer_read` computes how much it returns from the length that was asked for, and how
much it copies from the positions alone. The copy is everything that is stored.

`circular_buffer_read_exact_iff`: a read stores what it returns and nothing behind it, whatever
the destination holds, if and only if nothing was asked for, or at least as much as is stored. In
a buffer so large that the length overflows an `int`, what is returned has to be right as well.
-/

set_option autoImplicit false

namespace Sos

namespace CircularBuffer

/-- `circular_buffer_read`: the buffer afterwards, what it returns, and the destination. -/
def readInto (cb : CircularBuffer) (toRead : Nat) (dest : Nat → UInt8) :
    CircularBuffer × Nat × (Nat → UInt8) :=
  let (cb', readable) := cb.read toRead
  if readable > 0 then
    if cb.readPosition < cb.writePosition then
      (cb', readable, memcpy dest 0 (fun i => cb.buffer (cb.readPosition + i))
        (cb.writePosition - cb.readPosition))
    else
      let dest := memcpy dest 0 (fun i => cb.buffer (cb.readPosition + i))
        (cb.size - cb.readPosition)
      (cb', readable, memcpy dest (cb.size - cb.readPosition) cb.buffer cb.writePosition)
  else (cb', readable, dest)

/-- A read returns as much as is there of what was asked for, stores it at the start of the
destination, and leaves everything behind it. -/
def ReadsExactly (cb : CircularBuffer) (toRead : Nat) : Prop :=
  ∀ dest, (cb.readInto toRead dest).2.1 = min toRead cb.count ∧
    (∀ i < (cb.readInto toRead dest).2.1,
      cb.contents[i]? = some ((cb.readInto toRead dest).2.2 i)) ∧
    ∀ i, (cb.readInto toRead dest).2.1 ≤ i → (cb.readInto toRead dest).2.2 i = dest i

/-- Nothing was asked for, or at least what is stored, and it is returned. When the sum that the
length is computed from is not an `int`, the result is what was asked for, up to the size of the
buffer, unless it happens to be 0. -/
def ReadFits (cb : CircularBuffer) (toRead : Nat) : Prop :=
  toRead = 0 ∨ (cb.count ≤ toRead ∧
    (2 ^ 31 ≤ cb.sum → (2 ^ 32 - cb.sum) % cb.size ≠ 0 ∧
      (toRead = cb.count ∨ cb.count = cb.size - 1)))

variable {cb : CircularBuffer} {toRead : Nat}

/-- The result does not depend on where the characters go. -/
theorem readInto_result (dest : Nat → UInt8) :
    (cb.readInto toRead dest).2.1 = cb.readable toRead := by
  unfold readInto
  rw [read_eq]
  dsimp only
  split
  · split
    · rfl
    · rfl
  · rfl

/-- The calls of `memcpy` store the first `copied` bytes of `copy`. -/
theorem readInto_dest (h : cb.Valid) (dest : Nat → UInt8) (i : Nat) :
    (cb.readInto toRead dest).2.2 i =
      if 0 < cb.readable toRead ∧ i < cb.copied then cb.copy i else dest i := by
  have hr := h.1
  unfold readInto copied copy
  rw [read_eq]
  dsimp only
  by_cases hsome : cb.readable toRead > 0
  · rw [if_pos hsome]
    split
    next hlt =>
      dsimp only [memcpy]
      simp only [hsome, true_and, Nat.zero_le, Nat.zero_add, Nat.sub_zero]
    next hge =>
      dsimp only [memcpy]
      simp only [hsome, true_and, Nat.zero_le, Nat.zero_add, Nat.sub_zero]
      -- The second call stores behind the first one.
      by_cases hfirst : i < cb.size - cb.readPosition
      · rw [if_neg (by omega), if_pos hfirst, if_pos (by omega), if_pos hfirst]
      · rw [if_neg hfirst, if_neg hfirst]
        by_cases hsecond : i < cb.size - cb.readPosition + cb.writePosition
        · rw [if_pos ⟨by omega, hsecond⟩, if_pos hsecond]
        · rw [if_neg (fun hboth => hsecond hboth.2), if_neg hsecond]
  · rw [if_neg hsome]
    exact (if_neg fun hboth => hsome hboth.1).symm

/-- Unless the buffer is empty, the copy is all that is stored. -/
theorem copied_eq_count (h : cb.Valid) (hpos : 0 < cb.count) : cb.copied = cb.count := by
  have hr := h.1
  have hold := count_eq h
  unfold copied
  split at hold
  · rw [if_pos (by omega), hold]
  · rw [if_neg (by omega)]
    omega

/-- A read is exact when it returns the right length and copies no more than that. -/
theorem readsExactly_iff (h : cb.Valid) :
    cb.ReadsExactly toRead ↔ cb.readable toRead = min toRead cb.count ∧
      (cb.readable toRead = 0 ∨ cb.readable toRead = cb.count) := by
  constructor
  · intro hall
    have hlength : cb.readable toRead = min toRead cb.count := by
      have hany := (hall cb.buffer).1
      rwa [readInto_result] at hany
    refine ⟨hlength, ?_⟩
    by_contra hne
    have hpos : 0 < cb.readable toRead := by omega
    have hcopied := copied_eq_count h (by omega)
    -- The byte behind the result is overwritten, and it may have been another one.
    have hbehind := (hall fun i => cb.copy i + 1).2.2 (cb.readable toRead)
    rw [readInto_result, readInto_dest h, if_pos ⟨hpos, by omega⟩] at hbehind
    have hne : cb.copy (cb.readable toRead) ≠ cb.copy (cb.readable toRead) + 1 := by
      intro he
      have hone : (1 : UInt8) = 0 := by
        rwa [eq_comm, UInt8.add_eq_left] at he
      exact absurd hone (by decide)
    exact hne (hbehind (Nat.le_refl _))
  · rintro ⟨hlength, hcopies⟩ dest
    rw [readInto_result]
    refine ⟨hlength, ?_, ?_⟩
    · intro i hi
      have hi' : i < cb.contents.length := by
        rw [length_contents]
        omega
      rw [List.getElem?_eq_getElem hi', getElem_copy h, readInto_dest h,
        if_pos ⟨by omega, by rw [copied_eq_count h (by omega)]; omega⟩]
    · intro i hi
      rw [readInto_dest h, if_neg]
      rintro ⟨hpos, hlt⟩
      rw [copied_eq_count h (by omega)] at hlt
      omega

/-- What is readable, for a length that is not negative as an `int`. -/
theorem readable_eq_min (htoRead : toRead < 2 ^ 31) :
    cb.readable toRead = min cb.stored (min toRead (cb.size - 1)) := by
  unfold readable
  rw [if_neg (by omega)]

end CircularBuffer

/-- `circular_buffer_read` writes only what it returns exactly when nothing is asked for, or at
least as much as is stored. `size` and the positions are values of an `int`. -/
theorem circular_buffer_read_exact_iff (cb : CircularBuffer) (h : cb.Valid)
    (hsize : cb.size < 2 ^ 31) (toRead : Nat) (htoRead : toRead < 2 ^ 31) :
    cb.ReadsExactly toRead ↔ cb.ReadFits toRead := by
  have hcount := CircularBuffer.count_lt h
  have hr := h.1
  have hw := h.2
  rw [CircularBuffer.readsExactly_iff h, CircularBuffer.readable_eq_min htoRead]
  unfold CircularBuffer.ReadFits
  -- The sum of the source is a positive `int`, or it is negative.
  by_cases hsum : cb.sum < 2 ^ 31
  · have hstored : cb.stored = cb.count := CircularBuffer.stored_of_sum h hsize hsum
    rw [hstored]
    omega
  · have hstored := CircularBuffer.stored_of_overflow h hsize (Nat.not_lt.mp hsum)
    have hlt : (2 ^ 32 - cb.sum) % cb.size < cb.size := Nat.mod_lt _ (by omega)
    -- A negative sum takes a buffer of more than `2 ^ 30` bytes with something in it.
    have hpos : 0 < cb.count := by
      have hold := CircularBuffer.count_eq h
      unfold CircularBuffer.sum at hsum
      split at hold
      · omega
      · omega
    rw [hstored]
    split
    · omega
    · omega

/-- Four characters in a buffer of eight. -/
def fourStored : CircularBuffer := ⟨0, 4, fun i => UInt8.ofNat (97 + i), 8, false⟩

/-- Five characters are asked for, and four are stored. -/
theorem circular_buffer_read_exact_four : fourStored.ReadsExactly 5 :=
  (circular_buffer_read_exact_iff fourStored ⟨by decide, by decide⟩ (by decide) 5
    (by decide)).mpr (Or.inr ⟨by decide, fun hsum => absurd hsum (by decide)⟩)

/-- One character is asked for, and four are stored. -/
theorem circular_buffer_read_overwrites : ¬ fourStored.ReadsExactly 1 := by
  intro hall
  have hbehind := (hall fun _ => 0).2.2 1 (by decide)
  exact absurd hbehind (by decide)

end Sos
