import Sos.Lib.WordMask

/-!
# `Sos.Datastructures.Bitfield`: bits packed into characters

`datastructures/bitfield.c`: a bit field is an area of `char`s, bit `n` is bit `n % 8` of
character `n / 8`. `mm/frames.c` carries a copy of the same two functions for the frame
table, so both use these definitions.

`bitfieldGet_bitfieldSet` is the whole interface the proofs use: a bit reads back as what
was last written to it, and no other bit changes.
-/

set_option autoImplicit false

namespace Sos

/-- The memory a bit field lives in, a character (8 bits) per offset. -/
abbrev Bitfield : Type := Nat → Nat

def bitsPerChar : Nat := 8

/-- `bitfield_set`: sets a bit in the bit field to a given value. -/
def bitfieldSet (bitfield : Bitfield) (bitNumber : Nat) (value : Bool) : Bitfield :=
  let charOffset := bitNumber / bitsPerChar
  let bitOffset := bitNumber % bitsPerChar
  fun i =>
    if i = charOffset then
      if value then bitfield i ||| (1 <<< bitOffset)
      else bitfield i &&& (0xFF ^^^ (1 <<< bitOffset))
    else bitfield i

/-- `bitfield_get`: the value of a specific bit in a bit field. -/
def bitfieldGet (bitfield : Bitfield) (bitNumber : Nat) : Bool :=
  let charOffset := bitNumber / bitsPerChar
  let bitOffset := bitNumber % bitsPerChar
  (bitfield charOffset &&& (1 <<< bitOffset)) != 0

/-- A bit of the field is a bit of its character. -/
theorem bitfieldGet_eq_testBit (bitfield : Bitfield) (n : Nat) :
    bitfieldGet bitfield n = (bitfield (n / 8)).testBit (n % 8) := by
  simp only [bitfieldGet, bitsPerChar, Nat.one_shiftLeft]
  have h := Lib.and_two_pow_ne_zero (bitfield (n / 8)) (n % 8)
  cases hb : (bitfield (n / 8)).testBit (n % 8) with
  | false => simpa [hb] using h
  | true => simpa [hb] using h

/-- Reading a bit after writing one: the bit that was written has the new value, every
other bit has its old one. -/
@[simp]
theorem bitfieldGet_bitfieldSet (bitfield : Bitfield) (n m : Nat) (value : Bool) :
    bitfieldGet (bitfieldSet bitfield n value) m
      = if m = n then value else bitfieldGet bitfield m := by
  have hn : n % 8 < 8 := Nat.mod_lt _ (by decide)
  have hm : m % 8 < 8 := Nat.mod_lt _ (by decide)
  rw [bitfieldGet_eq_testBit, bitfieldGet_eq_testBit]
  simp only [bitfieldSet, bitsPerChar, Nat.one_shiftLeft]
  -- Only the byte of `n` changes; within it, only the bit of `n`.
  by_cases hc : m / 8 = n / 8
  · have hiff : m = n ↔ n % 8 = m % 8 := by omega
    have hff : Nat.testBit 255 (m % 8) = true := by
      rw [show (255 : Nat) = 2 ^ 8 - 1 from rfl, Nat.testBit_two_pow_sub_one]
      simpa using hm
    simp only [hc, if_true]
    -- Setting is an `or` with the bit, clearing an `and` with its complement.
    cases value with
    | true =>
        simp only [if_true, Nat.testBit_or, Nat.testBit_two_pow]
        by_cases hb : n % 8 = m % 8 <;> simp [hiff, hb]
    | false =>
        simp only [Bool.false_eq_true, if_false, Nat.testBit_and, Nat.testBit_xor,
          Nat.testBit_two_pow, hff]
        by_cases hb : n % 8 = m % 8 <;> simp [hiff, hb]
  -- Another byte.
  · have hmn : m ≠ n := by
      rintro rfl
      exact hc rfl
    simp [hc, hmn]

end Sos
