import Mathlib.Data.Nat.Bitwise

/-!
# `Sos.Lib.WordMask`: masks, shifts and packed fields

Bit fields of a machine word, read as arithmetic. A mask of `w` ones at position `k`
selects the digit `x / 2 ^ k % 2 ^ w`; an `or` with a value below the field is an
addition. These are the facts that turn the masks a C program writes into `/`, `%` and
`+`, which `omega` then decides.

* `and_mask_shiftLeft`: a mask in the middle of a word.
* `or_eq_add_of_dvd`: packing a small value into cleared low bits.
* `and_one_ne_zero`, `and_two_pow_ne_zero`: testing a flag bit.
-/

set_option autoImplicit false

namespace Sos.Lib

/-- A mask of `w` ones starting at bit `k` keeps exactly the digit at that position. -/
theorem and_mask_shiftLeft (x w k : Nat) :
    x &&& ((2 ^ w - 1) <<< k) = x / 2 ^ k % 2 ^ w * 2 ^ k := by
  apply Nat.eq_of_testBit_eq
  intro i
  rw [Nat.testBit_and, Nat.testBit_shiftLeft, Nat.testBit_two_pow_sub_one, ← Nat.shiftLeft_eq,
    Nat.testBit_shiftLeft, Nat.testBit_mod_two_pow, Nat.testBit_div_two_pow]
  by_cases hk : k ≤ i
  · rw [Nat.sub_add_cancel hk]
    simp [hk, Bool.and_comm]
  · simp [hk]

/-- `or`ing a value below `2 ^ k` into a multiple of `2 ^ k` adds it. -/
theorem or_eq_add_of_dvd {x r k : Nat} (hx : 2 ^ k ∣ x) (hr : r < 2 ^ k) : x ||| r = x + r := by
  obtain ⟨q, rfl⟩ := hx
  exact (Nat.two_pow_add_eq_or_of_lt hr q).symm

/-- The lowest bit is the parity. -/
theorem and_one_ne_zero (x : Nat) : x &&& 1 ≠ 0 ↔ x % 2 = 1 := by
  rw [Nat.and_one_is_mod]
  omega

/-- Testing one flag bit. -/
theorem and_two_pow_ne_zero (x k : Nat) : x &&& 2 ^ k ≠ 0 ↔ x.testBit k = true := by
  rw [Nat.and_two_pow]
  cases x.testBit k with
  | false => simp
  | true => simp

end Sos.Lib
