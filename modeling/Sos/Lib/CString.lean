import Mathlib.Data.List.GetD

/-!
# `Sos.Lib.CString`: bytes and strings in memory

A memory is a function from addresses to bytes. `store` writes a list of bytes, and
`storeString` a string with its terminating zero, as `strcpy` does.

* `holds_store`, `store_outside`: what a store writes, and that it writes nothing else.
* `Holds.store`: a store somewhere else keeps what is in memory.
* `IsString.unique`: there is one string at an address.
-/

set_option autoImplicit false

namespace Sos.Lib

/-- Writes bytes to memory, the first one at `dest`. -/
def store (mem : Nat → UInt8) (dest : Nat) (bytes : List UInt8) : Nat → UInt8 :=
  fun a => if dest ≤ a then bytes.getD (a - dest) (mem a) else mem a

/-- Writes a string with its terminating zero. -/
def storeString (mem : Nat → UInt8) (dest : Nat) (s : List UInt8) : Nat → UInt8 :=
  store mem dest (s ++ [0])

/-- The memory holds these bytes from `a` on. -/
def Holds (mem : Nat → UInt8) (a : Nat) (bytes : List UInt8) : Prop :=
  ∀ (i : Nat) (h : i < bytes.length), mem (a + i) = bytes[i]

/-- There is a zero-terminated string at an address. -/
structure IsString (mem : Nat → UInt8) (a : Nat) (s : List UInt8) : Prop where
  no_zero : 0 ∉ s
  holds : Holds mem a (s ++ [0])

variable {mem mem' : Nat → UInt8} {a dest : Nat} {bytes bytes' s s' : List UInt8}

/-! ### Stores -/

/-- A byte that has been stored. -/
theorem store_inside {i : Nat} (h : i < bytes.length) :
    store mem dest bytes (dest + i) = bytes[i] := by
  unfold store
  rw [if_pos (Nat.le_add_right _ _), Nat.add_sub_cancel_left, List.getD_eq_getElem _ _ h]

/-- A byte that has not. -/
theorem store_outside {b : Nat} (h : b < dest ∨ dest + bytes.length ≤ b) :
    store mem dest bytes b = mem b := by
  unfold store
  split
  · rw [List.getD_eq_default _ _ (by omega)]
  · rfl

/-- What has been stored is there. -/
theorem holds_store (mem : Nat → UInt8) (dest : Nat) (bytes : List UInt8) :
    Holds (store mem dest bytes) dest bytes := fun _ h => store_inside h

/-- What is apart from a store stays in memory. -/
theorem Holds.store (h : Holds mem a bytes)
    (hapart : a + bytes.length ≤ dest ∨ dest + bytes'.length ≤ a) :
    Holds (store mem dest bytes') a bytes := by
  intro i hi
  rw [store_outside (by omega)]
  exact h i hi

/-- The bytes are there in any memory that agrees on them. -/
theorem Holds.congr (h : Holds mem a bytes) (heq : ∀ i < bytes.length, mem' (a + i) = mem (a + i)) :
    Holds mem' a bytes := fun i hi => (heq i hi).trans (h i hi)

/-- Two runs of bytes, one behind the other. -/
theorem holds_append :
    Holds mem a (bytes ++ bytes') ↔ Holds mem a bytes ∧ Holds mem (a + bytes.length) bytes' := by
  constructor
  · intro h
    constructor
    · intro i hi
      have hi' : i < (bytes ++ bytes').length := by
        rw [List.length_append]
        omega
      rw [h i hi', List.getElem_append_left hi]
    · intro i hi
      have hi' : bytes.length + i < (bytes ++ bytes').length := by
        rw [List.length_append]
        omega
      -- The second run begins where the first one ends.
      rw [Nat.add_assoc, h _ hi', List.getElem_append_right (Nat.le_add_right _ _)]
      congr 1
      exact Nat.add_sub_cancel_left _ _
  · rintro ⟨h, h'⟩ i hi
    -- An index of the whole is one of the first run, or one of the second.
    by_cases hlt : i < bytes.length
    · rw [List.getElem_append_left hlt]
      exact h i hlt
    · rw [List.length_append] at hi
      have hrest := h' (i - bytes.length) (by omega)
      rw [List.getElem_append_right (Nat.not_lt.mp hlt), ← hrest]
      congr 1
      omega

/-! ### Strings -/

/-- A stored string is a string. -/
theorem isString_storeString (mem : Nat → UInt8) (dest : Nat) (hs : 0 ∉ s) :
    IsString (storeString mem dest s) dest s := ⟨hs, holds_store _ _ _⟩

/-- A store apart from a string and its zero keeps it. -/
theorem IsString.store (h : IsString mem a s)
    (hapart : a + s.length < dest ∨ dest + bytes.length ≤ a) :
    IsString (store mem dest bytes) a s := by
  refine ⟨h.no_zero, h.holds.store ?_⟩
  rw [List.length_append, List.length_singleton]
  omega

/-- The bytes of a string. -/
theorem IsString.byte (h : IsString mem a s) {i : Nat} (hi : i < s.length) :
    mem (a + i) = s[i] := (holds_append.mp h.holds).1 i hi

/-- The byte behind a string. -/
theorem IsString.zero (h : IsString mem a s) : mem (a + s.length) = 0 :=
  (holds_append.mp h.holds).2 0 (Nat.zero_lt_one)

/-- No byte of a string ends it. -/
theorem IsString.byte_ne_zero (h : IsString mem a s) {i : Nat} (hi : i < s.length) :
    mem (a + i) ≠ 0 := by
  rw [h.byte hi]
  intro he
  exact h.no_zero (he ▸ List.getElem_mem hi)

/-- It is a string in any memory that agrees on it and on the byte behind it. -/
theorem IsString.congr (h : IsString mem a s) (heq : ∀ i ≤ s.length, mem' (a + i) = mem (a + i)) :
    IsString mem' a s := by
  refine ⟨h.no_zero, h.holds.congr fun i hi => heq i ?_⟩
  rw [List.length_append, List.length_singleton] at hi
  exact Nat.le_of_lt_succ hi

/-- The end of a string is a string. -/
theorem IsString.right (h : IsString mem a (s ++ s')) : IsString mem (a + s.length) s' := by
  refine ⟨fun hzero => h.no_zero (List.mem_append_right _ hzero), ?_⟩
  have hholds := h.holds
  rw [List.append_assoc] at hholds
  exact (holds_append.mp hholds).2

/-- A zero in a string ends it there. -/
theorem IsString.terminate (h : IsString mem a (s ++ s')) :
    IsString (Lib.store mem (a + s.length) [0]) a s := by
  have hholds := h.holds
  rw [List.append_assoc] at hholds
  refine ⟨fun hzero => h.no_zero (List.mem_append_left _ hzero), holds_append.mpr ⟨?_, ?_⟩⟩
  · exact (holds_append.mp hholds).1.store (Or.inl (Nat.le_refl _))
  · exact holds_store _ _ _

/-- A list without zeroes, continued with zeroes, is a string. -/
theorem isString_getD (hs : 0 ∉ s) : IsString (fun i => s.getD i 0) 0 s := by
  refine ⟨hs, holds_append.mpr ⟨fun i hi => ?_, fun i hi => ?_⟩⟩
  · rw [Nat.zero_add]
    exact List.getD_eq_getElem _ _ hi
  · obtain rfl : i = 0 := Nat.lt_one_iff.mp hi
    rw [Nat.zero_add]
    exact List.getD_eq_default _ _ (Nat.le_refl _)

/-- There is one string at an address. -/
theorem IsString.unique (h : IsString mem a s) (h' : IsString mem a s') : s = s' := by
  have hlength : s.length = s'.length := by
    rcases Nat.lt_trichotomy s.length s'.length with hlt | he | hlt
    · exact absurd h.zero (h'.byte_ne_zero hlt)
    · exact he
    · exact absurd h'.zero (h.byte_ne_zero hlt)
  refine List.ext_getElem hlength fun i hi hi' => ?_
  rw [← h.byte hi, ← h'.byte hi']

end Sos.Lib
