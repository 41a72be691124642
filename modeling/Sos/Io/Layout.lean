import Sos.Io.State
import Sos.Lib.CString

/-!
# `Sos.Io.Layout`: a `file_info` in memory

The bytes at the start of a `file_info`: the array `filename` of `MAX_PATH_LENGTH` characters,
and `status`, which the compiler aligns to a word. `create_nfs` copies the name with `strcpy` and
stores the mode in the status, and `nfs_set_status` stores the status later. The machine is
big-endian.
-/

set_option autoImplicit false

namespace Sos

open Lib (store storeString)

/-- A word in memory. -/
def wordMemory (word : Nat) : List UInt8 := [24, 16, 8, 0].map fun k => UInt8.ofNat (word / 2 ^ k)

/-- A word has four bytes. -/
@[simp] theorem length_wordMemory (word : Nat) : (wordMemory word).length = 4 := rfl

/-- `offsetof(file_info, status)`. -/
def offsetofStatus : Nat := (maxPathLength + 3) / 4 * 4

/-- `offsetof` of the fields of `stat_t`. -/
def offsetofStType : Nat := 0
def offsetofStFmode : Nat := 1
def offsetofStSize : Nat := 4
def offsetofStCtime : Nat := 8
def offsetofStAtime : Nat := 12

/-- `status.st_fmode = mode`. -/
def storeFmode (record : Nat → UInt8) (mode : Nat) : Nat → UInt8 :=
  store record (offsetofStatus + offsetofStFmode) [UInt8.ofNat mode]

/-- What `create_nfs` stores of the name and the mode. -/
def createRecord (heap : Nat → UInt8) (name : List UInt8) (mode : Nat) : Nat → UInt8 :=
  storeFmode (storeString heap 0 name) mode

/-- What `nfs_set_status` stores for `NFS_OK`, in its order. -/
def setStatusRecord (record : Nat → UInt8) (st : Stat) : Nat → UInt8 :=
  let record := store record (offsetofStatus + offsetofStSize) (wordMemory st.stSize)
  let record := store record (offsetofStatus + offsetofStAtime) (wordMemory st.stAtime)
  let record := store record (offsetofStatus + offsetofStCtime) (wordMemory st.stCtime)
  let record := store record (offsetofStatus + offsetofStType) [UInt8.ofNat st.stType]
  storeFmode record st.stFmode

/-- The status is in memory. -/
structure HoldsStatus (record : Nat → UInt8) (st : Stat) : Prop where
  stType : Lib.Holds record (offsetofStatus + offsetofStType) [UInt8.ofNat st.stType]
  stFmode : Lib.Holds record (offsetofStatus + offsetofStFmode) [UInt8.ofNat st.stFmode]
  stSize : Lib.Holds record (offsetofStatus + offsetofStSize) (wordMemory st.stSize)
  stCtime : Lib.Holds record (offsetofStatus + offsetofStCtime) (wordMemory st.stCtime)
  stAtime : Lib.Holds record (offsetofStatus + offsetofStAtime) (wordMemory st.stAtime)

variable {record : Nat → UInt8} {name : List UInt8} {mode : Nat} {st : Stat}

/-- The stores of the fields do not overlap. -/
theorem holdsStatus_setStatusRecord (record : Nat → UInt8) (st : Stat) :
    HoldsStatus (setStatusRecord record st) st := by
  -- The fields do not overlap: a later store leaves the earlier ones.
  have byte {field field' b : Nat} (h : field + 1 ≤ field') :
      offsetofStatus + field + [UInt8.ofNat b].length ≤ offsetofStatus + field' := by
    rw [List.length_singleton]
    omega
  have word {field field' w : Nat} (h : field + 4 ≤ field') :
      offsetofStatus + field + (wordMemory w).length ≤ offsetofStatus + field' := by
    rw [length_wordMemory]
    omega
  constructor
  case stType => exact (Lib.holds_store _ _ _).store (Or.inl (byte (by decide)))
  case stFmode => exact Lib.holds_store _ _ _
  case stSize =>
    -- Stored first, so that four stores follow.
    refine ((((Lib.holds_store _ _ _).store ?_).store ?_).store ?_).store ?_
    · exact Or.inl (word (by decide))
    · exact Or.inl (word (by decide))
    · exact Or.inr (byte (by decide))
    · exact Or.inr (byte (by decide))
  case stCtime =>
    refine ((Lib.holds_store _ _ _).store ?_).store ?_
    · exact Or.inr (byte (by decide))
    · exact Or.inr (byte (by decide))
  case stAtime =>
    refine (((Lib.holds_store _ _ _).store ?_).store ?_).store ?_
    · exact Or.inr (word (by decide))
    · exact Or.inr (byte (by decide))
    · exact Or.inr (byte (by decide))

/-- The status is stored behind the name, also behind one of `MAX_PATH_LENGTH` characters whose
terminating zero does not fit in the array: it is in the byte before the status. -/
theorem isString_setStatusRecord {a : Nat} (h : Lib.IsString record a name)
    (hbefore : a + name.length < offsetofStatus) : Lib.IsString (setStatusRecord record st) a name := by
  have hword (field : Nat) : a + name.length < offsetofStatus + field := by omega
  exact ((((h.store (Or.inl (hword _))).store (Or.inl (hword _))).store
    (Or.inl (hword _))).store (Or.inl (hword _))).store (Or.inl (hword _))

/-- The name in a new record is a string, whatever `malloc` has left behind it. -/
theorem isString_createRecord (heap : Nat → UInt8) (hname : 0 ∉ name)
    (hlength : name.length ≤ maxPathLength) : Lib.IsString (createRecord heap name mode) 0 name := by
  refine (Lib.isString_storeString heap 0 hname).store (Or.inl ?_)
  simp only [offsetofStatus, maxPathLength] at *
  omega

end Sos
