import Mathlib.Logic.Function.Basic
import Sos.Lib.WordMask

/-!
# `Sos.L4`: the kernel interface the server is written against

Thread ids, access rights and the constants of the address-space layout, as the L4
headers and `mm/pager.h` define them. A machine word is a `Nat` below `2 ^ 32`; the bit
operations on it are the ones the C code writes.

The kernel's own state (who is blocked, what is mapped) is part of the state the server
runs on, `Sos.Mm.State`. This module only fixes the vocabulary.

The last section turns the bit operations into `/` and `%`, which is all the proofs see of
them.
-/

set_option autoImplicit false

namespace Sos

/-- A global thread id: `thread_no` is the upper 18 bits of the word, `version` the lower
14. -/
structure ThreadId where
  threadNo : Nat
  version : Nat
deriving DecidableEq, Repr

/-- `L4_nilthread`. -/
def nilthread : ThreadId := ⟨0, 0⟩

/-- `L4_anythread`, the word with every bit set. -/
def anythread : ThreadId := ⟨2 ^ 18 - 1, 2 ^ 14 - 1⟩

/-! ### Access rights (`l4/types.h`) -/

def executable : Nat := 1
def writable : Nat := 2
def readable : Nat := 4
def fullyAccessible : Nat := 7
def readWriteOnly : Nat := 6
def noAccess : Nat := 0

/-- One entry of a thread's hardware page table: the physical page and the rights. -/
structure HwMapping where
  frame : Nat
  rights : Nat
deriving DecidableEq, Repr

/-- What a user thread is doing, as far as the kernel's IPC state goes: it runs, it waits
for the answer to a page fault, or it waits for the answer to a system call. -/
inductive Wait
  | ready
  | fault
  | call
deriving DecidableEq, Repr

/-! ### The virtual address space (`mm/pager.h`, `sos_shared.h`) -/

def pageSize : Nat := 4096
def pageSizeLog2 : Nat := 12
def oneMegabyte : Nat := 1024 * 1024
def virtualStart : Nat := 0x2000000
def textStart : Nat := virtualStart
def textEnd : Nat := virtualStart + 4 * oneMegabyte
def dataStart : Nat := textEnd
def dataEnd : Nat := dataStart + 4 * oneMegabyte
def stackTop : Nat := 0xC0000000
def stackEnd : Nat := stackTop - oneMegabyte
def ipcStart : Nat := 0x60000000
def ipcEnd : Nat := ipcStart + 4096
def heapStart : Nat := 0x40000000
def heapEnd : Nat := heapStart + 4 * oneMegabyte
def ipcMemoryStart : Nat := 0x60000000

/-- The ends of the regions as numbers. -/
theorem layout : virtualStart = 0x2000000 ∧ textStart = 0x2000000 ∧ textEnd = 0x2400000 ∧
    dataStart = 0x2400000 ∧ dataEnd = 0x2800000 ∧ heapStart = 0x40000000 ∧ heapEnd = 0x40400000 ∧
    ipcStart = 0x60000000 ∧ ipcEnd = 0x60001000 ∧ stackEnd = 0xBFF00000 ∧ stackTop = 0xC0000000 := by
  decide

/-- The number of bytes of virtual address space. -/
def addressSpace : Nat := 2 ^ 32

def firstLevelEntries : Nat := 1 <<< 12
def secondLevelEntries : Nat := 1 <<< 8

def firstLevelIndex (addr : Nat) : Nat := ((addr &&& 0xFFF00000) >>> 20) &&& 0xFFF
def secondLevelIndex (addr : Nat) : Nat := (addr &&& 0x000FF000) >>> 12
def createVirtualAddress (first second : Nat) : Nat := (first <<< 20) ||| (second <<< 12)

/-- `CLEAR_LOWER_BITS`, on a 32-bit word. -/
def clearLowerBits (addr : Nat) : Nat := addr &&& 0xFFFFF000

/-- `IS_SWAPPED`: bit 0 of a page table entry. -/
def isSwapped (addr : Nat) : Bool := addr &&& 1 != 0

/-- Rounds an address down to its page, `(addr >> PAGESIZE_LOG2) << PAGESIZE_LOG2`. -/
def pageAlign (addr : Nat) : Nat := (addr >>> pageSizeLog2) <<< pageSizeLog2

/-- The signed value of a 32-bit word. -/
def toInt32 (word : Nat) : Int := if word % 2 ^ 32 < 2 ^ 31 then (word % 2 ^ 32 : Nat) else
  ((word % 2 ^ 32 : Nat) : Int) - 2 ^ 32

/-- A word whose highest bit is clear is the same as a signed number. -/
theorem toInt32_of_lt {word : Nat} (h : word < 2 ^ 31) : toInt32 word = word := by
  rw [toInt32, Nat.mod_eq_of_lt (by omega), if_pos h]

/-! ### The bit operations as arithmetic -/

/-- The shift and the mask as a quotient and a remainder. -/
theorem firstLevelIndex_eq (addr : Nat) : firstLevelIndex addr = addr / 2 ^ 20 % 2 ^ 12 := by
  have hmask : (0xFFF00000 : Nat) = (2 ^ 12 - 1) <<< 20 := rfl
  rw [firstLevelIndex, hmask, Lib.and_mask_shiftLeft, Nat.shiftRight_eq_div_pow,
    Nat.mul_div_cancel _ (Nat.two_pow_pos 20), show (0xFFF : Nat) = 2 ^ 12 - 1 from rfl,
    Nat.and_two_pow_sub_one_eq_mod, Nat.mod_mod]

/-- The same for the second level. -/
theorem secondLevelIndex_eq (addr : Nat) : secondLevelIndex addr = addr / 2 ^ 12 % 2 ^ 8 := by
  have hmask : (0x000FF000 : Nat) = (2 ^ 8 - 1) <<< 12 := rfl
  rw [secondLevelIndex, hmask, Lib.and_mask_shiftLeft, Nat.shiftRight_eq_div_pow,
    Nat.mul_div_cancel _ (Nat.two_pow_pos 12)]

/-- The two indices put together are a sum. -/
theorem createVirtualAddress_eq {first second : Nat} (h : second < secondLevelEntries) :
    createVirtualAddress first second = first * 2 ^ 20 + second * 2 ^ 12 := by
  have hs : second < 2 ^ 8 := h
  have hlt : second * 2 ^ 12 < 2 ^ 20 := by omega
  rw [createVirtualAddress, Nat.shiftLeft_eq, Nat.shiftLeft_eq,
    Lib.or_eq_add_of_dvd (Nat.dvd_mul_left _ _) hlt]

/-- Clearing the lower bits rounds down to a page. -/
theorem clearLowerBits_eq (addr : Nat) :
    clearLowerBits addr = addr / pageSize % 2 ^ 20 * pageSize := by
  have hmask : (0xFFFFF000 : Nat) = (2 ^ 20 - 1) <<< 12 := rfl
  rw [clearLowerBits, hmask, Lib.and_mask_shiftLeft]
  rfl

/-- So does aligning. -/
theorem pageAlign_eq (addr : Nat) : pageAlign addr = addr / pageSize * pageSize := by
  rw [pageAlign, Nat.shiftRight_eq_div_pow, Nat.shiftLeft_eq]
  rfl

/-- The lowest bit marks an entry that is swapped out. -/
theorem isSwapped_iff (word : Nat) : isSwapped word = true ↔ word % 2 = 1 := by
  rw [isSwapped, bne_iff_ne]
  exact Lib.and_one_ne_zero word

/-- Setting the swapped bit of an offset. -/
theorem or_one_eq {offset : Nat} (h : offset % pageSize = 0) : offset ||| 0x1 = offset + 1 := by
  have hdvd : 2 ^ 12 ∣ offset := Nat.dvd_of_mod_eq_zero h
  exact Lib.or_eq_add_of_dvd hdvd (by decide)

/-- Setting the dirty bit of a frame address. -/
theorem or_two_eq {frame : Nat} (h : frame % pageSize = 0) : frame ||| 0x2 = frame + 2 := by
  have hdvd : 2 ^ 12 ∣ frame := Nat.dvd_of_mod_eq_zero h
  exact Lib.or_eq_add_of_dvd hdvd (by decide)

/-- Setting the dirty bit of an entry that has it. -/
theorem add_two_or_two {frame : Nat} (h : frame % pageSize = 0) :
    (frame + 2) ||| 0x2 = frame + 2 := by
  rw [← or_two_eq h, Nat.or_assoc, Nat.or_self]

end Sos
