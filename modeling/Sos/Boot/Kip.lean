import Mathlib.Data.Set.Function
import Mathlib.Logic.Function.Iterate
import Mathlib.Order.Interval.Set.Defs
import Sos.L4

/-!
# `Sos.Boot.Kip`: what the server reads when it boots

The part of `libsos.c` that walks over the data of the kernel: `sos_find_memory` over the memory
descriptors of the kernel interface page, and `sos_get_binfo_rec` over the records of the boot
info (`l4/kip.h`, `l4/bootinfo.h`).

A record is its address. What the server reads of one is the offset of the next record.
-/

set_option autoImplicit false

namespace Sos

/-! ### Memory descriptors -/

/-- `L4_ConventionalMemoryType`. -/
def conventionalMemoryType : Nat := 1

/-- `L4_MemoryDesc_t`: the fields `type`, `v`, `low` and `high`. -/
structure MemoryDesc where
  type : Nat
  v : Bool
  low : Nat
  high : Nat
  type_lt : type < 2 ^ 4
  low_lt : low < 2 ^ 22
  high_lt : high < 2 ^ 22

/-- What `memdesc_info` returns. -/
structure MemdescInfo where
  low : Nat
  high : Nat
  type : Nat
  isPhys : Bool
deriving DecidableEq, Repr

/-- `memdesc_info`, with its assertion. The bound of the kernel is inclusive. -/
def memdescInfo (memdesc : MemoryDesc) : Option MemdescInfo :=
  let high := (memdesc.high <<< 10 + 0x3ff + 1) % 2 ^ 32
  let low := memdesc.low <<< 10
  if high > low then some ⟨low, high, memdesc.type, !memdesc.v⟩ else none

namespace MemdescInfo

/-- Physical memory that can be used. -/
def Conventional (info : MemdescInfo) : Prop :=
  info.isPhys = true ∧ info.type = conventionalMemoryType

/-- Physical memory that is something else. -/
def Dedicated (info : MemdescInfo) : Prop :=
  info.isPhys = true ∧ info.type ≠ conventionalMemoryType

instance (info : MemdescInfo) : Decidable info.Conventional := inferInstanceAs (Decidable (_ ∧ _))
instance (info : MemdescInfo) : Decidable info.Dedicated := inferInstanceAs (Decidable (_ ∧ _))

end MemdescInfo

/-- The variables `mem_bot`, `mem_top` and `maxsize` of `sos_find_memory`. -/
structure FoundMemory where
  memBot : Nat
  memTop : Nat
  maxsize : Nat
deriving DecidableEq, Repr

namespace FoundMemory

/-- One turn of the first loop. -/
def findBiggest (s : FoundMemory) (info : MemdescInfo) : FoundMemory :=
  if info.Conventional then
    let sizemem := info.high - info.low
    if sizemem > s.maxsize then { s with memBot := info.low, memTop := info.high } else s
  else s

/-- One turn of the second loop. -/
def removeDedicated (s : FoundMemory) (info : MemdescInfo) : FoundMemory :=
  if info.Dedicated then
    let sizeBot := if s.memBot ≤ info.low ∧ info.low < s.memTop then info.low - s.memBot else 0
    let sizeTop := if s.memBot < info.high ∧ info.high ≤ s.memTop then s.memTop - info.high else 0
    if sizeBot > sizeTop then { s with memTop := info.low }
    else if sizeTop > 0 then { s with memBot := info.high }
    else s
  else s

end FoundMemory

/-- The first loop of `sos_find_memory`. -/
def findBiggestBlock (descs : List MemoryDesc) : Option FoundMemory :=
  descs.foldlM (fun s desc => (memdescInfo desc).map s.findBiggest) ⟨0, 0, 0⟩

/-- The second loop of `sos_find_memory`. -/
def removeDedicatedAreas (descs : List MemoryDesc) (s : FoundMemory) : Option FoundMemory :=
  descs.foldlM (fun s desc => (memdescInfo desc).map s.removeDedicated) s

/-- What `sos_find_memory` returns, and the megabyte that it keeps for `sos_malloc`. -/
structure SosMemory where
  low : Nat
  high : Nat
  sosMemoryBot : Nat
  sosMemoryTop : Nat
deriving DecidableEq, Repr

/-- `sos_find_memory`. -/
def sosFindMemory (descs : List MemoryDesc) : Option SosMemory := do
  let s ← findBiggestBlock descs
  let s ← removeDedicatedAreas descs s
  let sosMemoryBot := (s.memTop + 2 ^ 32 - oneMegabyte) % 2 ^ 32
  some ⟨s.memBot, sosMemoryBot, sosMemoryBot, s.memTop⟩

/-! ### Boot records -/

/-- `L4_BootRec_Next`. `offsetNext` is the word `offset_next` of the record at an address. -/
def bootRecNext (offsetNext : Nat → Nat) (record : Nat) : Nat :=
  (record + offsetNext record) % 2 ^ 32

/-- A boot info structure. Its records are `num_entries` different ones in memory, at addresses
of words. -/
structure BootInfo where
  firstEntry : Nat
  numEntries : Nat
  offsetNext : Nat → Nat
  bounded : ∀ i < numEntries, (bootRecNext offsetNext)^[i] firstEntry < 2 ^ 32
  aligned : ∀ i < numEntries, (bootRecNext offsetNext)^[i] firstEntry % 4 = 0
  not_null : ∀ i < numEntries, (bootRecNext offsetNext)^[i] firstEntry ≠ 0
  distinct : Set.InjOn (fun i => (bootRecNext offsetNext)^[i] firstEntry) (Set.Iio numEntries)

/-- The static variable `last` of `sos_get_binfo_rec`. -/
structure LastRecord where
  index : Int
  record : Nat
deriving DecidableEq, Repr

/-- The value that `last` starts with. -/
def LastRecord.start : LastRecord := ⟨-1, 0⟩

namespace BootInfo

variable (b : BootInfo)

/-- `L4_BootRec_Next`. -/
def next : Nat → Nat := bootRecNext b.offsetNext

/-- The loop over `L4_BootRec_Next`, from the first entry. -/
def fromBeginning (index : Nat) : Nat :=
  (List.range' 1 index).foldl (fun record _ => b.next record) b.firstEntry

/-- `sos_get_binfo_rec`: the new value of `last`, and the record, 0 for the null pointer. -/
def sosGetBinfoRec (last : LastRecord) (index : Int) : LastRecord × Nat :=
  if ¬ (0 ≤ index ∧ index < toInt32 b.numEntries) then (last, 0)
  else
    let record :=
      if index = 0 then b.firstEntry
      else if last.index + 1 = index then b.next last.record
      else b.fromBeginning index.toNat
    (⟨index, record⟩, record)

/-- A sequence of calls: the records that they return. -/
def sosGetBinfoRecs (last : LastRecord) : List Int → List Nat
  | [] => []
  | index :: rest =>
    let (last, record) := b.sosGetBinfoRec last index
    record :: sosGetBinfoRecs last rest

end BootInfo

end Sos
