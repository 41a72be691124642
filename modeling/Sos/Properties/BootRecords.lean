import Mathlib.Data.Finset.Card
import Mathlib.Order.Interval.Finset.Nat
import Mathlib.Tactic.IntervalCases
import Sos.Boot.Kip

/-!
# `Sos.Properties.BootRecords`: the cached search for boot records

`sos_get_binfo_rec` keeps the last record it has returned and its index, so that the next one is
found without a walk from the first entry. `LastRecord.Ok` says what the cache holds: nothing, or
a record with its index. A call keeps that, also a call that fails (`sosGetBinfoRec_spec`).

`boot_record_lookup`: in every sequence of calls each returns the record behind as many
applications of `L4_BootRec_Next` as the index says, and the null pointer exactly when the index
is out of range.
-/

set_option autoImplicit false

namespace Sos

namespace BootInfo

variable {b : BootInfo}

/-- The record at an index: what a walk from the first entry finds. -/
def record (b : BootInfo) (index : Nat) : Nat := b.next^[index] b.firstEntry

/-- The plain search. -/
def plainRec (b : BootInfo) (index : Int) : Nat :=
  if 0 ≤ index ∧ index < b.numEntries then b.record index.toNat else 0

/-- The next record is one application of `L4_BootRec_Next` further. -/
theorem record_succ (index : Nat) : b.record (index + 1) = b.next (b.record index) :=
  Function.iterate_succ_apply' _ _ _

/-- The records are at different addresses of words, so that their number is an `int`. -/
theorem numEntries_le (b : BootInfo) : b.numEntries ≤ 2 ^ 30 := by
  -- The index of its word is a different number below 2 ^ 30 for each record.
  have hmaps : ∀ i ∈ Finset.range b.numEntries, b.record i / 4 ∈ Finset.range (2 ^ 30) := by
    intro i hi
    have hlt : b.record i < 2 ^ 32 := b.bounded i (Finset.mem_range.mp hi)
    exact Finset.mem_range.mpr (by omega)
  have hinj : Set.InjOn (fun i => b.record i / 4) (Finset.range b.numEntries) := by
    intro i hi j hj he
    have hi := Finset.mem_range.mp (Finset.mem_coe.mp hi)
    have hj := Finset.mem_range.mp (Finset.mem_coe.mp hj)
    have halign : b.record i % 4 = 0 := b.aligned i hi
    have halign' : b.record j % 4 = 0 := b.aligned j hj
    have he : b.record i / 4 = b.record j / 4 := he
    exact b.distinct hi hj (show b.record i = b.record j by omega)
  have hcard := Finset.card_le_card_of_injOn _ hmaps hinj
  rwa [Finset.card_range, Finset.card_range] at hcard

/-- The number of records is the same as an `int`. -/
theorem toInt32_numEntries (b : BootInfo) : toInt32 b.numEntries = b.numEntries :=
  toInt32_of_lt (Nat.lt_of_le_of_lt b.numEntries_le (by decide))

/-- The loop from the first entry finds the record. -/
theorem fromBeginning_eq (index : Nat) : b.fromBeginning index = b.record index := by
  unfold fromBeginning
  induction index with
  | zero => rfl
  | succ n ih =>
      rw [List.range'_1_concat, List.foldl_append, ih, record_succ]
      rfl

/-- The plain search fails exactly for an index that is out of range. -/
theorem plainRec_eq_zero {index : Int} :
    b.plainRec index = 0 ↔ index < 0 ∨ (b.numEntries : Int) ≤ index := by
  unfold plainRec
  split
  next h =>
    have hrecord : b.record index.toNat ≠ 0 := b.not_null _ (by omega)
    constructor
    · exact fun hzero => absurd hzero hrecord
    · omega
  next h => omega

end BootInfo

/-- The cache is empty, or it holds a record with its index. -/
def LastRecord.Ok (b : BootInfo) (last : LastRecord) : Prop :=
  last.index = -1 ∨
    (0 ≤ last.index ∧ last.index < b.numEntries ∧ last.record = b.record last.index.toNat)

namespace BootInfo

variable {b : BootInfo}

/-- The record that a call for a valid index finds. -/
theorem record_of_last {last : LastRecord} (hlast : last.Ok b) {index : Int} (hpos : 0 < index)
    (hnext : last.index + 1 = index) : b.next last.record = b.record index.toNat := by
  rcases hlast with hempty | ⟨hle, -, hrecord⟩
  · -- the empty cache would be continued at index 0 only
    omega
  · have hsucc : index.toNat = last.index.toNat + 1 := by omega
    rw [hsucc, record_succ, hrecord]

/-- A call returns what the plain search does, and keeps the cache. -/
theorem sosGetBinfoRec_spec {last : LastRecord} (hlast : last.Ok b) (index : Int) :
    (b.sosGetBinfoRec last index).2 = b.plainRec index ∧ (b.sosGetBinfoRec last index).1.Ok b := by
  unfold sosGetBinfoRec plainRec
  rw [b.toInt32_numEntries]
  by_cases hrange : 0 ≤ index ∧ index < b.numEntries
  · rw [if_neg (not_not_intro hrange), if_pos hrange]
    dsimp only
    -- From the beginning, from the record of the last call, or counted: it is the same record.
    have hrecord : (if index = 0 then b.firstEntry
        else if last.index + 1 = index then b.next last.record
        else b.fromBeginning index.toNat) = b.record index.toNat := by
      split
      next hzero =>
        rw [hzero]
        rfl
      next hne =>
        split
        next hnext => exact record_of_last hlast (by omega) hnext
        next => exact fromBeginning_eq index.toNat
    rw [hrecord]
    exact ⟨rfl, Or.inr ⟨hrange.1, hrange.2, rfl⟩⟩
  · rw [if_pos hrange, if_neg hrange]
    exact ⟨rfl, hlast⟩

/-- So does every call of a sequence. -/
theorem sosGetBinfoRecs_eq {last : LastRecord} (hlast : last.Ok b) (indices : List Int) :
    b.sosGetBinfoRecs last indices = indices.map b.plainRec := by
  induction indices generalizing last with
  | nil => rfl
  | cons index rest ih =>
      obtain ⟨hrecord, hkeeps⟩ := sosGetBinfoRec_spec hlast index
      rw [List.map_cons, ← hrecord, ← ih hkeeps]
      rfl

end BootInfo

/-- Whatever has been looked up before, a call finds the record that `index` applications of
`L4_BootRec_Next` reach from the first entry, and the null pointer exactly when the index is
negative or not below the number of entries. -/
theorem boot_record_lookup (b : BootInfo) (indices : List Int) :
    (b.sosGetBinfoRecs .start indices = indices.map fun index : Int =>
      if 0 ≤ index ∧ index < b.numEntries then
        (bootRecNext b.offsetNext)^[index.toNat] b.firstEntry
      else 0) ∧
    ∀ index : Int, b.plainRec index = 0 ↔ index < 0 ∨ (b.numEntries : Int) ≤ index :=
  ⟨BootInfo.sosGetBinfoRecs_eq (Or.inl rfl) indices, fun _ => BootInfo.plainRec_eq_zero⟩

/-- Three records of 12 bytes, one behind the other. -/
def threeRecords : BootInfo where
  firstEntry := 0x1000
  numEntries := 3
  offsetNext := fun _ => 12
  bounded := by decide
  aligned := by decide
  not_null := by decide
  distinct := by
    intro i hi j hj he
    have hi : i < 3 := hi
    have hj : j < 3 := hj
    interval_cases i <;> interval_cases j <;> first | rfl | cases he

/-- A failed search leaves the cache as it is, and the next record is found in it. -/
theorem boot_record_lookup_threeRecords :
    threeRecords.sosGetBinfoRecs .start [1, 3, 2, 0, 2, -1] =
      [0x100c, 0, 0x1018, 0x1000, 0x1018, 0] :=
  (boot_record_lookup threeRecords [1, 3, 2, 0, 2, -1]).1.trans (by decide)

end Sos
