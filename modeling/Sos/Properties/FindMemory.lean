import Sos.Boot.Kip
import Sos.Lib.Interval

/-!
# `Sos.Properties.FindMemory`: the memory that the server gives out as frames

`sos_find_memory` has two loops over the memory descriptors. The first one never stores the size
it compares with (`maxsize`), so that it ends with the last block of conventional memory
(`foldl_findBiggest`). The second one takes the other physical areas off that block and keeps
the larger side each time, as `Lib.Interval.without` does, with one exception: an area that
covers what is left is not taken off (`removeDedicated_eq`).

`find_memory_iff`: the block is a largest one, and what is left of it is outside every other
area, if and only if the last conventional block is a largest one and the areas leave something
of it. `find_memory_wrong` shows both ways to go wrong. `sosFindMemory_split` goes from there to
what the function returns, and to the megabyte that it keeps for `sos_malloc`.
-/

set_option autoImplicit false

namespace Sos

open Lib (Interval)

/-- The areas that the descriptors are about. -/
def memdescInfos (descs : List MemoryDesc) : List MemdescInfo := descs.filterMap memdescInfo

namespace MemdescInfo

def interval (info : MemdescInfo) : Interval := ⟨info.low, info.high⟩

/-- The last block of conventional memory. -/
def lastConventional (infos : List MemdescInfo) : Option MemdescInfo :=
  (infos.filter fun info => info.Conventional).getLast?

/-- The physical areas that are not conventional memory. -/
def dedicated (infos : List MemdescInfo) : List Interval :=
  (infos.filter fun info => info.Dedicated).map interval

/-- No block of conventional memory is larger. -/
def Largest (infos : List MemdescInfo) (info : MemdescInfo) : Prop :=
  info ∈ infos ∧ info.Conventional ∧
    ∀ other ∈ infos, other.Conventional → other.interval.size ≤ info.interval.size

end MemdescInfo

def FoundMemory.interval (s : FoundMemory) : Interval := ⟨s.memBot, s.memTop⟩

/-- The first loop finds a largest block of conventional memory, and the second one leaves a part
of it that is outside all other physical areas. -/
def FindsMemory (descs : List MemoryDesc) : Prop :=
  ∃ biggest rest, findBiggestBlock descs = some biggest ∧
    removeDedicatedAreas descs biggest = some rest ∧
    (∃ info, MemdescInfo.Largest (memdescInfos descs) info ∧ biggest.interval = info.interval) ∧
    rest.interval.points ⊆ biggest.interval.points ∧
    ∀ info ∈ memdescInfos descs, info.Dedicated →
      Disjoint rest.interval.points info.interval.points

/-! ### The loops over the descriptors -/

/-- The assertion of `memdesc_info`: an area has at least one byte. -/
theorem memdescInfo_nonempty {desc : MemoryDesc} {info : MemdescInfo}
    (h : memdescInfo desc = some info) : info.interval.Nonempty := by
  unfold memdescInfo at h
  dsimp only at h
  split at h
  next hlt =>
    obtain rfl := Option.some.inj h
    exact hlt
  next => cases h

/-- The end of an area is a word of 32 bits. -/
theorem memdescInfo_high_lt {desc : MemoryDesc} {info : MemdescInfo}
    (h : memdescInfo desc = some info) : info.high < 2 ^ 32 := by
  unfold memdescInfo at h
  dsimp only at h
  split at h
  next =>
    obtain rfl := Option.some.inj h
    exact Nat.mod_lt _ (Nat.two_pow_pos 32)
  next => cases h

/-- So it is with each of the areas. -/
theorem memdescInfos_nonempty {descs : List MemoryDesc} :
    ∀ info ∈ memdescInfos descs, info.interval.Nonempty := by
  intro info hinfo
  obtain ⟨desc, -, hdesc⟩ := List.mem_filterMap.mp hinfo
  exact memdescInfo_nonempty hdesc

/-- A loop whose assertions hold is a loop over the areas. -/
theorem foldlM_memdescInfo {σ : Type} (f : σ → MemdescInfo → σ) {descs : List MemoryDesc}
    (h : ∀ desc ∈ descs, (memdescInfo desc).isSome) (s : σ) :
    descs.foldlM (fun s desc => (memdescInfo desc).map (f s)) s =
      some ((memdescInfos descs).foldl f s) := by
  induction descs generalizing s with
  | nil => rfl
  | cons desc descs ih =>
      obtain ⟨info, hinfo⟩ := Option.isSome_iff_exists.mp (h desc List.mem_cons_self)
      have hrest := ih (fun d hd => h d (List.mem_cons_of_mem _ hd)) (f s info)
      rw [List.foldlM_cons, hinfo, memdescInfos, List.filterMap_cons_some hinfo]
      exact hrest

/-! ### The first loop -/

namespace FoundMemory

variable {s : FoundMemory}

/-- A block of conventional memory replaces the one before, because `maxsize` stays 0. -/
theorem findBiggest_conventional {info : MemdescInfo} (hmax : s.maxsize = 0)
    (hinfo : info.interval.Nonempty) (hconv : info.Conventional) :
    s.findBiggest info = ⟨info.low, info.high, 0⟩ := by
  have hlt : info.low < info.high := hinfo
  unfold findBiggest
  rw [if_pos hconv, hmax]
  dsimp only
  rw [if_pos (by omega)]

/-- Other memory does not. -/
theorem findBiggest_other {info : MemdescInfo} (hconv : ¬ info.Conventional) :
    s.findBiggest info = s := if_neg hconv

/-- The first loop ends with the last conventional block, whatever the sizes are. -/
theorem foldl_findBiggest {infos : List MemdescInfo}
    (hinfos : ∀ info ∈ infos, info.interval.Nonempty) (hmax : s.maxsize = 0) :
    infos.foldl findBiggest s =
      ((MemdescInfo.lastConventional infos).map fun info => ⟨info.low, info.high, 0⟩).getD s := by
  -- `maxsize` stays zero, so every conventional descriptor replaces the one before.
  induction infos generalizing s with
  | nil => rfl
  | cons info infos ih =>
      have hrest : ∀ i ∈ infos, i.interval.Nonempty := fun i hi =>
        hinfos i (List.mem_cons_of_mem _ hi)
      rw [List.foldl_cons]
      unfold MemdescInfo.lastConventional
      by_cases hconv : info.Conventional
      · rw [findBiggest_conventional hmax (hinfos info List.mem_cons_self) hconv, ih hrest rfl,
          List.filter_cons_of_pos (by exact decide_eq_true hconv), List.getLast?_cons]
        unfold MemdescInfo.lastConventional
        -- A later conventional descriptor still wins over this one.
        cases (infos.filter fun info => info.Conventional).getLast? with
        | none => rfl
        | some last => rfl
      · rw [findBiggest_other hconv, ih hrest hmax,
          List.filter_cons_of_neg (by rwa [decide_eq_true_eq])]
        rfl

/-! ### The second loop -/

/-- Conventional memory is not taken off. -/
theorem removeDedicated_other {info : MemdescInfo} (hded : ¬ info.Dedicated) :
    s.removeDedicated info = s := if_neg hded

/-- An area that is apart from what is left changes nothing. -/
theorem removeDedicated_apart {info : MemdescInfo} (hinfo : info.interval.Nonempty)
    (hded : info.Dedicated) (hapart : s.memTop ≤ info.low ∨ info.high ≤ s.memBot) :
    s.removeDedicated info = s := by
  have hinfo : info.low < info.high := hinfo
  have hbot : ¬ (s.memBot ≤ info.low ∧ info.low < s.memTop) := by omega
  have htop : ¬ (s.memBot < info.high ∧ info.high ≤ s.memTop) := by omega
  unfold removeDedicated
  rw [if_pos hded, if_neg hbot, if_neg htop]
  rfl

/-- The sizes of the two sides, for an area that is not apart from what is left. -/
theorem removeDedicated_overlap {info : MemdescInfo} (hded : info.Dedicated)
    (hlow : info.low < s.memTop) (hhigh : s.memBot < info.high) :
    s.removeDedicated info =
      if info.low - s.memBot > s.memTop - info.high then { s with memTop := info.low }
      else if s.memTop - info.high > 0 then { s with memBot := info.high }
      else s := by
  have hbot : (if s.memBot ≤ info.low ∧ info.low < s.memTop then info.low - s.memBot else 0) =
      info.low - s.memBot := by
    split
    · rfl
    · omega
  have htop : (if s.memBot < info.high ∧ info.high ≤ s.memTop then s.memTop - info.high else 0) =
      s.memTop - info.high := by
    split
    · rfl
    · omega
  unfold removeDedicated
  rw [if_pos hded, hbot, htop]

/-- An area is taken off like an interval, unless it covers all that is left. -/
theorem removeDedicated_eq {info : MemdescInfo} (hs : s.interval.Nonempty)
    (hinfo : info.interval.Nonempty) (hded : info.Dedicated) :
    (s.removeDedicated info).interval =
      if info.interval.Covers s.interval then s.interval
      else s.interval.without info.interval := by
  have hs : s.memBot < s.memTop := hs
  have hlt : info.low < info.high := hinfo
  by_cases hapart : s.memTop ≤ info.low ∨ info.high ≤ s.memBot
  · have hcovers : ¬ info.interval.Covers s.interval := by
      rintro ⟨hbot, htop⟩
      have hbot : info.low ≤ s.memBot := hbot
      have htop : s.memTop ≤ info.high := htop
      omega
    rw [removeDedicated_apart hinfo hded hapart, if_neg hcovers]
    exact (if_pos hapart).symm
  · rw [removeDedicated_overlap hded (by omega) (by omega)]
    unfold Interval.without
    rw [if_neg (show ¬ (s.interval.top ≤ info.interval.bot ∨ info.interval.top ≤ s.interval.bot)
      from hapart)]
    by_cases hcovers : info.interval.Covers s.interval
    · have hbot : info.low ≤ s.memBot := hcovers.1
      have htop : s.memTop ≤ info.high := hcovers.2
      -- Neither side is larger than 0, and nothing is done.
      rw [if_pos hcovers, if_neg (by omega), if_neg (by omega)]
    · rw [if_neg hcovers]
      have hcovers : ¬ (info.low ≤ s.memBot ∧ s.memTop ≤ info.high) := hcovers
      by_cases hlarger : info.low - s.memBot > s.memTop - info.high
      · rw [if_pos hlarger]
        exact (if_pos hlarger).symm
      · rw [if_neg hlarger, if_pos (by omega)]
        exact (if_neg hlarger).symm

/-- Something is left after each turn. -/
theorem removeDedicated_nonempty {info : MemdescInfo} (hs : s.interval.Nonempty)
    (hinfo : info.interval.Nonempty) : (s.removeDedicated info).interval.Nonempty := by
  by_cases hded : info.Dedicated
  · rw [removeDedicated_eq hs hinfo hded]
    split
    next => exact hs
    next hcovers => exact (Interval.without_nonempty hs).mpr hcovers
  · rwa [removeDedicated_other hded]

/-- A turn only takes something off. -/
theorem removeDedicated_subset {info : MemdescInfo} (hs : s.interval.Nonempty)
    (hinfo : info.interval.Nonempty) :
    (s.removeDedicated info).interval.points ⊆ s.interval.points := by
  by_cases hded : info.Dedicated
  · rw [removeDedicated_eq hs hinfo hded]
    split
    next => exact Set.Subset.rfl
    next => exact Interval.without_subset hinfo
  · rw [removeDedicated_other hded]

/-- What is left after the loop is a part of the block, and not empty. -/
theorem foldl_removeDedicated_subset {infos : List MemdescInfo} (hs : s.interval.Nonempty)
    (hinfos : ∀ info ∈ infos, info.interval.Nonempty) :
    (infos.foldl removeDedicated s).interval.Nonempty ∧
      (infos.foldl removeDedicated s).interval.points ⊆ s.interval.points := by
  induction infos generalizing s with
  | nil => exact ⟨hs, Set.Subset.rfl⟩
  | cons info infos ih =>
      have hinfo := hinfos info List.mem_cons_self
      have hrest := ih (removeDedicated_nonempty hs hinfo) fun i hi =>
        hinfos i (List.mem_cons_of_mem _ hi)
      exact ⟨hrest.1, hrest.2.trans (removeDedicated_subset hs hinfo)⟩

/-- The first of the descriptors comes first when the areas are taken off. -/
theorem withoutAll_dedicated_cons {info : MemdescInfo} {infos : List MemdescInfo} {I : Interval} :
    I.withoutAll (MemdescInfo.dedicated (info :: infos)) =
      if info.Dedicated then (I.without info.interval).withoutAll (MemdescInfo.dedicated infos)
      else I.withoutAll (MemdescInfo.dedicated infos) := by
  unfold MemdescInfo.dedicated
  by_cases hded : info.Dedicated
  · rw [if_pos hded, List.filter_cons_of_pos (by exact decide_eq_true hded)]
    rfl
  · rw [if_neg hded, List.filter_cons_of_neg (by rwa [decide_eq_true_eq])]

/-- Each of the areas that are taken off has at least one byte. -/
theorem dedicated_nonempty {infos : List MemdescInfo}
    (hinfos : ∀ info ∈ infos, info.interval.Nonempty) :
    ∀ J ∈ MemdescInfo.dedicated infos, J.Nonempty := by
  intro J hJ
  obtain ⟨info, hinfo, rfl⟩ := List.mem_map.mp hJ
  exact hinfos info (List.mem_of_mem_filter hinfo)

/-- While the areas leave something, the loop takes all of them off. -/
theorem foldl_removeDedicated_eq {infos : List MemdescInfo} (hs : s.interval.Nonempty)
    (hinfos : ∀ info ∈ infos, info.interval.Nonempty)
    (hleft : (s.interval.withoutAll (MemdescInfo.dedicated infos)).Nonempty) :
    (infos.foldl removeDedicated s).interval =
      s.interval.withoutAll (MemdescInfo.dedicated infos) := by
  -- Each step takes one dedicated area off the block; the rest must not become empty before.
  induction infos generalizing s with
  | nil => rfl
  | cons info infos ih =>
      have hinfo := hinfos info List.mem_cons_self
      have htail : ∀ i ∈ infos, i.interval.Nonempty := fun i hi =>
        hinfos i (List.mem_cons_of_mem _ hi)
      have hnext := removeDedicated_nonempty hs hinfo
      rw [withoutAll_dedicated_cons] at hleft ⊢
      by_cases hded : info.Dedicated
      · rw [if_pos hded] at hleft ⊢
        -- An area that covers the block would leave nothing for the later ones.
        have hcovers : ¬ info.interval.Covers s.interval := by
          rw [← Interval.without_nonempty hs]
          by_contra hempty
          exact Interval.withoutAll_of_empty (dedicated_nonempty htail) hempty hleft
        have hstep := removeDedicated_eq hs hinfo hded
        rw [if_neg hcovers] at hstep
        rw [← hstep] at hleft ⊢
        exact ih hnext htail hleft
      · rw [if_neg hded] at hleft ⊢
        have hstep := removeDedicated_other (s := s) hded
        rw [List.foldl_cons, hstep]
        exact ih hs htail hleft

/-- When the areas leave nothing, one of them shares what the loop leaves. -/
theorem foldl_removeDedicated_shared {infos : List MemdescInfo} (hs : s.interval.Nonempty)
    (hinfos : ∀ info ∈ infos, info.interval.Nonempty)
    (hleft : ¬ (s.interval.withoutAll (MemdescInfo.dedicated infos)).Nonempty) :
    ∃ info ∈ infos, info.Dedicated ∧
      ¬ Disjoint (infos.foldl removeDedicated s).interval.points info.interval.points := by
  -- The area that empties the block is the one whose addresses it still shares.
  induction infos generalizing s with
  | nil => exact absurd hs hleft
  | cons info infos ih =>
      have hinfo := hinfos info List.mem_cons_self
      have htail : ∀ i ∈ infos, i.interval.Nonempty := fun i hi =>
        hinfos i (List.mem_cons_of_mem _ hi)
      have hnext := removeDedicated_nonempty hs hinfo
      rw [withoutAll_dedicated_cons] at hleft
      rw [List.foldl_cons]
      by_cases hded : info.Dedicated
      · rw [if_pos hded] at hleft
        have hstep := removeDedicated_eq hs hinfo hded
        by_cases hcovers : info.interval.Covers s.interval
        · -- the rest of the block stays inside this area
          refine ⟨info, List.mem_cons_self, hded, fun hdisj => ?_⟩
          obtain ⟨hrest, hsub⟩ := foldl_removeDedicated_subset hnext htail
          rw [hstep, if_pos hcovers] at hsub
          have hmem := Interval.mem_points.mpr ⟨Nat.le_refl _, hrest⟩
          exact Set.disjoint_left.mp hdisj hmem
            (Interval.points_subset hcovers.1 hcovers.2 (hsub hmem))
        · rw [if_neg hcovers] at hstep
          rw [← hstep] at hleft
          obtain ⟨other, hother, hshared⟩ := ih hnext htail hleft
          exact ⟨other, List.mem_cons_of_mem _ hother, hshared⟩
      · rw [if_neg hded] at hleft
        rw [removeDedicated_other hded]
        obtain ⟨other, hother, hshared⟩ := ih hs htail hleft
        exact ⟨other, List.mem_cons_of_mem _ hother, hshared⟩

end FoundMemory

/-! ### The main result -/

/-- Where there is conventional memory, there is a last block of it. -/
theorem exists_lastConventional {infos : List MemdescInfo}
    (hconv : ∃ info ∈ infos, info.Conventional) :
    ∃ last, MemdescInfo.lastConventional infos = some last ∧ last ∈ infos ∧
      last.Conventional := by
  obtain ⟨info, hinfo, hconv⟩ := hconv
  have hmem : info ∈ infos.filter fun info => info.Conventional :=
    List.mem_filter.mpr ⟨hinfo, decide_eq_true hconv⟩
  have hlast := List.getLast?_eq_some_getLast (List.ne_nil_of_mem hmem)
  have hfilter := List.mem_filter.mp (List.mem_of_getLast? hlast)
  exact ⟨_, hlast, hfilter.1, of_decide_eq_true hfilter.2⟩

/-- `sos_find_memory` chooses a largest block and leaves nothing else in it, if and only if the
last block of conventional memory is a largest one, and taking the other areas off it, one after
the other and each time with the larger side kept, leaves something. -/
theorem find_memory_iff (descs : List MemoryDesc)
    (h : ∀ desc ∈ descs, (memdescInfo desc).isSome)
    (hconv : ∃ info ∈ memdescInfos descs, info.Conventional) :
    FindsMemory descs ↔
      ∃ last, MemdescInfo.lastConventional (memdescInfos descs) = some last ∧
        (∀ other ∈ memdescInfos descs, other.Conventional →
          other.interval.size ≤ last.interval.size) ∧
        (last.interval.withoutAll (MemdescInfo.dedicated (memdescInfos descs))).Nonempty := by
  obtain ⟨last, hlast, hmem, hlastconv⟩ := exists_lastConventional hconv
  have hinfos : ∀ info ∈ memdescInfos descs, info.interval.Nonempty := memdescInfos_nonempty
  let biggest : FoundMemory := ⟨last.low, last.high, 0⟩
  have hbiggest : findBiggestBlock descs = some biggest := by
    unfold findBiggestBlock
    rw [foldlM_memdescInfo _ h, FoundMemory.foldl_findBiggest hinfos rfl, hlast]
    rfl
  have hrest : removeDedicatedAreas descs biggest =
      some ((memdescInfos descs).foldl FoundMemory.removeDedicated biggest) :=
    foldlM_memdescInfo _ h _
  have hs : biggest.interval.Nonempty := hinfos last hmem
  constructor
  -- What is stored must be the largest chunk and free of dedicated areas.
  · rintro ⟨biggest', rest, hbiggest', hrest', ⟨info, ⟨-, -, hmax⟩, hinfo⟩, -, hdisj⟩
    obtain rfl := Option.some.inj (hbiggest.symm.trans hbiggest')
    obtain rfl := Option.some.inj (hrest.symm.trans hrest')
    have hsame : last.interval = info.interval := hinfo
    refine ⟨last, hlast, ?_, ?_⟩
    · rw [hsame]
      exact hmax
    · by_contra hleft
      obtain ⟨other, hother, hded, hshared⟩ :=
        FoundMemory.foldl_removeDedicated_shared hs hinfos hleft
      exact hshared (hdisj other hother hded)
  · rintro ⟨last', hlast', hmax, hleft⟩
    obtain rfl := Option.some.inj (hlast.symm.trans hlast')
    have heq := FoundMemory.foldl_removeDedicated_eq hs hinfos hleft
    have hsub := (FoundMemory.foldl_removeDedicated_subset hs hinfos).2
    refine ⟨biggest, _, hbiggest, hrest, ⟨last, ⟨hmem, hlastconv, hmax⟩, rfl⟩, hsub, ?_⟩
    intro info hinfo hded
    rw [heq]
    refine Interval.withoutAll_disjoint (FoundMemory.dedicated_nonempty hinfos) _ ?_
    exact List.mem_map.mpr ⟨info, List.mem_filter.mpr ⟨hinfo, decide_eq_true hded⟩, rfl⟩

/-- What `sos_find_memory` returns, when at least a megabyte is left, and the megabyte for
`sos_malloc` lie one behind the other, and no other area has a byte of either of them. -/
theorem sosFindMemory_split {descs : List MemoryDesc} (h : FindsMemory descs) {m : SosMemory}
    (hm : sosFindMemory descs = some m) (hroom : m.low + oneMegabyte ≤ m.sosMemoryTop) :
    m.low ≤ m.high ∧ m.high = m.sosMemoryBot ∧ m.high + oneMegabyte = m.sosMemoryTop ∧
      ∀ info ∈ memdescInfos descs, info.Dedicated →
        Disjoint (Interval.points ⟨m.low, m.high⟩) info.interval.points ∧
          Disjoint (Interval.points ⟨m.sosMemoryBot, m.sosMemoryTop⟩) info.interval.points := by
  obtain ⟨biggest, rest, hbiggest, hrest, ⟨info, ⟨hmem, -, -⟩, hinfo⟩, hsub, hdisj⟩ := h
  unfold sosFindMemory at hm
  rw [hbiggest, Option.bind_eq_bind, Option.bind_some, hrest, Option.bind_some] at hm
  obtain rfl := Option.some.inj hm
  have hroom : rest.memBot + oneMegabyte ≤ rest.memTop := hroom
  have hmegabyte : 0 < oneMegabyte := by decide
  -- The last byte that is left is one of the block, and so below 2 ^ 32.
  have htop : rest.memTop < 2 ^ 32 := by
    have hlast : rest.memTop - 1 ∈ rest.interval.points :=
      Interval.mem_points.mpr ⟨show rest.memBot ≤ _ by omega, show _ < rest.memTop by omega⟩
    have hblock := (Interval.mem_points.mp (hsub hlast)).2
    rw [hinfo] at hblock
    obtain ⟨desc, -, hdesc⟩ := List.mem_filterMap.mp hmem
    have hhigh := memdescInfo_high_lt hdesc
    have hblock : rest.memTop - 1 < info.high := hblock
    omega
  have hbot : (rest.memTop + 2 ^ 32 - oneMegabyte) % 2 ^ 32 = rest.memTop - oneMegabyte := by
    omega
  have hlow {bot top : Nat} (hle : rest.memBot ≤ bot) (hle' : top ≤ rest.memTop) :
      Interval.points ⟨bot, top⟩ ⊆ rest.interval.points :=
    Interval.points_subset (I := ⟨bot, top⟩) (J := rest.interval) hle hle'
  dsimp only
  rw [hbot]
  refine ⟨by omega, rfl, by omega, fun info hinfo hded => ⟨?_, ?_⟩⟩
  · exact (hdisj info hinfo hded).mono_left (hlow (Nat.le_refl _) (by omega))
  · exact (hdisj info hinfo hded).mono_left (hlow (by omega) (Nat.le_refl _))

/-- Physical memory of a type from one address up to another one, in kilobytes. -/
def physicalDesc (type low high : Nat) (ht : type < 2 ^ 4 := by decide)
    (hl : low < 2 ^ 22 := by decide) (hh : high < 2 ^ 22 := by decide) : MemoryDesc :=
  ⟨type, false, low, high, ht, hl, hh⟩

/-- One block of 64 megabytes, of which the kernel has taken the first one. -/
theorem find_memory_kernel :
    FindsMemory [physicalDesc 1 0 0xffff, physicalDesc 2 0 0x3ff] :=
  (find_memory_iff _ (by decide) ⟨⟨0, 0x4000000, 1, true⟩, by decide, by decide⟩).mpr
    ⟨⟨0, 0x4000000, 1, true⟩, by decide, by decide, by decide⟩

/-- A block of 64 megabytes loses against a later one of one kilobyte, and a block is given out
that the kernel has taken as a whole. -/
theorem find_memory_wrong :
    ¬ FindsMemory [physicalDesc 1 0 0xffff, physicalDesc 1 0x10000 0x10000] ∧
    ¬ FindsMemory [physicalDesc 1 0 0xffff, physicalDesc 2 0 0xffff] := by
  constructor
  -- The second chunk is the smaller one, and it is the one that is kept.
  · rintro ⟨biggest, rest, hbiggest, -, ⟨info, ⟨-, -, hmax⟩, hinfo⟩, -, -⟩
    have hlast : biggest = ⟨0x4000000, 0x4000400, 0⟩ :=
      Option.some.inj (hbiggest.symm.trans (by decide))
    have hsize := hmax ⟨0, 0x4000000, 1, true⟩ (by decide) (by decide)
    rw [← hinfo, hlast] at hsize
    exact absurd hsize (by decide)
  -- The whole block is dedicated, and what is left of it is still the block.
  · rintro ⟨biggest, rest, hbiggest, hrest, -, -, hdisj⟩
    have hlast : biggest = ⟨0, 0x4000000, 0⟩ :=
      Option.some.inj (hbiggest.symm.trans (by decide))
    have hsame : rest = ⟨0, 0x4000000, 0⟩ := by
      rw [hlast] at hrest
      exact Option.some.inj (hrest.symm.trans (by decide))
    have hshared := hdisj ⟨0, 0x4000000, 2, true⟩ (by decide) (by decide)
    rw [hsame] at hshared
    exact Interval.Covers.not_disjoint (by decide) (by decide) hshared

end Sos
