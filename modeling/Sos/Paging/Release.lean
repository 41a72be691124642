import Sos.Paging.Queues

/-!
# `Sos.Paging.Release`: pages are taken away from a process

`pager_free_range` and `pager_free_all` take a set of pages away. In the page map these
pages become absent (`PageMap.drop`). The items of pages on their way to or from the swap
file are flagged, and lose the thread as their initiator (`PageMap.cancel`).

The loops of the code do this in three stages. The lemmas here put the stages together:
given the page tables, the frames and the slots after the loops, the slots of the flagged
items are still held (`slots_cancel`), the queues follow the page map (`queues_cancel`), and
no thread gains a server (`serves_cancel`).
-/

set_option autoImplicit false

namespace Sos

namespace PageMap

open Classical in
/-- The page map without the pages of a set. -/
noncomputable def drop (φ : PageMap) (D : Page → Prop) : PageMap :=
  fun pg => if D pg then .absent else φ pg

variable {φ : PageMap} {D D' : Page → Prop} {pg : Page}

/-- A page that is dropped is absent. -/
theorem drop_of (h : D pg) : φ.drop D pg = .absent := if_pos h

/-- Every other page keeps its state. -/
theorem drop_of_not (h : ¬ D pg) : φ.drop D pg = φ pg := if_neg h

/-- What is left of a page. -/
theorem drop_eq_or (φ : PageMap) (D : Page → Prop) (pg : Page) :
    (D pg ∧ φ.drop D pg = .absent) ∨ (¬ D pg ∧ φ.drop D pg = φ pg) := by
  by_cases h : D pg
  · exact Or.inl ⟨h, drop_of h⟩
  · exact Or.inr ⟨h, drop_of_not h⟩

/-- To drop one page more is one more update. -/
theorem drop_insert (h : ∀ q, D' q ↔ D q ∨ q = pg) :
    φ.drop D' = Function.update (φ.drop D) pg .absent := by
  funext q
  by_cases hq : q = pg
  · rw [hq, Function.update_self, drop_of ((h pg).mpr (Or.inr rfl))]
  · rw [Function.update_of_ne hq]
    by_cases hD : D q
    · rw [drop_of hD, drop_of ((h q).mpr (Or.inl hD))]
    · have hD' : ¬ D' q := fun hd => ((h q).mp hd).elim hD hq
      rw [drop_of_not hD, drop_of_not hD']

/-- It does not matter whether an absent page is dropped. -/
theorem drop_congr (h : ∀ q, φ q ≠ .absent → (D q ↔ D' q)) : φ.drop D = φ.drop D' := by
  funext q
  by_cases ha : φ q = .absent
  · rcases drop_eq_or φ D q with ⟨-, h1⟩ | ⟨-, h1⟩
    · rcases drop_eq_or φ D' q with ⟨-, h2⟩ | ⟨-, h2⟩
      · rw [h1, h2]
      · rw [h1, h2, ha]
    · rcases drop_eq_or φ D' q with ⟨-, h2⟩ | ⟨-, h2⟩
      · rw [h1, h2, ha]
      · rw [h1, h2]
  · by_cases hD : D q
    · rw [drop_of hD, drop_of ((h q ha).mp hD)]
    · rw [drop_of_not hD, drop_of_not fun hd => hD ((h q ha).mpr hd)]

/-- Where nothing is dropped the map stays. -/
theorem drop_of_empty (h : ∀ q, ¬ D q) : φ.drop D = φ :=
  funext fun q => drop_of_not (h q)

end PageMap

/-- The items of the pages being swapped change. -/
def PageState.mapSwapping (g : PageQueueItem → PageQueueItem) : PageState → PageState
  | .absent => .absent
  | .swapped b => .swapped b
  | .resident f d .pinned => .resident f d .pinned
  | .resident f d (.active it) => .resident f d (.active it)
  | .resident f d (.writing it) => .resident f d (.writing (g it))
  | .resident f d (.reading it) => .resident f d (.reading (g it))

def PageMap.cancel (φ : PageMap) (g : PageQueueItem → PageQueueItem) : PageMap :=
  fun pg => (φ pg).mapSwapping g

namespace PageState

variable {g : PageQueueItem → PageQueueItem}

/-- A change of the items does not change the words of the page table. -/
theorem word_mapSwapping (st : PageState) : (st.mapSwapping g).word = st.word := by
  rcases st with _ | b | ⟨f, d, _ | it | it | it⟩
  all_goals rfl

/-- Nor does it change the frames. -/
theorem frame?_mapSwapping (st : PageState) : (st.mapSwapping g).frame? = st.frame? := by
  rcases st with _ | b | ⟨f, d, _ | it | it | it⟩
  all_goals rfl

/-- Active items are not changed. -/
theorem mapSwapping_eq_active {st : PageState} {f : Nat} {d : Bool} {it : PageQueueItem} :
    st.mapSwapping g = .resident f d (.active it) ↔ st = .resident f d (.active it) := by
  rcases st with _ | b | ⟨f, d, _ | it | it | it⟩
  all_goals simp [mapSwapping]

/-- The item of a page that is being written is the changed one. -/
theorem mapSwapping_eq_writing {st : PageState} {f : Nat} {d : Bool} {it : PageQueueItem} :
    st.mapSwapping g = .resident f d (.writing it) ↔
      ∃ it₀, st = .resident f d (.writing it₀) ∧ g it₀ = it := by
  rcases st with _ | b | ⟨f, d, _ | it | it | it⟩
  all_goals simp [mapSwapping, and_assoc]

/-- And so is the item of a page that is being read. -/
theorem mapSwapping_eq_reading {st : PageState} {f : Nat} {d : Bool} {it : PageQueueItem} :
    st.mapSwapping g = .resident f d (.reading it) ↔
      ∃ it₀, st = .resident f d (.reading it₀) ∧ g it₀ = it := by
  rcases st with _ | b | ⟨f, d, _ | it | it | it⟩
  all_goals simp [mapSwapping, and_assoc]

/-- The slots stay if no item changes its own. -/
theorem slot?_mapSwapping (hg : ∀ it, (g it).slot = it.slot) (st : PageState) :
    (st.mapSwapping g).slot? = st.slot? := by
  rcases st with _ | b | ⟨f, d, _ | it | it | it⟩
  all_goals first | rfl | exact hg it

/-- A page has its own item, or the changed one. -/
theorem item?_mapSwapping {st : PageState} {it : PageQueueItem}
    (h : (st.mapSwapping g).item? = some it) :
    ∃ it₀, st.item? = some it₀ ∧ (it = it₀ ∨ it = g it₀) := by
  rcases st with _ | b | ⟨f, d, _ | it₀ | it₀ | it₀⟩
  · cases h
  · cases h
  · cases h
  · exact ⟨it₀, rfl, Or.inl (Option.some.inj h).symm⟩
  · exact ⟨it₀, rfl, Or.inr (Option.some.inj h).symm⟩
  · exact ⟨it₀, rfl, Or.inr (Option.some.inj h).symm⟩

/-- The page is on its way to or from the swap file. -/
def InTransit (st : PageState) : Prop :=
  ∃ f d it, st = .resident f d (.writing it) ∨ st = .resident f d (.reading it)

end PageState

/-! ### One item -/

namespace Mm

variable {t : ThreadId} {inRange : Nat → Bool} (it : PageQueueItem)

/-- A cancelled item keeps its number. -/
@[simp]
theorem cancelItem_id : (cancelItem t inRange it).id = it.id := by
  simp only [cancelItem]
  split <;> split <;> rfl

/-- It keeps its thread. -/
@[simp]
theorem cancelItem_tid : (cancelItem t inRange it).tid = it.tid := by
  simp only [cancelItem]
  split <;> split <;> rfl

/-- It keeps the address of its page. -/
@[simp]
theorem cancelItem_virtualAddress :
    (cancelItem t inRange it).virtualAddress = it.virtualAddress := by
  simp only [cancelItem]
  split <;> split <;> rfl

/-- It keeps its slot. -/
@[simp]
theorem cancelItem_swapOffset : (cancelItem t inRange it).swapOffset = it.swapOffset := by
  simp only [cancelItem]
  split <;> split <;> rfl

/-- It keeps what is left to be written or read. -/
@[simp]
theorem cancelItem_toSwap : (cancelItem t inRange it).toSwap = it.toSwap := by
  simp only [cancelItem]
  split <;> split <;> rfl

/-- An item keeps its flag, unless it belongs to the thread and is in range. -/
theorem cancelItem_processDeleted : (cancelItem t inRange it).processDeleted = true ↔
    it.processDeleted = true ∨ (t = it.tid ∧ inRange it.virtualAddress = true) := by
  simp only [cancelItem]
  by_cases h : t = it.tid ∧ inRange it.virtualAddress = true
  · simp only [h, and_self, if_true, or_true, iff_true]
    split <;> rfl
  · simp only [h, if_false, or_false]
    split <;> rfl

/-- The initiator is forgotten if its own page in the range is cancelled. -/
theorem cancelItem_initiator : (cancelItem t inRange it).initiator =
    if t = it.initiator ∧ inRange it.virtualAddress = true then nilthread else it.initiator := by
  by_cases h : t = it.initiator ∧ inRange it.virtualAddress = true
  · simp only [cancelItem]
    split
    · rfl
    · rfl
  · simp only [cancelItem]
    split
    · rfl
    · rfl

end Mm

/-- A cancelled item is still being written: its requests are on their way. -/
theorem Writing.cancelItem {it : PageQueueItem} {requests : List SwapRequest} {t : ThreadId}
    {inRange : Nat → Bool} (h : Writing it requests) :
    Writing (Mm.cancelItem t inRange it) requests := by
  refine ⟨?_, ?_, ?_⟩
  · simpa using h.some
  · simpa using h.count
  · simpa using h.write

/-- A cancelled item is still being read. -/
theorem Reading.cancelItem {it : PageQueueItem} {requests : List SwapRequest} {t : ThreadId}
    {inRange : Nat → Bool} (h : Reading it requests) :
    Reading (Mm.cancelItem t inRange it) requests := by
  refine ⟨?_, ?_⟩
  · simpa using h.read
  · simpa using h.batch

/-! ### The stages together -/

/-- The pages that slot `p` has in a range. -/
def InRange (p : Nat) (inRange : Nat → Bool) (pg : Page) : Prop :=
  pg.pid = p ∧ inRange pg.addr = true

/-- The items the code chooses are those of the pages in range. -/
theorem PageQueueItem.For.inRange_iff {it : PageQueueItem} {pg : Page} (h : it.For pg) {p : Nat}
    {inRange : Nat → Bool} :
    (threadId p = it.tid ∧ inRange it.virtualAddress = true) ↔ InRange p inRange pg := by
  rw [h.1, h.2, InRange]
  exact and_congr_left fun _ => ⟨fun he => (threadId_inj he).symm, fun he => by rw [Page.tid, he]⟩

section Cancel

variable {φ : PageMap} {p : Nat} {inRange : Nat → Bool} {active swapping : List PageQueueItem}
  {requests : List SwapRequest} {next : Nat}

/-- A flagged item keeps the slot its page had. -/
theorem slots_cancel (hq : QueuesOk φ active swapping requests next) {bitfield : Bitfield}
    (h : SlotsOk (φ.drop fun pg => InRange p inRange pg ∧ ¬ (φ pg).InTransit) bitfield swapping) :
    SlotsOk ((φ.drop (InRange p inRange)).cancel (Mm.cancelItem (threadId p) inRange)) bitfield
      (swapping.map (Mm.cancelItem (threadId p) inRange)) := by
  -- Where a holder has its slot from: itself, or the page of the item that is flagged now.
  let Origin : Holder → Holder → Prop := fun x y =>
    match x, y with
    | .page pg, .page pg₀ => pg = pg₀ ∧ ¬ InRange p inRange pg
    | .doomed id, .doomed id₀ => id = id₀
    | .doomed id, .page pg => InRange p inRange pg ∧ ∃ it, (φ pg).item? = some it ∧ it.id = id
    | .page _, .doomed _ => False
  have origin : ∀ x b, Holds ((φ.drop (InRange p inRange)).cancel
      (Mm.cancelItem (threadId p) inRange)) (swapping.map (Mm.cancelItem (threadId p) inRange)) x b →
      ∃ y, Holds (φ.drop fun pg => InRange p inRange pg ∧ ¬ (φ pg).InTransit) swapping y b ∧
        Origin x y := by
    rintro (pg | id) b hx
    · have hslot : (φ.drop (InRange p inRange) pg).slot? = some b := by
        rw [← PageState.slot?_mapSwapping (g := Mm.cancelItem (threadId p) inRange)
          (fun it => by simp [PageQueueItem.slot])]
        exact hx
      rcases PageMap.drop_eq_or φ (InRange p inRange) pg with ⟨-, he⟩ | ⟨hn, he⟩
      · rw [he] at hslot
        cases hslot
      · refine ⟨.page pg, ?_, rfl, hn⟩
        rw [he] at hslot
        simp only [Holds]
        rwa [PageMap.drop_of_not fun hd => hn hd.1]
    · obtain ⟨x, hx, hid, hd, hb⟩ := hx
      obtain ⟨it, hm, rfl⟩ := List.mem_map.mp hx
      rw [Mm.cancelItem_id] at hid
      rw [Mm.cancelItem_swapOffset] at hb
      cases hdel : it.processDeleted with
      | true => exact ⟨.doomed id, ⟨it, hm, hid, hdel, hb⟩, rfl⟩
      | false =>
          have hin : threadId p = it.tid ∧ inRange it.virtualAddress = true := by
            simpa [hdel] using (Mm.cancelItem_processDeleted it).mp hd
          obtain ⟨pg, f, d, hpg⟩ := (hq.swapping_iff it hdel).mp hm
          have htransit : (φ pg).InTransit := ⟨f, d, it, hpg⟩
          have hitem : (φ pg).item? = some it := by
            rcases hpg with hpg | hpg
            · rw [hpg]; rfl
            · rw [hpg]; rfl
          have hslot : (φ pg).slot? = some b := by
            rcases hpg with hpg | hpg
            · rwa [hpg, PageState.slot?_writing, PageQueueItem.slot_eq_some]
            · rwa [hpg, PageState.slot?_reading, PageQueueItem.slot_eq_some]
          refine ⟨.page pg, ?_, (hq.page pg it hitem).1.inRange_iff.mp hin, it, hitem, hid⟩
          simp only [Holds]
          rwa [PageMap.drop_of_not fun hd => hd.2 htransit]
  have inj : ∀ x y z, Origin x z → Origin y z → x = y := by
    rintro (pg | id) (pg' | id') (pg₀ | id₀) hx hy
    · rw [hx.1, hy.1]
    · exact hx.elim
    · exact absurd hy.1 (hx.1 ▸ hx.2)
    · exact hx.elim
    · exact absurd hx.1 (hy.1 ▸ hy.2)
    · exact hy.elim
    · obtain ⟨-, it, hit, rfl⟩ := hx
      obtain ⟨-, it', hit', rfl⟩ := hy
      rw [Option.some.inj (hit.symm.trans hit')]
    · rw [show id = id₀ from hx, show id' = id₀ from hy]
  refine ⟨?_, ?_⟩
  · intro x y b hx hy
    obtain ⟨x₀, hx₀, hox⟩ := origin x b hx
    obtain ⟨y₀, hy₀, hoy⟩ := origin y b hy
    obtain rfl := h.unique x₀ y₀ b hx₀ hy₀
    exact inj x y x₀ hox hoy
  · intro x b hx
    obtain ⟨y, hy, -⟩ := origin x b hx
    exact h.valid y b hy

/-- The queues after the items of the pages in range are freed or flagged. -/
theorem queues_cancel (h : QueuesOk φ active swapping requests next) :
    QueuesOk ((φ.drop (InRange p inRange)).cancel (Mm.cancelItem (threadId p) inRange))
      (active.filter fun it => !decide (threadId p = it.tid ∧ inRange it.virtualAddress = true))
      (swapping.map (Mm.cancelItem (threadId p) inRange)) requests next := by
  have hids : (swapping.map (Mm.cancelItem (threadId p) inRange)).map (·.id)
      = swapping.map (·.id) := by
    rw [List.map_map]
    exact List.map_congr_left fun it _ => Mm.cancelItem_id it
  have hkept : ∀ pg, φ.drop (InRange p inRange) pg ≠ .absent →
      ¬ InRange p inRange pg ∧ φ.drop (InRange p inRange) pg = φ pg := by
    intro pg hne
    rcases PageMap.drop_eq_or φ (InRange p inRange) pg with ⟨-, he⟩ | hkeep
    · exact absurd he hne
    · exact hkeep
  -- The fields of `QueuesOk` in their order.
  refine ⟨?_, ?_, ?_, ?_, ?_, ?_, ?_, ?_, ?_, ?_⟩
  · rw [List.map_append, hids, ← List.map_append]
    exact h.nodup.sublist ((List.filter_sublist.append_right swapping).map _)
  · intro x hx
    rcases List.mem_append.mp hx with hx | hx
    · exact h.fresh x (List.mem_append_left _ (List.mem_of_mem_filter hx))
    · obtain ⟨it, hm, rfl⟩ := List.mem_map.mp hx
      rw [Mm.cancelItem_id]
      exact h.fresh it (List.mem_append_right _ hm)
  · intro pg x hx
    obtain ⟨it, hit, hx⟩ := PageState.item?_mapSwapping hx
    obtain ⟨hn, he⟩ := hkept pg (by rintro he; rw [he] at hit; cases hit)
    rw [he] at hit
    obtain ⟨hfor, hdel, hoff⟩ := h.page pg it hit
    -- An item that a page still has was out of range, and is not flagged.
    have hdel' : (Mm.cancelItem (threadId p) inRange it).processDeleted = false := by
      rw [Bool.eq_false_iff]
      intro hd
      rcases (Mm.cancelItem_processDeleted it).mp hd with hd | hin
      · rw [hdel] at hd
        cases hd
      · exact hn (hfor.inRange_iff.mp hin)
    rcases hx with rfl | rfl
    · exact ⟨hfor, hdel, hoff⟩
    · refine ⟨⟨?_, ?_⟩, hdel', ?_⟩
      · rw [Mm.cancelItem_tid]
        exact hfor.1
      · rw [Mm.cancelItem_virtualAddress]
        exact hfor.2
      · rw [Mm.cancelItem_swapOffset]
        exact hoff
  · intro it
    simp only [List.mem_filter, PageMap.cancel, PageState.mapSwapping_eq_active,
      Bool.not_eq_true', decide_eq_false_iff_not]
    constructor
    · rintro ⟨hm, hn⟩
      obtain ⟨pg, f, d, hpg⟩ := (h.active_iff it).mp hm
      have hfor := (h.page pg it (by rw [hpg]; rfl)).1
      exact ⟨pg, f, d, by rwa [PageMap.drop_of_not fun hd => hn (hfor.inRange_iff.mpr hd)]⟩
    · rintro ⟨pg, f, d, hpg⟩
      obtain ⟨hn, he⟩ := hkept pg (by rw [hpg]; exact nofun)
      rw [he] at hpg
      have hfor := (h.page pg it (by rw [hpg]; rfl)).1
      exact ⟨h.active_of_hold hpg, fun hin => hn (hfor.inRange_iff.mp hin)⟩
  · intro x hd
    simp only [List.mem_map, PageMap.cancel, PageState.mapSwapping_eq_writing,
      PageState.mapSwapping_eq_reading]
    constructor
    · rintro ⟨it, hm, rfl⟩
      have hnot := mt (Mm.cancelItem_processDeleted it).mpr (by rw [hd]; decide)
      rw [not_or] at hnot
      obtain ⟨pg, f, d, hpg⟩ :=
        (h.swapping_iff it (Bool.eq_false_iff.mpr hnot.1)).mp hm
      have hfor : it.For pg := by
        rcases hpg with hpg | hpg
        · exact (h.page pg it (by rw [hpg]; rfl)).1
        · exact (h.page pg it (by rw [hpg]; rfl)).1
      have he := PageMap.drop_of_not (φ := φ) (mt hfor.inRange_iff.mpr hnot.2)
      refine ⟨pg, f, d, ?_⟩
      rw [he]
      rcases hpg with hpg | hpg
      · exact Or.inl ⟨it, hpg, rfl⟩
      · exact Or.inr ⟨it, hpg, rfl⟩
    · rintro ⟨pg, f, d, ⟨it, hpg, rfl⟩ | ⟨it, hpg, rfl⟩⟩
      · rw [(hkept pg (by rw [hpg]; exact nofun)).2] at hpg
        exact ⟨it, h.swapping_of_writing hpg, rfl⟩
      · rw [(hkept pg (by rw [hpg]; exact nofun)).2] at hpg
        exact ⟨it, h.swapping_of_reading hpg, rfl⟩
  · intro pg f d x hx
    obtain ⟨it, hpg, rfl⟩ := PageState.mapSwapping_eq_writing.mp hx
    rw [(hkept pg (by rw [hpg]; exact nofun)).2] at hpg
    obtain ⟨hd, hw⟩ := h.writing pg f d it hpg
    exact ⟨hd, hw.cancelItem⟩
  · intro pg f d x hx
    obtain ⟨it, hpg, rfl⟩ := PageState.mapSwapping_eq_reading.mp hx
    rw [(hkept pg (by rw [hpg]; exact nofun)).2] at hpg
    obtain ⟨hd, hr⟩ := h.reading pg f d it hpg
    exact ⟨hd, hr.cancelItem⟩
  · intro x hx _
    obtain ⟨it, hm, rfl⟩ := List.mem_map.mp hx
    rcases h.writing_or_reading hm with hw | hr
    · exact Or.inl hw.cancelItem
    · exact Or.inr hr.cancelItem
  · intro x hx
    obtain ⟨it, hm, rfl⟩ := List.mem_map.mp hx
    rw [Mm.cancelItem_swapOffset]
    exact h.slot it hm
  · intro r hr
    obtain ⟨it, hm, he⟩ := h.owner r hr
    exact ⟨_, List.mem_map_of_mem hm, (Mm.cancelItem_id it).trans he⟩

/-- No thread gains a server. -/
theorem serves_cancel {t : ThreadId} {id : Nat} (ht : t ≠ nilthread)
    (h : Serves (swapping.map (Mm.cancelItem (threadId p) inRange)) requests t id) :
    Serves swapping requests t id := by
  refine h.mono ht ?_ (fun r hr => ⟨r, hr, rfl, rfl⟩)
  intro x hx
  obtain ⟨it, hm, rfl⟩ := List.mem_map.mp hx
  refine ⟨it, hm, (Mm.cancelItem_id it).symm, (Mm.cancelItem_tid it).symm, ?_, ?_⟩
  · intro hd
    rw [Bool.eq_false_iff] at hd ⊢
    exact fun h => hd ((Mm.cancelItem_processDeleted it).mpr (Or.inl h))
  · rw [Mm.cancelItem_initiator]
    split
    · exact Or.inr rfl
    · exact Or.inl rfl

/-- When every page of the process is taken away, nothing serves its thread. -/
theorem not_serves_cancel {id : Nat} (hall : ∀ a, inRange a = true) :
    ¬ Serves (swapping.map (Mm.cancelItem (threadId p) inRange)) requests (threadId p) id := by
  rintro ⟨x, hx, -, ⟨hd, ht, -⟩ | ⟨hi, -⟩⟩
  · obtain ⟨it, -, rfl⟩ := List.mem_map.mp hx
    rw [Mm.cancelItem_tid] at ht
    rw [(Mm.cancelItem_processDeleted it).mpr (Or.inr ⟨ht.symm, hall _⟩)] at hd
    cases hd
  · obtain ⟨it, -, rfl⟩ := List.mem_map.mp hx
    rw [Mm.cancelItem_initiator] at hi
    split at hi
    · exact threadId_ne_nilthread p hi.symm
    next hn => exact hn ⟨hi.symm, hall _⟩

end Cancel

end Sos
