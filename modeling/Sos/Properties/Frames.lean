import Sos.Paging.Reachable

/-!
# `Sos.Properties.Frames`: who owns a frame, and which queue a page is in

Two properties of the page tables as they are in memory, without the page map:

* `frame_ownership`: the used frames are the frames in the resident entries of active
  processes, each in one entry only;
* `queue_membership`: a page in memory has exactly one item in the two queues, and a page that
  is not has none. This is what the check the authors left in `pager.c` as a comment tests.

The second one needs that `swap_out` never gives up for lack of swap space: then it forgets a
page that stays in memory. `Pinned` is the invariant behind it: the only page in memory
without an item is the IPC page.
-/

set_option autoImplicit false

namespace Sos

namespace Mm

/-- The page table entry of an active process at `v` is resident and holds frame `f`. -/
structure Resident (s : Mm) (p v f : Nat) : Prop where
  active : (s.ptable p).isActive = true
  aligned : v % pageSize = 0
  bounded : v < addressSpace
  present : (s.ptable p).pte v ≠ 0
  inMemory : isSwapped ((s.ptable p).pte v) = false
  frame : clearLowerBits ((s.ptable p).pte v) = f

/-- The page table entry of an active process at `v` is marked swapped with offset `b`. -/
structure SwappedOut (s : Mm) (p v b : Nat) : Prop where
  active : (s.ptable p).isActive = true
  aligned : v % pageSize = 0
  bounded : v < addressSpace
  swapped : isSwapped ((s.ptable p).pte v) = true
  offset : clearLowerBits ((s.ptable p).pte v) = b

/-- The items in the two queues that are for page `v` of process `p` and are not flagged. -/
def itemsFor (s : Mm) (p v : Nat) : List PageQueueItem :=
  (s.activePages ++ s.swappingPages).filter fun it =>
    !it.processDeleted && it.tid = (s.ptable p).tid && it.virtualAddress = v

/-- The server has not run out of swap space in this step. -/
def SwapSpaceLeft (_ : Mm) (_ : Action) (s' : Mm) : Prop :=
  Event.kdbEnter outOfSwapMessage ∉ s'.outbox

instance (s : Mm) (a : Action) (s' : Mm) : Decidable (SwapSpaceLeft s a s') :=
  inferInstanceAs (Decidable (_ ∉ _))

end Mm

/-! ### Entries and the page map -/

section

variable {φ : PageMap} {s : Mm}

/-- A page is resident in the page tables if and only if it is in the page map. -/
theorem Inv.resident_iff (h : Inv φ s) (pg : Page) (f : Nat) :
    s.Resident pg.pid pg.addr f ↔ (φ pg).frame? = some f := by
  have hok := h.ok pg
  have hword := h.tables.word pg
  cases hst : φ pg with
  -- An entry points to a frame just when the abstract page is resident.
  | absent =>
      rw [hst, PageState.word_absent] at hword
      exact ⟨fun hr => absurd hword hr.present, nofun⟩
  -- A swapped page has the bit that sets a slot number apart from a frame.
  | swapped b =>
      rw [hst] at hok hword
      refine ⟨fun hr => ?_, nofun⟩
      have hin := hr.inMemory
      rw [hword, (PageState.isSwapped_word hok).mpr ⟨b, rfl⟩] at hin
      cases hin
  | resident g d hold =>
      rw [hst] at hok hword
      rw [PageState.frame?_resident, Option.some.injEq]
      constructor
      · rintro hr
        rw [← hr.frame, hword, PageState.clearLowerBits_resident hok]
      · rintro rfl
        have hlive := h.tables.live pg (by rw [hst]; exact nofun)
        refine ⟨hlive.2.2.1, pg.aligned, pg.bounded, ?_, ?_, ?_⟩
        · rw [hword, ne_eq, PageState.word_eq_zero hok]
          exact nofun
        · rw [hword, Bool.eq_false_iff, ne_eq, PageState.isSwapped_word hok]
          rintro ⟨b, hb⟩
          cases hb
        · rw [hword, PageState.clearLowerBits_resident hok]

/-- The same of a page that is swapped out. -/
theorem Inv.swapped_iff (h : Inv φ s) (pg : Page) (b : Nat) :
    s.SwappedOut pg.pid pg.addr b ↔ φ pg = .swapped b := by
  have hok := h.ok pg
  have hword := h.tables.word pg
  constructor
  -- The bit in the entry says that the page is swapped, the rest of the word is its slot.
  · intro hs
    have hswapped := hs.swapped
    rw [hword, PageState.isSwapped_word hok] at hswapped
    obtain ⟨c, hc⟩ := hswapped
    have hoffset := hs.offset
    rw [hc] at hok
    rw [hword, hc, PageState.clearLowerBits_swapped hok] at hoffset
    rw [hc, hoffset]
  · intro hst
    have hlive := h.tables.live pg (by rw [hst]; exact nofun)
    rw [hst] at hok hword
    refine ⟨hlive.2.2.1, pg.aligned, pg.bounded, ?_, ?_⟩
    · rw [hword, PageState.isSwapped_word hok]
      exact ⟨b, rfl⟩
    · rw [hword, PageState.clearLowerBits_swapped hok]

/-- The thread id of an entry belongs to the process in its slot. -/
theorem Inv.pid_of_tid (h : Inv φ s) {p q : Nat} (hp : p < maxRunningProcess) (hq : 1 ≤ q)
    (ht : threadId q = (s.ptable p).tid) : q = p := by
  have hno := congrArg tid2pid ht
  rw [tid2pid_threadId] at hno
  by_cases hp0 : p = 0
  · rw [hp0, h.tables.root.1] at hno
    omega
  rcases h.tables.entry p (by omega) hp with ⟨he, -⟩ | ⟨-, he⟩
  · rw [hno, tid2pid, he, reservedIdBits, Nat.shiftLeft_shiftRight]
  · rw [he] at hno
    have hzero : tid2pid ⟨0, 1⟩ = 0 := by decide
    omega

/-- The item of a page is in one of the queues. -/
theorem Inv.mem_of_item (h : Inv φ s) {pg : Page} {it : PageQueueItem}
    (hit : (φ pg).item? = some it) : it ∈ s.activePages ++ s.swappingPages := by
  -- Only a resident page has an item, and its hold says in which of the two queues.
  rcases hst : φ pg with _ | b | ⟨f, d, _ | x | x | x⟩
  · rw [hst] at hit
    cases hit
  · rw [hst] at hit
    cases hit
  · rw [hst] at hit
    cases hit
  · rw [hst] at hit
    obtain rfl := Option.some.inj hit
    exact List.mem_append_left _ (h.queues.active_of_hold hst)
  · rw [hst] at hit
    obtain rfl := Option.some.inj hit
    exact List.mem_append_right _ (h.queues.swapping_of_writing hst)
  · rw [hst] at hit
    obtain rfl := Option.some.inj hit
    exact List.mem_append_right _ (h.queues.swapping_of_reading hst)

/-- An item in one of the queues that is not flagged is the item of a page. -/
theorem Inv.item_of_mem (h : Inv φ s) {it : PageQueueItem}
    (hm : it ∈ s.activePages ++ s.swappingPages) (hdel : it.processDeleted = false) :
    ∃ pg, (φ pg).item? = some it := by
  rcases List.mem_append.mp hm with hm | hm
  · obtain ⟨pg, f, d, hpg⟩ := (h.queues.active_iff it).mp hm
    exact ⟨pg, by rw [hpg]; rfl⟩
  · obtain ⟨pg, f, d, hpg | hpg⟩ := (h.queues.swapping_iff it hdel).mp hm
    · exact ⟨pg, by rw [hpg]; rfl⟩
    · exact ⟨pg, by rw [hpg]; rfl⟩

/-- The items for a page are its item in the page map. -/
theorem Inv.mem_itemsFor (h : Inv φ s) {pg : Page} (hp : pg.pid < maxRunningProcess)
    (it : PageQueueItem) :
    it ∈ s.itemsFor pg.pid pg.addr ↔ (φ pg).item? = some it := by
  simp only [Mm.itemsFor, List.mem_filter, Bool.and_eq_true, Bool.not_eq_true', decide_eq_true_eq]
  constructor
  · rintro ⟨hm, ⟨hdel, htid⟩, hva⟩
    obtain ⟨pg', hit⟩ := h.item_of_mem hm hdel
    have hfor := (h.queues.page pg' it hit).1
    have hlive := h.tables.live pg' (by rintro he; rw [he] at hit; cases hit)
    have hpid := h.pid_of_tid hp hlive.1 (hfor.1.symm.trans htid)
    have hpg : pg' = pg := Page.ext hpid (hfor.2.symm.trans hva)
    rwa [← hpg]
  · intro hit
    obtain ⟨hfor, hdel, -⟩ := h.queues.page pg it hit
    have hlive := h.tables.live pg (by rintro he; rw [he] at hit; cases hit)
    exact ⟨h.mem_of_item hit, ⟨hdel, hfor.1.trans hlive.2.2.2.symm⟩, hfor.2⟩

end

/-! ### Frames -/

/-- Frame ownership: the used frames are the frames in the resident entries of active
processes, and no two entries hold the same frame. -/
theorem frame_ownership {s : Mm} (h : s.Reachable Mm.anyStep) :
    (∀ f, s.frames.Used f ↔ ∃ p v, s.Resident p v f) ∧
      ∀ p v p' v' f, s.Resident p v f → s.Resident p' v' f → p = p' ∧ v = v' := by
  obtain ⟨φ, hinv, -⟩ := h.inv
  have hpage : ∀ {p v f}, s.Resident p v f →
      ∃ pg : Page, pg.pid = p ∧ pg.addr = v ∧ (φ pg).frame? = some f := by
    intro p v f hr
    exact ⟨⟨p, v, hr.aligned, hr.bounded⟩, rfl, rfl, (hinv.resident_iff _ f).mp hr⟩
  refine ⟨fun f => ?_, ?_⟩
  · rw [hinv.frames.used]
    constructor
    · rintro ⟨pg, hpg⟩
      exact ⟨pg.pid, pg.addr, (hinv.resident_iff pg f).mpr hpg⟩
    · rintro ⟨p, v, hr⟩
      obtain ⟨pg, -, -, hpg⟩ := hpage hr
      exact ⟨pg, hpg⟩
  · intro p v p' v' f hr hr'
    obtain ⟨pg, rfl, rfl, hpg⟩ := hpage hr
    obtain ⟨pg', rfl, rfl, hpg'⟩ := hpage hr'
    obtain rfl := hinv.frames.unique pg pg' f hpg hpg'
    exact ⟨rfl, rfl⟩

/-- Two frames for three pages of one process. -/
theorem frame_ownership_threeFaults :
    ∃ s, Mm.runOn Mm.anyStep (.small 2) threeFaults = some s ∧
      (∀ f, s.frames.Used f ↔ ∃ p v, s.Resident p v f) ∧
      ∀ p v p' v' f, s.Resident p v f → s.Resident p' v' f → p = p' ∧ v = v' := by
  obtain ⟨s, hs, hreach, -⟩ := Mm.exists_runOn Mm.anyStep
    (Mm.Boot.small_ok Nat.two_pos (by decide)) threeFaults
    (fun _ => True) (by decide +kernel)
  exact ⟨s, hs, frame_ownership hreach⟩

/-! ### Queues -/

/-- Every page in memory but the IPC page has an item. -/
def Pinned (φ : PageMap) : Prop :=
  ∀ pg f d, φ pg = .resident f d .pinned → pg.addr = ipcMemoryStart

/-- One page goes to a state that pins none but the IPC page. -/
theorem Pinned.update {φ : PageMap} (h : Pinned φ) {pg : Page} {st : PageState}
    (hst : ∀ f d, st = .resident f d .pinned → pg.addr = ipcMemoryStart) :
    Pinned (Function.update φ pg st) := by
  intro pg' f d hpg
  by_cases he : pg' = pg
  · rw [he, Function.update_self] at hpg
    rw [he]
    exact hst f d hpg
  · rw [Function.update_of_ne he] at hpg
    exact h pg' f d hpg

/-- What is pinned after pages are given up was pinned before. -/
theorem PageMap.release_pinned {φ : PageMap} {p : Nat} {inRange : Nat → Bool} {pg : Page}
    {f : Nat} {d : Bool} (h : φ.release p inRange pg = .resident f d .pinned) :
    φ pg = .resident f d .pinned := by
  by_cases hin : InRange p inRange pg
  · rw [release_of_inRange hin] at h
    cases h
  · rw [release_of_not hin] at h
    rcases hst : φ pg with _ | b | ⟨g, e, _ | it | it | it⟩
    all_goals
      rw [hst] at h
      cases h
    rfl

/-- A move keeps it, unless the server runs out of swap space. -/
theorem Move.pinned {φ φ' : PageMap} {s s' : Mm} {ℓ : Label} (h : Pinned φ)
    (hm : Move φ s ℓ φ' s') (hℓ : ℓ ≠ .lose) : Pinned φ' := by
  cases hm with
  | lose => exact absurd rfl hℓ
  | unmap | requeue | noPage | entry | map | mapPhys | store | ackDoomed | discardWrite
  | discardRead | register | registerFull | start | fault | setWait | setWaitFor | say =>
      exact h
  | evict | writeOut | touch | readIn | ack | evicted | restored | arrive | arrived =>
      exact h.update nofun
  | touchPinned _ _ _ _ hipc => exact h.update fun _ _ _ => hipc
  | dirty hpg =>
      refine h.update ?_
      rintro f d ⟨⟩
      exact h _ _ _ hpg
  | release | delete => exact fun pg f d hpg => h pg f d (PageMap.release_pinned hpg)

/-- By induction on the run: only IPC pages are in no queue. -/
theorem Mm.Reachable.pinned {s : Mm} (h : s.Reachable Mm.SwapSpaceLeft) :
    ∃ φ, Inv φ s ∧ Pinned φ := by
  obtain ⟨φ, hinv, -, hpinned⟩ := h.induction (fun φ _ => Pinned φ) (fun _ _ => nofun) (by
    intro φ s a s' hinv _ hpinned _ hok ls φ' hp
    have hlose : ∀ ℓ ∈ ls, ℓ ≠ .lose := by
      rintro ℓ hℓ rfl
      exact hok (hp.chain.event hℓ rfl)
    exact (hp.chain.and_label hlose).induction (I := fun φ _ => Pinned φ) hinv.clear hpinned
      fun _ _ _ _ _ _ hI hP hm => hm.pinned hI hP.2)
  exact ⟨φ, hinv, hpinned⟩

/-- Page state and queue membership agree, as long as there is swap space: for a page that is
not in memory no item is in the two queues, and its slot is in use when it is swapped out; for
a page in memory exactly one item is in exactly one of the queues. -/
theorem queue_membership {s : Mm} (h : s.Reachable Mm.SwapSpaceLeft) {p v : Nat}
    (hp : p < maxRunningProcess) (haligned : v % pageSize = 0) (hbounded : v < addressSpace)
    (hipc : v ≠ ipcMemoryStart) :
    (((s.ptable p).pte v = 0 ∨ isSwapped ((s.ptable p).pte v) = true) → s.itemsFor p v = []) ∧
      (isSwapped ((s.ptable p).pte v) = true →
        bitfieldGet s.swapBitfield (clearLowerBits ((s.ptable p).pte v) / pageSize) = true) ∧
      (((s.ptable p).pte v ≠ 0 ∧ isSwapped ((s.ptable p).pte v) = false) →
        (s.itemsFor p v).length = 1) := by
  obtain ⟨φ, hinv, hpinned⟩ := h.pinned
  let pg : Page := ⟨p, v, haligned, hbounded⟩
  have hitems : ∀ it, it ∈ s.itemsFor pg.pid pg.addr ↔ (φ pg).item? = some it :=
    hinv.mem_itemsFor hp
  have hword : (s.ptable p).pte v = (φ pg).word := hinv.tables.word pg
  have hok := hinv.ok pg
  have hnodup : (s.itemsFor p v).Nodup :=
    (List.Nodup.of_map _ hinv.queues.nodup).filter _
  have hnil : (φ pg).item? = none → s.itemsFor p v = [] := by
    intro hnone
    refine List.eq_nil_iff_forall_not_mem.mpr fun it hm => ?_
    rw [(hitems it).mp hm] at hnone
    cases hnone
  rw [hword]
  refine ⟨?_, ?_, ?_⟩
  · rintro (hzero | hswapped)
    · rw [PageState.word_eq_zero hok] at hzero
      exact hnil (by rw [hzero]; rfl)
    · obtain ⟨b, hb⟩ := (PageState.isSwapped_word hok).mp hswapped
      exact hnil (by rw [hb]; rfl)
  · intro hswapped
    obtain ⟨b, hb⟩ := (PageState.isSwapped_word hok).mp hswapped
    rw [hb] at hok ⊢
    rw [PageState.clearLowerBits_swapped hok]
    exact (hinv.slots.valid (.page pg) b (by rw [Holds, hb]; rfl)).2.2
  · rintro ⟨hne, hin⟩
    -- Only the IPC page is resident without an item.
    have hsome : ∃ it, (φ pg).item? = some it := by
      rcases hst : φ pg with _ | b | ⟨f, d, _ | it | it | it⟩
      · rw [hst] at hne
        exact absurd rfl hne
      · rw [hst] at hok hin
        rw [(PageState.isSwapped_word hok).mpr ⟨b, rfl⟩] at hin
        cases hin
      · exact absurd (hpinned pg f d hst) hipc
      · exact ⟨it, rfl⟩
      · exact ⟨it, rfl⟩
      · exact ⟨it, rfl⟩
    obtain ⟨it, hit⟩ := hsome
    -- A list without duplicates whose only member is `it`.
    have hsingle : s.itemsFor p v = [it] := by
      refine List.perm_singleton.mp ((List.perm_ext_iff_of_nodup hnodup
        (List.nodup_singleton it)).mpr fun x => ?_)
      rw [List.mem_singleton]
      refine (hitems x).trans ?_
      rw [hit, Option.some.injEq, eq_comm]
    rw [hsingle]
    rfl

/-- The page that is being written out is in one queue. -/
theorem queue_membership_threeFaults :
    ∃ s, Mm.runOn Mm.SwapSpaceLeft (.small 2) threeFaults = some s ∧
      (s.itemsFor 1 heapStart).length = 1 := by
  obtain ⟨s, hs, hreach, hresident⟩ := Mm.exists_runOn Mm.SwapSpaceLeft
    (Mm.Boot.small_ok Nat.two_pos (by decide)) threeFaults
    (fun s => (s.ptable 1).pte heapStart ≠ 0 ∧ isSwapped ((s.ptable 1).pte heapStart) = false)
    (by decide +kernel)
  exact ⟨s, hs, (queue_membership hreach (by decide) (by decide) (by decide) (by decide)).2.2
    hresident⟩

end Sos
