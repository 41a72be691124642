import Sos.Properties.Frames

/-!
# `Sos.Properties.Slots`: who holds a slot of the swap file

A slot is held by the page table entry that is marked swapped with it, or by the page queue
item whose `swap_offset` it is.

* `slots_exclusive`: no slot has two holders, and the bit of a held slot is set. So the
  assertions of `swap_free` hold, and a slot that requests are in flight for is not handed out
  a second time;
* `slots_not_leaked`: a set bit belongs to a holder, when no request is in flight. This needs
  that no callback drops a flagged item: the item is freed with the slot it holds, and nobody
  clears the bit (`slots_leaked`).
-/

set_option autoImplicit false

namespace Sos

/-- What can hold a slot of the swap file. -/
inductive SlotHolder
  | entry (p v : Nat)
  | item (id : Nat)
deriving DecidableEq

namespace Mm

/-- The items in the two queues. -/
def items (s : Mm) : List PageQueueItem := s.activePages ++ s.swappingPages

/-- The page table entry of an active process, or the item, holds the slot at an offset. -/
def HoldsSlot (s : Mm) : SlotHolder → Int → Prop
  | .entry p v, offset => ∃ b : Nat, offset = b ∧ s.SwappedOut p v b
  | .item id, offset => offset ≠ -1 ∧ ∃ it ∈ s.items, it.id = id ∧ it.swapOffset = offset

end Mm

def SwapRequest.offset : SwapRequest → Int
  | .write _ offset _ => offset
  | .read _ offset _ => offset

/-! ### Holders and the page map -/

section

variable {φ : PageMap} {s : Mm}

/-- The holder in the page map of a holder in the code. -/
def SlotHolder.Is (φ : PageMap) : SlotHolder → Holder → Prop
  | .entry p v, .page pg => pg.pid = p ∧ pg.addr = v ∧ ∃ b, φ pg = .swapped b
  | .item id, .page pg => ∃ it, (φ pg).item? = some it ∧ it.id = id
  | .item id, .doomed id' => id = id'
  | .entry _ _, .doomed _ => False

/-- Every holder in the code is one in the page map. -/
theorem Inv.holder (h : Inv φ s) {x : SlotHolder} {offset : Int} (hx : s.HoldsSlot x offset) :
    ∃ (y : Holder) (b : Nat), x.Is φ y ∧ offset = b ∧ Holds φ s.swappingPages y b := by
  cases x with
  | entry p v =>
      obtain ⟨b, hb, hs⟩ := hx
      let pg : Page := ⟨p, v, hs.aligned, hs.bounded⟩
      have hpg : φ pg = .swapped b := (h.swapped_iff pg b).mp hs
      refine ⟨.page pg, b, ⟨rfl, rfl, b, hpg⟩, hb, ?_⟩
      rw [Holds, hpg]
      rfl
  | item id =>
      obtain ⟨hoff, it, hm, hid, hit⟩ := hx
      cases hdel : it.processDeleted with
      -- The item of a page: the page holds the slot.
      | false =>
          obtain ⟨pg, hpg⟩ := h.item_of_mem hm hdel
          obtain ⟨-, -, hslot⟩ := h.queues.page pg it hpg
          obtain ⟨b, hb⟩ := Int.eq_ofNat_of_zero_le (show 0 ≤ offset by omega)
          refine ⟨.page pg, b, ⟨it, hpg, hid⟩, hb, ?_⟩
          rw [Holds]
          cases hst : φ pg with
          | absent | swapped _ =>
              rw [hst] at hpg
              cases hpg
          | resident f d hold =>
              rw [hst] at hpg
              show hold.item?.bind PageQueueItem.slot = some b
              rw [show hold.item? = some it from hpg]
              exact PageQueueItem.slot_eq_some.mpr (hit.trans hb)
      -- A flagged item is being swapped, and holds the slot itself.
      | true =>
          have hm' : it ∈ s.swappingPages := by
            refine (List.mem_append.mp hm).resolve_left fun hm => ?_
            obtain ⟨pg, f, d, hpg⟩ := (h.queues.active_iff it).mp hm
            rw [(h.queues.page pg it (by rw [hpg]; rfl)).2.1] at hdel
            cases hdel
          have hslot := h.queues.slot it hm'
          obtain ⟨b, hb⟩ := Int.eq_ofNat_of_zero_le (show 0 ≤ offset by omega)
          exact ⟨.doomed id, b, rfl, hb, it, hm', hid, hdel, hit.trans hb⟩

/-- No two holders in the code are the same one in the page map. -/
theorem SlotHolder.Is.inj {x x' : SlotHolder} {y : Holder} (hx : x.Is φ y) (hx' : x'.Is φ y) :
    x = x' := by
  -- A holder is given by the entry or item behind it, so equal holders have one origin.
  cases x with
  | entry p v =>
      cases y with
      | doomed id => exact hx.elim
      | page pg =>
          obtain ⟨rfl, rfl, b, hb⟩ := hx
          cases x' with
          | entry p' v' =>
              obtain ⟨rfl, rfl, -⟩ := hx'
              rfl
          | item id =>
              obtain ⟨it, hit, -⟩ := hx'
              rw [hb] at hit
              cases hit
  | item id =>
      cases y with
      | doomed id' =>
          cases x' with
          | entry p v => exact hx'.elim
          | item id'' => exact congrArg SlotHolder.item ((show id = id' from hx).trans hx'.symm)
      | page pg =>
          obtain ⟨it, hit, rfl⟩ := hx
          cases x' with
          | entry p v =>
              obtain ⟨-, -, b, hb⟩ := hx'
              rw [hb] at hit
              cases hit
          | item id' =>
              obtain ⟨it', hit', rfl⟩ := hx'
              rw [Option.some.inj (hit.symm.trans hit')]

/-- A request is for the slot of its item. -/
theorem Inv.request (h : Inv φ s) {r : SwapRequest} (hr : r ∈ s.requests) :
    ∃ it ∈ s.swappingPages, it.id = r.token ∧ it.swapOffset ≤ r.offset ∧
      r.offset + batchSize ≤ it.swapOffset + pageSize := by
  obtain ⟨it, hm, hid⟩ := h.queues.owner r hr
  have hpending : r ∈ pending s.requests it.id := mem_pending.mpr ⟨hr, hid.symm⟩
  refine ⟨it, hm, hid, ?_⟩
  rcases h.queues.writing_or_reading hm with hw | hw
  · obtain ⟨i, data, hi, rfl⟩ := hw.write r hpending
    simp only [SwapRequest.offset, pageSize, batchSize] at hi ⊢
    omega
  · rw [hw.read, List.mem_singleton] at hpending
    obtain ⟨i, hto, hi⟩ := hw.batch
    subst hpending
    simp only [SwapRequest.offset, hto, pageSize, batchSize] at hi ⊢
    omega

end

/-! ### Slots are exclusive -/

/-- Swap slots are never shared and never freed while in use. The items are distinct, distinct
holders have distinct offsets, and a held offset is the offset of a slot whose bit is set. A
request in flight is for the slot of its item, which `allocate_swap_entry` does not hand out.
The server fails on an NFS error and on deleting a slot whose thread id has been overwritten,
where it stops at the first unmapping, but on no assertion of `swap_free`. -/
theorem slots_exclusive {s : Mm} (h : s.Reachable Mm.anyStep) :
    (s.items.map (·.id)).Nodup ∧
      (∀ x y offset, s.HoldsSlot x offset → s.HoldsSlot y offset → x = y) ∧
      (∀ x offset, s.HoldsSlot x offset → 0 ≤ offset ∧ offset % pageSize = 0 ∧
        offset < maxSwapEntries * pageSize ∧
        bitfieldGet s.swapBitfield (offset.toNat / pageSize) = true) ∧
      (∀ r ∈ s.requests, ∃ it ∈ s.swappingPages, it.id = r.token ∧
        s.HoldsSlot (.item it.id) it.swapOffset ∧ it.swapOffset ≤ r.offset ∧
        r.offset + batchSize ≤ it.swapOffset + pageSize ∧
        s.allocateSwapEntry.2 ≠ it.swapOffset) ∧
      ∀ a, s.Enabled a → s.step a = none →
        (∃ k status, a = .nfsReply k status ∧ status ≠ .ok) ∨
        ∃ p pid, a = .deleteProcess p pid ∧
          s.pagerUnmapAll (s.getProcess (s.pid2tid pid.toNat)).tid = none := by
  obtain ⟨φ, hinv, hclean⟩ := h.inv
  have hvalid : ∀ x offset, s.HoldsSlot x offset → 0 ≤ offset ∧ offset % pageSize = 0 ∧
      offset < maxSwapEntries * pageSize ∧
      bitfieldGet s.swapBitfield (offset.toNat / pageSize) = true := by
    intro x offset hx
    obtain ⟨y, b, -, rfl, hy⟩ := hinv.holder hx
    obtain ⟨hmod, hlt, hbit⟩ := hinv.slots.valid y b hy
    rw [Int.toNat_natCast]
    exact ⟨by omega, by omega, by exact_mod_cast hlt, hbit⟩
  refine ⟨hinv.queues.nodup, ?_, hvalid, ?_, ?_⟩
  · intro x y offset hx hy
    obtain ⟨x₀, b, hx₀, rfl, hxb⟩ := hinv.holder hx
    obtain ⟨y₀, c, hy₀, hc, hyc⟩ := hinv.holder hy
    obtain rfl : b = c := Int.ofNat.inj hc
    obtain rfl := hinv.slots.unique x₀ y₀ b hxb hyc
    exact hx₀.inj hy₀
  · intro r hr
    obtain ⟨it, hm, hid, h1, h2⟩ := hinv.request hr
    have hslot := hinv.queues.slot it hm
    have hholds : s.HoldsSlot (.item it.id) it.swapOffset :=
      ⟨by omega, it, List.mem_append_right _ hm, rfl, rfl⟩
    refine ⟨it, hm, hid, hholds, h1, h2, ?_⟩
    -- The slot it would hand out has a clear bit.
    obtain hnone | ⟨i, -, hfree, hsome⟩ := s.allocateSwapEntry_spec
    · rw [hnone]
      show (-1 : Int) ≠ it.swapOffset
      omega
    · rw [hsome]
      intro he
      have hbit := (hvalid _ _ hholds).2.2.2
      rw [← he, Int.toNat_natCast, Nat.mul_div_cancel i (by decide), hfree] at hbit
      cases hbit
  · intro a hen hnone
    have hfails : s.Fails a := by
      by_contra hn
      obtain ⟨s', hs'⟩ := step_total hinv hclean hen hn
      rw [hnone] at hs'
      cases hs'
    cases a with
    | nfsReply k status => exact Or.inl ⟨k, status, rfl, hfails⟩
    | deleteProcess p pid =>
        refine Or.inr ⟨p, pid, rfl, ?_⟩
        have hindex : (s.ptable 0).pageIndex = none := by simpa using hinv.tables.root.2.2
        have hget : s.getProcess (s.pid2tid pid.toNat) = s.ptable 0 := by
          rw [Mm.getProcess, Mm.pid2tid, hfails.2.2]
          rfl
        rw [hget, Mm.pagerUnmapAll, Mm.pagerUnmapRange, Mm.walkPageTable, Mm.getProcess,
          hinv.tables.root.1, hindex]
        rfl
    | _ => exact hfails.elim

/-- The slot of the page that is being written out has one holder. -/
theorem slots_exclusive_threeFaults :
    ∃ s, Mm.runOn Mm.anyStep (.small 2) threeFaults = some s ∧
      ∀ x y offset, s.HoldsSlot x offset → s.HoldsSlot y offset → x = y := by
  obtain ⟨s, hs, hreach, -⟩ := Mm.exists_runOn Mm.anyStep
    (Mm.Boot.small_ok Nat.two_pos (by decide)) threeFaults
    (fun _ => True) (by decide +kernel)
  exact ⟨s, hs, (slots_exclusive hreach).2.1⟩

/-! ### Slots are not leaked -/

namespace Mm

/-- The step drops no flagged item: it answers no read for one, and not its last write. -/
def DropsNoItem (s : Mm) (a : Action) (_ : Mm) : Prop :=
  ∀ k status, a = .nfsReply k status → ∀ r ∈ s.requests[k]?, ∀ it ∈ s.findItem r.token,
    it.processDeleted = true → r.isWrite = true ∧ it.toSwap ≠ batchSize

instance (s : Mm) (a : Action) (s' : Mm) : Decidable (DropsNoItem s a s') := by
  match a with
  | .nfsReply k status =>
      refine decidable_of_iff (∀ r ∈ s.requests[k]?, ∀ it ∈ s.findItem r.token,
        it.processDeleted = true → r.isWrite = true ∧ it.toSwap ≠ batchSize) ⟨?_, ?_⟩
      · rintro h _ _ ⟨⟩
        exact h
      · exact fun h => h k status rfl
  | .fault .. | .store .. | .unmapAll _ | .startProcess .. | .deleteProcess .. | .waitProcess ..
  | .createProcess .. => exact .isTrue nofun

/-- Every set bit is that of a slot that a page or a flagged item holds. -/
def NoLeak (φ : PageMap) (s : Mm) : Prop :=
  ∀ i < maxSwapEntries, bitfieldGet s.swapBitfield i = true →
    ∃ x, Holds φ s.swappingPages x (i * pageSize)

end Mm

section

variable {φ φ' : PageMap} {s s' : Mm}

/-- The item that a callback's token stands for. -/
theorem findItem_spec {token : Nat} {it : PageQueueItem} (h : s.findItem token = some it) :
    it ∈ s.swappingPages ∧ it.id = token :=
  ⟨List.mem_of_find?_eq_some h, by simpa using List.find?_some h⟩

/-- The bits that are set were set, and every holder keeps its slot. -/
theorem Mm.NoLeak.mono (h : s.NoLeak φ)
    (hbits : ∀ i < maxSwapEntries, bitfieldGet s'.swapBitfield i = true →
      bitfieldGet s.swapBitfield i = true)
    (hholds : ∀ x b, Holds φ s.swappingPages x b → ∃ y, Holds φ' s'.swappingPages y b) :
    s'.NoLeak φ' := by
  intro i hi hbit
  obtain ⟨x, hx⟩ := h i hi (hbits i hi hbit)
  exact hholds x _ hx

/-- One page changes and keeps its slot, and the flagged items stay. -/
theorem holds_update {pg : Page} {st : PageState} {swapping' : List PageQueueItem}
    (hst : ∀ b, (φ pg).slot? = some b → st.slot? = some b)
    (hdoomed : ∀ it ∈ s.swappingPages, it.processDeleted = true → it ∈ swapping') (x : Holder)
    (b : Nat) (hx : Holds φ s.swappingPages x b) :
    ∃ y, Holds (Function.update φ pg st) swapping' y b := by
  refine ⟨x, ?_⟩
  cases x with
  | page pg' =>
      by_cases he : pg' = pg
      · subst he
        rw [Holds, Function.update_self]
        exact hst b hx
      · rw [Holds, Function.update_of_ne he]
        exact hx
  | doomed id =>
      obtain ⟨it, hm, hid, hdel, hb⟩ := hx
      exact ⟨it, hdoomed it hm hdel, hid, hdel, hb⟩

/-- The slots of released pages are freed, or go to the flagged items. -/
theorem Released.noLeak {p : Nat} {inRange : Nat → Bool} (hr : Released φ s p inRange s')
    (hinv : Inv φ s) (h : s.NoLeak φ) : s'.NoLeak (φ.release p inRange) := by
  intro i hi hbit
  obtain ⟨hold, hfreed⟩ := hr.bits i hbit
  obtain ⟨x, hx⟩ := h i hi hold
  rw [hr.swappingPages]
  -- An item on its way out keeps the slot; a page in the range gives it up or passes it on.
  cases x with
  | doomed id =>
      obtain ⟨it, hm, hid, hdel, hb⟩ := hx
      exact ⟨.doomed id, _, List.mem_map_of_mem hm, (Mm.cancelItem_id it).trans hid,
        (Mm.cancelItem_processDeleted it).mpr (Or.inl hdel), (Mm.cancelItem_swapOffset it).trans hb⟩
  | page pg =>
      by_cases hin : InRange p inRange pg
      -- A released page that is not in transit has given its slot back.
      · have htransit : (φ pg).InTransit := by
          by_contra hn
          exact hfreed pg _ hin hn hx (Nat.mul_div_cancel i (by decide)).symm
        obtain ⟨f, d, it, hpg⟩ := htransit
        have hitem : (φ pg).item? = some it ∧ it ∈ s.swappingPages ∧ (φ pg).slot? = it.slot := by
          rcases hpg with hpg | hpg
          · exact ⟨by rw [hpg]; rfl, hinv.queues.swapping_of_writing hpg, by rw [hpg]; rfl⟩
          · exact ⟨by rw [hpg]; rfl, hinv.queues.swapping_of_reading hpg, by rw [hpg]; rfl⟩
        obtain ⟨hit, hm, hslot⟩ := hitem
        have hfor := (hinv.queues.page pg it hit).1
        rw [Holds, hslot, PageQueueItem.slot_eq_some] at hx
        exact ⟨.doomed it.id, _, List.mem_map_of_mem hm, Mm.cancelItem_id it,
          (Mm.cancelItem_processDeleted it).mpr (Or.inr (hfor.inRange_iff.mpr hin)),
          (Mm.cancelItem_swapOffset it).trans hx⟩
      -- A page out of the range is left as it was.
      · refine ⟨.page pg, ?_⟩
        rw [Holds, PageMap.release_of_not hin,
          PageState.slot?_mapSwapping (fun it => by simp [PageQueueItem.slot])]
        exact hx

/-- Every move keeps it that drops no flagged item. -/
theorem Move.noLeak {ℓ : Label} (hinv : Inv φ s) (h : s.NoLeak φ) (hm : Move φ s ℓ φ' s')
    (hℓ : ∀ it, ℓ ≠ .answer it .discarded) : s'.NoLeak φ' := by
  -- A page that changes was held by an item that is not flagged.
  have hne : ∀ {pg it}, (φ pg).item? = some it → ∀ x, x.processDeleted = true → x ≠ it := by
    rintro pg it hpg x hdel rfl
    rw [(hinv.queues.page pg x hpg).2.1] at hdel
    cases hdel
  cases hm with
  | unmap | requeue | noPage | entry | map | mapPhys | store | register | registerFull | start
  | fault | setWait | setWaitFor | say => exact h
  | discardWrite | discardRead => exact absurd rfl (hℓ _)
  | release _ _ _ hr => exact hr.noLeak hinv h
  | delete _ _ hr => exact hr.noLeak hinv h
  | evict _ hpg hslot =>
      refine h.mono (fun _ _ hb => hb) (holds_update ?_ fun _ hm _ => hm)
      intro c hc
      rw [hpg, PageState.slot?_active, PageQueueItem.slot_eq_some, hslot] at hc
      exact congrArg some (Int.ofNat.inj hc)
  | @writeOut _ _ _ pg _ _ _ _ _ hpg hslot _ _ _ hit =>
      rcases hslot with ⟨hoff, rfl⟩ | ⟨hoff, j, rfl, hj, -, rfl⟩
      · refine h.mono (fun _ _ hb => hb) (holds_update ?_ fun _ hm _ => List.mem_append_left _ hm)
        intro c hc
        rw [hpg, PageState.slot?_active, PageQueueItem.slot_eq_some, hoff] at hc
        rw [PageState.slot?_writing, PageQueueItem.slot_eq_some, hit]
        exact hc
      · intro i hi hbit
        rw [bitfieldGet_bitfieldSet] at hbit
        by_cases hij : i = j
        · refine ⟨.page pg, ?_⟩
          rw [Holds, Function.update_self, PageState.slot?_writing, PageQueueItem.slot_eq_some,
            hit, hij]
        · rw [if_neg hij] at hbit
          obtain ⟨x, hx⟩ := h i hi hbit
          refine holds_update ?_ (fun _ hm _ => List.mem_append_left _ hm) x _ hx
          intro c hc
          rw [hpg, PageState.slot?_active, PageQueueItem.slot_eq_some, hoff] at hc
          omega
  | lose _ hpg hslot =>
      refine h.mono (fun _ _ hb => hb) (holds_update ?_ fun _ hm _ => hm)
      intro c hc
      rw [hpg, PageState.slot?_active, PageQueueItem.slot_eq_some] at hc
      omega
  | touch _ _ _ hpg | touchPinned _ _ _ hpg =>
      refine h.mono (fun _ _ hb => hb) (holds_update ?_ fun _ hm _ => hm)
      rw [hpg]
      simp
  | readIn hpg _ _ _ _ _ hoff =>
      refine h.mono (fun _ _ hb => hb)
        (holds_update ?_ fun _ hm _ => List.mem_append_left _ hm)
      intro c hc
      rw [hpg] at hc
      rw [PageState.slot?_reading, PageQueueItem.slot_eq_some, hoff]
      exact congrArg _ (Option.some.inj hc)
  | dirty hpg =>
      refine h.mono (fun _ _ hb => hb) (holds_update ?_ fun _ hm _ => hm)
      rw [hpg]
      exact fun _ hc => hc
  | ack _ hpg _ hit =>
      have hmem := hinv.queues.swapping_of_writing hpg
      refine h.mono (fun _ _ hb => hb) (holds_update ?_ fun x hx hdel => ?_)
      · rw [hpg, hit]
        exact fun _ hc => hc
      · exact ((hinv.queues.replace hmem (by rw [hit])).2 x).mpr
          (Or.inl ⟨hx, hne (by rw [hpg]; rfl) x hdel⟩)
  | arrive _ hpg _ hit =>
      have hmem := hinv.queues.swapping_of_reading hpg
      refine h.mono (fun _ _ hb => hb) (holds_update ?_ fun x hx hdel => ?_)
      · rw [hpg, hit]
        exact fun _ hc => hc
      · exact ((hinv.queues.replace hmem (by rw [hit])).2 x).mpr
          (Or.inl ⟨hx, hne (by rw [hpg]; rfl) x hdel⟩)
  | @ackDoomed _ _ it it' _ _ _ hm hdel _ _ hit =>
      refine h.mono (fun _ _ hb => hb) fun x b hx => ⟨x, ?_⟩
      cases x with
      | page pg => exact hx
      | doomed id =>
          obtain ⟨y, hy, hid, hd, hb⟩ := hx
          have hreplace := (hinv.queues.replace hm (show it'.id = it.id by rw [hit])).2
          by_cases he : y = it
          · refine ⟨_, (hreplace _).mpr (Or.inr rfl), ?_⟩
            rw [hit]
            subst he
            exact ⟨hid, hd, hb⟩
          · exact ⟨y, (hreplace y).mpr (Or.inl ⟨hy, he⟩), hid, hd, hb⟩
  | evicted _ hpg _ hoff =>
      have hmem := hinv.queues.swapping_of_writing hpg
      refine h.mono (fun _ _ hb => hb) (holds_update ?_ fun x hx hdel => ?_)
      · intro c hc
        rw [hpg, PageState.slot?_writing, PageQueueItem.slot_eq_some, hoff] at hc
        exact congrArg some (Int.ofNat.inj hc)
      · exact ((hinv.queues.remove hmem).2.1 x).mpr ⟨hx, hne (by rw [hpg]; rfl) x hdel⟩
  | restored _ hpg _ hit =>
      have hmem := hinv.queues.swapping_of_writing hpg
      refine h.mono (fun _ _ hb => hb) (holds_update ?_ fun x hx hdel => ?_)
      · rw [hpg, hit]
        exact fun _ hc => hc
      · exact ((hinv.queues.remove hmem).2.1 x).mpr ⟨hx, hne (by rw [hpg]; rfl) x hdel⟩
  | arrived _ hpg _ hit =>
      have hmem := hinv.queues.swapping_of_reading hpg
      refine h.mono (fun _ _ hb => hb) (holds_update ?_ fun x hx hdel => ?_)
      · rw [hpg, hit]
        exact fun _ hc => hc
      · exact ((hinv.queues.remove hmem).2.1 x).mpr ⟨hx, hne (by rw [hpg]; rfl) x hdel⟩

end

/-- By induction on the run. -/
theorem Mm.Reachable.noLeak {s : Mm} (h : s.Reachable Mm.DropsNoItem) :
    ∃ φ, Inv φ s ∧ s.NoLeak φ := by
  obtain ⟨φ, hinv, -, hleak⟩ := h.induction (fun φ s => s.NoLeak φ)
    (fun s hs i hi hbit => by rw [hs.bits i hi] at hbit; cases hbit) (by
      intro φ s a s' hinv _ hleak _ hok ls φ' hp
      refine hp.chain.induction hinv.clear hleak fun φ₁ σ ℓ φ₂ σ' hinv₁ hI hP hm => ?_
      refine hm.noLeak hinv₁ hI ?_
      rintro it rfl
      obtain ⟨k, status, r, rfl, hr, hfind, rfl⟩ := hP
      obtain ⟨-, hid⟩ := findItem_spec hfind
      -- An item is dropped with its slot only by a callback that the condition leaves out.
      cases hm with
      | discardWrite hreq hmem hdel hwriting hlast =>
          have := (hok k status rfl r hr it hfind hdel).2
          omega
      | discardRead hreq hmem hdel hreading =>
          have hwrite := (hok k status rfl r hr it hfind hdel).1
          have hpending : r ∈ pending s.clear.requests it.id :=
            mem_pending.mpr ⟨List.mem_of_getElem? hr, hid.symm⟩
          rw [hreading.read, List.mem_singleton] at hpending
          rw [hpending] at hwrite
          cases hwrite)
  exact ⟨φ, hinv, hleak⟩

/-- Without requests nothing is being swapped. -/
theorem Inv.swappingPages_nil {φ : PageMap} {s : Mm} (h : Inv φ s) (hquiet : s.requests = []) :
    s.swappingPages = [] := by
  refine List.eq_nil_iff_forall_not_mem.mpr fun it hm => ?_
  rcases h.queues.writing_or_reading hm with hw | hw
  · exact hw.some (by rw [hquiet]; rfl)
  · have := hw.read
    rw [hquiet] at this
    cases this

/-- Swap slots are not leaked, as long as no callback drops a flagged item: when no request is
outstanding, every set bit is that of the slot of a swapped page of an active process, or of
an active page of one. -/
theorem slots_not_leaked {s : Mm} (h : s.Reachable Mm.DropsNoItem) (hquiet : s.requests = []) :
    ∀ i < maxSwapEntries, bitfieldGet s.swapBitfield i = true →
      (∃ p v, s.SwappedOut p v (i * pageSize)) ∨
        ∃ it ∈ s.activePages, it.swapOffset = (i * pageSize : Nat) ∧
          ∃ p, (s.ptable p).isActive = true ∧ (s.ptable p).tid = it.tid := by
  obtain ⟨φ, hinv, hleak⟩ := h.noLeak
  intro i hi hbit
  obtain ⟨x, hx⟩ := hleak i hi hbit
  -- Without requests no item is on its way, so only entries and active pages are left.
  rw [hinv.swappingPages_nil hquiet] at hx
  cases x with
  | doomed id =>
      obtain ⟨it, hm, -⟩ := hx
      cases hm
  | page pg =>
      cases hst : φ pg with
      | absent =>
          rw [Holds, hst] at hx
          cases hx
      | swapped b =>
          rw [Holds, hst] at hx
          obtain rfl := Option.some.inj hx
          exact Or.inl ⟨pg.pid, pg.addr, (hinv.swapped_iff pg _).mpr hst⟩
      | resident f d hold =>
          have hlive := hinv.tables.live pg (by rw [hst]; simp)
          cases hold with
          | pinned =>
              rw [Holds, hst] at hx
              cases hx
          | active it =>
              rw [Holds, hst, PageState.slot?_active, PageQueueItem.slot_eq_some] at hx
              have hfor := (hinv.queues.page pg it (by rw [hst]; rfl)).1
              exact Or.inr ⟨it, hinv.queues.active_of_hold hst, hx, pg.pid, hlive.2.2.1,
                hlive.2.2.2.trans hfor.1.symm⟩
          | writing it =>
              have hm := hinv.queues.swapping_of_writing hst
              rw [hinv.swappingPages_nil hquiet] at hm
              cases hm
          | reading it =>
              have hm := hinv.queues.swapping_of_reading hst
              rw [hinv.swappingPages_nil hquiet] at hm
              cases hm

/-- Answers to the first `n` requests. -/
def answers (n : Nat) : List Action := List.replicate n (.nfsReply 0 .ok)

/-- The process of `threeFaults`, whose first page is on its way to the swap file. When all is
written its third fault is repeated. -/
def afterThreeFaults : List Action :=
  threeFaults ++ answers 8 ++ [.fault 1 (heapStart + 2 * pageSize) writable .plain]

/-- Once all answers have come, the slot that is taken has its holder. -/
theorem slots_not_leaked_afterThreeFaults :
    ∃ s, Mm.runOn Mm.DropsNoItem (.small 2) afterThreeFaults = some s ∧ s.requests = [] ∧
      bitfieldGet s.swapBitfield 0 = true ∧
      ((∃ p v, s.SwappedOut p v (0 * pageSize)) ∨
        ∃ it ∈ s.activePages, it.swapOffset = (0 * pageSize : Nat) ∧
          ∃ p, (s.ptable p).isActive = true ∧ (s.ptable p).tid = it.tid) := by
  obtain ⟨s, hs, hreach, hquiet, hbit⟩ := Mm.exists_runOn Mm.DropsNoItem
    (Mm.Boot.small_ok Nat.two_pos (by decide)) afterThreeFaults
    (fun s => s.requests.length = 0 ∧ bitfieldGet s.swapBitfield 0 = true) (by decide +kernel)
  have hnil := List.eq_nil_of_length_eq_zero hquiet
  exact ⟨s, hs, hnil, hbit, slots_not_leaked hreach hnil 0 (by decide) hbit⟩

/-- A second process kills the one whose page is being written out, and ends. -/
def killedWhileWriting : List Action :=
  threeFaults ++
    [.createProcess [116] 0, .deleteProcess 2 1, .deleteProcess 2 2] ++ answers 8

/-- The slot of a page that was being written when its process was deleted is never given
back: no process is left, no request is outstanding, and its bit is set. -/
theorem slots_leaked :
    ¬ ∀ s : Mm, s.Reachable Mm.anyStep → s.requests = [] →
      ∀ i < maxSwapEntries, bitfieldGet s.swapBitfield i = true →
        (∃ p v, s.SwappedOut p v (i * pageSize)) ∨
          ∃ it ∈ s.activePages, it.swapOffset = (i * pageSize : Nat) ∧
            ∃ p, (s.ptable p).isActive = true ∧ (s.ptable p).tid = it.tid := by
  intro hall
  obtain ⟨s, -, hreach, hrequests, hactive, hbit, hdead⟩ := Mm.exists_runOn Mm.anyStep
    (Mm.Boot.small_ok Nat.two_pos (by decide)) killedWhileWriting
    (fun s => s.requests.length = 0 ∧ s.activePages.length = 0 ∧
      bitfieldGet s.swapBitfield 0 = true ∧ ∀ p < maxRunningProcess, ¬ s.Live p) (by decide +kernel)
  obtain ⟨φ, hinv, -⟩ := hreach.inv
  rcases hall s hreach (List.eq_nil_of_length_eq_zero hrequests) 0 (by decide) hbit with
    ⟨p, v, hswapped⟩ | ⟨it, hm, -⟩
  · have hpg := (hinv.swapped_iff ⟨p, v, hswapped.aligned, hswapped.bounded⟩ _).mp hswapped
    have hlive := hinv.tables.live _ (by rw [hpg]; exact nofun)
    exact hdead p hlive.2.1 hlive
  · rw [List.eq_nil_of_length_eq_zero hactive] at hm
    cases hm

end Sos
