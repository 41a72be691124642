import Sos.Paging.SwapOut

/-!
# `Sos.Paging.Callbacks`: the answers of the NFS server

Each answer is exactly one move (`nfsReply_spec`). Which one depends on whether the page is
still there, on how much of it is left to transfer and, for the last write, on whether the
page is mapped. A callback fails only when the server reports an error.
-/

set_option autoImplicit false

namespace Sos

/-- An item that is replaced and then removed is gone. -/
theorem removeItem_replaceItem {swapping : List PageQueueItem} {it : PageQueueItem} {id : Nat}
    (hid : it.id = id) : removeItem (replaceItem swapping it) id = removeItem swapping id := by
  subst hid
  induction swapping with
  | nil => rfl
  | cons x l ih =>
      simp only [replaceItem, removeItem, List.map_cons] at ih ⊢
      by_cases hx : x.id = it.id
      · simpa [hx] using ih
      · simpa [hx] using ih

namespace Mm

variable {s : Mm} {it it' : PageQueueItem}

/-- The callbacks change an item in the queue by replacing it. -/
theorem updateSwapping_eq (s : Mm) (it : PageQueueItem) :
    s.updateSwapping it = { s with swappingPages := replaceItem s.swappingPages it } := rfl

/-- They take an item out of the queue by its number. -/
theorem removeSwapping_eq (s : Mm) (it : PageQueueItem) :
    s.removeSwapping it = { s with swappingPages := removeItem s.swappingPages it.id } := rfl

/-- `swap_write_callback` while there is more to write. -/
theorem swapWriteCallback_more (hit : it' = { it with toSwap := it.toSwap - batchSize })
    (hmore : it.toSwap - batchSize ≠ 0) :
    s.swapWriteCallback it .ok =
      some { s with swappingPages := replaceItem s.swappingPages it' } := by
  subst hit
  simp only [swapWriteCallback, ne_eq, hmore, not_false_eq_true, if_true]
  rfl

/-- `swap_write_callback` at the end, while the page is not mapped. -/
theorem swapWriteCallback_evicted {pg : Page} {f b : Nat} {frames : FrameTable}
    (hlast : it.toSwap - batchSize = 0) (hfor : it.For pg) (hdel : it.processDeleted = false)
    (hhw : s.hw pg.tid pg.addr = none)
    (hpte : s.pagerTableLookup pg.tid pg.addr =
      some (PageState.word (.resident f true (.writing it))))
    (hok : (PageState.resident f true (.writing it)).Ok) (hoff : it.swapOffset = (b : Int))
    (hb : b % pageSize = 0) (hfree : s.frames.frameFree f = some frames) :
    s.swapWriteCallback it .ok =
      some (Mm.wake { s with
        frames := frames
        ptable := setEntry s.ptable pg (b + 1)
        swappingPages := removeItem s.swappingPages it.id } it.initiator) := by
  -- The item when its last batch has been counted.
  let it' : PageQueueItem := { it with toSwap := it.toSwap - batchSize }
  let s₁ : Mm := s.updateSwapping it'
  -- Nobody has mapped the page since, so that the frame is given up.
  have hunref : s₁.isReferenced it' = false := by
    show (s.hw it.tid it.virtualAddress).isSome = false
    rw [hfor.1, hfor.2, hhw]
    rfl
  have hpte₁ : s₁.pagerTableLookup it'.tid it'.virtualAddress =
      some (PageState.word (.resident f true (.writing it))) := by
    show s.pagerTableLookup it.tid it.virtualAddress = _
    rw [hfor.1, hfor.2, hpte]
  -- The entry of the page says where it is now.
  have hmark : ({ s₁ with frames := frames } : Mm).markSwapped it'.tid it'.virtualAddress
      it'.swapOffset = some { s₁ with frames := frames, ptable := setEntry s.ptable pg (b + 1) } := by
    show ({ s₁ with frames := frames } : Mm).markSwapped it.tid it.virtualAddress it.swapOffset = _
    rw [hfor.1, hfor.2, hoff]
    exact markSwapped_slot { s₁ with frames := frames } hpte hb
  have hzero : ¬ (it.toSwap - batchSize ≠ 0) := fun h => h hlast
  simp only [swapWriteCallback, if_neg hzero]
  rw [show s.updateSwapping { it with toSwap := it.toSwap - batchSize } = s₁ from rfl, hunref]
  simp only [hdel, Bool.not_false, if_true, Option.bind_eq_bind]
  rw [hpte₁, Option.bind_some, PageState.clearLowerBits_resident hok, s₁.frameFree_eq hfree,
    Option.bind_some, hmark, Option.bind_some]
  -- A thread is woken if one waits for the frame.
  by_cases hi : it.initiator = nilthread
  · simp [hi, wake, removeSwapping_eq, s₁, updateSwapping_eq, removeItem_replaceItem, it']
  · simp [hi, wake, sendIpcReply, removeSwapping_eq, s₁, updateSwapping_eq, removeItem_replaceItem, it']

/-- `swap_write_callback` at the end, when the page was mapped again. -/
theorem swapWriteCallback_restored (hlast : it.toSwap - batchSize = 0)
    (hdel : it.processDeleted = false) (href : s.isReferenced it = true)
    (hit : it' = { it with toSwap := it.toSwap - batchSize, initiator := nilthread }) :
    s.swapWriteCallback it .ok =
      some (Mm.wake { s with
        swappingPages := removeItem s.swappingPages it.id
        activePages := s.activePages ++ [it'] } it.initiator) := by
  subst hit
  -- The item when its last batch has been counted.
  let it₁ : PageQueueItem := { it with toSwap := it.toSwap - batchSize }
  have href₁ : (s.updateSwapping it₁).isReferenced it₁ = true := href
  have hzero : ¬ (it.toSwap - batchSize ≠ 0) := fun h => h hlast
  simp only [swapWriteCallback, if_neg hzero]
  rw [show s.updateSwapping { it with toSwap := it.toSwap - batchSize } = s.updateSwapping it₁
    from rfl, href₁]
  -- The page has been used again, so that the item goes back; a thread that waits is woken all
  -- the same.
  by_cases hi : it.initiator = nilthread
  · simp [hi, hdel, wake, removeSwapping_eq, updateSwapping_eq, removeItem_replaceItem,
      it₁]
  · simp [hi, hdel, wake, sendIpcReply, removeSwapping_eq, updateSwapping_eq, removeItem_replaceItem,
      it₁]

/-- `swap_write_callback` at the end, for an item whose page is gone. -/
theorem swapWriteCallback_discard (hlast : it.toSwap - batchSize = 0)
    (hdel : it.processDeleted = true) :
    s.swapWriteCallback it .ok =
      some (Mm.wake { s with swappingPages := removeItem s.swappingPages it.id }
        (if s.isReferenced it then it.initiator else nilthread)) := by
  -- The item when its last batch has been counted.
  let it₁ : PageQueueItem := { it with toSwap := it.toSwap - batchSize }
  have href₁ : (s.updateSwapping it₁).isReferenced it₁ = s.isReferenced it := rfl
  have hzero : ¬ (it.toSwap - batchSize ≠ 0) := fun h => h hlast
  simp only [swapWriteCallback, if_neg hzero]
  rw [show s.updateSwapping { it with toSwap := it.toSwap - batchSize } = s.updateSwapping it₁
    from rfl, href₁]
  -- Of the process that is gone only the slot is left.
  cases href : s.isReferenced it with
  | false => simp [hdel, wake, removeSwapping_eq, updateSwapping_eq, removeItem_replaceItem,
      it₁]
  | true =>
      by_cases hi : it.initiator = nilthread
      · simp [hi, hdel, wake, removeSwapping_eq, updateSwapping_eq, removeItem_replaceItem,
      it₁]
      · simp [hi, hdel, wake, sendIpcReply, removeSwapping_eq, updateSwapping_eq, removeItem_replaceItem,
      it₁]

/-- `swap_read_callback` for a page that is there. -/
theorem swapReadCallback_ok {pg : Page} {f : Nat} {data : Nat → UInt8}
    (hdel : it.processDeleted = false) (hfor : it.For pg)
    (hpte : s.pagerTableLookup pg.tid pg.addr = some f)
    (hpos : 0 ≤ it.toSwap)
    (hit : it' = { it with toSwap := it.toSwap + batchSize }) :
    s.swapReadCallback it .ok batchSize data =
      some (if it.toSwap + batchSize = (pageSize : Int) then
        Mm.wake { s with
          phys := memcpy s.phys (f + it.toSwap.toNat) data batchSize
          swappingPages := removeItem s.swappingPages it.id
          activePages := s.activePages ++ [it'] } it.tid
      else
        { s with
          requests := s.requests ++ [.read it'.id (it'.swapOffset + it'.toSwap) batchSize]
          phys := memcpy s.phys (f + it.toSwap.toNat) data batchSize
          swappingPages := replaceItem s.swappingPages it' }) := by
  subst hit
  -- The batch goes to its place in the frame.
  have hdest : ((f : Int) + it.toSwap).toNat = f + it.toSwap.toNat := by omega
  have htid : it.tid ≠ nilthread := by
    rw [hfor.1]
    exact threadId_ne_nilthread _
  simp only [swapReadCallback, hdel, Bool.false_eq_true, if_false, ne_eq, not_true_eq_false]
  rw [hfor.1, hfor.2, hpte]
  -- The last batch wakes the thread of the fault, and any other asks for the next one.
  by_cases hend : it.toSwap + batchSize = (pageSize : Int)
  · rw [hfor.1] at htid
    simp [hdest, hend, wake, sendIpcReply, removeSwapping_eq, htid]
  · simp [hdest, hend, updateSwapping_eq]

/-- A request taken out of its place. -/
theorem exists_of_getElem? {requests : List SwapRequest} {k : Nat} {r : SwapRequest}
    (h : requests[k]? = some r) :
    ∃ l₁ l₂, requests = l₁ ++ r :: l₂ ∧ requests.eraseIdx k = l₁ ++ l₂ := by
  obtain ⟨hk, hr⟩ := List.getElem?_eq_some_iff.mp h
  refine ⟨requests.take k, requests.drop (k + 1), ?_, List.eraseIdx_eq_take_drop_succ ..⟩
  rw [← hr, List.getElem_cons_drop, List.take_append_drop]

/-- A successful answer to a write request runs its callback on the item, behind the requests that
are left. -/
theorem nfsReply_write {k id : Nat} {offset : Int} {data : Nat → UInt8} {l₁ l₂ : List SwapRequest}
    (hr : s.requests[k]? = some (.write id offset data)) (hit : s.findItem id = some it)
    (herase : s.requests.eraseIdx k = l₁ ++ l₂) :
    s.nfsReply k .ok = ({ s with
      requests := l₁ ++ l₂
      swapFile := writeFile s.swapFile offset data } : Mm).swapWriteCallback it .ok := by
  have hit' : s.findItem (SwapRequest.write id offset data).token = some it := hit
  simp only [nfsReply, hr, hit', Option.bind_eq_bind, Option.bind_some, herase]
  rfl

/-- The callback for a write asserts that there is no error. -/
theorem nfsReply_write_error {k id : Nat} {offset : Int} {data : Nat → UInt8} {status : NfsStatus}
    (hr : s.requests[k]? = some (.write id offset data)) (hit : s.findItem id = some it)
    (hst : status ≠ .ok) : s.nfsReply k status = none := by
  have hit' : s.findItem (SwapRequest.write id offset data).token = some it := hit
  simp only [nfsReply, hr, hit', Option.bind_eq_bind, Option.bind_some]
  cases status with
  | ok => exact absurd rfl hst
  | noSpace => rfl
  | error => rfl

/-- An answer to a read request runs its callback on the item, whatever the status is. -/
theorem nfsReply_read {k id count : Nat} {offset : Int} {l₁ l₂ : List SwapRequest}
    (status : NfsStatus) (hr : s.requests[k]? = some (.read id offset count))
    (hit : s.findItem id = some it) (herase : s.requests.eraseIdx k = l₁ ++ l₂) :
    s.nfsReply k status = ({ s with requests := l₁ ++ l₂ } : Mm).swapReadCallback it status count
      fun i => s.swapFile (offset + i) := by
  have hit' : s.findItem (SwapRequest.read id offset count).token = some it := hit
  simp only [nfsReply, hr, hit', Option.bind_eq_bind, Option.bind_some, herase]

end Mm

/-- The last answer for a page that is not mapped: its frame is freed, and its entry names the slot
of the item. -/
theorem Inv.swapWriteCallback_evicted {φ : PageMap} {s : Mm} {pg : Page} {f : Nat}
    {it : PageQueueItem} (h : Inv φ s) (requests : List SwapRequest) (swapFile : Int → UInt8)
    (hpg : φ pg = .resident f true (.writing it)) (hlast : it.toSwap - batchSize = 0)
    (hhw : s.hw pg.tid pg.addr = none) :
    ∃ (b : Nat) (frames : FrameTable), it.swapOffset = b ∧ s.frames.frameFree f = some frames ∧
      ({ s with requests := requests, swapFile := swapFile } : Mm).swapWriteCallback it .ok =
        some (Mm.wake { s with
          requests := requests
          swapFile := swapFile
          frames := frames
          ptable := setEntry s.ptable pg (b + 1)
          swappingPages := removeItem s.swappingPages it.id } it.initiator) := by
  obtain ⟨hfor, hdel, -⟩ := h.queues.page pg it (by rw [hpg]; rfl)
  obtain ⟨b, hb⟩ := Int.eq_ofNat_of_zero_le (h.queues.slot it (h.queues.swapping_of_writing hpg))
  have hslot : (φ pg).slot? = some b := by
    rwa [hpg, PageState.slot?_writing, PageQueueItem.slot_eq_some]
  have hframe : (φ pg).frame? = some f := by rw [hpg]; rfl
  obtain ⟨hlook, hok⟩ := h.lookup_resident hpg
  obtain ⟨frames, hfree, -⟩ := h.frames.wf.frameFree_spec (h.frames.valid hframe)
  refine ⟨b, frames, hb, hfree, ?_⟩
  exact Mm.swapWriteCallback_evicted (s := { s with requests := requests, swapFile := swapFile })
    hlast hfor hdel hhw hlook hok hb (h.slots.valid (.page pg) b hslot).1 hfree

/-- An answer is one move, unless the server reports an error that the callback reads. -/
theorem nfsReply_spec {φ : PageMap} {s : Mm} {k : Nat} {r : SwapRequest} {it : PageQueueItem}
    (h : Inv φ s) (status : NfsStatus) (hr : s.requests[k]? = some r)
    (hit : s.findItem r.token = some it) :
    (∃ s' kind φ', s.nfsReply k status = some s' ∧ Move φ s (.answer it kind) φ' s') ∨
      (status ≠ .ok ∧ s.nfsReply k status = none) := by
  obtain ⟨l₁, l₂, hreq, herase⟩ := Mm.exists_of_getElem? hr
  have hm : it ∈ s.swappingPages := List.mem_of_find?_eq_some hit
  have htoken : it.id = r.token := by simpa using List.find?_some hit
  have hpending : r ∈ pending s.requests it.id := mem_pending.mpr ⟨by rw [hreq]; simp, htoken.symm⟩
  have hresident : ∀ {pg f d hold}, φ pg = .resident f d hold → φ pg ≠ .absent := by
    intro pg f d hold hpg
    rw [hpg]
    exact nofun
  have hframe : ∀ {pg f d hold}, φ pg = .resident f d hold → (φ pg).frame? = some f := by
    intro pg f d hold hpg
    rw [hpg]
    rfl
  rcases h.queues.writing_or_reading hm with hw | hrd
  · -- a write is acknowledged
    obtain ⟨i, data, hi, rfl⟩ := hw.write r hpending
    by_cases hst : status = .ok
    swap
    · exact Or.inr ⟨hst, Mm.nfsReply_write_error hr hit hst⟩
    subst hst
    refine Or.inl ?_
    rw [Mm.nfsReply_write hr hit herase]
    let σ : Mm := { s with
      requests := l₁ ++ l₂
      swapFile := Mm.writeFile s.swapFile (it.swapOffset + (i * batchSize : Nat)) data }
    by_cases hmore : it.toSwap - batchSize ≠ 0
    · rw [Mm.swapWriteCallback_more rfl hmore]
      by_cases hdel : it.processDeleted = true
      · exact ⟨_, _, _, rfl, .ackDoomed hreq hm hdel hw hmore rfl⟩
      · obtain ⟨pg, f, d, hpg | hpg⟩ :=
          (h.queues.swapping_iff it (Bool.eq_false_iff.mpr hdel)).mp hm
        · obtain ⟨rfl, -⟩ := h.queues.writing pg f d it hpg
          exact ⟨_, _, _, rfl, .ack hreq hpg hmore rfl⟩
        · exact (hw.not_reading (h.queues.reading pg f d it hpg).2).elim
    -- The last batch: the frame is freed, unless the page was mapped again meanwhile.
    · have hlast : it.toSwap - batchSize = 0 := not_not.mp hmore
      by_cases hdel : it.processDeleted = true
      · rw [Mm.swapWriteCallback_discard hlast hdel]
        exact ⟨_, _, _, rfl, .discardWrite hreq hm hdel hw hlast⟩
      · have hdel' := Bool.eq_false_iff.mpr hdel
        obtain ⟨pg, f, d, hpg | hpg⟩ := (h.queues.swapping_iff it hdel').mp hm
        swap
        · exact (hw.not_reading (h.queues.reading pg f d it hpg).2).elim
        obtain ⟨rfl, -⟩ := h.queues.writing pg f d it hpg
        obtain ⟨hfor, -, -⟩ := h.queues.page pg it (by rw [hpg]; rfl)
        cases hhw : s.hw pg.tid pg.addr with
        | some m =>
            have href : s.isReferenced it = true := by
              rw [Mm.isReferenced, hfor.1, hfor.2, hhw]
              rfl
            rw [Mm.swapWriteCallback_restored (s := σ) hlast hdel' href rfl]
            exact ⟨_, _, _, rfl, .restored hreq hpg hlast rfl⟩
        | none =>
            obtain ⟨b, frames, hb, hfree, heq⟩ := h.swapWriteCallback_evicted _ _ hpg hlast hhw
            rw [heq]
            exact ⟨_, _, _, rfl, .evicted hreq hpg hlast hb hhw hfree⟩
  -- An item that is not flagged is held by a page, in the state its requests say.
  · -- a read is answered
    have hread := hrd.read
    rw [hread, List.mem_singleton] at hpending
    subst hpending
    rw [Mm.nfsReply_read status hr hit herase]
    by_cases hdel : it.processDeleted = true
    · refine Or.inl ⟨_, _, _, ?_, .discardRead hreq hm hdel hrd⟩
      simp [Mm.swapReadCallback, hdel, Mm.wake, Mm.removeSwapping_eq]
    · have hdel' := Bool.eq_false_iff.mpr hdel
      by_cases hst : status = .ok
      swap
      · refine Or.inr ⟨hst, ?_⟩
        cases status with
        | ok => exact absurd rfl hst
        | noSpace => simp [Mm.swapReadCallback, hdel']
        | error => simp [Mm.swapReadCallback, hdel']
      subst hst
      refine Or.inl ?_
      obtain ⟨pg, f, d, hpg | hpg⟩ := (h.queues.swapping_iff it hdel').mp hm
      · exact ((h.queues.writing pg f d it hpg).2.not_reading hrd).elim
      obtain ⟨rfl, -⟩ := h.queues.reading pg f d it hpg
      obtain ⟨hfor, -, -⟩ := h.queues.page pg it (by rw [hpg]; rfl)
      obtain ⟨i, hi, -⟩ := hrd.batch
      have hpos : 0 ≤ it.toSwap := by
        rw [hi]
        exact Int.natCast_nonneg (batchSize * i)
      have hlook := h.lookup (h.hasTable (hresident hpg))
      rw [hpg] at hlook
      rw [Mm.swapReadCallback_ok (s := { s with requests := l₁ ++ l₂ }) hdel' hfor hlook hpos rfl]
      by_cases hend : it.toSwap + batchSize = (pageSize : Int)
      · rw [if_pos hend]
        exact ⟨_, _, _, rfl, .arrived hreq hpg hend rfl⟩
      · rw [if_neg hend]
        exact ⟨_, _, _, rfl, .arrive hreq hpg hend rfl⟩

end Sos
