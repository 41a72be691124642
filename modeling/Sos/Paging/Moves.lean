import Sos.Paging.Queues

/-!
# `Sos.Paging.Moves`: the atomic moves of the memory management

Every action of the server is a chain of moves, the shortest pieces of its work between
which the invariant holds. For each move that touches a page there is a theorem here
(`Inv.evict`, `Inv.writeOut` and so on) that the invariant follows the page map.

A page travels in a circle. `touch` gives it its first frame. The swapper drops a clean page
(`evict`) or sends a dirty one out (`writeOut`). The answers of the NFS server (`ack`) end
in `evicted`, or in `restored` when the page was mapped again meanwhile. A fault on a
swapped page starts to read it back (`readIn`), one batch at a time (`arrive`), until it has
`arrived`. Items whose page was freed on the way are dropped (`discard`).
-/

set_option autoImplicit false

namespace Sos

namespace Mm

/-- The answer to a write reaches the swap file. -/
def writeFile (swapFile : Int → UInt8) (offset : Int) (data : Nat → UInt8) : Int → UInt8 :=
  fun o =>
    if offset ≤ o ∧ o < offset + batchSize then data (o - offset).toNat else swapFile o

/-- A page fault is answered, if there is a thread to answer. -/
def wake (s : Mm) (t : ThreadId) : Mm :=
  { s with
    wait := if t ≠ nilthread then Function.update s.wait t .ready else s.wait
    outbox := if t ≠ nilthread then s.outbox ++ [.reply t pagefaultLabel []] else s.outbox }

end Mm

namespace Inv

variable {φ : PageMap} {s : Mm}

/-- The other parts of the state do not matter. -/
theorem of_eq {s' : Mm} (h : Inv φ s) (h1 : s'.ptable = s.ptable) (h2 : s'.frames = s.frames)
    (h3 : s'.swapBitfield = s.swapBitfield) (h4 : s'.activePages = s.activePages)
    (h5 : s'.swappingPages = s.swappingPages) (h6 : s'.requests = s.requests)
    (h7 : s'.nextItem = s.nextItem) (h8 : s'.wait = s.wait) : Inv φ s' := by
  obtain ⟨ht, hf, hs, hq, hr⟩ := h
  refine ⟨?_, ?_, ?_, ?_, ?_⟩
  · rwa [h1]
  · rwa [h2]
  · rwa [h3, h5]
  · rwa [h4, h5, h6, h7]
  · rwa [h1, h5, h6, h8]

/-- A clean page is dropped: its slot has a copy. -/
theorem evict (h : Inv φ s) {it : PageQueueItem} {rest : List PageQueueItem} {pg : Page}
    {f b : Nat} {frames : FrameTable} (hq : s.activePages = it :: rest)
    (hpg : φ pg = .resident f false (.active it)) (hslot : it.swapOffset = (b : Int))
    (hfree : s.frames.frameFree f = some frames) :
    Inv (Function.update φ pg (.swapped b))
      { s with
        activePages := rest
        frames := frames
        ptable := setEntry s.ptable pg (b + 1) } := by
  have hne : φ pg ≠ .absent := by
    rw [hpg]
    exact nofun
  have hframe : (φ pg).frame? = some f := by rw [hpg]; rfl
  obtain ⟨frames', hfree', hwf, -, -, hused⟩ :=
    h.frames.wf.frameFree_spec (h.frames.valid hframe)
  obtain rfl : frames' = frames := Option.some.inj (hfree'.symm.trans hfree)
  -- The item leaves the queue, and no other item has its id.
  obtain ⟨hnd, hrest, hid⟩ := h.queues.head hq
  have hitem : (φ pg).item? = some it := by rw [hpg]; rfl
  refine ⟨h.tables.setEntry (h.tables.live pg hne) (h.hasTable hne) rfl,
    h.frames.give hwf hused hframe rfl, ?_, ?_, h.roles.same (Process.same_setPte _ _ _)⟩
  -- The page now holds the slot that its item had.
  · refine h.slots.same (slot_update ?_) (fun it' hm hd => ⟨it', hm, rfl, hd, rfl⟩)
    intro c hc
    rw [hpg, PageState.slot?_active, PageQueueItem.slot_eq_some, hslot]
    exact congrArg _ (Option.some.inj hc)
  · refine h.queues.update hnd ?_ nofun ?_ ?_ (fun _ _ _ => rfl) nofun nofun
      (fun it' hm _ => hm) h.queues.slot h.queues.owner
    · intro x hx
      apply h.queues.fresh x
      rw [hq]
      exact List.mem_cons_of_mem _ hx
    · intro x
      rw [hrest, hitem]
      simp [eq_comm]
    · intro x _
      have hx : x ∈ s.swappingPages → it ≠ x := by
        rintro hm rfl
        exact hid (List.mem_map_of_mem (List.mem_append_right _ hm))
      rw [hitem]
      simp only [ne_eq, Option.some.injEq, reduceCtorEq, or_self, exists_const, or_false]
      exact ⟨fun hm => ⟨hm, hx hm⟩, fun hm => hm.1⟩

/-- A dirty page is sent to the swap file. `it'` is its item with the slot, the number of
bytes to write and the initiator filled in. -/
theorem writeOut (h : Inv φ s) {it : PageQueueItem} {rest : List PageQueueItem} {pg : Page}
    {f b q : Nat} {bits : Bitfield} {data : Nat → UInt8} (hq : s.activePages = it :: rest)
    (hpg : φ pg = .resident f true (.active it))
    (hslot : (it.swapOffset = (b : Int) ∧ bits = s.swapBitfield) ∨
      (it.swapOffset = -1 ∧ ∃ i, b = i * pageSize ∧ i < maxSwapEntries ∧
        bitfieldGet s.swapBitfield i = false ∧ bits = bitfieldSet s.swapBitfield i true))
    (hlive : s.Live q) (hwait : s.wait (threadId q) = .fault)
    (hnone : ∀ id, ¬ Serves s.swappingPages s.requests (threadId q) id)
    {it' : PageQueueItem}
    (hit : it' = { it with swapOffset := b, toSwap := pageSize, initiator := threadId q }) :
    Inv (Function.update φ pg (.resident f true (.writing it')))
      { s with
        activePages := rest
        swappingPages := s.swappingPages ++ [it']
        requests := s.requests ++ Mm.writeRequests it' data
        swapBitfield := bits } := by
  have hne : φ pg ≠ .absent := by
    rw [hpg]
    exact nofun
  have hid : it'.id = it.id := by rw [hit]
  have hitem : (φ pg).item? = some it := by rw [hpg]; rfl
  obtain ⟨hfor, hdel, -⟩ := h.queues.page pg it hitem
  have hdel' : it'.processDeleted = false := by rw [hit]; exact hdel
  have hoff : it'.swapOffset = (b : Int) := by rw [hit]
  obtain ⟨hnd, hrest, hnew⟩ := h.queues.head hq
  -- An active item has no request, and its id is not used by the pages being swapped.
  have hreq : ∀ r ∈ s.requests, r.token ≠ it'.id := by
    rw [hid]
    exact h.queues.no_request (by rw [hq]; simp)
  have hsw : ∀ x ∈ s.swappingPages, x.id ≠ it'.id := by
    intro x hx he
    exact hnew (List.mem_map.mpr ⟨x, List.mem_append_right _ hx, he.trans hid⟩)
  have hne' : ∀ x ∈ s.swappingPages, it ≠ x := by
    rintro x hx rfl
    exact hsw it hx hid.symm
  refine ⟨h.tables.congr hne (by rw [hpg]; rfl), h.frames.congr (frame_update (by rw [hpg]; rfl)),
    ?_, ?_, ?_⟩
  · have hdoomed : ∀ x ∈ s.swappingPages ++ [it'], x.processDeleted = true →
        x ∈ s.swappingPages := by
      intro x hx hd
      rcases List.mem_append.mp hx with hx | hx
      · exact hx
      · rw [List.mem_singleton.mp hx, hdel'] at hd
        cases hd
    -- The page keeps its slot, or takes the free one that was found.
    rcases hslot with ⟨hslot, rfl⟩ | ⟨hslot, i, rfl, hi, hfree, rfl⟩
    · refine h.slots.same (slot_update ?_)
        (fun x hx hd => ⟨x, hdoomed x hx hd, rfl, hd, rfl⟩)
      intro c hc
      rw [PageState.slot?_writing, PageQueueItem.slot_eq_some, hoff] at hc
      rw [hpg, PageState.slot?_active, PageQueueItem.slot_eq_some, hslot, hc]
    · refine h.slots.take (x := .page pg) hi hfree ?_
      rintro (pg' | id) c hc
      · by_cases he : pg' = pg
        · subst he
          simp only [Holds, Function.update_self, PageState.slot?_writing,
            PageQueueItem.slot_eq_some, hoff] at hc
          exact Or.inr ⟨rfl, by exact_mod_cast hc.symm⟩
        · simp only [Holds, Function.update_of_ne he] at hc
          exact Or.inl hc
      · obtain ⟨x, hx, hxi, hd, hc⟩ := hc
        exact Or.inl ⟨x, hdoomed x hx hd, hxi, hd, hc⟩
  -- The item is new among the pages being swapped, with a request for each batch.
  · refine h.queues.update ?_ ?_ ?_ ?_ ?_ ?_ ?_ nofun ?_ ?_ ?_
    · rw [← List.append_assoc]
      exact nodup_snoc hnd (hid ▸ hnew)
    · intro x hx
      rw [← List.append_assoc, List.mem_append, List.mem_singleton] at hx
      rcases hx with hx | rfl
      · apply h.queues.fresh x
        rw [hq]
        exact List.mem_cons_of_mem _ hx
      · rw [hid]
        exact h.queues.fresh it (by rw [hq]; simp)
    · intro x hx
      obtain rfl : it' = x := Option.some.inj hx
      refine ⟨?_, hdel', Or.inr (by omega)⟩
      rw [hit]
      exact hfor
    · intro x
      rw [hrest, hitem]
      simp [eq_comm]
    · intro x _
      rw [hitem, List.mem_append, List.mem_singleton]
      simp only [ne_eq, Option.some.injEq, PageState.resident.injEq, Hold.writing.injEq,
        reduceCtorEq, and_false, or_false]
      constructor
      · rintro (hx | rfl)
        · exact Or.inl ⟨hx, hne' x hx⟩
        · exact Or.inr ⟨f, true, rfl, rfl, rfl⟩
      · rintro (⟨hx, -⟩ | ⟨_, _, -, -, rfl⟩)
        · exact Or.inl hx
        · exact Or.inr rfl
    · intro x hx _
      rw [pending_append, pending_of_forall_ne (l := Mm.writeRequests it' data), List.append_nil]
      intro r hr he
      exact hsw x hx (he.symm.trans (token_writeRequests hr).1)
    · intro f' d x hx
      simp only [PageState.resident.injEq, Hold.writing.injEq] at hx
      obtain ⟨-, rfl, rfl⟩ := hx
      exact ⟨rfl, writing_writeRequests hreq (by rw [hit])⟩
    · intro x hx hd
      rcases List.mem_append.mp hx with hx | hx
      · exact hx
      · rw [List.mem_singleton.mp hx, hdel'] at hd
        cases hd
    · intro x hx
      rcases List.mem_append.mp hx with hx | hx
      · exact h.queues.slot x hx
      · rw [List.mem_singleton.mp hx, hoff]
        omega
    · intro r hr
      rcases List.mem_append.mp hr with hr | hr
      · obtain ⟨x, hx, he⟩ := h.queues.owner r hr
        exact ⟨x, List.mem_append_left _ hx, he⟩
      · exact ⟨it', List.mem_append_right _ (by simp), (token_writeRequests hr).1.symm⟩
  -- Only the initiator waits for the new requests.
  · refine h.roles.take it'.id hlive hwait hnone ?_
    rintro t id ht ⟨x, hx, hxi, hs⟩
    rcases List.mem_append.mp hx with hx | hx
    · refine Or.inl ⟨x, hx, hxi, ?_⟩
      have hold : ∀ r ∈ s.requests ++ Mm.writeRequests it' data, r.token = id →
          r ∈ s.requests := by
        intro r hr he
        rcases List.mem_append.mp hr with hr | hr
        · exact hr
        · exact absurd (hxi.trans (he.symm.trans (token_writeRequests hr).1)) (hsw x hx)
      rcases hs with ⟨hd, ht', r, hr, he, hw⟩ | ⟨hi, r, hr, he, hw⟩
      · exact Or.inl ⟨hd, ht', r, hold r hr he, he, hw⟩
      · exact Or.inr ⟨hi, r, hold r hr he, he, hw⟩
    · obtain rfl := List.mem_singleton.mp hx
      rcases hs with ⟨hd, ht', r, hr, he, hw⟩ | ⟨hi, -⟩
      · rcases List.mem_append.mp hr with hr | hr
        · exact absurd (he.trans hxi.symm) (hreq r hr)
        · rw [(token_writeRequests hr).2] at hw
          cases hw
      · refine Or.inr ⟨?_, hxi.symm⟩
        rw [← hi, hit]

/-- A dirty page for which there is no slot is forgotten by the swapper. -/
theorem lose (h : Inv φ s) {it : PageQueueItem} {rest : List PageQueueItem} {pg : Page}
    {f : Nat} {d : Bool} {ev : Event} (hq : s.activePages = it :: rest)
    (hpg : φ pg = .resident f d (.active it)) :
    Inv (Function.update φ pg (.resident f d .pinned))
      { s with activePages := rest, outbox := s.outbox ++ [ev] } := by
  have hne : φ pg ≠ .absent := by
    rw [hpg]
    exact nofun
  have hitem : (φ pg).item? = some it := by rw [hpg]; rfl
  obtain ⟨hnd, hrest, hid⟩ := h.queues.head hq
  refine ⟨h.tables.congr hne (by rw [hpg]; rfl), h.frames.congr (frame_update (by rw [hpg]; rfl)),
    h.slots.same (slot_update nofun) (fun it' hm hd => ⟨it', hm, rfl, hd, rfl⟩), ?_, h.roles⟩
  refine h.queues.update hnd ?_ nofun ?_ ?_ (fun _ _ _ => rfl) nofun nofun
    (fun it' hm _ => hm) h.queues.slot h.queues.owner
  · intro x hx
    apply h.queues.fresh x
    rw [hq]
    exact List.mem_cons_of_mem _ hx
  · intro x
    rw [hrest, hitem]
    simp [eq_comm]
  -- The item is in neither queue now.
  · intro x _
    have hx : x ∈ s.swappingPages → it ≠ x := by
      rintro hm rfl
      exact hid (List.mem_map_of_mem (List.mem_append_right _ hm))
    rw [hitem]
    simp only [ne_eq, Option.some.injEq, PageState.resident.injEq, reduceCtorEq, and_false,
      or_self, exists_const, or_false]
    exact ⟨fun hm => ⟨hm, hx hm⟩, fun hm => hm.1⟩

/-- A page gets its first frame, and an item at the end of the active queue. -/
theorem touch (h : Inv φ s) {pg : Page} {f : Nat} {frames : FrameTable} {it : PageQueueItem}
    {phys : Nat → UInt8} (hlive : s.Live pg.pid) (htable : (s.ptable pg.pid).HasTable pg.addr)
    (hpg : φ pg = .absent) (halloc : s.frames.frameAlloc = some (frames, f)) (hf : f ≠ 0)
    (hid : it.id = s.nextItem) (hfor : it.For pg) (hdel : it.processDeleted = false)
    (hoff : it.swapOffset = -1) :
    Inv (Function.update φ pg (.resident f true (.active it)))
      { s with
        frames := frames
        phys := phys
        ptable := setEntry s.ptable pg (f + 2)
        activePages := s.activePages ++ [it]
        nextItem := s.nextItem + 1 } := by
  have hitem : (φ pg).item? = none := by rw [hpg]; rfl
  -- The number of the item is new.
  have hfresh : it.id ∉ (s.activePages ++ s.swappingPages).map (·.id) := by
    intro hm
    obtain ⟨x, hx, he⟩ := List.mem_map.mp hm
    have := h.queues.fresh x hx
    omega
  have hperm : ((s.activePages ++ [it]) ++ s.swappingPages).Perm
      ((s.activePages ++ s.swappingPages) ++ [it]) := by
    rw [List.append_assoc, List.append_assoc]
    exact List.perm_append_comm.append_left s.activePages
  refine ⟨h.tables.setEntry hlive htable rfl,
    h.frames.alloc halloc hf (by rw [hpg]; rfl) rfl, ?_, ?_,
    h.roles.same (Process.same_setPte _ _ _)⟩
  -- The page has no slot yet.
  · refine h.slots.same (slot_update ?_) (fun it' hm hd => ⟨it', hm, rfl, hd, rfl⟩)
    intro b hb
    rw [PageState.slot?_active, PageQueueItem.slot_eq_some] at hb
    omega
  · refine h.queues.update ?_ ?_ ?_ ?_ ?_ (fun _ _ _ => rfl) nofun nofun (fun _ hm _ => hm)
      h.queues.slot h.queues.owner
    · rw [(hperm.map _).nodup_iff]
      exact nodup_snoc h.queues.nodup hfresh
    · intro x hx
      rcases List.mem_append.mp (hperm.mem_iff.mp hx) with hx | hx
      · exact Nat.lt_succ_of_lt (h.queues.fresh x hx)
      · rw [List.mem_singleton.mp hx, hid]
        exact Nat.lt_succ_self _
    · intro x hx
      obtain rfl : it = x := Option.some.inj hx
      exact ⟨hfor, hdel, Or.inl hoff⟩
    · intro x
      rw [hitem, List.mem_append, List.mem_singleton]
      simp only [ne_eq, reduceCtorEq, not_false_eq_true, and_true, PageState.resident.injEq,
        Hold.active.injEq]
      constructor
      · rintro (hx | rfl)
        · exact Or.inl hx
        · exact Or.inr ⟨f, true, rfl, rfl, rfl⟩
      · rintro (hx | ⟨_, _, -, -, rfl⟩)
        · exact Or.inl hx
        · exact Or.inr rfl
    · intro x _
      simp [hitem]

/-- The IPC page gets its frame. It has no item, so it is never swapped out. -/
theorem touchPinned (h : Inv φ s) {pg : Page} {f : Nat} {frames : FrameTable}
    {phys : Nat → UInt8} (hlive : s.Live pg.pid) (htable : (s.ptable pg.pid).HasTable pg.addr)
    (hpg : φ pg = .absent) (halloc : s.frames.frameAlloc = some (frames, f)) (hf : f ≠ 0) :
    Inv (Function.update φ pg (.resident f false .pinned))
      { s with frames := frames, phys := phys, ptable := setEntry s.ptable pg f } :=
  ⟨h.tables.setEntry hlive htable rfl, h.frames.alloc halloc hf (by rw [hpg]; rfl) rfl,
    h.slots.same (slot_update nofun) (fun it' hm hd => ⟨it', hm, rfl, hd, rfl⟩),
    h.queues.keep (by rw [hpg]; rfl) rfl, h.roles.same (Process.same_setPte _ _ _)⟩

/-- A page is written to: its entry gets the dirty bit. -/
theorem dirty (h : Inv φ s) {pg : Page} {f : Nat} {d : Bool} {hold : Hold}
    (hpg : φ pg = .resident f d hold) (hnot : ∀ it, hold ≠ .reading it) :
    Inv (Function.update φ pg (.resident f true hold))
      { s with ptable := setEntry s.ptable pg (f + 2) } := by
  have hne : φ pg ≠ .absent := by
    rw [hpg]
    exact nofun
  have hslot : ∀ b, (PageState.resident f true hold).slot? = some b → (φ pg).slot? = some b := by
    rw [hpg]
    exact fun b hb => hb
  refine ⟨h.tables.setEntry (h.tables.live pg hne) (h.hasTable hne) rfl,
    h.frames.congr (frame_update (by rw [hpg]; rfl)),
    h.slots.same (slot_update hslot) (fun it' hm hd => ⟨it', hm, rfl, hd, rfl⟩), ?_,
    h.roles.same (Process.same_setPte _ _ _)⟩
  -- An item in a queue stays where it is, and a page being written is dirty already.
  cases hold with
  | pinned => exact h.queues.keep (by rw [hpg]; rfl) rfl
  | reading it => exact absurd rfl (hnot it)
  | writing it =>
      obtain rfl := (h.queues.writing pg f d it hpg).1
      rw [← hpg, Function.update_eq_self]
      exact h.queues
  | active it =>
      have hitem : (φ pg).item? = some it := by rw [hpg]; rfl
      have hmem : it ∈ s.activePages := h.queues.active_of_hold hpg
      refine h.queues.update h.queues.nodup h.queues.fresh ?_ ?_ ?_ (fun _ _ _ => rfl) nofun
        nofun (fun _ hm _ => hm) h.queues.slot h.queues.owner
      · intro x hx
        exact h.queues.page pg x (hitem.trans hx)
      · intro x
        rw [hitem]
        simp only [ne_eq, Option.some.injEq, PageState.resident.injEq, Hold.active.injEq]
        constructor
        · intro hx
          by_cases he : it = x
          · exact Or.inr ⟨f, true, rfl, rfl, he⟩
          · exact Or.inl ⟨hx, he⟩
        · rintro (⟨hx, -⟩ | ⟨_, _, -, -, rfl⟩)
          · exact hx
          · exact hmem
      · intro x _
        have hx : x ∈ s.swappingPages → it ≠ x := by
          rintro hm rfl
          exact h.queues.id_ne hmem hm rfl
        rw [hitem]
        simp only [ne_eq, Option.some.injEq, PageState.resident.injEq, reduceCtorEq, and_false,
          or_self, exists_const, or_false]
        exact ⟨fun hm => ⟨hm, hx hm⟩, fun hm => hm.1⟩

/-- A swapped page gets a frame, and its first batch is requested. -/
theorem readIn (h : Inv φ s) {pg : Page} {f b : Nat} {frames : FrameTable} {it : PageQueueItem}
    {phys : Nat → UInt8} (hpg : φ pg = .swapped b)
    (halloc : s.frames.frameAlloc = some (frames, f)) (hf : f ≠ 0)
    (hid : it.id = s.nextItem) (hfor : it.For pg) (hdel : it.processDeleted = false)
    (hoff : it.swapOffset = (b : Int)) (hto : it.toSwap = 0)
    (hwait : s.wait pg.tid = .fault)
    (hnone : ∀ id, ¬ Serves s.swappingPages s.requests pg.tid id) :
    Inv (Function.update φ pg (.resident f false (.reading it)))
      { s with
        frames := frames
        phys := phys
        ptable := setEntry s.ptable pg f
        swappingPages := s.swappingPages ++ [it]
        requests := s.requests ++ [.read it.id (it.swapOffset + it.toSwap) batchSize]
        nextItem := s.nextItem + 1 } := by
  have hne : φ pg ≠ .absent := by
    rw [hpg]
    exact nofun
  have hlive := h.tables.live pg hne
  have hitem : (φ pg).item? = none := by rw [hpg]; rfl
  -- The number of the item is new, so that no request has it.
  have hfresh : it.id ∉ (s.activePages ++ s.swappingPages).map (·.id) := by
    intro hm
    obtain ⟨x, hx, he⟩ := List.mem_map.mp hm
    have := h.queues.fresh x hx
    omega
  have hsw : ∀ x ∈ s.swappingPages, x.id ≠ it.id := fun x hx he =>
    hfresh (List.mem_map.mpr ⟨x, List.mem_append_right _ hx, he⟩)
  have hreq : ∀ r ∈ s.requests, r.token ≠ it.id := by
    intro r hr he
    obtain ⟨x, hx, hxr⟩ := h.queues.owner r hr
    exact hsw x hx (hxr.trans he)
  have hdoomed : ∀ x ∈ s.swappingPages ++ [it], x.processDeleted = true →
      x ∈ s.swappingPages := by
    intro x hx hd
    rcases List.mem_append.mp hx with hx | hx
    · exact hx
    · rw [List.mem_singleton.mp hx, hdel] at hd
      cases hd
  refine ⟨h.tables.setEntry hlive (h.hasTable hne) rfl,
    h.frames.alloc halloc hf (by rw [hpg]; rfl) rfl, ?_, ?_, ?_⟩
  -- The item holds the slot that the page had.
  · refine h.slots.same (slot_update ?_) (fun x hx hd => ⟨x, hdoomed x hx hd, rfl, hd, rfl⟩)
    intro c hc
    rw [PageState.slot?_reading, PageQueueItem.slot_eq_some, hoff] at hc
    rw [hpg, PageState.slot?_swapped]
    exact congrArg some (by exact_mod_cast hc)
  · refine h.queues.update ?_ ?_ ?_ ?_ ?_ ?_ nofun ?_ hdoomed ?_ ?_
    · rw [← List.append_assoc]
      exact nodup_snoc h.queues.nodup hfresh
    · intro x hx
      rw [← List.append_assoc, List.mem_append, List.mem_singleton] at hx
      rcases hx with hx | rfl
      · exact Nat.lt_succ_of_lt (h.queues.fresh x hx)
      · rw [hid]
        exact Nat.lt_succ_self _
    · intro x hx
      obtain rfl : it = x := Option.some.inj hx
      exact ⟨hfor, hdel, Or.inr (by omega)⟩
    · intro x
      simp [hitem]
    · intro x _
      rw [hitem, List.mem_append, List.mem_singleton]
      simp only [ne_eq, reduceCtorEq, not_false_eq_true, and_true, PageState.resident.injEq,
        Hold.reading.injEq, and_false, false_or]
      constructor
      · rintro (hx | rfl)
        · exact Or.inl hx
        · exact Or.inr ⟨f, false, rfl, rfl, rfl⟩
      · rintro (hx | ⟨_, _, -, -, rfl⟩)
        · exact Or.inl hx
        · exact Or.inr rfl
    · intro x hx _
      have hother : pending [SwapRequest.read it.id (it.swapOffset + it.toSwap) batchSize] x.id
          = [] := by
        apply pending_of_forall_ne
        intro r hr he
        rw [List.mem_singleton.mp hr] at he
        exact hsw x hx he.symm
      rw [pending_append, hother, List.append_nil]
    · intro f' d x hx
      simp only [PageState.resident.injEq, Hold.reading.injEq] at hx
      obtain ⟨-, rfl, rfl⟩ := hx
      exact ⟨rfl, reading_swapIn hreq hto⟩
    · intro x hx
      rcases List.mem_append.mp hx with hx | hx
      · exact h.queues.slot x hx
      · rw [List.mem_singleton.mp hx, hoff]
        omega
    · intro r hr
      rcases List.mem_append.mp hr with hr | hr
      · obtain ⟨x, hx, he⟩ := h.queues.owner r hr
        exact ⟨x, List.mem_append_left _ hx, he⟩
      · rw [List.mem_singleton.mp hr]
        exact ⟨it, List.mem_append_right _ (by simp), rfl⟩
  -- The owner of the page waits for the read, and nobody else.
  · refine (h.roles.take it.id hlive hwait hnone ?_).same (Process.same_setPte _ _ _)
    rintro t id ht ⟨x, hx, hxi, hs⟩
    rcases List.mem_append.mp hx with hx | hx
    · refine Or.inl ⟨x, hx, hxi, ?_⟩
      have hold : ∀ r ∈ s.requests ++ [.read it.id (it.swapOffset + it.toSwap) batchSize],
          r.token = id → r ∈ s.requests := by
        intro r hr he
        rcases List.mem_append.mp hr with hr | hr
        · exact hr
        · rw [List.mem_singleton.mp hr] at he
          exact absurd (hxi.trans he.symm) (hsw x hx)
      rcases hs with ⟨hd, ht', r, hr, he, hw⟩ | ⟨hi, r, hr, he, hw⟩
      · exact Or.inl ⟨hd, ht', r, hold r hr he, he, hw⟩
      · exact Or.inr ⟨hi, r, hold r hr he, he, hw⟩
    · obtain rfl := List.mem_singleton.mp hx
      rcases hs with ⟨-, ht', -⟩ | ⟨-, r, hr, he, hw⟩
      · exact Or.inr ⟨ht'.symm.trans hfor.1, hxi.symm⟩
      · rcases List.mem_append.mp hr with hr | hr
        · exact absurd (he.trans hxi.symm) (hreq r hr)
        · rw [List.mem_singleton.mp hr] at hw
          cases hw

/-! ### Answers of the NFS server -/

variable {l₁ l₂ : List SwapRequest} {r : SwapRequest}

/-- The requests that are left have been outstanding before. -/
private theorem mem_requests {requests : List SwapRequest} (hreq : requests = l₁ ++ r :: l₂)
    {r' : SwapRequest} (hr' : r' ∈ l₁ ++ l₂) : r' ∈ requests := by
  rw [hreq, List.mem_append, List.mem_cons]
  rw [List.mem_append] at hr'
  exact hr'.imp_right Or.inr

/-- The requests of the other items stay when a request is answered. -/
private theorem pending_other (h : Inv φ s) (hreq : s.requests = l₁ ++ r :: l₂)
    {it : PageQueueItem} (hm : it ∈ s.swappingPages) (hr : r.token = it.id)
    {x : PageQueueItem} (hx : x ∈ s.swappingPages) (hne : x ≠ it) :
    pending (l₁ ++ l₂) x.id = pending s.requests x.id := by
  rw [hreq, pending_remove_of_ne]
  rw [hr]
  exact fun he => hne (h.queues.eq_of_id (List.mem_append_right _ hm)
    (List.mem_append_right _ hx) he).symm

/-- The other requests keep their items when an item without requests is removed. -/
private theorem owner_remove (h : Inv φ s) (hreq : s.requests = l₁ ++ r :: l₂)
    {it : PageQueueItem} (hnone : ∀ r' ∈ l₁ ++ l₂, r'.token ≠ it.id) :
    ∀ r' ∈ l₁ ++ l₂, ∃ x ∈ removeItem s.swappingPages it.id, x.id = r'.token := by
  intro r' hr'
  obtain ⟨x, hx, he⟩ := h.queues.owner r' (mem_requests hreq hr')
  exact ⟨x, mem_removeItem.mpr ⟨hx, fun hid => hnone r' hr' (he.symm.trans hid)⟩, he⟩

/-- A removed item serves nobody, and the other items serve nobody new. -/
private theorem serves_remove (hreq : s.requests = l₁ ++ r :: l₂) {id₀ : Nat} {t : ThreadId}
    {id : Nat} (ht : t ≠ nilthread)
    (hs : Serves (removeItem s.swappingPages id₀) (l₁ ++ l₂) t id) :
    Serves s.swappingPages s.requests t id ∧ id ≠ id₀ := by
  refine ⟨hs.mono ht ?_ ?_, ?_⟩
  · intro x hx
    exact ⟨x, (mem_removeItem.mp hx).1, rfl, rfl, fun hd => hd, Or.inl rfl⟩
  · exact fun r' hr' => ⟨r', mem_requests hreq hr', rfl, rfl⟩
  · obtain ⟨x, hx, rfl, -⟩ := hs
    exact (mem_removeItem.mp hx).2

/-- An item that is waiting for a write answer serves its initiator. -/
theorem serves_initiator {it : PageQueueItem} (hreq : s.requests = l₁ ++ r :: l₂)
    (hm : it ∈ s.swappingPages) (hr : r.token = it.id) (hw : r.isWrite = true) :
    Serves s.swappingPages s.requests it.initiator it.id :=
  ⟨it, hm, rfl, Or.inr ⟨rfl, r, by rw [hreq]; simp, hr, hw⟩⟩

/-- An item that is waiting for a read answer serves its owner. -/
theorem serves_owner {it : PageQueueItem} (hreq : s.requests = l₁ ++ r :: l₂)
    (hm : it ∈ s.swappingPages) (hd : it.processDeleted = false) (hr : r.token = it.id)
    (hw : r.isWrite = false) : Serves s.swappingPages s.requests it.tid it.id :=
  ⟨it, hm, rfl, Or.inl ⟨hd, rfl, r, by rw [hreq]; simp, hr, hw⟩⟩

/-- A slot that nobody else gets stays with its holders when an item is removed. -/
private theorem slots_remove (h : Inv φ s) {φ' : PageMap} {id : Nat}
    (hslot : ∀ pg b, (φ' pg).slot? = some b → (φ pg).slot? = some b) :
    SlotsOk φ' s.swapBitfield (removeItem s.swappingPages id) :=
  h.slots.same hslot fun x hx hd => ⟨x, (mem_removeItem.mp hx).1, rfl, hd, rfl⟩

/-! An answered item that stays in the queue differs in the number of its bytes only. -/

/-- An item that is replaced has a number from before. -/
private theorem fresh_replace (h : Inv φ s) {it it' : PageQueueItem} (hm : it ∈ s.swappingPages)
    (hid : it'.id = it.id) :
    ∀ x ∈ s.activePages ++ replaceItem s.swappingPages it', x.id < s.nextItem := by
  intro x hx
  rcases List.mem_append.mp hx with hx | hx
  · exact h.queues.fresh x (List.mem_append_left _ hx)
  · rcases ((h.queues.replace hm hid).2 x).mp hx with ⟨hx, -⟩ | rfl
    · exact h.queues.fresh x (List.mem_append_right _ hx)
    · rw [hid]
      exact h.queues.fresh it (List.mem_append_right _ hm)

/-- An item that is replaced keeps its slot. -/
private theorem slot_replace (h : Inv φ s) {it it' : PageQueueItem} (hm : it ∈ s.swappingPages)
    (hid : it'.id = it.id) (hoff : it'.swapOffset = it.swapOffset) :
    ∀ x ∈ replaceItem s.swappingPages it', 0 ≤ x.swapOffset := by
  intro x hx
  rcases ((h.queues.replace hm hid).2 x).mp hx with ⟨hx, -⟩ | rfl
  · exact h.queues.slot x hx
  · rw [hoff]
    exact h.queues.slot it hm

/-- The requests find the item that is replaced by its number. -/
private theorem owner_replace (h : Inv φ s) (hreq : s.requests = l₁ ++ r :: l₂)
    {it it' : PageQueueItem} (hm : it ∈ s.swappingPages) (hid : it'.id = it.id) :
    ∀ r' ∈ l₁ ++ l₂, ∃ x ∈ replaceItem s.swappingPages it', x.id = r'.token := by
  intro r' hr'
  have hmem := (h.queues.replace hm hid).2
  obtain ⟨x, hx, he⟩ := h.queues.owner r' (mem_requests hreq hr')
  by_cases hxi : x = it
  · exact ⟨it', (hmem it').mpr (Or.inr rfl), by rw [hid, ← hxi, he]⟩
  · exact ⟨x, (hmem x).mpr (Or.inl ⟨hx, hxi⟩), he⟩

/-- It serves the threads that it has served before. -/
private theorem serves_replace (h : Inv φ s) {it it' : PageQueueItem} {n : Int}
    (hm : it ∈ s.swappingPages) (hit : it' = { it with toSwap := n })
    {requests : List SwapRequest}
    (hreqs : ∀ r' ∈ requests, ∃ r ∈ s.requests, r.token = r'.token ∧ r.isWrite = r'.isWrite)
    {t : ThreadId} {id : Nat} (ht : t ≠ nilthread)
    (hs : Serves (replaceItem s.swappingPages it') requests t id) :
    Serves s.swappingPages s.requests t id := by
  refine hs.mono ht (fun x hx => ?_) hreqs
  rcases ((h.queues.replace hm (by rw [hit])).2 x).mp hx with ⟨hx, -⟩ | rfl
  · exact ⟨x, hx, rfl, rfl, fun hd => hd, Or.inl rfl⟩
  · subst hit
    exact ⟨it, hm, rfl, rfl, fun hd => hd, Or.inl rfl⟩

/-- A write is acknowledged, and others of the same page are outstanding. -/
theorem ack (h : Inv φ s) {it it' : PageQueueItem} {pg : Page} {f : Nat}
    {swapFile : Int → UInt8} (hreq : s.requests = l₁ ++ r :: l₂) (hr : r.token = it.id)
    (hpg : φ pg = .resident f true (.writing it)) (hmore : it.toSwap - batchSize ≠ 0)
    (hit : it' = { it with toSwap := it.toSwap - batchSize }) :
    Inv (Function.update φ pg (.resident f true (.writing it')))
      { s with
        requests := l₁ ++ l₂
        swapFile := swapFile
        swappingPages := replaceItem s.swappingPages it' } := by
  have hne : φ pg ≠ .absent := by
    rw [hpg]
    exact nofun
  have hitem : (φ pg).item? = some it := by rw [hpg]; rfl
  have hm := h.queues.swapping_of_writing hpg
  obtain ⟨hfor, hdel, hoff⟩ := h.queues.page pg it hitem
  have hid : it'.id = it.id := by rw [hit]
  have hdel' : it'.processDeleted = false := by rw [hit]; exact hdel
  have hoff' : it'.swapOffset = it.swapOffset := by rw [hit]
  obtain ⟨hnd, hmem⟩ := h.queues.replace hm hid
  have hdoomed : ∀ x ∈ replaceItem s.swappingPages it', x.processDeleted = true →
      x ∈ s.swappingPages := by
    intro x hx hd
    rcases (hmem x).mp hx with ⟨hx, -⟩ | rfl
    · exact hx
    · rw [hdel'] at hd
      cases hd
  refine ⟨h.tables.congr hne (by rw [hpg]; rfl), h.frames.congr (frame_update (by rw [hpg]; rfl)),
    ?_, ?_, ?_⟩
  · refine h.slots.same (slot_update ?_) (fun x hx hd => ⟨x, hdoomed x hx hd, rfl, hd, rfl⟩)
    intro b hb
    rwa [PageState.slot?_writing, PageQueueItem.slot_eq_some, hoff',
      ← PageQueueItem.slot_eq_some, ← PageState.slot?_writing f true, ← hpg] at hb
  -- One request less is outstanding, and the item counts one batch less.
  · refine h.queues.update hnd ?_ ?_ ?_ ?_ ?_ ?_ nofun hdoomed ?_ ?_
    · exact fresh_replace h hm hid
    · intro x hx
      obtain rfl : it' = x := Option.some.inj hx
      refine ⟨?_, hdel', ?_⟩
      · rw [hit]
        exact hfor
      · rw [hoff']
        exact hoff
    · intro x
      rw [hitem]
      simp only [ne_eq, Option.some.injEq, PageState.resident.injEq, reduceCtorEq, and_false,
        exists_const, or_false]
      refine ⟨fun hx => ⟨hx, ?_⟩, fun hx => hx.1⟩
      rintro rfl
      exact h.queues.id_ne hx hm rfl
    · intro x _
      rw [hmem, hitem]
      simp only [ne_eq, Option.some.injEq, PageState.resident.injEq, Hold.writing.injEq,
        reduceCtorEq, and_false, or_false]
      constructor
      · rintro (⟨hx, hxn⟩ | rfl)
        · exact Or.inl ⟨hx, fun he => hxn he.symm⟩
        · exact Or.inr ⟨f, true, rfl, rfl, rfl⟩
      · rintro (⟨hx, hxn⟩ | ⟨_, _, -, -, rfl⟩)
        · exact Or.inl ⟨hx, fun he => hxn he.symm⟩
        · exact Or.inr rfl
    · intro x hx hxn
      exact pending_other h hreq hm hr hx fun he => hxn (by rw [hitem, he])
    · intro f' d x hx
      simp only [PageState.resident.injEq, Hold.writing.injEq] at hx
      obtain ⟨-, rfl, rfl⟩ := hx
      have hw := (h.queues.writing pg f true it hpg).2
      rw [hreq] at hw
      exact ⟨rfl, hit ▸ hw.more hr hmore⟩
    · exact slot_replace h hm hid hoff'
    · exact owner_replace h hreq hm hid
  · exact h.roles.sub fun t id ht =>
      serves_replace h hm hit (fun r' hr' => ⟨r', mem_requests hreq hr', rfl, rfl⟩) ht

/-- The same for an item whose page is gone. -/
theorem ackDoomed (h : Inv φ s) {it it' : PageQueueItem} {swapFile : Int → UInt8}
    (hreq : s.requests = l₁ ++ r :: l₂) (hr : r.token = it.id) (hm : it ∈ s.swappingPages)
    (hdel : it.processDeleted = true) (hwriting : Writing it s.requests)
    (hmore : it.toSwap - batchSize ≠ 0)
    (hit : it' = { it with toSwap := it.toSwap - batchSize }) :
    Inv φ
      { s with
        requests := l₁ ++ l₂
        swapFile := swapFile
        swappingPages := replaceItem s.swappingPages it' } := by
  have hid : it'.id = it.id := by rw [hit]
  have hdel' : it'.processDeleted = true := by rw [hit]; exact hdel
  have hoff' : it'.swapOffset = it.swapOffset := by rw [hit]
  obtain ⟨hnd, hmem⟩ := h.queues.replace hm hid
  -- No page belongs to the item: only the queues change.
  refine ⟨h.tables, h.frames, ?_, ?_, ?_⟩
  · refine h.slots.same (fun _ _ hb => hb) ?_
    intro x hx hd
    rcases (hmem x).mp hx with ⟨hx, -⟩ | rfl
    · exact ⟨x, hx, rfl, hd, rfl⟩
    · exact ⟨it, hm, hid.symm, hdel, hoff'.symm⟩
  · refine h.queues.doomed_update hnd ?_ ?_ ?_ ?_ ?_ ?_
    · exact fresh_replace h hm hid
    · intro x hd
      rw [hmem]
      constructor
      · rintro (⟨hx, -⟩ | rfl)
        · exact hx
        · rw [hdel'] at hd
          cases hd
      · intro hx
        refine Or.inl ⟨hx, ?_⟩
        rintro rfl
        rw [hdel] at hd
        cases hd
    · intro x hx hd
      refine pending_other h hreq hm hr hx ?_
      rintro rfl
      rw [hdel] at hd
      cases hd
    · intro x hx hd
      rcases (hmem x).mp hx with ⟨hx, hxn⟩ | rfl
      · have hp := pending_other h hreq hm hr hx hxn
        rcases h.queues.doomed x hx hd with hw | hrd
        · exact Or.inl (hw.congr hp)
        · exact Or.inr (hrd.congr hp)
      · rw [hreq] at hwriting
        exact Or.inl (hit ▸ hwriting.more hr hmore)
    · exact slot_replace h hm hid hoff'
    · exact owner_replace h hreq hm hid
  · exact h.roles.sub fun t id ht =>
      serves_replace h hm hit (fun r' hr' => ⟨r', mem_requests hreq hr', rfl, rfl⟩) ht

/-- The last write of a page is acknowledged, and the page is not mapped: its frame is
freed and the initiator woken up. -/
theorem evicted (h : Inv φ s) {it : PageQueueItem} {pg : Page} {f b : Nat}
    {swapFile : Int → UInt8} {frames : FrameTable} (hreq : s.requests = l₁ ++ r :: l₂)
    (hr : r.token = it.id) (hw : r.isWrite = true)
    (hpg : φ pg = .resident f true (.writing it)) (hlast : it.toSwap - batchSize = 0)
    (hoff : it.swapOffset = (b : Int)) (hfree : s.frames.frameFree f = some frames) :
    Inv (Function.update φ pg (.swapped b))
      (Mm.wake
        { s with
          requests := l₁ ++ l₂
          swapFile := swapFile
          frames := frames
          ptable := setEntry s.ptable pg (b + 1)
          swappingPages := removeItem s.swappingPages it.id } it.initiator) := by
  have hne : φ pg ≠ .absent := by
    rw [hpg]
    exact nofun
  have hitem : (φ pg).item? = some it := by rw [hpg]; rfl
  have hframe : (φ pg).frame? = some f := by rw [hpg]; rfl
  have hm := h.queues.swapping_of_writing hpg
  have hwriting := (h.queues.writing pg f true it hpg).2
  rw [hreq] at hwriting
  -- The last batch: no request of the item is left.
  have hnone := hwriting.last hr hlast
  obtain ⟨frames', hfree', hwf, -, -, hused⟩ :=
    h.frames.wf.frameFree_spec (h.frames.valid hframe)
  obtain rfl : frames' = frames := Option.some.inj (hfree'.symm.trans hfree)
  obtain ⟨hnd, hmem, -⟩ := h.queues.remove hm
  refine ⟨h.tables.setEntry (h.tables.live pg hne) (h.hasTable hne) rfl,
    h.frames.give hwf hused hframe rfl, slots_remove h (slot_update ?_), ?_, ?_⟩
  · intro c hc
    rw [hpg, PageState.slot?_writing, PageQueueItem.slot_eq_some, hoff]
    exact congrArg _ (Option.some.inj hc)
  · show QueuesOk _ s.activePages (removeItem s.swappingPages it.id) (l₁ ++ l₂) s.nextItem
    refine h.queues.update hnd ?_ nofun ?_ ?_ ?_ nofun nofun
      (fun x hx _ => ((hmem x).mp hx).1) (fun x hx => h.queues.slot x ((hmem x).mp hx).1)
      (owner_remove h hreq hnone)
    · intro x hx
      apply h.queues.fresh x
      rcases List.mem_append.mp hx with hx | hx
      · exact List.mem_append_left _ hx
      · exact List.mem_append_right _ ((hmem x).mp hx).1
    · intro x
      rw [hitem]
      simp only [ne_eq, Option.some.injEq, reduceCtorEq, exists_const, or_false]
      refine ⟨fun hx => ⟨hx, ?_⟩, fun hx => hx.1⟩
      rintro rfl
      exact h.queues.id_ne hx hm rfl
    · intro x _
      rw [hmem, hitem]
      simp only [ne_eq, Option.some.injEq, reduceCtorEq, or_self, exists_const, or_false]
      exact and_congr_right fun _ => not_congr eq_comm
    · intro x hx hxn
      exact pending_other h hreq hm hr hx fun he => hxn (by rw [hitem, he])
  · exact (h.roles.wake (fun _ => serves_initiator hreq hm hr hw)
      (fun t id ht hs => serves_remove hreq ht hs)).same (Process.same_setPte _ _ _)

/-- An item without requests goes from the pages being swapped to the active pages. -/
private theorem queues_toActive (h : Inv φ s) {it it' : PageQueueItem} {pg : Page} {f : Nat}
    {d d' : Bool} {hold : Hold} (hreq : s.requests = l₁ ++ r :: l₂) (hr : r.token = it.id)
    (hpg : φ pg = .resident f d hold) (hhold : hold = .writing it ∨ hold = .reading it)
    (hnone : ∀ r' ∈ l₁ ++ l₂, r'.token ≠ it.id) (hid : it'.id = it.id) (hfor' : it'.For pg)
    (hdel' : it'.processDeleted = false) (hoff' : it'.swapOffset = it.swapOffset) :
    QueuesOk (Function.update φ pg (.resident f d' (.active it'))) (s.activePages ++ [it'])
      (removeItem s.swappingPages it.id) (l₁ ++ l₂) s.nextItem := by
  -- The item is in the queue of those that are swapped, whichever way.
  have hitem : (φ pg).item? = some it := by
    rcases hhold with rfl | rfl
    · rw [hpg]; rfl
    · rw [hpg]; rfl
  have hm : it ∈ s.swappingPages := by
    rcases hhold with rfl | rfl
    · exact h.queues.swapping_of_writing hpg
    · exact h.queues.swapping_of_reading hpg
  obtain ⟨hnd, hmem, hnew⟩ := h.queues.remove hm
  -- The item moves from one queue to the other: the ids are the same.
  have hperm : ((s.activePages ++ [it']) ++ removeItem s.swappingPages it.id).Perm
      ((s.activePages ++ removeItem s.swappingPages it.id) ++ [it']) := by
    rw [List.append_assoc, List.append_assoc]
    exact List.perm_append_comm.append_left s.activePages
  refine h.queues.update ?_ ?_ ?_ ?_ ?_ ?_ nofun nofun (fun x hx _ => ((hmem x).mp hx).1)
    (fun x hx => h.queues.slot x ((hmem x).mp hx).1) (owner_remove h hreq hnone)
  · rw [(hperm.map _).nodup_iff]
    exact nodup_snoc hnd (hid ▸ hnew)
  · intro x hx
    rcases List.mem_append.mp (hperm.mem_iff.mp hx) with hx | hx
    · rcases List.mem_append.mp hx with hx | hx
      · exact h.queues.fresh x (List.mem_append_left _ hx)
      · exact h.queues.fresh x (List.mem_append_right _ ((hmem x).mp hx).1)
    · rw [List.mem_singleton.mp hx, hid]
      exact h.queues.fresh it (List.mem_append_right _ hm)
  · intro x hx
    obtain rfl : it' = x := Option.some.inj hx
    refine ⟨hfor', hdel', Or.inr ?_⟩
    rw [hoff']
    exact h.queues.slot it hm
  -- Active from now on: those of before, and the new item.
  · intro x
    rw [List.mem_append, List.mem_singleton, hitem]
    simp only [ne_eq, Option.some.injEq, PageState.resident.injEq, Hold.active.injEq]
    constructor
    · rintro (hx | rfl)
      · refine Or.inl ⟨hx, ?_⟩
        rintro rfl
        exact h.queues.id_ne hx hm rfl
      · exact Or.inr ⟨f, d', rfl, rfl, rfl⟩
    · rintro (⟨hx, -⟩ | ⟨_, _, -, -, rfl⟩)
      · exact Or.inl hx
      · exact Or.inr rfl
  -- Being swapped from now on: those of before but this item.
  · intro x _
    rw [hmem, hitem]
    simp only [ne_eq, Option.some.injEq, PageState.resident.injEq, reduceCtorEq, and_false,
      or_self, exists_const, or_false]
    exact and_congr_right fun _ => not_congr eq_comm
  · intro x hx hxn
    exact pending_other h hreq hm hr hx fun he => hxn (by rw [hitem, he])

/-- The last write of a page is acknowledged, but the page is mapped again: it goes back to
the active pages. -/
theorem restored (h : Inv φ s) {it it' : PageQueueItem} {pg : Page} {f : Nat}
    {swapFile : Int → UInt8} (hreq : s.requests = l₁ ++ r :: l₂) (hr : r.token = it.id)
    (hw : r.isWrite = true) (hpg : φ pg = .resident f true (.writing it))
    (hlast : it.toSwap - batchSize = 0)
    (hit : it' = { it with toSwap := it.toSwap - batchSize, initiator := nilthread }) :
    Inv (Function.update φ pg (.resident f true (.active it')))
      (Mm.wake
        { s with
          requests := l₁ ++ l₂
          swapFile := swapFile
          swappingPages := removeItem s.swappingPages it.id
          activePages := s.activePages ++ [it'] } it.initiator) := by
  have hne : φ pg ≠ .absent := by
    rw [hpg]
    exact nofun
  have hm := h.queues.swapping_of_writing hpg
  -- The requests that are left are not for this item, since it was its last.
  obtain ⟨hfor, hdel, -⟩ := h.queues.page pg it (by rw [hpg]; rfl)
  have hwriting := (h.queues.writing pg f true it hpg).2
  rw [hreq] at hwriting
  refine ⟨h.tables.congr hne (by rw [hpg]; rfl), h.frames.congr (frame_update (by rw [hpg]; rfl)),
    slots_remove h (slot_update ?_), ?_,
    h.roles.wake (fun _ => serves_initiator hreq hm hr hw)
      (fun t id ht hs => serves_remove hreq ht hs)⟩
  -- The slot of the page stays.
  · intro c hc
    rw [hpg, PageState.slot?_writing]
    rw [PageState.slot?_active, hit] at hc
    exact hc
  · refine queues_toActive h hreq hr hpg (Or.inl rfl) (hwriting.last hr hlast) ?_ ?_ ?_ ?_
    · rw [hit]
    · rw [hit]
      exact hfor
    · rw [hit]
      exact hdel
    · rw [hit]

/-- A batch of a page has been read, and the next one is requested. -/
theorem arrive (h : Inv φ s) {it it' : PageQueueItem} {pg : Page} {f : Nat}
    {phys : Nat → UInt8} (hreq : s.requests = l₁ ++ r :: l₂) (hr : r.token = it.id)
    (hpg : φ pg = .resident f false (.reading it)) (hmore : it.toSwap + batchSize ≠ pageSize)
    (hit : it' = { it with toSwap := it.toSwap + batchSize }) :
    Inv (Function.update φ pg (.resident f false (.reading it')))
      { s with
        requests := l₁ ++ l₂ ++ [.read it'.id (it'.swapOffset + it'.toSwap) batchSize]
        phys := phys
        swappingPages := replaceItem s.swappingPages it' } := by
  have hne : φ pg ≠ .absent := by
    rw [hpg]
    exact nofun
  have hitem : (φ pg).item? = some it := by rw [hpg]; rfl
  have hm := h.queues.swapping_of_reading hpg
  obtain ⟨hfor, hdel, hoff⟩ := h.queues.page pg it hitem
  have hid : it'.id = it.id := by rw [hit]
  have hdel' : it'.processDeleted = false := by rw [hit]; exact hdel
  have hoff' : it'.swapOffset = it.swapOffset := by rw [hit]
  have hreading := (h.queues.reading pg f false it hpg).2
  obtain ⟨i, hi, hlt⟩ := hreading.batch
  rw [hreq] at hreading
  -- An item has one read request at a time.
  obtain ⟨hread, hnone⟩ := hreading.only hr
  obtain ⟨hnd, hmem⟩ := h.queues.replace hm hid
  have hdoomed : ∀ x ∈ replaceItem s.swappingPages it', x.processDeleted = true →
      x ∈ s.swappingPages := by
    intro x hx hd
    rcases (hmem x).mp hx with ⟨hx, -⟩ | rfl
    · exact hx
    · rw [hdel'] at hd
      cases hd
  refine ⟨h.tables.congr hne (by rw [hpg]; rfl), h.frames.congr (frame_update (by rw [hpg]; rfl)),
    ?_, ?_, ?_⟩
  · refine h.slots.same (slot_update ?_) (fun x hx hd => ⟨x, hdoomed x hx hd, rfl, hd, rfl⟩)
    intro b hb
    rwa [PageState.slot?_reading, PageQueueItem.slot_eq_some, hoff',
      ← PageQueueItem.slot_eq_some, ← PageState.slot?_reading f false, ← hpg] at hb
  · refine h.queues.update hnd ?_ ?_ ?_ ?_ ?_ nofun ?_ hdoomed ?_ ?_
    · exact fresh_replace h hm hid
    · intro x hx
      obtain rfl : it' = x := Option.some.inj hx
      refine ⟨?_, hdel', ?_⟩
      · rw [hit]
        exact hfor
      · rw [hoff']
        exact hoff
    · intro x
      rw [hitem]
      simp only [ne_eq, Option.some.injEq, PageState.resident.injEq, reduceCtorEq, and_false,
        exists_const, or_false]
      refine ⟨fun hx => ⟨hx, ?_⟩, fun hx => hx.1⟩
      rintro rfl
      exact h.queues.id_ne hx hm rfl
    · intro x _
      rw [hmem, hitem]
      simp only [ne_eq, Option.some.injEq, PageState.resident.injEq, Hold.reading.injEq,
        reduceCtorEq, and_false, false_or]
      constructor
      · rintro (⟨hx, hxn⟩ | rfl)
        · exact Or.inl ⟨hx, fun he => hxn he.symm⟩
        · exact Or.inr ⟨f, false, rfl, rfl, rfl⟩
      · rintro (⟨hx, hxn⟩ | ⟨_, _, -, -, rfl⟩)
        · exact Or.inl ⟨hx, fun he => hxn he.symm⟩
        · exact Or.inr rfl
    · intro x hx hxn
      have hother : pending [SwapRequest.read it'.id (it'.swapOffset + it'.toSwap) batchSize] x.id
          = [] := by
        apply pending_of_forall_ne
        intro r' hr' he
        rw [List.mem_singleton.mp hr'] at he
        have hxi : x = it := h.queues.eq_of_id (List.mem_append_right _ hx)
          (List.mem_append_right _ hm) (he.symm.trans hid)
        exact hxn (by rw [hitem, hxi])
      rw [pending_append, hother, List.append_nil]
      exact pending_other h hreq hm hr hx fun he => hxn (by rw [hitem, he])
    · intro f' d x hx
      simp only [PageState.resident.injEq, Hold.reading.injEq] at hx
      obtain ⟨-, rfl, rfl⟩ := hx
      refine ⟨rfl, ?_, i + 1, ?_, ?_⟩
      · rw [pending_append, pending_of_forall_ne (hid ▸ hnone), List.nil_append]
        exact pending_cons_self rfl
      · rw [hit]
        simp only [batchSize] at hi ⊢
        omega
      · simp only [batchSize, pageSize] at hi hmore hlt ⊢
        omega
    · exact slot_replace h hm hid hoff'
    · intro r' hr'
      rcases List.mem_append.mp hr' with hr' | hr'
      · exact owner_replace h hreq hm hid r' hr'
      · rw [List.mem_singleton.mp hr']
        exact ⟨it', (hmem it').mpr (Or.inr rfl), rfl⟩
  · refine h.roles.sub fun t id ht => serves_replace h hm hit (fun r' hr' => ?_) ht
    rcases List.mem_append.mp hr' with hr' | hr'
    · exact ⟨r', mem_requests hreq hr', rfl, rfl⟩
    · rw [List.mem_singleton.mp hr']
      refine ⟨r, by rw [hreq]; simp, hr.trans hid.symm, ?_⟩
      rw [hread]
      rfl

/-- The last batch of a page has been read: the page is active, and its owner is woken
up. -/
theorem arrived (h : Inv φ s) {it it' : PageQueueItem} {pg : Page} {f : Nat}
    {phys : Nat → UInt8} (hreq : s.requests = l₁ ++ r :: l₂) (hr : r.token = it.id)
    (hpg : φ pg = .resident f false (.reading it))
    (hit : it' = { it with toSwap := it.toSwap + batchSize }) :
    Inv (Function.update φ pg (.resident f false (.active it')))
      (Mm.wake
        { s with
          requests := l₁ ++ l₂
          phys := phys
          swappingPages := removeItem s.swappingPages it.id
          activePages := s.activePages ++ [it'] } it.tid) := by
  have hne : φ pg ≠ .absent := by
    rw [hpg]
    exact nofun
  have hm := h.queues.swapping_of_reading hpg
  obtain ⟨hfor, hdel, -⟩ := h.queues.page pg it (by rw [hpg]; rfl)
  have hreading := (h.queues.reading pg f false it hpg).2
  rw [hreq] at hreading
  -- It was the only request of the item.
  obtain ⟨hread, hnone⟩ := hreading.only hr
  have hw : r.isWrite = false := by
    rw [hread]
    rfl
  refine ⟨h.tables.congr hne (by rw [hpg]; rfl), h.frames.congr (frame_update (by rw [hpg]; rfl)),
    slots_remove h (slot_update ?_), ?_,
    h.roles.wake (fun _ => serves_owner hreq hm hdel hr hw)
      (fun t id ht hs => serves_remove hreq ht hs)⟩
  · intro c hc
    rw [hpg, PageState.slot?_reading]
    rw [PageState.slot?_active, hit] at hc
    exact hc
  · refine queues_toActive h hreq hr hpg (Or.inr rfl) hnone ?_ ?_ ?_ ?_
    · rw [hit]
    · rw [hit]
      exact hfor
    · rw [hit]
      exact hdel
    · rw [hit]

/-- The item of a page that is gone is dropped with its last answer. `t` is the thread that
is woken up, if any. -/
theorem discard (h : Inv φ s) {it : PageQueueItem} {swapFile : Int → UInt8} {t : ThreadId}
    (hreq : s.requests = l₁ ++ r :: l₂) (hr : r.token = it.id) (hm : it ∈ s.swappingPages)
    (hdel : it.processDeleted = true) (hnone : ∀ r' ∈ l₁ ++ l₂, r'.token ≠ it.id)
    (ht : t ≠ nilthread → t = it.initiator ∧ r.isWrite = true) :
    Inv φ
      (Mm.wake
        { s with
          requests := l₁ ++ l₂
          swapFile := swapFile
          swappingPages := removeItem s.swappingPages it.id } t) := by
  obtain ⟨hnd, hmem, -⟩ := h.queues.remove hm
  -- The pages and their items are others than the dropped one.
  have hother : ∀ x, x.processDeleted = false → x ≠ it := by
    rintro x hd rfl
    rw [hdel] at hd
    cases hd
  refine ⟨h.tables, h.frames, slots_remove h (fun _ _ hb => hb), ?_,
    h.roles.wake ?_ (fun t id ht hs => serves_remove hreq ht hs)⟩
  · show QueuesOk _ s.activePages (removeItem s.swappingPages it.id) (l₁ ++ l₂) s.nextItem
    refine h.queues.doomed_update hnd ?_ ?_ ?_ ?_
      (fun x hx => h.queues.slot x ((hmem x).mp hx).1) (owner_remove h hreq hnone)
    · intro x hx
      apply h.queues.fresh x
      rcases List.mem_append.mp hx with hx | hx
      · exact List.mem_append_left _ hx
      · exact List.mem_append_right _ ((hmem x).mp hx).1
    · intro x hd
      rw [hmem]
      exact ⟨fun hx => hx.1, fun hx => ⟨hx, hother x hd⟩⟩
    · intro x hx hd
      exact pending_other h hreq hm hr hx (hother x hd)
    · intro x hx hd
      obtain ⟨hx, hxn⟩ := (hmem x).mp hx
      have hp := pending_other h hreq hm hr hx hxn
      rcases h.queues.doomed x hx hd with hw | hrd
      · exact Or.inl (hw.congr hp)
      · exact Or.inr (hrd.congr hp)
  · intro htn
    obtain ⟨rfl, hw⟩ := ht htn
    exact serves_initiator hreq hm hr hw

end Inv

end Sos
