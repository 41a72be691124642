import Sos.Mm.LinkedQueues
import Sos.Properties.Eviction

/-!
# `Sos.Properties.PageQueues`: the linked queues are the lists

`LinkedMm.Refines l s` says that the lists of `s` are the queues of `l`, as the links have them,
and that `l` and `s` agree otherwise. One lemma for each function of `Sos.Mm.LinkedQueues` says
that it does to `l` what the function of the same name does to the lists.

* `page_queues_linked`: after `swap_init`, any sequence of calls on the links gives what the same
  calls give on the lists.
-/

set_option autoImplicit false

namespace Sos

open Lib

variable {l : LinkedMm} {s s' : Mm} {page : PageQueueItem} {head : PagesHead} {fuel : Nat}
  {links : TailQueue.Links PagesHead Nat} {item : Nat → PageQueueItem}
  {queues : PagesHead → List PageQueueItem}

/-! ### Items in the queues -/

/-- The addresses of the items. -/
def ids (queues : PagesHead → List PageQueueItem) (head : PagesHead) : List Nat :=
  (queues head).map (·.id)

/-- The items of the queues are in memory, linked in their order. -/
structure Linked (links : TailQueue.Links PagesHead Nat) (item : Nat → PageQueueItem)
    (queues : PagesHead → List PageQueueItem) : Prop where
  links : TailQueue.Represents links (ids queues)
  item : ∀ head, ∀ it ∈ queues head, item it.id = it

/-- The ids of one queue change with its items. -/
theorem ids_update (queues : PagesHead → List PageQueueItem) (head : PagesHead)
    (pages : List PageQueueItem) :
    ids (Function.update queues head pages) =
      Function.update (ids queues) head (pages.map (·.id)) := by
  funext head'
  by_cases hhead : head' = head
  · rw [hhead, Function.update_self, ids, Function.update_self]
  · rw [Function.update_of_ne hhead, ids, Function.update_of_ne hhead, ids]

namespace Linked

/-- Two items with one address are one item, in one queue. -/
theorem eq_of_id (hl : Linked links item queues) {head head' : PagesHead} {it it' : PageQueueItem}
    (h : it ∈ queues head) (h' : it' ∈ queues head') (hid : it.id = it'.id) :
    head = head' ∧ it = it' := by
  refine ⟨hl.links.apart head head' it.id (List.mem_map_of_mem h) ?_, ?_⟩
  · rw [hid]
    exact List.mem_map_of_mem h'
  · rw [← hl.item head it h, ← hl.item head' it' h', hid]

/-- An item is at the address that is its id. -/
theorem item_id (hl : Linked links item queues) {id : Nat} (hid : id ∈ ids queues head) :
    (item id).id = id := by
  obtain ⟨it, hit, rfl⟩ := List.mem_map.mp hid
  rw [hl.item head it hit]

/-- The items at the addresses are the items. -/
theorem map_item (hl : Linked links item queues) (head : PagesHead) :
    (ids queues head).map item = queues head := by
  rw [ids, List.map_map]
  exact (List.map_congr_left (hl.item head)).trans (List.map_id _)

/-- One queue changes. -/
theorem update {links' : TailQueue.Links PagesHead Nat} {item' : Nat → PageQueueItem}
    {pages : List PageQueueItem} (hl : Linked links item queues)
    (hlinks : TailQueue.Represents links'
      (Function.update (ids queues) head (pages.map (·.id))))
    (hitem : ∀ it ∈ pages, item' it.id = it)
    (hother : ∀ head' ≠ head, ∀ it ∈ queues head', item' it.id = item it.id) :
    Linked links' item' (Function.update queues head pages) := by
  refine ⟨?_, fun head' it hit => ?_⟩
  · rw [ids_update]
    exact hlinks
  · by_cases hhead : head' = head
    · rw [hhead, Function.update_self] at hit
      exact hitem it hit
    · rw [Function.update_of_ne hhead] at hit
      exact (hother head' hhead it hit).trans (hl.item head' it hit)

/-- `TAILQ_INSERT_TAIL` of a new item appends to the list. -/
theorem insertTail (hl : Linked links item queues) (head : PagesHead) (page : PageQueueItem)
    (hfresh : ∀ head, ∀ it ∈ queues head, it.id ≠ page.id) :
    Linked (links.insertTail head page.id) (Function.update item page.id page)
      (Function.update queues head (queues head ++ [page])) := by
  refine hl.update ?_ (fun it hit => ?_) fun head' _ it hit =>
    Function.update_of_ne (hfresh head' it hit) _ _
  · rw [List.map_append]
    refine hl.links.insertTail fun head' hmem => ?_
    obtain ⟨it, hit, hid⟩ := List.mem_map.mp hmem
    exact hfresh head' it hit hid
  · rcases List.mem_append.mp hit with hit | hit
    · rw [Function.update_of_ne (hfresh head it hit)]
      exact hl.item head it hit
    · rw [List.mem_singleton.mp hit, Function.update_self]

/-- An item is removed. Its fields may have changed. -/
theorem remove (hl : Linked links item queues) {it : PageQueueItem} {id : Nat}
    {item' : Nat → PageQueueItem} (hmem : it ∈ queues head) (hid : it.id = id)
    (hitem : ∀ id' ≠ id, item' id' = item id') :
    Linked (links.remove head id) item'
      (Function.update queues head ((queues head).filter fun it => it.id ≠ id)) := by
  subst hid
  refine hl.update ?_ (fun it' hit' => ?_) fun head' hhead it' hit' => hitem _ ?_
  -- First the items, then the links of the shortened queue.
  rotate_left
  -- An item that stays has another id than the one removed.
  · obtain ⟨hit', hne⟩ := List.mem_filter.mp hit'
    exact (hitem _ (of_decide_eq_true hne)).trans (hl.item head it' hit')
  · exact fun heq => hhead (hl.eq_of_id hit' hmem heq).1
  -- The links are those of the list with the item cut out of its middle.
  obtain ⟨before, behind, hqueue⟩ := List.append_of_mem hmem
  have hnodup : ((before ++ it :: behind).map (·.id)).Nodup := hqueue ▸ hl.links.nodup head
  have hids : ids queues head = before.map (·.id) ++ it.id :: behind.map (·.id) := by
    rw [ids, hqueue, List.map_append, List.map_cons]
  have hremoved := hl.links.remove hids
  rw [List.map_append, List.map_cons] at hnodup
  obtain ⟨hnew, -⟩ := List.nodup_cons.mp (List.nodup_middle.mp hnodup)
  have hkeep : ∀ it' ∈ before ++ behind, decide (it'.id ≠ it.id) = true := by
    intro it' hit'
    refine decide_eq_true fun hid => hnew ?_
    rw [← List.map_append, ← hid]
    exact List.mem_map_of_mem hit'
  have hfilter : ((queues head).filter fun it' => it'.id ≠ it.id) = before ++ behind := by
    rw [hqueue, List.filter_append, List.filter_cons_of_neg (by simp),
      ← List.filter_append, List.filter_eq_self.mpr hkeep]
  rwa [hfilter, List.map_append]

/-- A removed item is in no queue. -/
theorem removed_id_ne (hl : Linked links item queues) {it : PageQueueItem} (hmem : it ∈ queues head)
    (head' : PagesHead) : ∀ it' ∈ Function.update queues head
      ((queues head).filter fun it' => it'.id ≠ it.id) head', it'.id ≠ it.id := by
  intro it' hit'
  by_cases hhead : head' = head
  · rw [hhead, Function.update_self] at hit'
    exact of_decide_eq_true (List.mem_filter.mp hit').2
  · rw [Function.update_of_ne hhead] at hit'
    exact fun heq => hhead (hl.eq_of_id hit' hmem heq).1

/-- The fields of an item change that is in no queue. -/
theorem store_free (hl : Linked links item queues) (page : PageQueueItem)
    (hfresh : ∀ head, ∀ it ∈ queues head, it.id ≠ page.id) :
    Linked links (Function.update item page.id page) queues :=
  ⟨hl.links, fun head it hit =>
    (Function.update_of_ne (hfresh head it hit) _ _).trans (hl.item head it hit)⟩

/-- The fields of an item of a queue change. -/
theorem store (hl : Linked links item queues) (page : PageQueueItem) {it : PageQueueItem}
    (hmem : it ∈ queues head) (hid : it.id = page.id) :
    Linked links (Function.update item page.id page)
      (Function.update queues head
        ((queues head).map fun it => if it.id = page.id then page else it)) ∧
      page ∈ Function.update queues head
        ((queues head).map fun it => if it.id = page.id then page else it) head := by
  refine ⟨?_, ?_⟩
  -- The ids of the queue stay, so only the item behind one id changes.
  rotate_left
  · rw [Function.update_self]
    exact List.mem_map.mpr ⟨it, hmem, if_pos hid⟩
  refine hl.update ?_ (fun it' hit' => ?_) fun head' hhead it' hit' =>
    Function.update_of_ne (fun heq => hhead ?_) _ _
  · have hids : ((queues head).map fun it => if it.id = page.id then page else it).map (·.id) =
        ids queues head := by
      rw [List.map_map, ids]
      refine List.map_congr_left fun it _ => ?_
      show (if it.id = page.id then page else it).id = it.id
      split
      · exact ‹it.id = page.id›.symm
      · rfl
    rw [hids, Function.update_eq_self]
    exact hl.links
  · obtain ⟨it, hit, rfl⟩ := List.mem_map.mp hit'
    split
    · exact Function.update_self _ _ _
    · rw [Function.update_of_ne ‹_›]
      exact hl.item head it hit
  · exact (hl.eq_of_id hit' hmem (heq.trans hid.symm)).1

end Linked

/-! ### States -/

/-- The lists of the state are the queues, and the rest is the same. -/
def LinkedMm.Refines (l : LinkedMm) (s : Mm) : Prop :=
  ∃ queues, s = l.mm.withQueues queues ∧ Linked l.links l.item queues

namespace Mm

/-- `frame_free` looks at no queue. -/
theorem withQueues_frameFree (s : Mm) (queues : PagesHead → List PageQueueItem) (frame : Nat) :
    (s.withQueues queues).frameFree frame = (s.frameFree frame).map (·.withQueues queues) := by
  show (s.frames.frameFree frame).bind _ = ((s.frames.frameFree frame).bind _).map _
  cases s.frames.frameFree frame <;> rfl

/-- Marking an entry as swapped looks at no queue. -/
theorem withQueues_markSwapped (s : Mm) (queues : PagesHead → List PageQueueItem)
    (tid : ThreadId) (addr : Nat) (swapLocation : Int) :
    (s.withQueues queues).markSwapped tid addr swapLocation =
      (s.markSwapped tid addr swapLocation).map (·.withQueues queues) := by
  show (s.pagerTableLookup tid addr).bind _ = ((s.pagerTableLookup tid addr).bind _).map _
  cases s.pagerTableLookup tid addr with
  | none => rfl
  | some pte =>
      show (if swapLocation % pageSize ≠ 0 then none else some _) =
        (if swapLocation % pageSize ≠ 0 then none else some _ : Option Mm).map _
      split <;> rfl

/-- Freeing a slot looks at no queue. -/
theorem withQueues_swapFree (s : Mm) (queues : PagesHead → List PageQueueItem) (offset : Int) :
    (s.withQueues queues).swapFree offset = (s.swapFree offset).map (·.withQueues queues) := by
  by_cases hbad : offset % pageSize ≠ 0 ∨ offset < 0
  · have hnone : s.swapFree offset = none := if_pos hbad
    rw [hnone]
    exact if_pos hbad
  by_cases hused : offset.toNat / pageSize ≤ maxSwapEntries ∧
      bitfieldGet s.swapBitfield (offset.toNat / pageSize) = true
  · have hfreed : s.swapFree offset = some _ := (if_neg hbad).trans (if_pos hused)
    rw [hfreed]
    exact (if_neg hbad).trans (if_pos hused)
  · have hnone : s.swapFree offset = none := (if_neg hbad).trans (if_neg hused)
    rw [hnone]
    exact (if_neg hbad).trans (if_neg hused)

/-- Neither does taking one. -/
theorem withQueues_allocateSwapEntry (s : Mm) (queues : PagesHead → List PageQueueItem) :
    (s.withQueues queues).allocateSwapEntry =
      (s.allocateSwapEntry.1.withQueues queues, s.allocateSwapEntry.2) := by
  unfold allocateSwapEntry
  rw [show (s.withQueues queues).swapBitfield = s.swapBitfield from rfl]
  generalize (List.range maxSwapEntries).find? (fun i => !bitfieldGet s.swapBitfield i) = found
  cases found <;> rfl

end Mm

/-- A linked state refines the state with the lists of its links. -/
theorem LinkedMm.Refines.intro (mm : Mm) (hl : Linked links item queues) :
    LinkedMm.Refines ⟨mm, item, links⟩ (mm.withQueues queues) := ⟨queues, rfl, hl⟩

/-! ### One call -/

/-- A new item is at an address that no item is at. -/
theorem QueueCall.Fresh.id_ne (h : QueueCall.Fresh (s.withQueues queues) page) :
    ∀ head, ∀ it ∈ queues head, it.id ≠ page.id := by
  intro head it hit
  cases head with
  | active => exact h it (List.mem_append_left _ hit)
  | swapping => exact h it (List.mem_append_right _ hit)

namespace LinkedMm

/-- `second_chance_select` takes the same page. That page is in no queue then. -/
theorem secondChanceSelect_refines {selected : Option PageQueueItem} (hl : l.Refines s)
    (h : s.secondChanceSelect = some (s', selected)) (hfuel : s.activePages.length < fuel) :
    ∃ l', l.secondChanceSelect fuel = some (l', selected) ∧ l'.Refines s' ∧
      ∀ page, selected = some page → QueueCall.Fresh s' page ∧ l'.item page.id = page := by
  obtain ⟨queues, rfl, hq⟩ := hl
  unfold Mm.secondChanceSelect at h
  obtain ⟨⟨page, s₁, rest⟩, hsel, h⟩ := Option.bind_eq_some_iff.mp h
  cases h
  -- The search on the addresses.
  have hmap : SecondChance.select Mm.isReferenced Mm.dereference _ _ _ = _ :=
    SecondChance.select_map (fun (s : Mm) page => s.isReferenced (l.item page))
      (fun s page => s.dereference (l.item page)) (·.withQueues queues) l.item
      (fun _ _ => rfl) (fun _ _ => rfl) ((queues .active).length + 1) l.mm (ids queues .active)
  rw [hq.map_item] at hmap
  obtain ⟨⟨id, mm, restIds⟩, hids, heq⟩ := Option.map_eq_some_iff.mp (hmap.symm.trans hsel)
  cases heq
  have hspec := (SecondChance.select_spec _ _ (P := fun _ => True) _ _ _ _ _ _
    (fun _ _ _ _ => trivial) trivial hids).2
  have hrel := hq.links.secondChance (q := .active) (fun (s : Mm) page =>
    s.isReferenced (l.item page)) (fun s page => s.dereference (l.item page)) (n := fuel)
    (s := l.mm)
  rw [SecondChance.select_mono _ _ hfuel hids] at hrel
  unfold secondChanceSelect
  generalize l.links.secondChance _ _ _ _ _ = found at hrel ⊢
  cases hrel with
  | @some found _ hrel =>
      obtain ⟨id', mm', links'⟩ := found
      obtain ⟨rfl, rfl, hlinks⟩ := hrel
      have hsub : ∀ a ∈ restIds, a ∈ ids queues .active := by
        cases id' with
        | none =>
            rw [hspec.1] at hids
            cases hids
            exact fun a ha => by cases ha
        | some a => exact fun b hb => hspec.1.mem_iff.mp (List.mem_cons_of_mem a hb)
      have hrest : (restIds.map l.item).map (·.id) = restIds := by
        rw [List.map_map]
        exact (List.map_congr_left fun a ha => hq.item_id (hsub a ha)).trans (List.map_id _)
      have hitem : ∀ it ∈ restIds.map l.item, l.item it.id = it := by
        intro it hit
        obtain ⟨a, ha, rfl⟩ := List.mem_map.mp hit
        rw [hq.item_id (hsub a ha)]
      have hlinked := hq.update (by rw [hrest]; exact hlinks) hitem fun _ _ _ _ => rfl
      refine ⟨{ l with mm := mm', links := links' }, rfl, ⟨_, rfl, hlinked⟩, ?_⟩
      intro page hpage
      obtain ⟨a, rfl, rfl⟩ := Option.map_eq_some_iff.mp hpage
      have ha : a ∈ ids queues .active := hspec.1.mem_iff.mp List.mem_cons_self
      refine ⟨fun it hit => ?_, congrArg l.item (hq.item_id ha)⟩
      rw [hq.item_id ha]
      rcases List.mem_append.mp hit with hit | hit
      · obtain ⟨b, hb, rfl⟩ := List.mem_map.mp hit
        rw [hq.item_id (hsub b hb)]
        rintro rfl
        exact (List.nodup_cons.mp (hspec.1.nodup_iff.mpr (hq.links.nodup .active))).1 hb
      · rintro rfl
        cases hq.links.apart .active .swapping it.id ha (List.mem_map_of_mem hit)

/-- The part of `swap_out` for a page that is in no queue. -/
theorem writeBack_refines {initiator : ThreadId} {result : SwapOutResult} (hl : l.Refines s)
    (hfresh : QueueCall.Fresh s page) (h : s.writeBack initiator page = some (s', result)) :
    ∃ l', l.writeBack initiator page = some (l', result) ∧ l'.Refines s' := by
  obtain ⟨queues, rfl, hq⟩ := hl
  unfold Mm.writeBack at h
  unfold writeBack
  obtain ⟨dirty, hdirty, h⟩ := Option.bind_eq_some_iff.mp h
  rw [show l.mm.isDirty page = some dirty from hdirty]
  -- A dirty page is written to the swap file: it joins the swapping pages.
  cases dirty with
  | true =>
      obtain ⟨frame, hframe, h⟩ := Option.bind_eq_some_iff.mp h
      have hlookup : l.mm.pagerPhysicalLookup page.tid page.virtualAddress = some frame := hframe
      have hlinked := hq.insertTail .swapping
        { page with toSwap := pageSize, initiator := initiator } hfresh.id_ne
      split at h
      · cases h
      · rename_i hzero
        cases h
        refine ⟨_, ?_, .intro { l.mm with
          requests := l.mm.requests ++ Mm.writeRequests
            { page with toSwap := pageSize, initiator := initiator }
            fun k => l.mm.phys (frame + k) } hlinked⟩
        show (l.mm.pagerPhysicalLookup page.tid page.virtualAddress).bind _ = _
        rw [hlookup]
        exact if_neg hzero
  -- A clean page gives its frame back at once; no queue is touched.
  | false =>
      rw [if_neg Bool.false_ne_true] at h
      split at h
      · cases h
      · rename_i hslot
        obtain ⟨pte, hpte, h⟩ := Option.bind_eq_some_iff.mp h
        obtain ⟨s₁, hfree, h⟩ := Option.bind_eq_some_iff.mp h
        obtain ⟨s₂, hmark, h⟩ := Option.bind_eq_some_iff.mp h
        rw [Mm.withQueues_frameFree] at hfree
        obtain ⟨mm₁, hmm₁, rfl⟩ := Option.map_eq_some_iff.mp hfree
        rw [Mm.withQueues_markSwapped] at hmark
        obtain ⟨mm₂, hmm₂, rfl⟩ := Option.map_eq_some_iff.mp hmark
        cases h
        refine ⟨{ l with mm := mm₂ }, ?_, ⟨queues, rfl, hq⟩⟩
        simp only [Option.bind_eq_bind, Option.bind_some, Bool.false_eq_true, if_false,
          if_neg hslot]
        exact Option.bind_eq_some_iff.mpr ⟨pte, hpte, Option.bind_eq_some_iff.mpr
          ⟨mm₁, hmm₁, Option.bind_eq_some_iff.mpr ⟨mm₂, hmm₂, rfl⟩⟩⟩

/-- `swap_out`. -/
theorem swapOut_refines {initiator : ThreadId} {result : SwapOutResult} (hl : l.Refines s)
    (h : s.swapOut initiator = some (s', result)) (hfuel : s.activePages.length < fuel) :
    ∃ l', l.swapOut fuel initiator = some (l', result) ∧ l'.Refines s' := by
  unfold Mm.swapOut at h
  obtain ⟨⟨s₁, selected⟩, hsel, h⟩ := Option.bind_eq_some_iff.mp h
  obtain ⟨l₁, hsel₁, hl₁, hselected⟩ := secondChanceSelect_refines hl hsel hfuel
  -- The selection moves pages to the tail, which keeps the refinement.
  cases selected with
  | none =>
      cases h
      exact ⟨l₁, Option.bind_eq_some_iff.mpr ⟨_, hsel₁, rfl⟩, hl₁⟩
  | some page =>
      obtain ⟨hfresh, hitem⟩ := hselected page rfl
      obtain ⟨queues, rfl, hq⟩ := hl₁
      simp only at h
      split at h
      · cases h
      · rename_i href
        have href : ¬ l₁.mm.isReferenced page = true := href
        -- A page without a slot gets one first, unless the swap space is used up.
        split at h
        · rename_i hslot
          rw [Mm.withQueues_allocateSwapEntry] at h
          generalize hentry : l₁.mm.allocateSwapEntry = entry at h
          have hstored := hq.store_free { page with swapOffset := entry.2 } hfresh.id_ne
          have hl₂ := LinkedMm.Refines.intro entry.1 hstored
          have hfresh : QueueCall.Fresh (entry.1.withQueues queues)
              { page with swapOffset := entry.2 } := hfresh
          simp only at h
          split at h
          · rename_i hfull
            cases h
            refine ⟨_, Option.bind_eq_some_iff.mpr ⟨_, hsel₁, ?_⟩, hl₂⟩
            simp only [if_neg href, if_pos hslot, hentry, if_pos hfull]
            rfl
          · rename_i hfree
            obtain ⟨l', hback, hl'⟩ := writeBack_refines hl₂ hfresh h
            refine ⟨l', Option.bind_eq_some_iff.mpr ⟨_, hsel₁, ?_⟩, hl'⟩
            simp only [if_neg href, if_pos hslot, hentry, if_neg hfree]
            exact hback
        · rename_i hslot
          obtain ⟨l', hback, hl'⟩ := writeBack_refines ⟨queues, rfl, hq⟩ hfresh h
          refine ⟨l', Option.bind_eq_some_iff.mpr ⟨_, hsel₁, ?_⟩, hl'⟩
          simp only [if_neg href, if_neg hslot]
          exact hback

/-- `swap_in` with a new item. -/
theorem swapIn_refines (hl : l.Refines s) (hfresh : QueueCall.Fresh s page) :
    (l.swapIn page).Refines (s.swapIn page) := by
  obtain ⟨queues, rfl, hq⟩ := hl
  exact .intro { l.mm with
    requests := l.mm.requests ++ [.read page.id (page.swapOffset + 0) batchSize] }
    (hq.insertTail .swapping { page with toSwap := 0 } hfresh.id_ne)

/-- The item of a token. -/
theorem item_token {token : Nat} (hq : Linked l.links l.item queues)
    (hfind : (l.mm.withQueues queues).findItem token = some page) :
    page ∈ queues .swapping ∧ page.id = token ∧ l.item token = page := by
  have hmem : page ∈ queues .swapping := List.mem_of_find?_eq_some hfind
  have hid : page.id = token := by simpa using List.find?_some hfind
  exact ⟨hmem, hid, hid ▸ hq.item .swapping page hmem⟩

/-- `swap_write_callback`. -/
theorem swapWriteCallback_refines {token : Nat} {status : NfsStatus} (hl : l.Refines s)
    (hfind : s.findItem token = some page) (h : s.swapWriteCallback page status = some s') :
    ∃ l', l.swapWriteCallback token status = some l' ∧ l'.Refines s' := by
  obtain ⟨queues, rfl, hq⟩ := hl
  obtain ⟨hmem, hid, hitem⟩ := item_token hq hfind
  cases status with
  | noSpace => cases h
  | error => cases h
  | ok =>
      unfold Mm.swapWriteCallback at h
      generalize hpage' : ({ page with toSwap := page.toSwap - batchSize } : PageQueueItem) = page' at h
      dsimp only at h
      obtain ⟨hq₁, hmem₁⟩ := hq.store page' hmem (hpage' ▸ rfl)
      have hstore : l.swapWriteCallback token .ok = (l.store page').batchWritten page' := by
        unfold swapWriteCallback
        rw [hitem, ← hpage']
      rw [hstore]
      generalize hqueues₁ : Function.update queues .swapping ((queues .swapping).map
        fun it => if it.id = page'.id then page' else it) = queues₁ at hq₁ hmem₁
      have hs₁ : (l.mm.withQueues queues).updateSwapping page' = l.mm.withQueues queues₁ :=
        hqueues₁ ▸ rfl
      rw [hs₁] at h
      unfold batchWritten
      have hremoved := hq₁.remove hmem₁ rfl fun _ _ => rfl
      have hgone := hq₁.removed_id_ne hmem₁
      -- After the last batch the page leaves the swapping pages.
      by_cases hmore : page'.toSwap ≠ 0
      · rw [if_pos hmore] at h ⊢
        cases h
        exact ⟨_, rfl, .intro l.mm hq₁⟩
      rw [if_neg hmore] at h ⊢
      have href : (l.mm.withQueues queues₁).isReferenced page' =
        (l.store page').mm.isReferenced page' := rfl
      rw [href] at h
      -- A page used meanwhile goes back to the active pages; else its frame is freed.
      cases hreferenced : (l.store page').mm.isReferenced page' with
      | false =>
          rw [hreferenced] at h
          simp only [Bool.not_false, if_true] at h ⊢
          -- The item of a deleted process is only freed.
          cases hdeleted : page'.processDeleted with
          | true =>
              simp only [hdeleted, Bool.not_true, Bool.false_eq_true, if_false] at h ⊢
              cases h
              exact ⟨_, rfl, .intro l.mm hremoved⟩
          | false =>
              simp only [hdeleted, Bool.not_false, if_true] at h ⊢
              obtain ⟨pte, hpte, h⟩ := Option.bind_eq_some_iff.mp h
              obtain ⟨s₁, hfree, h⟩ := Option.bind_eq_some_iff.mp h
              obtain ⟨s₂, hmark, h⟩ := Option.bind_eq_some_iff.mp h
              obtain ⟨mm₁, hmm₁, rfl⟩ := Option.map_eq_some_iff.mp
                ((l.mm.withQueues_frameFree _ _).symm.trans hfree)
              obtain ⟨mm₂, hmm₂, rfl⟩ := Option.map_eq_some_iff.mp
                ((mm₁.withQueues_markSwapped _ _ _ _).symm.trans hmark)
              -- The initiator of the swap is answered when it still waits.
              by_cases hinitiator : page'.initiator ≠ nilthread
              · rw [if_pos hinitiator] at h
                cases h
                refine ⟨_, Option.bind_eq_some_iff.mpr ⟨pte, hpte, Option.bind_eq_some_iff.mpr
                  ⟨mm₁, hmm₁, Option.bind_eq_some_iff.mpr ⟨mm₂, hmm₂, ?_⟩⟩⟩,
                  .intro (mm₂.sendIpcReply page'.initiator pagefaultLabel []) hremoved⟩
                rw [if_pos hinitiator]
                rfl
              · rw [if_neg hinitiator] at h
                cases h
                refine ⟨_, Option.bind_eq_some_iff.mpr ⟨pte, hpte, Option.bind_eq_some_iff.mpr
                  ⟨mm₁, hmm₁, Option.bind_eq_some_iff.mpr ⟨mm₂, hmm₂, ?_⟩⟩⟩, .intro mm₂ hremoved⟩
                rw [if_neg hinitiator]
                rfl
      | true =>
          rw [hreferenced] at h
          simp only [Bool.not_true, Bool.false_eq_true, if_false] at h ⊢
          have hinserted := hremoved.insertTail .active { page' with initiator := nilthread } hgone
          -- Again, the item of a deleted process is only freed.
          cases hdeleted : page'.processDeleted with
          | true =>
              simp only [hdeleted, Bool.not_true, Bool.false_eq_true, if_false] at h ⊢
              refine ⟨_, rfl, ?_⟩
              split at h
              · rename_i hinitiator
                cases h
                rw [if_pos hinitiator]
                exact .intro (l.mm.sendIpcReply page'.initiator pagefaultLabel []) hremoved
              · rename_i hinitiator
                cases h
                rw [if_neg hinitiator]
                exact .intro l.mm hremoved
          | false =>
              simp only [hdeleted, Bool.not_false, if_true] at h ⊢
              rw [hdeleted] at hinserted
              refine ⟨_, rfl, ?_⟩
              by_cases hinitiator : page'.initiator ≠ nilthread
              · simp only [if_pos hinitiator] at h ⊢
                cases h
                exact .intro (l.mm.sendIpcReply page'.initiator pagefaultLabel []) hinserted
              · simp only [if_neg hinitiator] at h ⊢
                cases h
                exact .intro l.mm hinserted

/-- `swap_read_callback`. -/
theorem swapReadCallback_refines {token : Nat} {status : NfsStatus} {bytesRead : Nat}
    {data : Nat → UInt8} (hl : l.Refines s) (hfind : s.findItem token = some page)
    (h : s.swapReadCallback page status bytesRead data = some s') :
    ∃ l', l.swapReadCallback token status bytesRead data = some l' ∧ l'.Refines s' := by
  obtain ⟨queues, rfl, hq⟩ := hl
  obtain ⟨hmem, hid, hitem⟩ := item_token hq hfind
  unfold swapReadCallback
  rw [hitem]
  unfold Mm.swapReadCallback at h
  by_cases hdeleted : page.processDeleted = true
  · rw [if_pos hdeleted] at h
    cases h
    refine ⟨_, if_pos hdeleted, .intro l.mm (hq.remove hmem rfl fun _ _ => rfl)⟩
  rw [if_neg hdeleted] at h
  simp only [if_neg hdeleted]
  cases status with
  | noSpace => cases h
  | error => cases h
  | ok =>
      by_cases hbatch : bytesRead ≠ batchSize
      · rw [if_pos hbatch] at h
        cases h
      · simp only [if_neg hbatch] at h ⊢
        obtain ⟨pte, hpte, h⟩ := Option.bind_eq_some_iff.mp h
        have hpte : l.mm.pagerTableLookup page.tid page.virtualAddress = some pte := hpte
        rw [hpte]
        simp only [Option.bind_eq_bind, Option.bind_some]
        by_cases hdone : page.toSwap + (bytesRead : Int) = pageSize
        · simp only [if_pos hdone] at h ⊢
          cases h
          -- The item leaves one queue with its new fields, and enters the other.
          have hremoved := hq.remove hmem rfl fun id hne => Function.update_of_ne hne
            { page with toSwap := page.toSwap + bytesRead } l.item
          have hinserted := hremoved.insertTail .active
            { page with toSwap := page.toSwap + bytesRead } (hq.removed_id_ne hmem)
          exact ⟨_, rfl, .intro (Mm.sendIpcReply { l.mm with
            phys := memcpy l.mm.phys (pte + page.toSwap).toNat data bytesRead }
            page.tid pagefaultLabel []) hinserted⟩
        · simp only [if_neg hdone] at h ⊢
          cases h
          obtain ⟨hstored, -⟩ := hq.store { page with toSwap := page.toSwap + bytesRead } hmem rfl
          exact ⟨_, rfl, .intro { l.mm with
            phys := memcpy l.mm.phys (pte + page.toSwap).toNat data bytesRead
            requests := l.mm.requests ++ [.read page.id
              (page.swapOffset + (page.toSwap + bytesRead)) batchSize] } hstored⟩

/-- A loop whose turns neither read nor change the queues. -/
theorem foldlM_withQueues {α : Type} {f g : Mm → α → Option Mm}
    (hf : ∀ s a, f (s.withQueues queues) a = (g s a).map (·.withQueues queues)) (as : List α) :
    ∀ s : Mm, as.foldlM f (s.withQueues queues) = (as.foldlM g s).map (·.withQueues queues) := by
  induction as with
  | nil => exact fun _ => rfl
  | cons a as ih =>
      intro s
      rw [List.foldlM_cons, List.foldlM_cons, hf]
      cases g s a with
      | none => rfl
      | some s₁ => exact ih s₁

/-- The loops of `pager_free_all` and `pager_free_range` over the active pages. -/
theorem freeActivePages_refines {chosen : PageQueueItem → Bool} (hl : l.Refines s)
    (h : s.freeActivePages chosen = some s') (hfuel : s.activePages.length ≤ fuel) :
    ∃ l', l.freeActivePages fuel chosen = some l' ∧ l'.Refines s' := by
  obtain ⟨queues, rfl, hq⟩ := hl
  unfold Mm.freeActivePages at h
  obtain ⟨s₁, hfold, h⟩ := Option.bind_eq_some_iff.mp h
  cases h
  obtain ⟨links', hlinks, hloop⟩ := hq.links.removeLoop (q := .active)
    (fun page => chosen (l.item page)) (fun (s : Mm) page =>
      if (l.item page).swapOffset ≠ -1 then s.swapFree (l.item page).swapOffset else some s)
    (n := fuel) (by rw [ids, List.length_map]; exact hfuel)
  -- The loop on the addresses frees the same slots.
  have hchosen : (queues .active).filter chosen =
      ((ids queues .active).filter fun page => chosen (l.item page)).map l.item := by
    rw [← hq.map_item .active, List.filter_map]
    rfl
  have hfold : ((queues .active).filter chosen).foldlM (fun s page =>
      if page.swapOffset ≠ -1 then s.swapFree page.swapOffset else some s)
      (l.mm.withQueues queues) = some s₁ := hfold
  rw [hchosen, List.foldlM_map, foldlM_withQueues (g := fun (s : Mm) page =>
    if (l.item page).swapOffset ≠ -1 then s.swapFree (l.item page).swapOffset else some s)] at hfold
  rotate_left
  · intro s page
    split
    · exact s.withQueues_swapFree queues _
    · rfl
  obtain ⟨mm, hmm, rfl⟩ := Option.map_eq_some_iff.mp hfold
  unfold freeActivePages
  rw [hloop, hmm]
  have hids : ((queues .active).filter fun page => !chosen page).map (·.id) =
      (ids queues .active).filter fun page => !chosen (l.item page) := by
    rw [ids, List.filter_map]
    refine congrArg _ (List.filter_congr fun it hit => ?_)
    rw [Function.comp_apply, hq.item .active it hit]
  have hlinked := hq.update (by rw [hids]; exact hlinks)
    (fun it hit => hq.item .active it (List.mem_of_mem_filter hit)) fun _ _ _ _ => rfl
  exact ⟨_, rfl, .intro mm hlinked⟩

/-- A loop that changes each item of a list. -/
theorem foldl_update (g : PageQueueItem → PageQueueItem) (as : List Nat) :
    ∀ item : Nat → PageQueueItem, as.Nodup → ∀ id,
      as.foldl (fun item page => Function.update item page (g (item page))) item id =
        if id ∈ as then g (item id) else item id := by
  induction as with
  | nil =>
      intro item _ id
      simp
  | cons a as ih =>
      intro item hnodup id
      obtain ⟨ha, hnodup⟩ := List.nodup_cons.mp hnodup
      rw [List.foldl_cons, ih _ hnodup]
      by_cases hid : id = a
      · subst hid
        rw [if_neg ha, if_pos List.mem_cons_self, Function.update_self]
      · rw [Function.update_of_ne hid]
        simp [hid]

/-- The loops of `pager_free_all` and `pager_free_range` over the pages being swapped. -/
theorem cancelSwapping_refines {tid : ThreadId} {inRange : Nat → Bool} (hl : l.Refines s)
    (hfuel : s.swappingPages.length ≤ fuel) :
    ∃ l', l.cancelSwapping fuel tid inRange = some l' ∧
      l'.Refines (s.cancelSwapping tid inRange) := by
  obtain ⟨queues, rfl, hq⟩ := hl
  unfold cancelSwapping
  rw [hq.links.each .swapping _ (by rw [ids, List.length_map]; exact hfuel)]
  -- The loop visits each item once and changes it in place, the links stay.
  refine ⟨_, rfl, ?_⟩
  have hcancelled : Linked l.links ((ids queues .swapping).foldl (fun item page =>
      Function.update item page (Mm.cancelItem tid inRange (item page))) l.item)
      (Function.update queues .swapping
        ((queues .swapping).map (Mm.cancelItem tid inRange))) := by
    refine hq.update ?_ (fun it' hit' => ?_) fun head' hhead it hit => ?_
    · have hids : ((queues .swapping).map (Mm.cancelItem tid inRange)).map (·.id) =
          ids queues .swapping := by
        rw [List.map_map, ids]
        exact List.map_congr_left fun it _ => Mm.cancelItem_id it
      rw [hids, Function.update_eq_self]
      exact hq.links
    · obtain ⟨it, hit, rfl⟩ := List.mem_map.mp hit'
      rw [Mm.cancelItem_id, foldl_update _ _ _ (hq.links.nodup .swapping),
        if_pos (show it.id ∈ ids queues .swapping from List.mem_map_of_mem hit),
        hq.item .swapping it hit]
    · rw [foldl_update _ _ _ (hq.links.nodup .swapping), if_neg]
      intro hmem
      exact hhead (hq.links.apart head' .swapping it.id (List.mem_map_of_mem hit) hmem)
  exact .intro l.mm hcancelled

/-- The lists, read along the links. -/
theorem Refines.queue (hl : l.Refines s) (hactive : s.activePages.length ≤ fuel)
    (hswapping : s.swappingPages.length ≤ fuel) : s = l.mm.withQueues (l.queue fuel) := by
  obtain ⟨queues, rfl, hq⟩ := hl
  refine congrArg _ (funext fun head => ?_)
  unfold LinkedMm.queue
  rw [hq.links.walk head, hq.map_item]
  rw [ids, List.length_map]
  cases head with
  | active => exact hactive
  | swapping => exact hswapping

/-- The queues are empty. -/
theorem eq_withQueues_nil (hactive : s.activePages = []) (hswapping : s.swappingPages = []) :
    s = s.withQueues fun _ => [] := by
  unfold Mm.withQueues
  rw [← hactive]
  nth_rewrite 2 [hactive]
  rw [← hswapping]

/-- `swap_init`. -/
theorem swapInit_refines (l : LinkedMm) : l.swapInit.Refines l.mm.swapInit := by
  refine ⟨fun _ => [], eq_withQueues_nil rfl rfl, ?_, fun head it hit => by cases hit⟩
  refine TailQueue.Represents.empty _ (fun head => ?_) fun head => ?_
  · cases head <;> rfl
  · cases head <;> rfl

end LinkedMm

/-! ### Runs -/

namespace QueueCall

variable {result : Option SwapOutResult} {results : List (Option SwapOutResult)}

/-- One call, with loops that are long enough. -/
theorem onLinks_refines {call : QueueCall} (hl : l.Refines s)
    (h : call.onLists s = some (s', result)) (hactive : s.activePages.length < fuel)
    (hswapping : s.swappingPages.length < fuel) :
    ∃ l', call.onLinks fuel l = some (l', result) ∧ l'.Refines s' := by
  -- Each call is refined by its counterpart on the links; the fuel covers both queues.
  cases call with
  | insertActive page =>
      obtain ⟨hfresh, h⟩ := (Option.ite_none_right_eq_some).mp h
      cases h
      obtain ⟨queues, rfl, hq⟩ := hl
      exact ⟨_, rfl, .intro l.mm (hq.insertTail .active page hfresh.id_ne)⟩
  | swapOut initiator =>
      obtain ⟨r, hr, heq⟩ := Option.map_eq_some_iff.mp h
      cases heq
      obtain ⟨l', hl', href⟩ := LinkedMm.swapOut_refines hl hr hactive
      exact ⟨l', Option.map_eq_some_iff.mpr ⟨_, hl', rfl⟩, href⟩
  | swapIn page =>
      obtain ⟨hfresh, h⟩ := (Option.ite_none_right_eq_some).mp h
      cases h
      exact ⟨_, rfl, LinkedMm.swapIn_refines hl hfresh⟩
  | swapWriteCallback token status =>
      obtain ⟨page, hfind, h⟩ := Option.bind_eq_some_iff.mp h
      obtain ⟨s₁, hs₁, heq⟩ := Option.bind_eq_some_iff.mp h
      cases heq
      obtain ⟨l', hl', href⟩ := LinkedMm.swapWriteCallback_refines hl hfind hs₁
      exact ⟨l', Option.map_eq_some_iff.mpr ⟨_, hl', rfl⟩, href⟩
  | swapReadCallback token status bytesRead data =>
      obtain ⟨page, hfind, h⟩ := Option.bind_eq_some_iff.mp h
      obtain ⟨s₁, hs₁, heq⟩ := Option.bind_eq_some_iff.mp h
      cases heq
      obtain ⟨l', hl', href⟩ := LinkedMm.swapReadCallback_refines hl hfind hs₁
      exact ⟨l', Option.map_eq_some_iff.mpr ⟨_, hl', rfl⟩, href⟩
  | freeActivePages chosen =>
      obtain ⟨s₁, hs₁, heq⟩ := Option.map_eq_some_iff.mp h
      cases heq
      obtain ⟨l', hl', href⟩ := LinkedMm.freeActivePages_refines hl hs₁ hactive.le
      exact ⟨l', Option.map_eq_some_iff.mpr ⟨_, hl', rfl⟩, href⟩
  | cancelSwapping tid inRange =>
      cases h
      obtain ⟨l', hl', href⟩ := LinkedMm.cancelSwapping_refines hl hswapping.le
      exact ⟨l', Option.map_eq_some_iff.mpr ⟨_, hl', rfl⟩, href⟩
  | other f blind =>
      obtain ⟨s₁, hs₁, heq⟩ := Option.map_eq_some_iff.mp h
      cases heq
      obtain ⟨queues, rfl, hq⟩ := hl
      rw [blind] at hs₁
      obtain ⟨mm, hmm, rfl⟩ := Option.map_eq_some_iff.mp hs₁
      exact ⟨_, Option.map_eq_some_iff.mpr ⟨_, hmm, rfl⟩, .intro mm hq⟩

/-- Any sequence of calls. -/
theorem runOnLinks_refines {calls : List QueueCall} :
    ∀ {s : Mm} {results : List (Option SwapOutResult)},
      runOnLists calls s = some (s', results) →
      ∃ n, ∀ fuel, n ≤ fuel → ∀ l : LinkedMm, l.Refines s →
        ∃ l', runOnLinks fuel calls l = some (l', results) ∧
          s' = l'.mm.withQueues (l'.queue fuel) := by
  -- The fuel of a run is the sum over its calls, so each of them has enough.
  induction calls with
  | nil =>
      intro s results h
      cases h
      refine ⟨s'.activePages.length + s'.swappingPages.length, fun fuel hfuel l hl =>
        ⟨l, rfl, hl.queue ?_ ?_⟩⟩
      · exact (Nat.le_add_right _ _).trans hfuel
      · exact (Nat.le_add_left _ _).trans hfuel
  | cons call calls ih =>
      intro s results h
      obtain ⟨⟨s₁, result⟩, hcall, h⟩ := Option.bind_eq_some_iff.mp h
      obtain ⟨⟨s₂, results⟩, hcalls, h⟩ := Option.bind_eq_some_iff.mp h
      cases h
      obtain ⟨n, hn⟩ := ih hcalls
      refine ⟨n + s.activePages.length + s.swappingPages.length + 1, fun fuel hfuel l hl => ?_⟩
      have hactive : s.activePages.length < fuel := by omega
      have hswapping : s.swappingPages.length < fuel := by omega
      obtain ⟨l₁, hl₁, href⟩ := onLinks_refines hl hcall hactive hswapping
      obtain ⟨l', hl', hqueue⟩ := hn fuel (by omega) l₁ href
      exact ⟨l', Option.bind_eq_some_iff.mpr ⟨_, hl₁, Option.bind_eq_some_iff.mpr
        ⟨_, hl', rfl⟩⟩, hqueue⟩

end QueueCall

open QueueCall

/-- After `swap_init`, any sequence of calls on the linked queues gives the results that it gives
on the lists. Every loop ends, and following the links then gives the lists. -/
theorem page_queues_linked (l : LinkedMm) (calls : List QueueCall)
    {results : List (Option SwapOutResult)}
    (h : runOnLists calls l.mm.swapInit = some (s', results)) :
    ∃ n, ∀ fuel, n ≤ fuel → ∃ l', runOnLinks fuel calls l.swapInit = some (l', results) ∧
      s' = l'.mm.withQueues (l'.queue fuel) := by
  obtain ⟨n, hn⟩ := runOnLinks_refines h
  exact ⟨n, fun fuel hfuel => hn fuel hfuel l.swapInit l.swapInit_refines⟩

/-- A process with dirty pages, before `swap_init`. -/
def linkedPages : LinkedMm where
  mm := { withPages [] fun _ => 0 with
    ptable := fun _ =>
      { initialized := true, isActive := true, command := [], tid := threadId 1
        waitFor := nilthread, size := 3, startTime := 0
        pageIndex := some fun _ => some fun _ => 0x3002 } }
  item := fun i => heapItem i 0
  links := ⟨fun _ => none, fun _ => .head .active, fun _ => .head .active⟩

/-- Three pages enter the queue. The first one is mapped, so that the second one is swapped out.
The third one is freed, and the one that is being swapped is flagged. -/
def linkedCalls : List QueueCall :=
  [.insertActive (heapItem 0 (-1)), .insertActive (heapItem 1 0), .insertActive (heapItem 2 (-1)),
    .swapOut (threadId 1), .swapWriteCallback 1 .ok, .freeActivePages fun page => page.id = 2,
    .cancelSwapping (threadId 1) fun _ => true, .swapWriteCallback 1 .ok]

/-- The calls of one swap-out and of a deletion while it goes on. -/
theorem page_queues_linked_swapOut : ∃ s results,
    results[3]? = some (some .swappingPending) ∧ s.activePages.map (·.id) = [0] ∧
    s.swappingPages.map (fun page => (page.id, page.processDeleted)) = [(1, true)] ∧
    ∃ n, ∀ fuel, n ≤ fuel → ∃ l', runOnLinks fuel linkedCalls linkedPages.swapInit =
      some (l', results) ∧ s = l'.mm.withQueues (l'.queue fuel) := by
  have hrun : (runOnLists linkedCalls linkedPages.mm.swapInit).any (fun r =>
      decide (r.2[3]? = some (some .swappingPending)) &&
        decide (r.1.activePages.map (·.id) = [0]) &&
        decide (r.1.swappingPages.map (fun page => (page.id, page.processDeleted)) =
          [(1, true)])) = true := by
    decide +kernel
  rw [Option.any_eq_true] at hrun
  obtain ⟨⟨s, results⟩, h, hP⟩ := hrun
  simp only [Bool.and_eq_true, decide_eq_true_eq] at hP
  exact ⟨s, results, hP.1.1, hP.1.2, hP.2, page_queues_linked linkedPages linkedCalls h⟩

end Sos
