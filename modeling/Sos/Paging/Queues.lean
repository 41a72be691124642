import Mathlib.Data.List.Nodup
import Sos.Paging.Refines

/-!
# `Sos.Paging.Queues`: how the queues follow a page

The rules for `QueuesOk` and `RolesOk`. `QueuesOk.update` is about one page that changes
its state: its old item leaves its queue, its new item enters one, and the requests of all
other items stay. `QueuesOk.doomed_update` is about the items whose page is gone.

A thread that an item serves can only lose that item, except when a new item takes it on
(`RolesOk.mono`, `RolesOk.take`).
-/

set_option autoImplicit false

namespace Sos

/-! ### Requests -/

/-- The pending requests of an item are those with its token. -/
theorem mem_pending {requests : List SwapRequest} {id : Nat} {r : SwapRequest} :
    r ∈ pending requests id ↔ r ∈ requests ∧ r.token = id := by
  simp [pending]

/-- The requests of an item in two lists, one behind the other. -/
theorem pending_append (l₁ l₂ : List SwapRequest) (id : Nat) :
    pending (l₁ ++ l₂) id = pending l₁ id ++ pending l₂ id :=
  List.filter_append ..

/-- A request of the item is in front. -/
theorem pending_cons_self {r : SwapRequest} {l : List SwapRequest} {id : Nat}
    (h : r.token = id) : pending (r :: l) id = r :: pending l id := by
  simp [pending, h]

/-- A request of another item does not count. -/
theorem pending_cons_of_ne {r : SwapRequest} {l : List SwapRequest} {id : Nat}
    (h : r.token ≠ id) : pending (r :: l) id = pending l id := by
  simp [pending, h]

/-- Taking one request out leaves the requests of the other items. -/
theorem pending_remove_of_ne {l₁ l₂ : List SwapRequest} {r : SwapRequest} {id : Nat}
    (h : r.token ≠ id) : pending (l₁ ++ r :: l₂) id = pending (l₁ ++ l₂) id := by
  rw [pending_append, pending_append, pending_cons_of_ne h]

/-- Taking one request of an item out leaves one fewer. -/
theorem length_pending_remove (l₁ l₂ : List SwapRequest) {r : SwapRequest} {id : Nat}
    (h : r.token = id) :
    (pending (l₁ ++ r :: l₂) id).length = (pending (l₁ ++ l₂) id).length + 1 := by
  rw [pending_append, pending_append, pending_cons_self h, List.length_append,
    List.length_append, List.length_cons]
  rfl

/-- An item without a request has none pending. -/
theorem pending_of_forall_ne {l : List SwapRequest} {id : Nat} (h : ∀ r ∈ l, r.token ≠ id) :
    pending l id = [] := by
  rw [pending, List.filter_eq_nil_iff]
  intro r hr
  simpa using h r hr

/-- The requests for writing an item out carry its number. -/
theorem token_writeRequests {page : PageQueueItem} {data : Nat → UInt8} {r : SwapRequest}
    (h : r ∈ Mm.writeRequests page data) : r.token = page.id ∧ r.isWrite = true := by
  obtain ⟨i, -, rfl⟩ := List.mem_map.mp h
  exact ⟨rfl, rfl⟩

/-- All of them are pending for the item. -/
theorem pending_writeRequests (page : PageQueueItem) (data : Nat → UInt8) :
    pending (Mm.writeRequests page data) page.id = Mm.writeRequests page data := by
  rw [pending, List.filter_eq_self]
  intro r hr
  simpa using (token_writeRequests hr).1

/-- Whether an item is being written depends on its own requests only. -/
theorem Writing.congr {it : PageQueueItem} {requests requests' : List SwapRequest}
    (h : Writing it requests) (hp : pending requests' it.id = pending requests it.id) :
    Writing it requests' :=
  ⟨hp ▸ h.some, hp ▸ h.count, hp ▸ h.write⟩

/-- And so does whether it is being read. -/
theorem Reading.congr {it : PageQueueItem} {requests requests' : List SwapRequest}
    (h : Reading it requests) (hp : pending requests' it.id = pending requests it.id) :
    Reading it requests' :=
  ⟨hp ▸ h.read, h.batch⟩

/-- The requests `swap_out` sends for an item that had none. -/
theorem writing_writeRequests {it : PageQueueItem} {requests : List SwapRequest}
    {data : Nat → UInt8} (hnone : ∀ r ∈ requests, r.token ≠ it.id) (hto : it.toSwap = pageSize) :
    Writing it (requests ++ Mm.writeRequests it data) := by
  have hp : pending (requests ++ Mm.writeRequests it data) it.id = Mm.writeRequests it data := by
    rw [pending_append, pending_of_forall_ne hnone, pending_writeRequests, List.nil_append]
  refine ⟨?_, ?_, ?_⟩
  · rw [hp]
    simp [Mm.writeRequests, pageSize, batchSize]
  · rw [hp, hto]
    simp [Mm.writeRequests, pageSize, batchSize]
  · rw [hp]
    intro r hr
    obtain ⟨i, hi, rfl⟩ := List.mem_map.mp hr
    exact ⟨i, _, List.mem_range.mp hi, rfl⟩

/-- The request `swap_in` sends for an item that had none. -/
theorem reading_swapIn {it : PageQueueItem} {requests : List SwapRequest}
    (hnone : ∀ r ∈ requests, r.token ≠ it.id) (hto : it.toSwap = 0) :
    Reading it (requests ++ [.read it.id (it.swapOffset + it.toSwap) batchSize]) := by
  refine ⟨?_, 0, ?_, by decide⟩
  · rw [pending_append, pending_of_forall_ne hnone, List.nil_append]
    exact pending_cons_self rfl
  · simp [hto]

/-- An answer to a write of an item that has others outstanding. -/
theorem Writing.more {it : PageQueueItem} {l₁ l₂ : List SwapRequest} {r : SwapRequest}
    (h : Writing it (l₁ ++ r :: l₂)) (hr : r.token = it.id) (hmore : it.toSwap - batchSize ≠ 0) :
    Writing { it with toSwap := it.toSwap - batchSize } (l₁ ++ l₂) := by
  have hlen := length_pending_remove l₁ l₂ hr
  have hcount := h.count
  rw [hlen] at hcount
  refine ⟨?_, ?_, ?_⟩
  -- If no request were left, this one would have been the last.
  · intro hnil
    rw [hnil] at hcount
    apply hmore
    rw [hcount]
    simp
  · show it.toSwap - batchSize = _
    rw [hcount]
    simp only [batchSize]
    omega
  -- The requests that are left are requests of before.
  · intro r' hr'
    apply h.write r'
    rw [mem_pending] at hr' ⊢
    refine ⟨?_, hr'.2⟩
    simp only [List.mem_append, List.mem_cons] at hr' ⊢
    tauto

/-- The last answer to a write of an item. -/
theorem Writing.last {it : PageQueueItem} {l₁ l₂ : List SwapRequest} {r : SwapRequest}
    (h : Writing it (l₁ ++ r :: l₂)) (hr : r.token = it.id) (hlast : it.toSwap - batchSize = 0) :
    ∀ r' ∈ l₁ ++ l₂, r'.token ≠ it.id := by
  have hlen := length_pending_remove l₁ l₂ hr
  have hcount := h.count
  rw [hlen] at hcount
  have hnil : (pending (l₁ ++ l₂) it.id).length = 0 := by
    simp only [batchSize] at hcount hlast
    omega
  intro r' hr' he
  have : r' ∈ pending (l₁ ++ l₂) it.id := mem_pending.mpr ⟨hr', he⟩
  rw [List.length_eq_zero_iff.mp hnil] at this
  cases this

/-- The answer to the read of an item: it was the only request of the item. -/
theorem Reading.only {it : PageQueueItem} {l₁ l₂ : List SwapRequest} {r : SwapRequest}
    (h : Reading it (l₁ ++ r :: l₂)) (hr : r.token = it.id) :
    r = .read it.id (it.swapOffset + it.toSwap) batchSize ∧
      ∀ r' ∈ l₁ ++ l₂, r'.token ≠ it.id := by
  have hread := h.read
  have hlen := length_pending_remove l₁ l₂ hr
  have hmem : r ∈ pending (l₁ ++ r :: l₂) it.id := mem_pending.mpr ⟨by simp, hr⟩
  rw [hread] at hlen hmem
  refine ⟨List.mem_singleton.mp hmem, ?_⟩
  have hnil : (pending (l₁ ++ l₂) it.id).length = 0 := by
    simpa using hlen
  intro r' hr' he
  have : r' ∈ pending (l₁ ++ l₂) it.id := mem_pending.mpr ⟨hr', he⟩
  rw [List.length_eq_zero_iff.mp hnil] at this
  cases this

/-- An item is not waiting for both kinds of answer. -/
theorem Writing.not_reading {it : PageQueueItem} {requests : List SwapRequest}
    (hw : Writing it requests) (hr : Reading it requests) : False := by
  obtain ⟨i, data, -, he⟩ := hw.write (.read it.id (it.swapOffset + it.toSwap) batchSize)
    (by rw [hr.read]; exact List.mem_singleton_self _)
  cases he

/-! ### The queues -/

/-- The list after `TAILQ_REMOVE` of an item. -/
def removeItem (swapping : List PageQueueItem) (id : Nat) : List PageQueueItem :=
  swapping.filter fun it => it.id ≠ id

/-- The list after a store through the pointer to an item. -/
def replaceItem (swapping : List PageQueueItem) (page : PageQueueItem) : List PageQueueItem :=
  swapping.map fun it => if it.id = page.id then page else it

/-- Adding an item with a new id to the end of one of two queues. -/
theorem nodup_snoc {l : List PageQueueItem} {it : PageQueueItem} (h : (l.map (·.id)).Nodup)
    (hid : it.id ∉ l.map (·.id)) : ((l ++ [it]).map (·.id)).Nodup := by
  have hp : ((l ++ [it]).map (·.id)).Perm ((it :: l).map (·.id)) :=
    (List.perm_append_singleton it l).map _
  rw [hp.nodup_iff, List.map_cons, List.nodup_cons]
  exact ⟨hid, h⟩

/-- Only the item with the number is removed. -/
theorem mem_removeItem {swapping : List PageQueueItem} {id : Nat} {x : PageQueueItem} :
    x ∈ removeItem swapping id ↔ x ∈ swapping ∧ x.id ≠ id := by
  simp [removeItem]

namespace QueuesOk

variable {φ : PageMap} {active active' swapping swapping' : List PageQueueItem}
  {requests requests' : List SwapRequest} {next next' : Nat}

/-- Items are told apart by their ids. -/
theorem eq_of_id (h : QueuesOk φ active swapping requests next) {it it' : PageQueueItem}
    (hm : it ∈ active ++ swapping) (hm' : it' ∈ active ++ swapping) (he : it.id = it'.id) :
    it = it' :=
  List.inj_on_of_nodup_map h.nodup hm hm' he

/-- The item of a page that is being written is in the queue of swapping pages. -/
theorem swapping_of_writing (h : QueuesOk φ active swapping requests next) {pg : Page} {f : Nat}
    {d : Bool} {it : PageQueueItem} (hpg : φ pg = .resident f d (.writing it)) :
    it ∈ swapping := by
  have hp := h.page pg it (by rw [hpg]; rfl)
  exact (h.swapping_iff it hp.2.1).mpr ⟨pg, f, d, Or.inl hpg⟩

/-- The item of a page that is being read is there, too. -/
theorem swapping_of_reading (h : QueuesOk φ active swapping requests next) {pg : Page} {f : Nat}
    {d : Bool} {it : PageQueueItem} (hpg : φ pg = .resident f d (.reading it)) :
    it ∈ swapping := by
  have hp := h.page pg it (by rw [hpg]; rfl)
  exact (h.swapping_iff it hp.2.1).mpr ⟨pg, f, d, Or.inr hpg⟩

/-- The item of an active page is in the queue of active pages. -/
theorem active_of_hold (h : QueuesOk φ active swapping requests next) {pg : Page} {f : Nat}
    {d : Bool} {it : PageQueueItem} (hpg : φ pg = .resident f d (.active it)) : it ∈ active :=
  (h.active_iff it).mpr ⟨pg, f, d, hpg⟩

/-- An item of the active queue is not among the pages being swapped. -/
theorem id_ne (h : QueuesOk φ active swapping requests next) {it it' : PageQueueItem}
    (hm : it ∈ active) (hm' : it' ∈ swapping) : it.id ≠ it'.id := by
  have := h.nodup
  rw [List.map_append, List.nodup_append] at this
  exact this.2.2 it.id (List.mem_map_of_mem hm) it'.id (List.mem_map_of_mem hm')

/-- No request is for an active item. -/
theorem no_request (h : QueuesOk φ active swapping requests next) {it : PageQueueItem}
    (hm : it ∈ active) : ∀ r ∈ requests, r.token ≠ it.id := by
  intro r hr he
  obtain ⟨it', hm', he'⟩ := h.owner r hr
  exact h.id_ne hm hm' (he.symm.trans he'.symm)

/-- Every request belongs to an item that is waiting for it. -/
theorem writing_or_reading (h : QueuesOk φ active swapping requests next) {it : PageQueueItem}
    (hm : it ∈ swapping) : Writing it requests ∨ Reading it requests := by
  cases hd : it.processDeleted with
  | true => exact h.doomed it hm hd
  | false =>
      obtain ⟨pg, f, d, hpg | hpg⟩ := (h.swapping_iff it hd).mp hm
      · exact Or.inl (h.writing pg f d it hpg).2
      · exact Or.inr (h.reading pg f d it hpg).2

/-- Taking the head out of the active queue. -/
theorem head (h : QueuesOk φ active swapping requests next) {it : PageQueueItem}
    {rest : List PageQueueItem} (hq : active = it :: rest) :
    ((rest ++ swapping).map (·.id)).Nodup ∧ (∀ x, x ∈ rest ↔ x ∈ active ∧ x ≠ it) ∧
      it.id ∉ (rest ++ swapping).map (·.id) := by
  subst hq
  have hnd := h.nodup
  rw [List.cons_append, List.map_cons, List.nodup_cons] at hnd
  refine ⟨hnd.2, ?_, hnd.1⟩
  intro x
  constructor
  · intro hx
    refine ⟨List.mem_cons_of_mem _ hx, ?_⟩
    rintro rfl
    exact hnd.1 (List.mem_map_of_mem (List.mem_append_left _ hx))
  · rintro ⟨hx, hne⟩
    exact (List.mem_cons.mp hx).resolve_left hne

/-- Taking an item out of the pages being swapped. -/
theorem remove (h : QueuesOk φ active swapping requests next) {it : PageQueueItem}
    (hm : it ∈ swapping) :
    ((active ++ removeItem swapping it.id).map (·.id)).Nodup ∧
      (∀ x, x ∈ removeItem swapping it.id ↔ x ∈ swapping ∧ x ≠ it) ∧
      it.id ∉ (active ++ removeItem swapping it.id).map (·.id) := by
  have hsub : (active ++ removeItem swapping it.id).Sublist (active ++ swapping) :=
    List.Sublist.append_left List.filter_sublist active
  refine ⟨h.nodup.sublist (hsub.map _), ?_, ?_⟩
  -- Two items with the same id are the same, so that removing by id takes only this one.
  · intro x
    rw [mem_removeItem]
    constructor
    · rintro ⟨hx, hne⟩
      refine ⟨hx, ?_⟩
      rintro rfl
      exact hne rfl
    · rintro ⟨hx, hne⟩
      exact ⟨hx, fun he => hne (h.eq_of_id (List.mem_append_right _ hx)
        (List.mem_append_right _ hm) he)⟩
  · rw [List.map_append, List.mem_append, not_or]
    refine ⟨?_, ?_⟩
    · intro hx
      obtain ⟨x, hx, he⟩ := List.mem_map.mp hx
      exact h.id_ne hx hm he
    · intro hx
      obtain ⟨x, hx, he⟩ := List.mem_map.mp hx
      exact (mem_removeItem.mp hx).2 he

/-- Replacing an item of the pages being swapped by one with the same id. -/
theorem replace (h : QueuesOk φ active swapping requests next) {it it' : PageQueueItem}
    (hm : it ∈ swapping) (hid : it'.id = it.id) :
    ((active ++ replaceItem swapping it').map (·.id)).Nodup ∧
      ∀ x, x ∈ replaceItem swapping it' ↔ (x ∈ swapping ∧ x ≠ it) ∨ x = it' := by
  -- The ids stay as they are.
  have hids : (replaceItem swapping it').map (·.id) = swapping.map (·.id) := by
    rw [replaceItem, List.map_map]
    apply List.map_congr_left
    intro x _
    simp only [Function.comp_apply]
    split
    next he => exact he.symm
    · rfl
  refine ⟨?_, ?_⟩
  · rw [List.map_append, hids, ← List.map_append]
    exact h.nodup
  -- An item of the new list is the new one, or one of before with another id.
  · intro x
    rw [replaceItem, List.mem_map]
    constructor
    · rintro ⟨y, hy, he⟩
      by_cases hyi : y.id = it'.id
      · rw [if_pos hyi] at he
        exact Or.inr he.symm
      · rw [if_neg hyi] at he
        subst he
        refine Or.inl ⟨hy, ?_⟩
        rintro rfl
        exact hyi hid.symm
    · rintro (⟨hx, hne⟩ | rfl)
      · refine ⟨x, hx, if_neg ?_⟩
        intro he
        exact hne (h.eq_of_id (List.mem_append_right _ hx) (List.mem_append_right _ hm)
          (he.trans hid))
      · exact ⟨it, hm, if_pos hid.symm⟩

/-- The order of the active queue does not matter. -/
theorem perm (h : QueuesOk φ active swapping requests next) (hp : active'.Perm active) :
    QueuesOk φ active' swapping requests next := by
  have happ : (active' ++ swapping).Perm (active ++ swapping) := hp.append_right swapping
  refine ⟨(happ.map _).nodup_iff.mpr h.nodup, fun it hm => h.fresh it (happ.mem_iff.mp hm),
    h.page, ?_, h.swapping_iff, h.writing, h.reading, h.doomed, h.slot, h.owner⟩
  intro it
  rw [hp.mem_iff]
  exact h.active_iff it

/-- One page changes its state: its old item leaves, its new item enters a queue. -/
theorem update (h : QueuesOk φ active swapping requests next) {pg : Page} {st : PageState}
    (hnodup : ((active' ++ swapping').map (·.id)).Nodup)
    (hfresh : ∀ it ∈ active' ++ swapping', it.id < next')
    (hpage : ∀ it, st.item? = some it →
      it.For pg ∧ it.processDeleted = false ∧ (it.swapOffset = -1 ∨ 0 ≤ it.swapOffset))
    (hactive : ∀ it, it ∈ active' ↔ (it ∈ active ∧ (φ pg).item? ≠ some it) ∨
      ∃ f d, st = .resident f d (.active it))
    (hswapping : ∀ it, it.processDeleted = false →
      (it ∈ swapping' ↔ (it ∈ swapping ∧ (φ pg).item? ≠ some it) ∨
        ∃ f d, st = .resident f d (.writing it) ∨ st = .resident f d (.reading it)))
    (hpending : ∀ it ∈ swapping, (φ pg).item? ≠ some it →
      pending requests' it.id = pending requests it.id)
    (hwriting : ∀ f d it, st = .resident f d (.writing it) → d = true ∧ Writing it requests')
    (hreading : ∀ f d it, st = .resident f d (.reading it) → d = false ∧ Reading it requests')
    (hdoomed : ∀ it ∈ swapping', it.processDeleted = true → it ∈ swapping)
    (hslot : ∀ it ∈ swapping', 0 ≤ it.swapOffset)
    (howner : ∀ r ∈ requests', ∃ it ∈ swapping', it.id = r.token) :
    QueuesOk (Function.update φ pg st) active' swapping' requests' next' := by
  -- Two pages never have the same item.
  have hitem : ∀ pg' it, pg' ≠ pg → (φ pg').item? = some it → (φ pg).item? ≠ some it :=
    fun pg' it hne h1 h2 => hne ((h.page pg' it h1).1.unique (h.page pg it h2).1)
  refine ⟨hnodup, hfresh, ?_, ?_, ?_, ?_, ?_, ?_, hslot, howner⟩
  · intro pg' it hit
    by_cases he : pg' = pg
    · rw [he, Function.update_self] at hit
      rw [he]
      exact hpage it hit
    · rw [Function.update_of_ne he] at hit
      exact h.page pg' it hit
  -- The active queue, as the pages say.
  · intro it
    rw [hactive]
    constructor
    · rintro (⟨hm, hne⟩ | ⟨f, d, hst⟩)
      · obtain ⟨pg', f, d, hpg'⟩ := (h.active_iff it).mp hm
        have he : pg' ≠ pg := by
          rintro rfl
          exact hne (by rw [hpg']; rfl)
        exact ⟨pg', f, d, by rwa [Function.update_of_ne he]⟩
      · exact ⟨pg, f, d, by rwa [Function.update_self]⟩
    · rintro ⟨pg', f, d, hpg'⟩
      by_cases he : pg' = pg
      · rw [he, Function.update_self] at hpg'
        exact Or.inr ⟨f, d, hpg'⟩
      · rw [Function.update_of_ne he] at hpg'
        exact Or.inl ⟨h.active_of_hold hpg', hitem pg' it he (by rw [hpg']; rfl)⟩
  -- The same for the pages being swapped.
  · intro it hd
    rw [hswapping it hd]
    constructor
    · rintro (⟨hm, hne⟩ | ⟨f, d, hst⟩)
      · obtain ⟨pg', f, d, hpg'⟩ := (h.swapping_iff it hd).mp hm
        have he : pg' ≠ pg := by
          rintro rfl
          rcases hpg' with hpg' | hpg'
          · exact hne (by rw [hpg']; rfl)
          · exact hne (by rw [hpg']; rfl)
        exact ⟨pg', f, d, by rwa [Function.update_of_ne he]⟩
      · exact ⟨pg, f, d, by rwa [Function.update_self]⟩
    · rintro ⟨pg', f, d, hpg'⟩
      by_cases he : pg' = pg
      · rw [he, Function.update_self] at hpg'
        exact Or.inr ⟨f, d, hpg'⟩
      · rw [Function.update_of_ne he] at hpg'
        refine Or.inl ⟨(h.swapping_iff it hd).mpr ⟨pg', f, d, hpg'⟩, hitem pg' it he ?_⟩
        rcases hpg' with hpg' | hpg'
        · rw [hpg']; rfl
        · rw [hpg']; rfl
  -- The requests of the other items have not changed.
  · intro pg' f d it hpg'
    by_cases he : pg' = pg
    · rw [he, Function.update_self] at hpg'
      exact hwriting f d it hpg'
    · rw [Function.update_of_ne he] at hpg'
      obtain ⟨hd, hw⟩ := h.writing pg' f d it hpg'
      exact ⟨hd, hw.congr (hpending it (h.swapping_of_writing hpg')
        (hitem pg' it he (by rw [hpg']; rfl)))⟩
  · intro pg' f d it hpg'
    by_cases he : pg' = pg
    · rw [he, Function.update_self] at hpg'
      exact hreading f d it hpg'
    · rw [Function.update_of_ne he] at hpg'
      obtain ⟨hd, hr⟩ := h.reading pg' f d it hpg'
      exact ⟨hd, hr.congr (hpending it (h.swapping_of_reading hpg')
        (hitem pg' it he (by rw [hpg']; rfl)))⟩
  · intro it hm hd
    have hm' := hdoomed it hm hd
    have hne : (φ pg).item? ≠ some it := by
      intro he
      rw [(h.page pg it he).2.1] at hd
      cases hd
    have hp := hpending it hm' hne
    rcases h.doomed it hm' hd with hw | hr
    · exact Or.inl (hw.congr hp)
    · exact Or.inr (hr.congr hp)

/-- A page without an item changes to a state without an item. -/
theorem keep (h : QueuesOk φ active swapping requests next) {pg : Page} {st : PageState}
    (hpg : (φ pg).item? = none) (hst : st.item? = none) :
    QueuesOk (Function.update φ pg st) active swapping requests next := by
  -- The new state of the page has no item.
  have hno : ∀ f d it, st ≠ .resident f d (.active it) ∧ st ≠ .resident f d (.writing it) ∧
      st ≠ .resident f d (.reading it) := by
    intro f d it
    refine ⟨?_, ?_, ?_⟩
    all_goals
      rintro rfl
      cases hst
  refine h.update h.nodup h.fresh ?_ ?_ ?_ (fun _ _ _ => rfl) ?_ ?_ (fun _ hm _ => hm) h.slot
    h.owner
  · intro it hit
    rw [hst] at hit
    cases hit
  · intro it
    simp [hpg, hno]
  · intro it _
    simp [hpg, hno]
  · exact fun f d it he => absurd he (hno f d it).2.1
  · exact fun f d it he => absurd he (hno f d it).2.2

/-- Only items whose page is gone change. -/
theorem doomed_update (h : QueuesOk φ active swapping requests next)
    (hnodup : ((active ++ swapping').map (·.id)).Nodup)
    (hfresh : ∀ it ∈ active ++ swapping', it.id < next)
    (hswapping : ∀ it, it.processDeleted = false → (it ∈ swapping' ↔ it ∈ swapping))
    (hpending : ∀ it ∈ swapping, it.processDeleted = false →
      pending requests' it.id = pending requests it.id)
    (hdoomed : ∀ it ∈ swapping', it.processDeleted = true →
      Writing it requests' ∨ Reading it requests')
    (hslot : ∀ it ∈ swapping', 0 ≤ it.swapOffset)
    (howner : ∀ r ∈ requests', ∃ it ∈ swapping', it.id = r.token) :
    QueuesOk φ active swapping' requests' next := by
  refine ⟨hnodup, hfresh, h.page, h.active_iff, ?_, ?_, ?_, hdoomed, hslot, howner⟩
  · intro it hd
    rw [hswapping it hd]
    exact h.swapping_iff it hd
  · intro pg f d it hpg
    obtain ⟨hd, hw⟩ := h.writing pg f d it hpg
    exact ⟨hd, hw.congr (hpending it (h.swapping_of_writing hpg)
      (h.page pg it (by rw [hpg]; rfl)).2.1)⟩
  · intro pg f d it hpg
    obtain ⟨hd, hr⟩ := h.reading pg f d it hpg
    exact ⟨hd, hr.congr (hpending it (h.swapping_of_reading hpg)
      (h.page pg it (by rw [hpg]; rfl)).2.1)⟩

end QueuesOk

/-! ### Threads that items serve -/

/-- The items lose requests and flags are only set: no thread gains a server. -/
theorem Serves.mono {swapping swapping' : List PageQueueItem}
    {requests requests' : List SwapRequest} {t : ThreadId} {id : Nat}
    (h : Serves swapping' requests' t id) (ht : t ≠ nilthread)
    (hitem : ∀ it' ∈ swapping', ∃ it ∈ swapping, it.id = it'.id ∧ it.tid = it'.tid ∧
      (it'.processDeleted = false → it.processDeleted = false) ∧
      (it'.initiator = it.initiator ∨ it'.initiator = nilthread))
    (hreq : ∀ r' ∈ requests', ∃ r ∈ requests, r.token = r'.token ∧ r.isWrite = r'.isWrite) :
    Serves swapping requests t id := by
  obtain ⟨it', hm', hid, hs⟩ := h
  obtain ⟨it, hm, hid', htid, hdel, hini⟩ := hitem it' hm'
  refine ⟨it, hm, hid'.trans hid, ?_⟩
  rcases hs with ⟨hd, ht', r', hr', htok, hwr⟩ | ⟨hi, r', hr', htok, hwr⟩
  · obtain ⟨r, hr, h1, h2⟩ := hreq r' hr'
    exact Or.inl ⟨hdel hd, htid.trans ht', r, hr, h1.trans htok, h2.trans hwr⟩
  · obtain ⟨r, hr, h1, h2⟩ := hreq r' hr'
    rcases hini with hini | hini
    · exact Or.inr ⟨hini.symm.trans hi, r, hr, h1.trans htok, h2.trans hwr⟩
    · exact absurd (hi.symm.trans hini) ht

namespace RolesOk

variable {ptable ptable' : Nat → Process} {swapping swapping' : List PageQueueItem}
  {requests requests' : List SwapRequest} {wait wait' : ThreadId → Wait}

/-- Threads lose servers, and the ones that still have one stay blocked. -/
theorem mono (h : RolesOk ptable swapping requests wait)
    (hserves : ∀ t id, t ≠ nilthread → Serves swapping' requests' t id →
      Serves swapping requests t id ∧ wait' t = wait t)
    (hlive : ∀ p id, Serves swapping' requests' (threadId p) id → LiveIn ptable p →
      LiveIn ptable' p)
    (hcall : ∀ p, p < maxRunningProcess → (ptable' p).isActive = true →
      (ptable' p).waitFor ≠ nilthread → LiveIn ptable' p ∧ wait' (threadId p) = .call) :
    RolesOk ptable' swapping' requests' wait' := by
  refine ⟨?_, ?_, hcall⟩
  · intro t id ht hs
    obtain ⟨hs', hw⟩ := hserves t id ht hs
    obtain ⟨p, hp, rfl, hwp⟩ := h.waits t id ht hs'
    exact ⟨p, hlive p id hs hp, rfl, hw.trans hwp⟩
  · intro t id id' ht hs hs'
    exact h.unique t id id' ht (hserves t id ht hs).1 (hserves t id' ht hs').1

/-- The items change, the threads and processes do not. -/
theorem sub (h : RolesOk ptable swapping requests wait)
    (hserves : ∀ t id, t ≠ nilthread → Serves swapping' requests' t id →
      Serves swapping requests t id) :
    RolesOk ptable swapping' requests' wait :=
  h.mono (fun t id ht hs => ⟨hserves t id ht hs, rfl⟩) (fun _ _ _ hp => hp) h.call

/-- A process-table entry is replaced by one that belongs to the same thread. -/
theorem same (h : RolesOk ptable swapping requests wait) {p : Nat} {P : Process}
    (hsame : (ptable p).Same P) :
    RolesOk (Function.update ptable p P) swapping requests wait := by
  have hlive := liveIn_update hsame.toSameThread
  refine h.mono (fun _ _ _ hs => ⟨hs, rfl⟩) (fun q _ _ hq => (hlive q).mpr hq) ?_
  intro q hq hact hwf
  by_cases hp : q = p
  · rw [hp, Function.update_self, hsame.isActive] at hact
    rw [hp, Function.update_self, hsame.waitFor] at hwf
    rw [hp] at hq ⊢
    obtain ⟨hl, hw⟩ := h.call p hq hact hwf
    exact ⟨(hlive p).mpr hl, hw⟩
  · rw [Function.update_of_ne hp] at hact hwf
    obtain ⟨hl, hw⟩ := h.call q hq hact hwf
    exact ⟨(hlive q).mpr hl, hw⟩

/-- A new item serves a thread that is blocked on a page fault and has no server yet. -/
theorem take (h : RolesOk ptable swapping requests wait) {q : Nat} (id₀ : Nat)
    (hlive : LiveIn ptable q) (hwait : wait (threadId q) = .fault)
    (hnone : ∀ id, ¬ Serves swapping requests (threadId q) id)
    (hserves : ∀ t id, t ≠ nilthread → Serves swapping' requests' t id →
      Serves swapping requests t id ∨ (t = threadId q ∧ id = id₀)) :
    RolesOk ptable swapping' requests' wait := by
  refine ⟨?_, ?_, h.call⟩
  · intro t id ht hs
    rcases hserves t id ht hs with hs' | ⟨rfl, -⟩
    · exact h.waits t id ht hs'
    · exact ⟨q, hlive, rfl, hwait⟩
  · intro t id id' ht hs hs'
    rcases hserves t id ht hs with h1 | ⟨rfl, rfl⟩
    · rcases hserves t id' ht hs' with h2 | ⟨rfl, rfl⟩
      · exact h.unique t id id' ht h1 h2
      · exact absurd h1 (hnone id)
    · rcases hserves _ id' ht hs' with h2 | ⟨-, rfl⟩
      · exact absurd h2 (hnone id')
      · rfl

/-- A thread that no item serves and that waits for no process can change its state. -/
theorem setWait (h : RolesOk ptable swapping requests wait) {p : Nat} {w : Wait}
    (hnone : ∀ id, ¬ Serves swapping requests (threadId p) id)
    (hcall : p < maxRunningProcess → (ptable p).isActive = true →
      (ptable p).waitFor = nilthread) :
    RolesOk ptable swapping requests (Function.update wait (threadId p) w) := by
  refine h.mono ?_ (fun _ _ _ hp => hp) ?_
  · intro t id ht hs
    have hne : t ≠ threadId p := by
      rintro rfl
      exact hnone id hs
    exact ⟨hs, Function.update_of_ne hne _ _⟩
  · intro q hq hact hwf
    obtain ⟨hl, hw⟩ := h.call q hq hact hwf
    have hne : threadId q ≠ threadId p := by
      intro he
      have he' := threadId_inj he
      subst he'
      exact hwf (hcall hq hact)
    exact ⟨hl, by rwa [Function.update_of_ne hne]⟩

/-- The server of a thread goes away and wakes the thread up, if there is one. -/
theorem wake (h : RolesOk ptable swapping requests wait) {t : ThreadId} {id₀ : Nat}
    (ht : t ≠ nilthread → Serves swapping requests t id₀)
    (hserves : ∀ t id, t ≠ nilthread → Serves swapping' requests' t id →
      Serves swapping requests t id ∧ id ≠ id₀) :
    RolesOk ptable swapping' requests'
      (if t ≠ nilthread then Function.update wait t .ready else wait) := by
  -- If nobody is woken, threads wait as before.
  by_cases hnil : t = nilthread
  · rw [if_neg (not_not_intro hnil)]
    exact h.sub fun t id ht hs => (hserves t id ht hs).1
  · rw [if_pos hnil]
    refine h.mono ?_ (fun _ _ _ hp => hp) ?_
    -- The threads that are still served are others than the one that is woken.
    · intro t' id ht' hs
      obtain ⟨hs', hid⟩ := hserves t' id ht' hs
      have hne : t' ≠ t := by
        rintro rfl
        exact hid (h.unique t' id id₀ hnil hs' (ht hnil))
      exact ⟨hs', Function.update_of_ne hne _ _⟩
    -- The thread that is woken waits for a page, and not for a process.
    · intro p hp hact hwf
      obtain ⟨hl, hw⟩ := h.call p hp hact hwf
      obtain ⟨q, -, rfl, hwq⟩ := h.waits t id₀ hnil (ht hnil)
      have hne : threadId p ≠ threadId q := by
        intro he
        rw [he, hwq] at hw
        cases hw
      exact ⟨hl, by rwa [Function.update_of_ne hne]⟩

/-- The owner of a page that is being read back is blocked on its page fault. -/
theorem fault_of_serves (h : RolesOk ptable swapping requests wait) {p id : Nat}
    (hs : Serves swapping requests (threadId p) id) : wait (threadId p) = .fault := by
  obtain ⟨q, -, hq, hw⟩ := h.waits _ _ (threadId_ne_nilthread p) hs
  exact hw

end RolesOk

end Sos
