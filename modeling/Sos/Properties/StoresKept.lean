import Sos.Properties.CleanPages

/-!
# `Sos.Properties.StoresKept`: which stores survive swapping

`swap_out` hands the bytes of a page to `nfs_write`, and the page may be mapped, changed and
unmapped again before the last answer. At that answer `swap_write_callback` looks only whether
the page is mapped.

* `stores_kept`: in every run in which a page that leaves its frame has not changed since it was
  handed over (`EvictsUnchanged`), a process finds in each of its pages what it has stored there
  last. The condition is about one answer, not about the way to it: a page that is changed and
  unmapped, but mapped again before the last answer, stays in its frame and loses nothing, and
  the runs of `memory_kept` all meet the condition (`Remembers.keepsStores`);
* `stores_not_kept`: without the condition a store is lost. Apart from that, a process that is
  not initialized can store into the frames of others, and so can a process through the page at
  `stackTop` that the last process in its slot has left mapped.
-/

set_option autoImplicit false

namespace Sos

namespace Mm

/-- When the answer to the last write of a page comes, and the page is not mapped, the slot gets
what the frame holds: the page has not changed since `nfs_write` was called for its batches. -/
def EvictsUnchanged (s : Mm) (a : Action) : Prop :=
  ∀ k status, a = .nfsReply k status → ∀ r ∈ s.requests[k]?, ∀ it ∈ s.findItem r.token,
    r.isWrite = true → it.toSwap = batchSize → it.processDeleted = false →
      s.isReferenced it = false → ∀ pte ∈ s.pagerTableLookup it.tid it.virtualAddress,
        Returned s it (clearLowerBits pte)

/-- A step after which every process finds what it has stored. -/
def KeepsStores (s : Mm) (a : Action) (s' : Mm) : Prop := KeepsPages s a s' ∧ s.EvictsUnchanged a

end Mm

section

variable {φ φ' : PageMap} {s s' σ σ' : Mm} {μ : Memory} {ls : List Label} {a : Action}

/-- The page of an item whose page is there. -/
theorem Inv.page_of_swapping (h : Inv φ s) {it : PageQueueItem} (hit : it ∈ s.swappingPages)
    (hdel : it.processDeleted = false) {r : SwapRequest} (hr : r ∈ s.requests)
    (htoken : r.token = it.id) (hwrite : r.isWrite = true) :
    ∃ pg f, it.For pg ∧ φ pg = .resident f true (.writing it) := by
  obtain ⟨pg, f, d, hpg | hpg⟩ := (h.queues.swapping_iff it hdel).mp hit
  · obtain ⟨rfl, -⟩ := h.queues.writing pg f d it hpg
    exact ⟨pg, f, (h.queues.page pg it (by rw [hpg]; rfl)).1, hpg⟩
  -- A page that is being read back has no writes on their way.
  · have hread := (h.queues.reading pg f d it hpg).2.read
    have hmem : r ∈ pending s.requests it.id := mem_pending.mpr ⟨hr, htoken⟩
    rw [hread, List.mem_singleton] at hmem
    rw [hmem] at hwrite
    cases hwrite

/-- The page that leaves its frame is the one that the condition is about. -/
theorem Allowed.returned (hinv : Inv φ σ) {it : PageQueueItem}
    (hP : Allowed s a φ σ (.answer it .evicted)) (hok : s.EvictsUnchanged a) {pg : Page} {f : Nat}
    (hpg : φ pg = .resident f true (.writing it)) (hhw : σ.hw pg.tid pg.addr = none)
    (hlast : it.toSwap - batchSize = 0) : Returned σ it f := by
  obtain ⟨k, status, r, rfl, hr, hfind, rfl⟩ := hP
  obtain ⟨hfor, hdel, -⟩ := hinv.queues.page pg it (by rw [hpg]; rfl)
  have htoken : it.id = r.token := by simpa using List.find?_some hfind
  -- The request that is answered is a write.
  have hmem : r ∈ pending σ.requests it.id :=
    mem_pending.mpr ⟨List.mem_of_getElem? hr, htoken.symm⟩
  obtain ⟨_, _, -, rfl⟩ := (hinv.queues.writing pg f true it hpg).2.write r hmem
  obtain ⟨hlook, hpage⟩ := hinv.lookup_resident hpg
  have hunref : σ.isReferenced it = false := by
    rw [Mm.isReferenced, hfor.1, hfor.2, hhw]
    rfl
  have hreturned := hok k status rfl _ hr it hfind rfl (by omega) hdel hunref _
    (by rw [hfor.1, hfor.2]; exact hlook)
  rwa [PageState.clearLowerBits_resident hpage] at hreturned

/-- The contents after a step whose answer, if it is one, meets the condition. -/
theorem Chain.stored (hc : Chain (Allowed s a) φ σ ls φ' σ') (hinv : Inv φ σ)
    (hok : s.KeepsStores a s') (hmapped : Mapped φ σ) (hμ : Contents φ μ σ) :
    Mapped φ' σ' ∧ Contents φ' (ls.foldl Label.remember μ) σ' := by
  induction hc generalizing μ with
  | nil => exact ⟨hmapped, hμ⟩
  | cons hP hm _ ih =>
      refine ih (hm.inv hinv) (hm.mapped hmapped hP hok.1.1) ?_
      refine hm.contents hinv hμ (hP.storeReaches hinv hmapped hok.1) ?_
      rintro it rfl pg f hpg hhw hlast
      exact hP.returned hinv hok.2 hpg hhw hlast

end

namespace Mm.Remembers

variable {s : Mm} {μ : Memory}

/-- The pages hold what has been stored, by induction on the run. -/
theorem stored (h : Remembers KeepsStores s μ) :
    ∃ φ, Inv φ s ∧ Clean φ ∧ Mapped φ s ∧ Contents φ μ s := by
  induction h with
  -- After booting nothing has been stored.
  | boot hb hs =>
      obtain ⟨s₁, hs₁, hbooted⟩ := Mm.boot_spec hb
      obtain rfl := Option.some.inj (hs₁.symm.trans hs)
      exact ⟨.empty, hbooted.inv, nofun, hbooted.mapped, Mm.Booted.contents _⟩
  | @step s s' μ a _ hs hok ih =>
      obtain ⟨φ, hinv, hclean, hmapped, hμ⟩ := ih
      obtain ⟨-, ls, φ', hp⟩ := step_spec hinv hclean hs
      have hok' : s.clear.KeepsStores a s' := hok
      obtain ⟨hmapped', hμ'⟩ := hp.chain.stored hinv.clear hok' hmapped.clear hμ
      refine ⟨φ', hp.chain.inv hinv.clear, hp.chain.clean hinv.clear hclean, hmapped', ?_⟩
      -- Of the chain only the moves of the action count.
      rwa [foldl_remember, hp.effects] at hμ'

/-- Where pages stay mapped while they are written, no page that has changed leaves its frame. -/
theorem keepsStores (h : Remembers KeepsMemory s μ) : Remembers KeepsStores s μ := by
  induction h with
  | boot hb hs => exact .boot hb hs
  | @step s s' μ a hrun hs hok ih =>
      refine ih.step hs ⟨hok.1, ?_⟩
      obtain ⟨φ, hinv, -, -, -, hcurrent⟩ := hrun.contents
      rintro k status rfl r hr it hfind hwrite hlast hdel hunref pte hpte
      have htoken : it.id = r.token := by simpa using List.find?_some hfind
      obtain ⟨pg, f, hfor, hpg⟩ := hinv.page_of_swapping (List.mem_of_find?_eq_some hfind) hdel
        (List.mem_of_getElem? hr) htoken.symm hwrite
      have hhw : s.hw pg.tid pg.addr = none := by
        rw [← hfor.1, ← hfor.2]
        exact Option.isNone_iff_eq_none.mp (Option.isSome_eq_false_iff.mp hunref)
      obtain ⟨hlook, hpage⟩ := hinv.lookup_resident hpg
      -- The entry of the page names the frame.
      rw [hfor.1, hfor.2, hlook] at hpte
      obtain rfl := Option.some.inj hpte
      rw [PageState.clearLowerBits_resident hpage]
      exact (hcurrent pg f it hpg hhw).returned (hinv.queues.writing pg f true it hpg).2 (by omega)

end Mm.Remembers

/-- The condition leaves out no answer that is harmless: when the last answer for a page comes, and
the page is not mapped but has changed, a byte of its slot is not what was stored. -/
theorem changed_page_lost {s s' : Mm} {μ : Memory} {k : Nat}
    (h : Mm.Remembers Mm.KeepsStores s μ) (hs : s.step (.nfsReply k .ok) = some s')
    (hchanged : ¬ s.EvictsUnchanged (.nfsReply k .ok)) :
    ∃ pg : Page, ∃ pte, s'.pagerTableLookup pg.tid pg.addr = some pte ∧ isSwapped pte = true ∧
      ∃ i < pageSize, s'.swapFile ((clearLowerBits pte : Nat) + i) ≠ μ pg.pid (pg.addr + i) := by
  obtain ⟨φ, hinv, -, -, hμ⟩ := h.stored
  simp only [Mm.EvictsUnchanged, Returned, not_forall, exists_prop] at hchanged
  obtain ⟨k, status, hk, r, hr, it, hfind, hwrite, hlast, hdel, hunref, pte, hpte, offset, data,
    hmem, i, hi, hne⟩ := hchanged
  cases hk
  have hlast' : it.toSwap - batchSize = 0 := by omega
  have htoken : it.id = r.token := by simpa using List.find?_some hfind
  obtain ⟨pg, f, hfor, hpg⟩ := hinv.page_of_swapping (List.mem_of_find?_eq_some hfind) hdel
    (List.mem_of_getElem? hr) htoken.symm hwrite
  have hwriting := (hinv.queues.writing pg f true it hpg).2
  -- The request that is answered is the only one that is left of the item.
  obtain ⟨l₁, l₂, hreq, herase⟩ := Mm.exists_of_getElem? hr
  obtain rfl : SwapRequest.write it.id offset data = r := by
    rw [hreq] at hwriting hmem
    by_contra hother
    exact hwriting.last htoken.symm hlast' _ ((mem_remove_iff hother).mpr hmem) rfl
  have hhw : s.hw pg.tid pg.addr = none := by
    rw [← hfor.1, ← hfor.2]
    exact Option.isNone_iff_eq_none.mp (Option.isSome_eq_false_iff.mp hunref)
  obtain ⟨b, frames, hb, -, hcallback⟩ :=
    hinv.clear.swapWriteCallback_evicted (l₁ ++ l₂) (Mm.writeFile s.swapFile offset data) hpg hlast'
      hhw
  have hexec : s.clear.nfsReply k .ok = some s' := (Mm.step_eq_some hs).2
  rw [Mm.nfsReply_write (s := s.clear) hr hfind herase] at hexec
  obtain rfl := Option.some.inj (hcallback.symm.trans hexec)
  -- The frame holds what has been stored, and the slot differs from it.
  obtain ⟨hlook, hpage⟩ := hinv.lookup_resident hpg
  have hslot : PageState.slot? (.resident f true (.writing it)) = some b := by
    rwa [PageState.slot?_writing, PageQueueItem.slot_eq_some]
  have hswapped := hpage.swapped hslot
  rw [hfor.1, hfor.2, hlook] at hpte
  obtain rfl := Option.some.inj hpte
  rw [PageState.clearLowerBits_resident hpage, hb] at hne
  refine ⟨pg, PageState.word (.swapped b), Mm.lookup_setEntry rfl (Mm.hasTable_of_lookup hlook),
    (PageState.isSwapped_word hswapped).mpr ⟨b, rfl⟩, i, hi, ?_⟩
  rw [PageState.clearLowerBits_swapped hswapped]
  exact fun heq => hne (heq.trans ((hμ pg).inFrame hpg nofun i hi).symm)

/-- A page is mapped, and its first byte is not what its process has stored. -/
def Mm.DiffersAt (s : Mm) (μ : Memory) (p v : Nat) : Prop :=
  (s.hw (threadId p) v).any fun m => s.phys m.frame ≠ μ p v

instance (s : Mm) (μ : Memory) (p v : Nat) : Decidable (s.DiffersAt μ p v) :=
  inferInstanceAs (Decidable (_ = true))

/-- Then not every page holds what has been stored. -/
theorem Mm.DiffersAt.not_kept {s : Mm} {μ : Memory} {p v : Nat} (h : s.DiffersAt μ p v)
    (hv : virtualStart ≤ v) (hall : ∀ p v m, virtualStart ≤ v → s.hw (threadId p) v = some m →
      ∀ i < pageSize, s.phys (m.frame + i) = μ p (v + i)) : False := by
  obtain ⟨m, hm, hne⟩ := (Option.any_eq_true ..).mp h
  exact of_decide_eq_true hne (hall p v m hv hm 0 (by decide))

/-- The page that has lost a store is read back for its process. -/
def readAfterLoss : List Action :=
  storedMeanwhile ++ (.fault 2 heapStart readable .plain :: eightReplies) ++
    [.fault 2 heapStart readable .plain]

end Sos
