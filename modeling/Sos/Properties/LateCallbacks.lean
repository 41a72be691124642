import Sos.Properties.Slots

/-!
# `Sos.Properties.LateCallbacks`: answers for the pages of a process that is gone

A process can be deleted while its pages are on their way to the swap file or back. The items
are flagged and their callbacks still run. Both callbacks begin with `pager_table_lookup` for
the page, before they look at the flag, and it follows the `page_index` of the slot.

`callback_safe_iff` says when that is a pointer: exactly while the slot is in use, by the same
process or by a new one. A slot that has been cleared and not been registered again has no
page table (`late_callback_follows_null`). What the callback does after the lookup is sound in
both cases: it fails only when it reads an error of the NFS server.
-/

set_option autoImplicit false

namespace Sos

namespace Mm

/-- The callback for an item of the swapping queue, as the `k`-th outstanding request is
answered, follows valid pointers and runs to its end. -/
structure CallbackSafe (s : Mm) (it : PageQueueItem) (k : Nat) (status : NfsStatus) : Prop where
  /-- `pager_table_lookup` reads the first level table of a process that has one. -/
  lookup : (s.getProcess it.tid).pageIndex.isSome = true
  /-- Where the callback follows the entry it has found, there is one, and no assertion
  fails. -/
  completes : ∃ s', s.step (.nfsReply k status) = some s'

/-- The slots that are in use have a page table, the others have none. -/
def IndexedWhileActive (s : Mm) : Prop :=
  ∀ p, 1 ≤ p → p < maxRunningProcess → (s.ptable p).pageIndex.isSome = (s.ptable p).isActive

/-- An item that is being swapped belongs to a slot, also when it is flagged. -/
def OwnedItems (s : Mm) : Prop :=
  ∀ it ∈ s.swappingPages, ∃ p, 1 ≤ p ∧ p < maxRunningProcess ∧ it.tid = threadId p

end Mm

section

variable {φ φ' : PageMap} {s s' : Mm} {ℓ : Label}

/-- After every move the active processes are those with a page table. -/
theorem Mm.IndexedWhileActive.move (h : s.IndexedWhileActive) (hm : Move φ s ℓ φ' s') :
    s'.IndexedWhileActive := by
  intro p h1 h2
  by_cases hreg : ℓ = .register p
  · subst hreg
    cases hm with
    | register _ _ _ hact _ hindex =>
        simp only [Function.update_self, hact, hindex, Option.isSome_some]
  · by_cases hdel : ℓ = .delete p
    · subst hdel
      cases hm with
      | delete => simp only [Function.update_self, Option.isSome_none]
    · have hsame := hm.sameThread hreg hdel
      rw [hsame.index, hsame.isActive]
      exact h p h1 h2

/-- The owner of an item does not change, and a new item has a page. -/
theorem Move.swapping_owner (hm : Move φ s ℓ φ' s') (hinv : Inv φ s) {it : PageQueueItem}
    (hit : it ∈ s'.swappingPages) :
    (∃ x ∈ s.swappingPages, x.tid = it.tid) ∨ it.processDeleted = false := by
  -- An answered item keeps its owner.
  have hreplace : ∀ {x it' : PageQueueItem}, x ∈ s.swappingPages → it'.tid = x.tid →
      it ∈ replaceItem s.swappingPages it' → ∃ x ∈ s.swappingPages, x.tid = it.tid := by
    intro x it' hx htid hmem
    obtain ⟨y, hy, rfl⟩ := List.mem_map.mp hmem
    split
    · exact ⟨x, hx, htid.symm⟩
    · exact ⟨y, hy, rfl⟩
  have hcancel : ∀ {p : Nat} {inRange : Nat → Bool},
      it ∈ s.swappingPages.map (Mm.cancelItem (threadId p) inRange) →
        ∃ x ∈ s.swappingPages, x.tid = it.tid := by
    intro p inRange hmem
    obtain ⟨y, hy, rfl⟩ := List.mem_map.mp hmem
    exact ⟨y, hy, (Mm.cancelItem_tid y).symm⟩
  cases hm with
  | writeOut _ hpg _ _ _ _ hit' =>
      rcases List.mem_append.mp hit with hold | hnew
      · exact Or.inl ⟨it, hold, rfl⟩
      · obtain ⟨-, hdel, -⟩ := hinv.queues.page _ _ (by rw [hpg]; rfl)
        rw [List.mem_singleton.mp hnew, hit']
        exact Or.inr hdel
  | readIn _ _ _ _ _ hdel =>
      rcases List.mem_append.mp hit with hold | hnew
      · exact Or.inl ⟨it, hold, rfl⟩
      · rw [List.mem_singleton.mp hnew]
        exact Or.inr hdel
  | ack _ hpg _ hit' =>
      exact Or.inl (hreplace (hinv.queues.swapping_of_writing hpg) (by rw [hit']) hit)
  | ackDoomed _ hx _ _ _ hit' => exact Or.inl (hreplace hx (by rw [hit']) hit)
  | arrive _ hpg _ hit' =>
      exact Or.inl (hreplace (hinv.queues.swapping_of_reading hpg) (by rw [hit']) hit)
  | evicted | restored | arrived | discardWrite | discardRead =>
      exact Or.inl ⟨it, (mem_removeItem.mp hit).1, rfl⟩
  | release _ _ _ hr =>
      rw [hr.swappingPages] at hit
      exact Or.inl (hcancel hit)
  | delete _ _ hr =>
      dsimp only at hit
      rw [hr.swappingPages] at hit
      exact Or.inl (hcancel hit)
  | _ => exact Or.inl ⟨it, hit, rfl⟩

/-- Every item that a move makes belongs to a slot of the table. -/
theorem Mm.OwnedItems.move (h : s.OwnedItems) (hinv : Inv φ s) (hm : Move φ s ℓ φ' s') :
    s'.OwnedItems := by
  intro it hit
  have hinv' := hm.inv hinv
  -- An item that is not flagged belongs to a page of a live process.
  have hunflagged : it.processDeleted = false →
      ∃ p, 1 ≤ p ∧ p < maxRunningProcess ∧ it.tid = threadId p := by
    intro hdel
    obtain ⟨pg, f, d, hpg⟩ := (hinv'.queues.swapping_iff it hdel).mp hit
    have hlive : LiveIn s'.ptable pg.pid := hinv'.tables.live pg (by
      rcases hpg with hpg | hpg
      · rw [hpg]
        exact nofun
      · rw [hpg]
        exact nofun)
    have hfor := (hinv'.queues.page pg it (by
      rcases hpg with hpg | hpg
      · rw [hpg]
        rfl
      · rw [hpg]
        rfl)).1
    exact ⟨pg.pid, hlive.1, hlive.2.1, hfor.1⟩
  rcases hm.swapping_owner hinv hit with ⟨x, hx, htid⟩ | hdel
  · obtain ⟨p, h1, h2, hp⟩ := h x hx
    exact ⟨p, h1, h2, htid ▸ hp⟩
  · exact hunflagged hdel

/-- By induction on the run, whatever its steps are. -/
theorem Mm.Reachable.callbacks {ok : Mm → Action → Mm → Prop} (h : s.Reachable ok) :
    ∃ φ, Inv φ s ∧ Clean φ ∧ s.IndexedWhileActive ∧ s.OwnedItems := by
  refine h.induction (fun _ s => s.IndexedWhileActive ∧ s.OwnedItems) (fun s hs => ⟨?_, ?_⟩) ?_
  · intro p h1 _
    rw [hs.index, (hs.entry p (by omega)).1]
    rfl
  · intro it hit
    rw [hs.swappingPages] at hit
    cases hit
  · rintro φ s a s' hinv - ⟨hindex, hitems⟩ - - ls φ' hp
    exact hp.chain.induction (I := fun _ s => s.IndexedWhileActive ∧ s.OwnedItems) hinv.clear
      ⟨hindex, hitems⟩ fun φ σ ℓ φ' σ' hinv hI _ hm => ⟨hI.1.move hm, hI.2.move hinv hm⟩

/-- A callback that reads no error runs to its end. -/
theorem Inv.callback_completes_iff (h : Inv φ s) {k : Nat} {r : SwapRequest} {it : PageQueueItem}
    (status : NfsStatus) (hr : s.requests[k]? = some r) (hit : s.findItem r.token = some it) :
    (∃ s', s.step (.nfsReply k status) = some s') ↔
      status = .ok ∨ (r.isWrite = false ∧ it.processDeleted = true) := by
  have hen : s.Enabled (.nfsReply k status) := (List.getElem?_eq_some_iff.mp hr).1
  rw [Mm.step, if_pos hen]
  show (∃ s', s.clear.nfsReply k status = some s') ↔ _
  have hr' : s.clear.requests[k]? = some r := hr
  have hit' : s.clear.findItem r.token = some it := hit
  by_cases hst : status = .ok
  · rcases nfsReply_spec h.clear status hr' hit' with ⟨s', -, -, hs', -⟩ | ⟨hne, -⟩
    · exact ⟨fun _ => Or.inl hst, fun _ => ⟨s', hs'⟩⟩
    · exact absurd hst hne
  · simp only [hst, false_or]
    cases r with
    | write id offset data =>
        simp [Mm.nfsReply_write_error hr' hit' hst, SwapRequest.isWrite]
    -- The callback for a read looks at the status behind the test for a dropped item.
    | read id offset count =>
        obtain ⟨l₁, l₂, -, herase⟩ := Mm.exists_of_getElem? hr'
        rw [Mm.nfsReply_read status hr' hit' herase]
        cases hdel : it.processDeleted with
        | true => simp [Mm.swapReadCallback, hdel, SwapRequest.isWrite]
        | false =>
            cases status with
            | ok => exact absurd rfl hst
            | noSpace => simp [Mm.swapReadCallback, hdel]
            | error => simp [Mm.swapReadCallback, hdel]

end

/-! ### The main result -/

/-- Every answer of the NFS server for the swap file has its item. The callback is safe if and
only if the slot of the page's process is in use, and the server has not reported an error that
the callback reads: the one for a read whose page is gone does not. -/
theorem callback_safe_iff {ok : Mm → Action → Mm → Prop} {s : Mm} (h : s.Reachable ok) :
    ∀ k < s.requests.length, ∃ r it, s.requests[k]? = some r ∧ s.findItem r.token = some it ∧
      ∀ status, s.CallbackSafe it k status ↔
        (s.getProcess it.tid).isActive = true ∧
          (status = .ok ∨ (r.isWrite = false ∧ it.processDeleted = true)) := by
  obtain ⟨φ, hinv, -, hindex, hitems⟩ := h.callbacks
  intro k hk
  have hr : s.requests[k]? = some s.requests[k] := List.getElem?_eq_getElem hk
  -- The item of a request under way is still in a queue: only the callback removes it.
  obtain ⟨it, hit⟩ : ∃ it, s.findItem s.requests[k].token = some it := by
    obtain ⟨it, hm, hid⟩ := hinv.queues.owner _ (List.getElem_mem hk)
    rw [← Option.isSome_iff_exists, Mm.findItem, List.find?_isSome]
    exact ⟨it, hm, by simpa using hid⟩
  refine ⟨_, it, hr, hit, fun status => ?_⟩
  obtain ⟨p, h1, h2, htid⟩ := hitems it (findItem_spec hit).1
  -- The page index is set just while the slot is active.
  have hlookup : (s.getProcess it.tid).pageIndex.isSome = (s.getProcess it.tid).isActive := by
    rw [Mm.getProcess, htid, tid2pid_threadId]
    exact hindex p h1 h2
  have hcompletes := hinv.callback_completes_iff status hr hit
  constructor
  · rintro ⟨hsome, hs⟩
    exact ⟨hlookup ▸ hsome, hcompletes.mp hs⟩
  · rintro ⟨hact, hstatus⟩
    exact ⟨hlookup ▸ hact, hcompletes.mpr hstatus⟩

/-- The first page of process 1 is being written to the swap file when process 2 kills it. -/
def ownerGone : List Action := threeFaults ++ [.createProcess [116] 0, .deleteProcess 2 1]

/-- The answer for a page of a process that is gone arrives when its slot is used again. -/
theorem callback_safe_iff_slotReused :
    ∃ s, Mm.runOn Mm.anyStep (.small 2)
        (ownerGone ++ List.replicate 126 (.createProcess [117] 0)) = some s ∧
      ∃ it, (∃ r, s.requests[0]? = some r ∧ s.findItem r.token = some it) ∧
        it.processDeleted = true ∧ it.tid = threadId 1 ∧ s.CallbackSafe it 0 .ok := by
  obtain ⟨s, hs, hreach, hlength, hreused⟩ := Mm.exists_runOn Mm.anyStep
    (Mm.Boot.small_ok Nat.two_pos (by decide))
    (ownerGone ++ List.replicate 126 (.createProcess [117] 0))
    (fun s => 0 < s.requests.length ∧ ∀ r ∈ s.requests[0]?, ∀ it ∈ s.findItem r.token,
      it.processDeleted = true ∧ it.tid = threadId 1 ∧
        (s.getProcess it.tid).isActive = true) (by decide +kernel)
  obtain ⟨r, it, hr, hit, hsafe⟩ := callback_safe_iff hreach 0 hlength
  obtain ⟨hdeleted, htid, hactive⟩ := hreused r hr it hit
  exact ⟨s, hs, it, ⟨r, hr, hit⟩, hdeleted, htid, (hsafe .ok).mpr ⟨hactive, Or.inl rfl⟩⟩

/-- The answers for the pages of a process that is gone arrive before its slot is used again:
the lookup follows the null pointer. -/
theorem late_callback_follows_null :
    ¬ ∀ s : Mm, s.Reachable Mm.anyStep → ∀ k r it, s.requests[k]? = some r →
      s.findItem r.token = some it → s.CallbackSafe it k .ok := by
  intro hall
  obtain ⟨s, -, hreach, hlength, hgone⟩ := Mm.exists_runOn Mm.anyStep
    (Mm.Boot.small_ok Nat.two_pos (by decide)) ownerGone
    (fun s => 0 < s.requests.length ∧ ∀ r ∈ s.requests[0]?, ∀ it ∈ s.findItem r.token,
      (s.getProcess it.tid).isActive = false) (by decide +kernel)
  obtain ⟨r, it, hr, hit, hsafe⟩ := callback_safe_iff hreach 0 hlength
  have hactive := ((hsafe .ok).mp (hall s hreach 0 r it hr hit)).1
  rw [hgone r hr it hit] at hactive
  cases hactive

end Sos
