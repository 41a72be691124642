import Sos.Properties.Slots

/-!
# `Sos.Properties.Wakeups`: every unanswered page fault is answered once

`pager` leaves a thread without an answer when it has to wait for the swap file. Then exactly
one item in the swapping queue answers it with its last callback (`no_wakeup_lost`): the item
of its own page on the way in, or the item of the page that is written out to make room for it.

This needs that no callback drops the promise. `swap_write_callback` does when the owner of
the victim was deleted in the meantime: the item is flagged, its page is not mapped, and the
initiator is forgotten (`initiator_stranded`).

`Settled` is the invariant of the moves, `Mm.Answers` is what it says in the words of the code.
-/

set_option autoImplicit false

namespace Sos

namespace Mm

/-- The item will answer the page fault of a thread with its last callback: as the item of the
page the thread waits for, or as the item of the page that makes room for it. -/
def Answers (s : Mm) (it : PageQueueItem) (t : ThreadId) : Prop :=
  (it.processDeleted = false ∧ it.tid = t ∧ ∃ r ∈ s.requests, r.token = it.id ∧ r.isWrite = false) ∨
    (it.initiator = t ∧ ∃ r ∈ s.requests, r.token = it.id ∧ r.isWrite = true)

/-- The answer to a request is the last one its item waits for. -/
def LastAnswer (r : SwapRequest) (it : PageQueueItem) : Prop :=
  if r.isWrite then it.toSwap = batchSize else it.toSwap + batchSize = pageSize

instance (r : SwapRequest) (it : PageQueueItem) : Decidable (LastAnswer r it) := by
  unfold LastAnswer
  infer_instance

/-- `swap_out` has found a page and a slot, and the last write of a flagged item that is
acknowledged has no initiator, unless its page is mapped. -/
def KeepsPromises (s : Mm) (a : Action) (s' : Mm) : Prop :=
  (Event.kdbEnter outOfSwapMessage ∉ s'.outbox ∧ Event.kdbEnter outOfFramesMessage ∉ s'.outbox) ∧
    ∀ k status, a = .nfsReply k status → ∀ r ∈ s.requests[k]?, ∀ it ∈ s.findItem r.token,
      r.isWrite = true → it.toSwap = batchSize → it.processDeleted = true →
        s.isReferenced it = false → it.initiator = nilthread

instance (s : Mm) (a : Action) (s' : Mm) : Decidable (KeepsPromises s a s') := by
  refine @instDecidableAnd _ _ _ ?_
  match a with
  | .nfsReply k status =>
      refine decidable_of_iff (∀ r ∈ s.requests[k]?, ∀ it ∈ s.findItem r.token,
        r.isWrite = true → it.toSwap = batchSize → it.processDeleted = true →
          s.isReferenced it = false → it.initiator = nilthread) ⟨?_, ?_⟩
      · rintro h _ _ ⟨⟩
        exact h
      · exact fun h => h k status rfl
  | .fault .. | .store .. | .unmapAll _ | .startProcess .. | .deleteProcess .. | .waitProcess ..
  | .createProcess .. => exact .isTrue nofun

/-- Every live thread blocked on a page fault has an item to answer it, but for the thread
whose fault is being handled. -/
def Settled (s : Mm) (handled : Nat → Prop) : Prop :=
  ∀ p, s.Live p → ¬ handled p → s.wait (threadId p) = .fault →
    ∃ id, Serves s.swappingPages s.requests (threadId p) id

end Mm

/-! ### Which thread an item serves -/

section

variable {φ φ' : PageMap} {s s' : Mm} {t : ThreadId} {id : Nat} {it : PageQueueItem}
  {r : SwapRequest} {l₁ l₂ : List SwapRequest}

/-- An item on its way out serves its initiator. -/
theorem Inv.initiator_of_serves (h : Inv φ s) (hm : it ∈ s.swappingPages)
    (hw : Writing it s.requests) (hs : Serves s.swappingPages s.requests t it.id) :
    it.initiator = t := by
  obtain ⟨x, hx, hid, hs⟩ := hs
  obtain rfl := h.queues.eq_of_id (List.mem_append_right _ hx) (List.mem_append_right _ hm) hid
  rcases hs with ⟨-, -, r, hr, htok, hread⟩ | ⟨hi, -⟩
  · obtain ⟨i, data, -, rfl⟩ := hw.write r (mem_pending.mpr ⟨hr, htok⟩)
    cases hread
  · exact hi

/-- An item on its way in serves its owner, if it is not flagged. -/
theorem Inv.owner_of_serves (h : Inv φ s) (hm : it ∈ s.swappingPages)
    (hrd : Reading it s.requests) (hs : Serves s.swappingPages s.requests t it.id) :
    it.processDeleted = false ∧ it.tid = t := by
  obtain ⟨x, hx, hid, hs⟩ := hs
  obtain rfl := h.queues.eq_of_id (List.mem_append_right _ hx) (List.mem_append_right _ hm) hid
  rcases hs with ⟨hd, ht, -⟩ | ⟨-, r, hr, htok, hwrite⟩
  · exact ⟨hd, ht⟩
  · have hp : r ∈ pending s.requests x.id := mem_pending.mpr ⟨hr, htok⟩
    rw [hrd.read, List.mem_singleton] at hp
    rw [hp] at hwrite
    cases hwrite

/-- The other items go on serving. -/
theorem Serves.other {swapping swapping' : List PageQueueItem} {requests' : List SwapRequest}
    (hs : Serves swapping (l₁ ++ r :: l₂) t id) (hne : id ≠ r.token)
    (hitem : ∀ x ∈ swapping, x.id ≠ r.token → x ∈ swapping')
    (hreq : ∀ r' ∈ l₁ ++ l₂, r' ∈ requests') : Serves swapping' requests' t id := by
  obtain ⟨x, hx, rfl, hs⟩ := hs
  have hkeep : ∀ r' ∈ l₁ ++ r :: l₂, r'.token = x.id → r' ∈ requests' := by
    intro r' hr' htok
    refine hreq r' ?_
    simp only [List.mem_append, List.mem_cons] at hr' ⊢
    rcases hr' with hr' | rfl | hr'
    · exact Or.inl hr'
    · exact absurd htok.symm hne
    · exact Or.inr hr'
  refine ⟨x, hitem x hx hne, rfl, ?_⟩
  rcases hs with ⟨hd, ht, r', hr', htok, hw⟩ | ⟨hi, r', hr', htok, hw⟩
  · exact Or.inl ⟨hd, ht, r', hkeep r' hr' htok, htok, hw⟩
  · exact Or.inr ⟨hi, r', hkeep r' hr' htok, htok, hw⟩

/-- More items and requests do not end a service. -/
theorem Serves.append {swapping : List PageQueueItem} {requests : List SwapRequest}
    (hs : Serves swapping requests t id) (more : List PageQueueItem) (sent : List SwapRequest) :
    Serves (swapping ++ more) (requests ++ sent) t id := by
  obtain ⟨x, hx, hid, hs⟩ := hs
  refine ⟨x, List.mem_append_left _ hx, hid, ?_⟩
  rcases hs with ⟨hd, ht, r', hr', htok, hw⟩ | ⟨hi, r', hr', htok, hw⟩
  · exact Or.inl ⟨hd, ht, r', List.mem_append_left _ hr', htok, hw⟩
  · exact Or.inr ⟨hi, r', List.mem_append_left _ hr', htok, hw⟩

/-- Flagging the items of another process does not end a service. -/
theorem Serves.cancel {p q : Nat} {inRange : Nat → Bool} (hne : q ≠ p)
    (hs : Serves s.swappingPages s.requests (threadId q) id) :
    Serves (s.swappingPages.map (Mm.cancelItem (threadId p) inRange)) s.requests (threadId q)
      id := by
  have hne' : threadId p ≠ threadId q := fun he => hne (threadId_inj he).symm
  obtain ⟨x, hx, hid, hs⟩ := hs
  refine ⟨_, List.mem_map_of_mem hx, (Mm.cancelItem_id x).trans hid, ?_⟩
  rcases hs with ⟨hd, ht, hr⟩ | ⟨hi, hr⟩
  · refine Or.inl ⟨?_, (Mm.cancelItem_tid x).trans ht, hr⟩
    rw [Bool.eq_false_iff]
    intro hflag
    rcases (Mm.cancelItem_processDeleted x).mp hflag with hflag | ⟨he, -⟩
    · rw [hd] at hflag
      cases hflag
    · exact hne' (he.trans ht)
  · refine Or.inr ⟨?_, hr⟩
    rw [Mm.cancelItem_initiator, if_neg fun he => hne' (he.1.trans hi)]
    exact hi

/-- An item with writes left serves its initiator. -/
theorem Inv.serves_more (h : Inv φ s) (hreq : s.requests = l₁ ++ r :: l₂) (htok : r.token = it.id)
    (hm : it ∈ s.swappingPages) (hw : Writing it s.requests) (hmore : it.toSwap - batchSize ≠ 0)
    {it' : PageQueueItem} (hit : it' = { it with toSwap := it.toSwap - batchSize })
    (hs : Serves s.swappingPages s.requests t it.id) :
    Serves (replaceItem s.swappingPages it') (l₁ ++ l₂) t it.id := by
  have hi := h.initiator_of_serves hm hw hs
  have hid : it'.id = it.id := by rw [hit]
  rw [hreq] at hw
  have hleft := hw.more htok hmore
  obtain ⟨r', hr'⟩ := List.exists_mem_of_ne_nil _ hleft.some
  obtain ⟨i, data, -, he⟩ := hleft.write r' hr'
  obtain ⟨hr', htok'⟩ := mem_pending.mp hr'
  refine ⟨it', ((h.queues.replace hm hid).2 it').mpr (Or.inr rfl), hid, Or.inr ⟨?_, r', hr', htok',
    by rw [he]; rfl⟩⟩
  rw [hit]
  exact hi

/-! ### Moves keep the promises -/

variable {handled : Nat → Prop}

/-- Threads that are still blocked have kept an item. -/
theorem Mm.Settled.mono (h : s.Settled handled) (hlive : ∀ p, s'.Live p → s.Live p)
    (hkeep : ∀ p, s'.Live p → s'.wait (threadId p) = .fault → s.wait (threadId p) = .fault ∧
      ∀ id, Serves s.swappingPages s.requests (threadId p) id →
        ∃ id', Serves s'.swappingPages s'.requests (threadId p) id') : s'.Settled handled := by
  intro p hp hnot hw
  obtain ⟨hw₀, hserves⟩ := hkeep p hp hw
  obtain ⟨id, hs⟩ := h p (hlive p hp) hnot hw₀
  exact hserves id hs

/-- A woken thread is not blocked, the others are as before. -/
theorem Mm.wake_wait {t' : ThreadId} (hw : (s.wake t).wait t' = .fault) :
    s.wait t' = .fault ∧ (t ≠ nilthread → t' ≠ t) := by
  unfold Mm.wake at hw
  dsimp only at hw
  split at hw
  next hne =>
    by_cases he : t' = t
    · rw [he, Function.update_self] at hw
      cases hw
    · rw [Function.update_of_ne he] at hw
      exact ⟨hw, fun _ => he⟩
  next hne => exact ⟨hw, fun hn => absurd hn hne⟩

/-- An item leaves, and the thread it serves is woken up. -/
theorem Mm.Settled.wake {σ : Mm} (h : s.Settled handled) (hreq : s.requests = l₁ ++ r :: l₂)
    (htok : r.token = it.id) (hlive : ∀ p, (σ.wake t).Live p → s.Live p) (hwait : σ.wait = s.wait)
    (hswapping : σ.swappingPages = removeItem s.swappingPages it.id)
    (hrequests : σ.requests = l₁ ++ l₂)
    (hserved : ∀ p, Serves s.swappingPages s.requests (threadId p) it.id → t = threadId p) :
    (σ.wake t).Settled handled := by
  refine h.mono hlive fun p _ hw => ?_
  obtain ⟨hw₀, hnot⟩ := Mm.wake_wait hw
  rw [hwait] at hw₀
  refine ⟨hw₀, fun id hs => ⟨id, ?_⟩⟩
  show Serves σ.swappingPages σ.requests (threadId p) id
  rw [hswapping, hrequests]
  have hne : id ≠ r.token := by
    rintro rfl
    rw [htok] at hs
    have he := hserved p hs
    exact hnot (he ▸ threadId_ne_nilthread p) he.symm
  rw [hreq] at hs
  exact hs.other hne (fun x hx hxi => mem_removeItem.mpr ⟨hx, htok ▸ hxi⟩) fun _ hr' => hr'

/-- An item stays, and serves the thread it served. -/
theorem Mm.Settled.replace {it' : PageQueueItem} {requests' : List SwapRequest}
    (h : s.Settled handled) (hreq : s.requests = l₁ ++ r :: l₂) (htok : r.token = it.id)
    (hid : it'.id = it.id) (hlive : ∀ p, s'.Live p → s.Live p) (hwait : s'.wait = s.wait)
    (hswapping : s'.swappingPages = replaceItem s.swappingPages it')
    (hrequests : s'.requests = requests') (hsub : ∀ r' ∈ l₁ ++ l₂, r' ∈ requests')
    (hserved : ∀ p, Serves s.swappingPages s.requests (threadId p) it.id →
      Serves (replaceItem s.swappingPages it') requests' (threadId p) it.id) :
    s'.Settled handled := by
  refine h.mono hlive fun p _ hw => ?_
  rw [hwait] at hw
  refine ⟨hw, fun id hs => ⟨id, ?_⟩⟩
  rw [hswapping, hrequests]
  by_cases he : id = r.token
  · rw [he, htok] at hs ⊢
    exact hserved p hs
  · rw [hreq] at hs
    refine hs.other he (fun x hx hxi => ?_) hsub
    rw [replaceItem, List.mem_map]
    exact ⟨x, hx, if_neg (by rwa [hid, ← htok])⟩

/-- Every move keeps the promises, but for the last callback of a flagged item that forgets its
initiator. -/
theorem Move.settled {ℓ : Label} (hinv : Inv φ s) (h : s.Settled handled)
    (hm : Move φ s ℓ φ' s') (hfault : ∀ p, ℓ = .fault p → handled p)
    (hanswer : ∀ it, ℓ = .answer it .discarded → Writing it s.requests →
      it.toSwap = batchSize → it.processDeleted = true → s.isReferenced it = false →
        it.initiator = nilthread) : s'.Settled handled := by
  have hlive : (∀ p, ℓ ≠ .register p) → ∀ p, s'.Live p → s.Live p :=
    fun hreg p => hm.live (hreg p)
  have hm₀ := hm
  cases hm with
  | unmap | requeue | evict | lose | noPage | entry | touch | touchPinned | dirty | map | mapPhys
  | store | registerFull | start | say =>
      exact h.mono (hlive nofun) fun p _ hw => ⟨hw, fun id hs => ⟨id, hs⟩⟩
  -- New requests come behind the outstanding ones.
  | writeOut | readIn =>
      exact h.mono (hlive nofun) fun p _ hw => ⟨hw, fun id hs => ⟨id, hs.append _ _⟩⟩
  | @fault p =>
      intro q hq hnot hw
      have hne : q ≠ p := fun he => hnot (he ▸ hfault p rfl)
      have hw₀ : s.wait (threadId q) = .fault := by
        dsimp only at hw
        rwa [Function.update_of_ne fun he => hne (threadId_inj he)] at hw
      exact h q hq hnot hw₀
  | @setWait p w _ _ hne =>
      refine h.mono (hlive nofun) fun q _ hw => ⟨?_, fun id hs => ⟨id, hs⟩⟩
      dsimp only at hw
      by_cases he : q = p
      · rw [he, Function.update_self] at hw
        exact absurd hw hne
      · rwa [Function.update_of_ne fun ht => he (threadId_inj ht)] at hw
  | @setWaitFor p _ w _ _ _ hne =>
      refine h.mono (hlive nofun) fun q _ hw => ⟨?_, fun id hs => ⟨id, hs⟩⟩
      dsimp only at hw
      by_cases he : q = p
      · rw [he, Function.update_self] at hw
        exact absurd hw hne
      · rwa [Function.update_of_ne fun ht => he (threadId_inj ht)] at hw
  -- The item is still being written, and serves its initiator.
  | @ack l₁ l₂ it it' pg f _ _ hreq hpg hmore hit =>
      have hm := hinv.queues.swapping_of_writing hpg
      have hw := (hinv.queues.writing pg f true it hpg).2
      refine h.replace hreq rfl (by rw [hit]) (hlive nofun) rfl rfl rfl (fun _ hr' => hr') ?_
      exact fun p hs => hinv.serves_more hreq rfl hm hw hmore hit hs
  | @ackDoomed l₁ l₂ it it' _ _ hreq hm _ hw hmore hit =>
      refine h.replace hreq rfl (by rw [hit]) (hlive nofun) rfl rfl rfl (fun _ hr' => hr') ?_
      exact fun p hs => hinv.serves_more hreq rfl hm hw hmore hit hs
  | @arrive l₁ l₂ it it' pg f hreq hpg _ hit =>
      have hm := hinv.queues.swapping_of_reading hpg
      have hrd := (hinv.queues.reading pg f false it hpg).2
      refine h.replace hreq rfl (by rw [hit]) (hlive nofun) rfl rfl rfl
        (fun _ hr' => List.mem_append_left _ hr') fun p hs => ?_
      obtain ⟨hd, ht⟩ := hinv.owner_of_serves hm hrd hs
      have hid : it'.id = it.id := by rw [hit]
      refine ⟨it', ((hinv.queues.replace hm hid).2 it').mpr (Or.inr rfl), hid,
        Or.inl ⟨by rw [hit]; exact hd, by rw [hit]; exact ht, _,
          List.mem_append_right _ List.mem_cons_self, hid, rfl⟩⟩
  -- The last answer: the thread that is woken up is the one that was served.
  | @evicted l₁ l₂ it pg f _ _ _ _ hreq hpg =>
      have hm := hinv.queues.swapping_of_writing hpg
      have hw := (hinv.queues.writing pg f true it hpg).2
      exact h.wake hreq rfl (hlive nofun) rfl rfl rfl fun p hs => hinv.initiator_of_serves hm hw hs
  | @restored l₁ l₂ it _ pg f _ _ hreq hpg =>
      have hm := hinv.queues.swapping_of_writing hpg
      have hw := (hinv.queues.writing pg f true it hpg).2
      exact h.wake hreq rfl (hlive nofun) rfl rfl rfl fun p hs => hinv.initiator_of_serves hm hw hs
  | @arrived l₁ l₂ it _ pg f hreq hpg =>
      have hm := hinv.queues.swapping_of_reading hpg
      have hrd := (hinv.queues.reading pg f false it hpg).2
      exact h.wake hreq rfl (hlive nofun) rfl rfl rfl fun p hs =>
        (hinv.owner_of_serves hm hrd hs).2
  -- Nobody is woken up when the page is not mapped, and `hanswer` says that nobody waits.
  | @discardWrite l₁ l₂ it _ _ hreq hm hdel hw hlast =>
      refine h.wake hreq rfl (hlive nofun) rfl rfl rfl fun p hs => ?_
      have hi := hinv.initiator_of_serves hm hw hs
      split
      · exact hi
      next href =>
        have hnil := hanswer it rfl hw (by omega) hdel (Bool.eq_false_iff.mpr href)
        rw [hi] at hnil
        exact absurd hnil (threadId_ne_nilthread p)
  | @discardRead l₁ l₂ it _ _ hreq hm hdel hrd =>
      refine h.wake hreq rfl (hlive nofun) rfl rfl rfl fun p hs => ?_
      have hd := (hinv.owner_of_serves hm hrd hs).1
      rw [hdel] at hd
      cases hd
  -- Flagged items still serve the threads of the other processes.
  | @release p _ _ s' _ hwait _ hr =>
      refine h.mono (hlive nofun) fun q _ hw => ?_
      rw [hr.wait] at hw
      have hne : q ≠ p := by
        rintro rfl
        exact hwait hw
      refine ⟨hw, fun id hs => ⟨id, ?_⟩⟩
      rw [hr.swappingPages, hr.requests]
      exact hs.cancel hne
  | @delete p s' _ _ hr =>
      refine h.mono (hlive nofun) fun q hq hw => ?_
      have hne : q ≠ p := by
        rintro rfl
        have hact := hq.2.2.1
        simp only [Function.update_self, Bool.false_eq_true] at hact
      have hw₀ : s.wait (threadId q) = .fault := by
        dsimp only at hw
        rwa [Function.update_of_ne fun ht => hne (threadId_inj ht), hr.wait] at hw
      refine ⟨hw₀, fun id hs => ⟨id, ?_⟩⟩
      show Serves s'.swappingPages s'.requests (threadId q) id
      rw [hr.swappingPages, hr.requests]
      exact hs.cancel hne
  -- The new process is ready, whatever its slot has waited for.
  | @register p _ P h1 _ _ _ htid =>
      have hother : ∀ q, 1 ≤ q → q ≠ p → threadId q ≠ P.tid := by
        rintro q hq hne he
        rcases htid with htid | htid
        · exact hne (threadId_inj (he.trans htid))
        · have hzero : threadId q = threadId 0 := he.trans htid
          rw [threadId_inj hzero] at hq
          exact absurd hq (by decide)
      intro q hq hnot hw
      by_cases hqp : q = p
      · subst hqp
        have htid' := hq.2.2.2
        simp only [Function.update_self] at htid' hw
        rw [htid', Function.update_self] at hw
        cases hw
      · have hlive₀ : s.Live q := hm₀.live (fun he => hqp (Label.register.inj he).symm) hq
        have hw₀ : s.wait (threadId q) = .fault := by
          dsimp only at hw
          rwa [Function.update_of_ne (hother q hq.1 hqp)] at hw
        exact h q hlive₀ hnot hw₀

end

/-! ### What is sent -/

section

variable {φ φ' : PageMap} {s s' : Mm}

/-- Waking a thread sends one reply, and that to the thread. -/
theorem Mm.mem_wake_outbox {σ : Mm} {t t' : ThreadId} {words : List Int}
    (h : Event.reply t' pagefaultLabel words ∈ (σ.wake t).outbox) :
    Event.reply t' pagefaultLabel words ∈ σ.outbox ∨ (t ≠ nilthread ∧ t' = t) := by
  unfold Mm.wake at h
  dsimp only at h
  split at h
  next hne =>
    rcases List.mem_append.mp h with h | h
    · exact Or.inl h
    · exact Or.inr ⟨hne, (Event.reply.inj (List.mem_singleton.mp h)).1⟩
  next => exact Or.inl h

/-- The answer to a page fault is sent by a callback, to a thread that is blocked on one. -/
theorem Move.reply {ℓ : Label} (hinv : Inv φ s) (hm : Move φ s ℓ φ' s') {t : ThreadId}
    {words : List Int} (h : Event.reply t pagefaultLabel words ∈ s'.outbox) :
    Event.reply t pagefaultLabel words ∈ s.outbox ∨
      ((∃ it kind, ℓ = .answer it kind) ∧ ∃ p, s.Live p ∧ t = threadId p ∧ s.wait t = .fault) := by
  -- A thread that is woken up was served, and so it was waiting for a page.
  have hwoken : ∀ {σ : Mm} {t₁ : ThreadId} {it kind}, ℓ = .answer it kind →
      σ.outbox = s.outbox →
      (t₁ ≠ nilthread → Serves s.swappingPages s.requests t₁ it.id) →
      Event.reply t pagefaultLabel words ∈ (σ.wake t₁).outbox →
      Event.reply t pagefaultLabel words ∈ s.outbox ∨
        ((∃ it kind, ℓ = .answer it kind) ∧ ∃ p, s.Live p ∧ t = threadId p ∧ s.wait t = .fault) := by
    intro σ t₁ it kind hℓ houtbox hserves hsent
    rcases Mm.mem_wake_outbox hsent with hold | ⟨hne, rfl⟩
    · exact Or.inl (houtbox ▸ hold)
    · exact Or.inr ⟨⟨it, kind, hℓ⟩, hinv.roles.waits t it.id hne (hserves hne)⟩
  cases hm with
  | unmap | requeue | evict | writeOut | entry | touch | touchPinned | readIn | dirty | map
  | mapPhys | store | ack | ackDoomed | arrive | register | registerFull | start | fault
  | setWait | setWaitFor => exact Or.inl h
  | lose | noPage =>
      rcases List.mem_append.mp h with h | h
      · exact Or.inl h
      · cases List.mem_singleton.mp h
  | say hev =>
      rcases List.mem_append.mp h with h | h
      · exact Or.inl h
      · exact absurd (List.mem_singleton.mp h).symm (hev t words)
  | release _ _ _ hr => exact Or.inl (hr.outbox ▸ h)
  | delete _ _ hr =>
      rcases List.mem_append.mp h with h | h
      · exact Or.inl (hr.outbox ▸ h)
      · cases List.mem_singleton.mp h
  | evicted hreq hpg =>
      exact hwoken rfl rfl (fun _ => Inv.serves_initiator hreq
        (hinv.queues.swapping_of_writing hpg) rfl rfl) h
  | restored hreq hpg =>
      exact hwoken rfl rfl (fun _ => Inv.serves_initiator hreq
        (hinv.queues.swapping_of_writing hpg) rfl rfl) h
  | arrived hreq hpg =>
      have hdel := (hinv.queues.page _ _ (by rw [hpg]; rfl)).2.1
      exact hwoken rfl rfl (fun _ => Inv.serves_owner hreq
        (hinv.queues.swapping_of_reading hpg) hdel rfl rfl) h
  | discardWrite hreq hm =>
      refine hwoken rfl rfl (fun hne => ?_) h
      split at hne
      next href =>
        rw [if_pos href]
        exact Inv.serves_initiator hreq hm rfl rfl
      next => exact absurd rfl hne
  | discardRead => exact hwoken rfl rfl (fun hne => absurd rfl hne) h

end

/-! ### Runs -/

/-- By induction on the run: every thread that waits has its item. -/
theorem Mm.Reachable.settled {s : Mm} (h : s.Reachable Mm.KeepsPromises) :
    ∃ φ, Inv φ s ∧ Clean φ ∧ s.Settled fun _ => False := by
  refine h.induction (fun _ s => s.Settled fun _ => False) (fun s hs p _ _ hw => ?_) ?_
  · rw [hs.wait] at hw
    cases hw
  intro φ s a s' hinv _ hI _ hok ls φ' hp
  have hsettled : s'.Settled fun p => ∃ addr access env, a = .fault p addr access env := by
    refine hp.chain.induction (I := fun _ s => s.Settled _) hinv.clear
      (fun p hl _ hw => hI p hl id hw) fun φ₁ σ ℓ φ₂ σ' hinv₁ hI₁ hP hm => ?_
    refine hm.settled hinv₁ hI₁ ?_ ?_
    · rintro p rfl
      exact hP
    · rintro it rfl hw hlast hdel href
      obtain ⟨k, status, r, rfl, hr, hfind, rfl⟩ := hP
      have hwrite : r.isWrite = true := by
        obtain ⟨i, data, -, rfl⟩ := hw.write r
          (mem_pending.mpr ⟨List.mem_of_getElem? hr, (findItem_spec hfind).2.symm⟩)
        rfl
      exact hok.2 k status rfl r hr it hfind hwrite hlast hdel href
  -- The thread whose fault was handled has an item, for the server has not given up.
  intro p hl _ hw
  by_cases hfault : ∃ addr access env, a = .fault p addr access env
  · obtain ⟨addr, access, env, ha⟩ := hfault
    rcases hp.settled p addr access env ha hl hw with hs | hlose | hpage
    · exact hs
    · exact absurd (hp.chain.event hlose rfl) hok.1.1
    · exact absurd (hp.chain.event hpage rfl) hok.1.2
  · exact hsettled p hl hfault hw

/-- A step answers only page faults that are waiting for an answer. -/
theorem reply_of_step {φ : PageMap} {s s' : Mm} {a : Action} (hinv : Inv φ s) (hclean : Clean φ)
    (hs : s.step a = some s') {t : ThreadId} {words : List Int}
    (hsent : Event.reply t pagefaultLabel words ∈ s'.outbox) :
    ∃ p, s.Live p ∧ t = threadId p ∧ s.wait t = .fault := by
  obtain ⟨-, ls, φ', hp⟩ := step_spec hinv hclean hs
  refine hp.chain.induction (I := fun _ σ => Event.reply t pagefaultLabel words ∈ σ.outbox →
    ∃ p, s.Live p ∧ t = threadId p ∧ s.wait t = .fault) hinv.clear nofun ?_ hsent
  intro φ₁ σ ℓ φ₂ σ' hinv₁ hI hP hm hsent₁
  rcases hm.reply hinv₁ hsent₁ with hold | ⟨⟨it, kind, rfl⟩, hblocked⟩
  · exact hI hold
  · obtain ⟨k, status, r, -, -, -, rfl⟩ := hP
    exact hblocked

/-- A thread that is woken gets its reply and runs. -/
theorem Mm.wake_sent (σ : Mm) {t : ThreadId} (ht : t ≠ nilthread) :
    Event.reply t pagefaultLabel [] ∈ (σ.wake t).outbox ∧ (σ.wake t).wait t = .ready := by
  simp only [Mm.wake, if_pos ht, Function.update_self, and_true]
  exact List.mem_append_right _ (List.mem_singleton_self _)

/-- The last callback of an item sends the answer it owes. -/
theorem reply_of_last {φ : PageMap} {s s' : Mm} {k : Nat} {status : NfsStatus} {r : SwapRequest}
    {it : PageQueueItem} {t : ThreadId} (hinv : Inv φ s)
    (hs : s.step (.nfsReply k status) = some s') (hr : s.requests[k]? = some r)
    (hfind : s.findItem r.token = some it) (hlast : Mm.LastAnswer r it) (ht : t ≠ nilthread)
    (hanswers : s.Answers it t) (hok : s.KeepsPromises (.nfsReply k status) s') :
    Event.reply t pagefaultLabel [] ∈ s'.outbox ∧ s'.wait t = .ready := by
  obtain ⟨hm, hid⟩ := findItem_spec hfind
  have hpending : r ∈ pending s.requests it.id :=
    mem_pending.mpr ⟨List.mem_of_getElem? hr, hid.symm⟩
  have hserves : Serves s.swappingPages s.requests t it.id := ⟨it, hm, rfl, hanswers⟩
  -- The request belongs to the direction its item is going.
  have hwrite : Writing it s.requests → r.isWrite = true := by
    intro hw
    obtain ⟨i, data, -, rfl⟩ := hw.write r hpending
    rfl
  have hread : Reading it s.requests → r.isWrite = false := by
    intro hrd
    rw [hrd.read, List.mem_singleton] at hpending
    rw [hpending]
    rfl
  have hstep : s.clear.nfsReply k status = some s' := by
    unfold Mm.step at hs
    split at hs
    · exact hs
    · cases hs
  rcases nfsReply_spec hinv.clear status hr hfind with ⟨s₁, kind, φ', hs₁, hmove⟩ | ⟨-, hnone⟩
  swap
  · rw [hnone] at hstep
    cases hstep
  obtain rfl : s₁ = s' := Option.some.inj (hs₁.symm.trans hstep)
  -- More batches to come is excluded: this is the last answer.
  cases hmove with
  | ack _ hpg hmore =>
      rw [Mm.LastAnswer, if_pos (hwrite (hinv.queues.writing _ _ _ _ hpg).2)] at hlast
      omega
  | ackDoomed _ _ _ hw hmore =>
      rw [Mm.LastAnswer, if_pos (hwrite hw)] at hlast
      omega
  | arrive _ hpg hmore =>
      rw [Mm.LastAnswer, hread (hinv.queues.reading _ _ _ _ hpg).2] at hlast
      exact absurd hlast hmore
  -- The move that completes the item wakes its initiator, or its owner for a read.
  | evicted _ hpg =>
      rw [hinv.initiator_of_serves hm (hinv.queues.writing _ _ _ _ hpg).2 hserves]
      exact Mm.wake_sent _ ht
  | restored _ hpg =>
      rw [hinv.initiator_of_serves hm (hinv.queues.writing _ _ _ _ hpg).2 hserves]
      exact Mm.wake_sent _ ht
  | arrived _ hpg =>
      rw [(hinv.owner_of_serves hm (hinv.queues.reading _ _ _ _ hpg).2 hserves).2]
      exact Mm.wake_sent _ ht
  -- A dropped item wakes nobody unless its page was used again.
  | discardWrite _ _ hdel hw hend =>
      have hi := hinv.initiator_of_serves hm hw hserves
      -- Otherwise the wake-up would be lost, which the condition leaves out.
      have href : s.isReferenced it = true := by
        by_contra hn
        have hnil := hok.2 k status rfl r hr it hfind (hwrite hw) (by omega) hdel
          (Bool.eq_false_iff.mpr hn)
        exact ht (hi.symm.trans hnil)
      have hif : (if s.clear.isReferenced it = true then it.initiator else nilthread) = t := by
        rw [if_pos (show s.clear.isReferenced it = true from href), hi]
      rw [hif]
      exact Mm.wake_sent _ ht
  -- A read of a deleted process answers nobody.
  | discardRead _ _ hdel hrd =>
      have hd := (hinv.owner_of_serves hm hrd hserves).1
      rw [hdel] at hd
      cases hd

/-- No page-fault wake-up is lost and none is sent twice, as long as no callback drops one. A
live thread that `pager` left without an answer is the thread of exactly one item in the swapping
queue, as its owner or as its initiator; the last callback of that item sends the answer; and a
step sends such an answer only to a live thread that is blocked on a page fault. -/
theorem no_wakeup_lost {s : Mm} (h : s.Reachable Mm.KeepsPromises) :
    (∀ p, s.Live p → s.wait (threadId p) = .fault →
      ∃! it, it ∈ s.swappingPages ∧ s.Answers it (threadId p)) ∧
      (∀ k status s', s.step (.nfsReply k status) = some s' →
        s.KeepsPromises (.nfsReply k status) s' → ∀ r it t, s.requests[k]? = some r →
          s.findItem r.token = some it → Mm.LastAnswer r it → t ≠ nilthread → s.Answers it t →
            Event.reply t pagefaultLabel [] ∈ s'.outbox ∧ s'.wait t = .ready) ∧
      ∀ a s', s.step a = some s' → ∀ t words,
        Event.reply t pagefaultLabel words ∈ s'.outbox →
          s.wait t = .fault ∧ ∃ p, s.Live p ∧ t = threadId p := by
  obtain ⟨φ, hinv, hclean, hsettled⟩ := h.settled
  refine ⟨fun p hl hw => ?_, fun k status s' hs hok r it t hr hfind hlast ht hanswers =>
    reply_of_last hinv hs hr hfind hlast ht hanswers hok, fun a s' hs t words hsent => ?_⟩
  -- A blocked process has an item that answers it, and roles make it the only one.
  · have hserves : ∀ it ∈ s.swappingPages, s.Answers it (threadId p) →
        Serves s.swappingPages s.requests (threadId p) it.id :=
      fun it hm hanswers => ⟨it, hm, rfl, hanswers⟩
    obtain ⟨id, hs⟩ := hsettled p hl nofun hw
    obtain ⟨it, hm, rfl, hanswers⟩ := hs
    refine ⟨it, ⟨hm, hanswers⟩, ?_⟩
    rintro x ⟨hx, hx'⟩
    have hid := hinv.roles.unique _ x.id it.id (threadId_ne_nilthread p) (hserves x hx hx')
      (hserves it hm hanswers)
    exact hinv.queues.eq_of_id (List.mem_append_right _ hx) (List.mem_append_right _ hm) hid
  -- What is sent answers a process that was blocked.
  · obtain ⟨p, hl, ht, hw⟩ := reply_of_step hinv hclean hs hsent
    exact ⟨hw, p, hl, ht⟩

/-- The thread that waits for a frame has exactly one item that will wake it. -/
theorem no_wakeup_lost_threeFaults :
    ∃ s, Mm.runOn Mm.KeepsPromises (.small 2) threeFaults = some s ∧
      ∃! it, it ∈ s.swappingPages ∧ s.Answers it (threadId 1) := by
  obtain ⟨s, hs, hreach, hl, hw⟩ := Mm.exists_runOn Mm.KeepsPromises
    (Mm.Boot.small_ok Nat.two_pos (by decide)) threeFaults
    (fun s => s.Live 1 ∧ s.wait (threadId 1) = .fault) (by decide +kernel)
  exact ⟨s, hs, (no_wakeup_lost hreach).1 1 hl hw⟩

/-- Process 1 touches two pages, which are all there are. Process 2 touches one and has to wait
for the first page of process 1 to be written out. Process 3 kills process 1, then the writes
are acknowledged. -/
def ownerKilled : List Action :=
  [.createProcess [115] 0, .createProcess [116] 0, .createProcess [117] 0,
    .fault 1 heapStart writable .plain,
    .fault 1 (heapStart + pageSize) writable .plain,
    .fault 2 heapStart writable .plain,
    .deleteProcess 3 1] ++ answers 8

/-- The thread that waits for a page of another process is forgotten when that process is
deleted: it is alive and blocked, and no item and no request is left to answer it. -/
theorem initiator_stranded :
    ¬ ∀ s : Mm, s.Reachable (fun _ _ s' => Event.kdbEnter outOfSwapMessage ∉ s'.outbox ∧
        Event.kdbEnter outOfFramesMessage ∉ s'.outbox) →
      ∀ p, s.Live p → s.wait (threadId p) = .fault →
        ∃! it, it ∈ s.swappingPages ∧ s.Answers it (threadId p) := by
  intro hall
  obtain ⟨s, -, hreach, hl, hw, hnone⟩ := Mm.exists_runOn
    (fun _ _ s' => Event.kdbEnter outOfSwapMessage ∉ s'.outbox ∧
      Event.kdbEnter outOfFramesMessage ∉ s'.outbox)
    (Mm.Boot.small_ok Nat.two_pos (by decide)) ownerKilled
    (fun s => s.Live 2 ∧ s.wait (threadId 2) = .fault ∧ s.swappingPages.length = 0)
    (by decide +kernel)
  obtain ⟨it, ⟨hm, -⟩, -⟩ := hall s hreach 2 hl hw
  rw [List.eq_nil_of_length_eq_zero hnone] at hm
  cases hm

end Sos
