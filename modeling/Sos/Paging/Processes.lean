import Sos.Paging.FreeLoops

/-!
# `Sos.Paging.Processes`: processes come and go

The moves that concern whole processes: pages are released (`Inv.release`), a process is
deleted (`Inv.delete`) or registered (`Inv.register`), and threads block and go on. The
thread of a deleted process is served by no item (`not_serves_cancel`), so that the next
process in the slot starts without one.
-/

set_option autoImplicit false

namespace Sos

namespace Released

variable {φ : PageMap} {s s' : Mm} {p : Nat} {inRange : Nat → Bool}

/-- The active items for the range are gone, and the others are in their order. -/
theorem activePages (h : Released φ s p inRange s') : s'.activePages =
    s.activePages.filter fun it =>
      !decide (threadId p = it.tid ∧ inRange it.virtualAddress = true) := by
  rw [h.rest]

/-- The items for the range that are being swapped stay, and are marked. -/
theorem swappingPages (h : Released φ s p inRange s') :
    s'.swappingPages = s.swappingPages.map (Mm.cancelItem (threadId p) inRange) := by
  rw [h.rest]

/-- No request is sent or taken back: an answer finds its item still there. -/
theorem requests (h : Released φ s p inRange s') : s'.requests = s.requests := by rw [h.rest]

/-- No item is new. -/
theorem nextItem (h : Released φ s p inRange s') : s'.nextItem = s.nextItem := by rw [h.rest]

/-- A release wakes nobody. -/
theorem wait (h : Released φ s p inRange s') : s'.wait = s.wait := by rw [h.rest]

/-- Hardware mappings are removed by other functions. -/
theorem hw (h : Released φ s p inRange s') : s'.hw = s.hw := by rw [h.rest]

/-- The contents of the frames stay. -/
theorem phys (h : Released φ s p inRange s') : s'.phys = s.phys := by rw [h.rest]

/-- The contents of the slots stay. -/
theorem swapFile (h : Released φ s p inRange s') : s'.swapFile = s.swapFile := by rw [h.rest]

/-- A release sends nothing. -/
theorem outbox (h : Released φ s p inRange s') : s'.outbox = s.outbox := by rw [h.rest]

/-- The other processes keep their entries. -/
theorem ptable_of_ne (h : Released φ s p inRange s') {q : Nat} (hq : q ≠ p) :
    s'.ptable q = s.ptable q := by
  obtain ⟨P, hP, -⟩ := h.entry
  rw [hP, Function.update_of_ne hq]

/-- The entry of the process is the same but for its page table. -/
theorem same (h : Released φ s p inRange s') : (s.ptable p).Same (s'.ptable p) := by
  obtain ⟨P, hP, hsame⟩ := h.entry
  rwa [hP, Function.update_self]

end Released

/-- The page map after pages of slot `p` are released. -/
noncomputable def PageMap.release (φ : PageMap) (p : Nat) (inRange : Nat → Bool) : PageMap :=
  (φ.drop (InRange p inRange)).cancel (Mm.cancelItem (threadId p) inRange)

namespace PageMap

variable {φ : PageMap} {p : Nat} {inRange : Nat → Bool} {pg : Page}

/-- A page in the range is absent afterwards. -/
theorem release_of_inRange (h : InRange p inRange pg) : φ.release p inRange pg = .absent := by
  rw [release, cancel, drop_of h]
  rfl

/-- A page outside the range keeps its state, but for the initiator of its item. -/
theorem release_of_not (h : ¬ InRange p inRange pg) :
    φ.release p inRange pg = (φ pg).mapSwapping (Mm.cancelItem (threadId p) inRange) := by
  rw [release, cancel, drop_of_not h]

/-- The words are those after the pages of the range are dropped. -/
theorem word_release : (φ.release p inRange pg).word = (φ.drop (InRange p inRange) pg).word :=
  PageState.word_mapSwapping _

/-- And so are the frames. -/
theorem frame?_release :
    (φ.release p inRange pg).frame? = (φ.drop (InRange p inRange) pg).frame? :=
  PageState.frame?_mapSwapping _

end PageMap

namespace TablesOk

variable {φ φ' : PageMap} {ptable : Nat → Process} {p : Nat}

/-- The page map may change where the entries do not tell. -/
theorem of_word (h : TablesOk φ ptable) (hw : ∀ pg, (φ' pg).word = (φ pg).word)
    (ha : ∀ pg, φ' pg ≠ .absent → φ pg ≠ .absent) : TablesOk φ' ptable :=
  ⟨fun pg => (h.word pg).trans (hw pg).symm, fun pg hne => h.live pg (ha pg hne), h.index,
    h.entry, h.root⟩

/-- A process without pages loses its page table and becomes inactive. -/
theorem deactivate (h : TablesOk φ ptable) (hlive : LiveIn ptable p)
    (hpages : ∀ pg, pg.pid = p → φ pg = .absent) :
    TablesOk φ (Function.update ptable p
      { ptable p with pageIndex := none, isActive := false }) := by
  have hp0 : 0 ≠ p := fun he => by
    have := hlive.1
    omega
  -- The other processes are as alive as before.
  have hother : ∀ q, q ≠ p → (LiveIn (Function.update ptable p
      { ptable p with pageIndex := none, isActive := false }) q ↔ LiveIn ptable q) := by
    intro q hq
    rw [LiveIn, LiveIn, Function.update_of_ne hq]
  refine ⟨?_, ?_, ?_, ?_, ?_⟩
  · intro pg
    by_cases hp : pg.pid = p
    · rw [hp, Function.update_self, hpages pg hp]
      rfl
    · rw [Function.update_of_ne hp]
      exact h.word pg
  · intro pg hne
    have hp : pg.pid ≠ p := fun hp => hne (hpages pg hp)
    rw [hother _ hp]
    exact h.live pg hne
  · intro q hq
    by_cases hp : q = p
    · rw [hp] at hq
      have := hq.2.2.1
      rw [Function.update_self] at this
      cases this
    · rw [Function.update_of_ne hp]
      exact h.index q ((hother q hp).mp hq)
  -- The slot keeps its thread number, and is not active any more.
  · intro q h1 h2
    by_cases hp : q = p
    · rw [hp, Function.update_self]
      refine Or.inl ⟨?_, (by simp)⟩
      show (ptable p).tid.threadNo = _
      rw [hlive.2.2.2]
      rfl
    · rw [Function.update_of_ne hp]
      exact h.entry q h1 h2
  · rw [Function.update_of_ne hp0]
    exact h.root

/-- A process without pages is registered in a free slot. -/
theorem register (h : TablesOk φ ptable) {P : Process} (h1 : 1 ≤ p)
    (hfree : (ptable p).isActive = false) (hact : P.isActive = true)
    (htid : P.tid = threadId p ∨ P.tid = ⟨0, 1⟩) (hindex : P.pageIndex = some fun _ => none) :
    TablesOk φ (Function.update ptable p P) := by
  -- The slot was free, so that it had no pages.
  have hdead : ¬ LiveIn ptable p := by
    intro hl
    rw [hl.2.2.1] at hfree
    cases hfree
  have hp0 : 0 ≠ p := by omega
  have hother : ∀ q, q ≠ p → (LiveIn (Function.update ptable p P) q ↔ LiveIn ptable q) := by
    intro q hq
    rw [LiveIn, LiveIn, Function.update_of_ne hq]
  have hpages : ∀ pg, pg.pid = p → φ pg = .absent := by
    intro pg hp
    by_contra hne
    exact hdead (hp ▸ h.live pg hne)
  refine ⟨?_, ?_, ?_, ?_, ?_⟩
  · intro pg
    by_cases hp : pg.pid = p
    · rw [hp, Function.update_self, hpages pg hp, Process.pte, hindex]
      rfl
    · rw [Function.update_of_ne hp]
      exact h.word pg
  · intro pg hne
    have hp : pg.pid ≠ p := fun hp => hne (hpages pg hp)
    rw [hother _ hp]
    exact h.live pg hne
  · intro q hq
    by_cases hp : q = p
    · rw [hp, Function.update_self, hindex]
      rfl
    · rw [Function.update_of_ne hp]
      exact h.index q ((hother q hp).mp hq)
  · intro q hq1 hq2
    by_cases hp : q = p
    · rw [hp, Function.update_self]
      -- A name that is too long has left the thread id `⟨0, 1⟩`.
      rcases htid with htid | htid
      · rw [htid]
        exact Or.inl ⟨rfl, fun _ => rfl⟩
      · exact Or.inr ⟨hact, htid⟩
    · rw [Function.update_of_ne hp]
      exact h.entry q hq1 hq2
  · rw [Function.update_of_ne hp0]
    exact h.root

end TablesOk

namespace Inv

variable {φ : PageMap} {s : Mm} {p : Nat} {inRange : Nat → Bool}

/-- The parts of the invariant that releasing pages keeps whatever becomes of the process. -/
private theorem released {s' : Mm} (h : Inv φ s) (hr : Released φ s p inRange s') :
    TablesOk (φ.release p inRange) s'.ptable ∧ FramesOk (φ.release p inRange) s'.frames ∧
      SlotsOk (φ.release p inRange) s'.swapBitfield s'.swappingPages ∧
      QueuesOk (φ.release p inRange) s'.activePages s'.swappingPages s'.requests s'.nextItem := by
  refine ⟨hr.tables.of_word (fun pg => PageMap.word_release) ?_,
    hr.frames.congr fun pg => PageMap.frame?_release, ?_, ?_⟩
  · intro pg hne ha
    rw [PageMap.release, PageMap.cancel, ha] at hne
    exact hne rfl
  · rw [hr.swappingPages]
    exact slots_cancel h.queues hr.slots
  · rw [hr.activePages, hr.swappingPages, hr.requests, hr.nextItem]
    exact queues_cancel h.queues

/-- Pages of a process are released. -/
theorem release {s' : Mm} (h : Inv φ s) (hr : Released φ s p inRange s') :
    Inv (φ.release p inRange) s' := by
  obtain ⟨ht, hf, hs, hq⟩ := h.released hr
  refine ⟨ht, hf, hs, hq, ?_⟩
  obtain ⟨P, hP, hsame⟩ := hr.entry
  rw [hr.swappingPages, hr.requests, hr.wait, hP]
  exact (h.roles.sub fun t id ht hs => serves_cancel ht hs).same hsame

/-- A process is deleted. -/
theorem delete {s' : Mm} {outbox : List Event} (h : Inv φ s) (hlive : s.Live p)
    (hr : Released φ s p (fun _ => true) s') :
    Inv (φ.release p fun _ => true)
      { s' with
        ptable := Function.update s'.ptable p
          { s'.ptable p with pageIndex := none, isActive := false }
        wait := Function.update s'.wait (threadId p) .ready
        outbox := outbox } := by
  obtain ⟨ht, hf, hs, hq⟩ := h.released hr
  -- Pages have been given up, and the process is still in its slot.
  have hlive' : LiveIn s'.ptable p := by
    obtain ⟨P, hP, hsame⟩ := hr.entry
    rw [hP]
    exact (liveIn_update hsame.toSameThread p).mpr hlive
  -- No item of a process that is gone serves its thread.
  have hnone : ∀ id, ¬ Serves s'.swappingPages s'.requests (threadId p) id := by
    intro id
    rw [hr.swappingPages]
    exact not_serves_cancel fun _ => rfl
  refine ⟨ht.deactivate hlive' fun pg hp => PageMap.release_of_inRange ⟨hp, rfl⟩, hf, hs, hq, ?_⟩
  show RolesOk (Function.update s'.ptable p _) s'.swappingPages s'.requests
    (Function.update s'.wait (threadId p) .ready)
  refine (h.release hr).roles.mono ?_ ?_ ?_
  -- The threads that are served are those of other processes.
  · intro t id htn hs
    have hne : t ≠ threadId p := by
      rintro rfl
      exact hnone id hs
    exact ⟨hs, Function.update_of_ne hne _ _⟩
  · intro q id hsq hq
    have hne : q ≠ p := by
      rintro rfl
      exact hnone id hsq
    rwa [LiveIn, Function.update_of_ne hne]
  -- And so are the threads that wait for a process.
  · intro q hq hact hwf
    have hne : q ≠ p := by
      rintro rfl
      rw [Function.update_self] at hact
      cases hact
    rw [Function.update_of_ne hne] at hact hwf
    obtain ⟨hl, hw⟩ := (h.release hr).roles.call q hq hact hwf
    refine ⟨?_, ?_⟩
    · rwa [LiveIn, Function.update_of_ne hne]
    · rwa [Function.update_of_ne fun he => hne (threadId_inj he)]

/-- A process is registered in a free slot, and its thread starts. With a name that does
not fit, the thread id of the slot is overwritten. -/
theorem register (h : Inv φ s) {P : Process} {n : Nat} (h1 : 1 ≤ p)
    (hfree : (s.ptable p).isActive = false) (hact : P.isActive = true)
    (htid : P.tid = threadId p ∨ P.tid = ⟨0, 1⟩) (hindex : P.pageIndex = some fun _ => none)
    (hwait : P.waitFor = nilthread) :
    Inv φ { s with
      nextTask := n
      ptable := Function.update s.ptable p P
      wait := Function.update s.wait P.tid .ready } := by
  have hdead : ¬ LiveIn s.ptable p := by
    intro hl
    rw [hl.2.2.1] at hfree
    cases hfree
  -- A thread id of a slot without a process: nothing serves it.
  have hq : ∃ q, P.tid = threadId q ∧ ¬ LiveIn s.ptable q := by
    rcases htid with htid | htid
    · exact ⟨p, htid, hdead⟩
    · exact ⟨0, htid, fun hl => by have := hl.1; omega⟩
  obtain ⟨q, hq, hqdead⟩ := hq
  refine ⟨h.tables.register h1 hfree hact htid hindex, h.frames, h.slots, h.queues, ?_⟩
  have hlive : ∀ q, q ≠ p → (LiveIn (Function.update s.ptable p P) q ↔ LiveIn s.ptable q) := by
    intro q hq
    rw [LiveIn, LiveIn, Function.update_of_ne hq]
  show RolesOk (Function.update s.ptable p P) s.swappingPages s.requests
    (Function.update s.wait P.tid .ready)
  refine h.roles.mono ?_ ?_ ?_
  · intro t id htn hs
    refine ⟨hs, Function.update_of_ne ?_ _ _⟩
    rw [hq]
    rintro rfl
    obtain ⟨q', hl, he, -⟩ := h.roles.waits _ id htn hs
    exact hqdead (threadId_inj he ▸ hl)
  · intro q' id hs hl
    have hne : q' ≠ p := by
      rintro rfl
      exact hdead hl
    exact (hlive q' hne).mpr hl
  · intro q' hlt hact' hwf
    have hne : q' ≠ p := by
      rintro rfl
      rw [Function.update_self] at hwf
      exact hwf hwait
    rw [Function.update_of_ne hne] at hact' hwf
    obtain ⟨hl, hw⟩ := h.roles.call q' hlt hact' hwf
    refine ⟨(hlive q' hne).mpr hl, ?_⟩
    rw [Function.update_of_ne, hw]
    rw [hq]
    intro he
    exact hqdead (threadId_inj he ▸ hl)

/-- An entry changes in a field that says nothing about memory. -/
theorem entry (h : Inv φ s) {P : Process} (hsame : (s.ptable p).Same P)
    (hpte : ∀ pg : Page, pg.pid = p → P.pte pg.addr = (s.ptable p).pte pg.addr) :
    Inv φ { s with ptable := Function.update s.ptable p P } := by
  refine ⟨h.tables.update hsame.toSameThread (fun _ _ => rfl) ?_ ?_, h.frames, h.slots, h.queues,
    h.roles.same hsame⟩
  · intro pg hp
    rw [hpte pg hp, ← h.tables.word pg, hp]
  · intro pg hp hne
    rw [← hp]
    exact h.tables.live pg hne

/-- `initialized` is set. -/
theorem setInitialized (h : Inv φ s) {b : Bool} :
    Inv φ { s with
      ptable := Function.update s.ptable p { s.ptable p with initialized := b } } := by
  have hsame : (s.ptable p).SameThread { s.ptable p with initialized := b } :=
    ⟨rfl, rfl, rfl⟩
  refine ⟨h.tables.update hsame (fun _ _ => rfl) ?_ ?_, h.frames, h.slots, h.queues, ?_⟩
  -- The flag is no part of the page table.
  · intro pg hp
    rw [← h.tables.word pg, hp]
    rfl
  · intro pg hp hne
    rw [← hp]
    exact h.tables.live pg hne
  · show RolesOk (Function.update s.ptable p _) s.swappingPages s.requests s.wait
    refine h.roles.mono (fun _ _ _ hs => ⟨hs, rfl⟩)
      (fun q _ _ hq => (liveIn_update hsame q).mpr hq) ?_
    intro q hq hact hwf
    -- Whether the process is active, and whom it waits for, are other fields.
    have hq' : (Function.update s.ptable p { s.ptable p with initialized := b } q).isActive
        = (s.ptable q).isActive ∧
        (Function.update s.ptable p { s.ptable p with initialized := b } q).waitFor
        = (s.ptable q).waitFor := by
      by_cases he : q = p
      · rw [he, Function.update_self]
        exact ⟨rfl, rfl⟩
      · rw [Function.update_of_ne he]
        exact ⟨rfl, rfl⟩
    rw [hq'.1] at hact
    rw [hq'.2] at hwf
    obtain ⟨hl, hw⟩ := h.roles.call q hq hact hwf
    exact ⟨(liveIn_update hsame q).mpr hl, hw⟩

/-- A thread that no item serves and that waits for no process blocks or goes on. -/
theorem setWait (h : Inv φ s) {w : Wait}
    (hnone : ∀ id, ¬ Serves s.swappingPages s.requests (threadId p) id)
    (hcall : p < maxRunningProcess → (s.ptable p).isActive = true →
      (s.ptable p).waitFor = nilthread) :
    Inv φ { s with wait := Function.update s.wait (threadId p) w } :=
  ⟨h.tables, h.frames, h.slots, h.queues, h.roles.setWait hnone hcall⟩

/-- A process that has called `wait_process` waits for another one, or waits no longer. -/
theorem setWaitFor (h : Inv φ s) {t : ThreadId} {w : Wait} (hlive : s.Live p)
    (hnone : ∀ id, ¬ Serves s.swappingPages s.requests (threadId p) id)
    (hw : t ≠ nilthread → w = .call) :
    Inv φ { s with
      ptable := Function.update s.ptable p { s.ptable p with waitFor := t }
      wait := Function.update s.wait (threadId p) w } := by
  have hsame : (s.ptable p).SameThread { s.ptable p with waitFor := t } :=
    ⟨rfl, rfl, rfl⟩
  refine ⟨h.tables.update hsame (fun _ _ => rfl) ?_ ?_, h.frames, h.slots, h.queues, ?_⟩
  -- Whom the process waits for is no part of the page table.
  · intro pg hp
    rw [← h.tables.word pg, hp]
    rfl
  · intro pg hp hne
    rw [← hp]
    exact h.tables.live pg hne
  · show RolesOk (Function.update s.ptable p _) s.swappingPages s.requests
      (Function.update s.wait (threadId p) w)
    refine h.roles.mono ?_ (fun q _ _ hq => (liveIn_update hsame q).mpr hq) ?_
    -- The thread that begins to wait is served by no item.
    · intro t' id ht hs
      have hne : t' ≠ threadId p := by
        rintro rfl
        exact hnone id hs
      exact ⟨hs, Function.update_of_ne hne _ _⟩
    -- It waits for an answer to its call, and so do the others.
    · intro q hq hact hwf
      by_cases he : q = p
      · rw [he, Function.update_self] at hwf
        rw [he, Function.update_self]
        exact ⟨(liveIn_update hsame p).mpr hlive, hw hwf⟩
      · rw [Function.update_of_ne he] at hact hwf
        obtain ⟨hl, hwq⟩ := h.roles.call q hq hact hwf
        refine ⟨(liveIn_update hsame q).mpr hl, ?_⟩
        rwa [Function.update_of_ne fun hid => he (threadId_inj hid)]

end Inv

end Sos
