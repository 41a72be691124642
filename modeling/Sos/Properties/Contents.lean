import Sos.Paging.Contents
import Sos.Properties.Mappings

/-!
# `Sos.Properties.Contents`: memory survives swapping

What a process has stored is in its memory when it looks there again, wherever its pages have
been meanwhile.

* `clean_pages_saved`: a page that the swapper would drop without writing it is in the swap file,
  byte for byte, and cannot be stored to. This holds as long as a mapping shows a process its own
  page, so that no process is deleted while its page at `stackTop` is mapped, and as long as an
  initializer does not store into the frame of a page (`frame_overwritten`);
* `memory_kept`: every page that is mapped, and every page in the queue of active pages, holds
  what its process has stored there last, and zeroes where it has stored nothing. For this a page
  must also stay mapped while it is written to the swap file (`store_lost`): the last answer takes
  a page that is not mapped for one that has not changed.

The bytes change only by the stores of processes, by the loops of the swapper and by zeroing.
Outside of this are the server's own writes to the frame of an IPC page, where a handler leaves
the result of a system call, and a process that opens the swap file and writes to it: `io_init`
creates it as a file like the others.
-/

set_option autoImplicit false

namespace Sos

/-! ### The rights behind the mappings -/

/-- A page that is being read back is not mapped, and one that can be stored to is dirty. -/
def Guarded (φ : PageMap) (s : Mm) : Prop :=
  ∀ pg m, s.hw pg.tid pg.addr = some m → virtualStart ≤ pg.addr → ∀ f d hold,
    φ pg = .resident f d hold → (∀ it, hold ≠ .reading it) ∧ (m.rights &&& writable ≠ 0 → d = true)

/-- Below `virtualStart` an address is mapped to itself. -/
def OneToOne (s : Mm) : Prop := ∀ t v m, s.hw t v = some m → v < virtualStart → m.frame = v

section

variable {φ φ' : PageMap} {s s' : Mm} {ℓ : Label}

/-- One page goes to a state that is guarded. -/
theorem Guarded.update (h : Guarded φ s) (hhw : s'.hw = s.hw) {pg : Page} {st : PageState}
    (hst : ∀ m, s.hw pg.tid pg.addr = some m → virtualStart ≤ pg.addr → ∀ f d hold,
      st = .resident f d hold → (∀ it, hold ≠ .reading it) ∧
        (m.rights &&& writable ≠ 0 → d = true)) : Guarded (Function.update φ pg st) s' := by
  intro pg' m hm hv f d hold hpg
  rw [hhw] at hm
  by_cases he : pg' = pg
  · subst he
    rw [Function.update_self] at hpg
    exact hst m hm hv f d hold hpg
  · rw [Function.update_of_ne he] at hpg
    exact h pg' m hm hv f d hold hpg

/-- Pages that are given up need no guard. -/
theorem Guarded.release (h : Guarded φ s) {p : Nat} {inRange : Nat → Bool}
    (hr : Released φ s p inRange s') : Guarded (φ.release p inRange) s' := by
  intro pg m hm hv f d hold hpg
  rw [hr.hw] at hm
  -- A page that is given up is resident no more, unless its item is still being swapped.
  by_cases hin : InRange p inRange pg
  · rw [PageMap.release_of_inRange hin] at hpg
    cases hpg
  · rw [PageMap.release_of_not hin] at hpg
    rcases hst : φ pg with _ | b | ⟨f₀, d₀, hold₀⟩
    · rw [hst] at hpg
      cases hpg
    · rw [hst] at hpg
      cases hpg
    · obtain ⟨hnot, hd⟩ := h pg m hm hv f₀ d₀ hold₀ hst
      rw [hst] at hpg
      -- How the page was held does not matter for the dirty bit.
      rcases hold₀ with _ | it | it | it
      · cases hpg
        exact ⟨nofun, hd⟩
      · cases hpg
        exact ⟨nofun, hd⟩
      · cases hpg
        exact ⟨nofun, hd⟩
      · exact absurd rfl (hnot it)

/-- A page without a frame is not mapped. -/
theorem Owned.none (h : Owned φ s) {pg : Page} (hpg : (φ pg).frame? = none)
    (hv : virtualStart ≤ pg.addr) : s.hw pg.tid pg.addr = none := by
  by_contra hne
  obtain ⟨m, hm⟩ := Option.ne_none_iff_exists'.mp hne
  obtain ⟨-, pg', ht, ha, hf⟩ := h _ _ m hm hv
  rw [Page.eq_of_tid ht ha, hpg] at hf
  cases hf

/-- After every move the pages that can be stored to are dirty, by cases on the move. -/
theorem Move.guarded (howned : Owned φ s) (h : Guarded φ s)
    (hm : Move φ s ℓ φ' s') : Guarded φ' s' := by
  -- A page without a frame is not mapped.
  have habsent {pg : Page} {m : HwMapping} {P : Prop} (hpg : (φ pg).frame? = none)
      (hmap : s.hw pg.tid pg.addr = some m) (hv : virtualStart ≤ pg.addr) : P := by
    rw [howned.none hpg hv] at hmap
    cases hmap
  -- The moves that map a page, that unmap pages, and that change the state of one page.
  cases hm with
  | unmap hhw =>
      intro pg m hmap hv f d hold hpg
      refine h pg m ?_ hv f d hold hpg
      rcases hhw pg.tid pg.addr with hn | he
      · cases hn.symm.trans hmap
      · exact he.symm.trans hmap
  | requeue | noPage | entry | store | ackDoomed | discardWrite | discardRead | register
  | registerFull | start | fault | setWait | setWaitFor | say => exact h
  -- Swapped from now on.
  | evict | evicted => exact h.update rfl fun _ _ _ _ _ _ => nofun
  | writeOut | ack | restored =>
      refine h.update rfl fun m _ _ f d hold hst => ?_
      cases hst
      exact ⟨nofun, fun _ => rfl⟩
  | @lose _ _ pg f d _ hpg =>
      refine h.update rfl fun m hmap hv f d hold hst => ?_
      cases hst
      exact ⟨nofun, (h pg m hmap hv _ _ _ hpg).2⟩
  -- A page that had no frame is not mapped yet.
  | touch _ _ _ hpg | touchPinned _ _ _ hpg | readIn hpg =>
      exact h.update rfl fun m hmap hv _ _ _ _ => habsent (by rw [hpg]; rfl) hmap hv
  | dirty hpg hnot =>
      refine h.update rfl fun m _ _ f d hold hst => ?_
      cases hst
      exact ⟨hnot, fun _ => rfl⟩
  -- The page that is mapped is dirty if it may be written.
  | @map pg f d hold rights hpg hnot hr hwritable =>
      intro pg' m hmap hv f' d' hold' hpg'
      dsimp only at hmap
      split at hmap
      -- This page, and the others.
      next he =>
        obtain rfl := Page.eq_of_tid he.1 he.2
        obtain rfl := Option.some.inj hmap
        rw [hpg] at hpg'
        cases hpg'
        exact ⟨hnot, hwritable⟩
      next => exact h pg' m hmap hv f' d' hold' hpg'
  -- An address of the hardware is below all pages.
  | mapPhys hlow =>
      intro pg' m hmap hv f' d' hold' hpg'
      dsimp only at hmap
      split at hmap
      next he => omega
      next => exact h pg' m hmap hv f' d' hold' hpg'
  -- A page that is being read back is not mapped.
  | arrive _ hpg | arrived _ hpg =>
      refine h.update rfl fun m hmap hv _ _ _ _ => ?_
      exact absurd rfl ((h _ m hmap hv _ _ _ hpg).1 _)
  | release _ _ _ hr => exact h.release hr
  | delete _ _ hr =>
      have hg := h.release hr
      exact hg

/-- A move maps an address below `virtualStart` only to itself. -/
theorem Move.oneToOne (h : OneToOne s) (hm : Move φ s ℓ φ' s')
    (hmap : ∀ pg rights, ℓ = .map pg rights → virtualStart ≤ pg.addr) : OneToOne s' := by
  cases hm with
  | unmap hhw =>
      intro t v m hmap hv
      refine h t v m ?_ hv
      rcases hhw t v with hn | he
      · cases hn.symm.trans hmap
      · exact he.symm.trans hmap
  -- A page is above `virtualStart`.
  | @map pg f d hold rights hpg =>
      intro t v m hm hv
      have hpgv := hmap pg rights rfl
      dsimp only at hm
      split at hm
      next he => omega
      next => exact h t v m hm hv
  | mapPhys hlow =>
      intro t v m hm hv
      dsimp only at hm
      split at hm
      -- The new mapping is of an address to itself.
      next he =>
        obtain rfl := Option.some.inj hm
        exact he.2.symm
      next => exact h t v m hm hv
  | release _ _ _ hr =>
      intro t v m hm hv
      rw [hr.hw] at hm
      exact h t v m hm hv
  | delete _ _ hr =>
      intro t v m hm hv
      have hhw := hr.hw
      rw [show _ = _ from hhw] at hm
      exact h t v m hm hv
  | _ => exact h

end

/-! ### Steps that keep what is in memory -/

namespace Mm

/-- The step deletes no process whose page at `stackTop` is mapped, and an initializer does not
store into a frame that is in use. -/
def KeepsPages (s : Mm) (a : Action) (s' : Mm) : Prop :=
  StackTopUnmapped s a s' ∧
    match a with
    | .store _ addr _ => addr < virtualStart → ¬ s.frames.Used (pageAlign addr)
    | _ => True

/-- No page loses its mapping while it is written to the swap file. -/
def StaysMapped (s s' : Mm) : Prop :=
  ∀ it ∈ s.swappingPages, (s.hw it.tid it.virtualAddress).isSome = true →
    (∃ it' ∈ s'.swappingPages, it'.id = it.id ∧ it'.processDeleted = false) →
      (s'.hw it.tid it.virtualAddress).isSome = true

/-- A step that keeps what is in memory. -/
def KeepsMemory (s : Mm) (a : Action) (s' : Mm) : Prop := KeepsPages s a s' ∧ StaysMapped s s'

instance (s : Mm) (a : Action) (s' : Mm) : Decidable (KeepsPages s a s') := by
  match a with
  | .store _ addr _ =>
    exact inferInstanceAs (Decidable (_ ∧ (addr < virtualStart → ¬ ((_ ∧ _ ∧ _ = _) ∧ _ = _))))
  | .unmapAll _ | .createProcess .. | .waitProcess .. | .startProcess .. | .deleteProcess ..
  | .nfsReply .. | .fault .. => exact inferInstanceAs (Decidable (_ ∧ True))

instance (s s' : Mm) : Decidable (StaysMapped s s') := by
  unfold StaysMapped
  infer_instance

instance (s : Mm) (a : Action) (s' : Mm) : Decidable (KeepsMemory s a s') :=
  inferInstanceAs (Decidable (KeepsPages s a s' ∧ StaysMapped s s'))

/-- The memory after an action. -/
def remember (s : Mm) (a : Action) (μ : Memory) : Memory :=
  (s.effects a).foldl Label.remember μ

/-- The states at the end of a run, with what the processes have stored in it. -/
inductive Remembers (ok : Mm → Action → Mm → Prop) : Mm → Memory → Prop
  | boot {b : Boot} {s : Mm} (hb : b.Ok) (hs : Mm.boot b = some s) : Remembers ok s fun _ _ => 0
  | step {s s' : Mm} {μ : Memory} {a : Action} (h : Remembers ok s μ) (hs : s.step a = some s')
      (hok : ok s a s') : Remembers ok s' (s.remember a μ)

section

variable (ok : Mm → Action → Mm → Prop) [∀ s a s', Decidable (ok s a s')]

/-- A run whose steps are checked against the condition. -/
def rememberIf (s : Mm) (μ : Memory) : List Action → Option (Mm × Memory)
  | [] => some (s, μ)
  | a :: actions => do
    let s' ← s.step a
    if ok s a s' then s'.rememberIf (s.remember a μ) actions else none

variable {ok}

/-- A run that has been computed, with what its processes have stored. -/
theorem Remembers.rememberIf {s : Mm} {μ : Memory} {x : Mm × Memory} (h : Remembers ok s μ)
    {actions : List Action} (hx : s.rememberIf ok μ actions = some x) : Remembers ok x.1 x.2 := by
  induction actions generalizing s μ with
  | nil =>
      cases hx
      exact h
  | cons a actions ih =>
      obtain ⟨s', hs', hx⟩ := Option.bind_eq_some_iff.mp hx
      obtain ⟨hok, hx⟩ := Option.ite_none_right_eq_some.mp hx
      exact ih (h.step hs' hok) hx

/-- A run that is evaluated to its end. -/
theorem exists_remembers (ok : Mm → Action → Mm → Prop) [∀ s a s', Decidable (ok s a s')]
    {b : Boot} (hb : b.Ok) (actions : List Action) (P : Mm × Memory → Prop) [DecidablePred P]
    (h : ((Mm.boot b).bind fun s => s.rememberIf ok (fun _ _ => 0) actions).any fun x => P x) :
    ∃ s μ, Remembers ok s μ ∧ P (s, μ) := by
  obtain ⟨x, hx, hP⟩ := (Option.any_eq_true ..).mp h
  obtain ⟨s, hs, hx⟩ := Option.bind_eq_some_iff.mp hx
  exact ⟨x.1, x.2, (Remembers.boot hb hs).rememberIf hx, of_decide_eq_true hP⟩

end

end Mm

section

variable {φ φ' : PageMap} {s s' σ σ' : Mm} {μ : Memory} {ℓ : Label} {ls : List Label} {a : Action}

/-- The mappings are those of the pages. -/
structure Mapped (φ : PageMap) (s : Mm) : Prop where
  high : ∀ pg, φ pg ≠ .absent → virtualStart ≤ pg.addr
  owned : Owned φ s
  guarded : Guarded φ s
  oneToOne : OneToOne s

/-- A store by a process goes to the frame of its page. -/
theorem Mapped.storeReaches (h : Mapped φ s) (hinv : Inv φ s) {p addr : Nat}
    (hlow : addr < virtualStart → ¬ s.frames.Used (pageAlign addr)) :
    StoreReaches φ s p addr := by
  intro m hm hrights
  -- Below `virtualStart` the address is its own frame, which no page has.
  rcases Nat.lt_or_ge addr virtualStart with hv | hv
  · have hv' : pageAlign addr < virtualStart := Nat.lt_of_le_of_lt (pageAlign_le addr) hv
    have hframe := h.oneToOne _ _ m hm hv'
    refine Or.inl ⟨hv, fun pg f hf => ?_⟩
    have hne : f ≠ pageAlign addr := by
      rintro rfl
      exact hlow hv ((hinv.frames.used _).mpr ⟨pg, hf⟩)
    have hf' := ((hinv.ok pg).frame f hf).1
    have hal := pageAlign_mod addr
    simp only [pageSize] at hf' hal ⊢
    omega
  -- Above it the mapping is that of a page which may be written.
  · have hv' := virtualStart_le_pageAlign hv
    obtain ⟨-, pg, ht, ha, hf⟩ := h.owned _ _ m hm hv'
    obtain ⟨f, d, hold, hst⟩ := PageState.resident_of_frame? hf
    obtain rfl : f = m.frame := by
      rw [hst] at hf
      exact Option.some.inj hf
    have hg := h.guarded pg m (by rw [ht, ha, hm]) (by rw [ha]; exact hv') _ _ _ hst
    exact Or.inr ⟨hv, pg, hold, ⟨threadId_inj ht, ha⟩, hg.2 hrights ▸ hst, hg.1⟩

/-- There are no pages below `virtualStart`. -/
theorem Move.high (h : ∀ pg, φ pg ≠ .absent → virtualStart ≤ pg.addr) (hm : Move φ s ℓ φ' s') :
    ∀ pg, φ' pg ≠ .absent → virtualStart ≤ pg.addr := by
  -- A page that was there is not below, whatever becomes of it.
  have hupdate {pg : Page} {st : PageState} (hpg : virtualStart ≤ pg.addr) :
      ∀ pg', Function.update φ pg st pg' ≠ .absent → virtualStart ≤ pg'.addr := by
    intro pg' hne
    by_cases he : pg' = pg
    · rw [he]
      exact hpg
    · rw [Function.update_of_ne he] at hne
      exact h pg' hne
  -- Pages that are given up leave the others where they are.
  have hrelease (p : Nat) (inRange : Nat → Bool) :
      ∀ pg, φ.release p inRange pg ≠ .absent → virtualStart ≤ pg.addr := by
    intro pg hne
    refine h pg fun habsent => hne ?_
    by_cases hin : InRange p inRange pg
    · exact PageMap.release_of_inRange hin
    · rw [PageMap.release_of_not hin, habsent]
      rfl
  -- The first touch of a page is above `virtualStart`, and all other moves are of pages that are
  -- there.
  cases hm with
  | touch hv | touchPinned hv => exact hupdate hv
  | evict _ hpg | writeOut _ hpg | lose _ hpg | readIn hpg | dirty hpg | ack _ hpg | evicted _ hpg
  | restored _ hpg | arrive _ hpg | arrived _ hpg =>
      exact hupdate (h _ (by rw [hpg]; exact nofun))
  | release | delete => exact hrelease _ _
  | _ => exact h

/-- Every move keeps the hardware mappings where the page map has the page. -/
theorem Move.mapped (h : Mapped φ σ) (hP : Allowed s a φ σ ℓ)
    (hm : Move φ σ ℓ φ' σ') (htop : ∀ p ∈ s.deletes a, s.hw (threadId p) stackTop = none) :
    Mapped φ' σ' := by
  refine ⟨hm.high h.high, hm.owned h.owned ?_ ?_, hm.guarded h.owned h.guarded, hm.oneToOne h.oneToOne ?_⟩
  · rintro pg rights rfl hne
    obtain ⟨addr, env, -, haddr, -, hgranted, -⟩ := hP
    rw [haddr]
    exact (pageAlign_le addr).trans (Mm.le_stackTop_of_granted hgranted hne)
  · rintro p rfl
    exact hP.2.none (htop p hP.1)
  · rintro pg rights rfl
    obtain ⟨addr, env, -, haddr, hv, -⟩ := hP
    rw [haddr]
    exact virtualStart_le_pageAlign hv

/-- The stores that are allowed. -/
theorem Allowed.storeReaches (hinv : Inv φ σ) (h : Mapped φ σ) (hP : Allowed s a φ σ ℓ)
    (hok : s.KeepsPages a s') (p addr : Nat) (byte : UInt8) (hℓ : ℓ = .store p addr byte) :
    StoreReaches φ σ p addr := by
  subst hℓ
  obtain ⟨rfl, -, rfl⟩ := hP
  exact h.storeReaches hinv hok.2

/-- What the pages hold, for a step that keeps them. -/
theorem Chain.contents_some (hc : Chain (Allowed s a) φ s ls φ' s') (hinv : Inv φ s)
    (hok : s.KeepsPages a s') (h : Mapped φ s ∧ ∃ μ, Contents φ μ s) :
    Mapped φ' s' ∧ ∃ μ, Contents φ' μ s' := by
  refine hc.induction (I := fun φ s => Mapped φ s ∧ ∃ μ, Contents φ μ s) hinv h ?_
  rintro φ₁ σ ℓ φ₂ σ' hinv₁ ⟨hmapped, μ, hμ⟩ hP hm
  exact ⟨hm.mapped hmapped hP hok.1,
    hm.contents_some hinv₁ hμ (hP.storeReaches hinv₁ hmapped hok)⟩

end

/-- An entry that is found is in a table. -/
theorem Mm.hasTable_of_lookup {s : Mm} {pg : Page} {pte : Nat}
    (h : s.pagerTableLookup pg.tid pg.addr = some pte) :
    (s.ptable pg.pid).HasTable pg.addr := by
  obtain ⟨directory, hd, h⟩ := Option.bind_eq_some_iff.mp h
  obtain ⟨table, ht, -⟩ := Option.bind_eq_some_iff.mp h
  rw [Mm.getProcess, Page.tid2pid_tid] at hd
  exact ⟨directory, table, hd, ht⟩

/-! ### Clean pages -/

/-- After booting there are no pages. -/
theorem Mm.Booted.mapped {s : Mm} (h : s.Booted) : Mapped .empty s := by
  have hnone {t : ThreadId} {v : Nat} {m : HwMapping} {P : Prop} (hm : s.hw t v = some m) : P := by
    rw [h.hw] at hm
    cases hm
  exact ⟨fun _ hne => absurd rfl hne, fun _ _ _ hm => hnone hm, fun _ _ hm => hnone hm,
    fun _ _ _ hm => hnone hm⟩

/-- What a step has noted is no part of a mapping. -/
theorem Mapped.clear {φ : PageMap} {s : Mm} (h : Mapped φ s) : Mapped φ s.clear :=
  ⟨h.high, h.owned, h.guarded, h.oneToOne⟩

/-- After booting no page has contents. -/
theorem Mm.Booted.contents (s : Mm) : Contents .empty (fun _ _ => 0) s := fun _ _ _ => rfl

/-- In every reachable state the pages have some contents. -/
theorem Mm.Reachable.contents_some {s : Mm} (h : s.Reachable Mm.KeepsPages) :
    ∃ φ, Inv φ s ∧ Clean φ ∧ Mapped φ s ∧ ∃ μ, Contents φ μ s :=
  h.induction (fun φ s => Mapped φ s ∧ ∃ μ, Contents φ μ s)
    (fun s hs => ⟨hs.mapped, _, Mm.Booted.contents s⟩)
    fun _ _ _ _ hinv _ hI _ hok _ _ hp => hp.chain.contents_some hinv.clear hok ⟨hI.1.clear, hI.2⟩

/-- What the page table says of an active page. -/
theorem Inv.active_entry {φ : PageMap} {s : Mm} (h : Inv φ s) {it : PageQueueItem}
    (hit : it ∈ s.activePages) {pte : Nat}
    (hpte : s.pagerTableLookup it.tid it.virtualAddress = some pte) :
    ∃ pg f d, it.For pg ∧ φ pg = .resident f d (.active it) ∧ clearLowerBits pte = f ∧
      (pte &&& 0x2 != 0) = d := by
  obtain ⟨pg, f, d, hpg⟩ := (h.queues.active_iff it).mp hit
  have hfor := (h.queues.page pg it (by rw [hpg]; rfl)).1
  have hok := h.ok pg
  rw [hfor.1, hfor.2, h.lookup (h.hasTable (by rw [hpg]; exact nofun)), Option.some.injEq] at hpte
  rw [hpg] at hok hpte
  refine ⟨pg, f, d, hfor, hpg, ?_, ?_⟩
  · rw [← hpte, PageState.clearLowerBits_resident hok]
  · rw [← hpte, PageState.and_two_word hok]

/-- The page may be dropped: it has a slot, its frame does not change, and the slot holds what the
frame holds. -/
structure Mm.Saved (s : Mm) (it : PageQueueItem) (pte : Nat) : Prop where
  slot : 0 ≤ it.swapOffset
  readOnly : ∀ m, s.hw it.tid it.virtualAddress = some m → m.rights &&& writable = 0
  bytes : ∀ i < pageSize, s.swapFile (it.swapOffset + i) = s.phys (clearLowerBits pte + i)

/-- An active page that is clean is in its slot, and may not be written. -/
theorem Contents.saved {φ : PageMap} {s : Mm} {μ : Memory} {it : PageQueueItem} {pg : Page}
    {f : Nat} (h : Contents φ μ s) (hc : Clean φ) (hmapped : Mapped φ s) (hfor : it.For pg)
    (hpg : φ pg = .resident f false (.active it)) {pte : Nat}
    (hf : clearLowerBits pte = f) : s.Saved it pte := by
  refine ⟨hc pg f it hpg, fun m hm => ?_, fun i hi => ?_⟩
  -- A mapping that may be written is of a dirty page.
  · by_contra hne
    rw [hfor.1, hfor.2] at hm
    have hv := hmapped.high pg (by rw [hpg]; exact nofun)
    exact Bool.false_ne_true ((hmapped.guarded pg m hm hv _ _ _ hpg).2 hne)
  · have hcontents : PageState.Contents _ _ _ (.resident f false (.active it)) := hpg ▸ h pg
    obtain ⟨hframe, hslot⟩ := hcontents
    obtain ⟨b, hb, hin⟩ := hslot rfl
    rw [PageQueueItem.slot_eq_some.mp hb, hf, hin i hi, hframe i hi]

section

variable {φ φ' : PageMap} {s s' σ σ' : Mm} {μ : Memory} {ℓ : Label} {ls : List Label} {a : Action}

/-- The pages that are being written during a step from `s`: what was sent is what the frame
holds, or the page was mapped when the step began. -/
def SentSince (s : Mm) (φ : PageMap) (σ : Mm) : Prop :=
  ∀ pg f it, φ pg = .resident f true (.writing it) →
    WritesBack σ.requests σ.phys σ.swapFile it f ∨
      ∃ it₀ ∈ s.swappingPages, it₀.id = it.id ∧ it₀.For pg ∧
        (s.hw pg.tid pg.addr).isSome = true

/-- Before a step nothing has been sent yet. -/
theorem Current.sentSince (h : Current φ s) (hinv : Inv φ s) : SentSince s φ s := by
  intro pg f it hpg
  by_cases hmap : (s.hw pg.tid pg.addr).isSome = true
  · exact Or.inr ⟨it, hinv.queues.swapping_of_writing hpg, rfl,
      (hinv.queues.page pg it (by rw [hpg]; rfl)).1, hmap⟩
  · exact Or.inl (h pg f it hpg (Option.not_isSome_iff_eq_none.mp hmap))

/-- A page that stays mapped is written again. -/
theorem SentSince.current (h : SentSince s φ s') (hinv : Inv φ s') (hok : s.StaysMapped s') :
    Current φ s' := by
  intro pg f it hpg hnone
  rcases h pg f it hpg with hw | ⟨it₀, hmem, hid, hfor, hmap⟩
  · exact hw
  · have hdel := (hinv.queues.page pg it (by rw [hpg]; rfl)).2.1
    rw [← hfor.1, ← hfor.2] at hmap
    have hmap' := hok it₀ hmem hmap ⟨it, hinv.queues.swapping_of_writing hpg, hid.symm, hdel⟩
    rw [hfor.1, hfor.2, hnone] at hmap'
    cases hmap'

/-- Every move adds to what has been sent only what the page map has at that time. -/
theorem Move.sentSince (hinv : Inv φ σ) (hmapped : Mapped φ σ) (h : SentSince s φ σ)
    (hP : Allowed s a φ σ ℓ) (hok : s.KeepsPages a s') (hm : Move φ σ ℓ φ' σ') :
    SentSince s φ' σ' := by
  by_cases hstore : ∃ p addr byte, ℓ = .store p addr byte
  · -- a store changes only a page that is mapped
    obtain ⟨p, addr, byte, rfl⟩ := hstore
    have hreach := hP.storeReaches hinv hmapped hok p addr byte rfl
    obtain ⟨-, -, rfl⟩ := hP
    cases hm with
    | store _ hhw hrights =>
        intro pg f it hpg
        rcases h pg f it hpg with hw | hmap
        · by_cases hmap : (σ.hw pg.tid pg.addr).isSome = true
          · exact Or.inr ⟨it, hinv.queues.swapping_of_writing hpg, rfl,
              (hinv.queues.page pg it (by rw [hpg]; rfl)).1, hmap⟩
          · exact Or.inl (hw.store hinv byte hhw hrights hreach hpg
              (Option.not_isSome_iff_eq_none.mp hmap))
        · exact Or.inr hmap
  -- Any other move keeps what has been sent up to date.
  · have hkeeps := hm.keepsSent hinv fun p addr byte he => hstore ⟨p, addr, byte, he⟩
    intro pg f it' hpg
    rcases hkeeps pg f it' hpg with hw | ⟨it, hpg₀, hid, hkeep⟩
    · exact Or.inl hw
    · rcases h pg f it hpg₀ with hw | ⟨it₀, hmem, hid₀, hmap⟩
      · exact Or.inl (hkeep hw)
      · exact Or.inr ⟨it₀, hmem, hid₀.trans hid.symm, hmap⟩

/-- The memory after a step is that of its stores and of the pages that it releases. -/
theorem Chain.contents (hc : Chain (Allowed s a) φ σ ls φ' σ') (hinv : Inv φ σ)
    (hok : s.KeepsPages a s') (hmapped : Mapped φ σ) (hμ : Contents φ μ σ)
    (hsent : SentSince s φ σ) :
    Mapped φ' σ' ∧ Contents φ' (ls.foldl Label.remember μ) σ' ∧ SentSince s φ' σ' := by
  induction hc generalizing μ with
  | nil => exact ⟨hmapped, hμ, hsent⟩
  | cons hP hm _ ih =>
      refine ih (hm.inv hinv) (hm.mapped hmapped hP hok.1) ?_
        (hm.sentSince hinv hmapped hsent hP hok)
      refine hm.contents hinv hμ (hP.storeReaches hinv hmapped hok) ?_
      rintro it rfl pg f hpg hnone hlast
      -- An answer is handled before anything else in its step.
      obtain ⟨_, _, _, -, -, -, rfl⟩ := hP
      rcases hsent pg f it hpg with hw | ⟨_, -, -, -, hmap⟩
      · exact hw.returned (hinv.queues.writing pg f true it hpg).2 hlast
      · rw [hnone] at hmap
        cases hmap

/-- Only the moves that change contents count for what is remembered. -/
theorem foldl_remember (ls : List Label) (μ : Memory) :
    ls.foldl Label.remember μ = (ls.filter Label.content).foldl Label.remember μ := by
  induction ls generalizing μ with
  | nil => rfl
  | cons ℓ ls ih =>
      rw [List.foldl_cons, ih]
      cases hℓ : ℓ.content with
      | true => rw [List.filter_cons_of_pos hℓ, List.foldl_cons]
      | false =>
          rw [List.filter_cons_of_neg (by rw [hℓ]; exact Bool.false_ne_true),
            Label.remember_of_not_content hℓ]

end

/-- What processes have stored is the contents of their pages, by induction on the run. -/
theorem Mm.Remembers.contents {s : Mm} {μ : Memory} (h : Mm.Remembers Mm.KeepsMemory s μ) :
    ∃ φ, Inv φ s ∧ Clean φ ∧ Mapped φ s ∧ Contents φ μ s ∧ Current φ s := by
  induction h with
  -- After booting nothing has been stored.
  | boot hb hs =>
      obtain ⟨s₁, hs₁, hbooted⟩ := Mm.boot_spec hb
      obtain rfl := Option.some.inj (hs₁.symm.trans hs)
      exact ⟨.empty, hbooted.inv, nofun, hbooted.mapped, Mm.Booted.contents _, nofun⟩
  -- A step is a chain of moves, each of which does to the contents what is remembered of it.
  | @step s s' μ a _ hs hok ih =>
      obtain ⟨φ, hinv, hclean, hmapped, hμ, hcurrent⟩ := ih
      obtain ⟨-, ls, φ', hp⟩ := step_spec hinv hclean hs
      have hinv' := hp.chain.inv hinv.clear
      have hpages : s.clear.KeepsPages a s' := hok.1
      obtain ⟨hmapped', hμ', hsent'⟩ := hp.chain.contents hinv.clear hpages hmapped.clear hμ
        (Current.sentSince hcurrent hinv.clear)
      refine ⟨φ', hinv', hp.chain.clean hinv.clear hclean, hmapped', ?_,
        hsent'.current hinv' hok.2⟩
      -- Of the chain only the moves of the action count.
      rw [foldl_remember, hp.effects] at hμ'
      exact hμ'

/-- A page that is mapped holds what its process has stored. -/
theorem Mapped.kept {φ : PageMap} {s : Mm} {μ : Memory} (hmapped : Mapped φ s)
    (hμ : Contents φ μ s) {p v : Nat} {m : HwMapping} (hv : virtualStart ≤ v)
    (hm : s.hw (threadId p) v = some m) {i : Nat} (hi : i < pageSize) :
    s.phys (m.frame + i) = μ p (v + i) := by
  obtain ⟨-, pg, ht, rfl, hf⟩ := hmapped.owned _ v m hm hv
  obtain ⟨f, d, hold, hst⟩ := PageState.resident_of_frame? hf
  obtain rfl : f = m.frame := by
    rw [hst] at hf
    exact Option.some.inj hf
  have hnot := (hmapped.guarded pg m (by rw [ht]; exact hm) hv _ _ _ hst).1
  have hp : pg.pid = p := threadId_inj ht
  exact hp ▸ (hμ pg).inFrame hst hnot i hi

/-- An active page holds what its process has stored. -/
theorem Inv.active_kept {φ : PageMap} {s : Mm} {μ : Memory} (hinv : Inv φ s)
    (hμ : Contents φ μ s) {it : PageQueueItem} (hit : it ∈ s.activePages) {pte : Nat}
    (hpte : s.pagerTableLookup it.tid it.virtualAddress = some pte) {i : Nat} (hi : i < pageSize) :
    s.phys (clearLowerBits pte + i) = μ (tid2pid it.tid) (it.virtualAddress + i) := by
  obtain ⟨pg, f, d, hfor, hpg, rfl, -⟩ := hinv.active_entry hit hpte
  rw [hfor.1, hfor.2, Page.tid2pid_tid]
  exact (hμ pg).inFrame hpg nofun i hi

/-- Eight answers of the NFS server to the requests for one page. -/
def eightReplies : List Action := List.replicate 8 (.nfsReply 0 .ok)

/-- A page is written to the swap file after a byte was stored in it, and read back when its
process looks at it again. -/
def swappedBack : List Action :=
  [.createProcess [115] 0, .fault 1 heapStart writable .plain, .store 1 heapStart 7] ++
    (.fault 1 (heapStart + pageSize) writable .plain ::
      .fault 1 (heapStart + 2 * pageSize) writable .plain :: eightReplies) ++
    (.fault 1 (heapStart + 2 * pageSize) writable .plain ::
      .fault 1 heapStart readable .plain :: eightReplies) ++
    (.fault 1 heapStart readable .plain :: eightReplies) ++ [.fault 1 heapStart readable .plain]

/-- The page of one process is written to the swap file for the other one. Its own process maps
it again, stores a byte and unmaps it before the last answer. -/
def storedMeanwhile : List Action :=
  [.createProcess [115] 0, .createProcess [116] 0, .fault 2 heapStart writable .plain,
    .fault 1 heapStart writable .plain, .fault 1 (heapStart + pageSize) writable .plain,
    .fault 2 heapStart writable .plain, .store 2 heapStart 7, .unmapAll 2] ++ eightReplies

/-- The last answer takes a page that was mapped and unmapped again for one that has not changed,
so that the slot does not hold what was stored. -/
theorem store_lost : ¬ ∀ (s : Mm) (μ : Memory), Mm.Remembers Mm.KeepsPages s μ →
    ∀ pg : Page, ∀ pte, s.pagerTableLookup pg.tid pg.addr = some pte → isSwapped pte = true →
      ∀ i < pageSize, s.swapFile ((clearLowerBits pte : Nat) + i) = μ pg.pid (pg.addr + i) := by
  intro hall
  obtain ⟨s, μ, hreach, hentry, hbyte⟩ := Mm.exists_remembers Mm.KeepsPages
    (Mm.Boot.small_ok Nat.two_pos (by decide)) storedMeanwhile
    (fun x => (x.1.pagerTableLookup (threadId 2) heapStart).any (fun pte => isSwapped pte = true ∧
      x.1.swapFile (clearLowerBits pte : Nat) = 0) ∧ x.2 2 heapStart = 7) (by decide +kernel)
  obtain ⟨pte, hpte, hslot⟩ := (Option.any_eq_true ..).mp hentry
  obtain ⟨hsw, hzero⟩ := of_decide_eq_true hslot
  have hheld := hall s μ hreach ⟨2, heapStart, by decide, by decide⟩ pte hpte hsw 0 (by decide)
  rw [Int.natCast_zero, Int.add_zero, hzero] at hheld
  have hseven : (0 : UInt8) = 7 := hheld.trans hbyte
  cases hseven

/-- A machine with two frames below `virtualStart`. -/
def Mm.Boot.physical : Mm.Boot := { Mm.Boot.small 2 with low := 0x1000000, high := 0x1002000 }

/-- The run starts as the kernel leaves the memory. -/
theorem Mm.Boot.physical_ok : Mm.Boot.physical.Ok :=
  ⟨by decide, by decide, by decide, by decide, by decide, by decide⟩

/-- A process that is not initialized stores into the frames of others, which are mapped for it
where they are. -/
theorem frame_overwritten : ¬ ∀ (s : Mm) (μ : Memory),
    Mm.Remembers (fun s a s' => Mm.StackTopUnmapped s a s' ∧ Mm.StaysMapped s s') s μ →
      ∀ p v m, virtualStart ≤ v → s.hw (threadId p) v = some m →
        ∀ i < pageSize, s.phys (m.frame + i) = μ p (v + i) := by
  intro hall
  obtain ⟨s, μ, hreach, hmap, hzero⟩ := Mm.exists_remembers
    (fun s a s' => Mm.StackTopUnmapped s a s' ∧ Mm.StaysMapped s s') Mm.Boot.physical_ok
    [.createProcess [115] 0, .createProcess [116] 0, .fault 1 heapStart writable .plain,
      .fault 2 0x1000000 writable .plain, .store 2 0x1000000 7,
      .fault 2 0x1001000 writable .plain, .store 2 0x1001000 7]
    (fun x => ((x.1.hw (threadId 1) heapStart).any fun m => x.1.phys m.frame = 7) ∧
      x.2 1 heapStart = 0) (by decide +kernel)
  obtain ⟨m, hm, hseven⟩ := (Option.any_eq_true ..).mp hmap
  have hbyte := hall s μ hreach 1 heapStart m (by decide) hm 0 (by decide)
  have hne : (7 : UInt8) = 0 := (of_decide_eq_true hseven).symm.trans (hbyte.trans hzero)
  cases hne

end Sos
