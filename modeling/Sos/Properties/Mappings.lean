import Sos.Properties.Frames

/-!
# `Sos.Properties.Mappings`: what a process can reach

The hardware mappings of a thread outlive the process in its slot, so each one has to be
removed when its page is. Two functions decide which pages those are, and a third one decides
which pages are mapped in the first place; they do not agree on the page at `stackTop`.

* `mapping_owned`: a mapping at or above `virtualStart` shows the process its own frame, as long
  as no process is deleted while its page at `stackTop` is mapped (`mapping_left`);
* `mapping_confined`: a mapping carries only rights that the process has on every byte of its
  page. This needs that nobody is granted the pages at the two ends of the stack, that nobody
  faults below `virtualStart` without asking for an access, and that an initializer has nothing
  mapped below `0x710000` when it is done (`stackTop_shared`).
-/

set_option autoImplicit false

namespace Sos

/-! ### The rights on a page -/

section

variable {s : Mm} {tid : ThreadId}

/-- Nothing is granted above `stackTop`. -/
theorem Mm.le_stackTop_of_granted {addr access : Nat}
    (h : s.isAccessGranted tid addr access = true) (hne : access ≠ 0) : addr ≤ stackTop := by
  by_contra hlt
  have hrights : s.getAccessRights tid addr = noAccess := by
    obtain ⟨h1, h2, h3, h4, h5, h6, h7, h8, h9, h10, h11⟩ := layout
    simp only [Mm.getAccessRights, h1, h2, h3, h4, h5, h6, h7, h8, h9, h10, h11] at hlt ⊢
    split_ifs <;> first | rfl | omega
  rw [Mm.isAccessGranted, hrights, noAccess, Nat.and_zero] at h
  exact hne (beq_iff_eq.mp h).symm

/-- The rights are the same on all bytes of a page, except at the ends of the stack. -/
theorem Mm.getAccessRights_page {s' : Mm} {v a : Nat}
    (hinit : (s'.getProcess tid).initialized = (s.getProcess tid).initialized)
    (hv : v % pageSize = 0) (hend : v ≠ stackEnd) (htop : v ≠ stackTop) (h1 : v ≤ a)
    (h2 : a < v + pageSize) : s'.getAccessRights tid a = s.getAccessRights tid v := by
  obtain ⟨l1, l2, l3, l4, l5, l6, l7, l8, l9, l10, l11⟩ := layout
  simp only [pageSize, l10, l11] at hv hend htop h2
  have e1 : a < 4096 ↔ v < 4096 := by omega
  have e2 : a < virtualStart ↔ v < virtualStart := by omega
  have e3 : a ≥ textStart ∧ a < textEnd ↔ v ≥ textStart ∧ v < textEnd := by omega
  have e4 : a ≥ dataStart ∧ a < dataEnd ↔ v ≥ dataStart ∧ v < dataEnd := by omega
  have e5 : a ≥ heapStart ∧ a < heapEnd ↔ v ≥ heapStart ∧ v < heapEnd := by omega
  have e6 : a ≥ ipcStart ∧ a < ipcEnd ↔ v ≥ ipcStart ∧ v < ipcEnd := by omega
  have e7 : a > stackEnd ∧ a ≤ stackTop ↔ v > stackEnd ∧ v ≤ stackTop := by omega
  simp only [Mm.getAccessRights, hinit, e1, e2, e3, e4, e5, e6, e7]

end

/-! ### The frames behind the mappings -/

/-- Every mapping above the physical range is of the frame of a page, at most the one at
`stackTop`. -/
def Owned (φ : PageMap) (s : Mm) : Prop :=
  ∀ t v m, s.hw t v = some m → virtualStart ≤ v →
    v ≤ stackTop ∧ ∃ pg : Page, pg.tid = t ∧ pg.addr = v ∧ (φ pg).frame? = some m.frame

section

variable {φ φ' : PageMap} {s s' : Mm}

/-- Mappings may go, and pages that are mapped keep their frames. -/
theorem Owned.mono (h : Owned φ s) (hhw : ∀ t v, s'.hw t v = none ∨ s'.hw t v = s.hw t v)
    (hframe : ∀ pg f, (φ pg).frame? = some f → s.hw pg.tid pg.addr ≠ none →
      s'.hw pg.tid pg.addr ≠ none → (φ' pg).frame? = some f) : Owned φ' s' := by
  intro t v m hm hv
  rcases hhw t v with hn | he
  · rw [hn] at hm
    cases hm
  · have hm₀ := he.symm.trans hm
    obtain ⟨htop, pg, rfl, rfl, hpg⟩ := h t v m hm₀ hv
    refine ⟨htop, pg, rfl, rfl, hframe pg _ hpg ?_ ?_⟩
    · rw [hm₀]
      exact nofun
    · rw [hm]
      exact nofun

/-- The mappings stay, and so do the frames. -/
theorem Owned.same (h : Owned φ s) (hhw : s'.hw = s.hw)
    (hframe : ∀ pg, (φ' pg).frame? = (φ pg).frame?) : Owned φ' s' :=
  h.mono (fun _ _ => Or.inr (by rw [hhw])) fun pg f hpg _ _ => (hframe pg).trans hpg

/-- A page that is not mapped changes. -/
theorem Owned.update (h : Owned φ s) (hhw : s'.hw = s.hw) {pg : Page} {st : PageState}
    (hpg : s.hw pg.tid pg.addr = none ∨ (φ pg).frame? = none) :
    Owned (Function.update φ pg st) s' := by
  refine h.mono (fun _ _ => Or.inr (by rw [hhw])) fun pg' f hf hmapped _ => ?_
  have hne : pg' ≠ pg := by
    rintro rfl
    rcases hpg with hn | hn
    · exact hmapped hn
    · rw [hn] at hf
      cases hf
  rwa [Function.update_of_ne hne]

/-- The pages of a range go. -/
theorem Owned.release (h : Owned φ s) (hhw : s'.hw = s.hw) {p : Nat} {inRange : Nat → Bool}
    (hrange : ∀ pg f, InRange p inRange pg → (φ pg).frame? = some f → pg.addr ≤ stackTop →
      s.hw pg.tid pg.addr = none) : Owned (φ.release p inRange) s' := by
  intro t v m hm hv
  rw [hhw] at hm
  obtain ⟨htop, pg, rfl, rfl, hpg⟩ := h t v m hm hv
  refine ⟨htop, pg, rfl, rfl, ?_⟩
  rw [PageMap.release_of_not, PageState.frame?_mapSwapping, hpg]
  intro hin
  rw [hrange pg _ hin hpg htop] at hm
  cases hm

/-- A page with a frame is resident. -/
theorem PageState.resident_of_frame? {st : PageState} {f : Nat} (h : st.frame? = some f) :
    st.Resident := by
  cases st with
  | absent | swapped _ => cases h
  | resident g d hold => exact ⟨g, d, hold, rfl⟩

/-- Every move keeps it that maps no page above `stackTop`, and deletes no process whose page
at `stackTop` is mapped. -/
theorem Move.owned {ℓ : Label} (h : Owned φ s) (hm : Move φ s ℓ φ' s')
    (hmap : ∀ pg rights, ℓ = .map pg rights → rights ≠ 0 → pg.addr ≤ stackTop)
    (hdelete : ∀ p, ℓ = .delete p → s.hw (threadId p) stackTop = none) : Owned φ' s' := by
  cases hm with
  | requeue | noPage | entry | store | ackDoomed | discardWrite | discardRead | register
  | registerFull | start | fault | setWait | setWaitFor | say => exact h
  | unmap hhw => exact h.mono hhw fun _ _ hpg _ _ => hpg
  | evict _ _ _ hhw => exact h.update rfl (Or.inl hhw)
  | evicted _ _ _ _ hhw => exact h.update rfl (Or.inl hhw)
  | touch _ _ _ hpg | touchPinned _ _ _ hpg | readIn hpg =>
      exact h.update rfl (Or.inr (by rw [hpg]; rfl))
  | writeOut _ hpg | lose _ hpg | dirty hpg | ack _ hpg | restored _ hpg | arrive _ hpg
  | arrived _ hpg => exact h.same rfl (frame_update (by rw [hpg]; rfl))
  -- A fault maps the page that it has just made resident.
  | @map pg f _ _ rights hpg _ hr =>
      intro t v m hm hv
      dsimp only at hm
      split at hm
      next he =>
        obtain ⟨rfl, rfl⟩ := he
        obtain rfl := Option.some.inj hm
        exact ⟨hmap pg rights rfl hr, pg, rfl, rfl, by rw [hpg]; rfl⟩
      next => exact h t v m hm hv
  -- What pager maps by physical address lies below the pages it owns.
  | mapPhys hlow =>
      intro t v m hm hv
      dsimp only at hm
      split at hm
      next he => omega
      next => exact h t v m hm hv
  | release _ _ hhw hr =>
      exact h.release hr.hw fun pg f hin hf _ => hhw pg hin (PageState.resident_of_frame? hf)
  -- Delete releases below STACK_TOP; at STACK_TOP nothing is mapped by assumption.
  | delete _ hhw hr =>
      refine h.release hr.hw fun pg f hin hf htop => ?_
      rcases Nat.lt_or_eq_of_le htop with hlt | heq
      · exact hhw pg hin.1 hlt (PageState.resident_of_frame? hf)
      · have hnone := hdelete _ rfl
        rwa [← hin.1, ← heq] at hnone

end

namespace Mm

/-- The step deletes no process whose page at `stackTop` is mapped. -/
def StackTopUnmapped (s : Mm) (a : Action) (_ : Mm) : Prop :=
  ∀ p ∈ s.deletes a, s.hw (threadId p) stackTop = none

instance (s : Mm) (a : Action) (s' : Mm) : Decidable (StackTopUnmapped s a s') :=
  inferInstanceAs (Decidable (∀ p ∈ s.deletes a, s.hw (threadId p) stackTop = none))

end Mm

/-- A step that deletes no process whose page at `stackTop` is mapped. -/
theorem Chain.owned {φ φ' : PageMap} {s s' : Mm} {a : Action} {ls : List Label}
    (hc : Chain (Allowed s a) φ s ls φ' s') (hinv : Inv φ s) (h : Owned φ s)
    (hok : ∀ p ∈ s.deletes a, s.hw (threadId p) stackTop = none) : Owned φ' s' := by
  refine hc.induction hinv h fun φ₁ σ ℓ φ₂ σ' _ hI hP hm => hm.owned hI ?_ ?_
  · rintro pg rights rfl hne
    obtain ⟨addr, env, -, haddr, -, hgranted, -⟩ := hP
    rw [haddr]
    exact (pageAlign_le addr).trans (Mm.le_stackTop_of_granted hgranted hne)
  · rintro p rfl
    exact hP.2.none (hok p hP.1)

/-- By induction on the run: every mapping is of the frame of its page. -/
theorem Mm.Reachable.owned {s : Mm} (h : s.Reachable Mm.StackTopUnmapped) :
    ∃ φ, Inv φ s ∧ Owned φ s := by
  obtain ⟨φ, hinv, -, howned⟩ := h.induction Owned
    (fun s hs t v m hm => by rw [hs.hw] at hm; cases hm)
    fun φ s a s' hinv _ hI _ hok ls φ' hp => hp.chain.owned hinv.clear hI hok
  exact ⟨φ, hinv, howned⟩

/-- Address-space isolation, as long as no process is deleted while its page at `stackTop` is
mapped: a mapping of an active process at or above `virtualStart` is of the frame in its page
table entry, and every other mapping there is of such a process too. So none is left of a
process that was deleted. -/
theorem mapping_owned {s : Mm} (h : s.Reachable Mm.StackTopUnmapped) :
    (∀ p < maxRunningProcess, (s.ptable p).isActive = true → ∀ v m, virtualStart ≤ v →
      s.hw (s.ptable p).tid v = some m → s.Resident p v m.frame) ∧
      ∀ t v m, virtualStart ≤ v → s.hw t v = some m →
        s.frames.Used m.frame ∧ ∃ p, s.Live p ∧ t = threadId p ∧ s.Resident p v m.frame := by
  obtain ⟨φ, hinv, howned⟩ := h.owned
  have hpage : ∀ t v m, virtualStart ≤ v → s.hw t v = some m →
      s.frames.Used m.frame ∧ ∃ p, s.Live p ∧ t = threadId p ∧ s.Resident p v m.frame := by
    intro t v m hv hm
    obtain ⟨-, pg, rfl, rfl, hpg⟩ := howned t v m hm hv
    have hlive := hinv.tables.live pg (by rintro he; rw [he] at hpg; cases hpg)
    exact ⟨(hinv.frames.used _).mpr ⟨pg, hpg⟩, pg.pid, hlive, rfl,
      (hinv.resident_iff pg _).mpr hpg⟩
  refine ⟨fun p hp _ v m hv hm => ?_, hpage⟩
  obtain ⟨-, q, hlive, ht, hres⟩ := hpage _ v m hv hm
  obtain rfl := hinv.pid_of_tid hp hlive.1 ht.symm
  exact hres

/-- One process touches a page of its heap. -/
def oneFault : List Action := threeFaults.take 2

/-- The page of the fault is mapped to its frame. -/
theorem mapping_owned_oneFault :
    ∃ s, Mm.runOn Mm.StackTopUnmapped (.small 2) oneFault = some s ∧
      ∃ m, s.hw (s.ptable 1).tid heapStart = some m ∧ s.Resident 1 heapStart m.frame := by
  obtain ⟨s, hs, hreach, hact, hm⟩ := Mm.exists_runOn Mm.StackTopUnmapped
    (Mm.Boot.small_ok Nat.two_pos (by decide)) oneFault
    (fun s => (s.ptable 1).isActive = true ∧ (s.hw (s.ptable 1).tid heapStart).isSome = true)
    (by decide +kernel)
  obtain ⟨m, hm⟩ := Option.isSome_iff_exists.mp hm
  exact ⟨s, hs, m, hm, (mapping_owned hreach).1 1 (by decide) hact _ m (by decide) hm⟩

/-- A process maps its page at `stackTop` and ends. The table is filled until its slot is used
again. -/
def slotReused : List Action :=
  [.createProcess [115] 0, .fault 1 stackTop readWriteOnly .plain, .deleteProcess 1 1] ++
    List.replicate 127 (.createProcess [116] 0)

/-- `pager_unmap_all` stops below `stackTop`, where `get_access_rights` still grants access: the
next process in the slot has a page that it does not own. -/
theorem mapping_left :
    ¬ ∀ s : Mm, s.Reachable Mm.anyStep → ∀ p < maxRunningProcess, (s.ptable p).isActive = true →
      ∀ v m, virtualStart ≤ v → s.hw (s.ptable p).tid v = some m → s.Resident p v m.frame := by
  intro hall
  obtain ⟨s, -, hreach, hact, hm, hpte⟩ := Mm.exists_runOn Mm.anyStep
    (Mm.Boot.small_ok Nat.two_pos (by decide)) slotReused
    (fun s => (s.ptable 1).isActive = true ∧ (s.hw (s.ptable 1).tid stackTop).isSome = true ∧
      (s.ptable 1).pte stackTop = 0) (by decide +kernel)
  obtain ⟨m, hm⟩ := Option.isSome_iff_exists.mp hm
  exact (hall s hreach 1 (by decide) hact stackTop m (by decide) hm).present hpte

/-! ### The rights behind the mappings -/

/-- Where `pager_unmap_initializer` starts. -/
def initializerStart : Nat := 0x710000

namespace Mm

/-- A fault that is granted is not for a page at one of the ends of the stack, and not without
an access to a page below `virtualStart` that the process must not reach. A fault that is not
granted maps nothing, whatever it is for. An initializer that is done has nothing mapped below
`initializerStart`. -/
def KeepsConfined (s : Mm) (a : Action) (_ : Mm) : Prop :=
  match a with
  | .fault p addr access _ => s.isAccessGranted (threadId p) addr access = true →
    (access ≠ 0 → ¬ (stackEnd < addr ∧ addr < stackEnd + pageSize) ∧ addr ≠ stackTop) ∧
      (access = 0 → addr < virtualStart → 4096 ≤ addr ∧ (s.ptable p).initialized = false)
  | .startProcess p status => (s.ptable p).initialized = false → status ≠ 0 →
    ∀ i < initializerStart / pageSize, s.hw (threadId p) (i * pageSize) = none
  | _ => True

instance (s : Mm) (a : Action) (s' : Mm) : Decidable (KeepsConfined s a s') := by
  match a with
  | .fault .. => exact inferInstanceAs (Decidable (_ → _ ∧ _))
  | .startProcess .. => exact inferInstanceAs (Decidable (_ → _ → _))
  | .store .. | .nfsReply .. | .unmapAll _ | .deleteProcess .. | .waitProcess ..
  | .createProcess .. => exact inferInstanceAs (Decidable True)

end Mm

/-- A mapping below `virtualStart` belongs to a slot without an initialized process, and one
above it carries only rights the process has. The pages at the ends of the stack and the first
page are not mapped. -/
structure ConfinedAt (s : Mm) (t : ThreadId) (v : Nat) (m : HwMapping) : Prop where
  aligned : v % pageSize = 0
  stack : v ≠ stackEnd ∧ v ≠ stackTop
  low : v < virtualStart → 4096 ≤ v ∧ m.rights = fullyAccessible ∧
    ∃ p, 1 ≤ p ∧ t = threadId p ∧ (s.Live p → (s.ptable p).initialized = false)
  high : virtualStart ≤ v → m.rights &&& s.getAccessRights t v = m.rights

def Confined (s : Mm) : Prop := ∀ t v m, s.hw t v = some m → ConfinedAt s t v m

/-- The moves that keep the mappings confined. -/
def Label.Confined (s : Mm) : Label → Prop
  | .map pg rights => rights ≠ 0 → virtualStart ≤ pg.addr ∧ pg.addr ≠ stackEnd ∧
    pg.addr ≠ stackTop ∧ rights &&& s.getAccessRights pg.tid pg.addr = rights
  | .mapPhys p v => 1 ≤ p ∧ 4096 ≤ v ∧ v % pageSize = 0 ∧ (s.ptable p).initialized = false
  | .start p => ∀ v < initializerStart, v % pageSize = 0 → s.hw (threadId p) v = none
  | _ => True

section

variable {φ φ' : PageMap} {s s' : Mm}

/-- Mappings may go, and processes may end. -/
theorem Confined.mono (h : Confined s) (hhw : ∀ t v, s'.hw t v = none ∨ s'.hw t v = s.hw t v)
    (hlive : ∀ p, s'.Live p → s.Live p)
    (hinit : ∀ p, (s'.ptable p).initialized = (s.ptable p).initialized) : Confined s' := by
  intro t v m hm
  rcases hhw t v with hn | he
  · rw [hn] at hm
    cases hm
  obtain ⟨haligned, hstack, hlow, hhigh⟩ := h t v m (he.symm.trans hm)
  refine ⟨haligned, hstack, fun hv => ?_, fun hv => ?_⟩
  · obtain ⟨h1, h2, p, hp, ht, hp'⟩ := hlow hv
    exact ⟨h1, h2, p, hp, ht, fun hl => (hinit p).trans (hp' (hlive p hl))⟩
  · rw [Mm.getAccessRights_page (s := s) (hinit _) haligned hstack.1 hstack.2 le_rfl
      (Nat.lt_add_of_pos_right (by decide))]
    exact hhigh hv

/-- A new process has no mappings but the ones its slot has below `virtualStart`, which it may
have. -/
theorem Confined.register (h : Confined s) (howned : Owned φ s) (hinv : Inv φ s) {p : Nat}
    (hfree : (s.ptable p).isActive = false) (hhw : s'.hw = s.hw)
    (hother : ∀ q, q ≠ p → s'.ptable q = s.ptable q) (hinit : (s'.ptable p).initialized = false) :
    Confined s' := by
  intro t v m hm
  rw [hhw] at hm
  obtain ⟨haligned, hstack, hlow, hhigh⟩ := h t v m hm
  refine ⟨haligned, hstack, fun hv => ?_, fun hv => ?_⟩
  · obtain ⟨h1, h2, q, hq, ht, hq'⟩ := hlow hv
    refine ⟨h1, h2, q, hq, ht, fun hl => ?_⟩
    -- Below the heap: the image of a process that is not yet started.
    by_cases hqp : q = p
    · rw [hqp, hinit]
    · rw [Mm.Live, LiveIn, hother q hqp] at hl
      rw [hother q hqp]
      exact hq' hl
  · -- above it the mapping belongs to a live process, so not to this slot
    obtain ⟨-, pg, rfl, -, hpg⟩ := howned t v m hm hv
    have hlive := hinv.tables.live pg (by rintro he; rw [he] at hpg; cases hpg)
    have hne : pg.pid ≠ p := by
      rintro he
      rw [he, LiveIn, hfree] at hlive
      exact Bool.false_ne_true hlive.2.2.1
    have hget : (s'.getProcess pg.tid).initialized = (s.getProcess pg.tid).initialized := by
      rw [Mm.getProcess, Mm.getProcess, Page.tid2pid_tid, hother _ hne]
    rw [Mm.getAccessRights_page hget haligned hstack.1 hstack.2 le_rfl
      (Nat.lt_add_of_pos_right (by decide))]
    exact hhigh hv

/-- A process that is started has no mappings. -/
theorem Confined.start (h : Confined s) (howned : Owned φ s) {p : Nat} (hhw : s'.hw = s.hw)
    (hlive : ∀ q, s'.Live q → s.Live q) (hother : ∀ q, q ≠ p → s'.ptable q = s.ptable q)
    (hlow : ∀ v < initializerStart, v % pageSize = 0 → s.hw (threadId p) v = none)
    (hphys : ∀ v, initializerStart ≤ v → v < virtualStart → v % pageSize = 0 →
      s.hw (threadId p) v = none)
    (hpages : ∀ pg : Page, pg.pid = p → pg.addr < stackTop → (φ pg).Resident →
      s.hw pg.tid pg.addr = none) : Confined s' := by
  intro t v m hm
  rw [hhw] at hm
  obtain ⟨haligned, hstack, hbelow, habove⟩ := h t v m hm
  refine ⟨haligned, hstack, fun hv => ?_, fun hv => ?_⟩
  · obtain ⟨h1, h2, q, hq, rfl, hq'⟩ := hbelow hv
    refine ⟨h1, h2, q, hq, rfl, fun hl => ?_⟩
    -- The process that starts has nothing mapped below, it is still the initializer's image.
    by_cases hqp : q = p
    · subst hqp
      have hnone : s.hw (threadId q) v = none := by
        rcases Nat.lt_or_ge v initializerStart with hlt | hge
        · exact hlow v hlt haligned
        · exact hphys v hge hv haligned
      rw [hnone] at hm
      cases hm
    · rw [hother q hqp]
      exact hq' (hlive q hl)
  · obtain ⟨htop, pg, rfl, rfl, hpg⟩ := howned t v m hm hv
    have hne : pg.pid ≠ p := by
      rintro hp
      have hlt : pg.addr < stackTop := Nat.lt_of_le_of_ne htop hstack.2
      rw [hpages pg hp hlt (PageState.resident_of_frame? hpg)] at hm
      cases hm
    have hget : (s'.getProcess pg.tid).initialized = (s.getProcess pg.tid).initialized := by
      rw [Mm.getProcess, Mm.getProcess, Page.tid2pid_tid, hother _ hne]
    rw [Mm.getAccessRights_page hget haligned hstack.1 hstack.2 le_rfl
      (Nat.lt_add_of_pos_right (by decide))]
    exact habove hv

/-- A move that maps with the rights of the region keeps the mappings confined. -/
theorem Move.confined {ℓ : Label} (hinv : Inv φ s) (howned : Owned φ s) (h : Confined s)
    (hm : Move φ s ℓ φ' s') (hℓ : ℓ.Confined s) : Confined s' := by
  cases ℓ with
  | quiet | fault | store | answer | lose | noPage | release | delete =>
      exact h.mono (hm.unmapped nofun nofun) (fun p => hm.live nofun)
        fun p => hm.initialized nofun nofun
  | register p =>
      cases hm with
      | register _ _ hfree _ _ _ _ hinit =>
          refine h.register howned hinv hfree rfl (fun q hq => Function.update_of_ne hq _ _) ?_
          simp only [Function.update_self, hinit]
  | start p =>
      have hlive : ∀ q, s'.Live q → s.Live q := fun q => hm.live nofun
      cases hm with
      | start _ hphys hhw =>
          exact h.start howned rfl hlive (fun q hq => Function.update_of_ne hq _ _) hℓ hphys hhw
  -- The new mapping is confined by `hℓ`, the others as before.
  | map pg rights =>
      cases hm with
      | map _ _ hr =>
          obtain ⟨hv, hstack, htop, hrights⟩ := hℓ hr
          intro t v m hm
          dsimp only at hm
          split at hm
          next he =>
            obtain ⟨rfl, rfl⟩ := he
            obtain rfl := Option.some.inj hm
            exact ⟨pg.aligned, ⟨hstack, htop⟩, fun hlow => by omega, fun _ => hrights⟩
          next =>
            obtain ⟨h1, h2, h3, h4⟩ := h t v m hm
            exact ⟨h1, h2, h3, h4⟩
  | mapPhys p v₀ =>
      cases hm with
      | mapPhys hlow =>
          obtain ⟨hp, hpos, haligned, hinit⟩ := hℓ
          intro t v m hm
          dsimp only at hm
          split at hm
          next he =>
            obtain ⟨rfl, rfl⟩ := he
            obtain rfl := Option.some.inj hm
            refine ⟨haligned, ?_, fun _ => ⟨hpos, rfl, p, hp, rfl, fun _ => hinit⟩, fun hv => by omega⟩
            obtain ⟨l1, -, -, -, -, -, -, -, -, l10, l11⟩ := layout
            omega
          next =>
            obtain ⟨h1, h2, h3, h4⟩ := h t v m hm
            exact ⟨h1, h2, h3, h4⟩

end

/-- The moves of a step that keeps the mappings confined. -/
theorem Allowed.confined {s σ : Mm} {a : Action} {φ : PageMap} {ℓ : Label}
    (h : Allowed s a φ σ ℓ) (hen : s.Enabled a) (s' : Mm) (hok : s.KeepsConfined a s') :
    ℓ.Confined σ := by
  have hpage : (stackEnd % pageSize = 0 ∧ stackTop % pageSize = 0) ∧ virtualStart % pageSize = 0 := by
    decide
  cases ℓ with
  | map pg rights =>
      obtain ⟨addr, env, rfl, haddr, hv, hgranted, hsame⟩ := h
      intro hne
      obtain ⟨hend, htop⟩ := (hok hgranted).1 hne
      have hle := Mm.le_stackTop_of_granted hgranted hne
      have hget : (σ.getProcess pg.tid).initialized = (s.getProcess pg.tid).initialized :=
        (hsame _).initialized
      have hlo : pg.addr ≤ addr := haddr ▸ pageAlign_le addr
      have hhi : addr < pg.addr + pageSize := by
        have := pageAlign_add_mod addr
        have := Nat.mod_lt addr (show 0 < pageSize by decide)
        omega
      -- The pages at the ends of the stack grant nothing at their first byte.
      have hstack : pg.addr ≠ stackEnd ∧ pg.addr ≠ stackTop := by
        refine ⟨fun he => ?_, fun he => ?_⟩
        · have hne' : addr ≠ stackEnd := by
            rintro rfl
            have hnone : s.getAccessRights pg.tid stackEnd = noAccess := by
              obtain ⟨l1, l2, l3, l4, l5, l6, l7, l8, l9, l10, l11⟩ := layout
              simp only [Mm.getAccessRights, l1, l2, l3, l4, l5, l6, l7, l8, l9, l10, l11]
              simp
            rw [Mm.isAccessGranted, hnone, noAccess, Nat.and_zero] at hgranted
            exact hne (beq_iff_eq.mp hgranted).symm
          exact hend ⟨by omega, by omega⟩
        · omega
      refine ⟨?_, hstack.1, hstack.2, ?_⟩
      · have := pg.aligned
        simp only [pageSize] at *
        omega
      · have hpg : s.getAccessRights pg.tid addr = σ.getAccessRights pg.tid pg.addr :=
          Mm.getAccessRights_page hget.symm pg.aligned hstack.1 hstack.2 hlo hhi
        rw [← hpg]
        exact beq_iff_eq.mp hgranted
  | mapPhys p v =>
      obtain ⟨addr, access, env, rfl, rfl, hlow, hgranted, hsame⟩ := h
      have hp : 1 ≤ p := hen.1.1.1
      -- Only a request for no access passes the check without any rights.
      have hrights : 4096 ≤ addr ∧ (s.ptable p).initialized = false := by
        by_cases hzero : access = 0
        · exact (hok hgranted).2 hzero hlow
        · by_contra hn
          have hnone : s.getAccessRights (threadId p) addr = noAccess := by
            obtain ⟨l1, l2, l3, l4, l5, l6, l7, l8, l9, l10, l11⟩ := layout
            simp only [Mm.getAccessRights, Mm.getProcess, tid2pid_threadId]
            by_cases h4096 : addr < 4096
            · rw [if_pos h4096]
            · have hinit : (s.ptable p).initialized = true := by
                by_contra hi
                exact hn ⟨by omega, by simpa using hi⟩
              simp only [hinit, l1, l2, l3, l4, l5, l6, l7, l8, l9, l10, l11] at hlow ⊢
              split_ifs <;> first | rfl | omega | simp_all
          rw [Mm.isAccessGranted, hnone, noAccess, Nat.and_zero] at hgranted
          exact hzero (beq_iff_eq.mp hgranted).symm
      refine ⟨hp, ?_, pageAlign_mod addr, (hsame p).initialized.trans hrights.2⟩
      rw [pageAlign_eq]
      simp only [pageSize]
      omega
  | start p =>
      obtain ⟨⟨status, rfl, hinit, hstatus⟩, hu⟩ := h
      intro v hv haligned
      have hnone := hok hinit hstatus (v / pageSize) (by
        simp only [initializerStart, pageSize] at hv ⊢
        omega)
      rw [Nat.div_mul_cancel (Nat.dvd_of_mod_eq_zero haligned)] at hnone
      exact hu.none hnone
  | _ => trivial

/-- By induction on the run. -/
theorem Mm.Reachable.confined {s : Mm} (h : s.Reachable Mm.KeepsConfined) :
    ∃ φ, Inv φ s ∧ Owned φ s ∧ Confined s := by
  -- After booting nothing is mapped.
  have hboot : ∀ s : Mm, s.Booted → Owned .empty s ∧ Confined s := by
    refine fun s hs => ⟨fun t v m hm => ?_, fun t v m hm => ?_⟩
    · rw [hs.hw] at hm
      cases hm
    · rw [hs.hw] at hm
      cases hm
  obtain ⟨φ, hinv, -, hI⟩ := h.induction (fun φ s => Owned φ s ∧ Confined s) hboot (by
      rintro φ s a s' hinv - ⟨howned, hconfined⟩ hen hok ls φ' hp
      have hI : Owned φ s.clear ∧ Confined s.clear := by
        refine ⟨howned, ?_⟩
        exact hconfined.mono (fun _ _ => Or.inr rfl) (fun _ hp => hp) fun _ => rfl
      refine hp.chain.induction (I := fun φ s => Owned φ s ∧ Confined s) hinv.clear hI ?_
      rintro φ₁ σ ℓ φ₂ σ' hinv₁ ⟨howned₁, hconfined₁⟩ hP hm
      have hℓ : ℓ.Confined σ := hP.confined hen s' hok
      refine ⟨hm.owned howned₁ ?_ ?_, hm.confined hinv₁ howned₁ hconfined₁ hℓ⟩
      -- A granted fault maps at most STACK_TOP, and a delete finds nothing mapped there.
      · rintro pg rights rfl hne
        obtain ⟨addr, env, -, haddr, -, hgranted, -⟩ := hP
        rw [haddr]
        exact (pageAlign_le addr).trans (Mm.le_stackTop_of_granted hgranted hne)
      · rintro p rfl
        by_contra hmapped
        obtain ⟨m, hmapped⟩ := Option.ne_none_iff_exists'.mp hmapped
        exact (hconfined₁ _ _ _ hmapped).stack.2 rfl)
  exact ⟨φ, hinv, hI⟩

/-- Privilege confinement at page granularity, for runs whose steps are confined: a mapping of
an active process carries only rights that `get_access_rights` grants on every byte of its page.
Once a process is initialized it has no mapping below `virtualStart`, and no writable mapping of
its text. -/
theorem mapping_confined {s : Mm} (h : s.Reachable Mm.KeepsConfined) {p : Nat}
    (hp : p < maxRunningProcess) (hact : (s.ptable p).isActive = true) {v : Nat} {m : HwMapping}
    (hm : s.hw (s.ptable p).tid v = some m) :
    (∀ a, v ≤ a → a < v + pageSize →
      m.rights &&& s.getAccessRights (s.ptable p).tid a = m.rights) ∧
      ((s.ptable p).initialized = true →
        virtualStart ≤ v ∧ (textStart ≤ v → v < textEnd → m.rights &&& writable = 0)) := by
  obtain ⟨φ, hinv, howned, hconfined⟩ := h.confined
  obtain ⟨haligned, ⟨hend, htop⟩, hlow, hhigh⟩ := hconfined _ _ _ hm
  obtain ⟨l1, l2, l3, l4, l5, l6, l7, l8, l9, l10, l11⟩ := layout
  -- Below `virtualStart` the slot has everything, or no initialized process.
  have hbelow : v < virtualStart → 4096 ≤ v ∧ m.rights = fullyAccessible ∧
      (s.ptable p).tid = threadId p ∧ (s.ptable p).initialized = false := by
    intro hv
    obtain ⟨hpos, hrights, q, hq, ht, hinit⟩ := hlow hv
    obtain rfl := hinv.pid_of_tid hp hq ht.symm
    exact ⟨hpos, hrights, ht, hinit ⟨hq, hp, hact, ht⟩⟩
  have hpage : m.rights &&& s.getAccessRights (s.ptable p).tid v = m.rights := by
    rcases Nat.lt_or_ge v virtualStart with hv | hv
    · obtain ⟨hpos, hrights, ht, hinit⟩ := hbelow hv
      have hall : s.getAccessRights (s.ptable p).tid v = fullyAccessible := by
        rw [ht, Mm.getAccessRights, Mm.getProcess, tid2pid_threadId, hinit]
        rw [if_neg (show ¬ v < 4096 by omega), if_pos ⟨by simp, hv⟩]
      rw [hall, hrights, Nat.and_self]
    · exact hhigh hv
  refine ⟨fun a h1 h2 => ?_, fun hinit => ?_⟩
  · rwa [Mm.getAccessRights_page (s := s) rfl haligned hend htop h1 h2]
  have hv : virtualStart ≤ v := by
    by_contra hlt
    obtain ⟨-, -, -, hn⟩ := hbelow (by omega)
    rw [hinit] at hn
    cases hn
  refine ⟨hv, fun h1 h2 => ?_⟩
  have htext : s.getAccessRights (s.ptable p).tid v = executable ||| readable := by
    obtain ⟨-, pg, ht, -, hpg⟩ := howned _ _ _ hm hv
    have hlive := hinv.tables.live pg (by rintro he; rw [he] at hpg; cases hpg)
    obtain rfl := hinv.pid_of_tid hp hlive.1 ht
    have hget : (s.getProcess (s.ptable pg.pid).tid).initialized = true := by
      rwa [Mm.getProcess, ← ht, Page.tid2pid_tid]
    rw [Mm.getAccessRights, hget]
    rw [if_neg (show ¬ v < 4096 by omega), if_neg (by simp), if_pos ⟨h1, h2⟩, if_neg (by simp)]
  rw [htext] at hpage
  rw [← hpage, Nat.and_assoc]
  exact Nat.and_zero _

/-- The page of the fault is mapped with the rights of the heap. -/
theorem mapping_confined_oneFault :
    ∃ s, Mm.runOn Mm.KeepsConfined (.small 2) oneFault = some s ∧
      ∃ m, s.hw (s.ptable 1).tid heapStart = some m ∧ ∀ a, heapStart ≤ a →
        a < heapStart + pageSize → m.rights &&& s.getAccessRights (s.ptable 1).tid a = m.rights := by
  obtain ⟨s, hs, hreach, hact, hm⟩ := Mm.exists_runOn Mm.KeepsConfined
    (Mm.Boot.small_ok Nat.two_pos (by decide)) oneFault
    (fun s => (s.ptable 1).isActive = true ∧ (s.hw (s.ptable 1).tid heapStart).isSome = true)
    (by decide +kernel)
  obtain ⟨m, hm⟩ := Option.isSome_iff_exists.mp hm
  exact ⟨s, hs, m, hm, (mapping_confined hreach (by decide) hact hm).1⟩

/-- `get_access_rights` grants the byte at `stackTop`, and `virtual_mapping` maps its page. -/
theorem stackTop_shared :
    ¬ ∀ s : Mm, s.Reachable Mm.anyStep → ∀ p < maxRunningProcess, (s.ptable p).isActive = true →
      ∀ v m, s.hw (s.ptable p).tid v = some m → ∀ a, v ≤ a → a < v + pageSize →
        m.rights &&& s.getAccessRights (s.ptable p).tid a = m.rights := by
  intro hall
  obtain ⟨s, -, hreach, hact, hm⟩ := Mm.exists_runOn Mm.anyStep
    (Mm.Boot.small_ok Nat.two_pos (by decide))
    [.createProcess [115] 0, .fault 1 stackTop readWriteOnly .plain]
    (fun s => (s.ptable 1).isActive = true ∧ ∃ m ∈ s.hw (s.ptable 1).tid stackTop,
      m.rights &&& s.getAccessRights (s.ptable 1).tid (stackTop + 1) ≠ m.rights)
    (by decide +kernel)
  obtain ⟨m, hm, hne⟩ := hm
  exact hne (hall s hreach 1 (by decide) hact stackTop m hm _ (by decide) (by decide))

end Sos
