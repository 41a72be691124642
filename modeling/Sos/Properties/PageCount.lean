import Sos.Paging.Deletion
import Sos.Paging.Entries
import Sos.Properties.ProcessTable

/-!
# `Sos.Properties.PageCount`: the size of a process

`virtual_mapping` counts a page before it has a frame for it, `pager_free_all` counts down for
every entry of every second level table, and `pager_free_range` does not count. So the size of
a process is the number of its pages as long as the three agree (`Mm.Balanced`): a page that is
touched first gets its frame at once, the heap of a process that is started has no page yet,
and a process that is deleted has used its second level tables up.

`page_accounting`: in a run of such steps the sizes are right in every state, and the next step
leaves them right, and wraps no size around, if and only if it is of that kind.
-/

set_option autoImplicit false

namespace Sos

namespace Mm

/-- The size of every user process is the number of its page table entries. -/
def Accounted (s : Mm) : Prop :=
  ∀ p, 1 ≤ p → p < maxRunningProcess → (s.ptable p).isActive = true →
    (s.ptable p).size = (s.ptable p).entries

/-- The size of a process that is deleted goes down and not around. -/
def NoWrap (s : Mm) (a : Action) (s' : Mm) : Prop :=
  ∀ p, s.deletes a = some p → (s'.ptable p).size ≤ (s.ptable p).size

/-- There is a frame that need not be written to the swap file first: a free one, or the one
of a clean page that `second_chance_select` chooses. -/
def FrameAvailable (s : Mm) : Prop :=
  s.frames.stack ≠ [] ∨ s.victim.bind s.isDirty = some false

instance (s : Mm) : Decidable s.FrameAvailable :=
  inferInstanceAs (Decidable (_ ∨ _))

/-- The step counts every page once. -/
structure Balanced (s : Mm) (a : Action) (_ : Mm) : Prop where
  full : ∀ p, s.deletes a = some p → (s.ptable p).Full
  frame : ∀ p addr access env, a = .fault p addr access env →
    s.isAccessGranted (threadId p) addr access = true → virtualStart ≤ addr →
    (s.ptable p).pte (pageAlign addr) = 0 → s.FrameAvailable
  heap : ∀ p status, a = .startProcess p status → (s.ptable p).initialized = false →
    status ≠ 0 → ∀ k < (heapEnd - heapStart) / pageSize,
      (s.ptable p).pte (heapStart + k * pageSize) = 0

instance (s : Mm) (a : Action) (s' : Mm) : Decidable (s.Balanced a s') := by
  have hiff : ∀ {Q : Prop}, (s.Balanced a s' ↔ (∀ p ∈ s.deletes a, (s.ptable p).Full) ∧ Q) →
      Decidable Q → Decidable (s.Balanced a s') :=
    fun h hQ => decidable_of_iff _ h.symm
  match a with
  | .fault p addr access env =>
      refine hiff (Q := s.isAccessGranted (threadId p) addr access = true → virtualStart ≤ addr →
        (s.ptable p).pte (pageAlign addr) = 0 → s.FrameAvailable) ⟨fun h => ?_, fun h => ?_⟩
        inferInstance
      · exact ⟨h.full, h.frame p addr access env rfl⟩
      · refine ⟨h.1, ?_, nofun⟩
        rintro _ _ _ _ ⟨⟩
        exact h.2
  | .startProcess p status =>
      refine hiff (Q := (s.ptable p).initialized = false → status ≠ 0 →
        ∀ k < (heapEnd - heapStart) / pageSize, (s.ptable p).pte (heapStart + k * pageSize) = 0)
        ⟨fun h => ?_, fun h => ?_⟩ inferInstance
      · exact ⟨h.full, h.heap p status rfl⟩
      · refine ⟨h.1, nofun, ?_⟩
        rintro _ _ ⟨⟩
        exact h.2
  | .store .. | .nfsReply .. | .unmapAll _ | .deleteProcess .. | .waitProcess ..
  | .createProcess .. =>
      refine hiff (Q := True) ⟨fun h => ⟨h.full, trivial⟩, fun h => ⟨h.1, nofun, nofun⟩⟩ ?_
      exact inferInstance

/-- What `Accounted` needs of the slots that are free: the next process starts at size 0. -/
structure Counted (s : Mm) : Prop where
  active : s.Accounted
  free : ∀ p, 1 ≤ p → p < maxRunningProcess → (s.ptable p).isActive = false →
    (s.ptable p).size = 0

end Mm

/-- The fields that are counted with are the same, and so is the number of pages. -/
structure Process.SameCount (P P' : Process) : Prop where
  isActive : P'.isActive = P.isActive
  size : P'.size = P.size
  entries : P'.entries = P.entries

/-- The counts are what they are. -/
theorem Process.SameCount.refl (P : Process) : P.SameCount P := ⟨rfl, rfl, rfl⟩

/-- They depend on three fields. -/
theorem Process.SameCount.of_index {P P' : Process} (ha : P'.isActive = P.isActive)
    (hs : P'.size = P.size) (hi : P'.pageIndex = P.pageIndex) : P.SameCount P' :=
  ⟨ha, hs, Process.entries_of_index hi⟩

section

variable {φ : PageMap} {s s' : Mm} {a : Action}

/-- A step that keeps the counts of all processes. -/
theorem Mm.Counted.of_same (h : s.Counted) (hsame : ∀ p, (s.ptable p).SameCount (s'.ptable p)) :
    s'.Counted := by
  refine ⟨fun p h1 h2 hact => ?_, fun p h1 h2 hact => ?_⟩
  · rw [(hsame p).size, (hsame p).entries]
    exact h.active p h1 h2 ((hsame p).isActive ▸ hact)
  · rw [(hsame p).size]
    exact h.free p h1 h2 ((hsame p).isActive ▸ hact)

/-- The page table entries a page count goes by. -/
theorem Inv.entries_congr (h : Inv φ s) {φ' : PageMap} (h' : Inv φ' s') {p : Nat}
    (hpage : ∀ pg : Page, pg.pid = p → (φ' pg = .absent ↔ φ pg = .absent)) :
    (s'.ptable p).entries = (s.ptable p).entries := by
  refine Process.entries_congr (p := p) ?_
  rintro pg rfl
  rw [h.pte_ne_zero, h'.pte_ne_zero, ne_eq, ne_eq, hpage pg rfl]

/-! ### Deletion -/

/-- The counter of a process that is deleted. -/
theorem Removed.size {σ : Mm} {answer : List Event} {p : Nat}
    (h : Removed φ s p σ answer s') (hlt : (s.ptable p).size < 2 ^ 32) :
    (s'.ptable p).size < 2 ^ 32 ∧
      ((s'.ptable p).size + (s.ptable p).tables * secondLevelEntries) % 2 ^ 32 =
        (s.ptable p).size := by
  obtain ⟨hw, wait, hfree, -⟩ := h.free
  have hcount := Mm.pagerFreeAll_fields hfree
  have hself : (s'.ptable p).size = (σ.getProcess (threadId p)).size := by
    rw [h.ptable_self, Mm.getProcess, tid2pid_threadId]
  have hget : ({ s with hw := hw, wait := wait, outbox := [] } : Mm).getProcess (threadId p) =
      s.ptable p := by
    rw [Mm.getProcess, tid2pid_threadId]
  have hsize := hcount.size
  have hbound := hcount.bound
  rw [hget] at hsize hbound
  rw [hself]
  exact ⟨hbound hlt, hsize.trans (Nat.mod_eq_of_lt hlt)⟩

/-- A deletion leaves the other sizes right. The size of the process itself reaches zero, or
goes past it, when its second level tables are not used up. -/
theorem Mm.Counted.removed {σ : Mm} {answer : List Event} {p : Nat} (hcount : s.Counted)
    (h : Removed φ s p σ answer s') :
    s'.Accounted ∧ ((s'.ptable p).size ≤ (s.ptable p).size ↔ (s.ptable p).Full) ∧
      ((s.ptable p).Full → s'.Counted) := by
  obtain ⟨h1, h2, hact, -⟩ := h.live
  have hothers : ∀ q, q ≠ p → (s.ptable q).SameCount (s'.ptable q) := by
    intro q hq
    rw [h.ptable]
    split
    · exact .of_index rfl rfl rfl
    · rw [h.clearSlot_of_ne hq]
      exact .refl _
  have hgone : (s'.ptable p).isActive = false := by rw [h.ptable_self]
  have hactive : s'.Accounted := by
    intro q hq1 hq2 hqact
    have hq : q ≠ p := by
      rintro rfl
      rw [hgone] at hqact
      cases hqact
    rw [(hothers q hq).size, (hothers q hq).entries]
    exact hcount.active q hq1 hq2 ((hothers q hq).isActive ▸ hqact)
  -- The size was the number of entries, and there are at most 2 ^ 20 of these.
  have hentries := hcount.active p h1 h2 hact
  obtain ⟨hle, hfull⟩ := (s.ptable p).entries_full
  have hturns := (s.ptable p).turns_le
  obtain ⟨hlt', hsum⟩ := h.size (by omega)
  have hwrap : (s'.ptable p).size ≤ (s.ptable p).size ↔ (s.ptable p).Full := by
    rw [← hfull]
    omega
  refine ⟨hactive, hwrap, fun hf => ⟨hactive, fun q hq1 hq2 hqact => ?_⟩⟩
  by_cases hq : q = p
  · have heq := hfull.mpr hf
    rw [hq]
    omega
  · rw [(hothers q hq).size]
    exact hcount.free q hq1 hq2 ((hothers q hq).isActive ▸ hqact)

/-! ### Page faults -/

/-- Whether there is a frame at once can be read from the state. -/
theorem Inv.frameReady_iff (h : Inv φ s) : FrameReady φ s ↔ s.FrameAvailable := by
  refine or_congr Iff.rfl ?_
  -- The dirty bit of an item is the one of the page it stands for.
  have hdirty : ∀ {it pg f d}, φ pg = .resident f d (.active it) → s.isDirty it = some d := by
    intro it pg f d hpg
    have hfor := (h.queues.page pg it (by rw [hpg]; rfl)).1
    have hlook := h.lookup (h.hasTable (by rw [hpg]; exact nofun))
    have hok := h.ok pg
    rw [hpg] at hlook hok
    simp only [Mm.isDirty, hfor.1, hfor.2, hlook, Option.bind_eq_bind, Option.bind_some,
      PageState.and_two_word hok]
  constructor
  · rintro ⟨it, pg, f, hit, hpg⟩
    rw [hit, Option.bind_some, hdirty hpg]
  · intro hclean
    obtain ⟨it, hit, hd⟩ := Option.bind_eq_some_iff.mp hclean
    -- The victim is the first page not referenced, or else the head of the queue.
    have hmem : it ∈ s.activePages := by
      rcases Option.or_eq_some_iff.mp hit with hfind | ⟨-, hhead⟩
      · exact List.mem_of_find?_eq_some hfind
      · exact List.mem_of_head? hhead
    obtain ⟨pg, f, d, hpg⟩ := (h.queues.active_iff it).mp hmem
    rw [hdirty hpg] at hd
    cases hd
    exact ⟨it, pg, f, hit, hpg⟩

/-- `virtual_mapping` counts the page when it has no memory. -/
theorem Inv.virtualMapping_size (h : Inv φ s) {pg : Page} {addr access : Nat} {env : FaultEnv}
    {r : MappingResult} (hlive : s.Live pg.pid) (ha : pageAlign addr = pg.addr)
    (hs : s.virtualMapping pg.tid addr access env = some (s', r)) (q : Nat) :
    (s'.ptable q).isActive = (s.ptable q).isActive ∧
      (s'.ptable q).size =
        if q = pg.pid ∧ (s.ptable pg.pid).pte pg.addr = 0 then ((s.ptable q).size + 1) % 2 ^ 32
        else (s.ptable q).size := by
  obtain ⟨s₁, entry, hs₁, hentry, hkeep⟩ := Mm.virtualMapping_fields hs
  have hfields := Mm.createSecondLevelTable_fields hs₁ q
  obtain ⟨P, hP, -, htable, hpte⟩ := s.createSecondLevelTable_spec pg (h.tables.index pg.pid hlive)
  rw [ha] at hs₁ hentry
  have hself : s₁.ptable pg.pid = P := by
    rw [← Option.some.inj (hP.symm.trans hs₁)]
    exact Function.update_self ..
  rw [Mm.pagerTableLookup_page _ pg (hself ▸ htable), hself, hpte pg rfl] at hentry
  obtain rfl := Option.some.inj hentry
  rw [Process.SameFields] at hfields
  -- Only a page that was not there before is counted.
  by_cases hzero : (s.ptable pg.pid).pte pg.addr = 0
  · rw [if_pos hzero] at hkeep
    have hcount := hkeep q
    rw [Process.SameFields] at hcount
    rw [hcount]
    by_cases hq : q = pg.pid
    · subst hq
      simp only [Mm.countPage, Mm.updateProcess, Mm.getProcess, Page.tid2pid_tid,
        Function.update_self, hzero, and_self, if_true]
      rw [hfields]
      exact ⟨rfl, rfl⟩
    · simp only [Mm.countPage, Mm.updateProcess, Mm.getProcess, Page.tid2pid_tid,
        Function.update_of_ne hq, hq, false_and, if_false]
      rw [hfields]
      exact ⟨rfl, rfl⟩
  · rw [if_neg hzero] at hkeep
    have hrest := hkeep q
    rw [Process.SameFields] at hrest
    rw [hrest, if_neg fun hq => hzero hq.2]
    dsimp only
    rw [hfields]
    exact ⟨rfl, rfl⟩

/-- What a page fault changes that is not answered by a deletion, at or above `VIRTUAL_START`. -/
theorem Inv.fault_counts (h : Inv φ s) (hclean : Clean φ) {p addr access : Nat} {env : FaultEnv}
    (hs : s.step (.fault p addr access env) = some s')
    (hgranted : s.isAccessGranted (threadId p) addr access = true) (hhigh : virtualStart ≤ addr) :
    (∀ q, q ≠ p → (s.ptable q).SameCount (s'.ptable q)) ∧
      if (s.ptable p).pte (pageAlign addr) = 0 then
        (s'.ptable p).isActive = (s.ptable p).isActive ∧
          (s'.ptable p).size = ((s.ptable p).size + 1) % 2 ^ 32 ∧
          (s'.ptable p).entries = (s.ptable p).entries + if s.FrameAvailable then 1 else 0
      else (s.ptable p).SameCount (s'.ptable p) := by
  obtain ⟨⟨hrun, haddr, -⟩, hexec⟩ := Mm.step_eq_some hs
  let s₁ : Mm := s.clear.block (threadId p) .fault
  let pg := Page.containing p addr haddr
  have h₁ : Inv φ s₁ := h.blocked hrun .fault
  obtain ⟨σ, r, hσ, hfaulted⟩ := virtualMapping_spec s₁ pg addr access env h₁ hclean hrun.1
    (Function.update_self ..) (h.idle hrun).serves rfl (virtualStart_le_pageAlign hhigh) hgranted
  have hσ' : (s.clear.block (threadId p) .fault).virtualMapping (threadId p) addr access env =
      some (σ, r) := hσ
  have hgranted' : (s.clear.block (threadId p) .fault).isAccessGranted (threadId p) addr
      access = true := hgranted
  -- The answer changes no entry.
  have hptable : s'.ptable = σ.ptable := by
    simp only [Mm.exec, Mm.pager, hgranted', Bool.not_true, Bool.false_eq_true, if_false,
      if_neg (Nat.not_lt.mpr hhigh), hσ', Option.bind_eq_bind, Option.bind_some] at hexec
    cases r with
    | mappingFailed | mappingSuccess | outOfFrames | pageNotAvailable =>
        obtain rfl := Option.some.inj hexec
        rfl
  obtain ⟨ls, φ', hc, hg, hpage⟩ := hfaulted.gains
  have h' := hc.inv h₁
  have hlive : s₁.Live pg.pid := hrun.1
  have hsize := h₁.virtualMapping_size hlive rfl hσ
  rw [hptable]
  refine ⟨fun q hq => ⟨(hsize q).1, ?_, ?_⟩, ?_⟩
  · rw [(hsize q).2, if_neg fun h => hq h.1]
    rfl
  · refine h₁.entries_congr h' fun pg' hp => hg.absent_iff ?_
    rintro rfl
    exact hq hp.symm
  have hother : ∀ pg', pg' ≠ pg → ((σ.ptable pg'.pid).pte pg'.addr ≠ 0 ↔
      (s.ptable pg'.pid).pte pg'.addr ≠ 0) := by
    intro pg' hne
    rw [h'.pte_ne_zero, h.pte_ne_zero, ne_eq, ne_eq, hg.absent_iff hne]
  have hready : FrameReady φ s₁ ↔ s.FrameAvailable := h.frameReady_iff
  split
  next hzero =>
    have habsent : φ pg = .absent := by
      by_contra hne
      exact (h.pte_ne_zero pg).mpr hne hzero
    refine ⟨(hsize p).1, ?_, ?_⟩
    · rw [(hsize p).2, if_pos ⟨rfl, hzero⟩]
      rfl
    · by_cases havail : s.FrameAvailable
      · rw [if_pos havail]
        have hnew : φ' pg ≠ .absent := fun ha => (hpage.mp ha).2 (hready.mpr havail)
        refine Process.entries_succ pg ((h'.pte_ne_zero pg).mpr hnew) hzero ?_
        rintro pg' hp hne
        have hpte := hother pg' hne
        rwa [hp] at hpte
      · rw [if_neg havail, Nat.add_zero]
        have hstill : φ' pg = .absent := hpage.mpr ⟨habsent, fun hr => havail (hready.mp hr)⟩
        refine h₁.entries_congr h' fun pg' hp => ?_
        by_cases hne : pg' = pg
        · rw [hne, hstill, habsent]
        · exact hg.absent_iff hne
  next hzero =>
    have hne : φ pg ≠ .absent := (h.pte_ne_zero pg).mp hzero
    refine ⟨(hsize p).1, ?_, h₁.entries_congr h' fun pg' hp => ?_⟩
    · rw [(hsize p).2, if_neg fun hz => hzero hz.2]
      rfl
    · by_cases he : pg' = pg
      · rw [he]
        exact iff_of_false (hg.kept pg hne) hne
      · exact hg.absent_iff he

/-! ### Starting a process -/

/-- The absent pages after some are given up: those and the ones before. -/
theorem PageMap.release_absent_iff {p : Nat} {inRange : Nat → Bool} {pg : Page} :
    φ.release p inRange pg = .absent ↔ InRange p inRange pg ∨ φ pg = .absent := by
  by_cases hin : InRange p inRange pg
  · exact iff_of_true (PageMap.release_of_inRange hin) (Or.inl hin)
  · rw [PageMap.release_of_not hin, or_iff_right hin]
    cases φ pg with
    | absent => exact Iff.rfl
    | swapped b => exact iff_of_false nofun nofun
    | resident f d hold =>
        cases hold with
        | pinned | active | writing | reading => exact iff_of_false nofun nofun

/-- The range excludes its end. -/
theorem between_iff {start stop v : Nat} : between start stop v = true ↔ start ≤ v ∧ v < stop :=
  decide_eq_true_iff

/-- What `start_process` changes for a process whose file has been loaded. -/
theorem Inv.start_counts (h : Inv φ s) {p : Nat} {status : Int}
    (hs : s.step (.startProcess p status) = some s') (hinit : (s.ptable p).initialized = false)
    (hstatus : status ≠ 0) :
    (∀ q, (s'.ptable q).isActive = (s.ptable q).isActive ∧
      (s'.ptable q).size = (s.ptable q).size) ∧
      (∀ q, q ≠ p → (s'.ptable q).entries = (s.ptable q).entries) ∧
      ((s'.ptable p).entries = (s.ptable p).entries ↔
        ∀ k < (heapEnd - heapStart) / pageSize,
          (s.ptable p).pte (heapStart + k * pageSize) = 0) := by
  obtain ⟨hen, hexec⟩ := Mm.step_eq_some hs
  have hrun : s.Running p := hen
  let s₁ : Mm := s.clear.block (threadId p) .call
  have h₁ : Inv φ s₁ := h.blocked hrun .call
  have hidle : Idle s₁ p := ⟨(h.idle hrun).serves, (h.idle hrun).waitFor⟩
  obtain ⟨φ', σ, hσ, σ₁, σ₂, ls, hc, -, -, hrelease, -, hstart, -⟩ :=
    startProcess_started h₁ hrun.1 hidle hinit hstatus
  have hσ' : (s.clear.block (threadId p) .call).startProcess (threadId p) status =
      some (σ, none) := hσ
  simp only [Mm.exec, hσ', Option.bind_eq_bind, Option.bind_some] at hexec
  obtain rfl : σ = s' := Option.some.inj hexec
  have h' := hstart.inv (hrelease.inv (hc.inv h₁))
  have hφ : φ' = φ.release p (between heapStart heapEnd) := by
    cases hrelease with
    | release => rfl
  subst hφ
  have hget : (s₁.getProcess (threadId p)).initialized = false := by
    rw [Mm.getProcess, tid2pid_threadId]
    exact hinit
  obtain ⟨σ₃, hkeep, hfields⟩ := Mm.startProcess_fields hget hstatus hσ
  -- The fields, the pages of the others, and the pages of the process.
  refine ⟨fun q => ?_, fun q hq => ?_, ?_⟩
  · have hq := hkeep q
    rw [Process.SameFields] at hq
    rw [hfields, Mm.updateProcess, Mm.getProcess, tid2pid_threadId]
    by_cases hqp : q = p
    · subst hqp
      simp only [Function.update_self]
      rw [hq]
      exact ⟨rfl, rfl⟩
    · simp only [Function.update_of_ne hqp]
      rw [hq]
      exact ⟨rfl, rfl⟩
  · refine h.entries_congr h' fun pg hp => ?_
    rw [PageMap.release_absent_iff, or_iff_right]
    rintro ⟨hpid, -⟩
    exact hq (hp.symm.trans hpid)
  · have hless : ∀ pg : Page, pg.pid = p → (σ.ptable p).pte pg.addr ≠ 0 →
        (s.ptable p).pte pg.addr ≠ 0 := by
      rintro pg rfl hne
      rw [h'.pte_ne_zero, ne_eq, PageMap.release_absent_iff, not_or] at hne
      exact (h.pte_ne_zero pg).mpr hne.2
    rw [Process.entries_eq_iff hless]
    constructor
    -- A page of the heap would be released.
    · intro hkept k hk
      have hk' : k < 1024 := hk
      by_contra hne
      have hmod : (heapStart + k * pageSize) % pageSize = 0 := by
        simp only [heapStart, pageSize]
        omega
      have hlt : heapStart + k * pageSize < addressSpace := by
        simp only [heapStart, pageSize, addressSpace]
        omega
      have hafter := hkept ⟨p, heapStart + k * pageSize, hmod, hlt⟩ rfl hne
      refine (h'.pte_ne_zero ⟨p, heapStart + k * pageSize, hmod, hlt⟩).mp hafter
        (PageMap.release_absent_iff.mpr (Or.inl ⟨rfl, ?_⟩))
      rw [between_iff]
      simp only [heapEnd, heapStart, oneMegabyte, pageSize]
      omega
    -- No page of the process is in the range that is released.
    · rintro hempty pg rfl hne
      rw [h'.pte_ne_zero, ne_eq, PageMap.release_absent_iff, not_or]
      refine ⟨fun hin => ?_, (h.pte_ne_zero pg).mp hne⟩
      have halign := pg.aligned
      obtain ⟨hge, hend⟩ := between_iff.mp hin.2
      simp only [heapEnd, heapStart, oneMegabyte] at hge hend
      have hlt : (pg.addr - heapStart) / pageSize < (heapEnd - heapStart) / pageSize := by
        simp only [heapEnd, heapStart, oneMegabyte, pageSize]
        omega
      have haddr : heapStart + (pg.addr - heapStart) / pageSize * pageSize = pg.addr := by
        simp only [heapStart, pageSize] at halign ⊢
        omega
      have hzero := hempty _ hlt
      rw [haddr] at hzero
      exact hne hzero

/-! ### The other steps -/

/-- An answer of the NFS server gives no page memory, and takes none its memory. -/
theorem Move.answer_absent_iff {φ' : PageMap} {it : PageQueueItem} {kind : Answer}
    (hm : Move φ s (.answer it kind) φ' s') (pg : Page) : φ' pg = .absent ↔ φ pg = .absent := by
  have hupdate : ∀ {pg₁ : Page} {st : PageState} {f d hold}, φ pg₁ = .resident f d hold →
      st ≠ .absent → (Function.update φ pg₁ st pg = .absent ↔ φ pg = .absent) := by
    intro pg₁ st f d hold hpg hst
    by_cases he : pg = pg₁
    · rw [he, Function.update_self, hpg]
      exact iff_of_false hst nofun
    · rw [Function.update_of_ne he]
  cases hm with
  | ack _ hpg | evicted _ hpg | restored _ hpg | arrive _ hpg | arrived _ hpg =>
      exact hupdate hpg nofun
  | ackDoomed | discardWrite | discardRead => exact Iff.rfl

/-- An answer of the NFS server moves a page between frame and slot, which counts the same. -/
theorem Inv.nfs_counts (h : Inv φ s) {k : Nat} {status : NfsStatus}
    (hs : s.step (.nfsReply k status) = some s') (p : Nat) :
    (s.ptable p).SameCount (s'.ptable p) := by
  have hexec : s.clear.nfsReply k status = some s' := (Mm.step_eq_some hs).2
  have hcall := hexec
  simp only [Mm.nfsReply, Option.bind_eq_bind, Option.bind_eq_some_iff] at hcall
  obtain ⟨r, hr, it, hit, hcall⟩ := hcall
  rcases nfsReply_spec h.clear status hr hit with ⟨σ, kind, φ', hσ, hm⟩ | ⟨-, hnone⟩
  · obtain rfl := Option.some.inj (hσ.symm.trans hexec)
    have hsize : (σ.ptable p).size = (s.ptable p).size := by
      cases r with
      -- An answer keeps size and entries: a page that arrives or leaves was counted before.
      | write token offset data =>
          have hkeep := Mm.swapWriteCallback_fields hcall p
          rw [Process.SameFields] at hkeep
          rw [hkeep]
          split
          · rfl
          · rfl
      | read token offset count =>
          rw [Mm.swapReadCallback_fields hcall]
          rfl
    refine ⟨(hm.sameThread (by simp) (by simp)).isActive, hsize, ?_⟩
    exact h.entries_congr (hm.inv h.clear) fun pg _ => hm.answer_absent_iff pg
  · rw [hexec] at hnone
    cases hnone

/-- A process that is registered has no page yet. -/
theorem Mm.Counted.create (hcount : s.Counted) (h : Inv φ s) {name : List UInt8} {now : Nat}
    (hs : s.step (.createProcess name now) = some s') : s'.Counted := by
  -- A full table changes nothing; else slot `i` is filled, which was free and had no entries.
  obtain ⟨-, hptable⟩ | ⟨i, -, h1, h2, hfree, hptable⟩ := h.create_step hs
  · refine hcount.of_same fun p => ?_
    rw [hptable]
    exact .refl _
  · have hothers : ∀ q, q ≠ i → s'.ptable q = s.ptable q := fun q hq => by
      rw [hptable, Function.update_of_ne hq]
    have hself : s'.ptable i = (s.ptable i).registered name now := by
      rw [hptable, Function.update_self]
    -- The new process is not active before it starts, so only its entries matter.
    refine ⟨fun p hp1 hp2 hact => ?_, fun p hp1 hp2 hact => ?_⟩
    · by_cases hp : p = i
      · rw [hp, hself, Process.entries_empty fun _ => rfl]
        exact hcount.free i h1 h2 hfree
      · rw [hothers p hp] at hact ⊢
        exact hcount.active p hp1 hp2 hact
    · have hp : p ≠ i := by
        rintro rfl
        rw [hself] at hact
        cases hact
      rw [hothers p hp] at hact ⊢
      exact hcount.free p hp1 hp2 hact

/-! ### One step -/

/-- A step that deletes nobody, and is no page fault, start or registration. -/
theorem Inv.same_counts (h : Inv φ s) (hs : s.step a = some s') (hdel : s.deletes a = none)
    (hcreate : ∀ name now, a ≠ .createProcess name now)
    (hfault : ∀ p addr access env, a = .fault p addr access env → addr < virtualStart)
    (hstart : ∀ p status, a = .startProcess p status → (s.ptable p).initialized = true)
    (q : Nat) : (s.ptable q).SameCount (s'.ptable q) := by
  obtain ⟨hen, hexec⟩ := Mm.step_eq_some hs
  have hsame : s'.ptable = s.ptable → (s.ptable q).SameCount (s'.ptable q) := fun he => by
    rw [he]
    exact .refl _
  cases a with
  | fault p addr access env =>
      have hgranted : s.isAccessGranted (threadId p) addr access = true := by
        by_contra hdenied
        rw [Mm.deletes, if_neg hdenied] at hdel
        cases hdel
      have hgranted' : (s.clear.block (threadId p) .fault).isAccessGranted (threadId p) addr
          access = true := hgranted
      simp only [Mm.exec, Mm.pager, hgranted', Bool.not_true, Bool.false_eq_true, if_false,
        if_pos (hfault p addr access env rfl), Option.bind_eq_bind, Option.bind_some] at hexec
      obtain rfl := Option.some.inj hexec
      refine hsame ?_
      rw [Mm.replyWait_ptable, Mm.oneToOneMapping, Mm.mapFpage_fields]
      rfl
  -- A store does not go through the server.
  | store p addr byte =>
      obtain rfl := Option.some.inj hexec
      refine hsame ?_
      unfold Mm.storeByte
      split
      · rfl
      · rfl
  | nfsReply k status => exact h.nfs_counts hs q
  | unmapAll p =>
      have hptable := Mm.pagerUnmapRange_fields hexec
      exact hsame hptable
  | startProcess p status =>
      have hget : ((s.clear.block (threadId p) .call).getProcess (threadId p)).initialized =
          true := by
        rw [Mm.getProcess, tid2pid_threadId]
        exact hstart p status rfl
      simp only [Mm.exec, Mm.startProcess, hget, if_true, Option.bind_eq_bind,
        Option.bind_some] at hexec
      obtain rfl := Option.some.inj hexec
      exact hsame (Mm.replyWait_ptable _ _ _)
  | deleteProcess p pid =>
      have hrun : s.Running p := hen
      cases deleteProcess_spec (h.blocked hrun .call) (threadId p) pid with
      | refused hdead hrefused =>
          simp only [Mm.exec, hrefused, Option.bind_eq_bind, Option.bind_some] at hexec
          obtain rfl := Option.some.inj hexec
          exact hsame (Mm.replyWait_ptable _ _ _)
      | corrupted _ _ hnone =>
          simp only [Mm.exec, hnone, Option.bind_eq_bind, Option.bind_none] at hexec
          cases hexec
      | deleted hpid hlive =>
          subst hpid
          rw [Mm.deletes, if_pos ⟨by omega, hlive⟩] at hdel
          cases hdel
  -- Waiting writes another field of the entry.
  | waitProcess p pid stack =>
      simp only [Mm.exec] at hexec
      obtain rfl := Option.some.inj hexec
      rw [Mm.replyWait_ptable]
      have hset : ∀ t, (s.ptable q).SameCount (((s.clear.block (threadId p) .call).updateProcess
          (threadId p) fun P => { P with waitFor := t }).ptable q) := by
        intro t
        simp only [Mm.updateProcess, Mm.getProcess, tid2pid_threadId]
        by_cases hq : q = p
        · rw [hq, Function.update_self]
          exact .of_index rfl rfl rfl
        · rw [Function.update_of_ne hq]
          exact .refl _
      unfold Mm.waitProcess
      split
      · exact hset _
      · split
        · exact .refl _
        · dsimp only
          split
          · exact .refl _
          · exact hset _
  | createProcess name now => exact absurd rfl (hcreate name now)

/-- A step that deletes no process wraps no size. -/
theorem Mm.NoWrap.of_none (hdel : s.deletes a = none) : s.NoWrap a s' := by
  intro p hp
  rw [hdel] at hp
  cases hp

/-- What a step is balanced for that deletes nobody. -/
theorem Mm.Balanced.of_none (hdel : s.deletes a = none)
    (hframe : ∀ p addr access env, a = .fault p addr access env → virtualStart ≤ addr →
      (s.ptable p).pte (pageAlign addr) = 0 → s.FrameAvailable)
    (hheap : ∀ p status, a = .startProcess p status → (s.ptable p).initialized = false →
      ∀ k < (heapEnd - heapStart) / pageSize,
        (s.ptable p).pte (heapStart + k * pageSize) = 0) : s.Balanced a s' := by
  refine ⟨fun p hp => ?_, fun p addr access env ha _ => hframe p addr access env ha,
    fun p status ha hinit _ => hheap p status ha hinit⟩
  rw [hdel] at hp
  cases hp

/-- A step that leaves the page count right, and is balanced. -/
theorem Mm.Counted.settle (hcount' : s'.Counted) (hdel : s.deletes a = none)
    (hbalanced : s.Balanced a s') :
    (s'.Accounted ∧ s.NoWrap a s' ↔ s.Balanced a s') ∧ (s.Balanced a s' → s'.Counted) :=
  ⟨iff_of_true ⟨hcount'.active, .of_none hdel⟩ hbalanced, fun _ => hcount'⟩

/-- A page fault that deletes nobody. -/
theorem Mm.Counted.fault (hcount : s.Counted) (h : Inv φ s) (hclean : Clean φ)
    {p addr access : Nat} {env : FaultEnv} (hs : s.step (.fault p addr access env) = some s')
    (hdel : s.deletes (.fault p addr access env) = none) :
    (s'.Accounted ∧ s.NoWrap (.fault p addr access env) s' ↔
      s.Balanced (.fault p addr access env) s') ∧
      (s.Balanced (.fault p addr access env) s' → s'.Counted) := by
  have hgranted : s.isAccessGranted (threadId p) addr access = true := by
    by_contra hdenied
    rw [Mm.deletes, if_neg hdenied] at hdel
    cases hdel
  by_cases hlow : addr < virtualStart
  · refine (hcount.of_same (h.same_counts hs hdel (by simp) ?_ (by simp))).settle hdel
      (.of_none hdel ?_ (by simp))
    · rintro _ _ _ _ ⟨⟩
      exact hlow
    · rintro _ _ _ _ ⟨⟩ hhigh
      omega
  obtain ⟨hothers, hself⟩ := h.fault_counts hclean hs hgranted (Nat.not_lt.mp hlow)
  by_cases hzero : (s.ptable p).pte (pageAlign addr) = 0
  swap
  · -- the page has its entry already
    rw [if_neg hzero] at hself
    refine (hcount.of_same fun q => ?_).settle hdel (.of_none hdel ?_ (by simp))
    · by_cases hq : q = p
      · rw [hq]
        exact hself
      · exact hothers q hq
    · rintro _ _ _ _ ⟨⟩ _ hz
      exact absurd hz hzero
  rw [if_pos hzero] at hself
  obtain ⟨hact', hsize', hentries'⟩ := hself
  have hrun : s.Running p := (Mm.step_eq_some hs).1.1
  obtain ⟨h1, h2, hact, -⟩ := hrun.1
  have hsize := hcount.active p h1 h2 hact
  have hle := (s.ptable p).entries_full.1
  have hturns := (s.ptable p).turns_le
  -- The size grows in both cases, the number of entries only with a frame.
  by_cases havail : s.FrameAvailable
  · rw [if_pos havail] at hentries'
    have hcount' : s'.Counted := by
      refine ⟨fun q hq1 hq2 hqact => ?_, fun q hq1 hq2 hqact => ?_⟩
      · by_cases hq : q = p
        · rw [hq]
          omega
        · rw [(hothers q hq).size, (hothers q hq).entries]
          exact hcount.active q hq1 hq2 ((hothers q hq).isActive ▸ hqact)
      · have hq : q ≠ p := by
          rintro rfl
          rw [hact', hact] at hqact
          cases hqact
        rw [(hothers q hq).size]
        exact hcount.free q hq1 hq2 ((hothers q hq).isActive ▸ hqact)
    exact hcount'.settle hdel (.of_none hdel (fun _ _ _ _ _ _ _ => havail) (by simp))
  · -- the page is counted and gets no entry
    rw [if_neg havail] at hentries'
    have hnot : ¬ s.Balanced (.fault p addr access env) s' := fun hb =>
      havail (hb.frame p addr access env rfl hgranted (Nat.not_lt.mp hlow) hzero)
    refine ⟨iff_of_false (fun hboth => ?_) hnot, fun hb => absurd hb hnot⟩
    have hsame := hboth.1 p h1 h2 (hact'.trans hact)
    omega

/-- The start of a process. -/
theorem Mm.Counted.start (hcount : s.Counted) (h : Inv φ s) {p : Nat} {status : Int}
    (hs : s.step (.startProcess p status) = some s')
    (hdel : s.deletes (.startProcess p status) = none) :
    (s'.Accounted ∧ s.NoWrap (.startProcess p status) s' ↔
      s.Balanced (.startProcess p status) s') ∧
      (s.Balanced (.startProcess p status) s' → s'.Counted) := by
  -- A process that was started before only gets its answer.
  by_cases hinit : (s.ptable p).initialized = true
  · refine (hcount.of_same (h.same_counts hs hdel (by simp) (by simp) ?_)).settle hdel
      (.of_none hdel (by simp) ?_)
    · rintro _ _ ⟨⟩
      exact hinit
    · rintro _ _ ⟨⟩ hnot
      rw [hinit] at hnot
      cases hnot
  have hinit' : (s.ptable p).initialized = false := Bool.eq_false_iff.mpr hinit
  -- A status of zero deletes the process, which is not this case.
  have hstatus : status ≠ 0 := by
    rintro rfl
    rw [Mm.deletes, if_pos ⟨hinit', rfl⟩] at hdel
    cases hdel
  obtain ⟨hsize, hothers, hheap⟩ := h.start_counts hs hinit' hstatus
  have hrun : s.Running p := (Mm.step_eq_some hs).1
  obtain ⟨h1, h2, hact, -⟩ := hrun.1
  have hbalanced : s.Balanced (.startProcess p status) s' ↔
      (s'.ptable p).entries = (s.ptable p).entries := by
    rw [hheap]
    refine ⟨fun hb => hb.heap p status rfl hinit' hstatus, fun hempty => .of_none hdel (by simp) ?_⟩
    rintro _ _ ⟨⟩ _
    exact hempty
  have hcount' : (s'.ptable p).entries = (s.ptable p).entries → s'.Counted := by
    intro hsame
    refine hcount.of_same fun q => ⟨(hsize q).1, (hsize q).2, ?_⟩
    by_cases hq : q = p
    · rw [hq, hsame]
    · exact hothers q hq
  rw [hbalanced]
  -- The size did not change, so the count is right just when the entries did not either.
  refine ⟨⟨fun hboth => ?_, fun hsame => ⟨(hcount' hsame).active, .of_none hdel⟩⟩, hcount'⟩
  rw [← hboth.1 p h1 h2 ((hsize p).1.trans hact), (hsize p).2, hcount.active p h1 h2 hact]

/-- A step leaves the page count right if and only if it counts every page once. -/
theorem Mm.Counted.step (hcount : s.Counted) (h : Inv φ s) (hclean : Clean φ)
    (hs : s.step a = some s') :
    (s'.Accounted ∧ s.NoWrap a s' ↔ s.Balanced a s') ∧ (s.Balanced a s' → s'.Counted) := by
  -- A deletion changes the count of one process; every other action is checked by kind.
  cases hdel : s.deletes a with
  | some p =>
      obtain ⟨σ, answer, hremoved⟩ := h.removed hs hdel
      obtain ⟨hacc, hwrap, hfull⟩ := hcount.removed hremoved
      have hno : s.NoWrap a s' ↔ (s'.ptable p).size ≤ (s.ptable p).size := by
        refine ⟨fun hn => hn p hdel, fun hle q hq => ?_⟩
        obtain rfl : p = q := Option.some.inj (hdel.symm.trans hq)
        exact hle
      have hbalanced : s.Balanced a s' ↔ (s.ptable p).Full := by
        refine ⟨fun hb => hb.full p hdel, fun hf => ⟨fun q hq => ?_, ?_, ?_⟩⟩
        · obtain rfl : p = q := Option.some.inj (hdel.symm.trans hq)
          exact hf
        -- A fault or a start that deletes its process adds no page.
        · rintro q addr access env rfl hgranted
          rw [Mm.deletes, if_pos hgranted] at hdel
          cases hdel
        · rintro q status rfl - hstatus
          rw [Mm.deletes, if_neg fun hfail => hstatus hfail.2] at hdel
          cases hdel
      rw [hno, hbalanced]
      exact ⟨⟨fun hn => hwrap.mp hn.2, fun hf => ⟨hacc, hwrap.mpr hf⟩⟩, hfull⟩
  | none =>
      cases a with
      | createProcess name now =>
          exact (hcount.create h hs).settle hdel (.of_none hdel (by simp) (by simp))
      | fault p addr access env => exact hcount.fault h hclean hs hdel
      | startProcess p status => exact hcount.start h hs hdel
      | store | nfsReply | unmapAll | deleteProcess | waitProcess =>
          have hsame := h.same_counts hs hdel (by simp) (by simp) (by simp)
          exact (hcount.of_same hsame).settle hdel (.of_none hdel (by simp) (by simp))

/-- After booting no process has pages. -/
theorem Mm.boot_size {b : Mm.Boot} (hs : Mm.boot b = some s) (p : Nat) : (s.ptable p).size = 0 := by
  simp only [Mm.boot, Option.bind_eq_bind, Option.bind_eq_some_iff, Mm.processInit_eq] at hs
  obtain ⟨frames, -, hs⟩ := hs
  obtain rfl := Option.some.inj hs
  by_cases hp : p = 0
  · simp only [hp, Function.update_self]
  · simp only [Function.update_of_ne hp]

/-- By induction on the run. -/
theorem Mm.Reachable.counted (h : s.Reachable Mm.Balanced) : s.Counted := by
  induction h with
  | boot hb hs =>
      obtain ⟨s₁, hs₁, hbooted⟩ := Mm.boot_spec hb
      obtain rfl := Option.some.inj (hs₁.symm.trans hs)
      refine ⟨fun p h1 _ hact => ?_, fun p _ _ _ => Mm.boot_size hs p⟩
      rw [(hbooted.entry p (by omega)).1] at hact
      cases hact
  | step hreach hs hok ih =>
      obtain ⟨φ, hinv, hclean⟩ := hreach.inv
      exact (ih.step hinv hclean hs).2 hok

end

/-! ### The main result -/

/-- In every run of balanced steps the size of every process is the number of its pages. A
further step leaves it so, without wrapping a size around, if and only if it is balanced. -/
theorem page_accounting {s : Mm} (h : s.Reachable Mm.Balanced) :
    s.Accounted ∧ ∀ a s', s.step a = some s' →
      (s'.Accounted ∧ s.NoWrap a s' ↔ s.Balanced a s') := by
  obtain ⟨φ, hinv, hclean⟩ := h.inv
  exact ⟨h.counted.active, fun a s' hs => (h.counted.step hinv hclean hs).1⟩

/-- Two pages of a process that is created are counted. -/
theorem page_accounting_two :
    ∃ s, Mm.runOn Mm.Balanced (.small 2) (threeFaults.take 3) = some s ∧
      (s.ptable 1).size = 2 ∧ s.Accounted := by
  obtain ⟨s, hs, hreach, hsize⟩ := Mm.exists_runOn Mm.Balanced
    (Mm.Boot.small_ok Nat.two_pos (by decide)) (threeFaults.take 3)
    (fun s => (s.ptable 1).size = 2) (by decide +kernel)
  exact ⟨s, hs, hsize, (page_accounting hreach).1⟩

/-- With two frames the third page is counted, but its fault waits for a frame. -/
theorem page_counted_without_frame :
    ¬ ∀ s : Mm, s.Reachable Mm.anyStep → s.Accounted := by
  intro hall
  obtain ⟨s, -, hreach, hactive, hsize, hentries⟩ := Mm.exists_runOn Mm.anyStep
    (Mm.Boot.small_ok Nat.two_pos (by decide)) threeFaults
    (fun s => (s.ptable 1).isActive = true ∧ (s.ptable 1).size = 3 ∧ (s.ptable 1).entries = 2)
    (by decide +kernel)
  have heq := hall s hreach 1 (Nat.le_refl 1) (by decide) hactive
  rw [hsize, hentries] at heq
  cases heq

end Sos
