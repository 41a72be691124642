import Sos.Paging.SwapOut

/-!
# `Sos.Paging.Faults`: page faults

`virtual_mapping` as a chain of moves. A fault ends in one of two ways (`Faulted`). Either
the page is in memory and the kernel has been asked to map it, and nothing else has
happened that concerns other threads. Or the faulting thread waits: an item serves it, or
the server has given up.
-/

set_option autoImplicit false

namespace Sos

/-! ### Page table entries -/

/-- Of two stores to an entry of a page table the second one stays. -/
theorem Process.setPte_setPte (p : Process) (a w w' : Nat) :
    (p.setPte a w).setPte a w' = p.setPte a w' := by
  cases hd : p.pageIndex with
  | none => simp [setPte, hd]
  | some directory =>
      cases ht : directory (firstLevelIndex a) with
      | none => simp [setPte, hd, ht]
      | some table => simp [setPte, hd, ht]

/-- Of two stores for a page the second one stays. -/
theorem setEntry_setEntry (ptable : Nat → Process) (pg : Page) (w w' : Nat) :
    setEntry (setEntry ptable pg w) pg w' = setEntry ptable pg w' := by
  rw [setEntry, setEntry, Function.update_self, Function.update_idem, Process.setPte_setPte]
  rfl

namespace Mm

variable {s : Mm} {pg : Page} {f : Nat} {d : Bool} {hold : Hold}

/-- A lookup after a store. -/
theorem lookup_setEntry {ptable : Nat → Process} {w : Nat} (hs : s.ptable = setEntry ptable pg w)
    (htable : (ptable pg.pid).HasTable pg.addr) :
    s.pagerTableLookup pg.tid pg.addr = some w := by
  have htable' : (s.ptable pg.pid).HasTable pg.addr := by
    rw [hs, setEntry, Function.update_self]
    exact (Process.same_setPte _ _ _).table _ htable
  rw [s.pagerTableLookup_page pg htable', hs, setEntry, Function.update_self,
    Process.pte_setPte pg.aligned pg.bounded pg.aligned pg.bounded htable, if_pos rfl]

/-- `mark_dirty` of a page in memory sets the dirty bit of its word. -/
theorem markDirty_resident
    (hpte : s.pagerTableLookup pg.tid pg.addr = some (PageState.word (.resident f d hold)))
    (hok : (PageState.resident f d hold).Ok) :
    s.markDirty pg.tid pg.addr = some { s with ptable := setEntry s.ptable pg (f + 2) } := by
  have hswap : isSwapped (PageState.word (.resident f d hold)) = false := by
    rw [Bool.eq_false_iff, ne_eq, PageState.isSwapped_word hok]
    rintro ⟨b, hb⟩
    cases hb
  simp only [markDirty, hpte, Option.bind_eq_bind, Option.bind_some, hswap, Bool.false_eq_true,
    if_false, PageState.word_or_two hok, setPte_page]
  rfl

/-- After `create_second_level_table` there is a table, and the entries are what they
were. -/
theorem createSecondLevelTable_spec (s : Mm) (pg : Page)
    (hindex : (s.ptable pg.pid).pageIndex.isSome = true) :
    ∃ P, s.createSecondLevelTable pg.tid pg.addr =
        some { s with ptable := Function.update s.ptable pg.pid P } ∧
      (s.ptable pg.pid).Same P ∧ P.HasTable pg.addr ∧
      ∀ pg' : Page, pg'.pid = pg.pid → P.pte pg'.addr = (s.ptable pg.pid).pte pg'.addr := by
  obtain ⟨directory, hd⟩ := Option.isSome_iff_exists.mp hindex
  have hget : (s.getProcess pg.tid).pageIndex = some directory := by
    rw [getProcess, Page.tid2pid_tid, hd]
  -- The table is there, or it is made with null entries.
  cases ht : directory (firstLevelIndex pg.addr) with
  | some table =>
      refine ⟨s.ptable pg.pid, ?_, .refl _, ⟨directory, table, hd, ht⟩, fun _ _ => rfl⟩
      simp [createSecondLevelTable, hget, ht]
  | none =>
      let P : Process := { s.ptable pg.pid with
        pageIndex := some (Function.update directory (firstLevelIndex pg.addr)
          (some fun _ => 0)) }
      refine ⟨P, ?_, ⟨⟨rfl, rfl, by rw [hd]; rfl⟩, rfl, rfl, ?_⟩,
        ⟨_, fun _ => 0, rfl, by simp⟩, ?_⟩
      · simp [createSecondLevelTable, hd, ht, updateProcess, getProcess, P]
      -- The tables of other addresses are as they were.
      · rintro a ⟨directory', table, hd', ht'⟩
        obtain rfl : directory = directory' := Option.some.inj (hd.symm.trans hd')
        have hne : firstLevelIndex a ≠ firstLevelIndex pg.addr := by
          intro he
          rw [he, ht] at ht'
          cases ht'
        exact ⟨_, table, rfl, by rw [Function.update_of_ne hne, ht']⟩
      · intro pg' _
        -- The entries of the new table are null, as the missing ones counted before.
        by_cases he : firstLevelIndex pg'.addr = firstLevelIndex pg.addr
        · simp [Process.pte, P, hd, he, ht]
        · simp [Process.pte, P, hd, Function.update_of_ne he]

/-- `mapResident` after the dirty bit is set. -/
theorem mapResident_eq {s s₁ : Mm} {tid : ThreadId} {addr access pte : Nat} (env : FaultEnv)
    (hs₁ : (if access &&& writable ≠ 0 then s.markDirty tid addr else some s) = some s₁)
    (hpte : s₁.pagerTableLookup tid addr = some pte) :
    s.mapResident tid addr access env =
      some ((s₁.mapFpage tid addr (clearLowerBits pte) access env.mapOk).1,
        if (s₁.mapFpage tid addr (clearLowerBits pte) access env.mapOk).2 then .mappingSuccess
        else .mappingFailed) := by
  by_cases hw : access &&& writable ≠ 0
  · rw [if_pos hw] at hs₁
    simp only [mapResident, if_pos hw, hs₁, hpte, Option.bind_eq_bind, Option.bind_some]
  · rw [if_neg hw] at hs₁
    cases hs₁
    simp only [mapResident, if_neg hw, hpte, Option.bind_eq_bind, Option.bind_some]

end Mm

/-! ### Mapping a page that is in memory -/

/-- No other thread can tell the difference. -/
structure Undisturbed (s s' : Mm) : Prop where
  same : ∀ p, (s.ptable p).Same (s'.ptable p)
  swappingPages : s'.swappingPages = s.swappingPages
  requests : s'.requests = s.requests
  wait : s'.wait = s.wait

/-- Nothing is disturbed by doing nothing. -/
theorem Undisturbed.refl (s : Mm) : Undisturbed s s := ⟨fun _ => .refl _, rfl, rfl, rfl⟩

/-- Two steps that do not disturb the others do not disturb them together. -/
theorem Undisturbed.trans {s s₁ s' : Mm} (h : Undisturbed s s₁) (h' : Undisturbed s₁ s') :
    Undisturbed s s' :=
  ⟨fun p => (h.same p).trans (h'.same p), h'.swappingPages.trans h.swappingPages,
    h'.requests.trans h.requests, h'.wait.trans h.wait⟩

/-- The moves of a fault: the page is mapped with the requested access, while the process
has the rights it had at the start. -/
def FaultMove (s : Mm) (pg : Page) (access : Nat) (_ : PageMap) (σ : Mm) (ℓ : Label) : Prop :=
  ℓ.Silent ∨ (ℓ = .map pg access ∧ ∀ q, (s.ptable q).Same (σ.ptable q))

/-- No page loses its memory, and at most the page of the fault gets some. -/
structure Gains (pg : Page) (φ φ' : PageMap) : Prop where
  kept : ∀ pg', φ pg' ≠ .absent → φ' pg' ≠ .absent
  others : ∀ pg', pg' ≠ pg → φ pg' = .absent → φ' pg' = .absent

/-- The page of the fault has memory, unless it had none and there is no frame for it. -/
def GainsPage (pg : Page) (φ : PageMap) (σ : Mm) (φ' : PageMap) : Prop :=
  φ' pg = .absent ↔ φ pg = .absent ∧ ¬ FrameReady φ σ

/-- How `virtual_mapping` ends. -/
inductive Faulted (s : Mm) (pg : Page) (access : Nat) (φ : PageMap) (σ : Mm) :
    Mm → MappingResult → Prop
  | done {ls : List Label} {φ' : PageMap} {s' : Mm} {r : MappingResult}
      (hr : r = .mappingSuccess ∨ r = .mappingFailed)
      (hc : Chain (FaultMove s pg access) φ σ ls φ' s') (hu : Undisturbed σ s')
      (hg : Gains pg φ φ') (hpage : GainsPage pg φ σ φ') :
      Faulted s pg access φ σ s' r
  | waits {ls : List Label} {φ' : PageMap} {s' : Mm} {r : MappingResult}
      (hr : r = .outOfFrames ∨ r = .pageNotAvailable)
      (hc : Chain (FaultMove s pg access) φ σ ls φ' s')
      (hsame : ∀ p, (σ.ptable p).Same (s'.ptable p))
      (hg : Gains pg φ φ') (hpage : GainsPage pg φ σ φ')
      (hs : (∃ id, Serves s'.swappingPages s'.requests pg.tid id) ∨ Label.lose ∈ ls ∨
        Label.noPage ∈ ls) :
      Faulted s pg access φ σ s' r

namespace Gains

variable {pg : Page} {φ φ₁ φ' : PageMap}

/-- A page map gains nothing over itself. -/
theorem refl (pg : Page) (φ : PageMap) : Gains pg φ φ := ⟨fun _ h => h, fun _ _ h => h⟩

/-- What is gained over two steps is for the same page. -/
theorem trans (h : Gains pg φ φ₁) (h' : Gains pg φ₁ φ') : Gains pg φ φ' :=
  ⟨fun pg' hne => h'.kept pg' (h.kept pg' hne),
    fun pg' hpg ha => h'.others pg' hpg (h.others pg' hpg ha)⟩

/-- The page of the fault has memory after a change of its state. -/
theorem update (φ : PageMap) {pg : Page} {st : PageState} (hst : st ≠ .absent) :
    Gains pg φ (Function.update φ pg st) := by
  refine ⟨fun pg' hne => ?_, fun pg' hpg ha => by rwa [Function.update_of_ne hpg]⟩
  by_cases he : pg' = pg
  · rwa [he, Function.update_self]
  · rwa [Function.update_of_ne he]

/-- Making room takes no page its memory, and gives none any. -/
theorem of_kept {s s' : Mm} {ls : List Label} (hk : Kept φ s φ' s')
    (hc : Chain (fun _ _ ℓ => ℓ.Silent) φ s ls φ' s') : Gains pg φ φ' :=
  ⟨fun _ hne => hc.not_absent hne, fun pg' _ ha => (hk.page pg' (by rw [ha]; rfl)).trans ha⟩

/-- The other pages have memory if they had some. -/
theorem absent_iff (h : Gains pg φ φ') {pg' : Page} (hne : pg' ≠ pg) :
    φ' pg' = .absent ↔ φ pg' = .absent := by
  refine ⟨fun ha => ?_, h.others pg' hne⟩
  by_contra hn
  exact h.kept pg' hn ha

/-- A page that has memory keeps it. -/
theorem page {σ : Mm} (h : Gains pg φ φ') (hne : φ pg ≠ .absent) : GainsPage pg φ σ φ' :=
  ⟨fun ha => absurd ha (h.kept pg hne), fun ha => absurd ha.1 hne⟩

end Gains

/-- A fault after other moves. -/
theorem Faulted.after {s σ₀ σ s' : Mm} {pg : Page} {access : Nat} {φ₀ φ : PageMap}
    {r : MappingResult} {ls : List Label} (h : Faulted s pg access φ σ s' r)
    (hc₀ : Chain (FaultMove s pg access) φ₀ σ₀ ls φ σ) (hu₀ : Undisturbed σ₀ σ)
    (hg₀ : Gains pg φ₀ φ)
    (hready : φ pg = .absent ∧ ¬ FrameReady φ σ ↔ φ₀ pg = .absent ∧ ¬ FrameReady φ₀ σ₀) :
    Faulted s pg access φ₀ σ₀ s' r := by
  cases h with
  | done hr hc hu hg hpage =>
      exact .done hr (hc₀.append hc) (hu₀.trans hu) (hg₀.trans hg) (hpage.trans hready)
  | waits hr hc hsame hg hpage hs =>
      refine .waits hr (hc₀.append hc) (fun p => (hu₀.same p).trans (hsame p)) (hg₀.trans hg)
        (hpage.trans hready) ?_
      exact hs.imp_right (Or.imp (List.mem_append_right _) (List.mem_append_right _))

/-- However a fault ends, only the page of the fault is mapped, and only it gains a frame. -/
theorem Faulted.gains {s σ s' : Mm} {pg : Page} {access : Nat} {φ : PageMap} {r : MappingResult}
    (h : Faulted s pg access φ σ s' r) :
    ∃ ls φ', Chain (FaultMove s pg access) φ σ ls φ' s' ∧ Gains pg φ φ' ∧
      GainsPage pg φ σ φ' := by
  cases h with
  | done _ hc _ hg hpage => exact ⟨_, _, hc, hg, hpage⟩
  | waits _ hc _ hg hpage _ => exact ⟨_, _, hc, hg, hpage⟩

section

variable {s σ : Mm} {φ : PageMap} {pg : Page} {access : Nat}

/-- Moves that say nothing are moves of any fault. -/
theorem Chain.faultMove {ls : List Label} {φ' : PageMap} {s' : Mm}
    (h : Chain (fun _ _ ℓ => ℓ.Silent) φ σ ls φ' s') :
    Chain (FaultMove s pg access) φ σ ls φ' s' :=
  h.mono fun _ _ _ hℓ => Or.inl hℓ

/-- A fault for a page that is in memory: its dirty bit is set if it is to be written, and the
kernel maps it. -/
theorem mapResident_spec (s : Mm) {f : Nat} {d : Bool} {hold : Hold} (access : Nat)
    (env : FaultEnv) (h : Inv φ σ)
    (hsame : ∀ q, (s.ptable q).Same (σ.ptable q)) (hpg : φ pg = .resident f d hold)
    (hnot : ∀ it, hold ≠ .reading it) :
    ∃ s' r, σ.mapResident pg.tid pg.addr access env = some (s', r) ∧
      Faulted s pg access φ σ s' r := by
  -- The page is marked dirty when it is mapped for writing.
  obtain ⟨σ₁, d₁, ls, hσ₁, hc₁, hu₁, hwritable⟩ : ∃ σ₁ d₁ ls,
      (if access &&& writable ≠ 0 then σ.markDirty pg.tid pg.addr else some σ) = some σ₁ ∧
      Chain (FaultMove s pg access) φ σ ls (Function.update φ pg (.resident f d₁ hold)) σ₁ ∧
      Undisturbed σ σ₁ ∧ (access &&& writable ≠ 0 → d₁ = true) := by
    by_cases hw : access &&& writable ≠ 0
    · have hok := h.ok pg
      have hlook := h.lookup (h.hasTable (by rw [hpg]; exact nofun))
      rw [hpg] at hok hlook
      exact ⟨_, true, _, by rw [if_pos hw, Mm.markDirty_resident hlook hok],
        (Chain.quiet (.dirty hpg hnot)).faultMove,
        ⟨Process.Same.update (Process.same_setPte _ _ _), rfl, rfl, rfl⟩, fun _ => rfl⟩
    · refine ⟨σ, d, [], if_neg hw, ?_, .refl σ, fun h => absurd h hw⟩
      rw [← hpg, Function.update_eq_self]
      exact .nil _ _
  have h₁ := hc₁.inv h
  have hpg₁ : Function.update φ pg (.resident f d₁ hold) pg = .resident f d₁ hold := by simp
  have hok := h₁.ok pg
  have hlook := h₁.lookup (h₁.hasTable (by rw [hpg₁]; exact nofun))
  rw [hpg₁] at hok hlook
  rw [Mm.mapResident_eq env hσ₁ hlook, PageState.clearLowerBits_resident hok]
  have hunmap : Chain (FaultMove s pg access) (Function.update φ pg (.resident f d₁ hold)) σ₁
      [.quiet] (Function.update φ pg (.resident f d₁ hold)) (σ₁.unmapFpage pg.tid pg.addr) := by
    refine (Chain.quiet (.unmap ?_)).faultMove
    intro t v
    by_cases he : t = pg.tid ∧ v = pg.addr
    · exact Or.inl (if_pos he)
    · exact Or.inr (if_neg he)
  have hu : ∀ hw, Undisturbed σ { σ₁ with hw := hw } := fun hw =>
    ⟨hu₁.same, hu₁.swappingPages, hu₁.requests, hu₁.wait⟩
  have hg : Gains pg φ (Function.update φ pg (.resident f d₁ hold)) := .update φ nofun
  have hpage : GainsPage pg φ σ (Function.update φ pg (.resident f d₁ hold)) :=
    hg.page (by rw [hpg]; exact nofun)
  unfold Mm.mapFpage
  by_cases hr : access = 0
  · rw [if_pos hr]
    exact ⟨_, _, rfl, .done (Or.inl rfl) (hc₁.append hunmap) (hu _) hg hpage⟩
  · rw [if_neg hr]
    cases env.mapOk with
    | true =>
        refine ⟨_, _, rfl, .done (Or.inl rfl) (hc₁.append (Chain.single (Or.inr ⟨rfl, ?_⟩)
          (.map hpg₁ hnot hr hwritable))) (hu _) hg hpage⟩
        exact fun q => (hsame q).trans (hu₁.same q)
    | false =>
        exact ⟨_, _, rfl, .done (Or.inr rfl) (hc₁.append hunmap) (hu _) hg hpage⟩

/-! ### Bringing a page into memory -/

/-- A fault for a page without an entry: it gets an empty frame, or the thread waits. -/
theorem mapFirstReference_spec (env : FaultEnv) (h : Inv φ σ) (hclean : Clean φ)
    (hsame : ∀ q, (s.ptable q).Same (σ.ptable q)) (hlive : σ.Live pg.pid)
    (hwait : σ.wait pg.tid = .fault)
    (hnone : ∀ id, ¬ Serves σ.swappingPages σ.requests pg.tid id)
    (htable : (σ.ptable pg.pid).HasTable pg.addr) (hpg : φ pg = .absent)
    (hv : virtualStart ≤ pg.addr) :
    ∃ s' r, σ.mapFirstReference pg.tid pg.addr access env = some (s', r) ∧
      Faulted s pg access φ σ s' r := by
  let P : Process := { σ.ptable pg.pid with size := ((σ.ptable pg.pid).size + 1) % 2 ^ 32 }
  have hP : (σ.ptable pg.pid).Same P := ⟨⟨rfl, rfl, rfl⟩, rfl, rfl, fun _ ht => ht⟩
  let σ₁ : Mm := { σ with ptable := Function.update σ.ptable pg.pid P }
  have hσ₁ : (σ.updateProcess pg.tid fun p => { p with size := (p.size + 1) % 2 ^ 32 }) = σ₁ := by
    simp only [Mm.updateProcess, Mm.getProcess, Page.tid2pid_tid]
    rfl
  have hc₁ : Chain (fun _ _ ℓ => ℓ.Silent) φ σ [.quiet] φ σ₁ :=
    Chain.quiet (.entry hP fun _ _ => rfl)
  have hu₁ : Undisturbed σ σ₁ := ⟨Process.Same.update hP, rfl, rfl, rfl⟩
  have hlive₁ : σ₁.Live pg.pid := (liveIn_update hP.toSameThread _).mpr hlive
  have h₁ := hc₁.inv h
  obtain ⟨s₂, f, hs₂, halloc⟩ := allocateNewFrame_spec h₁ hclean hlive₁ hwait hnone
  have hs₂' : σ₁.allocateNewFrame pg.tid = some (s₂, f) := hs₂
  simp only [Mm.mapFirstReference, hσ₁, hs₂', Option.bind_eq_bind, Option.bind_some, Mm.setPte_page]
  cases halloc with
  | none hnot hc hk hs =>
      have h₂ := hc.inv h₁
      have hpg₂ := hk.page pg (by rw [hpg]; rfl)
      have hpte := h₂.tables.word pg
      rw [hpg₂, hpg] at hpte
      have htable₂ := (hk.same pg.pid).table _ ((hu₁.same pg.pid).table _ htable)
      refine ⟨_, _, rfl, .waits (Or.inl rfl) ((hc₁.append (hc.append (Chain.quiet
        (.entry (p := pg.pid) (Process.same_setPte _ pg.addr 0) ?_)))).faultMove) ?_
        (.of_kept hk hc) ⟨fun _ => ⟨hpg, hnot⟩, fun _ => hpg₂.trans hpg⟩ ?_⟩
      · intro pg' hp
        rw [Process.pte_setPte pg.aligned pg.bounded pg'.aligned pg'.bounded htable₂]
        split
        next he => rw [he, hpte]; rfl
        next => rfl
      · intro q
        exact ((hu₁.same q).trans (hk.same q)).trans
          (Process.Same.update (Process.same_setPte _ _ _) q)
      · refine hs.imp_right (Or.imp ?_ ?_)
        · exact fun hm => List.mem_append_right _ (List.mem_append_left _ hm)
        · exact fun hm => List.mem_append_right _ (List.mem_append_left _ hm)
  | frame hready hc hk halloc hf =>
      rename_i ls φ₂ s₂ frames
      have h₂ := hc.inv h₁
      have hpg₂ := (hk.page pg (by rw [hpg]; rfl)).trans hpg
      have hlive₂ := (hk.live pg.pid).mpr hlive₁
      have htable₂ := (hk.same pg.pid).table _ ((hu₁.same pg.pid).table _ htable)
      have hsame₂ : ∀ q, (s.ptable q).Same (setEntry s₂.ptable pg (f + 2) q) := fun q =>
        (((hsame q).trans (hu₁.same q)).trans (hk.same q)).trans
          (Process.Same.update (Process.same_setPte _ _ _) q)
      -- The page has its frame now, and `map_page` finds it in memory.
      have hafter : ∀ {f d hold σ'},
          Function.update φ₂ pg (.resident f d hold) pg = .absent ∧
              ¬ FrameReady (Function.update φ₂ pg (.resident f d hold)) σ' ↔
            φ pg = .absent ∧ ¬ FrameReady φ σ := by
        intro f d hold σ'
        rw [Function.update_self]
        exact ⟨(by simp), fun hn => absurd hready hn.2⟩
      rw [if_neg hf]
      by_cases hipc : pg.addr = ipcMemoryStart
      · rw [if_neg (by simpa using hipc)]
        have hm := Move.touchPinned hv hlive₂ htable₂ hpg₂ hipc halloc hf
        have hall := hc₁.append (hc.append (Chain.quiet hm))
        obtain ⟨s', r, hs', hfaulted⟩ := mapResident_spec s access env
          (hm.inv h₂) (fun q => (((hsame q).trans (hu₁.same q)).trans (hk.same q)).trans
            (Process.Same.update (Process.same_setPte _ _ _) q))
          (Function.update_self ..) (by simp)
        refine ⟨s', r, hs', hfaulted.after hall.faultMove ⟨?_, ?_, ?_, ?_⟩
          ((Gains.of_kept hk.toKept hc).trans (.update φ₂ (by simp))) hafter⟩
        · intro q
          exact ((hu₁.same q).trans (hk.same q)).trans
            (Process.Same.update (Process.same_setPte _ _ _) q)
        · exact hk.swappingPages
        · exact hk.requests
        · exact hk.wait
      · rw [if_pos (by simpa using hipc)]
        let it : PageQueueItem :=
          { id := s₂.nextItem, processDeleted := false, tid := pg.tid, virtualAddress := pg.addr,
            swapOffset := -1, toSwap := env.toSwap, initiator := env.initiator }
        have hm := Move.touch hv hlive₂ htable₂ hpg₂ halloc hf (rfl : it.id = s₂.nextItem)
          ⟨rfl, rfl⟩ rfl rfl
        have hall := hc₁.append (hc.append (Chain.quiet hm))
        have hok : (PageState.resident f false .pinned).Ok := by
          have := (hm.inv h₂).ok pg
          rw [Function.update_self] at this
          exact ⟨this.frame, (by simp)⟩
        have hdirty := Mm.markDirty_resident (s := { s₂ with
            frames := frames
            phys := memset s₂.phys f 0 pageSize
            ptable := setEntry s₂.ptable pg f
            activePages := s₂.activePages ++ [it]
            nextItem := s₂.nextItem + 1 }) (Mm.lookup_setEntry rfl htable₂) hok
        obtain ⟨s', r, hs', hfaulted⟩ := mapResident_spec s access env
          (hm.inv h₂) hsame₂ (Function.update_self ..) (by simp)
        refine ⟨s', r, ?_, hfaulted.after hall.faultMove ⟨?_, ?_, ?_, ?_⟩
          ((Gains.of_kept hk.toKept hc).trans (.update φ₂ (by simp))) hafter⟩
        · simp only [Mm.createPageQueueItem]
          rw [hdirty, Option.bind_some, setEntry_setEntry]
          exact hs'
        · intro q
          exact ((hu₁.same q).trans (hk.same q)).trans
            (Process.Same.update (Process.same_setPte _ _ _) q)
        · exact hk.swappingPages
        · exact hk.requests
        · exact hk.wait

/-- A fault for a page in the swap file: it is read back to a new frame, and the thread waits. -/
theorem mapSwapped_spec {b : Nat} (env : FaultEnv) (h : Inv φ σ) (hclean : Clean φ)
    (hlive : σ.Live pg.pid) (hwait : σ.wait pg.tid = .fault)
    (hnone : ∀ id, ¬ Serves σ.swappingPages σ.requests pg.tid id) (hpg : φ pg = .swapped b) :
    ∃ s' r, σ.mapSwapped pg.tid pg.addr (PageState.word (.swapped b)) env = some (s', r) ∧
      Faulted s pg access φ σ s' r := by
  have hne : φ pg ≠ .absent := by
    rw [hpg]
    exact nofun
  have hok := h.ok pg
  rw [hpg] at hok
  obtain ⟨s₁, f, hs₁, halloc⟩ := allocateNewFrame_spec h hclean hlive hwait hnone
  have hs₁' : σ.allocateNewFrame pg.tid = some (s₁, f) := hs₁
  simp only [Mm.mapSwapped, hs₁', Option.bind_eq_bind, Option.bind_some,
    PageState.clearLowerBits_swapped hok]
  -- No frame: the thread waits until one is written out.
  cases halloc with
  | none _ hc hk hs =>
      have hg : Gains pg φ _ := .of_kept hk hc
      exact ⟨_, _, rfl, .waits (Or.inl rfl) hc.faultMove hk.same hg (hg.page hne) hs⟩
  -- A frame: the page is read into it, and the thread waits for that.
  | frame hready hc hk halloc hf =>
      rename_i ls φ₁ s₁ frames
      have hpg₁ := (hk.page pg (by rw [hpg]; rfl)).trans hpg
      have hwait₁ : s₁.wait pg.tid = .fault := by rw [hk.wait, hwait]
      have hnone₁ : ∀ id, ¬ Serves s₁.swappingPages s₁.requests pg.tid id := by
        rw [hk.swappingPages, hk.requests]
        exact hnone
      -- The item of the page that is read.
      let it : PageQueueItem :=
        { id := s₁.nextItem, processDeleted := false, tid := pg.tid, virtualAddress := pg.addr,
          swapOffset := (b : Int), toSwap := 0, initiator := env.initiator }
      have hm := Move.readIn hpg₁ halloc hf (rfl : it.id = s₁.nextItem) ⟨rfl, rfl⟩ rfl rfl rfl
        hwait₁ hnone₁
      have hg : Gains pg φ (Function.update φ₁ pg (.resident f false (.reading it))) :=
        (Gains.of_kept hk.toKept hc).trans (.update φ₁ nofun)
      rw [if_neg hf, Mm.setPte_page]
      -- The item and its request are the last ones of their lists.
      refine ⟨_, _, rfl, .waits (Or.inr rfl) (hc.append (Chain.quiet hm)).faultMove ?_
        hg (hg.page hne) (Or.inl ⟨it.id, it, ?_, rfl, Or.inl ⟨rfl, rfl,
          .read it.id (it.swapOffset + it.toSwap) batchSize, ?_, rfl, rfl⟩⟩)⟩
      · exact fun q => (hk.same q).trans (Process.Same.update (Process.same_setPte _ _ _) q)
      · exact List.mem_append_right _ List.mem_cons_self
      · exact List.mem_append_right _ List.mem_cons_self

/-- A page that is being read in belongs to a blocked thread. -/
theorem Inv.not_reading (h : Inv φ σ)
    (hnone : ∀ id, ¬ Serves σ.swappingPages σ.requests pg.tid id) {f : Nat} {d : Bool}
    {hold : Hold} (hpg : φ pg = .resident f d hold) (it : PageQueueItem) :
    hold ≠ .reading it := by
  rintro rfl
  obtain ⟨hfor, hdel, -⟩ := h.queues.page pg it (by rw [hpg]; rfl)
  have hread := (h.queues.reading pg f d it hpg).2.read
  have hmem : SwapRequest.read it.id (it.swapOffset + it.toSwap) batchSize ∈
      pending σ.requests it.id := by
    rw [hread]
    exact List.mem_cons_self
  exact hnone it.id ⟨it, h.queues.swapping_of_reading hpg, rfl,
    Or.inl ⟨hdel, hfor.1, _, (mem_pending.mp hmem).1, rfl, rfl⟩⟩

end

/-- `virtual_mapping` for a thread whose fault nobody serves yet. -/
theorem virtualMapping_spec (s : Mm) {φ : PageMap} (pg : Page) (addr access : Nat)
    (env : FaultEnv) (h : Inv φ s) (hclean : Clean φ) (hlive : s.Live pg.pid)
    (hwait : s.wait pg.tid = .fault)
    (hnone : ∀ id, ¬ Serves s.swappingPages s.requests pg.tid id)
    (ha : pageAlign addr = pg.addr) (hv : virtualStart ≤ pg.addr)
    (hgranted : s.isAccessGranted pg.tid addr access = true) :
    ∃ s' r, s.virtualMapping pg.tid addr access env = some (s', r) ∧
      Faulted s pg access φ s s' r := by
  obtain ⟨P, hP, hsame, htable, hpte⟩ :=
    s.createSecondLevelTable_spec pg (h.tables.index pg.pid hlive)
  -- The state with a second-level table for the page.
  let σ : Mm := { s with ptable := Function.update s.ptable pg.pid P }
  have hc : Chain (fun _ _ ℓ => ℓ.Silent) φ s [.quiet] φ σ := Chain.quiet (.entry hsame hpte)
  have hu : Undisturbed s σ := ⟨Process.Same.update hsame, rfl, rfl, rfl⟩
  have hσ := hc.inv h
  have hliveσ : σ.Live pg.pid := (liveIn_update hsame.toSameThread _).mpr hlive
  have htableσ : (σ.ptable pg.pid).HasTable pg.addr := by
    rw [show σ.ptable pg.pid = P from Function.update_self ..]
    exact htable
  have hlook := hσ.lookup htableσ
  have hok := hσ.ok pg
  -- The entry decides: null, in the swap file, or in memory.
  have hvirtual : s.virtualMapping pg.tid addr access env =
      if (φ pg).word = 0 then σ.mapFirstReference pg.tid pg.addr access env
      else if isSwapped (φ pg).word then σ.mapSwapped pg.tid pg.addr (φ pg).word env
      else σ.mapResident pg.tid pg.addr access env := by
    simp only [Mm.virtualMapping, hgranted, Bool.not_true, Bool.false_eq_true, if_false, ha,
      hP, Option.bind_eq_bind, Option.bind_some]
    rw [show ({ s with ptable := Function.update s.ptable pg.pid P } : Mm).pagerTableLookup pg.tid
      pg.addr = some (φ pg).word from hlook, Option.bind_some]
  rw [hvirtual]
  obtain ⟨s', r, hs', hfaulted⟩ : ∃ s' r,
      (if (φ pg).word = 0 then σ.mapFirstReference pg.tid pg.addr access env
        else if isSwapped (φ pg).word then σ.mapSwapped pg.tid pg.addr (φ pg).word env
        else σ.mapResident pg.tid pg.addr access env) = some (s', r) ∧
      Faulted s pg access φ σ s' r := by
    -- The three cases of the source are the three states of the page.
    cases hst : φ pg with
    | absent =>
        rw [if_pos PageState.word_absent]
        exact mapFirstReference_spec env hσ hclean hu.same hliveσ hwait hnone htableσ hst hv
    | swapped b =>
        rw [hst] at hok
        have hne : PageState.word (.swapped b) ≠ 0 := Nat.succ_ne_zero b
        rw [if_neg hne, if_pos ((PageState.isSwapped_word hok).mpr ⟨b, rfl⟩)]
        exact mapSwapped_spec env hσ hclean hliveσ hwait hnone hst
    | resident f d hold =>
        rw [hst] at hok
        rw [if_neg (by rw [PageState.word_eq_zero hok]; exact nofun),
          if_neg (by rw [PageState.isSwapped_word hok]; exact nofun)]
        exact mapResident_spec _ _ env hσ hu.same hst (hσ.not_reading hnone hst)
  exact ⟨s', r, hs', hfaulted.after hc.faultMove hu (.refl pg φ) Iff.rfl⟩

end Sos
