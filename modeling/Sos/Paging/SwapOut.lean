import Sos.Paging.Chain

/-!
# `Sos.Paging.SwapOut`: a frame for a page

`second_chance_select`, `swap_out` and `allocate_new_frame` as chains of moves. When
`allocate_new_frame` returns a frame, the server has at most dropped a clean page
(`MadeRoom`). When it returns none, the faulting thread is either served by the item of the
page that is written out, or the server has given up (the labels `lose` and `noPage`).

`swap_out` asserts that a clean page it drops has a slot. This is `Clean`, which every move
keeps.
-/

set_option autoImplicit false

namespace Sos

/-- A clean page that can be swapped out has a slot. -/
def Clean (φ : PageMap) : Prop :=
  ∀ pg f it, φ pg = .resident f false (.active it) → 0 ≤ it.swapOffset

/-- A page that changes its state keeps the map clean if its item has a slot when it is not
dirty. -/
theorem Clean.update {φ : PageMap} (h : Clean φ) {pg : Page} {st : PageState}
    (hst : ∀ f it, st = .resident f false (.active it) → 0 ≤ it.swapOffset) :
    Clean (Function.update φ pg st) := by
  intro pg' f it hpg
  by_cases he : pg' = pg
  · rw [he, Function.update_self] at hpg
    exact hst f it hpg
  · rw [Function.update_of_ne he] at hpg
    exact h pg' f it hpg

/-- An active page after a release was active before. -/
theorem PageMap.release_active {φ : PageMap} {p : Nat} {inRange : Nat → Bool} {pg : Page} {f : Nat}
    {d : Bool} {it : PageQueueItem} (h : φ.release p inRange pg = .resident f d (.active it)) :
    φ pg = .resident f d (.active it) := by
  by_cases hin : InRange p inRange pg
  · rw [release_of_inRange hin] at h
    cases h
  · rw [release_of_not hin] at h
    exact PageState.mapSwapping_eq_active.mp h

/-- No move makes a page clean that has no slot. -/
theorem Move.clean {φ φ' : PageMap} {s s' : Mm} {ℓ : Label} (hinv : Inv φ s) (h : Clean φ)
    (hm : Move φ s ℓ φ' s') : Clean φ' := by
  cases hm with
  -- Most moves leave the page map as it is, or make no clean page.
  | unmap | requeue | noPage | entry | map | mapPhys | store | ackDoomed | discardWrite
  | discardRead | register | registerFull | start | fault | setWait | setWaitFor | say =>
      exact h
  | evict | writeOut | lose | touch | touchPinned | readIn | ack | evicted | restored
  | arrive => exact h.update nofun
  | dirty => exact h.update nofun
  -- A page that has been read back is clean, and has the slot that it was read from.
  | arrived _ hpg _ hit =>
      refine h.update ?_
      rintro f it ⟨⟩
      have hslot := hinv.queues.slot _ (hinv.queues.swapping_of_reading hpg)
      rw [hit]
      exact hslot
  -- Pages that are given up are not clean or dirty.
  | release | delete =>
      intro pg f it hpg
      exact h pg f it (PageMap.release_active hpg)

/-- Nor does a chain. -/
theorem Chain.clean {P : PageMap → Mm → Label → Prop} {φ φ' : PageMap} {s s' : Mm}
    {ls : List Label} (h : Chain P φ s ls φ' s') (hinv : Inv φ s) (hc : Clean φ) : Clean φ' :=
  h.induction (I := fun φ _ => Clean φ) hinv hc
    fun _ _ _ _ _ hinv hc _ hm => hm.clean hinv hc

/-! ### What making room leaves alone -/

/-- The labels of the moves that make room. -/
def Label.Silent : Label → Prop
  | .quiet => True
  | .lose => True
  | .noPage => True
  | _ => False

/-- A quiet move is a silent chain. -/
theorem Chain.quiet {φ φ' : PageMap} {s s' : Mm} (hm : Move φ s .quiet φ' s') :
    Chain (fun _ _ ℓ => ℓ.Silent) φ s [.quiet] φ' s' :=
  Chain.single trivial hm

/-- A silent chain does not free a page. -/
theorem Chain.not_absent {φ φ' : PageMap} {s s' : Mm} {ls : List Label}
    (h : Chain (fun _ _ ℓ => ℓ.Silent) φ s ls φ' s') {pg : Page} (hpg : φ pg ≠ .absent) :
    φ' pg ≠ .absent := by
  induction h with
  | nil => exact hpg
  | cons hsilent hm _ ih =>
      refine ih (hm.not_absent ?_ ?_ hpg)
      · rintro p start stop rfl
        exact hsilent
      · rintro p rfl
        exact hsilent

/-- The process-table entries belong to the same processes, and the pages that are not in
memory are where they were. -/
structure Kept (φ : PageMap) (s : Mm) (φ' : PageMap) (s' : Mm) : Prop where
  same : ∀ p, (s.ptable p).Same (s'.ptable p)
  page : ∀ pg, (φ pg).frame? = none → φ' pg = φ pg

/-- Nothing has been sent to the swap file, either. -/
structure MadeRoom (φ : PageMap) (s : Mm) (φ' : PageMap) (s' : Mm) : Prop extends
    Kept φ s φ' s' where
  swappingPages : s'.swappingPages = s.swappingPages
  requests : s'.requests = s.requests
  wait : s'.wait = s.wait

namespace Kept

variable {φ φ₁ φ' : PageMap} {s s₁ s' : Mm}

/-- The same processes are alive. -/
theorem live (h : Kept φ s φ' s') (p : Nat) : s'.Live p ↔ s.Live p := by
  rw [Mm.Live, Mm.Live, LiveIn, LiveIn, (h.same p).isActive, (h.same p).tid]

/-- Where the process table stays, only pages in memory may change. -/
theorem of_ptable (hp : s'.ptable = s.ptable)
    (hpage : ∀ pg, (φ pg).frame? = none → φ' pg = φ pg) :
    Kept φ s φ' s' :=
  ⟨fun _ => hp ▸ Process.Same.refl _, hpage⟩

end Kept

/-- A page in memory changes, the others do not. -/
theorem update_of_resident {φ : PageMap} {pg : Page} {st : PageState} {f : Nat}
    (hpg : (φ pg).frame? = some f) (pg' : Page) (h : (φ pg').frame? = none) :
    Function.update φ pg st pg' = φ pg' := by
  refine Function.update_of_ne ?_ _ _
  rintro rfl
  rw [hpg] at h
  cases h

/-- A lookup of a page. -/
theorem Inv.lookup {φ : PageMap} {s : Mm} (h : Inv φ s) {pg : Page}
    (htable : (s.ptable pg.pid).HasTable pg.addr) :
    s.pagerTableLookup pg.tid pg.addr = some (φ pg).word := by
  rw [s.pagerTableLookup_page pg htable, h.tables.word]

/-- The entry of a page in memory is the word of its state. -/
theorem Inv.lookup_resident {φ : PageMap} {s : Mm} (h : Inv φ s) {pg : Page} {f : Nat} {d : Bool}
    {hold : Hold} (hpg : φ pg = .resident f d hold) :
    s.pagerTableLookup pg.tid pg.addr = some (PageState.word (.resident f d hold)) ∧
      (PageState.resident f d hold).Ok := by
  have hne : φ pg ≠ .absent := by
    rw [hpg]
    exact nofun
  rw [← hpg]
  exact ⟨h.lookup (h.hasTable hne), h.ok pg⟩

/-- A thread that runs is not served. -/
theorem Inv.not_serves {φ : PageMap} {s : Mm} (h : Inv φ s) {p : Nat}
    (hw : s.wait (threadId p) ≠ .fault) (id : Nat) :
    ¬ Serves s.swappingPages s.requests (threadId p) id :=
  fun hs => hw (h.roles.fault_of_serves hs)

/-! ### The second chance -/

namespace Mm

/-- To take a reference away affects no other page, as second chance needs it. -/
theorem lawful_isReferenced : Lib.SecondChance.Lawful isReferenced dereference := by
  refine ⟨?_, ?_⟩
  · intro s a
    simp [isReferenced, dereference, unmapFpage]
  · intro s a b h
    simp only [isReferenced, dereference, unmapFpage, Option.isSome_eq_false_iff,
      Option.isNone_iff_eq_none] at h ⊢
    split
    · rfl
    · exact h

/-- The page `second_chance_select` chooses: the first active page that is not mapped, or else
the first one. -/
def victim (s : Mm) : Option PageQueueItem :=
  Lib.SecondChance.victim isReferenced s s.activePages

/-- `second_chance_select` removes hardware mappings, until the first page is not mapped. -/
theorem secondChanceSelect_spec (s : Mm) :
    (s.activePages = [] ∧ s.secondChanceSelect = some (s, none)) ∨
      ∃ hw it rest,
        s.secondChanceSelect = some ({ s with hw := hw, activePages := rest }, some it) ∧
        (it :: rest).Perm s.activePages ∧ (∀ t v, hw t v = none ∨ hw t v = s.hw t v) ∧
        hw it.tid it.virtualAddress = none := by
  obtain ⟨⟨result, s', rest⟩, hsel⟩ :=
    Lib.SecondChance.select_total isReferenced dereference lawful_isReferenced s s.activePages
  -- What the search keeps: mappings only go away.
  obtain ⟨⟨hw, rfl, hhw⟩, hres⟩ := Lib.SecondChance.select_spec isReferenced dereference
    (P := fun s' => ∃ hw, s' = { s with hw := hw } ∧ ∀ t v, hw t v = none ∨ hw t v = s.hw t v)
    (s.activePages.length + 1) s s.activePages result s' rest
    (by
      rintro _ a - ⟨hw, rfl, hhw⟩
      refine ⟨_, rfl, ?_⟩
      intro t v
      simp only
      split
      · exact Or.inl rfl
      · exact hhw t v)
    ⟨s.hw, rfl, fun _ _ => Or.inr rfl⟩ hsel
  -- Without a result the queue is empty, and with one the victim is not mapped any more.
  cases result with
  | none =>
      obtain ⟨hnil, hs⟩ := hres
      refine Or.inl ⟨hnil, ?_⟩
      rw [hs] at hsel
      have hrest : rest = [] := by
        rw [hnil] at hsel
        simpa [Lib.SecondChance.select, eq_comm] using hsel
      rw [secondChanceSelect, hsel, hrest, ← hnil]
      rfl
  | some it =>
      refine Or.inr ⟨hw, it, rest, ?_, hres.1, hhw, ?_⟩
      · rw [secondChanceSelect, hsel]
        rfl
      · simpa [isReferenced] using hres.2

/-- No two active pages are at the same address of the same process. -/
def DistinctPages (s : Mm) : Prop :=
  s.activePages.Pairwise fun a b => ¬ (b.tid = a.tid ∧ b.virtualAddress = a.virtualAddress)

/-- Unmapping a page leaves the pages at other addresses mapped. -/
theorem DistinctPages.own {s : Mm} (h : s.DistinctPages) :
    s.activePages.Pairwise fun a b =>
      ∀ σ : Mm, isReferenced (dereference σ a) b = isReferenced σ b := by
  refine List.Pairwise.imp ?_ h
  intro a b hother σ
  simp only [isReferenced, dereference, unmapFpage, if_neg hother]

/-- Active pages have addresses of their own. -/
theorem distinctPages {φ : PageMap} {s : Mm} (h : Inv φ s) : s.DistinctPages := by
  have hnodup : s.activePages.Nodup :=
    List.Nodup.of_map _ (List.nodup_append.mp (List.map_append ▸ h.queues.nodup)).1
  refine hnodup.pairwise_of_forall_ne fun a ha b hb hne => ?_
  obtain ⟨pg, f, d, hpg⟩ := (h.queues.active_iff a).mp ha
  obtain ⟨pg', f', d', hpg'⟩ := (h.queues.active_iff b).mp hb
  have hfor := (h.queues.page pg a (by rw [hpg]; rfl)).1
  have hfor' := (h.queues.page pg' b (by rw [hpg']; rfl)).1
  rintro ⟨ht, hv⟩
  obtain rfl : pg' = pg := hfor'.unique ⟨ht.trans hfor.1, hv.trans hfor.2⟩
  rw [hpg] at hpg'
  cases hpg'
  exact hne rfl

/-- `second_chance_select` finds the first page that has not been referenced, if there is one. -/
theorem secondChanceSelect_victim {φ : PageMap} {s s' : Mm} {page : Option PageQueueItem}
    (h : Inv φ s) (hsel : s.secondChanceSelect = some (s', page)) : page = s.victim := by
  obtain ⟨⟨page₁, s₁, queue⟩, hselect, hsome⟩ := Option.bind_eq_some_iff.mp hsel
  cases hsome
  exact Lib.SecondChance.select_victim isReferenced dereference lawful_isReferenced
    (distinctPages h).own (Nat.lt_succ_self _) hselect

/-! ### `swap_out` -/

/-- `allocate_swap_entry` finds a free slot and takes it, or returns -1. -/
theorem allocateSwapEntry_spec (s : Mm) :
    s.allocateSwapEntry = (s, -1) ∨
      ∃ i, i < maxSwapEntries ∧ bitfieldGet s.swapBitfield i = false ∧ s.allocateSwapEntry =
        ({ s with swapBitfield := bitfieldSet s.swapBitfield i true },
          ((i * pageSize : Nat) : Int)) := by
  unfold allocateSwapEntry
  split
  next i hfind =>
    have hfree := List.find?_some hfind
    refine Or.inr ⟨i, List.mem_range.mp (List.mem_of_find?_eq_some hfind), ?_, ?_⟩
    · simpa using hfree
    · rw [Int.natCast_mul]
  next => exact Or.inl rfl

/-- `swap_out` after a page has been selected. -/
theorem swapOut_selected {s s₁ : Mm} {it : PageQueueItem} (t : ThreadId)
    (hsel : s.secondChanceSelect = some (s₁, some it)) (hunref : s₁.isReferenced it = false) :
    s.swapOut t =
      if it.swapOffset < 0 then
        if s₁.allocateSwapEntry.2 < 0 then some (s₁.allocateSwapEntry.1, .outOfSwapSpace)
        else s₁.allocateSwapEntry.1.writeBack t { it with swapOffset := s₁.allocateSwapEntry.2 }
      else s₁.writeBack t it := by
  simp only [swapOut, hsel, Option.bind_eq_bind, Option.bind_some, hunref, Bool.false_eq_true,
    if_false]

/-- A dirty page is queued for writing, with its requests. -/
theorem writeBack_dirty {s : Mm} (it : PageQueueItem) {f : Nat} {hold : Hold} (t : ThreadId)
    (hpte : s.pagerTableLookup it.tid it.virtualAddress =
      some (PageState.word (.resident f true hold)))
    (hok : (PageState.resident f true hold).Ok) :
    s.writeBack t it = some
      ({ s with
        swappingPages := s.swappingPages ++ [{ it with toSwap := pageSize, initiator := t }]
        requests := s.requests ++
          writeRequests { it with toSwap := pageSize, initiator := t } fun k => s.phys (f + k) },
        .swappingPending) := by
  have hne : f ≠ 0 := by
    have := (hok.frame f rfl).2.1
    simp only [pageSize] at this
    omega
  simp only [writeBack, isDirty, pagerPhysicalLookup, hpte, Option.bind_eq_bind, Option.bind_some,
    PageState.and_two_word hok, if_true, PageState.clearLowerBits_resident hok, if_neg hne]

/-- `mark_swapped` stores the offset of the slot with the flag. -/
theorem markSwapped_slot (s : Mm) {pg : Page} {w b : Nat}
    (hpte : s.pagerTableLookup pg.tid pg.addr = some w) (hb : b % pageSize = 0) :
    s.markSwapped pg.tid pg.addr b = some { s with ptable := setEntry s.ptable pg (b + 1) } := by
  have hmod : ¬ (b : Int) % pageSize ≠ 0 := by omega
  simp only [markSwapped, hpte, Option.bind_eq_bind, Option.bind_some, if_neg hmod,
    Int.toNat_natCast, or_one_eq hb, setPte_page]

/-- A clean page is in the swap file already: its frame is freed and its entry names the slot. -/
theorem writeBack_clean {s : Mm} {it : PageQueueItem} {pg : Page} {f b : Nat} {hold : Hold}
    {frames : FrameTable} (t : ThreadId) (hfor : it.For pg)
    (hpte : s.pagerTableLookup pg.tid pg.addr = some (PageState.word (.resident f false hold)))
    (hok : (PageState.resident f false hold).Ok) (hoff : it.swapOffset = (b : Int))
    (hb : b % pageSize = 0) (hfree : s.frames.frameFree f = some frames) :
    s.writeBack t it = some
      ({ s with frames := frames, ptable := setEntry s.ptable pg (b + 1) },
        .swappingComplete) := by
  have hneg : ¬ (b : Int) < 0 := by omega
  have hpte' : ({ s with frames := frames } : Mm).pagerTableLookup pg.tid pg.addr =
      some (PageState.word (.resident f false hold)) := hpte
  simp only [writeBack, isDirty, hfor.1, hfor.2, hpte, Option.bind_eq_bind, Option.bind_some,
    PageState.and_two_word hok, Bool.false_eq_true, if_false, hoff, if_neg hneg,
    PageState.clearLowerBits_resident hok, s.frameFree_eq hfree, markSwapped_slot _ hpte' hb]

/-- `swap_out` drops the page that has been selected when the page is clean. -/
theorem swapOut_clean {s s₁ : Mm} {it : PageQueueItem} {pg : Page} {f b : Nat} {hold : Hold}
    {frames : FrameTable} (t : ThreadId) (hsel : s.secondChanceSelect = some (s₁, some it))
    (hunref : s₁.isReferenced it = false) (hfor : it.For pg)
    (hpte : s₁.pagerTableLookup pg.tid pg.addr = some (PageState.word (.resident f false hold)))
    (hok : (PageState.resident f false hold).Ok) (hoff : it.swapOffset = (b : Int))
    (hb : b % pageSize = 0) (hfree : s₁.frames.frameFree f = some frames) :
    s.swapOut t = some
      ({ s₁ with frames := frames, ptable := setEntry s₁.ptable pg (b + 1) },
        .swappingComplete) := by
  rw [swapOut_selected t hsel hunref, if_neg (by omega)]
  exact writeBack_clean t hfor hpte hok hoff hb hfree

end Mm

/-- The victim has a copy in the swap file that is current. -/
def CleanVictim (φ : PageMap) (s : Mm) : Prop :=
  ∃ it pg f, s.victim = some it ∧ φ pg = .resident f false (.active it)

/-- What `swap_out` does, for each of its results. -/
inductive SwappedOut (φ : PageMap) (s : Mm) (q : Nat) : Mm → SwapOutResult → Prop
  | noPageAvailable (hnot : ¬ CleanVictim φ s) : SwappedOut φ s q s .noPageAvailable
  | outOfSwapSpace {ls : List Label} {φ' : PageMap} {s' : Mm} (hnot : ¬ CleanVictim φ s)
      (hlose : Label.lose ∈ ls)
      (hc : Chain (fun _ _ ℓ => ℓ.Silent) φ s ls φ' (s'.kdbEnter outOfSwapMessage))
      (hk : Kept φ s φ' s') : SwappedOut φ s q s' .outOfSwapSpace
  | pending {ls : List Label} {φ' : PageMap} {s' : Mm} {id : Nat} (hnot : ¬ CleanVictim φ s)
      (hc : Chain (fun _ _ ℓ => ℓ.Silent) φ s ls φ' s') (hk : Kept φ s φ' s')
      (hs : Serves s'.swappingPages s'.requests (threadId q) id) :
      SwappedOut φ s q s' .swappingPending
  | complete {ls : List Label} {φ' : PageMap} {s' : Mm} {f : Nat} (hclean : CleanVictim φ s)
      (hc : Chain (fun _ _ ℓ => ℓ.Silent) φ s ls φ' s') (hk : MadeRoom φ s φ' s')
      (hf : f ∈ s'.frames.stack) : SwappedOut φ s q s' .swappingComplete

/-- `swap_out` drops a clean page, or queues a dirty one, or reports why it does neither. -/
theorem swapOut_spec {φ : PageMap} {s : Mm} {q : Nat} (h : Inv φ s) (hc : Clean φ)
    (hlive : s.Live q) (hwait : s.wait (threadId q) = .fault)
    (hnone : ∀ id, ¬ Serves s.swappingPages s.requests (threadId q) id) :
    ∃ s' r, s.swapOut (threadId q) = some (s', r) ∧ SwappedOut φ s q s' r := by
  obtain ⟨-, hsel⟩ | ⟨hw, it, rest, hsel, hperm, hhw, hunref⟩ := s.secondChanceSelect_spec
  · have hvictim := Mm.secondChanceSelect_victim h hsel
    refine ⟨s, .noPageAvailable, by simp [Mm.swapOut, hsel], .noPageAvailable ?_⟩
    rintro ⟨it, pg, f, hit, -⟩
    rw [← hvictim] at hit
    cases hit
  let σ : Mm := { s with hw := hw, activePages := it :: rest }
  have hchain : Chain (fun _ _ ℓ => ℓ.Silent) φ s [.quiet, .quiet] φ σ :=
    (Chain.quiet (.unmap hhw)).append (Chain.quiet (.requeue hperm))
  have hσ : Inv φ σ := hchain.inv h
  obtain ⟨pg, f, d, hpg⟩ := (hσ.queues.active_iff it).mp List.mem_cons_self
  obtain ⟨hfor, -, hoff⟩ := hσ.queues.page pg it (by rw [hpg]; rfl)
  have hne : φ pg ≠ .absent := by
    rw [hpg]
    exact nofun
  have hframe : (φ pg).frame? = some f := by rw [hpg]; rfl
  have hok := h.ok pg
  have hlook := h.lookup (h.hasTable hne)
  rw [hpg] at hok hlook
  have hvictim := Mm.secondChanceSelect_victim h hsel
  have hdirty : d = true → ¬ CleanVictim φ s := by
    rintro rfl ⟨it', pg', f', hit', hpg'⟩
    obtain rfl : it = it' := Option.some.inj (hvictim.trans hit')
    obtain rfl : pg' = pg := (h.queues.page pg' it (by rw [hpg']; rfl)).1.unique hfor
    rw [hpg] at hpg'
    cases hpg'
  have hhwpg : σ.hw pg.tid pg.addr = none := by
    rw [← hfor.1, ← hfor.2]
    exact hunref
  have hnref : ({ s with hw := hw, activePages := rest } : Mm).isReferenced it = false := by
    simp [Mm.isReferenced, hunref]
  have hkept : ∀ st, ∀ pg', (φ pg').frame? = none → Function.update φ pg st pg' = φ pg' :=
    fun st => update_of_resident hframe
  have hserves : ∀ (it' : PageQueueItem) (data : Nat → UInt8), it'.initiator = threadId q →
      Serves (s.swappingPages ++ [it']) (s.requests ++ Mm.writeRequests it' data) (threadId q)
        it'.id := by
    intro it' data hinit
    have hmem : (SwapRequest.write it'.id (it'.swapOffset + ((0 * batchSize : Nat) : Int))
        fun k => data (0 * batchSize + k)) ∈ Mm.writeRequests it' data :=
      List.mem_map.mpr ⟨0, by decide, rfl⟩
    exact ⟨it', by simp, rfl, Or.inr ⟨hinit, _, List.mem_append_right _ hmem, rfl, rfl⟩⟩
  cases hoff with
  | inl hoff =>
      -- The page has no slot yet, so it is dirty.
      have hd : d = true := by
        cases d with
        | true => rfl
        | false =>
            have := hc pg f it hpg
            omega
      subst hd
      have hneg : it.swapOffset < 0 := by omega
      rw [Mm.swapOut_selected _ hsel hnref, if_pos hneg]
      obtain hfull | ⟨i, hi, hfree, hslot⟩ :=
        ({ s with hw := hw, activePages := rest } : Mm).allocateSwapEntry_spec
      · rw [hfull, if_pos (show (-1 : Int) < 0 by decide)]
        exact ⟨_, _, rfl, .outOfSwapSpace (hdirty rfl) (by simp)
          (hchain.append (Chain.single (ℓ := .lose) trivial (.lose rfl hpg hneg)))
          (.of_ptable rfl (hkept _))⟩
      · have hpos : ¬ ((i * pageSize : Nat) : Int) < 0 := by omega
        rw [hslot, if_neg hpos,
          Mm.writeBack_dirty { it with swapOffset := ((i * pageSize : Nat) : Int) } (threadId q)
            (by rw [hfor.1, hfor.2]; exact hlook) hok]
        exact ⟨_, _, rfl, .pending (hdirty rfl) (hchain.append (Chain.quiet
          (.writeOut rfl hpg (Or.inr ⟨hoff, i, rfl, hi, hfree, rfl⟩) hlive hwait hnone rfl)))
          (.of_ptable rfl (hkept _)) (hserves _ _ rfl)⟩
  | inr hoff =>
      obtain ⟨b, hb⟩ := Int.eq_ofNat_of_zero_le hoff
      have hneg : ¬ it.swapOffset < 0 := by omega
      have hslot : (φ pg).slot? = some b := by
        rwa [hpg, PageState.slot?_active, PageQueueItem.slot_eq_some]
      cases d with
      | true =>
          rw [Mm.swapOut_selected _ hsel hnref, if_neg hneg]
          have hit : ({ it with toSwap := pageSize, initiator := threadId q } : PageQueueItem) =
              { it with swapOffset := (b : Int), toSwap := pageSize, initiator := threadId q } := by
            rw [← hb]
          exact ⟨_, _, Mm.writeBack_dirty it (threadId q) (by rw [hfor.1, hfor.2]; exact hlook) hok,
            .pending (hdirty rfl) (hchain.append (Chain.quiet
              (.writeOut rfl hpg (Or.inl ⟨hb, rfl⟩) hlive hwait hnone hit)))
              (.of_ptable rfl (hkept _)) (hserves _ _ rfl)⟩
      | false =>
          have hvalid := h.frames.valid hframe
          obtain ⟨frames, hfree, hwf, hstart, hstop, hused⟩ := h.frames.wf.frameFree_spec hvalid
          have hstack : f ∈ frames.stack := by
            have hvalid' : frames.Valid f := by
              rwa [FrameTable.Valid, hstart, hstop]
            refine (hwf.mem_stack f).mpr ⟨hvalid', ?_⟩
            rw [Bool.eq_false_iff]
            exact fun hu => ((hused f).mp ⟨hvalid', hu⟩).2 rfl
          have hmod := (h.slots.valid (.page pg) b hslot).1
          exact ⟨_, _, Mm.swapOut_clean (threadId q) hsel hnref hfor hlook hok hb hmod hfree,
            .complete ⟨it, pg, f, hvictim.symm, hpg⟩
              (hchain.append (Chain.quiet (.evict rfl hpg hb hhwpg hfree)))
              ⟨⟨Process.Same.update (Process.same_setPte _ _ _), hkept _⟩, rfl, rfl, rfl⟩ hstack⟩

/-! ### `allocate_new_frame` -/

/-- `allocate_new_frame` gets a frame without waiting for the swap file. -/
def FrameReady (φ : PageMap) (s : Mm) : Prop := s.frames.stack ≠ [] ∨ CleanVictim φ s

/-- What `allocate_new_frame` does, with a frame and without one. -/
inductive Allocated (φ : PageMap) (s : Mm) (q : Nat) : Mm → Nat → Prop
  | frame {ls : List Label} {φ₁ : PageMap} {s₁ : Mm} {frames : FrameTable} {f : Nat}
      (hready : FrameReady φ s) (hc : Chain (fun _ _ ℓ => ℓ.Silent) φ s ls φ₁ s₁)
      (hk : MadeRoom φ s φ₁ s₁) (halloc : s₁.frames.frameAlloc = some (frames, f)) (hf : f ≠ 0) :
      Allocated φ s q { s₁ with frames := frames, phys := memset s₁.phys f 0 pageSize } f
  | none {ls : List Label} {φ' : PageMap} {s' : Mm} (hnot : ¬ FrameReady φ s)
      (hc : Chain (fun _ _ ℓ => ℓ.Silent) φ s ls φ' s') (hk : Kept φ s φ' s')
      (hs : (∃ id, Serves s'.swappingPages s'.requests (threadId q) id) ∨ Label.lose ∈ ls ∨
        Label.noPage ∈ ls) :
      Allocated φ s q s' 0

/-- `frame_alloc` while there is a frame. -/
theorem Inv.frameAlloc {φ : PageMap} {s : Mm} (h : Inv φ s) {f : Nat}
    (hf : f ∈ s.frames.stack) :
    ∃ frames g, g ≠ 0 ∧ s.frames.frameAlloc = some (frames, g) ∧
      s.frameAlloc =
        some ({ s with frames := frames, phys := memset s.phys g 0 pageSize }, g) := by
  obtain ⟨g, rest, hs⟩ := List.exists_cons_of_ne_nil (List.ne_nil_of_mem hf)
  obtain ⟨frames, halloc, -, -, -, hvalid, -⟩ := h.frames.wf.frameAlloc_spec hs
  have hg : g ≠ 0 := by
    have := h.frames.wf.pos_of_valid hvalid
    simp only [pageSize] at this
    omega
  exact ⟨frames, g, hg, halloc, by simp [Mm.frameAlloc, halloc, hg]⟩

/-- `allocate_new_frame` returns a frame, or 0 with the thread waiting for one. -/
theorem allocateNewFrame_spec {φ : PageMap} {s : Mm} {q : Nat} (h : Inv φ s) (hc : Clean φ)
    (hlive : s.Live q) (hwait : s.wait (threadId q) = .fault)
    (hnone : ∀ id, ¬ Serves s.swappingPages s.requests (threadId q) id) :
    ∃ s' f, s.allocateNewFrame (threadId q) = some (s', f) ∧ Allocated φ s q s' f := by
  cases hstack : s.frames.stack with
  -- There is a free frame.
  | cons g rest =>
      obtain ⟨frames, f, hf, halloc, hs⟩ := h.frameAlloc (f := g) (by rw [hstack]; simp)
      have hready : FrameReady φ s := Or.inl (by rw [hstack]; exact List.cons_ne_nil g rest)
      refine ⟨_, f, ?_, .frame hready (.nil φ s) ⟨.of_ptable rfl fun _ _ => rfl, rfl, rfl, rfl⟩ halloc hf⟩
      simp only [Mm.allocateNewFrame, hs, Option.bind_eq_bind, Option.bind_some, ne_eq, hf,
        not_false_eq_true, if_true]
  -- A page has to be swapped out, and only a clean one gives its frame at once.
  | nil =>
      have hs : s.frameAlloc = some (s, 0) := by
        simp [Mm.frameAlloc, FrameTable.Wf.frameAlloc_nil hstack]
      have hready : FrameReady φ s ↔ CleanVictim φ s :=
        ⟨fun hr => hr.resolve_left fun hne => hne hstack, Or.inr⟩
      obtain ⟨s', r, hswap, hout⟩ := swapOut_spec h hc hlive hwait hnone
      cases hout with
      | noPageAvailable hnot =>
          refine ⟨_, 0, ?_, .none (hready.not.mpr hnot) (Chain.single (ℓ := .noPage) trivial .noPage)
            (.of_ptable rfl fun _ _ => rfl) (Or.inr (Or.inr (by simp)))⟩
          simp only [Mm.allocateNewFrame, hs, hswap, Option.bind_eq_bind, Option.bind_some,
            ne_eq, not_true_eq_false, if_false]
          rfl
      | outOfSwapSpace hnot hlose hch hk =>
          refine ⟨_, 0, ?_, .none (hready.not.mpr hnot) hch ⟨hk.same, hk.page⟩ (Or.inr (Or.inl hlose))⟩
          simp only [Mm.allocateNewFrame, hs, hswap, Option.bind_eq_bind, Option.bind_some,
            ne_eq, not_true_eq_false, if_false]
          rfl
      | pending hnot hch hk hserves =>
          refine ⟨_, 0, ?_, .none (hready.not.mpr hnot) hch hk (Or.inl ⟨_, hserves⟩)⟩
          simp only [Mm.allocateNewFrame, hs, hswap, Option.bind_eq_bind, Option.bind_some,
            ne_eq, not_true_eq_false, if_false]
      | complete hclean hch hk hf =>
          obtain ⟨frames, g, hg, halloc, hs'⟩ := (hch.inv h).frameAlloc hf
          refine ⟨_, g, ?_, .frame (Or.inr hclean) hch hk halloc hg⟩
          simp only [Mm.allocateNewFrame, hs, hswap, hs', Option.bind_eq_bind, Option.bind_some,
            ne_eq, not_true_eq_false, if_false, hg]

end Sos
