import Sos.Lib.Loop
import Sos.Paging.Release

/-!
# `Sos.Paging.FreeLoops`: `pager_free_all` and `pager_free_range`

Both functions walk over the page table of a process, then over the active pages, then over
the pages being swapped. `Freed` is the state of the walk when the pages of a set are done:
their entries are null, their frames are free, and so are the slots of the swapped ones. The
walk goes by ascending address, so the set is "in range and below the next address"
(`freeWalk`).

`pagerFreeAll_spec` and `pagerFreeRange_spec` say what the functions do as a whole. None of
their assertions fails: `swap_free` is only called with slots that are in use.
-/

set_option autoImplicit false

namespace Sos

namespace Mm

/-- A lookup of a page whose table exists. -/
theorem pagerTableLookup_page (s : Mm) (pg : Page) (h : (s.ptable pg.pid).HasTable pg.addr) :
    s.pagerTableLookup pg.tid pg.addr = some ((s.ptable pg.pid).pte pg.addr) := by
  obtain ⟨directory, table, hd, ht⟩ := h
  simp [pagerTableLookup, getProcess, Process.pte, hd, ht]

/-- A store to the entry of a page, as an update of the table of entries. -/
theorem setPte_page (s : Mm) (pg : Page) (w : Nat) :
    s.setPte pg.tid pg.addr w = { s with ptable := setEntry s.ptable pg w } := by
  simp only [setPte, updateProcess, getProcess, Page.tid2pid_tid]
  rfl

/-- `swap_free` of a slot that is in use. -/
theorem swapFree_slot (s : Mm) {b : Nat} (hb : b % pageSize = 0)
    (hlt : b < maxSwapEntries * pageSize)
    (hbit : bitfieldGet s.swapBitfield (b / pageSize) = true) :
    s.swapFree b =
      some { s with swapBitfield := bitfieldSet s.swapBitfield (b / pageSize) false } := by
  have hmod : ¬ ((b : Int) % pageSize ≠ 0 ∨ (b : Int) < 0) := by omega
  have hle : b / pageSize ≤ maxSwapEntries := by
    simp only [pageSize, maxSwapEntries] at hlt ⊢
    omega
  simp only [swapFree]
  rw [if_neg hmod, Int.toNat_natCast, if_pos ⟨hle, hbit⟩]

/-- `frame_free` of a frame that the allocator takes back changes nothing else. -/
theorem frameFree_eq (s : Mm) {f : Nat} {frames : FrameTable}
    (h : s.frames.frameFree f = some frames) : s.frameFree f = some { s with frames := frames } := by
  simp [frameFree, h]

/-- `swap_free` has returned. -/
theorem swapFree_run {s s' : Mm} {offset : Int} (h : s.swapFree offset = some s') :
    s' = { s with
      swapBitfield := bitfieldSet s.swapBitfield (offset.toNat / pageSize) false } := by
  unfold swapFree at h
  split at h
  · cases h
  · obtain ⟨-, h⟩ := Option.ite_none_right_eq_some.mp h
    exact (Option.some.inj h).symm

/-- `frame_free` has returned. -/
theorem frameFree_run {s s' : Mm} (hwf : s.frames.Wf) {f : Nat} (h : s.frameFree f = some s') :
    s' = { s with frames := s'.frames } ∧ s'.frames.Wf ∧ s'.frames.start = s.frames.start ∧
      s'.frames.stop = s.frames.stop ∧ ∀ g, s'.frames.Used g ↔ s.frames.Used g ∧ g ≠ f := by
  obtain ⟨frames, hframes, h⟩ := Option.bind_eq_some_iff.mp h
  cases h
  have hvalid : s.frames.Valid f := by
    rw [← FrameTable.isValidFrameAddress_iff]
    by_contra hno
    rw [FrameTable.frameFree, if_neg hno] at hframes
    cases hframes
  obtain ⟨frames', hframes', hspec⟩ := hwf.frameFree_spec hvalid
  rw [hframes] at hframes'
  cases hframes'
  exact ⟨rfl, hspec⟩

end Mm

/-- The walk over the page table of slot `p` has done the pages of `D`. -/
structure Freed (φ : PageMap) (s : Mm) (p : Nat) (D : Page → Prop) (s' : Mm) : Prop where
  rest : s' = { s with
    ptable := s'.ptable, frames := s'.frames, swapBitfield := s'.swapBitfield }
  entry : ∃ P, s'.ptable = Function.update s.ptable p P ∧ (s.ptable p).Same P
  tables : TablesOk (φ.drop D) s'.ptable
  frames : FramesOk (φ.drop D) s'.frames
  slots : SlotsOk (φ.drop fun pg => D pg ∧ ∃ b, φ pg = .swapped b) s'.swapBitfield s.swappingPages
  bits : ∀ i, bitfieldGet s'.swapBitfield i = true → bitfieldGet s.swapBitfield i = true ∧
    ∀ pg b, D pg → φ pg = .swapped b → i ≠ b / pageSize

namespace Freed

variable {φ : PageMap} {s s' : Mm} {p : Nat} {D D' : Page → Prop}

/-- Pages without memory do not count. -/
theorem congr (h : Freed φ s p D s') (hD : ∀ q, φ q ≠ .absent → (D q ↔ D' q)) :
    Freed φ s p D' s' := by
  have hslots : (φ.drop fun pg => D pg ∧ ∃ b, φ pg = .swapped b)
      = φ.drop fun pg => D' pg ∧ ∃ b, φ pg = .swapped b :=
    PageMap.drop_congr fun q hq => and_congr_left fun _ => hD q hq
  refine ⟨h.rest, h.entry, ?_, ?_, ?_, ?_⟩
  · rw [← PageMap.drop_congr hD]
    exact h.tables
  · rw [← PageMap.drop_congr hD]
    exact h.frames
  · rw [← hslots]
    exact h.slots
  · intro i hi
    refine ⟨(h.bits i hi).1, fun pg b hd hpg => (h.bits i hi).2 pg b ?_ hpg⟩
    exact (hD pg (by rw [hpg]; exact nofun)).mpr hd

/-- The walk starts with no page done. -/
theorem start (h : Inv φ s) (hD : ∀ q, ¬ D q) : Freed φ s p D s := by
  have hslots : (φ.drop fun pg => D pg ∧ ∃ b, φ pg = .swapped b) = φ :=
    PageMap.drop_of_empty fun q hq => hD q hq.1
  refine ⟨rfl, ⟨s.ptable p, by simp, Process.Same.refl _⟩, ?_, ?_, ?_,
    fun i hi => ⟨hi, fun pg b hd => absurd hd (hD pg)⟩⟩
  · rw [PageMap.drop_of_empty hD]
    exact h.tables
  · rw [PageMap.drop_of_empty hD]
    exact h.frames
  · rw [hslots]
    exact h.slots

/-- The process is still there while its pages are freed. -/
theorem live (h : Freed φ s p D s') (hlive : s.Live p) : s'.Live p := by
  obtain ⟨P, hP, hsame⟩ := h.entry
  show LiveIn s'.ptable p
  rw [hP]
  exact (liveIn_update hsame.toSameThread p).mpr hlive

/-- Its second level tables are, too. -/
theorem hasTable (h : Freed φ s p D s') {addr : Nat} (ht : (s.ptable p).HasTable addr) :
    (s'.ptable p).HasTable addr := by
  obtain ⟨P, hP, hsame⟩ := h.entry
  rw [hP, Function.update_self]
  exact hsame.table addr ht

/-- The bookkeeping of the process changes, its pages do not. -/
theorem size (h : Freed φ s p D s') (n : Nat) :
    Freed φ s p D { s' with
      ptable := Function.update s'.ptable p { s'.ptable p with size := n } } := by
  obtain ⟨P, hP, hsame⟩ := h.entry
  have hsize : (s'.ptable p).Same { s'.ptable p with size := n } :=
    ⟨⟨rfl, rfl, rfl⟩, rfl, rfl, fun _ ht => ht⟩
  -- The page table is the one of before; the size is no part of it.
  have hp : s'.ptable p = P := by rw [hP, Function.update_self]
  refine ⟨?_, ⟨{ P with size := n }, ?_, ?_⟩, ?_, h.frames, h.slots, h.bits⟩
  · conv_lhs => rw [h.rest]
  · show Function.update s'.ptable p _ = _
    rw [hp, hP, Function.update_idem]
  · rw [hp] at hsize
    exact hsame.trans hsize
  · refine h.tables.update hsize.toSameThread (fun _ _ => rfl) ?_ ?_
    · intro pg hpg
      rw [← h.tables.word pg, hpg]
      rfl
    · intro pg hpg hne
      rw [← hpg]
      exact h.tables.live pg hne

/-- The body of the walk does one more page. -/
theorem freeEntry (hinv : Inv φ s) (hlive : s.Live p) (h : Freed φ s p D s') {pg : Page}
    (hpg : pg.pid = p) (htable : (s.ptable p).HasTable pg.addr) (hnot : ¬ D pg)
    (hD : ∀ q, D' q ↔ D q ∨ q = pg) :
    ∃ s'', s'.freeEntry (threadId p) pg.addr = some s'' ∧ Freed φ s p D' s'' := by
  subst hpg
  have htable' := h.hasTable htable
  have hlook := s'.pagerTableLookup_page pg htable'
  rw [h.tables.word pg, PageMap.drop_of_not hnot] at hlook
  have hok := hinv.ok pg
  have htab : ∀ ptable' : Nat → Process, ptable' = s'.ptable →
      TablesOk (φ.drop D') (setEntry ptable' pg 0) := by
    rintro _ rfl
    rw [PageMap.drop_insert hD]
    exact h.tables.setEntry (h.live hlive) htable' rfl
  have hentry : ∃ P, setEntry s'.ptable pg 0 = Function.update s.ptable pg.pid P ∧
      (s.ptable pg.pid).Same P := by
    obtain ⟨P, hP, hsame⟩ := h.entry
    refine ⟨P.setPte pg.addr 0, ?_, hsame.trans (Process.same_setPte _ _ _)⟩
    rw [setEntry, hP, Function.update_self, Function.update_idem]
  have htid : threadId pg.pid = pg.tid := rfl
  cases hst : φ pg with
  -- Nothing is given back.
  | absent =>
      rw [hst] at hlook
      have hslots : (φ.drop fun q => D' q ∧ ∃ b, φ q = .swapped b)
          = φ.drop fun q => D q ∧ ∃ b, φ q = .swapped b := by
        refine PageMap.drop_congr fun q hq => and_congr_left fun _ => ?_
        rw [hD]
        refine ⟨fun h => h.resolve_right ?_, Or.inl⟩
        rintro rfl
        exact hq hst
      refine ⟨s'.setPte pg.tid pg.addr 0, ?_, ?_⟩
      · rw [htid]
        simp [Mm.freeEntry, hlook, isSwapped]
      · rw [Mm.setPte_page]
        refine ⟨?_, hentry, htab _ rfl, ?_, ?_, ?_⟩
        · conv_lhs => rw [h.rest]
        · rw [PageMap.drop_insert hD]
          exact h.frames.congr (frame_update (by rw [PageMap.drop_of_not hnot, hst]))
        · rw [hslots]
          exact h.slots
        · intro i hi
          refine ⟨(h.bits i hi).1, fun q b hq hqs => (h.bits i hi).2 q b ?_ hqs⟩
          refine ((hD q).mp hq).resolve_right ?_
          rintro rfl
          rw [hst] at hqs
          cases hqs
  -- The slot of the page is given back.
  | swapped b =>
      rw [hst] at hlook hok
      have hnotE : ¬ (D pg ∧ ∃ b, φ pg = .swapped b) := fun hd => hnot hd.1
      have hE : ∀ q, (D' q ∧ ∃ b, φ q = .swapped b) ↔
          (D q ∧ ∃ b, φ q = .swapped b) ∨ q = pg := by
        intro q
        rw [hD]
        constructor
        · rintro ⟨hq | rfl, hs⟩
          · exact Or.inl ⟨hq, hs⟩
          · exact Or.inr rfl
        · rintro (⟨hq, hs⟩ | rfl)
          · exact ⟨Or.inl hq, hs⟩
          · exact ⟨Or.inr rfl, b, hst⟩
      have hholds : Holds (φ.drop fun q => D q ∧ ∃ b, φ q = .swapped b) s.swappingPages
          (.page pg) b := by
        simp only [Holds]
        rw [PageMap.drop_of_not hnotE, hst]
        rfl
      obtain ⟨h1, h2, h3⟩ := h.slots.valid (.page pg) b hholds
      have hswap : isSwapped (PageState.word (.swapped b)) = true :=
        (PageState.isSwapped_word hok).mpr ⟨b, rfl⟩
      have hclear := PageState.clearLowerBits_swapped hok
      refine ⟨Mm.setPte { s' with
        swapBitfield := bitfieldSet s'.swapBitfield (b / pageSize) false } pg.tid pg.addr 0, ?_, ?_⟩
      · rw [htid]
        simp only [Mm.freeEntry, hlook, Option.bind_eq_bind, Option.bind_some, hswap, if_true,
          hclear, s'.swapFree_slot h1 h2 h3]
      · rw [Mm.setPte_page]
        refine ⟨?_, hentry, htab _ rfl, ?_, ?_, ?_⟩
        · conv_lhs => rw [h.rest]
        · rw [PageMap.drop_insert hD]
          exact h.frames.congr (frame_update (by rw [PageMap.drop_of_not hnot, hst]; rfl))
        · rw [PageMap.drop_insert hE]
          refine h.slots.give h1 ?_
          rintro (q | id) c hc
          · by_cases hq : q = pg
            · simp only [Holds, hq, Function.update_self] at hc
              cases hc
            · simp only [Holds, Function.update_of_ne hq] at hc
              refine ⟨hc, ?_⟩
              rintro rfl
              exact hq (by simpa using h.slots.unique (.page q) (.page pg) c hc hholds)
          · refine ⟨hc, ?_⟩
            rintro rfl
            cases h.slots.unique (.doomed id) (.page pg) c hc hholds
        · intro i hi
          have hget : bitfieldGet (bitfieldSet s'.swapBitfield (b / pageSize) false) i = true := hi
          rw [bitfieldGet_bitfieldSet] at hget
          by_cases hib : i = b / pageSize
          · rw [if_pos hib] at hget
            cases hget
          · rw [if_neg hib] at hget
            refine ⟨(h.bits i hget).1, fun q c hq hqs => ?_⟩
            rcases (hD q).mp hq with hq | rfl
            · exact (h.bits i hget).2 q c hq hqs
            · rw [hst] at hqs
              cases hqs
              exact hib
  -- The frame is given back, and the slot of an item only with the item.
  | resident f d hold =>
      rw [hst] at hlook hok
      have hframe : (φ.drop D pg).frame? = some f := by
        rw [PageMap.drop_of_not hnot, hst]
        rfl
      obtain ⟨frames', hfree, hwf, -, -, hused⟩ :=
        h.frames.wf.frameFree_spec (h.frames.valid hframe)
      have hswap : ¬ isSwapped (PageState.word (.resident f d hold)) = true := by
        rw [PageState.isSwapped_word hok]
        rintro ⟨b, hb⟩
        cases hb
      have hzero : PageState.word (.resident f d hold) ≠ 0 := by
        rw [ne_eq, PageState.word_eq_zero hok]
        simp
      have hclear := PageState.clearLowerBits_resident hok
      have hslots : (φ.drop fun q => D' q ∧ ∃ b, φ q = .swapped b)
          = φ.drop fun q => D q ∧ ∃ b, φ q = .swapped b := by
        refine PageMap.drop_congr fun q _ => ?_
        rw [hD]
        refine ⟨?_, fun hq => ⟨Or.inl hq.1, hq.2⟩⟩
        rintro ⟨hq | rfl, b, hb⟩
        · exact ⟨hq, b, hb⟩
        · rw [hst] at hb
          cases hb
      refine ⟨Mm.setPte { s' with frames := frames' } pg.tid pg.addr 0, ?_, ?_⟩
      · rw [htid]
        simp only [Mm.freeEntry, hlook, Option.bind_eq_bind, Option.bind_some, if_neg hswap,
          ne_eq, hzero, not_false_eq_true, if_true, hclear, s'.frameFree_eq hfree]
      · rw [Mm.setPte_page]
        refine ⟨?_, hentry, htab _ rfl, ?_, ?_, ?_⟩
        · conv_lhs => rw [h.rest]
        · rw [PageMap.drop_insert hD]
          exact h.frames.give hwf hused hframe rfl
        · rw [hslots]
          exact h.slots
        · intro i hi
          refine ⟨(h.bits i hi).1, fun q b hq hqs => (h.bits i hi).2 q b ?_ hqs⟩
          refine ((hD q).mp hq).resolve_right ?_
          rintro rfl
          rw [hst] at hqs
          cases hqs

end Freed

/-! ### The walk over a page table -/

/-- The pages in range below an address. -/
def Below (p : Nat) (inRange : Nat → Bool) (bound : Nat) (pg : Page) : Prop :=
  InRange p inRange pg ∧ pg.addr < bound

/-- The rule for the loops over a page table. The invariant `P` is indexed by the next
address. It may skip addresses where no page has memory. -/
theorem walkPageTable_spec {φ : PageMap} {s : Mm} {p : Nat} (h : Inv φ s) (hlive : s.Live p)
    (body : Mm → Nat → Option Mm) (P : Nat → Mm → Prop)
    (hskip : ∀ a b s₁, a ≤ b → (∀ q : Page, q.pid = p → a ≤ q.addr → q.addr < b →
      φ q = .absent) → P a s₁ → P b s₁)
    (hbody : ∀ (pg : Page) (s₁ : Mm), pg.pid = p → (s.ptable p).HasTable pg.addr →
      P pg.addr s₁ → ∃ s₂, body s₁ pg.addr = some s₂ ∧ P (pg.addr + pageSize) s₂)
    (h0 : P 0 s) :
    ∃ s', s.walkPageTable (threadId p) body = some s' ∧ P addressSpace s' := by
  obtain ⟨directory, hd⟩ := Option.isSome_iff_exists.mp (h.tables.index p hlive)
  have hget : (s.getProcess (threadId p)).pageIndex = some directory := by
    rw [Mm.getProcess, tid2pid_threadId, hd]
  have hstart : P (0 * 2 ^ 20) s := by rwa [Nat.zero_mul]
  have hend : addressSpace = firstLevelEntries * 2 ^ 20 := by decide
  simp only [Mm.walkPageTable, hget, Option.bind_eq_bind, Option.bind_some]
  rw [hend]
  refine Lib.foldlM_range_induction (P := fun i => P (i * 2 ^ 20)) ?_ hstart
  intro i hi s₁ hs₁
  have hi' : i < 2 ^ 12 := hi
  -- Without a second-level table no page of the process is in these addresses.
  cases htab : directory i with
  | none =>
      refine ⟨s₁, rfl, hskip _ _ s₁ (by omega) ?_ hs₁⟩
      intro q hq hge hlt
      by_contra hne
      -- A page that is there would be in a table.
      obtain ⟨directory', table, hd', ht⟩ := h.hasTable hne
      rw [hq, hd] at hd'
      obtain rfl := Option.some.inj hd'
      have hidx : firstLevelIndex q.addr = i := by
        rw [firstLevelIndex_eq]
        omega
      rw [hidx, htab] at ht
      cases ht
  -- The inner loop goes over the entries of the table in the order of their addresses.
  | some table =>
      have hstart : P (i * 2 ^ 20 + 0 * 2 ^ 12) s₁ := by rwa [Nat.zero_mul, Nat.add_zero]
      have hend : (i + 1) * 2 ^ 20 = i * 2 ^ 20 + secondLevelEntries * 2 ^ 12 := by
        simp only [secondLevelEntries]
        omega
      rw [hend]
      refine Lib.foldlM_range_induction (P := fun j => P (i * 2 ^ 20 + j * 2 ^ 12)) ?_ hstart
      intro j hj s₂ hs₂
      have hj' : j < 2 ^ 8 := hj
      have haddr : createVirtualAddress i j = i * 2 ^ 20 + j * 2 ^ 12 :=
        createVirtualAddress_eq hj
      have hmod : createVirtualAddress i j % pageSize = 0 := by
        rw [haddr]
        simp only [pageSize]
        omega
      have hlt : createVirtualAddress i j < addressSpace := by
        rw [haddr]
        simp only [addressSpace]
        omega
      have hidx : firstLevelIndex (createVirtualAddress i j) = i := by
        rw [firstLevelIndex_eq, haddr]
        omega
      -- The next entry is that of the next page.
      have hnext : createVirtualAddress i j + pageSize = i * 2 ^ 20 + (j + 1) * 2 ^ 12 := by
        rw [haddr]
        simp only [pageSize]
        omega
      have hP : P (createVirtualAddress i j) s₂ := by
        rw [haddr]
        exact hs₂
      have htable : (s.ptable p).HasTable (createVirtualAddress i j) :=
        ⟨directory, table, hd, by rw [hidx, htab]⟩
      -- The body is called with the address of a page that has a table.
      obtain ⟨s₃, hs₃, hP⟩ := hbody ⟨p, createVirtualAddress i j, hmod, hlt⟩ s₂ rfl htable hP
      refine ⟨s₃, hs₃, ?_⟩
      rw [← hnext]
      exact hP

/-- One page more below the next address. -/
theorem below_succ {p : Nat} {inRange : Nat → Bool} {pg : Page} (hpg : InRange p inRange pg)
    (q : Page) : Below p inRange (pg.addr + pageSize) q ↔ Below p inRange pg.addr q ∨ q = pg := by
  have h1 := pg.aligned
  have h2 := q.aligned
  simp only [pageSize] at h1 h2
  constructor
  · rintro ⟨hq, hlt⟩
    by_cases ha : q.addr = pg.addr
    · exact Or.inr (Page.ext (hq.1.trans hpg.1.symm) ha)
    · refine Or.inl ⟨hq, ?_⟩
      simp only [pageSize] at hlt
      omega
  · rintro (⟨hq, hlt⟩ | rfl)
    · exact ⟨hq, Nat.lt_add_right _ hlt⟩
    · exact ⟨hpg, Nat.lt_add_of_pos_right (by decide)⟩

/-- The range up to here is the range up to there when all pages between are absent. -/
theorem Below.iff_of_le {p : Nat} {inRange : Nat → Bool} {φ : PageMap} {a b : Nat} (hle : a ≤ b)
    (habsent : ∀ q : Page, q.pid = p → a ≤ q.addr → q.addr < b → φ q = .absent) (q : Page)
    (hq : φ q ≠ .absent) : Below p inRange a q ↔ Below p inRange b q := by
  refine ⟨fun h => ⟨h.1, Nat.lt_of_lt_of_le h.2 hle⟩, fun h => ⟨h.1, ?_⟩⟩
  by_contra hge
  exact hq (habsent q h.1.1 (by omega) h.2)

/-- A page that is not in range adds nothing. -/
theorem below_skip {p : Nat} {inRange : Nat → Bool} {pg : Page}
    (hpg : inRange pg.addr = false) (q : Page) :
    Below p inRange pg.addr q ↔ Below p inRange (pg.addr + pageSize) q := by
  have h1 := pg.aligned
  have h2 := q.aligned
  simp only [pageSize] at h1 h2
  refine ⟨fun hq => ⟨hq.1, Nat.lt_add_right _ hq.2⟩, fun hq => ⟨hq.1, ?_⟩⟩
  have hne : q.addr ≠ pg.addr := by
    intro he
    have := hq.1.2
    rw [he, hpg] at this
    cases this
  have := hq.2
  simp only [pageSize] at this
  omega

/-! ### The active pages -/

/-- The loop over the active pages: the slots of the chosen items are freed. -/
theorem freeActivePages_spec {φ : PageMap} {s s₁ : Mm} {p : Nat} {inRange : Nat → Bool}
    (h : Inv φ s) (hf : Freed φ s p (InRange p inRange) s₁) (chosen : PageQueueItem → Bool)
    (hchosen : ∀ it, chosen it = decide (threadId p = it.tid ∧ inRange it.virtualAddress = true)) :
    ∃ bits, s₁.freeActivePages chosen = some { s₁ with
        swapBitfield := bits
        activePages := s₁.activePages.filter fun it => !chosen it } ∧
      SlotsOk (φ.drop fun pg => InRange p inRange pg ∧ ¬ (φ pg).InTransit) bits s.swappingPages ∧
      ∀ i, bitfieldGet bits i = true → bitfieldGet s.swapBitfield i = true ∧
        ∀ pg b, InRange p inRange pg → ¬ (φ pg).InTransit → (φ pg).slot? = some b →
          i ≠ b / pageSize := by
  -- The pages whose slot is free when the items `done` are.
  let E : List PageQueueItem → Page → Prop := fun done pg =>
    (InRange p inRange pg ∧ ∃ b, φ pg = .swapped b) ∨
      ∃ it ∈ done, ∃ f d, φ pg = .resident f d (.active it)
  have hactive : s₁.activePages = s.activePages := by rw [hf.rest]
  have hmem : ∀ it, it ∈ s₁.activePages.filter chosen → it ∈ s.activePages ∧
      ∃ pg f d, φ pg = .resident f d (.active it) ∧ InRange p inRange pg ∧ it.For pg ∧
        (it.swapOffset = -1 ∨ 0 ≤ it.swapOffset) := by
    intro it hit
    rw [List.mem_filter, hactive, hchosen, decide_eq_true_iff] at hit
    obtain ⟨pg, f, d, hpg⟩ := (h.queues.active_iff it).mp hit.1
    obtain ⟨hfor, -, hoff⟩ := h.queues.page pg it (by rw [hpg]; rfl)
    exact ⟨hit.1, pg, f, d, hpg, hfor.inRange_iff.mp hit.2, hfor, hoff⟩
  have hnodup : (s₁.activePages.filter chosen).Nodup := by
    refine List.Nodup.filter _ ?_
    rw [hactive]
    have hnd := h.queues.nodup
    rw [List.map_append] at hnd
    exact List.Nodup.of_map _ (List.nodup_append.mp hnd).1
  let P : List PageQueueItem → Mm → Prop := fun done s₂ =>
    s₂ = { s₁ with swapBitfield := s₂.swapBitfield } ∧
      SlotsOk (φ.drop (E done)) s₂.swapBitfield s.swappingPages ∧
      ∀ i, bitfieldGet s₂.swapBitfield i = true → bitfieldGet s.swapBitfield i = true ∧
        ∀ pg b, E done pg → (φ pg).slot? = some b → i ≠ b / pageSize
  have hstart : P [] s₁ := by
    refine ⟨rfl, ?_, ?_⟩
    · refine hf.slots.mono ?_
      rintro (pg | id) b hb
      · simp only [Holds] at hb ⊢
        by_cases hD : InRange p inRange pg ∧ ∃ c, φ pg = .swapped c
        · rw [PageMap.drop_of (Or.inl hD)] at hb
          cases hb
        · rw [PageMap.drop_of_not hD]
          rwa [PageMap.drop_of_not] at hb
          rintro (hD' | ⟨it, hit, -⟩)
          · exact hD hD'
          · cases hit
      · exact hb
    · intro i hi
      refine ⟨(hf.bits i hi).1, ?_⟩
      rintro pg b (⟨hin, c, hc⟩ | ⟨it, hit, -⟩) hb
      · rw [hc] at hb
        cases hb
        exact (hf.bits i hi).2 pg _ hin hc
      · cases hit
  have hstep : ∀ done it todo, [] ++ s₁.activePages.filter chosen = done ++ it :: todo →
      ∀ s₂, P done s₂ → ∃ s₃, (if it.swapOffset ≠ -1 then s₂.swapFree it.swapOffset
        else some s₂) = some s₃ ∧ P (done ++ [it]) s₃ := by
    intro done it todo heq s₂ hs₂
    rw [List.nil_append] at heq
    obtain ⟨hrest, hslots, hbits⟩ := hs₂
    obtain ⟨-, pg, f, d, hpg, hin, hfor, hoff⟩ := hmem it (by rw [heq]; simp)
    have hnew : it ∉ done := by
      rw [heq, List.nodup_append] at hnodup
      exact fun hd => hnodup.2.2 it hd it (by simp) rfl
    have hnotE : ¬ E done pg := by
      rintro (⟨-, c, hc⟩ | ⟨it', hit', f', d', hc⟩)
      · rw [hpg] at hc
        cases hc
      · rw [hpg] at hc
        cases hc
        exact hnew hit'
    have hE : ∀ q, E (done ++ [it]) q ↔ E done q ∨ q = pg := by
      intro q
      constructor
      · rintro (hs | ⟨it', hit', f', d', hq⟩)
        · exact Or.inl (Or.inl hs)
        · rcases List.mem_append.mp hit' with hit' | hit'
          · exact Or.inl (Or.inr ⟨it', hit', f', d', hq⟩)
          · rw [List.mem_singleton.mp hit'] at hq
            exact Or.inr ((h.queues.page q it (by rw [hq]; rfl)).1.unique hfor)
      · rintro ((hs | ⟨it', hit', f', d', hq⟩) | rfl)
        · exact Or.inl hs
        · exact Or.inr ⟨it', List.mem_append_left _ hit', f', d', hq⟩
        · exact Or.inr ⟨it, by simp, f, d, hpg⟩
    rcases hoff with hoff | hoff
    · refine ⟨s₂, by simp [hoff], hrest, ?_, ?_⟩
      · refine hslots.same (fun q b hb => ?_) (fun x hx hd => ⟨x, hx, rfl, hd, rfl⟩)
        rw [PageMap.drop_insert hE] at hb
        exact slot_update (fun c hc => by cases hc) q b hb
      · intro i hi
        refine ⟨(hbits i hi).1, fun q b hq hb => ?_⟩
        rcases (hE q).mp hq with hq | rfl
        · exact (hbits i hi).2 q b hq hb
        · rw [hpg, PageState.slot?_active, PageQueueItem.slot_eq_some] at hb
          omega
    · obtain ⟨b, hb⟩ := Int.eq_ofNat_of_zero_le hoff
      have hslot : (φ pg).slot? = some b := by
        rwa [hpg, PageState.slot?_active, PageQueueItem.slot_eq_some]
      have hholds : Holds (φ.drop (E done)) s.swappingPages (.page pg) b := by
        simp only [Holds]
        rwa [PageMap.drop_of_not hnotE]
      obtain ⟨h1, h2, h3⟩ := hslots.valid _ _ hholds
      have hne : it.swapOffset ≠ -1 := by omega
      refine ⟨{ s₂ with swapBitfield := bitfieldSet s₂.swapBitfield (b / pageSize) false }, ?_,
        ?_, ?_, ?_⟩
      · rw [if_pos hne, hb]
        exact s₂.swapFree_slot h1 h2 h3
      · conv_lhs => rw [hrest]
      · rw [PageMap.drop_insert hE]
        refine hslots.give h1 ?_
        rintro (q | id) c hc
        · by_cases hq : q = pg
          · simp only [Holds, hq, Function.update_self] at hc
            cases hc
          · simp only [Holds, Function.update_of_ne hq] at hc
            refine ⟨hc, ?_⟩
            rintro rfl
            exact hq (by simpa using hslots.unique (.page q) (.page pg) c hc hholds)
        · refine ⟨hc, ?_⟩
          rintro rfl
          cases hslots.unique (.doomed id) (.page pg) c hc hholds
      · intro i hi
        have hget : bitfieldGet (bitfieldSet s₂.swapBitfield (b / pageSize) false) i = true := hi
        rw [bitfieldGet_bitfieldSet] at hget
        by_cases hib : i = b / pageSize
        · rw [if_pos hib] at hget
          cases hget
        · rw [if_neg hib] at hget
          refine ⟨(hbits i hget).1, fun q c hq hc => ?_⟩
          rcases (hE q).mp hq with hq | rfl
          · exact (hbits i hget).2 q c hq hc
          · rw [hslot] at hc
            cases hc
            exact hib
  obtain ⟨s₂, hs₂, hrest, hslots, hbits⟩ := Lib.foldlM_list_induction
    (f := fun (s : Mm) (page : PageQueueItem) =>
      if page.swapOffset ≠ -1 then s.swapFree page.swapOffset else some s)
    P (s₁.activePages.filter chosen) [] hstep s₁ hstart
  refine ⟨s₂.swapBitfield, ?_, ?_, ?_⟩
  · simp only [Mm.freeActivePages, hs₂, Option.bind_eq_bind, Option.bind_some]
    rw [hrest]
  · refine hslots.mono ?_
    rintro (pg | id) b hb
    · simp only [Holds] at hb ⊢
      by_cases hD : InRange p inRange pg ∧ ¬ (φ pg).InTransit
      · rw [PageMap.drop_of hD] at hb
        cases hb
      · rw [PageMap.drop_of_not hD] at hb
        rw [PageMap.drop_of_not, hb]
        rintro (⟨hin, c, hc⟩ | ⟨it, hit, f, d, hc⟩)
        · refine hD ⟨hin, ?_⟩
          rintro ⟨f, d, it, hpg⟩
          rw [hc] at hpg
          rcases hpg with hpg | hpg
          · cases hpg
          · cases hpg
        · obtain ⟨-, pg', f', d', hpg', hin, hfor, -⟩ := hmem it hit
          obtain rfl := hfor.unique (h.queues.page pg it (by rw [hc]; rfl)).1
          refine hD ⟨hin, ?_⟩
          rintro ⟨f, d, it, hpg⟩
          rw [hc] at hpg
          rcases hpg with hpg | hpg
          · cases hpg
          · cases hpg
    · exact hb
  · intro i hi
    refine ⟨(hbits i hi).1, ?_⟩
    intro pg b hin htransit hb
    refine (hbits i hi).2 pg b ?_ hb
    cases hst : φ pg with
    | absent =>
        rw [hst] at hb
        cases hb
    | swapped c => exact Or.inl ⟨hin, c, hst⟩
    | resident f d hold =>
        cases hold with
        | pinned =>
            rw [hst] at hb
            cases hb
        | active it =>
            refine Or.inr ⟨it, ?_, f, d, hst⟩
            rw [List.nil_append, List.mem_filter, hactive, hchosen, decide_eq_true_iff]
            exact ⟨h.queues.active_of_hold hst,
              (h.queues.page pg it (by rw [hst]; rfl)).1.inRange_iff.mpr hin⟩
        | writing it => exact absurd ⟨f, d, it, Or.inl hst⟩ htransit
        | reading it => exact absurd ⟨f, d, it, Or.inr hst⟩ htransit

/-! ### The functions -/

/-- What `pager_free_all` and `pager_free_range` do: the pages in range are gone. -/
structure Released (φ : PageMap) (s : Mm) (p : Nat) (inRange : Nat → Bool) (s' : Mm) : Prop where
  rest : s' = { s with
    ptable := s'.ptable
    frames := s'.frames
    swapBitfield := s'.swapBitfield
    activePages := s.activePages.filter fun it =>
      !decide (threadId p = it.tid ∧ inRange it.virtualAddress = true)
    swappingPages := s.swappingPages.map (Mm.cancelItem (threadId p) inRange) }
  entry : ∃ P, s'.ptable = Function.update s.ptable p P ∧ (s.ptable p).Same P
  tables : TablesOk (φ.drop (InRange p inRange)) s'.ptable
  frames : FramesOk (φ.drop (InRange p inRange)) s'.frames
  slots : SlotsOk (φ.drop fun pg => InRange p inRange pg ∧ ¬ (φ pg).InTransit) s'.swapBitfield
    s.swappingPages
  bits : ∀ i, bitfieldGet s'.swapBitfield i = true → bitfieldGet s.swapBitfield i = true ∧
    ∀ pg b, InRange p inRange pg → ¬ (φ pg).InTransit → (φ pg).slot? = some b → i ≠ b / pageSize

/-- The loops after the walk. -/
private theorem released_of_freed {φ : PageMap} {s s₁ : Mm} {p : Nat} {inRange : Nat → Bool}
    (h : Inv φ s) (hf : Freed φ s p (InRange p inRange) s₁) (chosen : PageQueueItem → Bool)
    (hchosen : ∀ it, chosen it = decide (threadId p = it.tid ∧ inRange it.virtualAddress = true)) :
    ∃ s₂, s₁.freeActivePages chosen = some s₂ ∧
      Released φ s p inRange (s₂.cancelSwapping (threadId p) inRange) := by
  obtain ⟨bits, hs₂, hslots, hbits⟩ := freeActivePages_spec h hf chosen hchosen
  refine ⟨_, hs₂, ?_, hf.entry, hf.tables, hf.frames, hslots, hbits⟩
  have hfun : chosen = fun it =>
      decide (threadId p = it.tid ∧ inRange it.virtualAddress = true) := funext hchosen
  rw [hfun]
  conv_lhs => rw [hf.rest]
  rfl

/-- The walk of the two functions, for a body that does the pages in range. -/
private theorem freed_walk {φ : PageMap} {s : Mm} {p : Nat} (inRange : Nat → Bool)
    (h : Inv φ s) (hlive : s.Live p) (body : Mm → Nat → Option Mm)
    (hbody : ∀ (pg : Page) (s₁ : Mm), pg.pid = p → (s.ptable p).HasTable pg.addr →
      Freed φ s p (Below p inRange pg.addr) s₁ → ∃ s₂, body s₁ pg.addr = some s₂ ∧
        Freed φ s p (Below p inRange (pg.addr + pageSize)) s₂) :
    ∃ s', s.walkPageTable (threadId p) body = some s' ∧ Freed φ s p (InRange p inRange) s' := by
  obtain ⟨s', hs', hfreed⟩ := walkPageTable_spec h hlive body
    (fun a => Freed φ s p (Below p inRange a))
    (fun a b s₁ hle habsent hs₁ => hs₁.congr fun q hq => Below.iff_of_le hle habsent q hq)
    hbody (Freed.start h fun q hq => Nat.not_lt_zero _ hq.2)
  exact ⟨s', hs', hfreed.congr fun q _ => ⟨fun hq => hq.1, fun hq => ⟨hq, q.bounded⟩⟩⟩

/-- `pager_free_all` releases every page of the process. -/
theorem pagerFreeAll_spec {φ : PageMap} {s : Mm} {p : Nat} (h : Inv φ s) (hlive : s.Live p) :
    ∃ s', s.pagerFreeAll (threadId p) = some s' ∧ Released φ s p (fun _ => true) s' := by
  obtain ⟨s₁, hs₁, hfreed⟩ := freed_walk (fun _ => true) h hlive
    (fun s addr => do
      let s ← s.freeEntry (threadId p) addr
      some (s.updateProcess (threadId p) fun p =>
        { p with size := (p.size + 2 ^ 32 - 1) % 2 ^ 32 }))
    (by
      intro pg s₁ hpg htable hs₁
      have hin : InRange p (fun _ => true) pg := ⟨hpg, rfl⟩
      obtain ⟨s₂, hs₂, hfreed⟩ := hs₁.freeEntry h hlive hpg htable
        (fun hb => Nat.lt_irrefl _ hb.2) (below_succ hin)
      -- Besides its entry a page gives up its count.
      refine ⟨_, ?_, hfreed.size (((s₂.ptable p).size + 2 ^ 32 - 1) % 2 ^ 32)⟩
      simp only [hs₂, Option.bind_eq_bind, Option.bind_some, Mm.updateProcess, Mm.getProcess,
        tid2pid_threadId])
  -- Then the queues: the items of the process go, or are flagged.
  obtain ⟨s₂, hs₂, hrel⟩ := released_of_freed h hfreed (fun page => threadId p = page.tid)
    (fun it => by simp)
  refine ⟨_, ?_, hrel⟩
  simp only [Mm.pagerFreeAll, Option.bind_eq_bind] at hs₁ ⊢
  rw [hs₁, Option.bind_some, hs₂, Option.bind_some]

/-- `pager_free_range` releases the pages of its range. -/
theorem pagerFreeRange_spec {φ : PageMap} {s : Mm} {p : Nat} (h : Inv φ s) (hlive : s.Live p)
    (start stop : Nat) :
    ∃ s', s.pagerFreeRange (threadId p) start stop = some s' ∧
      Released φ s p (fun v => decide (v ≥ start ∧ v < stop)) s' := by
  obtain ⟨s₁, hs₁, hfreed⟩ := freed_walk (fun v => decide (v ≥ start ∧ v < stop)) h hlive
    (fun s addr => if decide (addr ≥ start ∧ addr < stop) = true then
      s.freeEntry (threadId p) addr else some s)
    (by
      intro pg s₁ hpg htable hs₁
      -- A page in the range is given up, and any other is passed over.
      by_cases hin : decide (pg.addr ≥ start ∧ pg.addr < stop) = true
      · obtain ⟨s₂, hs₂, hfreed⟩ := hs₁.freeEntry h hlive hpg htable
          (fun hb => Nat.lt_irrefl _ hb.2) (below_succ ⟨hpg, hin⟩)
        exact ⟨s₂, by rw [if_pos hin, hs₂], hfreed⟩
      · refine ⟨s₁, by rw [if_neg hin], hs₁.congr fun q _ => ?_⟩
        exact below_skip (Bool.eq_false_iff.mpr hin) q)
  -- Then the queues: the items in the range go, or are flagged.
  obtain ⟨s₂, hs₂, hrel⟩ := released_of_freed h hfreed
    (fun page => decide (threadId p = page.tid ∧
      decide (page.virtualAddress ≥ start ∧ page.virtualAddress < stop) = true)) (fun it => rfl)
  refine ⟨_, ?_, hrel⟩
  simp only [Mm.pagerFreeRange, Option.bind_eq_bind]
  rw [hs₁, Option.bind_some, hs₂, Option.bind_some]

end Sos
