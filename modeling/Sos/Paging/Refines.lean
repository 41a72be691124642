import Sos.Paging.PageMap

/-!
# `Sos.Paging.Refines`: the server implements a page map

`Inv φ s` says that the state `s` of the server implements the page map `φ`, one structure
for each part of the state:

- `TablesOk`: the page tables hold the words of `φ`, and only live processes have pages;
- `FramesOk`: the used frames are the frames of `φ`, and no two pages have the same one;
- `SlotsOk`: no two holders have the same swap slot, and the bit of a held slot is set;
- `QueuesOk`: the items in the queues are the items of `φ` and the flagged ones, and each
  item on its way to or from the swap file has exactly the requests it is waiting for;
- `RolesOk`: a thread that an item will wake up is blocked on a page fault, and no other
  item will wake it up.

Every structure takes the components of the state it is about, so that it carries over to a
state with the same components. The lemmas after each structure say how it follows a change
of one page.
-/

set_option autoImplicit false

namespace Sos

/-! ### Page tables -/

structure TablesOk (φ : PageMap) (ptable : Nat → Process) : Prop where
  word : ∀ pg, (ptable pg.pid).pte pg.addr = (φ pg).word
  live : ∀ pg, φ pg ≠ .absent → LiveIn ptable pg.pid
  index : ∀ p, LiveIn ptable p → (ptable p).pageIndex.isSome = true
  entry : ∀ p, 1 ≤ p → p < maxRunningProcess →
    ((ptable p).tid.threadNo = p <<< reservedIdBits ∧
      ((ptable p).isActive = true → (ptable p).tid.version = 1)) ∨
    ((ptable p).isActive = true ∧ (ptable p).tid = ⟨0, 1⟩)
  root : tid2pid (ptable 0).tid = 0 ∧ (ptable 0).isActive = true ∧
    (ptable 0).pageIndex.isSome = false

/-- A store to the page table entry of a page. -/
def setEntry (ptable : Nat → Process) (pg : Page) (word : Nat) : Nat → Process :=
  Function.update ptable pg.pid ((ptable pg.pid).setPte pg.addr word)

/-- Two process-table entries belong to the same thread. -/
structure Process.SameThread (p p' : Process) : Prop where
  isActive : p'.isActive = p.isActive
  tid : p'.tid = p.tid
  index : p'.pageIndex.isSome = p.pageIndex.isSome

/-- Two process-table entries differ at most in their pages. -/
structure Process.Same (p p' : Process) : Prop extends Process.SameThread p p' where
  waitFor : p'.waitFor = p.waitFor
  initialized : p'.initialized = p.initialized
  table : ∀ addr, p.HasTable addr → p'.HasTable addr

namespace Process.Same

/-- An entry is the same as itself. -/
theorem refl (p : Process) : p.Same p := ⟨⟨rfl, rfl, rfl⟩, rfl, rfl, fun _ h => h⟩

/-- Two entries that are the same as a third one are the same. -/
theorem trans {p q r : Process} (h : p.Same q) (h' : q.Same r) : p.Same r :=
  ⟨⟨h'.isActive.trans h.isActive, h'.tid.trans h.tid, h'.index.trans h.index⟩,
    h'.waitFor.trans h.waitFor, h'.initialized.trans h.initialized,
    fun a ht => h'.table a (h.table a ht)⟩

end Process.Same

/-- A store to a page table entry leaves the rest of the process's entry the same. -/
theorem Process.same_setPte (p : Process) (addr word : Nat) : p.Same (p.setPte addr word) := by
  unfold Process.setPte
  split
  · exact Same.refl p
  next directory hd =>
    split
    · exact Same.refl p
    next table ht =>
      refine ⟨⟨rfl, rfl, by rw [hd]; rfl⟩, rfl, rfl, ?_⟩
      rintro a ⟨directory', table', hd', ht'⟩
      obtain rfl : directory = directory' := Option.some.inj (hd.symm.trans hd')
      by_cases h1 : firstLevelIndex a = firstLevelIndex addr
      · exact ⟨_, _, rfl, by rw [h1, Function.update_self]⟩
      · exact ⟨_, table', rfl, by rw [Function.update_of_ne h1, ht']⟩

/-- Changing the memory of an entry changes no live process. -/
theorem liveIn_update {ptable : Nat → Process} {p : Nat} {P : Process}
    (h : (ptable p).SameThread P) (q : Nat) :
    LiveIn (Function.update ptable p P) q ↔ LiveIn ptable q := by
  by_cases hq : q = p
  · rw [LiveIn, LiveIn, hq, Function.update_self, h.isActive, h.tid]
  · rw [LiveIn, LiveIn, Function.update_of_ne hq]

namespace TablesOk

variable {φ φ' : PageMap} {ptable : Nat → Process}

/-- One process-table entry is replaced by one that belongs to the same thread; `φ'` follows
its page table. -/
theorem update (h : TablesOk φ ptable) {p : Nat} {P : Process} (hsame : (ptable p).SameThread P)
    (hother : ∀ pg : Page, pg.pid ≠ p → φ' pg = φ pg)
    (hword : ∀ pg : Page, pg.pid = p → P.pte pg.addr = (φ' pg).word)
    (hlive : ∀ pg : Page, pg.pid = p → φ' pg ≠ .absent → LiveIn ptable p) :
    TablesOk φ' (Function.update ptable p P) := by
  refine ⟨?_, ?_, ?_, ?_, ?_⟩
  -- Each field is about the process that has changed, or about another one.
  · intro pg
    by_cases hp : pg.pid = p
    · rw [hp, Function.update_self]
      exact hword pg hp
    · rw [Function.update_of_ne hp, hother pg hp]
      exact h.word pg
  -- A page that is there belongs to a live process.
  · intro pg hpg
    rw [liveIn_update hsame]
    by_cases hp : pg.pid = p
    · rw [hp]
      exact hlive pg hp hpg
    · rw [hother pg hp] at hpg
      exact h.live pg hpg
  · intro q hq
    rw [liveIn_update hsame] at hq
    by_cases hp : q = p
    · rw [hp, Function.update_self]
      exact hsame.index.trans (hp ▸ h.index q hq)
    · rw [Function.update_of_ne hp]
      exact h.index q hq
  -- The thread id and whether it is active are the same.
  · intro q h1 h2
    by_cases hp : q = p
    · rw [hp, Function.update_self, hsame.tid, hsame.isActive]
      exact h.entry p (hp ▸ h1) (hp ▸ h2)
    · rw [Function.update_of_ne hp]
      exact h.entry q h1 h2
  · by_cases hp : 0 = p
    · subst hp
      rw [Function.update_self, hsame.tid, hsame.isActive, hsame.index]
      exact h.root
    · rw [Function.update_of_ne hp]
      exact h.root

/-- A store to the page table entry of one page. -/
theorem setEntry (h : TablesOk φ ptable) {pg : Page} {st : PageState} {w : Nat}
    (hlive : LiveIn ptable pg.pid) (htable : (ptable pg.pid).HasTable pg.addr)
    (hw : st.word = w) : TablesOk (Function.update φ pg st) (setEntry ptable pg w) := by
  refine h.update (Process.same_setPte _ _ _).toSameThread ?_ ?_ (fun _ _ _ => hlive)
  · intro pg' hp
    exact Function.update_of_ne (fun he => hp (congrArg Page.pid he)) _ _
  · intro pg' hp
    rw [Process.pte_setPte pg.aligned pg.bounded pg'.aligned pg'.bounded htable]
    by_cases ha : pg'.addr = pg.addr
    · have he : pg' = pg := Page.ext hp ha
      rw [if_pos ha, he, Function.update_self, hw]
    · have hne : pg' ≠ pg := fun he => ha (congrArg Page.addr he)
      rw [if_neg ha, Function.update_of_ne hne, ← h.word pg', hp]

/-- The state of a page changes, but not its entry. -/
theorem congr (h : TablesOk φ ptable) {pg : Page} {st : PageState}
    (hne : φ pg ≠ .absent) (hw : st.word = (φ pg).word) :
    TablesOk (Function.update φ pg st) ptable := by
  refine ⟨?_, ?_, h.index, h.entry, h.root⟩
  · intro pg'
    by_cases he : pg' = pg
    · rw [he, Function.update_self, hw]
      exact h.word pg
    · rw [Function.update_of_ne he]
      exact h.word pg'
  · intro pg' hpg
    by_cases he : pg' = pg
    · rw [he]
      exact h.live pg hne
    · rw [Function.update_of_ne he] at hpg
      exact h.live pg' hpg

end TablesOk

/-! ### Frames -/

structure FramesOk (φ : PageMap) (frames : FrameTable) : Prop where
  wf : frames.Wf
  used : ∀ f, frames.Used f ↔ ∃ pg, (φ pg).frame? = some f
  unique : ∀ pg pg' f, (φ pg).frame? = some f → (φ pg').frame? = some f → pg = pg'

namespace FramesOk

variable {φ φ' : PageMap} {frames frames' : FrameTable}

/-- Only the frames of the pages matter. -/
theorem congr (h : FramesOk φ frames) (hframe : ∀ pg, (φ' pg).frame? = (φ pg).frame?) :
    FramesOk φ' frames := by
  refine ⟨h.wf, ?_, ?_⟩
  · intro f
    simp only [hframe]
    exact h.used f
  · intro pg pg' f
    rw [hframe, hframe]
    exact h.unique pg pg' f

/-- A page without a frame gets one that was not used. -/
theorem take (h : FramesOk φ frames) {pg : Page} {st : PageState} {f : Nat}
    (hwf : frames'.Wf) (hnew : ¬ frames.Used f)
    (hused : ∀ g, frames'.Used g ↔ frames.Used g ∨ g = f) (hpg : (φ pg).frame? = none)
    (hst : st.frame? = some f) : FramesOk (Function.update φ pg st) frames' := by
  -- No page has the new frame yet.
  have hfree : ∀ pg', (φ pg').frame? ≠ some f := fun pg' he => hnew ((h.used f).mpr ⟨pg', he⟩)
  refine ⟨hwf, ?_, ?_⟩
  · intro g
    rw [hused, h.used]
    constructor
    · rintro (⟨pg', hg⟩ | rfl)
      · have hne : pg' ≠ pg := by
          rintro rfl
          rw [hpg] at hg
          cases hg
        exact ⟨pg', by rwa [Function.update_of_ne hne]⟩
      · exact ⟨pg, by rwa [Function.update_self]⟩
    · rintro ⟨pg', hg⟩
      by_cases hne : pg' = pg
      · rw [hne, Function.update_self, hst] at hg
        exact Or.inr (Option.some.inj hg).symm
      · rw [Function.update_of_ne hne] at hg
        exact Or.inl ⟨pg', hg⟩
  · intro pg₁ pg₂ g h₁ h₂
    by_cases e₁ : pg₁ = pg <;> by_cases e₂ : pg₂ = pg
    · rw [e₁, e₂]
    · rw [e₁, Function.update_self, hst] at h₁
      rw [Function.update_of_ne e₂] at h₂
      exact absurd (h₂.trans h₁.symm) (hfree pg₂)
    · rw [e₂, Function.update_self, hst] at h₂
      rw [Function.update_of_ne e₁] at h₁
      exact absurd (h₁.trans h₂.symm) (hfree pg₁)
    · rw [Function.update_of_ne e₁] at h₁
      rw [Function.update_of_ne e₂] at h₂
      exact h.unique _ _ _ h₁ h₂

/-- `frame_alloc` for a page without a frame. -/
theorem alloc (h : FramesOk φ frames) {pg : Page} {st : PageState} {f : Nat}
    (halloc : frames.frameAlloc = some (frames', f)) (hf : f ≠ 0)
    (hpg : (φ pg).frame? = none) (hst : st.frame? = some f) :
    FramesOk (Function.update φ pg st) frames' := by
  cases hs : frames.stack with
  | nil =>
      rw [FrameTable.Wf.frameAlloc_nil hs] at halloc
      cases halloc
      exact absurd rfl hf
  | cons g rest =>
      obtain ⟨frames₁, hg, hwf, -, -, -, hnew, hused⟩ := h.wf.frameAlloc_spec hs
      rw [hg] at halloc
      cases halloc
      exact h.take hwf hnew hused hpg hst

/-- A page gives its frame back. -/
theorem give (h : FramesOk φ frames) {pg : Page} {st : PageState} {f : Nat}
    (hwf : frames'.Wf) (hused : ∀ g, frames'.Used g ↔ frames.Used g ∧ g ≠ f)
    (hpg : (φ pg).frame? = some f) (hst : st.frame? = none) :
    FramesOk (Function.update φ pg st) frames' := by
  refine ⟨hwf, ?_, ?_⟩
  · intro g
    rw [hused, h.used]
    constructor
    · rintro ⟨⟨pg', hg⟩, hgf⟩
      have hne : pg' ≠ pg := by
        rintro rfl
        exact hgf (Option.some.inj (hg.symm.trans hpg))
      exact ⟨pg', by rwa [Function.update_of_ne hne]⟩
    · rintro ⟨pg', hg⟩
      by_cases hne : pg' = pg
      · rw [hne, Function.update_self, hst] at hg
        cases hg
      · rw [Function.update_of_ne hne] at hg
        refine ⟨⟨pg', hg⟩, ?_⟩
        rintro rfl
        exact hne (h.unique _ _ _ hg hpg)
  -- The page itself has no frame any more.
  · intro pg₁ pg₂ g h₁ h₂
    by_cases e₁ : pg₁ = pg
    · rw [e₁, Function.update_self, hst] at h₁
      cases h₁
    · by_cases e₂ : pg₂ = pg
      · rw [e₂, Function.update_self, hst] at h₂
        cases h₂
      · rw [Function.update_of_ne e₁] at h₁
        rw [Function.update_of_ne e₂] at h₂
        exact h.unique _ _ _ h₁ h₂

/-- The frame of a page is a frame of the managed range. -/
theorem valid (h : FramesOk φ frames) {pg : Page} {f : Nat} (hf : (φ pg).frame? = some f) :
    frames.Valid f :=
  ((h.used f).mpr ⟨pg, hf⟩).1

end FramesOk

/-! ### Swap slots -/

/-- What can hold a swap slot: a page, or an item whose page is gone. -/
inductive Holder
  | page (pg : Page)
  | doomed (id : Nat)

def Holds (φ : PageMap) (swapping : List PageQueueItem) : Holder → Nat → Prop
  | .page pg, b => (φ pg).slot? = some b
  | .doomed id, b => ∃ it ∈ swapping, it.id = id ∧ it.processDeleted = true ∧ it.swapOffset = b

structure SlotsOk (φ : PageMap) (bitfield : Bitfield) (swapping : List PageQueueItem) : Prop where
  unique : ∀ x y b, Holds φ swapping x b → Holds φ swapping y b → x = y
  valid : ∀ x b, Holds φ swapping x b → b % pageSize = 0 ∧ b < maxSwapEntries * pageSize ∧
    bitfieldGet bitfield (b / pageSize) = true

namespace SlotsOk

variable {φ φ' : PageMap} {bitfield : Bitfield} {swapping swapping' : List PageQueueItem}

/-- A holder may lose its slot. -/
theorem mono (h : SlotsOk φ bitfield swapping)
    (hholds : ∀ x b, Holds φ' swapping' x b → Holds φ swapping x b) :
    SlotsOk φ' bitfield swapping' :=
  ⟨fun x y b hx hy => h.unique x y b (hholds x b hx) (hholds y b hy),
    fun x b hx => h.valid x b (hholds x b hx)⟩

/-- A holder gets a free slot. -/
theorem take (h : SlotsOk φ bitfield swapping) {x : Holder} {i : Nat} (hi : i < maxSwapEntries)
    (hfree : bitfieldGet bitfield i = false)
    (hholds : ∀ y b, Holds φ' swapping' y b →
      Holds φ swapping y b ∨ (y = x ∧ b = i * pageSize)) :
    SlotsOk φ' (bitfieldSet bitfield i true) swapping' := by
  -- A free slot has no holder.
  have hother : ∀ y, ¬ Holds φ swapping y (i * pageSize) := by
    intro y hy
    have := (h.valid _ _ hy).2.2
    rw [Nat.mul_div_cancel i (by decide), hfree] at this
    cases this
  refine ⟨?_, ?_⟩
  -- Two holders of one slot are holders of before, or both the new one.
  · intro y z b hy hz
    rcases hholds y b hy with hy | ⟨rfl, rfl⟩
    · rcases hholds z b hz with hz | ⟨rfl, rfl⟩
      · exact h.unique y z b hy hz
      · exact absurd hy (hother y)
    · rcases hholds z _ hz with hz | ⟨rfl, -⟩
      · exact absurd hz (hother z)
      · rfl
  -- The slot of a holder is taken: since before, or since now.
  · intro y b hy
    rw [bitfieldGet_bitfieldSet]
    rcases hholds y b hy with hy | ⟨rfl, rfl⟩
    · obtain ⟨h1, h2, h3⟩ := h.valid y b hy
      exact ⟨h1, h2, by simp [h3]⟩
    · refine ⟨Nat.mul_mod_left _ _, ?_, ?_⟩
      · exact Nat.mul_lt_mul_of_pos_right hi (by decide)
      · rw [Nat.mul_div_cancel i (by decide), if_pos rfl]

/-- A slot is freed that no holder keeps. -/
theorem give (h : SlotsOk φ bitfield swapping) {c : Nat} (hc : c % pageSize = 0)
    (hholds : ∀ x b, Holds φ' swapping' x b → Holds φ swapping x b ∧ b ≠ c) :
    SlotsOk φ' (bitfieldSet bitfield (c / pageSize) false) swapping' := by
  refine ⟨fun x y b hx hy => h.unique x y b (hholds x b hx).1 (hholds y b hy).1, ?_⟩
  intro x b hx
  obtain ⟨hb, hne⟩ := hholds x b hx
  obtain ⟨h1, h2, h3⟩ := h.valid x b hb
  refine ⟨h1, h2, ?_⟩
  have hdiv : b / pageSize ≠ c / pageSize := by
    simp only [pageSize] at *
    omega
  rw [bitfieldGet_bitfieldSet, if_neg hdiv, h3]

/-- The slots of the pages and the flagged items stay. -/
theorem same (h : SlotsOk φ bitfield swapping)
    (hpage : ∀ pg b, (φ' pg).slot? = some b → (φ pg).slot? = some b)
    (hdoomed : ∀ it' ∈ swapping', it'.processDeleted = true → ∃ it ∈ swapping, it.id = it'.id ∧
      it.processDeleted = true ∧ it.swapOffset = it'.swapOffset) :
    SlotsOk φ' bitfield swapping' := by
  refine h.mono ?_
  rintro (pg | id) b hx
  · exact hpage pg b hx
  · obtain ⟨it', hm', hid', hd', hb'⟩ := hx
    obtain ⟨it, hm, hid, hd, hb⟩ := hdoomed it' hm' hd'
    exact ⟨it, hm, hid.trans hid', hd, hb.trans hb'⟩

end SlotsOk

/-- A page that keeps its frame leaves the frames of all pages as they are. -/
theorem frame_update {φ : PageMap} {pg : Page} {st : PageState} (h : st.frame? = (φ pg).frame?)
    (pg' : Page) : (Function.update φ pg st pg').frame? = (φ pg').frame? := by
  by_cases he : pg' = pg
  · rw [he, Function.update_self, h]
  · rw [Function.update_of_ne he]

/-- A page that gets no slot leaves no page with a new one. -/
theorem slot_update {φ : PageMap} {pg : Page} {st : PageState}
    (h : ∀ b, st.slot? = some b → (φ pg).slot? = some b) (pg' : Page) (b : Nat)
    (hb : (Function.update φ pg st pg').slot? = some b) : (φ pg').slot? = some b := by
  by_cases he : pg' = pg
  · rw [he, Function.update_self] at hb
    rw [he]
    exact h b hb
  · rwa [Function.update_of_ne he] at hb

/-! ### Queues and requests -/

/-- The requests that carry an item's address. -/
def pending (requests : List SwapRequest) (id : Nat) : List SwapRequest :=
  requests.filter fun r => r.token = id

/-- An item on its way to the swap file waits for one answer for each batch that is left. -/
structure Writing (it : PageQueueItem) (requests : List SwapRequest) : Prop where
  some : pending requests it.id ≠ []
  count : it.toSwap = batchSize * (pending requests it.id).length
  write : ∀ r ∈ pending requests it.id, ∃ i data, i < pageSize / batchSize ∧
    r = .write it.id (it.swapOffset + (i * batchSize : Nat)) data

/-- An item on its way back waits for the answer to one read, of the batch it is at. -/
structure Reading (it : PageQueueItem) (requests : List SwapRequest) : Prop where
  read : pending requests it.id = [.read it.id (it.swapOffset + it.toSwap) batchSize]
  batch : ∃ i : Nat, it.toSwap = batchSize * i ∧ i < pageSize / batchSize

structure QueuesOk (φ : PageMap) (active swapping : List PageQueueItem)
    (requests : List SwapRequest) (nextItem : Nat) : Prop where
  nodup : ((active ++ swapping).map (·.id)).Nodup
  fresh : ∀ it ∈ active ++ swapping, it.id < nextItem
  page : ∀ pg it, (φ pg).item? = some it →
    it.For pg ∧ it.processDeleted = false ∧ (it.swapOffset = -1 ∨ 0 ≤ it.swapOffset)
  active_iff : ∀ it, it ∈ active ↔ ∃ pg f d, φ pg = .resident f d (.active it)
  swapping_iff : ∀ it, it.processDeleted = false → (it ∈ swapping ↔
    ∃ pg f d, φ pg = .resident f d (.writing it) ∨ φ pg = .resident f d (.reading it))
  writing : ∀ pg f d it, φ pg = .resident f d (.writing it) → d = true ∧ Writing it requests
  reading : ∀ pg f d it, φ pg = .resident f d (.reading it) → d = false ∧ Reading it requests
  doomed : ∀ it ∈ swapping, it.processDeleted = true → Writing it requests ∨ Reading it requests
  slot : ∀ it ∈ swapping, 0 ≤ it.swapOffset
  owner : ∀ r ∈ requests, ∃ it ∈ swapping, it.id = r.token

/-! ### Blocked threads -/

/-- The item `id` will wake up thread `t`: as its owner after a swap-in, or as the thread
that ran out of frames after a swap-out. -/
def Serves (swapping : List PageQueueItem) (requests : List SwapRequest) (t : ThreadId)
    (id : Nat) : Prop :=
  ∃ it ∈ swapping, it.id = id ∧
    ((it.processDeleted = false ∧ it.tid = t ∧ ∃ r ∈ requests, r.token = id ∧ r.isWrite = false) ∨
     (it.initiator = t ∧ ∃ r ∈ requests, r.token = id ∧ r.isWrite = true))

structure RolesOk (ptable : Nat → Process) (swapping : List PageQueueItem)
    (requests : List SwapRequest) (wait : ThreadId → Wait) : Prop where
  waits : ∀ t id, t ≠ nilthread → Serves swapping requests t id →
    ∃ p, LiveIn ptable p ∧ t = threadId p ∧ wait t = .fault
  unique : ∀ t id id', t ≠ nilthread → Serves swapping requests t id →
    Serves swapping requests t id' → id = id'
  call : ∀ p, p < maxRunningProcess → (ptable p).isActive = true →
    (ptable p).waitFor ≠ nilthread → LiveIn ptable p ∧ wait (threadId p) = .call

/-! ### The whole invariant -/

structure Inv (φ : PageMap) (s : Mm) : Prop where
  tables : TablesOk φ s.ptable
  frames : FramesOk φ s.frames
  slots : SlotsOk φ s.swapBitfield s.swappingPages
  queues : QueuesOk φ s.activePages s.swappingPages s.requests s.nextItem
  roles : RolesOk s.ptable s.swappingPages s.requests s.wait

namespace Inv

variable {φ : PageMap} {s : Mm}

/-- The numbers in the page map are well formed. -/
theorem ok (h : Inv φ s) (pg : Page) : (φ pg).Ok := by
  refine ⟨?_, ?_⟩
  · intro f hf
    have hv := h.frames.valid hf
    exact ⟨hv.2.2, h.frames.wf.pos_of_valid hv, Nat.lt_of_lt_of_le hv.2.1 h.frames.wf.stop_le⟩
  · intro b hb
    obtain ⟨h1, h2, -⟩ := h.slots.valid (.page pg) b hb
    exact ⟨h1, h2⟩

/-- A page that is not absent has a second level table. -/
theorem hasTable (h : Inv φ s) {pg : Page} (hpg : φ pg ≠ .absent) :
    (s.ptable pg.pid).HasTable pg.addr := by
  apply Process.hasTable_of_pte
  rw [h.tables.word]
  intro h0
  exact hpg ((PageState.word_eq_zero (h.ok pg)).mp h0)

end Inv

end Sos
