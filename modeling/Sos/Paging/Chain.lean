import Sos.Paging.Moves
import Sos.Paging.Processes

/-!
# `Sos.Paging.Chain`: actions as chains of moves

`Move φ s ℓ φ' s'` is one atomic move of the server together with what it does to the page
map. The label says what a move does that a property may depend on: which page it maps,
which byte it stores, which answer of the NFS server it handles, which process comes or
goes. `Move.inv` collects the theorems of `Moves` and `Processes`: every move keeps the
invariant.

A `Chain P` is a sequence of moves in which each label, in its state, satisfies `P`.
`Chain.induction` is the rule for the properties of whole runs: what every allowed move
keeps, a chain of allowed moves keeps.
-/

set_option autoImplicit false

namespace Sos

/-- What an answer of the NFS server does to the item it is for. -/
inductive Answer
  | more
  | evicted
  | restored
  | arrived
  | discarded
deriving DecidableEq

inductive Label
  | quiet
  | fault (p : Nat)
  | map (pg : Page) (rights : Nat)
  | mapPhys (p virtualAddress : Nat)
  | store (p addr : Nat) (byte : UInt8)
  | answer (it : PageQueueItem) (kind : Answer)
  | lose
  | noPage
  | release (p start stop : Nat)
  | delete (p : Nat)
  | register (p : Nat)
  | start (p : Nat)

/-- The addresses from `start` to `stop`. -/
def between (start stop : Nat) : Nat → Bool := fun v => decide (v ≥ start ∧ v < stop)

/-- The page is in memory. -/
def PageState.Resident (st : PageState) : Prop := ∃ f d hold, st = .resident f d hold

def outOfSwapMessage : String := "Out of memory and swap space :-("

def outOfFramesMessage : String := "Out of frames. Too few frames, too many processes?"

inductive Move (φ : PageMap) (s : Mm) : Label → PageMap → Mm → Prop
  /-- Hardware mappings are removed. -/
  | unmap {hw : ThreadId → Nat → Option HwMapping}
      (hhw : ∀ t v, hw t v = none ∨ hw t v = s.hw t v) :
      Move φ s .quiet φ { s with hw := hw }
  | requeue {l : List PageQueueItem} (hl : l.Perm s.activePages) :
      Move φ s .quiet φ { s with activePages := l }
  | evict {it : PageQueueItem} {rest : List PageQueueItem} {pg : Page} {f b : Nat}
      {frames : FrameTable} (hq : s.activePages = it :: rest)
      (hpg : φ pg = .resident f false (.active it)) (hslot : it.swapOffset = (b : Int))
      (hhw : s.hw pg.tid pg.addr = none) (hfree : s.frames.frameFree f = some frames) :
      Move φ s .quiet (Function.update φ pg (.swapped b))
        { s with
          activePages := rest
          frames := frames
          ptable := setEntry s.ptable pg (b + 1) }
  | writeOut {it it' : PageQueueItem} {rest : List PageQueueItem} {pg : Page} {f b q : Nat}
      {bits : Bitfield} (hq : s.activePages = it :: rest)
      (hpg : φ pg = .resident f true (.active it))
      (hslot : (it.swapOffset = (b : Int) ∧ bits = s.swapBitfield) ∨
        (it.swapOffset = -1 ∧ ∃ i, b = i * pageSize ∧ i < maxSwapEntries ∧
          bitfieldGet s.swapBitfield i = false ∧ bits = bitfieldSet s.swapBitfield i true))
      (hlive : s.Live q) (hwait : s.wait (threadId q) = .fault)
      (hnone : ∀ id, ¬ Serves s.swappingPages s.requests (threadId q) id)
      (hit : it' = { it with swapOffset := b, toSwap := pageSize, initiator := threadId q }) :
      Move φ s .quiet (Function.update φ pg (.resident f true (.writing it')))
        { s with
          activePages := rest
          swappingPages := s.swappingPages ++ [it']
          requests := s.requests ++ Mm.writeRequests it' fun k => s.phys (f + k)
          swapBitfield := bits }
  | lose {it : PageQueueItem} {rest : List PageQueueItem} {pg : Page} {f : Nat} {d : Bool}
      (hq : s.activePages = it :: rest) (hpg : φ pg = .resident f d (.active it))
      (hslot : it.swapOffset < 0) :
      Move φ s .lose (Function.update φ pg (.resident f d .pinned))
        { s with activePages := rest, outbox := s.outbox ++ [.kdbEnter outOfSwapMessage] }
  | noPage : Move φ s .noPage φ (s.kdbEnter outOfFramesMessage)
  /-- A process-table entry changes in a field that says nothing about memory, or gets a new
  second level table. -/
  | entry {p : Nat} {P : Process} (hsame : (s.ptable p).Same P)
      (hpte : ∀ pg : Page, pg.pid = p → P.pte pg.addr = (s.ptable p).pte pg.addr) :
      Move φ s .quiet φ { s with ptable := Function.update s.ptable p P }
  | touch {pg : Page} {f : Nat} {frames : FrameTable} {it : PageQueueItem}
      (hv : virtualStart ≤ pg.addr) (hlive : s.Live pg.pid)
      (htable : (s.ptable pg.pid).HasTable pg.addr) (hpg : φ pg = .absent)
      (halloc : s.frames.frameAlloc = some (frames, f)) (hf : f ≠ 0)
      (hid : it.id = s.nextItem) (hfor : it.For pg) (hdel : it.processDeleted = false)
      (hoff : it.swapOffset = -1) :
      Move φ s .quiet (Function.update φ pg (.resident f true (.active it)))
        { s with
          frames := frames
          phys := memset s.phys f 0 pageSize
          ptable := setEntry s.ptable pg (f + 2)
          activePages := s.activePages ++ [it]
          nextItem := s.nextItem + 1 }
  | touchPinned {pg : Page} {f : Nat} {frames : FrameTable} (hv : virtualStart ≤ pg.addr)
      (hlive : s.Live pg.pid)
      (htable : (s.ptable pg.pid).HasTable pg.addr) (hpg : φ pg = .absent)
      (hipc : pg.addr = ipcMemoryStart) (halloc : s.frames.frameAlloc = some (frames, f))
      (hf : f ≠ 0) :
      Move φ s .quiet (Function.update φ pg (.resident f false .pinned))
        { s with
          frames := frames
          phys := memset s.phys f 0 pageSize
          ptable := setEntry s.ptable pg f }
  | readIn {pg : Page} {f b : Nat} {frames : FrameTable} {it : PageQueueItem}
      (hpg : φ pg = .swapped b) (halloc : s.frames.frameAlloc = some (frames, f)) (hf : f ≠ 0)
      (hid : it.id = s.nextItem) (hfor : it.For pg) (hdel : it.processDeleted = false)
      (hoff : it.swapOffset = (b : Int)) (hto : it.toSwap = 0) (hwait : s.wait pg.tid = .fault)
      (hnone : ∀ id, ¬ Serves s.swappingPages s.requests pg.tid id) :
      Move φ s .quiet (Function.update φ pg (.resident f false (.reading it)))
        { s with
          frames := frames
          phys := memset s.phys f 0 pageSize
          ptable := setEntry s.ptable pg f
          swappingPages := s.swappingPages ++ [it]
          requests := s.requests ++ [.read it.id (it.swapOffset + it.toSwap) batchSize]
          nextItem := s.nextItem + 1 }
  | dirty {pg : Page} {f : Nat} {d : Bool} {hold : Hold} (hpg : φ pg = .resident f d hold)
      (hnot : ∀ it, hold ≠ .reading it) :
      Move φ s .quiet (Function.update φ pg (.resident f true hold))
        { s with ptable := setEntry s.ptable pg (f + 2) }
  | map {pg : Page} {f : Nat} {d : Bool} {hold : Hold} {rights : Nat}
      (hpg : φ pg = .resident f d hold) (hnot : ∀ it, hold ≠ .reading it) (hr : rights ≠ 0)
      (hwritable : rights &&& writable ≠ 0 → d = true) :
      Move φ s (.map pg rights) φ
        { s with
          hw := fun t v =>
            if t = pg.tid ∧ v = pg.addr then some ⟨f, rights⟩ else s.hw t v }
  | mapPhys {p v : Nat} (hv : v < virtualStart) :
      Move φ s (.mapPhys p v) φ
        { s with
          hw := fun t w =>
            if t = threadId p ∧ w = v then some ⟨v, fullyAccessible⟩ else s.hw t w }
  | store {p addr : Nat} {m : HwMapping} {byte : UInt8} (hlive : s.Live p)
      (hhw : s.hw (threadId p) (pageAlign addr) = some m) (hm : m.rights &&& writable ≠ 0) :
      Move φ s (.store p addr byte) φ
        { s with phys := Function.update s.phys (m.frame + addr % pageSize) byte }
  | ack {l₁ l₂ : List SwapRequest} {it it' : PageQueueItem} {pg : Page} {f : Nat} {offset : Int}
      {data : Nat → UInt8} (hreq : s.requests = l₁ ++ .write it.id offset data :: l₂)
      (hpg : φ pg = .resident f true (.writing it)) (hmore : it.toSwap - batchSize ≠ 0)
      (hit : it' = { it with toSwap := it.toSwap - batchSize }) :
      Move φ s (.answer it .more) (Function.update φ pg (.resident f true (.writing it')))
        { s with
          requests := l₁ ++ l₂
          swapFile := Mm.writeFile s.swapFile offset data
          swappingPages := replaceItem s.swappingPages it' }
  | ackDoomed {l₁ l₂ : List SwapRequest} {it it' : PageQueueItem} {offset : Int}
      {data : Nat → UInt8} (hreq : s.requests = l₁ ++ .write it.id offset data :: l₂)
      (hm : it ∈ s.swappingPages) (hdel : it.processDeleted = true)
      (hwriting : Writing it s.requests) (hmore : it.toSwap - batchSize ≠ 0)
      (hit : it' = { it with toSwap := it.toSwap - batchSize }) :
      Move φ s (.answer it .more) φ
        { s with
          requests := l₁ ++ l₂
          swapFile := Mm.writeFile s.swapFile offset data
          swappingPages := replaceItem s.swappingPages it' }
  | evicted {l₁ l₂ : List SwapRequest} {it : PageQueueItem} {pg : Page} {f b : Nat} {offset : Int}
      {data : Nat → UInt8} {frames : FrameTable}
      (hreq : s.requests = l₁ ++ .write it.id offset data :: l₂)
      (hpg : φ pg = .resident f true (.writing it)) (hlast : it.toSwap - batchSize = 0)
      (hoff : it.swapOffset = (b : Int)) (hhw : s.hw pg.tid pg.addr = none)
      (hfree : s.frames.frameFree f = some frames) :
      Move φ s (.answer it .evicted) (Function.update φ pg (.swapped b))
        (Mm.wake
          { s with
            requests := l₁ ++ l₂
            swapFile := Mm.writeFile s.swapFile offset data
            frames := frames
            ptable := setEntry s.ptable pg (b + 1)
            swappingPages := removeItem s.swappingPages it.id } it.initiator)
  | restored {l₁ l₂ : List SwapRequest} {it it' : PageQueueItem} {pg : Page} {f : Nat}
      {offset : Int} {data : Nat → UInt8}
      (hreq : s.requests = l₁ ++ .write it.id offset data :: l₂)
      (hpg : φ pg = .resident f true (.writing it)) (hlast : it.toSwap - batchSize = 0)
      (hit : it' = { it with toSwap := it.toSwap - batchSize, initiator := nilthread }) :
      Move φ s (.answer it .restored) (Function.update φ pg (.resident f true (.active it')))
        (Mm.wake
          { s with
            requests := l₁ ++ l₂
            swapFile := Mm.writeFile s.swapFile offset data
            swappingPages := removeItem s.swappingPages it.id
            activePages := s.activePages ++ [it'] } it.initiator)
  | arrive {l₁ l₂ : List SwapRequest} {it it' : PageQueueItem} {pg : Page} {f : Nat}
      (hreq : s.requests = l₁ ++ .read it.id (it.swapOffset + it.toSwap) batchSize :: l₂)
      (hpg : φ pg = .resident f false (.reading it)) (hmore : it.toSwap + batchSize ≠ pageSize)
      (hit : it' = { it with toSwap := it.toSwap + batchSize }) :
      Move φ s (.answer it .more) (Function.update φ pg (.resident f false (.reading it')))
        { s with
          requests := l₁ ++ l₂ ++ [.read it'.id (it'.swapOffset + it'.toSwap) batchSize]
          phys := memcpy s.phys (f + it.toSwap.toNat)
            (fun i => s.swapFile (it.swapOffset + it.toSwap + i)) batchSize
          swappingPages := replaceItem s.swappingPages it' }
  | arrived {l₁ l₂ : List SwapRequest} {it it' : PageQueueItem} {pg : Page} {f : Nat}
      (hreq : s.requests = l₁ ++ .read it.id (it.swapOffset + it.toSwap) batchSize :: l₂)
      (hpg : φ pg = .resident f false (.reading it)) (hlast : it.toSwap + batchSize = pageSize)
      (hit : it' = { it with toSwap := it.toSwap + batchSize }) :
      Move φ s (.answer it .arrived) (Function.update φ pg (.resident f false (.active it')))
        (Mm.wake
          { s with
            requests := l₁ ++ l₂
            phys := memcpy s.phys (f + it.toSwap.toNat)
              (fun i => s.swapFile (it.swapOffset + it.toSwap + i)) batchSize
            swappingPages := removeItem s.swappingPages it.id
            activePages := s.activePages ++ [it'] } it.tid)
  /-- The last write of an item whose page is gone is acknowledged. The initiator is woken up
  only when the address of the page is mapped. -/
  | discardWrite {l₁ l₂ : List SwapRequest} {it : PageQueueItem} {offset : Int}
      {data : Nat → UInt8} (hreq : s.requests = l₁ ++ .write it.id offset data :: l₂)
      (hm : it ∈ s.swappingPages) (hdel : it.processDeleted = true)
      (hwriting : Writing it s.requests) (hlast : it.toSwap - batchSize = 0) :
      Move φ s (.answer it .discarded) φ
        (Mm.wake
          { s with
            requests := l₁ ++ l₂
            swapFile := Mm.writeFile s.swapFile offset data
            swappingPages := removeItem s.swappingPages it.id }
          (if s.isReferenced it then it.initiator else nilthread))
  | discardRead {l₁ l₂ : List SwapRequest} {it : PageQueueItem} {offset : Int} {count : Nat}
      (hreq : s.requests = l₁ ++ .read it.id offset count :: l₂) (hm : it ∈ s.swappingPages)
      (hdel : it.processDeleted = true) (hreading : Reading it s.requests) :
      Move φ s (.answer it .discarded) φ
        (Mm.wake
          { s with
            requests := l₁ ++ l₂
            swappingPages := removeItem s.swappingPages it.id } nilthread)
  | release {p start stop : Nat} {s' : Mm} (hlive : s.Live p)
      (hwait : s.wait (threadId p) ≠ .fault)
      (hhw : ∀ pg, InRange p (between start stop) pg → (φ pg).Resident →
        s.hw pg.tid pg.addr = none)
      (hr : Released φ s p (between start stop) s') :
      Move φ s (.release p start stop) (φ.release p (between start stop)) s'
  | delete {p : Nat} {s' : Mm} (hlive : s.Live p)
      (hhw : ∀ pg, pg.pid = p → pg.addr < stackTop → (φ pg).Resident →
        s.hw pg.tid pg.addr = none)
      (hr : Released φ s p (fun _ => true) s') :
      Move φ s (.delete p) (φ.release p fun _ => true)
        { s' with
          ptable := Function.update s'.ptable p
            { s'.ptable p with pageIndex := none, isActive := false }
          wait := Function.update s'.wait (threadId p) .ready
          outbox := s'.outbox ++ [.deleted p] }
  | register {p n : Nat} {P : Process} (h1 : 1 ≤ p) (h2 : p < maxRunningProcess)
      (hfree : (s.ptable p).isActive = false) (hact : P.isActive = true)
      (htid : P.tid = threadId p ∨ P.tid = ⟨0, 1⟩) (hindex : P.pageIndex = some fun _ => none)
      (hwait : P.waitFor = nilthread) (hinit : P.initialized = false) :
      Move φ s (.register p) φ
        { s with
          nextTask := n
          ptable := Function.update s.ptable p P
          wait := Function.update s.wait P.tid .ready }
  /-- The table is full. -/
  | registerFull {n : Nat} : Move φ s .quiet φ { s with nextTask := n }
  | start {p : Nat} (hlive : s.Live p)
      (hphys : ∀ v, 0x710000 ≤ v → v < virtualStart → v % pageSize = 0 →
        s.hw (threadId p) v = none)
      (hhw : ∀ pg, pg.pid = p → pg.addr < stackTop → (φ pg).Resident →
        s.hw pg.tid pg.addr = none) :
      Move φ s (.start p) φ
        { s with
          ptable := Function.update s.ptable p { s.ptable p with initialized := true } }
  /-- A thread blocks in a page fault. -/
  | fault {p : Nat} (hnone : ∀ id, ¬ Serves s.swappingPages s.requests (threadId p) id)
      (hcall : p < maxRunningProcess → (s.ptable p).isActive = true →
        (s.ptable p).waitFor = nilthread) :
      Move φ s (.fault p) φ { s with wait := Function.update s.wait (threadId p) .fault }
  /-- A thread blocks in a system call, or goes on after it. -/
  | setWait {p : Nat} {w : Wait}
      (hnone : ∀ id, ¬ Serves s.swappingPages s.requests (threadId p) id)
      (hcall : p < maxRunningProcess → (s.ptable p).isActive = true →
        (s.ptable p).waitFor = nilthread) (hw : w ≠ .fault) :
      Move φ s .quiet φ { s with wait := Function.update s.wait (threadId p) w }
  | setWaitFor {p : Nat} {t : ThreadId} {w : Wait} (hlive : s.Live p)
      (hnone : ∀ id, ¬ Serves s.swappingPages s.requests (threadId p) id)
      (hw : t ≠ nilthread → w = .call) (hnot : w ≠ .fault) :
      Move φ s .quiet φ
        { s with
          ptable := Function.update s.ptable p { s.ptable p with waitFor := t }
          wait := Function.update s.wait (threadId p) w }
  | say {ev : Event} (hev : ∀ t words, ev ≠ .reply t pagefaultLabel words) :
      Move φ s .quiet φ { s with outbox := s.outbox ++ [ev] }

/-- Every move keeps the invariant. -/
theorem Move.inv {φ φ' : PageMap} {s s' : Mm} {ℓ : Label} (h : Inv φ s)
    (hm : Move φ s ℓ φ' s') : Inv φ' s' := by
  cases hm with
  | unmap => exact ⟨h.tables, h.frames, h.slots, h.queues, h.roles⟩
  -- Moves that touch no page state keep every part, or permute a queue.
  | requeue hl => exact ⟨h.tables, h.frames, h.slots, h.queues.perm hl, h.roles⟩
  | evict hq hpg hslot _ hfree => exact h.evict hq hpg hslot hfree
  | writeOut hq hpg hslot hlive hwait hnone hit =>
      exact h.writeOut hq hpg hslot hlive hwait hnone hit
  | lose hq hpg => exact h.lose hq hpg
  | noPage => exact ⟨h.tables, h.frames, h.slots, h.queues, h.roles⟩
  | entry hsame hpte => exact h.entry hsame hpte
  | touch _ hlive htable hpg halloc hf hid hfor hdel hoff =>
      exact h.touch hlive htable hpg halloc hf hid hfor hdel hoff
  | touchPinned _ hlive htable hpg _ halloc hf => exact h.touchPinned hlive htable hpg halloc hf
  | readIn hpg halloc hf hid hfor hdel hoff hto hwait hnone =>
      exact h.readIn hpg halloc hf hid hfor hdel hoff hto hwait hnone
  | dirty hpg hnot => exact h.dirty hpg hnot
  | map => exact ⟨h.tables, h.frames, h.slots, h.queues, h.roles⟩
  | mapPhys => exact ⟨h.tables, h.frames, h.slots, h.queues, h.roles⟩
  | store => exact ⟨h.tables, h.frames, h.slots, h.queues, h.roles⟩
  | ack hreq hpg hmore hit => exact h.ack hreq rfl hpg hmore hit
  | ackDoomed hreq hm hdel hwriting hmore hit =>
      exact h.ackDoomed hreq rfl hm hdel hwriting hmore hit
  | evicted hreq hpg hlast hoff _ hfree => exact h.evicted hreq rfl rfl hpg hlast hoff hfree
  | restored hreq hpg hlast hit => exact h.restored hreq rfl rfl hpg hlast hit
  | arrive hreq hpg hmore hit => exact h.arrive hreq rfl hpg hmore hit
  | arrived hreq hpg _ hit => exact h.arrived hreq rfl hpg hit
  | discardWrite hreq hm hdel hwriting hlast =>
      rw [hreq] at hwriting
      refine h.discard hreq rfl hm hdel (hwriting.last rfl hlast) fun hne => ⟨?_, rfl⟩
      split
      · rfl
      next hr =>
        rw [if_neg hr] at hne
        exact absurd rfl hne
  | discardRead hreq hm hdel hreading =>
      rw [hreq] at hreading
      exact h.discard hreq rfl hm hdel (hreading.only rfl).2 fun hne => absurd rfl hne
  | release _ _ _ hr => exact h.release hr
  | delete hlive _ hr => exact h.delete hlive hr
  | register h1 _ hfree hact htid hindex hwait _ =>
      exact h.register h1 hfree hact htid hindex hwait
  | registerFull => exact ⟨h.tables, h.frames, h.slots, h.queues, h.roles⟩
  | start => exact h.setInitialized
  | fault hnone hcall => exact h.setWait hnone hcall
  | setWait hnone hcall => exact h.setWait hnone hcall
  | setWaitFor hlive hnone hw => exact h.setWaitFor hlive hnone hw
  | say => exact ⟨h.tables, h.frames, h.slots, h.queues, h.roles⟩

/-! ### What a move leaves alone -/

/-- Hardware mappings have been removed. -/
def Unmapped (s s' : Mm) : Prop := ∀ t v, s'.hw t v = none ∨ s'.hw t v = s.hw t v

/-- Nothing is mapped that was not. -/
theorem Unmapped.refl (s : Mm) : Unmapped s s := fun _ _ => Or.inr rfl

/-- Two steps that only remove mappings only remove mappings together. -/
theorem Unmapped.trans {s s₁ s' : Mm} (h : Unmapped s s₁) (h' : Unmapped s₁ s') :
    Unmapped s s' := by
  intro t v
  rcases h' t v with h1 | h1
  · exact Or.inl h1
  · rw [h1]
    exact h t v

/-- What is not mapped stays so. -/
theorem Unmapped.none {s s' : Mm} (h : Unmapped s s') {t : ThreadId} {v : Nat}
    (hn : s.hw t v = none) : s'.hw t v = none := by
  rcases h t v with h1 | h1
  · exact h1
  · rw [h1, hn]

section

variable {φ φ' : PageMap} {s s' : Mm} {ℓ : Label}

/-- Only two moves map a page. -/
theorem Move.unmapped (hm : Move φ s ℓ φ' s') (hmap : ∀ pg rights, ℓ ≠ .map pg rights)
    (hphys : ∀ p v, ℓ ≠ .mapPhys p v) : Unmapped s s' := by
  cases hm with
  | map => exact absurd rfl (hmap _ _)
  | mapPhys => exact absurd rfl (hphys _ _)
  | unmap hhw => exact hhw
  | release _ _ _ hr => exact fun _ _ => Or.inr (by rw [hr.hw])
  | delete _ _ hr => exact fun _ _ => Or.inr (by rw [hr.hw])
  | _ => exact fun _ _ => Or.inr rfl

/-- An entry that is replaced by one that is the same leaves all of them the same. -/
theorem Process.Same.update {ptable : Nat → Process} {p : Nat} {P : Process}
    (h : (ptable p).Same P) (q : Nat) : (ptable q).Same (Function.update ptable p P q) := by
  by_cases hq : q = p
  · rw [hq, Function.update_self]
    exact h
  · rw [Function.update_of_ne hq]
    exact .refl _

/-- An entry that is replaced by one with the same thread leaves all threads the same. -/
theorem Process.SameThread.update {ptable : Nat → Process} {p : Nat} {P : Process}
    (h : (ptable p).SameThread P) (q : Nat) :
    (ptable q).SameThread (Function.update ptable p P q) := by
  by_cases hq : q = p
  · rw [hq, Function.update_self]
    exact h
  · rw [Function.update_of_ne hq]
    exact ⟨rfl, rfl, rfl⟩

/-- After a release all entries are the same but for their page tables. -/
theorem Released.same_all {p : Nat} {inRange : Nat → Bool} (hr : Released φ s p inRange s')
    (q : Nat) : (s.ptable q).Same (s'.ptable q) := by
  by_cases hq : q = p
  · rw [hq]
    exact hr.same
  · rw [hr.ptable_of_ne hq]
    exact .refl _

/-- A slot belongs to the same thread, unless its process comes or goes. -/
theorem Move.sameThread (hm : Move φ s ℓ φ' s') {p : Nat} (hreg : ℓ ≠ .register p)
    (hdel : ℓ ≠ .delete p) : (s.ptable p).SameThread (s'.ptable p) := by
  -- The moves that set an entry, a field of a process, or nothing.
  cases hm with
  | evict | touch | touchPinned | readIn | dirty | evicted =>
      exact ((Process.same_setPte _ _ _).update p).toSameThread
  | entry hsame => exact (hsame.update p).toSameThread
  | release _ _ _ hr => exact (hr.same_all p).toSameThread
  -- A deletion and a registration change only their own process.
  | @delete q _ _ _ hr =>
      have hne : p ≠ q := fun he => hdel (he ▸ rfl)
      simp only [Function.update_of_ne hne]
      exact (hr.same_all p).toSameThread
  | @register q =>
      have hne : p ≠ q := fun he => hreg (he ▸ rfl)
      simp only [Function.update_of_ne hne]
      exact ⟨rfl, rfl, rfl⟩
  | @start q =>
      have hsame : (s.ptable q).SameThread { s.ptable q with initialized := true } :=
        ⟨rfl, rfl, rfl⟩
      exact hsame.update p
  | @setWaitFor q t =>
      have hsame : (s.ptable q).SameThread { s.ptable q with waitFor := t } := ⟨rfl, rfl, rfl⟩
      exact hsame.update p
  | _ => exact ⟨rfl, rfl, rfl⟩

/-- A slot stays initialized or not, unless its process is started or is a new one. -/
theorem Move.initialized (hm : Move φ s ℓ φ' s') {p : Nat} (hreg : ℓ ≠ .register p)
    (hstart : ℓ ≠ .start p) : (s'.ptable p).initialized = (s.ptable p).initialized := by
  -- The moves that set an entry, a field of a process, or nothing.
  cases hm with
  | evict | touch | touchPinned | readIn | dirty | evicted =>
      exact ((Process.same_setPte _ _ _).update p).initialized
  | entry hsame => exact (hsame.update p).initialized
  | release _ _ _ hr => exact (hr.same_all p).initialized
  -- A deletion clears the entries of the process and not this flag.
  | @delete q _ _ _ hr =>
      by_cases hp : p = q
      · simp only [hp, Function.update_self, hr.same.initialized]
      · simp only [Function.update_of_ne hp, hr.ptable_of_ne hp]
  | @register q =>
      have hne : p ≠ q := fun he => hreg (he ▸ rfl)
      simp only [Function.update_of_ne hne]
  | @start q =>
      have hne : p ≠ q := fun he => hstart (he ▸ rfl)
      simp only [Function.update_of_ne hne]
  | @setWaitFor q =>
      by_cases hp : p = q
      · simp only [hp, Function.update_self]
      · simp only [Function.update_of_ne hp]
  | _ => rfl

/-- A page has memory until its process releases it or is deleted. -/
theorem Move.not_absent (hm : Move φ s ℓ φ' s') (hrelease : ∀ p start stop, ℓ ≠ .release p start stop)
    (hdel : ∀ p, ℓ ≠ .delete p) {pg : Page} (h : φ pg ≠ .absent) : φ' pg ≠ .absent := by
  have hupdate : ∀ {pg₁ : Page} {st : PageState}, st ≠ .absent →
      Function.update φ pg₁ st pg ≠ .absent := by
    intro pg₁ st hst
    by_cases he : pg = pg₁
    · rwa [he, Function.update_self]
    · rwa [Function.update_of_ne he]
  cases hm with
  | evict | writeOut | lose | touch | touchPinned | readIn | dirty | ack | evicted | restored
  | arrive | arrived => exact hupdate nofun
  | release => exact absurd rfl (hrelease _ _ _)
  | delete => exact absurd rfl (hdel _)
  | _ => exact h

/-- The processes that live after a move lived before, but for a new one. -/
theorem Move.live (hm : Move φ s ℓ φ' s') {p : Nat} (hreg : ℓ ≠ .register p) (h : s'.Live p) :
    s.Live p := by
  by_cases hdel : ℓ = .delete p
  · subst hdel
    cases hm with
    | delete =>
        have hact := h.2.2.1
        simp only [Function.update_self, Bool.false_eq_true] at hact
  · have hsame := hm.sameThread hreg hdel
    rwa [Mm.Live, LiveIn, hsame.isActive, hsame.tid] at h

end

/-- A sequence of moves with allowed labels. -/
inductive Chain (P : PageMap → Mm → Label → Prop) :
    PageMap → Mm → List Label → PageMap → Mm → Prop
  | nil (φ : PageMap) (s : Mm) : Chain P φ s [] φ s
  | cons {φ φ₁ φ' : PageMap} {s s₁ s' : Mm} {ℓ : Label} {ls : List Label} (hP : P φ s ℓ)
      (hm : Move φ s ℓ φ₁ s₁) (hc : Chain P φ₁ s₁ ls φ' s') : Chain P φ s (ℓ :: ls) φ' s'

namespace Chain

variable {P Q : PageMap → Mm → Label → Prop} {φ φ₁ φ' : PageMap} {s s₁ s' : Mm} {ℓ : Label}
  {ls ls' : List Label}

/-- One move is a chain. -/
theorem single (hP : P φ s ℓ) (hm : Move φ s ℓ φ' s') : Chain P φ s [ℓ] φ' s' :=
  .cons hP hm (.nil φ' s')

/-- Two chains, one behind the other, are a chain. -/
theorem append (h : Chain P φ s ls φ₁ s₁) (h' : Chain P φ₁ s₁ ls' φ' s') :
    Chain P φ s (ls ++ ls') φ' s' := by
  induction h with
  | nil => exact h'
  | cons hP hm _ ih => exact .cons hP hm (ih h')

/-- What every allowed move keeps, under the invariant, a chain keeps. -/
theorem induction {I : PageMap → Mm → Prop} (h : Chain P φ s ls φ' s') (hinv : Inv φ s)
    (hI : I φ s) (hstep : ∀ φ s ℓ φ' s', Inv φ s → I φ s → P φ s ℓ → Move φ s ℓ φ' s' → I φ' s') :
    I φ' s' := by
  induction h with
  | nil => exact hI
  | cons hP hm _ ih => exact ih (hm.inv hinv) (hstep _ _ _ _ _ hinv hI hP hm)

/-- A chain keeps the invariant. -/
theorem inv (h : Chain P φ s ls φ' s') (hinv : Inv φ s) : Inv φ' s' :=
  h.induction hinv hinv fun _ _ _ _ _ h _ _ hm => hm.inv h

/-- A chain of moves that satisfy a condition satisfies a weaker one. -/
theorem mono (h : Chain P φ s ls φ' s') (hPQ : ∀ φ s ℓ, P φ s ℓ → Q φ s ℓ) :
    Chain Q φ s ls φ' s' := by
  induction h with
  | nil => exact .nil _ _
  | cons hP hm _ ih => exact .cons (hPQ _ _ _ hP) hm ih

/-- What holds of every label holds at every move. -/
theorem and_label (h : Chain P φ s ls φ' s') {L : Label → Prop} (hL : ∀ ℓ ∈ ls, L ℓ) :
    Chain (fun φ s ℓ => P φ s ℓ ∧ L ℓ) φ s ls φ' s' := by
  induction h with
  | nil => exact .nil _ _
  | cons hP hm _ ih =>
      refine .cons ⟨hP, hL _ List.mem_cons_self⟩ hm (ih fun ℓ hℓ => ?_)
      exact hL ℓ (List.mem_cons_of_mem _ hℓ)

/-- Every label of a chain was allowed somewhere. -/
theorem label_of (h : Chain P φ s ls φ' s') : ∀ ℓ ∈ ls, ∃ φ₁ σ, P φ₁ σ ℓ := by
  induction h with
  | nil => exact fun _ hm => absurd hm List.not_mem_nil
  | cons hP _ _ ih =>
      intro ℓ hm
      rcases List.mem_cons.mp hm with rfl | hm
      · exact ⟨_, _, hP⟩
      · exact ih ℓ hm

end Chain

/-! ### What the server says -/

/-- The message the server gives up with. -/
def Label.event? : Label → Option Event
  | .lose => some (.kdbEnter outOfSwapMessage)
  | .noPage => some (.kdbEnter outOfFramesMessage)
  | _ => none

/-- To wake a thread takes nothing back that has been sent. -/
theorem Mm.wake_outbox (s : Mm) (t : ThreadId) : s.outbox <+: (s.wake t).outbox := by
  unfold Mm.wake
  split
  · exact List.prefix_append _ _
  · exact List.prefix_rfl

/-- Nothing that was sent is taken back. -/
theorem Move.outbox {φ φ' : PageMap} {s s' : Mm} {ℓ : Label} (hm : Move φ s ℓ φ' s') :
    s.outbox <+: s'.outbox := by
  cases hm with
  | lose | noPage | say => exact List.prefix_append _ _
  | evicted | restored | arrived | discardWrite | discardRead => exact Mm.wake_outbox _ _
  | release _ _ _ hr => exact hr.outbox.symm ▸ List.prefix_rfl
  | delete _ _ hr =>
      rw [hr.outbox]
      exact List.prefix_append _ _
  | unmap | requeue | evict | writeOut | entry | touch | touchPinned | readIn | dirty | map
  | mapPhys | store | ack | ackDoomed | arrive | register | registerFull | start | fault
  | setWait | setWaitFor => exact List.prefix_rfl

/-- What the label of a move sends is in the outbox afterwards. -/
theorem Move.event {φ φ' : PageMap} {s s' : Mm} {ℓ : Label} {ev : Event}
    (hm : Move φ s ℓ φ' s') (he : ℓ.event? = some ev) : ev ∈ s'.outbox := by
  cases hm with
  | lose =>
      obtain rfl := Option.some.inj he
      simp
  | noPage =>
      obtain rfl := Option.some.inj he
      simp [Mm.kdbEnter]
  | _ => cases he

/-- A chain takes nothing back that has been sent. -/
theorem Chain.outbox {P : PageMap → Mm → Label → Prop} {φ φ' : PageMap} {s s' : Mm}
    {ls : List Label} (h : Chain P φ s ls φ' s') : s.outbox <+: s'.outbox := by
  induction h with
  | nil => exact List.prefix_rfl
  | cons _ hm _ ih => exact hm.outbox.trans ih

/-- When the server gives up, it says so. -/
theorem Chain.event {P : PageMap → Mm → Label → Prop} {φ φ' : PageMap} {s s' : Mm}
    {ls : List Label} (h : Chain P φ s ls φ' s') {ℓ : Label} {ev : Event} (hℓ : ℓ ∈ ls)
    (he : ℓ.event? = some ev) : ev ∈ s'.outbox := by
  induction h with
  | nil => exact absurd hℓ List.not_mem_nil
  | cons _ hm hc ih =>
      rcases List.mem_cons.mp hℓ with rfl | hℓ
      · exact hc.outbox.mem (hm.event he)
      · exact ih hℓ

end Sos
