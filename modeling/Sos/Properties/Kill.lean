import Sos.Clock.Step
import Sos.Paging.Deletion
import Sos.Properties.FileHandles
import Sos.Properties.FreeRange
import Sos.Server.State

/-!
# `Sos.Properties.Kill`: a process is deleted, the others go on

`kill_undisturbed`: `delete_process` of an active process leaves every other active process its
page table, its descriptors with their positions, the fields of its entry but for `wait_for`,
its items in both queues in their order, its frames and its slots. Only the initiator of an item
is forgotten when it was the deleted process. A file loses its reader only if that was the
deleted process.

It does so exactly for an entry that has its own thread id (`kill_undisturbed_iff`). A name of
`N_NAME` characters has overwritten the id with that of slot 0, so that `get_process` finds the
server's entry: its page index is the null pointer, and the loops over the page table, the file
table and the timers are those of the server (`overwritten_kill`).

The memory side is what `deleteProcess_spec` says (`Deleted`), because a page of another process
holds its frame and its slot in the page map before and after. The side of the files is
`FileTables.Closes`, because no descriptor is in two file tables.
-/

set_option autoImplicit false

namespace Sos

/-- When process `p` is deleted, process `q` keeps its memory and its entry. -/
structure Mm.Spares (s : Mm) (p q : Nat) (s' : Mm) : Prop where
  process : s'.ptable q = { s.ptable q with waitFor := (s'.ptable q).waitFor }
  active : s'.activePages.filter (·.tid = (s.ptable q).tid) =
    s.activePages.filter (·.tid = (s.ptable q).tid)
  swapping : s'.swappingPages.filter (·.tid = (s.ptable q).tid) =
    (s.swappingPages.filter (·.tid = (s.ptable q).tid)).map fun it =>
      if it.initiator = threadId p then { it with initiator := nilthread } else it
  frames : ∀ a f, PageAddress a → (s.ptable q).HoldsFrame a f → s'.frames.Used f
  slots : ∀ a i, PageAddress a → (s.ptable q).HoldsSlot a i →
    bitfieldGet s'.swapBitfield i = true
  itemSlots : ∀ it ∈ s.activePages ++ s.swappingPages, it.tid = (s.ptable q).tid →
    ∀ b : Nat, it.swapOffset = b → bitfieldGet s'.swapBitfield (b / pageSize) = true

/-- Process `q` keeps its file table and its descriptors. -/
structure Io.Spares (s : Io) (q : Nat) (s' : Io) : Prop where
  filetable : s'.filetable q = s.filetable q
  descriptors : ∀ fd < processMaxFiles, ∀ e, s.filetable q fd = some e →
    s'.entries e = s.entries e

/-! ### The pages of another process -/

section

variable {φ : PageMap} {s : Mm}

/-- The thread id that a long name leaves is not that of any other process. -/
theorem threadId_ne_overwritten {p : Nat} (hp : 1 ≤ p) : threadId p ≠ ⟨0, 1⟩ := by
  intro heq
  have hpid := congrArg tid2pid heq
  rw [tid2pid_threadId] at hpid
  have hzero : tid2pid ⟨0, 1⟩ = 0 := rfl
  omega

/-- Another slot has another thread id than that of a process, even an overwritten one. -/
theorem Inv.tid_ne (h : Inv φ s) {p q : Nat} (hp : 1 ≤ p) (hq : q < maxRunningProcess)
    (hne : q ≠ p) : (s.ptable q).tid ≠ threadId p := by
  intro heq
  -- The entry of the server is the one slot whose thread id `process_init` overwrites.
  rcases Nat.eq_zero_or_pos q with rfl | hpos
  · have hroot := h.tables.root.1
    rw [heq, tid2pid_threadId] at hroot
    omega
  · rcases h.tables.entry q hpos hq with ⟨hno, -⟩ | ⟨-, hzero⟩
    · rw [heq] at hno
      have hpid := congrArg (· >>> reservedIdBits) hno
      simp only [threadId, Nat.shiftLeft_shiftRight] at hpid
      exact hne hpid.symm
    · exact threadId_ne_overwritten hp (heq.symm.trans hzero)

/-- An entry that holds a frame is that of a page in this frame. -/
theorem Inv.frame?_of_holds (h : Inv φ s) {q a f : Nat} (ha : PageAddress a)
    (hf : (s.ptable q).HoldsFrame a f) : (φ ⟨q, a, ha.1, ha.2⟩).frame? = some f := by
  obtain ⟨hresident, hne, hframe⟩ := hf
  have hword := h.tables.word ⟨q, a, ha.1, ha.2⟩
  have hok := h.ok ⟨q, a, ha.1, ha.2⟩
  dsimp only at hword
  -- The entry is the word of the page's state, so the state decides what it holds.
  rw [hword] at hresident hne hframe
  cases hst : φ ⟨q, a, ha.1, ha.2⟩ with
  | absent =>
      rw [hst] at hne
      exact absurd rfl hne
  | swapped b =>
      rw [(PageState.isSwapped_word hok).mpr ⟨b, hst⟩] at hresident
      cases hresident
  | resident g d hold =>
      rw [hst] at hok hframe
      rw [PageState.clearLowerBits_resident hok] at hframe
      exact congrArg some hframe

/-- An entry that holds a slot is that of a swapped page. -/
theorem Inv.swapped_of_holds (h : Inv φ s) {q a i : Nat} (ha : PageAddress a)
    (hi : (s.ptable q).HoldsSlot a i) :
    ∃ b, φ ⟨q, a, ha.1, ha.2⟩ = .swapped b ∧ b / pageSize = i := by
  obtain ⟨hswapped, hslot⟩ := hi
  have hword := h.tables.word ⟨q, a, ha.1, ha.2⟩
  have hok := h.ok ⟨q, a, ha.1, ha.2⟩
  dsimp only at hword
  rw [hword] at hswapped hslot
  obtain ⟨b, hb⟩ := (PageState.isSwapped_word hok).mp hswapped
  rw [hb] at hok hslot
  rw [PageState.clearLowerBits_swapped hok] at hslot
  exact ⟨b, hb, hslot⟩

/-! ### The memory -/

/-- The items of another thread stay in the queue of active pages. -/
theorem filter_active {t t' : ThreadId} (hne : t' ≠ t) (active : List PageQueueItem) :
    (active.filter fun it => !decide (t = it.tid ∧ (fun _ => true) it.virtualAddress = true)).filter
      (·.tid = t') = active.filter (·.tid = t') := by
  rw [List.filter_filter]
  refine List.filter_congr fun it _ => ?_
  by_cases htid : it.tid = t'
  · simp [htid, hne.symm]
  · simp [htid]

/-- An item of another thread that is being swapped loses at most its initiator. -/
theorem filter_swapping {t t' : ThreadId} (hne : t' ≠ t) (swapping : List PageQueueItem) :
    (swapping.map (Mm.cancelItem t fun _ => true)).filter (·.tid = t') =
      (swapping.filter (·.tid = t')).map fun it =>
        if it.initiator = t then { it with initiator := nilthread } else it := by
  rw [List.filter_map]
  -- `cancelItem` keeps the thread of an item, so the filter can come first.
  have hkept : swapping.filter ((fun it : PageQueueItem => decide (it.tid = t')) ∘
      Mm.cancelItem t fun _ => true) = swapping.filter (·.tid = t') :=
    List.filter_congr fun it _ => by rw [Function.comp_apply, Mm.cancelItem_tid]
  rw [hkept]
  refine List.map_congr_left fun it hit => ?_
  have htid : it.tid = t' := of_decide_eq_true (List.mem_filter.mp hit).2
  have hother : ¬ (t = it.tid ∧ (true : Bool) = true) := fun he => hne (htid.symm.trans he.1.symm)
  rw [Mm.cancelItem, if_neg hother]
  by_cases hinit : it.initiator = t
  · exact (if_pos ⟨hinit.symm, rfl⟩).trans (if_pos hinit).symm
  · exact (if_neg fun he => hinit he.1.symm).trans (if_neg hinit).symm

/-- The page of an item of another process, with the slot of the item. -/
theorem Inv.held_slot (h : Inv φ s) {p q b : Nat} (hp : 1 ≤ p) (hq : q < maxRunningProcess)
    (hne : q ≠ p) {it : PageQueueItem} (hit : it ∈ s.activePages ++ s.swappingPages)
    (htid : it.tid = (s.ptable q).tid) (hb : it.swapOffset = b) :
    ∃ x, Holds (φ.drop fun pg => InRange p (fun _ => true) pg ∧ ¬ (φ pg).InTransit)
      s.swappingPages x b := by
  have hpage : ∀ pg, (φ pg).item? = some it →
      ∃ x, Holds (φ.drop fun pg => InRange p (fun _ => true) pg ∧ ¬ (φ pg).InTransit)
        s.swappingPages x b := by
    intro pg hitem
    have hfor := (h.queues.page pg it hitem).1
    -- The item, and so the page, belongs to another process than `p`.
    have hother : ¬ InRange p (fun _ => true) pg := fun hin =>
      h.tid_ne hp hq hne (htid.symm.trans (hfor.inRange_iff.mpr hin).1.symm)
    refine ⟨.page pg, ?_⟩
    simp only [Holds]
    rw [PageMap.drop_of_not fun hin => hother hin.1]
    have hslot : it.slot = some b := PageQueueItem.slot_eq_some.mpr hb
    cases hst : φ pg with
    | absent =>
        rw [hst] at hitem
        cases hitem
    | swapped c =>
        rw [hst] at hitem
        cases hitem
    | resident f d hold =>
        have hhold : hold.item? = some it := by
          rw [hst] at hitem
          exact hitem
        show hold.item?.bind PageQueueItem.slot = some b
        rw [hhold, Option.bind_some, hslot]
  -- An active item and an item that is not flagged are items of a page; a flagged one keeps its
  -- slot without a page.
  rcases List.mem_append.mp hit with hactive | hswapping
  · obtain ⟨pg, f, d, hpg⟩ := (h.queues.active_iff it).mp hactive
    exact hpage pg (by rw [hpg]; rfl)
  · cases hdel : it.processDeleted with
    | true => exact ⟨.doomed it.id, it, hswapping, rfl, hdel, hb⟩
    | false =>
        obtain ⟨pg, f, d, hpg | hpg⟩ := (h.queues.swapping_iff it hdel).mp hswapping
        · exact hpage pg (by rw [hpg]; rfl)
        · exact hpage pg (by rw [hpg]; rfl)

/-- What `delete_process` does to the memory spares the others. -/
theorem Deleted.spares (h : Inv φ s) {p q : Nat} {φ' : PageMap} {s' : Mm} (hlive : s.Live p)
    (hd : Deleted φ s p φ' s') (hq : q < maxRunningProcess) (hne : q ≠ p) : s.Spares p q s' := by
  obtain ⟨hw, σ, -, hrel, -, hs'⟩ := hd.result
  -- Behind the release only `wait_wakeup` is left, which writes `wait_for`, the waits and the
  -- outbox.
  obtain ⟨wait, hwakeup⟩ := (σ.clearSlot p).waitWakeup_eq (threadId p)
  rw [hwakeup] at hs'
  have htid := h.tid_ne hlive.1 hq hne
  have hptable : (σ.clearSlot p).ptable q = s.ptable q := by
    rw [σ.clearSlot_of_ne hne, hrel.ptable_of_ne hne]
  have hactive : s'.activePages = σ.activePages := by rw [hs']; rfl
  have hswapping : s'.swappingPages = σ.swappingPages := by rw [hs']; rfl
  have hframes : s'.frames = σ.frames := by rw [hs']; rfl
  have hbits : s'.swapBitfield = σ.swapBitfield := by rw [hs']; rfl
  refine ⟨?_, ?_, ?_, fun a f ha hf => ?_, fun a i ha hi => ?_, fun it hit hitem b hb => ?_⟩
  · rw [hs']
    dsimp only
    rw [hptable]
    split
    · rfl
    · rfl
  · rw [hactive, hrel.activePages]
    exact filter_active htid _
  · rw [hswapping, hrel.swappingPages]
    exact filter_swapping htid _
  · rw [hframes, hrel.frames.used]
    refine ⟨⟨q, a, ha.1, ha.2⟩, ?_⟩
    rw [PageMap.drop_of_not fun hin => hne hin.1]
    exact h.frame?_of_holds ha hf
  · obtain ⟨b, hb, rfl⟩ := h.swapped_of_holds ha hi
    have hholds : Holds (φ.drop fun pg => InRange p (fun _ => true) pg ∧ ¬ (φ pg).InTransit)
        s.swappingPages (.page ⟨q, a, ha.1, ha.2⟩) b := by
      simp only [Holds]
      rw [PageMap.drop_of_not fun hin => hne hin.1.1, hb]
      rfl
    rw [hbits]
    exact (hrel.slots.valid _ _ hholds).2.2
  · obtain ⟨x, hx⟩ := h.held_slot hlive.1 hq hne hit hitem hb
    rw [hbits]
    exact (hrel.slots.valid _ _ hx).2.2

end

/-! ### The files -/

/-- No descriptor is in the file tables of two processes, so that closing the files of one
process leaves those of the others. -/
theorem Io.closeFiles_spares {s : FileServer} (hwf : s.tables.Wf) {p : Nat}
    (hactive : s.isActive p = true) {io : Io}
    (hio : s.io.cleared.closeFiles p (threadId p) = some io) :
    (∀ q, q ≠ p → s.isActive q = true → s.io.Spares q io) ∧
      ∀ file, (io.files file).reader = (s.io.files file).reader ∨
        (s.io.files file).reader = threadId p := by
  have hcloses := Io.closeFiles_closes s.isActive s.tid hio List.nodup_range
    fun fd hfd fd' hfd' e he he' =>
      (hwf.entries.injective p p fd fd' e hactive hactive ⟨List.mem_range.mp hfd, he⟩
        ⟨List.mem_range.mp hfd', he'⟩).2
  refine ⟨fun q hne hq => ⟨hcloses.filetable q hne, fun fd hfd e he => ?_⟩, fun file => ?_⟩
  · refine hcloses.other e fun fd' hfd' he' => hne ?_
    exact (hwf.entries.injective q p fd fd' e hq hactive ⟨hfd, he⟩
      ⟨List.mem_range.mp hfd', he'⟩).1
  · exact (hcloses.reader file).imp_right And.left

/-! ### The timers -/

namespace Clock

/-- The first loop of `remove_timers` ends when the owner at address 0 is another thread. -/
theorem removeHead_isSome {owner tid : ThreadId} (hne : owner ≠ tid) (c : Clock)
    (queue : List AlarmTimer) : (removeHead (some owner) tid c queue).isSome := by
  induction queue generalizing c with
  | nil => rw [removeHead, if_neg hne]; rfl
  | cons t rest ih =>
      rw [removeHead]
      split
      · exact ih _
      · rfl

/-- So does the second loop, whatever it removes. -/
theorem removeRest_isSome {owner tid : ThreadId} (hne : owner ≠ tid)
    (queue : List AlarmTimer) : (removeRest (some owner) tid queue).isSome := by
  fun_induction removeRest (some owner) tid queue with
  | case1 => rfl
  | case2 t heq => cases heq
  | case3 t heq => exact absurd (Option.some.inj heq) hne
  | case4 => rfl
  -- A removed entry and one that stays: the loop goes on behind it.
  | case5 t u rest howner ih => rw [Option.isSome_map]; exact ih
  | case6 t u rest howner ih => rw [Option.isSome_map]; exact ih

/-- `remove_timers` returns unless what it reads at address 0 is the thread itself. -/
theorem removeTimers_isSome {owner tid : ThreadId} (hne : owner ≠ tid) {c : Clock} :
    (c.removeTimers (some owner) tid).isSome := by
  rw [removeTimers]
  split
  · rfl
  · obtain ⟨c', hhead⟩ := Option.isSome_iff_exists.mp (removeHead_isSome hne c c.timerQueue)
    obtain ⟨queue, hrest⟩ := Option.isSome_iff_exists.mp (removeRest_isSome hne c'.timerQueue)
    simp only [hhead, hrest, Option.bind_eq_bind, Option.bind_some, Option.isSome_some]

end Clock

/-! ### The handler -/

namespace Server

variable {nullOwner : Option ThreadId} {s : Server} {caller p : Nat}

/-- `delete_process` in three parts, for an entry that is active. -/
theorem deleteProcess_eq (hp : 1 ≤ p) (hlt : p < maxRunningProcess)
    (hact : (s.mm.getProcess (s.mm.pid2tid p)).isActive = true) (tid : ThreadId) :
    s.deleteProcess nullOwner tid [p] = (do
      let (mm, reply) ← s.mm.deleteProcess tid p
      let io ← s.io.closeFiles (tid2pid (s.mm.pid2tid p)) (s.mm.getProcess (s.mm.pid2tid p)).tid
      let clock ← s.clock.removeTimers nullOwner (s.mm.getProcess (s.mm.pid2tid p)).tid
      some ({ mm := mm, io := io, clock := clock }, reply)) := by
  have hrange : ¬ ((p : Int) < 1 ∨ (p : Int) ≥ maxRunningProcess) := by omega
  have hword : p < 2 ^ 31 := lt_trans hlt (by decide)
  simp only [deleteProcess, toInt32_of_lt hword, if_neg hrange, Int.toNat_natCast, hact,
    Bool.not_true, Bool.false_eq_true, if_false]

/-- A process is found by its own thread id. -/
theorem getProcess_pid2tid (htid : (s.mm.ptable p).tid = threadId p) :
    s.mm.getProcess (s.mm.pid2tid p) = s.mm.ptable p ∧ tid2pid (s.mm.pid2tid p) = p := by
  rw [Mm.getProcess, Mm.pid2tid, htid, tid2pid_threadId]
  exact ⟨rfl, rfl⟩

/-- `delete_process` of a process: the memory goes first and cannot fail. -/
theorem deleteProcess_of_live {φ : PageMap} (h : Inv φ s.mm) (hlive : s.mm.Live p)
    (tid : ThreadId) : ∃ φ' mm reply, Deleted φ s.mm p φ' mm ∧
      s.deleteProcess nullOwner tid [p] =
        (s.io.closeFiles p (threadId p)).bind fun io =>
          (s.clock.removeTimers nullOwner (threadId p)).bind fun clock =>
            some ({ mm := mm, io := io, clock := clock }, reply) := by
  obtain ⟨hp, hlt, hact, htid⟩ := hlive
  obtain ⟨hget, hpid⟩ := getProcess_pid2tid htid
  obtain ⟨φ', mm, hdelete, hdeleted⟩ := deleteProcess_live h tid ⟨hp, hlt, hact, htid⟩
  refine ⟨φ', mm, if tid ≠ threadId p then some [(p : Int)] else none, hdeleted, ?_⟩
  rw [deleteProcess_eq hp hlt (by rw [hget]; exact hact), hget, hpid, htid, hdelete]
  rfl

/-- The name of the process has overwritten its thread id: the entry that `delete_process` finds
is that of the server, and the walk over its page table follows a null pointer. -/
theorem deleteProcess_of_overwritten {φ : PageMap} (h : Inv φ s.mm) (hp : 1 ≤ p)
    (hlt : p < maxRunningProcess) (hzero : (s.mm.ptable p).tid = ⟨0, 1⟩) (tid : ThreadId) :
    s.deleteProcess nullOwner tid [p] = none := by
  have hrange : ¬ ((p : Int) < 1 ∨ (p : Int) ≥ maxRunningProcess) := by omega
  have hroot : (s.mm.getProcess (s.mm.pid2tid p)).isActive = true := by
    rw [Mm.pid2tid, hzero]
    exact h.tables.root.2.1
  rw [deleteProcess_eq hp hlt hroot, deleteProcess_corrupted h hrange hzero]
  rfl

/-- `delete_process` of process `p`, called by process `caller`, does not disturb the others: it
returns when `remove_timers` does, and spares every other active process. -/
def KillSpares (s : Server) (caller p : Nat) : Prop :=
  ∀ nullOwner, (s.clock.removeTimers nullOwner (threadId p)).isSome →
    ∃ s' reply, (s.received caller).deleteProcess nullOwner (threadId caller) [p] =
        some (s', reply) ∧
      (∀ q < maxRunningProcess, q ≠ p → (s.mm.ptable q).isActive = true →
        s.mm.Spares p q s'.mm ∧ s.io.Spares q s'.io) ∧
      ∀ file, (s'.io.files file).reader = (s.io.files file).reader ∨
        (s.io.files file).reader = threadId p

/-- A process whose thread id is overwritten is not killed without disturbance. -/
theorem not_killSpares_of_overwritten {φ : PageMap} (h : Inv φ (s.received caller).mm)
    (hp : 1 ≤ p) (hlt : p < maxRunningProcess)
    (hzero : ((s.received caller).mm.ptable p).tid = ⟨0, 1⟩) : ¬ s.KillSpares caller p := by
  intro hspares
  -- `delete_process` never gets to the timers, so any owner at address 0 will do.
  have htimers : (s.clock.removeTimers (some ⟨0, 1⟩) (threadId p)).isSome :=
    Clock.removeTimers_isSome (threadId_ne_overwritten hp).symm
  obtain ⟨s', reply, hs', -⟩ := hspares (some ⟨0, 1⟩) htimers
  rw [deleteProcess_of_overwritten h hp hlt hzero (threadId caller)] at hs'
  cases hs'

end Server

/-! ### The main result -/

/-- Whenever `delete_process` of an active process returns, it has spared every other active
process, in every state that can be reached, whoever calls it. It returns for a process that has
its own thread id, when `remove_timers` does. -/
theorem kill_undisturbed {null : Option (List UInt8)} {nullOwner : Option ThreadId} {s : Server}
    (hmm : s.mm.Reachable Mm.anyStep)
    {f : FileServer} (hfiles : (FileServer.machine null).Reachable Lib.Machine.anyStep f)
    (hagrees : s.Agrees f) {caller p : Nat}
    (hrun : s.mm.Running caller) (hp : 1 ≤ p) (hlt : p < maxRunningProcess)
    (hact : (s.mm.ptable p).isActive = true) :
    (∀ s' reply, (s.received caller).deleteProcess nullOwner (threadId caller) [p] =
        some (s', reply) →
      (∀ q < maxRunningProcess, q ≠ p → (s.mm.ptable q).isActive = true →
        s.mm.Spares p q s'.mm ∧ s.io.Spares q s'.io) ∧
      ∀ file, (s'.io.files file).reader = (s.io.files file).reader ∨
        (s.io.files file).reader = threadId p) ∧
    ((s.mm.ptable p).tid = threadId p → (s.clock.removeTimers nullOwner (threadId p)).isSome →
      ∃ s' reply, (s.received caller).deleteProcess nullOwner (threadId caller) [p] =
        some (s', reply)) := by
  obtain ⟨φ, hinv, -⟩ := hmm.inv
  have hwf := FileServer.Reachable.wf hfiles
  obtain ⟨hio₀, htable⟩ := hagrees
  have hactive : f.isActive p = true := (htable p hlt).1.trans hact
  have hblocked : Inv φ (s.received caller).mm := hinv.blocked hrun .call
  rcases hinv.tables.entry p hp hlt with ⟨hno, hversion⟩ | ⟨-, hzero⟩
  · have htid : (s.mm.ptable p).tid = threadId p := by
      rw [threadId, ← hno, ← hversion hact]
    have hlive : s.mm.Live p := ⟨hp, hlt, hact, htid⟩
    obtain ⟨φ', mm, reply₁, hdeleted, heq⟩ := @Server.deleteProcess_of_live nullOwner
      (s.received caller) p φ hblocked hlive (threadId caller)
    rw [heq]
    refine ⟨fun s' reply hs' => ?_, fun _ htimers => ?_⟩
    · obtain ⟨io, hio, hs'⟩ := Option.bind_eq_some_iff.mp hs'
      obtain ⟨clock, -, hs'⟩ := Option.bind_eq_some_iff.mp hs'
      obtain ⟨rfl, -⟩ := Prod.mk.inj (Option.some.inj hs')
      have hio' : f.io.cleared.closeFiles p (threadId p) = some io := by
        rw [hio₀]
        exact hio
      obtain ⟨hspares, hreader⟩ := Io.closeFiles_spares hwf hactive hio'
      rw [hio₀] at hspares hreader
      refine ⟨fun q hq hne hqactive => ⟨?_, hspares q hne ((htable q hq).1.trans hqactive)⟩,
        hreader⟩
      -- The state that `delete_process` starts in differs only in what has been sent, and in
      -- the caller being blocked.
      have hmemory := hdeleted.spares hblocked hlive hq hne
      exact ⟨hmemory.process, hmemory.active, hmemory.swapping, hmemory.frames, hmemory.slots,
        hmemory.itemSlots⟩
    · obtain ⟨clock, hclock⟩ := Option.isSome_iff_exists.mp htimers
      -- The loop over the file table ends, because no descriptor is freed twice.
      have hinj : ∀ fd ∈ List.range processMaxFiles, ∀ fd' ∈ List.range processMaxFiles, ∀ e,
          f.io.cleared.filetable p fd = some e → f.io.cleared.filetable p fd' = some e →
          fd = fd' :=
        fun fd hfd fd' hfd' e he he' =>
          (hwf.entries.injective p p fd fd' e hactive hactive ⟨List.mem_range.mp hfd, he⟩
            ⟨List.mem_range.mp hfd', he'⟩).2
      obtain ⟨io, hio⟩ := Io.closeFiles_total
        (FileServer.opened_of_live hwf ⟨hp, hlt, hactive, (htable p hlt).2.trans htid⟩)
        List.nodup_range hinj
      have hio' : (s.received caller).io.closeFiles p (threadId p) = some io := by
        rw [hio₀] at hio
        exact hio
      have hclock' : (s.received caller).clock.removeTimers nullOwner (threadId p) = some clock :=
        hclock
      refine ⟨⟨mm, io, clock⟩, reply₁, ?_⟩
      rw [hio', Option.bind_some, hclock', Option.bind_some]
  · refine ⟨fun s' reply hs' => ?_, fun htid => ?_⟩
    · rw [@Server.deleteProcess_of_overwritten nullOwner (s.received caller) p φ hblocked hp hlt
        hzero (threadId caller)] at hs'
      cases hs'
    · exact absurd (htid.symm.trans hzero) (threadId_ne_overwritten hp)

/-- `delete_process` of an active process disturbs no other process exactly when the entry has
its own thread id, that is, when the name of the process has not overwritten it. -/
theorem kill_undisturbed_iff {null : Option (List UInt8)} {s : Server}
    (hmm : s.mm.Reachable Mm.anyStep)
    {f : FileServer} (hfiles : (FileServer.machine null).Reachable Lib.Machine.anyStep f)
    (hagrees : s.Agrees f) {caller p : Nat}
    (hrun : s.mm.Running caller) (hp : 1 ≤ p) (hlt : p < maxRunningProcess)
    (hact : (s.mm.ptable p).isActive = true) :
    s.KillSpares caller p ↔ (s.mm.ptable p).tid = threadId p := by
  constructor
  · intro hspares
    obtain ⟨φ, hinv, -⟩ := hmm.inv
    rcases hinv.tables.entry p hp hlt with ⟨hno, hversion⟩ | ⟨-, hzero⟩
    · rw [threadId, ← hno, ← hversion hact]
    · exact absurd hspares
        (Server.not_killSpares_of_overwritten (hinv.blocked hrun .call) hp hlt hzero)
  · intro htid nullOwner htimers
    obtain ⟨hspares, hreturns⟩ :=
      @kill_undisturbed null nullOwner s hmm f hfiles hagrees caller p hrun hp hlt hact
    obtain ⟨s', reply, hs'⟩ := hreturns htid htimers
    exact ⟨s', reply, hs', hspares s' reply hs'⟩

open FileServer in
/-- The shell deletes a second process, which shares the file cache with it. -/
theorem kill_undisturbed_second : ∃ (f : FileServer) (mm : Mm),
    (machine none).Reachable Lib.Machine.anyStep f ∧ mm.Reachable Mm.anyStep ∧ mm.Running 1 ∧
      Server.KillSpares ⟨mm, f.io, Clock.started⟩ 1 2 := by
  -- Two processes with short names, so that every active slot has its own thread id.
  obtain ⟨mm, -, hmm, hrun, hactive, htid, hothers⟩ := Mm.exists_runOn Mm.anyStep
    (Mm.Boot.small_ok Nat.two_pos (by decide)) [.createProcess [115] 0, .createProcess [115] 0]
    (fun s => s.Running 1 ∧ (s.ptable 2).isActive = true ∧ (s.ptable 2).tid = threadId 2 ∧
      ∀ p < maxRunningProcess, (s.ptable p).isActive = decide (p < 3) ∧
        (s.ptable p).tid = if p = 0 then ⟨0, 1⟩ else if p < 3 then threadId p
          else ⟨p <<< reservedIdBits, 0⟩) (by decide +kernel)
  -- The same two processes in the tables of the file server.
  obtain ⟨f, -, hfiles, htable⟩ := Lib.Machine.exists_run (machine none) Lib.Machine.anyStep
    (s := (boot ⟨0, 1⟩ zeroedEntry).get rfl) ⟨⟨0, 1⟩, zeroedEntry, (Option.some_get _).symm⟩
    (startup ++ [.createProcess 2 (some (namedPage shell)) zeroedEntry])
    (fun f => ∀ p < maxRunningProcess, f.isActive p = decide (p < 3) ∧
      f.tid p = if p = 0 then ⟨0, 1⟩ else if p < 3 then threadId p
        else ⟨p <<< reservedIdBits, 0⟩) (by decide +kernel)
  have hagrees : Server.Agrees ⟨mm, f.io, Clock.started⟩ f := .of_table htable hothers
  have hspares := (@kill_undisturbed_iff none ⟨mm, f.io, Clock.started⟩ hmm f hfiles hagrees 1 2
    hrun (by decide) (by decide) hactive).mpr htid
  exact ⟨f, mm, hfiles, hmm, hrun, hspares⟩

open FileServer in
/-- An executable whose name is 32 times the letter `s` runs as process 2. When the shell deletes
it, the server does not get beyond its own page table. -/
theorem overwritten_kill : ∃ (f : FileServer) (mm : Mm),
    (machine none).Reachable Lib.Machine.anyStep f ∧ mm.Reachable Mm.anyStep ∧
      Server.Agrees ⟨mm, f.io, Clock.started⟩ f ∧ mm.Running 1 ∧
      (mm.ptable 2).isActive = true ∧ (mm.ptable 2).tid = ⟨0, 1⟩ ∧
      (∀ nullOwner, (Server.received ⟨mm, f.io, Clock.started⟩ 1).deleteProcess nullOwner
        (threadId 1) [2] = none) ∧
      ¬ Server.KillSpares ⟨mm, f.io, Clock.started⟩ 1 2 := by
  -- The second name fills all of `command`, and its zero byte lands in the thread id.
  obtain ⟨mm, -, hmm, hrun, hactive, hzero, hothers⟩ := Mm.exists_runOn Mm.anyStep
    (Mm.Boot.small_ok Nat.two_pos (by decide))
    [.createProcess [115] 0, .createProcess (List.replicate nName 115) 0]
    (fun s => s.Running 1 ∧ (s.ptable 2).isActive = true ∧ (s.ptable 2).tid = ⟨0, 1⟩ ∧
      ∀ p < maxRunningProcess, (s.ptable p).isActive = decide (p < 3) ∧
        (s.ptable p).tid = if p = 1 then threadId p else if p < 3 then ⟨0, 1⟩
          else ⟨p <<< reservedIdBits, 0⟩) (by decide +kernel)
  -- The file server registers the same two, after it has listed and looked up both names.
  obtain ⟨f, -, hfiles, htable⟩ := Lib.Machine.exists_run (machine none) Lib.Machine.anyStep
    (s := (boot ⟨0, 1⟩ zeroedEntry).get rfl) ⟨⟨0, 1⟩, zeroedEntry, (Option.some_get _).symm⟩
    [.nfsReply 1 (listing [shell, List.replicate nName 115]), .nfsReply 1 (okReply 0o700),
      .nfsReply 1 (okReply 0o700), .createProcess 1 (some (namedPage shell)) zeroedEntry,
      .createProcess 2 (some (namedPage (List.replicate nName 115))) zeroedEntry]
    (fun f => ∀ p < maxRunningProcess, f.isActive p = decide (p < 3) ∧
      f.tid p = if p = 1 then threadId p else if p < 3 then ⟨0, 1⟩
        else ⟨p <<< reservedIdBits, 0⟩) (by decide +kernel)
  have hagrees : Server.Agrees ⟨mm, f.io, Clock.started⟩ f := .of_table htable hothers
  -- The kill runs after the call has blocked process 1.
  obtain ⟨φ, hinv, -⟩ := hmm.inv
  have hblocked : Inv φ (Server.received ⟨mm, f.io, Clock.started⟩ 1).mm :=
    hinv.blocked hrun .call
  exact ⟨f, mm, hfiles, hmm, hagrees, hrun, hactive, hzero,
    fun _ => Server.deleteProcess_of_overwritten hblocked (by decide) (by decide) hzero _,
    Server.not_killSpares_of_overwritten hblocked (by decide) (by decide) hzero⟩

end Sos
