import Sos.Paging.Calls
import Sos.Paging.Callbacks
import Sos.Paging.Faults

/-!
# `Sos.Paging.Simulation`: every action is a chain of moves

`exec_spec` puts the modules on faults, callbacks and system calls together. An action that
is enabled either runs to its end as a chain of moves that are allowed for it (`Allowed`), or
it fails for one of the two reasons in `Fails`. So no assertion of the memory management
fails in any other way.

`Allowed s a` says which moves the action `a` may make when it starts in `s`: which page it
may map and with which rights, which process it may delete, and so on. The properties of
whole runs are about these labels.
-/

set_option autoImplicit false

namespace Sos

/-- The process an action deletes. -/
def Mm.deletes (s : Mm) : Action → Option Nat
  | .fault p addr access _ =>
    if s.isAccessGranted (threadId p) addr access then none else some p
  | .startProcess p status =>
    if (s.ptable p).initialized = false ∧ status = 0 then some p else none
  | .deleteProcess _ pid => if 0 ≤ pid ∧ s.Live pid.toNat then some pid.toNat else none
  | _ => none

/-- The moves an action may make that starts in `s`. -/
def Allowed (s : Mm) (a : Action) (_ : PageMap) (σ : Mm) : Label → Prop
  | .quiet => True
  | .lose => True
  | .noPage => True
  | .fault p => ∃ addr access env, a = .fault p addr access env
  | .map pg rights => ∃ addr env, a = .fault pg.pid addr rights env ∧ pg.addr = pageAlign addr ∧
      virtualStart ≤ addr ∧ s.isAccessGranted pg.tid addr rights = true ∧
      ∀ q, (s.ptable q).Same (σ.ptable q)
  | .mapPhys p v => ∃ addr access env, a = .fault p addr access env ∧ v = pageAlign addr ∧
      addr < virtualStart ∧ s.isAccessGranted (threadId p) addr access = true ∧
      ∀ q, (s.ptable q).Same (σ.ptable q)
  | .store p addr byte => a = .store p addr byte ∧ addr < addressSpace ∧ σ = s
  | .answer it _ => ∃ k status r, a = .nfsReply k status ∧ s.requests[k]? = some r ∧
      s.findItem r.token = some it ∧ σ = s
  | .release p start stop => (∃ status, a = .startProcess p status) ∧ start = heapStart ∧
      stop = heapEnd ∧ Unmapped s σ
  | .delete p => s.deletes a = some p ∧ Unmapped s σ
  | .register p => (∃ name now, a = .createProcess name now) ∧
      s.allocateProcessEntry.2 = some p ∧ σ = s
  | .start p => (∃ status, a = .startProcess p status ∧ (s.ptable p).initialized = false ∧
      status ≠ 0) ∧ Unmapped s σ

/-- The moves that change what a process finds in its memory. -/
def Label.content : Label → Bool
  | .store _ _ _ => true
  | .release _ _ _ => true
  | .delete _ => true
  | _ => false

/-- The content of memory an action changes. -/
def Mm.effects (s : Mm) : Action → List Label
  | .store p addr byte => [.store p addr byte]
  | .startProcess p status =>
    if (s.ptable p).initialized then []
    else if status ≠ 0 then [.release p heapStart heapEnd]
    else [.delete p]
  | a =>
    match s.deletes a with
    | some p => [.delete p]
    | none => []

/-- The actions on which the server fails: an NFS error that a callback reads, and deleting a
slot whose thread id has been overwritten. -/
def Mm.Fails (s : Mm) : Action → Prop
  | .nfsReply _ status => status ≠ .ok
  | .deleteProcess _ pid =>
    1 ≤ pid ∧ pid < maxRunningProcess ∧ (s.ptable pid.toNat).tid = ⟨0, 1⟩
  | _ => False

/-- A chain of allowed moves that is the whole action. A fault that is left unanswered has
somebody to answer it, unless the server has given up. -/
structure Performs (φ : PageMap) (s : Mm) (a : Action) (ls : List Label) (φ' : PageMap)
    (s' : Mm) : Prop where
  chain : Chain (Allowed s a) φ s ls φ' s'
  effects : ls.filter Label.content = s.effects a
  settled : ∀ p addr access env, a = .fault p addr access env → s'.Live p →
    s'.wait (threadId p) = .fault →
    (∃ id, Serves s'.swappingPages s'.requests (threadId p) id) ∨ Label.lose ∈ ls ∨
      Label.noPage ∈ ls

def Simulates (φ : PageMap) (s : Mm) (a : Action) (s' : Mm) : Prop :=
  ∃ ls φ', Performs φ s a ls φ' s'

/-! ### Chains without content -/

/-- A move that says nothing is not about what is stored. -/
theorem Label.Silent.content {ℓ : Label} (h : ℓ.Silent) : ℓ.content = false := by
  cases ℓ with
  | quiet | lose | noPage => rfl
  | _ => exact h.elim

/-- Every action may make it. -/
theorem Label.Silent.allowed {s σ : Mm} {a : Action} {φ : PageMap} {ℓ : Label} (h : ℓ.Silent) :
    Allowed s a φ σ ℓ := by
  cases ℓ with
  | quiet | lose | noPage => trivial
  | _ => exact h.elim

/-- A chain without such moves leaves nothing to remember. -/
theorem Chain.filter_content {P : PageMap → Mm → Label → Prop} {φ φ' : PageMap} {s s' : Mm}
    {ls : List Label} (h : Chain P φ s ls φ' s')
    (hP : ∀ φ σ ℓ, P φ σ ℓ → ℓ.content = false) : ls.filter Label.content = [] := by
  rw [List.filter_eq_nil_iff]
  intro ℓ hm
  obtain ⟨φ₁, σ, hℓ⟩ := h.label_of ℓ hm
  rw [hP φ₁ σ ℓ hℓ]
  exact Bool.false_ne_true

section

variable {φ φ' : PageMap} {s s' : Mm} {a : Action} {ls : List Label}

/-- A silent chain is one of any action. -/
theorem Chain.allowed (h : Chain (fun _ _ ℓ => ℓ.Silent) φ s ls φ' s') (s₀ : Mm) (a : Action) :
    Chain (Allowed s₀ a) φ s ls φ' s' :=
  h.mono fun _ _ _ hℓ => hℓ.allowed

/-- A silent chain leaves nothing to remember. -/
theorem Chain.silent_content (h : Chain (fun _ _ ℓ => ℓ.Silent) φ s ls φ' s') :
    ls.filter Label.content = [] :=
  h.filter_content fun _ _ _ hℓ => hℓ.content

/-- An action that moves nothing but process-table entries and mappings. -/
theorem Simulates.of_silent (h : Chain (fun _ _ ℓ => ℓ.Silent) φ s ls φ' s')
    (heffects : s.effects a = []) (hfault : ∀ p addr access env, a ≠ .fault p addr access env) :
    Simulates φ s a s' :=
  ⟨ls, φ', h.allowed s a, h.silent_content.trans heffects.symm,
    fun p addr access env ha => absurd ha (hfault p addr access env)⟩

/-- A deletion, between silent moves. -/
theorem Deleted.chain {p : Nat} {s₀ : Mm} (h : Deleted φ s p φ' s')
    (hd : s₀.deletes a = some p) (hu : Unmapped s₀ s) :
    ∃ ls, Chain (Allowed s₀ a) φ s ls φ' s' ∧ ls.filter Label.content = [.delete p] := by
  obtain ⟨σ, σ', ls₁, ls₂, hc₁, hu₁, -, hm, hc₂⟩ := h.moves
  refine ⟨ls₁ ++ ([.delete p] ++ ls₂), (hc₁.allowed s₀ a).append
    ((Chain.single ⟨hd, hu.trans hu₁⟩ hm).append (hc₂.allowed s₀ a)), ?_⟩
  rw [List.filter_append, List.filter_append, hc₁.silent_content, hc₂.silent_content]
  rfl

/-! ### One action at a time -/

/-- A thread that is not disturbed stays idle. -/
theorem Idle.of_undisturbed {p : Nat} (h : Idle s p) (hu : Undisturbed s s') : Idle s' p := by
  refine ⟨?_, fun hp hact => ?_⟩
  · rw [hu.swappingPages, hu.requests]
    exact h.serves
  · rw [(hu.same p).isActive] at hact
    rw [(hu.same p).waitFor]
    exact h.waitFor hp hact

/-- A fault whose answer is sent at once. -/
private theorem simulates_answered {p addr access : Nat} {env : FaultEnv} (reply : List Int)
    (hc : Chain (Allowed s (.fault p addr access env)) φ s ls φ' s')
    (hcontent : ls.filter Label.content = []) (hidle : Idle s' p)
    (hgranted : s.isAccessGranted (threadId p) addr access = true) :
    Simulates φ s (.fault p addr access env) (s'.sendIpcReply (threadId p) 0 reply) := by
  have hreply := hidle.reply (φ := φ') reply
  refine ⟨_, φ', hc.append (hreply.allowed s _), ?_, ?_⟩
  · rw [List.filter_append, hcontent, hreply.silent_content]
    simp [Mm.effects, Mm.deletes, hgranted]
  · rintro q _ _ _ ⟨⟩ _ hw
    have hready : (s'.sendIpcReply (threadId p) 0 reply).wait (threadId p) = .ready :=
      Function.update_self ..
    rw [hready] at hw
    cases hw

/-- `virtualStart` is the start of a page. -/
theorem virtualStart_le_pageAlign {addr : Nat} (h : virtualStart ≤ addr) :
    virtualStart ≤ pageAlign addr := by
  rw [pageAlign_eq]
  simp only [virtualStart, pageSize] at h ⊢
  omega

/-- A page fault that is enabled is handled, as a chain of moves. -/
theorem fault_spec (h : Inv φ s) (hclean : Clean φ) {p addr access : Nat} {env : FaultEnv}
    (hen : s.Enabled (.fault p addr access env)) :
    ∃ s', s.exec (.fault p addr access env) = some s' ∧
      Simulates φ s (.fault p addr access env) s' := by
  obtain ⟨hrun, haddr, -⟩ := hen
  have hidle := h.idle hrun
  let s₁ : Mm := s.block (threadId p) .fault
  have hc₁ : Chain (Allowed s (.fault p addr access env)) φ s [.fault p] φ s₁ :=
    Chain.single ⟨addr, access, env, rfl⟩ (.fault hidle.serves hidle.waitFor)
  have h₁ := hc₁.inv h
  have hidle₁ : Idle s₁ p := ⟨hidle.serves, hidle.waitFor⟩
  by_cases hgranted : s.isAccessGranted (threadId p) addr access = true
  swap
  · -- the process is deleted
    obtain ⟨φ', s', hs', hd⟩ := deleteProcess_live h₁ (threadId p) hrun.1
    have hdeletes : s.deletes (.fault p addr access env) = some p := by
      simp [Mm.deletes, hgranted]
    obtain ⟨ls, hc, hcontent⟩ := hd.chain (a := .fault p addr access env) hdeletes
      (Unmapped.refl s)
    refine ⟨s', ?_, _, φ', hc₁.append hc, ?_, ?_⟩
    · have hgranted₁ : (s.block (threadId p) .fault).isAccessGranted (threadId p) addr access
          = false := Bool.eq_false_iff.mpr hgranted
      simp only [Mm.exec, Mm.pager, hgranted₁, Bool.not_false, if_true, tid2pid_threadId]
      rw [show (s.block (threadId p) .fault).deleteProcess (threadId p) p = _ from hs']
      rfl
    · rw [List.filter_append, hcontent]
      simp only [Mm.effects, hdeletes]
      rfl
    · rintro q _ _ _ ⟨⟩ hlive _
      rw [Mm.Live, LiveIn, hd.gone] at hlive
      exact absurd hlive.2.2.1 Bool.false_ne_true
  have hgranted₁ : (s.block (threadId p) .fault).isAccessGranted (threadId p) addr access = true :=
    hgranted
  by_cases hlow : addr < virtualStart
  · -- below `virtualStart` the page is mapped to itself
    have hv : pageAlign addr < virtualStart := Nat.lt_of_le_of_lt (pageAlign_le addr) hlow
    have hexec : s.exec (.fault p addr access env) = some
        ((s₁.oneToOneMapping (threadId p) addr env).1.sendIpcReply (threadId p) 0 []) := by
      simp only [Mm.exec, Mm.pager, hgranted₁, Bool.not_true, Bool.false_eq_true, if_false,
        if_pos hlow]
      rfl
    rw [hexec]
    refine ⟨_, rfl, ?_⟩
    have hrights : fullyAccessible ≠ 0 := by decide
    simp only [Mm.oneToOneMapping, Mm.mapFpage, if_neg hrights]
    cases env.mapOk with
    | true =>
        have hm : Move φ s₁ (.mapPhys p (pageAlign addr)) φ _ := .mapPhys hv
        refine simulates_answered _ (hc₁.append (Chain.single
          (ℓ := .mapPhys p (pageAlign addr))
          ⟨addr, access, _, rfl, rfl, hlow, hgranted, fun _ => .refl _⟩ hm)) ?_
          ⟨hidle.serves, hidle.waitFor⟩ hgranted
        rfl
    | false =>
        have hm : Move φ s₁ .quiet φ (s₁.unmapFpage (threadId p) (pageAlign addr)) := by
          refine .unmap fun t v => ?_
          by_cases he : t = threadId p ∧ v = pageAlign addr
          · exact Or.inl (if_pos he)
          · exact Or.inr (if_neg he)
        refine simulates_answered _ (hc₁.append ((Chain.quiet hm).allowed s _)) ?_
          ⟨hidle.serves, hidle.waitFor⟩ hgranted
        rfl
  · -- the pager maps the page, or brings it into memory first
    let pg := Page.containing p addr haddr
    obtain ⟨s', r, hs', hfaulted⟩ := virtualMapping_spec s₁ pg addr access env h₁ hclean
      hrun.1 (Function.update_self ..) hidle₁.serves rfl
      (virtualStart_le_pageAlign (Nat.not_lt.mp hlow)) hgranted
    have hmono : ∀ φ σ ℓ, FaultMove s₁ pg access φ σ ℓ →
        Allowed s (.fault p addr access env) φ σ ℓ := by
      rintro φ σ ℓ (hℓ | ⟨rfl, hsame⟩)
      · exact hℓ.allowed
      · exact ⟨addr, env, rfl, rfl, Nat.not_lt.mp hlow, hgranted, hsame⟩
    have hcontent : ∀ φ σ ℓ, FaultMove s₁ pg access φ σ ℓ → ℓ.content = false := by
      rintro φ σ ℓ (hℓ | ⟨rfl, -⟩)
      · exact hℓ.content
      · rfl
    have hs'' : (s.block (threadId p) .fault).virtualMapping (threadId p) addr access env =
        some (s', r) := hs'
    simp only [Mm.exec, Mm.pager, hgranted₁, Bool.not_true, Bool.false_eq_true, if_false,
      if_neg hlow, Option.bind_eq_bind]
    rw [hs'', Option.bind_some]
    cases hfaulted with
    -- The page is mapped, or the mapping has failed: the thread is answered either way.
    | done hr hc hu _ _ =>
        have hsim := simulates_answered [] (hc₁.append (hc.mono hmono))
          (by rw [List.filter_append, hc.filter_content hcontent]; rfl)
          (hidle₁.of_undisturbed hu) hgranted
        rcases hr with rfl | rfl
        · exact ⟨_, rfl, hsim⟩
        · exact ⟨_, rfl, hsim⟩
    -- No answer yet: an item wakes the thread up later, or the server stops with a message.
    | waits hr hc hsame _ _ hs =>
        have hsim : Simulates φ s (.fault p addr access env) s' := by
          refine ⟨_, _, hc₁.append (hc.mono hmono), ?_, ?_⟩
          · rw [List.filter_append, hc.filter_content hcontent]
            simp [Mm.effects, Mm.deletes, hgranted, Label.content]
          · rintro q _ _ _ ⟨⟩ _ _
            exact hs.imp_right (Or.imp (List.mem_append_right _) (List.mem_append_right _))
        rcases hr with rfl | rfl
        · exact ⟨_, rfl, hsim⟩
        · exact ⟨_, rfl, hsim⟩

/-- A store that is enabled is one move. -/
theorem store_spec {p addr : Nat} {byte : UInt8} (hen : s.Enabled (.store p addr byte)) :
    ∃ s', s.exec (.store p addr byte) = some s' ∧ Simulates φ s (.store p addr byte) s' := by
  obtain ⟨hrun, haddr, hcan⟩ := hen
  unfold Mm.canStore at hcan
  split at hcan
  next m hm =>
    have hrights : m.rights &&& writable ≠ 0 := by simpa using hcan
    have hstore : s.storeByte (threadId p) addr byte =
        { s with phys := Function.update s.phys (m.frame + addr % pageSize) byte } := by
      simp only [Mm.storeByte, hm]
    refine ⟨_, rfl, [.store p addr byte], φ, ?_, rfl, nofun⟩
    rw [hstore]
    exact Chain.single (ℓ := .store p addr byte) ⟨rfl, haddr, rfl⟩ (.store hrun.1 hm hrights)
  next => cases hcan

/-- An answer of the NFS server is handled, or it is an error that the server does not survive. -/
theorem nfs_spec (h : Inv φ s) {k : Nat} {status : NfsStatus}
    (hen : s.Enabled (.nfsReply k status)) :
    (∃ s', s.exec (.nfsReply k status) = some s' ∧ Simulates φ s (.nfsReply k status) s') ∨
      (s.Fails (.nfsReply k status) ∧ s.exec (.nfsReply k status) = none) := by
  obtain ⟨r, hr⟩ : ∃ r, s.requests[k]? = some r := ⟨_, List.getElem?_eq_getElem hen⟩
  obtain ⟨it, hit⟩ : ∃ it, s.findItem r.token = some it := by
    obtain ⟨it, hm, hid⟩ := h.queues.owner r (List.mem_of_getElem? hr)
    rw [← Option.isSome_iff_exists, Mm.findItem, List.find?_isSome]
    exact ⟨it, hm, by simpa using hid⟩
  rcases nfsReply_spec h status hr hit with ⟨s', kind, φ', hs', hm⟩ | ⟨hst, hs'⟩
  · exact Or.inl ⟨s', hs', [.answer it kind], φ',
      Chain.single (ℓ := .answer it kind) ⟨k, status, _, rfl, hr, hit, rfl⟩ hm, rfl, nofun⟩
  · exact Or.inr ⟨hst, hs'⟩

/-- `SOS_UNMAP_ALL` is handled. -/
theorem unmapAll_spec (h : Inv φ s) {p : Nat} (hen : s.Enabled (.unmapAll p)) :
    ∃ s', s.exec (.unmapAll p) = some s' ∧ Simulates φ s (.unmapAll p) s' := by
  have hrun : s.Running p := hen
  obtain ⟨hw, hs', hhw, -⟩ := pagerUnmapRange_spec h hrun.1 0 stackTop
  exact ⟨_, hs', .of_silent (Chain.quiet (.unmap hhw)) rfl nofun⟩

/-- `start_process` is handled, also when it ends the process. -/
theorem startProcess_spec (h : Inv φ s) {p : Nat} {status : Int}
    (hen : s.Enabled (.startProcess p status)) :
    ∃ s', s.exec (.startProcess p status) = some s' ∧
      Simulates φ s (.startProcess p status) s' := by
  have hrun : s.Running p := hen
  have hidle := h.idle hrun
  let s₁ : Mm := s.block (threadId p) .call
  -- The thread of the call waits for its answer.
  have hc₁ : Chain (fun _ _ ℓ => ℓ.Silent) φ s [.quiet] φ s₁ := Chain.quiet (hidle.block (by simp))
  have h₁ := hc₁.inv h
  have hidle₁ : Idle s₁ p := ⟨hidle.serves, hidle.waitFor⟩
  have hget : (s₁.getProcess (threadId p)).initialized = (s.ptable p).initialized := by
    rw [Mm.getProcess, tid2pid_threadId]
    rfl
  cases hinit : (s.ptable p).initialized with
  -- A process that has started already is refused.
  | true =>
      rw [hinit] at hget
      refine ⟨s₁.sendIpcReply (threadId p) 0 [-1], ?_,
        .of_silent (hc₁.append (hidle₁.reply [-1])) (by simp [Mm.effects, hinit]) (by simp)⟩
      simp only [Mm.exec, Mm.startProcess]
      rw [hget]
      rfl
  | false =>
      rw [hinit] at hget
      -- Its file could not be loaded: it is deleted; else its initializer is unmapped and it
      -- starts.
      by_cases hstatus : status = 0
      · obtain ⟨φ', s', hs', hd⟩ := deleteProcess_live h₁ (threadId p) hrun.1
        have hdeletes : s.deletes (.startProcess p status) = some p := by
          simp [Mm.deletes, hinit, hstatus]
        obtain ⟨ls, hc, hcontent⟩ := hd.chain (a := .startProcess p status) hdeletes
          (Unmapped.refl s)
        refine ⟨s', ?_, _, φ', (hc₁.allowed s _).append hc, ?_, (by simp)⟩
        · simp only [Mm.exec, Mm.startProcess]
          rw [hget, tid2pid_threadId, if_neg Bool.false_ne_true, if_neg (by simpa using hstatus)]
          rw [show (s.block (threadId p) .call).deleteProcess (threadId p) p = _ from hs']
          rfl
        · rw [List.filter_append, hc₁.silent_content, hcontent]
          simp [Mm.effects, hinit, hstatus]
      -- The chain has two moves that count: the pages of the heap are given up, and the process
      -- starts.
      · obtain ⟨φ', s', hs', σ, σ', ls, hc, hu, -, hm₁, hu', hm₂, -⟩ :=
          startProcess_started h₁ hrun.1 hidle₁ hinit hstatus
        refine ⟨s', ?_, _, φ', (hc₁.allowed s _).append ((hc.allowed s _).append
          ((Chain.single (ℓ := .release p heapStart heapEnd) ⟨⟨status, rfl⟩, rfl, rfl, hu⟩
            hm₁).append
              (Chain.single (ℓ := .start p) ⟨⟨status, rfl, hinit, hstatus⟩, hu'⟩ hm₂))), ?_, (by simp)⟩
        · simp only [Mm.exec]
          rw [show (s.block (threadId p) .call).startProcess (threadId p) status = _ from hs']
          rfl
        · rw [List.filter_append, List.filter_append, hc₁.silent_content, hc.silent_content]
          simp only [Mm.effects, hinit, Bool.false_eq_true, if_false, ne_eq, hstatus,
            not_false_eq_true, if_true]
          rfl

/-- `delete_process` is handled, or its process has an overwritten thread id. -/
theorem deleteProcess_action_spec (h : Inv φ s) {p : Nat} {pid : Int}
    (hen : s.Enabled (.deleteProcess p pid)) :
    (∃ s', s.exec (.deleteProcess p pid) = some s' ∧
      Simulates φ s (.deleteProcess p pid) s') ∨
      (s.Fails (.deleteProcess p pid) ∧ s.exec (.deleteProcess p pid) = none) := by
  have hrun : s.Running p := hen
  have hidle := h.idle hrun
  let s₁ : Mm := s.block (threadId p) .call
  have hc₁ : Chain (fun _ _ ℓ => ℓ.Silent) φ s [.quiet] φ s₁ := Chain.quiet (hidle.block nofun)
  -- The thread of the call waits for its answer.
  have h₁ := hc₁.inv h
  have hidle₁ : Idle s₁ p := ⟨hidle.serves, hidle.waitFor⟩
  cases deleteProcess_spec h₁ (threadId p) pid with
  -- The thread id of the entry is overwritten, so that the server would delete itself.
  | corrupted hpid htid hs =>
      refine Or.inr ⟨⟨hpid.1, hpid.2, htid⟩, ?_⟩
      simp only [Mm.exec]
      rw [show (s.block (threadId p) .call).deleteProcess (threadId p) pid = _ from hs]
      rfl
  -- The pid is that of no process.
  | refused hdead hs =>
      refine Or.inl ⟨s₁.sendIpcReply (threadId p) 0 [-1], ?_,
        .of_silent (hc₁.append (hidle₁.reply [-1])) ?_ nofun⟩
      · simp only [Mm.exec]
        rw [show (s.block (threadId p) .call).deleteProcess (threadId p) pid = _ from hs]
        rfl
      · have hdeletes : s.deletes (.deleteProcess p pid) = none := by
          refine if_neg ?_
          rintro ⟨hpos, hlive⟩
          exact hdead pid.toNat (by omega) hlive
        simp only [Mm.effects, hdeletes]
  -- The process is deleted, and the caller is answered unless it is the same.
  | deleted hpid hlive hs hd =>
      rename_i q φ' s'
      subst hpid
      have hdeletes : s.deletes (.deleteProcess p q) = some q := if_pos ⟨by omega, hlive⟩
      obtain ⟨ls, hc, hcontent⟩ := hd.chain (a := .deleteProcess p q) hdeletes (Unmapped.refl s)
      refine Or.inl ⟨s'.replyWait (threadId p)
        (if threadId p ≠ threadId q then some [(q : Int)] else none), ?_, ?_⟩
      · simp only [Mm.exec]
        rw [show (s.block (threadId p) .call).deleteProcess (threadId p) q = _ from hs]
        rfl
      · have hall := (hc₁.allowed s (.deleteProcess p q)).append hc
        have hfilter : ([Label.quiet] ++ ls).filter Label.content =
            s.effects (.deleteProcess p q) := by
          rw [List.filter_append, hcontent]
          simp only [Mm.effects, hdeletes]
          rfl
        by_cases hpq : p = q
        · rw [if_neg (by simp [hpq])]
          exact ⟨_, φ', hall, hfilter, nofun⟩
        · have hne : threadId p ≠ threadId q := fun he => hpq (threadId_inj he)
          rw [if_pos hne]
          have hreply := (hd.idle p hpq hidle₁).reply (φ := φ') [(q : Int)]
          refine ⟨_, φ', hall.append (hreply.allowed s _), ?_, nofun⟩
          rw [List.filter_append, hfilter, hreply.silent_content, List.append_nil]

/-- `wait_process` is handled: it returns, or the caller waits. -/
theorem waitProcess_spec (h : Inv φ s) {p : Nat} {pid : Int} {stack : Nat → Int}
    (hen : s.Enabled (.waitProcess p pid stack)) :
    ∃ s', s.exec (.waitProcess p pid stack) = some s' ∧
      Simulates φ s (.waitProcess p pid stack) s' := by
  have hrun : s.Running p := hen
  have hidle := h.idle hrun
  let s₁ : Mm := s.block (threadId p) .call
  have hc₁ : Chain (fun _ _ ℓ => ℓ.Silent) φ s [.quiet] φ s₁ := Chain.quiet (hidle.block (by simp))
  have hidle₁ : Idle s₁ p := ⟨hidle.serves, hidle.waitFor⟩
  -- The process begins to wait, for one process or for any.
  have hwait : ∀ t, Simulates φ s (.waitProcess p pid stack)
      (s₁.updateProcess (threadId p) fun P => { P with waitFor := t }) := by
    intro t
    have hm : Move φ s .quiet φ _ :=
      .setWaitFor (p := p) (t := t) (w := .call) hrun.1 hidle.serves (fun _ => rfl) (by simp)
    have hstate : (s₁.updateProcess (threadId p) fun P => { P with waitFor := t }) =
        { s with
          ptable := Function.update s.ptable p { s.ptable p with waitFor := t }
          wait := Function.update s.wait (threadId p) .call } := by
      simp only [Mm.updateProcess, Mm.getProcess, tid2pid_threadId]
      rfl
    rw [hstate]
    exact .of_silent (Chain.quiet hm) rfl (by simp)
  -- Or it is answered at once.
  have hreply : ∀ words, Simulates φ s (.waitProcess p pid stack)
      (s₁.sendIpcReply (threadId p) 0 words) :=
    fun words => .of_silent (hc₁.append (hidle₁.reply words)) rfl (by simp)
  refine ⟨(s₁.waitProcess (threadId p) pid stack).1.replyWait (threadId p)
    (s₁.waitProcess (threadId p) pid stack).2, rfl, ?_⟩
  unfold Mm.waitProcess
  split
  -- Any process; else one that is there, or none.
  · exact hwait _
  · split
    · exact hreply _
    · simp only []
      split
      · exact hreply _
      · exact hwait _

/-- `allocate_process_entry` finds a free slot, or the table is full. -/
theorem allocateProcessEntry_spec (h : Inv φ s) :
    ∃ n, s.allocateProcessEntry = ({ s with nextTask := n }, none) ∨
      ∃ i, s.allocateProcessEntry = ({ s with nextTask := n }, some i) ∧
        1 ≤ i ∧ i < maxRunningProcess ∧ (s.ptable i).isActive = false := by
  unfold Mm.allocateProcessEntry
  split
  next hnext =>
    -- Slot 0 is the server's own, and it is active.
    refine ⟨_, Or.inr ⟨_, rfl, ?_, hnext.1, hnext.2⟩⟩
    rw [Nat.one_le_iff_ne_zero]
    intro hzero
    have hroot := h.tables.root.2.1
    rw [← hzero, hnext.2] at hroot
    cases hroot
  next =>
    -- The source starts at 2 again after the last slot.
    have hptable : (if s.nextTask = maxRunningProcess then { s with nextTask := 2 } else s) =
        { s with nextTask := if s.nextTask = maxRunningProcess then 2 else s.nextTask } := by
      split
      · rfl
      · rfl
    simp only [hptable]
    cases hfind : (List.range' 1 (maxRunningProcess - 1)).find?
        fun i => !(s.ptable i).isActive with
    | none => exact ⟨_, Or.inl rfl⟩
    -- The search from slot 1 on has found a free one.
    | some i =>
        have hmem := List.mem_of_find?_eq_some hfind
        have hfree := List.find?_some hfind
        rw [List.mem_range'_1] at hmem
        refine ⟨_, Or.inr ⟨i, rfl, hmem.1, ?_, by simpa using hfree⟩⟩
        simp only [maxRunningProcess] at hmem ⊢
        omega

/-- The search for a free slot starts behind the last one that was given out, and then at 1. -/
theorem Mm.allocateProcessEntry_snd (s : Mm) : s.allocateProcessEntry.2 =
    if s.nextTask < maxRunningProcess ∧ (s.ptable s.nextTask).isActive = false then
      some s.nextTask
    else (List.range' 1 (maxRunningProcess - 1)).find? fun i => !(s.ptable i).isActive := by
  unfold Mm.allocateProcessEntry
  split
  · rfl
  · split
    · rfl
    · rfl

/-- The entry of a process that is registered in the slot of `P`. -/
def Process.registered (P : Process) (name : List UInt8) (now : Nat) : Process :=
  let tid := if name.length < nName then P.tid else overflowTid P.tid
  { P with
    command := name
    waitFor := nilthread
    startTime := now
    tid := { tid with version := 1 }
    isActive := true
    initialized := false
    pageIndex := some fun _ => none }

/-- A free slot has its own thread number. -/
theorem Inv.free_threadNo (h : Inv φ s) {i : Nat} (h1 : 1 ≤ i) (h2 : i < maxRunningProcess)
    (hfree : (s.ptable i).isActive = false) : (s.ptable i).tid.threadNo = i <<< reservedIdBits := by
  rcases h.tables.entry i h1 h2 with ⟨hno, -⟩ | ⟨hact, -⟩
  · exact hno
  · rw [hfree] at hact
    cases hact

/-- A name that fits leaves the slot its thread id, and one that does not overwrites it. -/
theorem Inv.registered_tid (h : Inv φ s) {i : Nat} (h1 : 1 ≤ i) (h2 : i < maxRunningProcess)
    (hfree : (s.ptable i).isActive = false) (name : List UInt8) (now : Nat) :
    ((s.ptable i).registered name now).tid =
      if name.length < nName then threadId i else ⟨0, 1⟩ := by
  have hno := h.free_threadNo h1 h2 hfree
  by_cases hname : name.length < nName
  · simp only [Process.registered, if_pos hname, hno]
    rfl
  · simp only [Process.registered, if_neg hname, overflowTid, hno, Nat.shiftLeft_eq,
      Nat.mul_mod_left]

/-- `register_process` takes a free slot and writes its entry, or the table is full. -/
theorem registerProcess_spec (h : Inv φ s) (name : List UInt8) (now : Nat) :
    ∃ n, (s.registerProcess name now = ({ s with nextTask := n }, none) ∧
        s.allocateProcessEntry.2 = none) ∨
      ∃ i, s.registerProcess name now =
          ({ s with
            nextTask := n
            ptable := Function.update s.ptable i ((s.ptable i).registered name now) }, some i) ∧
        s.allocateProcessEntry.2 = some i ∧ 1 ≤ i ∧ i < maxRunningProcess ∧
        (s.ptable i).isActive = false := by
  obtain ⟨n, hfull | ⟨i, hs₁, h1, h2, hfree⟩⟩ := allocateProcessEntry_spec h
  · refine ⟨n, Or.inl ⟨?_, by rw [hfull]⟩⟩
    simp only [Mm.registerProcess, hfull]
  · refine ⟨n, Or.inr ⟨i, ?_, by rw [hs₁], h1, h2, hfree⟩⟩
    simp only [Mm.registerProcess, hs₁]
    rfl

/-- `create_process` is handled, whether there is a free slot or not. -/
theorem createProcess_spec (h : Inv φ s) {name : List UInt8} {now : Nat} :
    ∃ s', s.exec (.createProcess name now) = some s' ∧
      Simulates φ s (.createProcess name now) s' := by
  obtain ⟨n, ⟨hs, -⟩ | ⟨i, hs, hslot, h1, h2, hfree⟩⟩ := registerProcess_spec h name now
  · refine ⟨_, ?_, .of_silent (Chain.quiet (.registerFull (n := n))) rfl nofun⟩
    simp only [Mm.exec, hs]
  · have htid : ((s.ptable i).registered name now).tid = threadId i ∨
        ((s.ptable i).registered name now).tid = ⟨0, 1⟩ := by
      rw [h.registered_tid h1 h2 hfree]
      split
      · exact Or.inl rfl
      · exact Or.inr rfl
    have hm : Move φ s (.register i) φ _ :=
      .register (n := n) h1 h2 hfree (P := (s.ptable i).registered name now) rfl htid rfl rfl rfl
    refine ⟨_, ?_, [.register i], φ,
      Chain.single (ℓ := .register i) ⟨⟨name, now, rfl⟩, hslot, rfl⟩ hm, rfl, nofun⟩
    simp only [Mm.exec, hs, Mm.pid2tid, Function.update_self]

/-- Every enabled action is a chain of allowed moves, or fails for a known reason. -/
theorem exec_spec (h : Inv φ s) (hclean : Clean φ) (hen : s.Enabled a) :
    (∃ s', s.exec a = some s' ∧ Simulates φ s a s') ∨ (s.Fails a ∧ s.exec a = none) := by
  cases a with
  | fault p addr access env => exact Or.inl (fault_spec h hclean hen)
  | store p addr byte => exact Or.inl (store_spec hen)
  | nfsReply k status => exact nfs_spec h hen
  | unmapAll p => exact Or.inl (unmapAll_spec h hen)
  | startProcess p status => exact Or.inl (startProcess_spec h hen)
  | deleteProcess p pid => exact deleteProcess_action_spec h hen
  | waitProcess p pid stack => exact Or.inl (waitProcess_spec h hen)
  | createProcess name now => exact Or.inl (createProcess_spec h)

end

end Sos
