import Sos.Paging.Simulation

/-!
# `Sos.Paging.Reachable`: runs from boot

`boot_spec`: after booting no page has memory, and the invariant holds of the page map that
says so. `step_spec`: a step keeps it, for the page map at the end of the action's chain of
moves. `Reachable ok s` says that a run whose steps all satisfy `ok` ends in `s`, and
`Reachable.induction` is the rule the properties of reachable states are proved with.
-/

set_option autoImplicit false

namespace Sos

/-- No page has memory. -/
def PageMap.empty : PageMap := fun _ => .absent

/-- At the start every page is absent. -/
@[simp] theorem PageMap.empty_apply (pg : Page) : PageMap.empty pg = .absent := rfl

namespace Mm

/-- The state after booting: nothing has happened yet. -/
structure Booted (s : Mm) : Prop where
  frames : s.frames.Wf ∧ ∀ f, ¬ s.frames.Used f
  entry : ∀ p, p ≠ 0 → (s.ptable p).isActive = false ∧ (s.ptable p).initialized = false ∧
    (s.ptable p).tid = ⟨p <<< reservedIdBits, 0⟩
  root : tid2pid (s.ptable 0).tid = 0 ∧ (s.ptable 0).isActive = true
  index : ∀ p, (s.ptable p).pageIndex = none
  waitFor : ∀ p, (s.ptable p).waitFor = nilthread
  bits : ∀ i < maxSwapEntries, bitfieldGet s.swapBitfield i = false
  activePages : s.activePages = []
  swappingPages : s.swappingPages = []
  requests : s.requests = []
  hw : ∀ t v, s.hw t v = none
  wait : ∀ t, s.wait t = .ready
  outbox : s.outbox = []

/-- The loop of `swap_init` clears the bits of all slots. -/
theorem bitfieldGet_clear (bitfield : Bitfield) (n : Nat) :
    ∀ i < n, bitfieldGet ((List.range n).foldl (fun b i => bitfieldSet b i false) bitfield) i
      = false := by
  refine Lib.foldl_range_induction (fun n b => ∀ i < n, bitfieldGet b i = false) ?_
    (fun i hi => absurd hi (Nat.not_lt_zero i))
  intro n _ b h i hi
  rw [bitfieldGet_bitfieldSet]
  by_cases he : i = n
  · rw [if_pos he]
  · rw [if_neg he]
    exact h i (by omega)

/-- `process_init` gives each slot its thread id, and the first one to the server. -/
theorem processInit_eq (s : Mm) (rootThread : ThreadId) (now : Nat) :
    s.processInit rootThread now =
      { s with
        nextTask := 1
        ptable := Function.update
          (fun i => { s.ptable i with
            isActive := false
            initialized := false
            pageIndex := none
            size := 0
            startTime := 0
            waitFor := nilthread
            tid := ⟨i <<< reservedIdBits, 0⟩ }) 0
          { initialized := false, isActive := true, command := "[sos]".toUTF8.toList
            tid := rootThread, waitFor := nilthread, size := 0, startTime := now
            pageIndex := none } } := by
  -- The first free slot is slot 0.
  have hpos : 0 < maxRunningProcess := by decide
  simp only [processInit, registerProcess, allocateProcessEntry, hpos, and_self, if_true,
    Function.update_idem, Function.update_self]

/-- The server boots. -/
theorem boot_spec {b : Boot} (hb : b.Ok) : ∃ s, boot b = some s ∧ s.Booted := by
  obtain ⟨frames, hframes, hwf, -, -, hused⟩ := FrameTable.wf_frameInit hb.low_pos hb.low_lt_high
    hb.high_le hb.low_aligned hb.high_aligned b.frameHeap
  simp only [boot, hframes, Option.bind_eq_bind, Option.bind_some, processInit_eq]
  -- What is left are the fields, one by one.
  refine ⟨_, rfl, ⟨hwf, hused⟩, ?_, ?_, ?_, ?_, ?_, rfl, rfl, rfl, fun _ _ => rfl, fun _ => rfl,
    rfl⟩
  -- The slots but that of the server are free.
  · intro p hp
    simp only [Function.update_of_ne hp, and_self]
  · simp only [Function.update_self, hb.rootThread, and_self]
  -- A slot is the server's own, or one that the loop has cleared.
  · intro p
    by_cases hp : p = 0
    · simp only [hp, Function.update_self]
    · simp only [Function.update_of_ne hp]
  · intro p
    by_cases hp : p = 0
    · simp only [hp, Function.update_self]
    · simp only [Function.update_of_ne hp]
  · intro i hi
    simp only [swapInit]
    exact bitfieldGet_clear _ _ i hi

/-- After booting the server implements the empty page map. -/
theorem Booted.inv {s : Mm} (h : s.Booted) : Inv .empty s := by
  have hdead : ∀ p, ¬ LiveIn s.ptable p := by
    rintro p ⟨h1, -, hact, -⟩
    rw [(h.entry p (by omega)).1] at hact
    cases hact
  have hserves : ∀ t id, ¬ Serves s.swappingPages s.requests t id := by
    rintro t id ⟨it, hm, -⟩
    rw [h.swappingPages] at hm
    cases hm
  refine ⟨⟨?_, ?_, ?_, ?_, ?_⟩, ⟨h.frames.1, ?_, ?_⟩, ⟨?_, ?_⟩, ?_, ⟨?_, ?_, ?_⟩⟩
  · intro pg
    rw [Process.pte, h.index]
    rfl
  · exact fun pg hne => absurd rfl hne
  · exact fun p hp => absurd hp (hdead p)
  · intro p h1 _
    obtain ⟨hact, -, htid⟩ := h.entry p (by omega)
    refine Or.inl ⟨by rw [htid], ?_⟩
    rw [hact]
    simp
  · exact ⟨h.root.1, h.root.2, by rw [h.index]; rfl⟩
  · intro f
    refine iff_of_false (h.frames.2 f) ?_
    simp [PageState.frame?]
  · intro pg pg' f hf
    cases hf
  · rintro (pg | id) y b hx
    · cases hx
    · obtain ⟨it, hm, -⟩ := hx
      rw [h.swappingPages] at hm
      cases hm
  · rintro (pg | id) b hx
    · cases hx
    · obtain ⟨it, hm, -⟩ := hx
      rw [h.swappingPages] at hm
      cases hm
  · rw [h.activePages, h.swappingPages, h.requests]
    -- No page is resident, and all the queues are empty.
    refine ⟨List.nodup_nil, ?_, ?_, ?_, ?_, ?_, ?_, ?_, ?_, ?_⟩ <;> simp [PageState.item?]
  · exact fun t id _ hs => absurd hs (hserves t id)
  · exact fun t id _ _ hs => absurd hs (hserves t id)
  · exact fun p _ _ hw => absurd (h.waitFor p) hw

/-- The states a run can reach whose steps all satisfy `ok`. -/
inductive Reachable (ok : Mm → Action → Mm → Prop) : Mm → Prop
  | boot {b : Boot} {s : Mm} (hb : b.Ok) (hs : Mm.boot b = some s) : Reachable ok s
  | step {s s' : Mm} {a : Action} (h : Reachable ok s) (hs : s.step a = some s')
      (hok : ok s a s') : Reachable ok s'

/-- Runs without a condition. -/
def anyStep (_ : Mm) (_ : Action) (_ : Mm) : Prop := True

instance (s : Mm) (a : Action) (s' : Mm) : Decidable (anyStep s a s') :=
  inferInstanceAs (Decidable True)

section

variable (ok : Mm → Action → Mm → Prop) [∀ s a s', Decidable (ok s a s')]

/-- A run whose steps are checked against the condition. -/
def runIf (s : Mm) : List Action → Option Mm
  | [] => some s
  | a :: actions => do
    let s' ← s.step a
    if ok s a s' then s'.runIf actions else none

/-- A checked run from boot. -/
def runOn (b : Boot) (actions : List Action) : Option Mm := do
  let s ← Mm.boot b
  s.runIf ok actions

variable {ok}

/-- A run from a reachable state that is evaluated to its end leads to a reachable state. -/
theorem Reachable.runIf {s s' : Mm} (h : Reachable ok s) {actions : List Action}
    (hs : s.runIf ok actions = some s') : Reachable ok s' := by
  induction actions generalizing s with
  | nil => exact Option.some.inj hs ▸ h
  | cons a actions ih =>
      simp only [Mm.runIf, Option.bind_eq_bind, Option.bind_eq_some_iff] at hs
      obtain ⟨s₁, hs₁, hs⟩ := hs
      split at hs
      next hok => exact ih (h.step hs₁ hok) hs
      next => cases hs

/-- And so does a run from booting on. -/
theorem reachable_runOn {b : Boot} (hb : b.Ok) {actions : List Action} {s : Mm}
    (hs : runOn ok b actions = some s) : Reachable ok s := by
  simp only [runOn, Option.bind_eq_bind, Option.bind_eq_some_iff] at hs
  obtain ⟨s₀, hs₀, hs⟩ := hs
  exact (Reachable.boot hb hs₀).runIf hs

/-- A run that is evaluated to its end. -/
theorem exists_runOn (ok : Mm → Action → Mm → Prop) [∀ s a s', Decidable (ok s a s')] {b : Boot}
    (hb : b.Ok) (actions : List Action) (P : Mm → Prop) [DecidablePred P]
    (h : (runOn ok b actions).any fun s => P s) :
    ∃ s, runOn ok b actions = some s ∧ Reachable ok s ∧ P s := by
  rw [Option.any_eq_true] at h
  obtain ⟨s, hs, hP⟩ := h
  exact ⟨s, hs, reachable_runOn hb hs, of_decide_eq_true hP⟩

end

/-- A machine with a few frames, and nothing in its memory. -/
def Boot.small (frames : Nat) : Boot where
  low := 0x2000000
  high := 0x2000000 + frames * pageSize
  frameHeap := fun _ => 0
  swapHeap := fun _ => 0
  phys := fun _ => 0
  swapFile := fun _ => 0
  rootThread := ⟨0, 1⟩
  now := 0

/-- A small machine has its frames in the range that the server gives out. -/
theorem Boot.small_ok {n : Nat} (h1 : 0 < n) (h2 : n ≤ 1024) :
    (Boot.small n).Ok := by
  refine ⟨?_, ?_, ?_, ?_, ?_, ?_⟩
  · show pageSize ≤ 0x2000000
    decide
  · simp only [Boot.small, pageSize]
    omega
  · simp only [Boot.small, pageSize, addressSpace]
    omega
  · show 0x2000000 % pageSize = 0
    decide
  · simp only [Boot.small, pageSize]
    omega
  · show tid2pid ⟨0, 1⟩ = 0
    decide

/-- A machine with two frames boots. -/
theorem boot_small_two : (boot (.small 2)).isSome = true := by decide +kernel

end Mm

/-- The kernel can map the page, and `malloc` returns zeroes. -/
def FaultEnv.plain : FaultEnv := ⟨nilthread, 0, true⟩

/-- One process touches three pages of its heap. With two frames the first page goes to the
swap file, and the third fault waits for it. -/
def threeFaults : List Action :=
  [.createProcess [115] 0,
    .fault 1 heapStart writable .plain,
    .fault 1 (heapStart + pageSize) writable .plain,
    .fault 1 (heapStart + 2 * pageSize) writable .plain]

namespace Mm

/-- The action begins with an empty outbox. -/
def clear (s : Mm) : Mm := { s with outbox := [] }

end Mm

/-- The invariant does not depend on what has been sent. -/
theorem Inv.clear {φ : PageMap} {s : Mm} (h : Inv φ s) : Inv φ s.clear :=
  h.of_eq rfl rfl rfl rfl rfl rfl rfl rfl

/-- An action that happens is enabled, and begins with an empty outbox. -/
theorem Mm.step_eq_some {s s' : Mm} {a : Action} (hs : s.step a = some s') :
    s.Enabled a ∧ s.clear.exec a = some s' := Option.ite_none_right_eq_some.mp hs

/-- A step is a chain of the moves that are allowed for its action. -/
theorem step_spec {φ : PageMap} {s s' : Mm} {a : Action} (h : Inv φ s) (hclean : Clean φ)
    (hs : s.step a = some s') : s.Enabled a ∧ Simulates φ s.clear a s' := by
  unfold Mm.step at hs
  split at hs
  next hen =>
    refine ⟨hen, ?_⟩
    rcases exec_spec (a := a) h.clear hclean hen with ⟨s₁, hs₁, hsim⟩ | ⟨-, hnone⟩
    · rwa [← Option.some.inj (hs₁.symm.trans hs)]
    · rw [Mm.clear, hs] at hnone
      cases hnone
  next => cases hs

/-- A step can fail for the reasons in `Fails` only. -/
theorem step_total {φ : PageMap} {s : Mm} {a : Action} (h : Inv φ s) (hclean : Clean φ)
    (hen : s.Enabled a) (hfails : ¬ s.Fails a) : ∃ s', s.step a = some s' := by
  rcases exec_spec (a := a) h.clear hclean hen with ⟨s', hs', -⟩ | ⟨hf, -⟩
  · exact ⟨s', by rw [Mm.step, if_pos hen]; exact hs'⟩
  · exact absurd hf (by cases a <;> exact hfails)

namespace Mm.Reachable

variable {ok : Mm → Action → Mm → Prop} {s : Mm}

/-- The rule for reachable states, with the step itself: the property holds after booting, and
every step keeps it. -/
theorem stepInduction (I : PageMap → Mm → Prop) (hboot : ∀ s : Mm, s.Booted → I .empty s)
    (hstep : ∀ φ s a s', Inv φ s → Clean φ → I φ s → s.step a = some s' → ok s a s' →
      ∀ ls φ', Performs φ s.clear a ls φ' s' → I φ' s')
    (h : Reachable ok s) : ∃ φ, Inv φ s ∧ Clean φ ∧ I φ s := by
  induction h with
  | boot hb hs =>
      obtain ⟨s₁, hs₁, hbooted⟩ := boot_spec hb
      obtain rfl := Option.some.inj (hs₁.symm.trans hs)
      exact ⟨.empty, hbooted.inv, nofun, hboot _ hbooted⟩
  | step _ hs hok ih =>
      obtain ⟨φ, hinv, hclean, hI⟩ := ih
      obtain ⟨-, ls, φ', hp⟩ := step_spec hinv hclean hs
      exact ⟨φ', hp.chain.inv hinv.clear, hp.chain.clean hinv.clear hclean,
        hstep _ _ _ _ hinv hclean hI hs hok ls φ' hp⟩

/-- The rule for reachable states: the property holds after booting, and every step keeps
it, along its chain of moves. -/
theorem induction (I : PageMap → Mm → Prop) (hboot : ∀ s : Mm, s.Booted → I .empty s)
    (hstep : ∀ φ s a s', Inv φ s → Clean φ → I φ s → s.Enabled a → ok s a s' →
      ∀ ls φ', Performs φ s.clear a ls φ' s' → I φ' s')
    (h : Reachable ok s) : ∃ φ, Inv φ s ∧ Clean φ ∧ I φ s :=
  h.stepInduction I hboot fun φ s a s' hinv hclean hI hs hok ls φ' hp =>
    hstep φ s a s' hinv hclean hI (step_spec hinv hclean hs).1 hok ls φ' hp

/-- Every reachable state implements a page map. -/
theorem inv (h : Reachable ok s) : ∃ φ, Inv φ s ∧ Clean φ := by
  obtain ⟨φ, hinv, hclean, -⟩ := h.induction (fun _ _ => True) (fun _ _ => trivial)
    fun _ _ _ _ _ _ _ _ _ _ _ _ => trivial
  exact ⟨φ, hinv, hclean⟩

end Mm.Reachable

end Sos
