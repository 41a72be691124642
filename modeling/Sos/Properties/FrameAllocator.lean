import Mathlib.Data.List.Perm.Subperm
import Sos.Lib.Machine
import Sos.Paging.Reachable

/-!
# `Sos.Properties.FrameAllocator`: any sequence of allocations and frees

`frame_allocator`: after `frame_init`, whatever sequence of `frame_alloc` and `frame_free`
follows, with double frees and with stores to the frames in between, the stack holds exactly
the frames that are not used, each once. `frame_alloc` returns a frame that was not used,
filled with zeroes, or 0 when there is none, and no frame twice without a free in between
(`outstanding`).

`frame_init` counts down on machine words. `frameInitLoop_eq` says that it stops at the lowest
frame, which is not page 0, and does what `frameInit` does.
-/

set_option autoImplicit false

namespace Sos

namespace FrameTable

/-! ### The loop of `frame_init` -/

/-- The loop of `frame_init` on 32-bit words, with the assertion of `bitfield_set`. `none` also
when it has not ended after `fuel` turns. -/
def frameInitLoop (start : Nat) : Nat → FrameTable → Nat → Option FrameTable
  | 0, _, _ => none
  | fuel + 1, ft, frameIter =>
    if frameIter ≥ start then
      if ft.isValidFrameAddress frameIter then
        frameInitLoop start fuel (ft.pushFree frameIter)
          ((frameIter + 2 ^ 32 - pageSize) % 2 ^ 32)
      else none
    else some ft

/-- The loop with `n` frames to go. -/
theorem frameInitLoop_eq {low high : Nat} (hpos : pageSize ≤ low) (haligned : low % pageSize = 0)
    (hhigh : high < 2 ^ 32) (n : Nat) :
    ∀ (fuel : Nat) (ft : FrameTable), n < fuel → ft.start = low → ft.stop = high →
      low + pageSize * n ≤ high →
      frameInitLoop low fuel ft (low + pageSize * n - pageSize) =
        some ((List.range n).foldl
          (fun ft i => ft.pushFree (low + pageSize * n - pageSize * (i + 1))) ft) := by
  induction n with
  | zero =>
      intro fuel ft hfuel hstart hstop hle
      obtain ⟨m, rfl⟩ := Nat.exists_eq_add_of_lt hfuel
      -- Below the lowest frame; page 0 is not managed, so the word has not wrapped.
      have hend : ¬ low + pageSize * 0 - pageSize ≥ low := by
        simp only [pageSize] at *
        omega
      rw [Nat.zero_add, frameInitLoop, if_neg hend]
      rfl
  | succ n ih =>
      intro fuel ft hfuel hstart hstop hle
      obtain ⟨m, rfl⟩ := Nat.exists_eq_add_of_lt hfuel
      have hiter : low + pageSize * (n + 1) - pageSize = low + pageSize * n := by
        simp only [pageSize] at *
        omega
      -- The word arithmetic of the count is that of the numbers, as every frame is above page 0.
      have hnext : (low + pageSize * n + 2 ^ 32 - pageSize) % 2 ^ 32 =
          low + pageSize * n - pageSize := by
        simp only [pageSize] at *
        omega
      have hvalid : ft.isValidFrameAddress (low + pageSize * n) = true := by
        rw [isValidFrameAddress_iff, Valid, hstart, hstop]
        simp only [pageSize] at *
        omega
      have hfirst : low + pageSize * (n + 1) - pageSize * (0 + 1) = low + pageSize * n := by
        simp only [pageSize]
        omega
      have hrest : ∀ i, low + pageSize * (n + 1) - pageSize * (i.succ + 1) =
          low + pageSize * n - pageSize * (i + 1) := by
        intro i
        simp only [pageSize]
        omega
      have hloop := ih (n + m + 1) (ft.pushFree (low + pageSize * n)) (by omega) hstart hstop
        (Nat.le_trans (Nat.add_le_add_left (Nat.mul_le_mul_left _ (Nat.le_succ n)) low) hle)
      -- The highest frame is pushed first, which is the first turn of both loops.
      rw [hiter, show n + 1 + m + 1 = (n + m + 1) + 1 by omega, frameInitLoop,
        if_pos (Nat.le_add_right _ _), if_pos hvalid, hnext, hloop, List.range_succ_eq_map,
        List.foldl_cons, List.foldl_map, hfirst]
      simp only [hrest]

/-- `frame_init` as it counts. -/
def frameInitWords (low high : Nat) (heap : Bitfield) : Option FrameTable :=
  if low < high ∧ (high - low) % pageSize = 0 then
    frameInitLoop low ((high - low) / pageSize + 1)
      { start := low, stop := high, stack := [], bitfield := heap }
      ((high + 2 ^ 32 - pageSize) % 2 ^ 32)
  else none

/-- For whole pages within 32 bits the word arithmetic of `frame_init` does not wrap. -/
theorem frameInitWords_eq {low high : Nat} (hpos : pageSize ≤ low)
    (haligned : low % pageSize = 0) (hhigh : high < 2 ^ 32) (heap : Bitfield) :
    frameInitWords low high heap = frameInit low high heap := by
  unfold frameInitWords frameInit
  by_cases hok : low < high ∧ (high - low) % pageSize = 0
  · have hcount : low + pageSize * ((high - low) / pageSize) = high := by
      simp only [pageSize] at *
      omega
    have hiter : (high + 2 ^ 32 - pageSize) % 2 ^ 32 =
        low + pageSize * ((high - low) / pageSize) - pageSize := by
      rw [hcount]
      simp only [pageSize] at *
      omega
    rw [if_pos hok, if_pos hok, hiter, frameInitLoop_eq hpos haligned hhigh _ _ _
      (Nat.lt_succ_self _) rfl rfl (Nat.le_of_eq hcount)]
    simp only [hcount]
  · rw [if_neg hok, if_neg hok]

/-- The stack has room for all frames. -/
theorem Wf.stack_length_le {ft : FrameTable} (h : ft.Wf)
    (haligned : (ft.stop - ft.start) % pageSize = 0) :
    ft.stack.length ≤ (ft.stop - ft.start) / pageSize := by
  -- The stack has no duplicates, so it is no longer than the list of all frames.
  have hsubset : ft.stack ⊆
      (List.range ((ft.stop - ft.start) / pageSize)).map fun i => ft.start + pageSize * i := by
    intro f hf
    have hvalid := ((h.mem_stack f).mp hf).1
    have hstart := h.start_aligned
    refine List.mem_map.mpr ⟨(f - ft.start) / pageSize, List.mem_range.mpr ?_, ?_⟩
    · simp only [Valid, pageSize] at *
      omega
    · simp only [Valid, pageSize] at *
      omega
  have hle := (List.subperm_of_subset h.nodup hsubset).length_le
  rwa [List.length_map, List.length_range] at hle

end FrameTable

/-! ### Runs -/

inductive FrameAction
  | alloc
  | free (frame : Nat)
  /-- Somebody stores a byte in physical memory. -/
  | store (addr : Nat) (byte : UInt8)

/-- The allocator after `frame_init(low, high)`. -/
def frameMachine (low high : Nat) : Lib.Machine Mm FrameAction where
  init s := ∃ heap, FrameTable.frameInitWords low high heap = some s.frames
  step s
    | .alloc => s.frameAlloc.map (·.1)
    | .free frame => s.frameFree frame
    | .store addr byte => some { s with phys := Function.update s.phys addr byte }

/-- The frames that `frame_alloc` has returned and that have not been freed since. -/
def outstanding (s : Mm) (a : FrameAction) (_ : Mm) (frames : List Nat) : List Nat :=
  match a with
  | .alloc =>
    match s.frameAlloc with
    | some (_, frame) => if frame = 0 then frames else frame :: frames
    | none => frames
  | .free frame => if s.frames.usedBit frame then frames.filter (· ≠ frame) else frames
  | .store _ _ => frames

/-- A frame of the managed range. -/
def IsFrame (low high frame : Nat) : Prop := low ≤ frame ∧ frame < high ∧ frame % pageSize = 0

/-- What the allocator promises in a state, and of its next allocation. -/
structure FramesAccounted (low high : Nat) (s : Mm) (frames : List Nat) : Prop where
  /-- The free frames are on the stack, each once. -/
  nodup : s.frames.stack.Nodup
  stack : ∀ f, f ∈ s.frames.stack ↔ IsFrame low high f ∧ s.frames.usedBit f = false
  count : s.frames.stack.length ≤ (high - low) / pageSize
  /-- No frame is handed out twice. -/
  outstanding : frames.Nodup
  used : ∀ f, f ∈ frames ↔ IsFrame low high f ∧ s.frames.usedBit f = true
  /-- `frame_alloc` returns a frame that is free and outstanding to nobody, filled with zeroes. -/
  alloc : ∃ s' f, s.frameAlloc = some (s', f) ∧
    (f = 0 ↔ ∀ g, IsFrame low high g → s.frames.usedBit g = true) ∧
    (f ≠ 0 → IsFrame low high f ∧ s.frames.usedBit f = false ∧ f ∉ frames ∧
      s'.frames.usedBit f = true ∧ ∀ i < pageSize, s'.phys (f + i) = 0)
  /-- Any frame can be freed, also one that is free. -/
  free : ∀ f, IsFrame low high f → ∃ s', s.frameFree f = some s' ∧ s'.frames.usedBit f = false

/-- The invariant of a run. -/
structure FramesKept (low high : Nat) (s : Mm) (frames : List Nat) : Prop where
  wf : s.frames.Wf
  start : s.frames.start = low
  stop : s.frames.stop = high
  nodup : frames.Nodup
  used : ∀ f, f ∈ frames ↔ s.frames.Used f

namespace FramesKept

variable {low high : Nat} {s s' : Mm} {frames : List Nat}

/-- The managed frames are those between the two addresses. -/
theorem valid_iff (h : FramesKept low high s frames) (f : Nat) :
    s.frames.Valid f ↔ IsFrame low high f := by
  rw [FrameTable.Valid, h.start, h.stop]
  rfl

/-- An allocation when a frame is left. -/
theorem frameAlloc_cons (h : FramesKept low high s frames) {f : Nat} {rest : List Nat}
    (hs : s.frames.stack = f :: rest) :
    ∃ ft, s.frameAlloc =
        some ({ s with frames := ft, phys := memset s.phys f 0 pageSize }, f) ∧
      f ≠ 0 ∧ s.frames.Valid f ∧ ¬ s.frames.Used f ∧ ft.Wf ∧ ft.start = s.frames.start ∧
      ft.stop = s.frames.stop ∧ ∀ g, ft.Used g ↔ s.frames.Used g ∨ g = f := by
  obtain ⟨ft, hft, hwf, hstart, hstop, hvalid, hfree, hused⟩ := h.wf.frameAlloc_spec hs
  have hne : f ≠ 0 := by
    have hpos := h.wf.pos_of_valid hvalid
    simp only [pageSize] at hpos
    omega
  refine ⟨ft, ?_, hne, hvalid, hfree, hwf, hstart, hstop, hused⟩
  simp only [Mm.frameAlloc, hft, Option.bind_eq_bind, Option.bind_some, if_neg hne]

/-- With an empty stack there is no frame. -/
theorem frameAlloc_nil (hs : s.frames.stack = []) : s.frameAlloc = some (s, 0) := by
  simp only [Mm.frameAlloc, FrameTable.Wf.frameAlloc_nil hs, Option.bind_eq_bind,
    Option.bind_some, if_true]

/-- The invariant says where every frame is. -/
theorem accounted (h : FramesKept low high s frames) (haligned : (high - low) % pageSize = 0) :
    FramesAccounted low high s frames where
  nodup := h.wf.nodup
  stack f := by rw [h.wf.mem_stack, h.valid_iff]
  count := by
    have hle := h.wf.stack_length_le (by rw [h.start, h.stop]; exact haligned)
    rwa [h.start, h.stop] at hle
  outstanding := h.nodup
  used f := by rw [h.used, FrameTable.Used, h.valid_iff]
  alloc := by
    cases hs : s.frames.stack with
    | nil =>
        refine ⟨s, 0, frameAlloc_nil hs, iff_of_true rfl ?_, fun hne => absurd rfl hne⟩
        intro g hg
        -- An unused frame would be on the empty stack.
        by_contra hfree
        have hmem := (h.wf.mem_stack g).mpr
          ⟨(h.valid_iff g).mpr hg, Bool.eq_false_iff.mpr hfree⟩
        rw [hs] at hmem
        cases hmem
    | cons f rest =>
        obtain ⟨ft, halloc, hne, hvalid, hfree, -, -, -, hused⟩ := h.frameAlloc_cons hs
        have hbit : s.frames.usedBit f = false :=
          Bool.eq_false_iff.mpr fun hbit => hfree ⟨hvalid, hbit⟩
        have hframe := (h.valid_iff f).mp hvalid
        refine ⟨_, f, halloc, iff_of_false hne fun hall => ?_, fun _ =>
          ⟨hframe, hbit, fun hmem => hfree ((h.used f).mp hmem), ((hused f).mpr (Or.inr rfl)).2, ?_⟩⟩
        · rw [hall f hframe] at hbit
          cases hbit
        · intro i hi
          exact if_pos ⟨Nat.le_add_right _ _, Nat.add_lt_add_left hi f⟩
  free f hf := by
    obtain ⟨ft, hft, -, hstart, hstop, hused⟩ := h.wf.frameFree_spec ((h.valid_iff f).mpr hf)
    refine ⟨{ s with frames := ft }, ?_, ?_⟩
    · simp only [Mm.frameFree, hft, Option.bind_eq_bind, Option.bind_some]
    · refine Bool.eq_false_iff.mpr fun hbit => ?_
      have hvalid : ft.Valid f := by
        rw [FrameTable.Valid, hstart, hstop, h.start, h.stop]
        exact hf
      exact ((hused f).mp ⟨hvalid, hbit⟩).2 rfl

/-- `frame_alloc` moves one frame from the stack to the caller. -/
theorem alloc (h : FramesKept low high s frames) (hs' : s.frameAlloc.map (·.1) = some s') :
    FramesKept low high s' (outstanding s .alloc s' frames) := by
  cases hs : s.frames.stack with
  -- Without a free frame nothing is handed out.
  | nil =>
      have halloc := frameAlloc_nil hs
      simp only [outstanding]
      rw [halloc, Option.map_some, Option.some.injEq] at hs'
      rw [halloc, ← hs']
      exact h
  -- The first free frame leaves the list and joins the frames handed out.
  | cons f rest =>
      obtain ⟨ft, halloc, hne, hvalid, hfree, hwf, hstart, hstop, hused⟩ := h.frameAlloc_cons hs
      simp only [outstanding]
      rw [halloc, Option.map_some, Option.some.injEq] at hs'
      rw [halloc, ← hs']
      dsimp only
      rw [if_neg hne]
      refine ⟨hwf, hstart.trans h.start, hstop.trans h.stop, List.nodup_cons.mpr ⟨?_, h.nodup⟩, ?_⟩
      · exact fun hmem => hfree ((h.used f).mp hmem)
      · intro g
        rw [List.mem_cons, h.used g, hused g, or_comm]

/-- `frame_free` moves it back, or refuses a frame that is free already. -/
theorem free (h : FramesKept low high s frames) {f : Nat} (hs' : s.frameFree f = some s') :
    FramesKept low high s' (outstanding s (.free f) s' frames) := by
  obtain ⟨-, hwf, hstart, hstop, hused⟩ := Mm.frameFree_run h.wf hs'
  simp only [outstanding]
  split
  next hbit =>
    refine ⟨hwf, hstart.trans h.start, hstop.trans h.stop, h.nodup.filter _, fun g => ?_⟩
    rw [List.mem_filter, h.used g, hused g, decide_eq_true_eq]
  next hbit =>
    -- A double free changes nothing.
    refine ⟨hwf, hstart.trans h.start, hstop.trans h.stop, h.nodup, fun g => ?_⟩
    rw [h.used g, hused g]
    refine ⟨fun hg => ⟨hg, ?_⟩, fun hg => hg.1⟩
    rintro rfl
    exact hbit hg.2

end FramesKept

/-- Each of the two calls keeps the invariant. -/
theorem FramesKept.step {low high : Nat} {x x' : Mm × List Nat} {a : FrameAction}
    (h : FramesKept low high x.1 x.2)
    (hs : ((frameMachine low high).withHistory [] outstanding).step x a = some x') :
    FramesKept low high x'.1 x'.2 := by
  obtain ⟨hstep, hrecord⟩ := Lib.Machine.withHistory_step hs
  rw [hrecord]
  cases a with
  | alloc => exact h.alloc hstep
  | free f => exact h.free hstep
  | store addr byte =>
      have hstore : { x.1 with phys := Function.update x.1.phys addr byte } = x'.1 :=
        Option.some.inj hstep
      rw [← hstore]
      exact ⟨h.wf, h.start, h.stop, h.nodup, h.used⟩

/-- After any sequence of allocations, frees and stores, the allocator has accounted for every
frame. -/
theorem frame_allocator {low high : Nat} (hlow : low % pageSize = 0)
    (hhigh : high % pageSize = 0) (hpos : pageSize ≤ low) (hlt : low < high)
    (hword : high < 2 ^ 32) {x : Mm × List Nat}
    (hx : ((frameMachine low high).withHistory [] outstanding).Reachable Lib.Machine.anyStep x) :
    FramesAccounted low high x.1 x.2 := by
  have hkept : FramesKept low high x.1 x.2 := by
    refine hx.invariant (fun x => FramesKept low high x.1 x.2) ?_ fun _ _ _ hI _ hs => hI.step hs
    rintro ⟨s, frames⟩ ⟨⟨heap, hinit⟩, rfl⟩
    obtain ⟨ft, hft, hwf, hstart, hstop, hfree⟩ :=
      FrameTable.wf_frameInit hpos hlt (Nat.le_of_lt hword) hlow hhigh heap
    rw [FrameTable.frameInitWords_eq hpos hlow hword, hft, Option.some.injEq] at hinit
    subst hinit
    exact ⟨hwf, hstart, hstop, List.nodup_nil, fun f => iff_of_false List.not_mem_nil (hfree f)⟩
  refine hkept.accounted ?_
  simp only [pageSize] at *
  omega

/-- A frame table of three frames. -/
def threeFrames : FrameTable :=
  (FrameTable.frameInitWords 0x1000 0x4000 fun _ => 0xFF).get (by decide +kernel)

/-- `frame_init` with three frames. -/
theorem threeFrames_init : FrameTable.frameInitWords 0x1000 0x4000 (fun _ => 0xFF) =
    some threeFrames := by
  rw [threeFrames, Option.some_get]

/-- Two frames are allocated, the first is freed twice, and allocated again. -/
theorem frame_allocator_doubleFree :
    ∃ x : Mm × List Nat, x.2 = [0x1000, 0x2000] ∧ FramesAccounted 0x1000 0x4000 x.1 x.2 := by
  obtain ⟨x, -, hreach, hframes⟩ := Lib.Machine.exists_run
    ((frameMachine 0x1000 0x4000).withHistory [] outstanding) Lib.Machine.anyStep
    (s := ({ (Mm.boot (.small 2)).get Mm.boot_small_two with frames := threeFrames }, []))
    ⟨⟨fun _ => 0xFF, threeFrames_init⟩, rfl⟩
    [.alloc, .alloc, .store 0x1000 0x37, .free 0x1000, .free 0x1000, .alloc]
    (fun x => x.2 = [0x1000, 0x2000]) (by decide +kernel)
  exact ⟨x, hframes, frame_allocator (by decide) (by decide) (by decide) (by decide) (by decide)
    hreach⟩

end Sos
