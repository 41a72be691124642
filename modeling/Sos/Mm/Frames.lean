import Sos.L4
import Sos.Datastructures.Bitfield

/-!
# `Sos.Mm.Frames`: the frame table

`mm/frames.c`: the free frames are on a stack, and a bit field holds one used bit for each
frame of the managed range `[start, stop)`. The C array with its `stack_count` is the list
`stack`, top first. The `memset` of `frame_alloc` needs the physical memory and is in
`Sos.Mm.State`.

`FrameTable.Wf` ties the two halves together: the stack holds every frame whose used bit is
clear, exactly once, and nothing else. `Used` is the other side of it. The three lemmas
`wf_frameInit`, `frameAlloc_spec` and `frameFree_spec` say what each function does to `Wf`
and `Used`. Callers need nothing else about the stack or the bits.
-/

set_option autoImplicit false

namespace Sos

/-- The static variables of `frames.c`. `stop` is its `end`. -/
structure FrameTable where
  start : Nat
  stop : Nat
  stack : List Nat
  bitfield : Bitfield

namespace FrameTable

/-- `is_valid_frame_address`: inside the managed range and at the start of a frame. -/
def isValidFrameAddress (ft : FrameTable) (frame : Nat) : Bool :=
  ft.start ≤ frame && frame < ft.stop && frame % pageSize == 0

/-- The bit of a frame in the bit field. -/
def bitNumber (ft : FrameTable) (frame : Nat) : Nat := (frame - ft.start) / pageSize

/-- `bitfield_get` of `frames.c`. -/
def usedBit (ft : FrameTable) (frame : Nat) : Bool :=
  bitfieldGet ft.bitfield (ft.bitNumber frame)

/-- `bitfield_set` of `frames.c`. -/
def setUsedBit (ft : FrameTable) (frame : Nat) (bit : Bool) : FrameTable :=
  { ft with bitfield := bitfieldSet ft.bitfield (ft.bitNumber frame) bit }

/-- `frame_stack_add`. -/
def frameStackAdd (ft : FrameTable) (frame : Nat) : FrameTable :=
  { ft with stack := frame :: ft.stack }

/-- The body of the loop of `frame_init`: pushes one frame as free. -/
def pushFree (ft : FrameTable) (frame : Nat) : FrameTable :=
  (ft.frameStackAdd frame).setUsedBit frame false

/-- `frame_init`: pushes all frames, the highest first, so that the lowest is on top.
`none` is a failed assertion. `heap` is what `malloc` left in the area of the bit field. -/
def frameInit (low high : Nat) (heap : Bitfield) : Option FrameTable :=
  if low < high ∧ (high - low) % pageSize = 0 then
    some ((List.range ((high - low) / pageSize)).foldl
      (fun ft i => ft.pushFree (high - pageSize * (i + 1)))
      { start := low, stop := high, stack := [], bitfield := heap })
  else none

/-- `frame_alloc`: pops a frame and marks it used; 0 when there is none left. -/
def frameAlloc (ft : FrameTable) : Option (FrameTable × Nat) :=
  match ft.stack with
  | [] => some (ft, 0)
  | frame :: rest =>
    if ft.isValidFrameAddress frame then
      some (({ ft with stack := rest } : FrameTable).setUsedBit frame true, frame)
    else none

/-- `frame_free`: pushes a used frame and clears its bit; a frame that is free already is
left alone (the code prints a warning). -/
def frameFree (ft : FrameTable) (frame : Nat) : Option FrameTable :=
  if ft.isValidFrameAddress frame then
    if ft.usedBit frame then some ((ft.frameStackAdd frame).setUsedBit frame false)
    else some ft
  else none

/-! ### The invariant of the frame table -/

/-- A frame of the managed range. -/
def Valid (ft : FrameTable) (frame : Nat) : Prop :=
  ft.start ≤ frame ∧ frame < ft.stop ∧ frame % pageSize = 0

/-- The frame is marked used. -/
def Used (ft : FrameTable) (frame : Nat) : Prop := ft.Valid frame ∧ ft.usedBit frame = true

/-- The managed range is page aligned and inside the 32-bit space above page 0, and the
stack holds exactly the frames whose used bit is clear, each once. -/
structure Wf (ft : FrameTable) : Prop where
  start_pos : pageSize ≤ ft.start
  start_aligned : ft.start % pageSize = 0
  stop_le : ft.stop ≤ addressSpace
  nodup : ft.stack.Nodup
  mem_stack : ∀ f, f ∈ ft.stack ↔ ft.Valid f ∧ ft.usedBit f = false

/-- The check of the source and the predicate of the proofs. -/
theorem isValidFrameAddress_iff {ft : FrameTable} {f : Nat} :
    ft.isValidFrameAddress f = true ↔ ft.Valid f := by
  simp [isValidFrameAddress, Valid, and_assoc]

/-- Two frames of the range have the same bit only when they are the same frame. -/
theorem bitNumber_inj {ft : FrameTable} {f g : Nat} (h : ft.start % pageSize = 0)
    (hf : ft.Valid f) (hg : ft.Valid g) (he : ft.bitNumber f = ft.bitNumber g) : f = g := by
  simp only [Valid, bitNumber, pageSize] at *
  omega

/-- The used bit of a frame after setting that of another (or the same) one. -/
theorem usedBit_setUsedBit (ft : FrameTable) {f g : Nat} {bit : Bool}
    (h : ft.start % pageSize = 0) (hf : ft.Valid f) (hg : ft.Valid g) :
    (ft.setUsedBit f bit).usedBit g = if g = f then bit else ft.usedBit g := by
  have hn : (ft.setUsedBit f bit).bitNumber g = ft.bitNumber g := rfl
  rw [usedBit, hn, usedBit, setUsedBit, bitfieldGet_bitfieldSet]
  by_cases hgf : g = f
  · simp [hgf]
  · have hne : ft.bitNumber g ≠ ft.bitNumber f := fun he => hgf (bitNumber_inj h hg hf he)
    simp [hgf, hne]

namespace Wf

variable {ft : FrameTable}

/-- A frame is not the null pointer. -/
theorem pos_of_valid (h : ft.Wf) {f : Nat} (hf : ft.Valid f) : pageSize ≤ f :=
  Nat.le_trans h.start_pos hf.1

/-- A frame on the stack is not used. -/
theorem not_used_of_mem (h : ft.Wf) {f : Nat} (hf : f ∈ ft.stack) : ¬ ft.Used f := by
  intro hu
  have := ((h.mem_stack f).mp hf).2
  rw [hu.2] at this
  cases this

/-- `frame_alloc` on an empty stack returns the null pointer. -/
theorem frameAlloc_nil (hs : ft.stack = []) : ft.frameAlloc = some (ft, 0) := by
  simp [frameAlloc, hs]

/-- What `frame_alloc` does when a frame is left: it returns the top of the stack, which was
not used and now is. -/
theorem frameAlloc_spec (h : ft.Wf) {f : Nat} {rest : List Nat} (hs : ft.stack = f :: rest) :
    ∃ ft', ft.frameAlloc = some (ft', f) ∧ ft'.Wf ∧ ft'.start = ft.start ∧
      ft'.stop = ft.stop ∧ ft.Valid f ∧ ¬ ft.Used f ∧
      ∀ g, ft'.Used g ↔ ft.Used g ∨ g = f := by
  have hmem : f ∈ ft.stack := by simp [hs]
  have hval : ft.Valid f := ((h.mem_stack f).mp hmem).1
  -- The frame is on the stack once, so that the rest of it stays free.
  have hnd : (f :: rest).Nodup := hs ▸ h.nodup
  have hbit : ∀ g, ft.Valid g →
      (({ ft with stack := rest } : FrameTable).setUsedBit f true).usedBit g
        = if g = f then true else ft.usedBit g :=
    fun g hg => usedBit_setUsedBit { ft with stack := rest } h.start_aligned hval hg
  refine ⟨({ ft with stack := rest } : FrameTable).setUsedBit f true, ?_, ?_, rfl, rfl, hval,
    h.not_used_of_mem hmem, ?_⟩
  · simp only [frameAlloc, hs]
    rw [if_pos (isValidFrameAddress_iff.mpr hval)]
  · refine ⟨h.start_pos, h.start_aligned, h.stop_le, (List.nodup_cons.mp hnd).2, ?_⟩
    intro g
    have hg := h.mem_stack g
    rw [hs, List.mem_cons] at hg
    constructor
    · intro hr
      have hvg : ft.Valid g := (hg.mp (Or.inr hr)).1
      have hne : g ≠ f := by
        rintro rfl
        exact (List.nodup_cons.mp hnd).1 hr
      exact ⟨hvg, by rw [hbit g hvg, if_neg hne]; exact (hg.mp (Or.inr hr)).2⟩
    · rintro ⟨hvg, hb⟩
      have hvg' : ft.Valid g := hvg
      rw [hbit g hvg'] at hb
      by_cases hne : g = f
      · simp [hne] at hb
      · rw [if_neg hne] at hb
        exact (hg.mpr ⟨hvg', hb⟩).resolve_left hne
  · intro g
    constructor
    · rintro ⟨hvg, hb⟩
      have hvg' : ft.Valid g := hvg
      rw [hbit g hvg'] at hb
      by_cases hne : g = f
      · exact Or.inr hne
      · rw [if_neg hne] at hb
        exact Or.inl ⟨hvg', hb⟩
    · rintro (hu | rfl)
      · refine ⟨hu.1, ?_⟩
        rw [hbit g hu.1, hu.2]
        simp
      · refine ⟨hval, ?_⟩
        rw [hbit g hval, if_pos rfl]

/-- What `frame_free` does to a frame of the range: afterwards exactly that frame is no
longer used. -/
theorem frameFree_spec (h : ft.Wf) {f : Nat} (hf : ft.Valid f) :
    ∃ ft', ft.frameFree f = some ft' ∧ ft'.Wf ∧ ft'.start = ft.start ∧ ft'.stop = ft.stop ∧
      ∀ g, ft'.Used g ↔ ft.Used g ∧ g ≠ f := by
  have hva := isValidFrameAddress_iff.mpr hf
  cases hu : ft.usedBit f with
  -- A frame that is free already is not put on the stack again.
  | false =>
      refine ⟨ft, ?_, h, rfl, rfl, ?_⟩
      · simp [frameFree, hva, hu]
      · intro g
        constructor
        · intro hg
          refine ⟨hg, ?_⟩
          rintro rfl
          exact Bool.false_ne_true (hu.symm.trans hg.2)
        · exact fun hg => hg.1
  -- Its bit is cleared, and it is on top of the stack.
  | true =>
      have hbit : ∀ g, ft.Valid g →
          ((ft.frameStackAdd f).setUsedBit f false).usedBit g
            = if g = f then false else ft.usedBit g :=
        fun g hg => usedBit_setUsedBit (ft.frameStackAdd f) h.start_aligned hf hg
      have hnot : f ∉ ft.stack := by
        intro hmem
        have := ((h.mem_stack f).mp hmem).2
        rw [hu] at this
        cases this
      refine ⟨(ft.frameStackAdd f).setUsedBit f false, ?_, ?_, rfl, rfl, ?_⟩
      · simp [frameFree, hva, hu]
      · refine ⟨h.start_pos, h.start_aligned, h.stop_le, List.nodup_cons.mpr ⟨hnot, h.nodup⟩, ?_⟩
        intro g
        show g ∈ f :: ft.stack ↔ ft.Valid g ∧ _
        rw [List.mem_cons, h.mem_stack g]
        constructor
        · rintro (rfl | ⟨hvg, hb⟩)
          · exact ⟨hf, by rw [hbit g hf, if_pos rfl]⟩
          · refine ⟨hvg, ?_⟩
            rw [hbit g hvg, hb]
            simp
        · rintro ⟨hvg, hb⟩
          rw [hbit g hvg] at hb
          by_cases hgf : g = f
          · exact Or.inl hgf
          · rw [if_neg hgf] at hb
            exact Or.inr ⟨hvg, hb⟩
      · intro g
        constructor
        · rintro ⟨hvg, hb⟩
          have hvg' : ft.Valid g := hvg
          rw [hbit g hvg'] at hb
          by_cases hgf : g = f
          · simp [hgf] at hb
          · rw [if_neg hgf] at hb
            exact ⟨⟨hvg', hb⟩, hgf⟩
        · rintro ⟨hug, hgf⟩
          exact ⟨hug.1, by rw [hbit g hug.1, if_neg hgf]; exact hug.2⟩

end Wf

/-- The state of the loop of `frame_init` when the frames from `next` on are pushed: they
are the stack, each once, and their bits are clear. -/
structure InitLoop (low high next : Nat) (ft : FrameTable) : Prop where
  start_eq : ft.start = low
  stop_eq : ft.stop = high
  nodup : ft.stack.Nodup
  mem_stack : ∀ f, f ∈ ft.stack ↔ ft.Valid f ∧ next ≤ f
  free : ∀ f ∈ ft.stack, ft.usedBit f = false

/-- One turn of the loop of `frame_init`: the next frame below the ones already pushed. -/
private theorem InitLoop.pushFree {low high next frame : Nat} {ft : FrameTable}
    (h : InitLoop low high next ft) (hlow : low % pageSize = 0) (hf : frame % pageSize = 0)
    (hle : low ≤ frame) (hnext : frame + pageSize = next) (hhigh : next ≤ high) :
    InitLoop low high frame (ft.pushFree frame) := by
  -- The frame is one below those that are on the stack already.
  have hframe : ft.Valid frame := by
    refine ⟨by rw [h.start_eq]; exact hle, ?_, hf⟩
    rw [h.stop_eq]
    simp only [pageSize] at hnext
    omega
  -- The stack holds frames from `next` on.
  have hnot : frame ∉ ft.stack := by
    rw [h.mem_stack]
    simp only [pageSize] at hnext
    omega
  refine ⟨h.start_eq, h.stop_eq, List.nodup_cons.mpr ⟨hnot, h.nodup⟩, ?_, ?_⟩
  · intro f
    show f ∈ frame :: ft.stack ↔ ft.Valid f ∧ frame ≤ f
    rw [List.mem_cons, h.mem_stack]
    constructor
    · rintro (rfl | ⟨hv, hb⟩)
      · exact ⟨hframe, Nat.le_refl _⟩
      · exact ⟨hv, by omega⟩
    · rintro ⟨hv, hb⟩
      have hal := hv.2.2
      -- From `frame` on there is `frame` itself and what was there from `next` on.
      by_cases hff : f = frame
      · exact Or.inl hff
      · refine Or.inr ⟨hv, ?_⟩
        simp only [pageSize] at hnext hal hf
        omega
  · intro f hmem
    have hmem' : f = frame ∨ f ∈ ft.stack := List.mem_cons.mp hmem
    have hvf : ft.Valid f := by
      rcases hmem' with rfl | hm
      · exact hframe
      · exact ((h.mem_stack f).mp hm).1
    show ((ft.frameStackAdd frame).setUsedBit frame false).usedBit f = false
    -- The bit of the new frame is cleared, and the others are as they were.
    rw [usedBit_setUsedBit (ft.frameStackAdd frame) (h.start_eq ▸ hlow) hframe hvf]
    by_cases hff : f = frame
    · simp [hff]
    · rw [if_neg hff]
      exact h.free f (hmem'.resolve_left hff)

/-- `frame_init` over a page-aligned range: the frame table is well formed and every frame
is free. -/
theorem wf_frameInit {low high : Nat} (hpos : pageSize ≤ low) (hlt : low < high)
    (hle : high ≤ addressSpace) (hlow : low % pageSize = 0) (hhigh : high % pageSize = 0)
    (heap : Bitfield) :
    ∃ ft, frameInit low high heap = some ft ∧ ft.Wf ∧ ft.start = low ∧ ft.stop = high ∧
      ∀ f, ¬ ft.Used f := by
  -- The loop counts down from the end: after `n` turns the last `n` frames are on the stack.
  have loop : ∀ n, low + pageSize * n ≤ high →
      InitLoop low high (high - pageSize * n) ((List.range n).foldl
        (fun ft i => ft.pushFree (high - pageSize * (i + 1)))
        { start := low, stop := high, stack := [], bitfield := heap }) := by
    intro n
    induction n with
    | zero =>
        intro _
        refine ⟨rfl, rfl, List.nodup_nil, ?_, ?_⟩
        · intro f
          simp only [List.range_zero, List.foldl_nil, List.not_mem_nil, false_iff, Valid]
          omega
        · simp
    | succ n ih =>
        intro hn
        rw [List.range_succ, List.foldl_append]
        have hmul : pageSize * (n + 1) = pageSize * n + pageSize := Nat.mul_succ _ _
        refine (ih (by omega)).pushFree hlow ?_ (by omega) (by omega) (by omega)
        rw [hmul]
        simp only [pageSize] at *
        omega
  -- The range is a whole number of frames, so that the loop ends at its beginning.
  have hmod : (high - low) % pageSize = 0 := by
    simp only [pageSize] at *
    omega
  have hcount : low + pageSize * ((high - low) / pageSize) = high := by
    simp only [pageSize] at *
    omega
  have hend : high - pageSize * ((high - low) / pageSize) = low := by omega
  obtain ⟨ft, hinit, h⟩ : ∃ ft, frameInit low high heap = some ft ∧ InitLoop low high low ft := by
    refine ⟨_, if_pos ⟨hlt, hmod⟩, ?_⟩
    have := loop ((high - low) / pageSize) (by omega)
    rwa [hend] at this
  -- At the end every frame is on the stack.
  have hfree : ∀ f, ft.Valid f → f ∈ ft.stack := by
    intro f hv
    have hs := hv.1
    rw [h.start_eq] at hs
    exact (h.mem_stack f).mpr ⟨hv, hs⟩
  refine ⟨ft, hinit, ?_, h.start_eq, h.stop_eq, ?_⟩
  · refine ⟨by rw [h.start_eq]; exact hpos, by rw [h.start_eq]; exact hlow,
      by rw [h.stop_eq]; exact hle, h.nodup, ?_⟩
    intro f
    exact ⟨fun hf => ⟨((h.mem_stack f).mp hf).1, h.free f hf⟩, fun hf => hfree f hf.1⟩
  · rintro f ⟨hv, hu⟩
    rw [h.free f (hfree f hv)] at hu
    cases hu

end FrameTable

end Sos
