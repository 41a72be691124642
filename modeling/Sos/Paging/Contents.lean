import Sos.Paging.Simulation

/-!
# `Sos.Paging.Contents`: the bytes of the pages

The page map says where a page is. Here it is said what is there: `Contents φ μ s` means that
the bytes which the processes have in their memory (`Memory`) are in the frames and in the slots
of the swap file that `φ` names. A page that is being read back is in its slot, and the batches
that have arrived are in its frame too. A clean page is in its frame and in its slot.

`Move.contents` is one lemma for all moves: a store changes a byte of the page it is for, the
pages of a process that ends are gone, and otherwise memory stays. There are two conditions on a
move. A store must reach the page that it is for, or a frame that no page is in. And when a page
has been written out and leaves its frame, the slot must hold what the frame holds (`Returned`),
which is not always so: the bytes were taken when the requests were sent.
-/

set_option autoImplicit false

namespace Sos

/-- What the processes have in their memory. -/
abbrev Memory : Type := Nat → Nat → UInt8

namespace Memory

/-- The bytes of a page. -/
def page (μ : Memory) (pg : Page) : Nat → UInt8 := fun i => μ pg.pid (pg.addr + i)

/-- A process stores a byte. Below `virtualStart` there are no pages. -/
def store (μ : Memory) (p addr : Nat) (byte : UInt8) : Memory :=
  if addr < virtualStart then μ else fun q a => if q = p ∧ a = addr then byte else μ q a

/-- Pages of a process are gone. -/
def clear (μ : Memory) (p : Nat) (inRange : Nat → Bool) : Memory :=
  fun q a => if q = p ∧ inRange (pageAlign a) = true then 0 else μ q a

/-- A store changes one byte of one page. -/
theorem page_store {μ : Memory} {p addr : Nat} {byte : UInt8} (hv : virtualStart ≤ addr)
    (pg : Page) {i : Nat} (hi : i < pageSize) : (μ.store p addr byte).page pg i =
      if (pg.pid = p ∧ pg.addr = pageAlign addr) ∧ i = addr % pageSize then byte
        else μ.page pg i := by
  have hiff : pg.addr + i = addr ↔ pg.addr = pageAlign addr ∧ i = addr % pageSize := by
    have hal := pg.aligned
    rw [pageAlign_eq]
    simp only [pageSize] at hi hal ⊢
    omega
  simp only [page, store, if_neg (Nat.not_lt.mpr hv), hiff, and_assoc]

/-- The bytes of a page are in that page. -/
theorem pageAlign_add {pg : Page} {i : Nat} (hi : i < pageSize) :
    pageAlign (pg.addr + i) = pg.addr := by
  have hal := pg.aligned
  rw [pageAlign_eq]
  simp only [pageSize] at hi hal ⊢
  omega

/-- A page in the range that is cleared has zeroes. -/
theorem page_clear_of {μ : Memory} {p : Nat} {inRange : Nat → Bool} {pg : Page}
    (h : InRange p inRange pg) {i : Nat} (hi : i < pageSize) :
    (μ.clear p inRange).page pg i = 0 := by
  simp only [page, clear, pageAlign_add hi]
  exact if_pos h

/-- A page outside the range keeps its bytes. -/
theorem page_clear_of_not {μ : Memory} {p : Nat} {inRange : Nat → Bool} {pg : Page}
    (h : ¬ InRange p inRange pg) {i : Nat} (hi : i < pageSize) :
    (μ.clear p inRange).page pg i = μ.page pg i := by
  simp only [page, clear, pageAlign_add hi]
  exact if_neg h

end Memory

/-- The memory after a move. -/
def Label.remember (μ : Memory) : Label → Memory
  | .store p addr byte => μ.store p addr byte
  | .release p low high => μ.clear p (between low high)
  | .delete p => μ.clear p fun _ => true
  | .quiet | .fault _ | .map .. | .mapPhys .. | .answer .. | .lose | .noPage | .register _
  | .start _ => μ

/-- Most moves are not about what a process has stored. -/
theorem Label.remember_of_not_content {ℓ : Label} (h : ℓ.content = false) (μ : Memory) :
    ℓ.remember μ = μ := by
  cases ℓ with
  | store | release | delete => cases h
  | quiet | fault | map | mapPhys | answer | lose | noPage | register | start => rfl

/-! ### The bytes of one page -/

def InFrame (phys : Nat → UInt8) (f : Nat) (bytes : Nat → UInt8) : Prop :=
  ∀ i < pageSize, phys (f + i) = bytes i

def InSlot (file : Int → UInt8) (b : Nat) (bytes : Nat → UInt8) : Prop :=
  ∀ i < pageSize, file (b + i) = bytes i

/-- The bytes of a page are where its state says. -/
def PageState.Contents (phys : Nat → UInt8) (file : Int → UInt8) (bytes : Nat → UInt8) :
    PageState → Prop
  | .absent => ∀ i < pageSize, bytes i = 0
  | .swapped b => InSlot file b bytes
  | .resident f _ .pinned => InFrame phys f bytes
  | .resident f d (.active it) => InFrame phys f bytes ∧
    (d = false → ∃ b, it.slot = some b ∧ InSlot file b bytes)
  | .resident f _ (.writing _) => InFrame phys f bytes
  | .resident f _ (.reading it) => (∃ b, it.slot = some b ∧ InSlot file b bytes) ∧
    ∀ i < pageSize, (i : Int) < it.toSwap → phys (f + i) = bytes i

section

variable {phys phys' : Nat → UInt8} {file file' : Int → UInt8} {bytes bytes' : Nat → UInt8}

/-- What is in a frame stays there as long as no byte of the frame changes. -/
theorem InFrame.congr {f : Nat} (h : InFrame phys f bytes)
    (heq : ∀ i < pageSize, phys' (f + i) = phys (f + i)) : InFrame phys' f bytes :=
  fun i hi => (heq i hi).trans (h i hi)

/-- What is in a slot stays there as long as no byte of the slot changes. -/
theorem InSlot.congr {b : Nat} (h : InSlot file b bytes)
    (heq : ∀ i < pageSize, file' (b + i) = file (b + i)) : InSlot file' b bytes :=
  fun i hi => (heq i hi).trans (h i hi)

namespace PageState.Contents

variable {st : PageState}

/-- Only the frame and the slot of a page matter. -/
theorem mono (h : st.Contents phys file bytes)
    (hphys : ∀ f, st.frame? = some f → ∀ i < pageSize, phys' (f + i) = phys (f + i))
    (hfile : ∀ b, st.slot? = some b → ∀ i < pageSize, file' (b + i) = file (b + i)) :
    st.Contents phys' file' bytes := by
  rcases st with _ | b | ⟨f, d, _ | it | it | it⟩
  · exact h
  · exact InSlot.congr h (hfile b rfl)
  · exact InFrame.congr h (hphys f rfl)
  · refine ⟨InFrame.congr h.1 (hphys f rfl), fun hd => ?_⟩
    obtain ⟨b, hb, hslot⟩ := h.2 hd
    exact ⟨b, hb, hslot.congr (hfile b hb)⟩
  · exact InFrame.congr h (hphys f rfl)
  · obtain ⟨⟨b, hb, hslot⟩, hread⟩ := h
    refine ⟨⟨b, hb, hslot.congr (hfile b hb)⟩, fun i hi hlt => ?_⟩
    exact (hphys f rfl i hi).trans (hread i hi hlt)

/-- Only the bytes of the page itself count. -/
theorem of_bytes (h : st.Contents phys file bytes) (heq : ∀ i < pageSize, bytes' i = bytes i) :
    st.Contents phys file bytes' := by
  have hframe (f : Nat) (hf : InFrame phys f bytes) : InFrame phys f bytes' :=
    fun i hi => (hf i hi).trans (heq i hi).symm
  have hslot (b : Nat) (hb : InSlot file b bytes) : InSlot file b bytes' :=
    fun i hi => (hb i hi).trans (heq i hi).symm
  rcases st with _ | b | ⟨f, d, _ | it | it | it⟩
  · exact fun i hi => (heq i hi).trans (h i hi)
  · exact hslot b h
  · exact hframe f h
  · refine ⟨hframe f h.1, fun hd => ?_⟩
    obtain ⟨b, hb, hin⟩ := h.2 hd
    exact ⟨b, hb, hslot b hin⟩
  · exact hframe f h
  · obtain ⟨⟨b, hb, hin⟩, hread⟩ := h
    exact ⟨⟨b, hb, hslot b hin⟩, fun i hi hlt => (hread i hi hlt).trans (heq i hi).symm⟩

/-- Flags of an item do not matter. -/
theorem mapSwapping {p : Nat} {inRange : Nat → Bool} (h : st.Contents phys file bytes) :
    (st.mapSwapping (Mm.cancelItem (threadId p) inRange)).Contents phys file bytes := by
  rcases st with _ | b | ⟨f, d, _ | it | it | it⟩
  · exact h
  · exact h
  · exact h
  · exact h
  · exact h
  · obtain ⟨⟨b, hb, hslot⟩, hread⟩ := h
    refine ⟨⟨b, ?_, hslot⟩, fun i hi hlt => hread i hi ?_⟩
    · simpa [PageQueueItem.slot] using hb
    · simpa using hlt

/-- A page that is in its frame as a whole. -/
theorem inFrame (h : st.Contents phys file bytes) {f : Nat} {d : Bool} {hold : Hold}
    (hst : st = .resident f d hold) (hnot : ∀ it, hold ≠ .reading it) : InFrame phys f bytes := by
  subst hst
  rcases hold with _ | it | it | it
  · exact h
  · exact h.1
  · exact h
  · exact absurd rfl (hnot it)

/-- A dirty page is in its frame. -/
theorem of_inFrame {f : Nat} {hold : Hold} (h : InFrame phys f bytes)
    (hnot : ∀ it, hold ≠ .reading it) :
    (PageState.resident f true hold).Contents phys file bytes := by
  rcases hold with _ | it | it | it
  · exact h
  · exact ⟨h, nofun⟩
  · exact h
  · exact absurd rfl (hnot it)

end PageState.Contents

end

/-! ### All pages -/

/-- The frames and the slots hold what the processes have in their memory. -/
def Contents (φ : PageMap) (μ : Memory) (s : Mm) : Prop :=
  ∀ pg, (φ pg).Contents s.phys s.swapFile (μ.page pg)

section

variable {φ φ' : PageMap} {μ μ' : Memory} {s s' : Mm} {pg pg' : Page} {st : PageState}

/-- When one page changes its state, it is enough to look at this page, and at the bytes of the
others. -/
theorem Contents.update (h : st.Contents s'.phys s'.swapFile (μ'.page pg))
    (hother : ∀ pg' ≠ pg, (φ pg').Contents s'.phys s'.swapFile (μ'.page pg')) :
    Contents (Function.update φ pg st) μ' s' := by
  intro pg'
  by_cases he : pg' = pg
  · rw [he, Function.update_self]
    exact h
  · rw [Function.update_of_ne he]
    exact hother pg' he

/-- Two pages have frames that do not overlap. -/
theorem Inv.frame_apart (h : Inv φ s) (hne : pg' ≠ pg) {f g : Nat}
    (hf : (φ pg).frame? = some f) (hg : (φ pg').frame? = some g) :
    g + pageSize ≤ f ∨ f + pageSize ≤ g := by
  have hfg : g ≠ f := by
    rintro rfl
    exact hne (h.frames.unique _ _ _ hg hf)
  have hf' := ((h.ok pg).frame f hf).1
  have hg' := ((h.ok pg').frame g hg).1
  simp only [pageSize] at hf' hg' ⊢
  omega

/-- The slot of a page does not overlap that of another holder. -/
theorem Inv.slot_apart (h : Inv φ s) {x : Holder} (hne : x ≠ .page pg') {b c : Nat}
    (hb : Holds φ s.swappingPages x b) (hc : (φ pg').slot? = some c) :
    c + pageSize ≤ b ∨ b + pageSize ≤ c := by
  have hbc : c ≠ b := by
    rintro rfl
    exact hne (h.slots.unique x (.page pg') c hb hc)
  have hb' := (h.slots.valid x b hb).1
  have hc' := (h.slots.valid (.page pg') c hc).1
  simp only [pageSize] at hb' hc' ⊢
  omega

/-- Bytes of a frame change. -/
theorem Contents.fill (h : Contents φ μ s) (hinv : Inv φ' s') (hφ : φ' pg' = φ pg')
    (hne : pg' ≠ pg) {f : Nat} (hf : (φ' pg).frame? = some f) {phys : Nat → UInt8}
    (hphys : ∀ a, a < f ∨ f + pageSize ≤ a → phys a = s.phys a) :
    (φ pg').Contents phys s.swapFile (μ.page pg') := by
  refine (h pg').mono (fun g hg k hk => hphys _ ?_) fun _ _ _ _ => rfl
  rw [← hφ] at hg
  have hapart := hinv.frame_apart hne hf hg
  omega

/-- `memset` does not write outside its range. -/
theorem memset_of_not {mem : Nat → UInt8} {dest count a : Nat} {value : UInt8}
    (h : a < dest ∨ dest + count ≤ a) : memset mem dest value count a = mem a :=
  if_neg (by omega)

/-- `memset` writes its value to each byte of the range. -/
theorem memset_apply {mem : Nat → UInt8} {dest count i : Nat} {value : UInt8} (h : i < count) :
    memset mem dest value count (dest + i) = value :=
  if_pos ⟨Nat.le_add_right _ _, Nat.add_lt_add_left h _⟩

/-- `memcpy` does not write outside its destination. -/
theorem memcpy_of_not {mem data : Nat → UInt8} {dest count a : Nat}
    (h : a < dest ∨ dest + count ≤ a) : memcpy mem dest data count a = mem a :=
  if_neg (by omega)

/-- A batch that is read goes into the frame of its page. -/
theorem Reading.memcpy_of_not {it : PageQueueItem} {requests : List SwapRequest}
    (h : Reading it requests) {mem data : Nat → UInt8} {f a : Nat}
    (ha : a < f ∨ f + pageSize ≤ a) :
    memcpy mem (f + it.toSwap.toNat) data batchSize a = mem a := by
  obtain ⟨k, hk, hlt⟩ := h.batch
  simp only [pageSize, batchSize] at hk hlt ha
  refine Sos.memcpy_of_not ?_
  simp only [batchSize]
  omega

/-- An item that is being swapped has a slot. -/
theorem Inv.slot_of_swapping (h : Inv φ s) {it : PageQueueItem} (hit : it ∈ s.swappingPages) :
    ∃ b : Nat, it.swapOffset = b ∧ it.slot = some b := by
  obtain ⟨b, hb⟩ := Int.eq_ofNat_of_zero_le (h.queues.slot it hit)
  exact ⟨b, hb, PageQueueItem.slot_eq_some.mpr hb⟩

/-- The requests of an item are for the batches of its slot. -/
theorem Writing.offset {it : PageQueueItem} {l₁ l₂ : List SwapRequest} {offset : Int}
    {data : Nat → UInt8} (h : Writing it (l₁ ++ .write it.id offset data :: l₂)) :
    ∃ i < pageSize / batchSize, offset = it.swapOffset + (i * batchSize : Nat) := by
  have hmem : SwapRequest.write it.id offset data ∈
      pending (l₁ ++ .write it.id offset data :: l₂) it.id := by
    simp [pending, SwapRequest.token]
  obtain ⟨i, data', hi, heq⟩ := h.write _ hmem
  cases heq
  exact ⟨i, hi, rfl⟩

/-! ### What is on its way to the swap file -/

/-- When all writes of an item are answered, its slot holds what the frame holds. -/
structure WritesBack (requests : List SwapRequest) (phys : Nat → UInt8) (file : Int → UInt8)
    (it : PageQueueItem) (f : Nat) : Prop where
  data : ∀ offset data, .write it.id offset data ∈ requests → ∀ i < pageSize,
    offset ≤ it.swapOffset + i → it.swapOffset + i < offset + batchSize →
      data (it.swapOffset + i - offset).toNat = phys (f + i)
  rest : ∀ i < pageSize,
    (∃ offset data, .write it.id offset data ∈ requests ∧ offset ≤ it.swapOffset + i ∧
      it.swapOffset + i < offset + batchSize) ∨ file (it.swapOffset + i) = phys (f + i)

/-- With the answer to the last write of an item, its slot holds what the frame holds. -/
def Returned (s : Mm) (it : PageQueueItem) (f : Nat) : Prop :=
  ∀ offset data, .write it.id offset data ∈ s.requests → ∀ i < pageSize,
    Mm.writeFile s.swapFile offset data (it.swapOffset + i) = s.phys (f + i)

/-- A page that is being written and is not mapped has not changed since it was sent. -/
def Current (φ : PageMap) (s : Mm) : Prop :=
  ∀ pg f it, φ pg = .resident f true (.writing it) → s.hw pg.tid pg.addr = none →
    WritesBack s.requests s.phys s.swapFile it f

/-- A request that is answered leaves the others in the list. -/
theorem mem_remove_iff {l₁ l₂ : List SwapRequest} {x r : SwapRequest} (hne : x ≠ r) :
    x ∈ l₁ ++ l₂ ↔ x ∈ l₁ ++ r :: l₂ := by
  simp only [List.mem_append, List.mem_cons, hne, false_or]

namespace WritesBack

variable {requests requests' : List SwapRequest} {phys phys' : Nat → UInt8}
  {file file' : Int → UInt8} {it it' : PageQueueItem} {f : Nat}

/-- Only the requests of the item, its slot and its frame matter. -/
theorem mono (h : WritesBack requests phys file it f)
    (hreq : ∀ offset data, .write it.id offset data ∈ requests' ↔
      .write it.id offset data ∈ requests)
    (hphys : ∀ i < pageSize, phys' (f + i) = phys (f + i))
    (hfile : ∀ i < pageSize, file' (it.swapOffset + i) = file (it.swapOffset + i)) :
    WritesBack requests' phys' file' it f := by
  refine ⟨fun offset data hm i hi h1 h2 => ?_, fun i hi => ?_⟩
  · rw [hreq] at hm
    rw [hphys i hi]
    exact h.data offset data hm i hi h1 h2
  · rw [hphys i hi, hfile i hi]
    refine (h.rest i hi).imp_left ?_
    rintro ⟨offset, data, hm, h12⟩
    exact ⟨offset, data, (hreq offset data).mpr hm, h12⟩

/-- The flags of an item do not matter, nor how much of it is left. -/
theorem of_item (h : WritesBack requests phys file it f) (hid : it'.id = it.id)
    (hoff : it'.swapOffset = it.swapOffset) : WritesBack requests phys file it' f := by
  refine ⟨fun offset data hm i hi h1 h2 => ?_, fun i hi => ?_⟩
  · rw [hid] at hm
    rw [hoff] at h1 h2 ⊢
    exact h.data offset data hm i hi h1 h2
  · rw [hid, hoff]
    exact h.rest i hi

/-- One write is answered. -/
theorem ack {l₁ l₂ : List SwapRequest} {offset : Int} {data : Nat → UInt8}
    (h : WritesBack (l₁ ++ .write it.id offset data :: l₂) phys file it f) :
    WritesBack (l₁ ++ l₂) phys (Mm.writeFile file offset data) it f := by
  have hdata : ∀ i < pageSize, offset ≤ it.swapOffset + i → it.swapOffset + i < offset + batchSize →
      data (it.swapOffset + i - offset).toNat = phys (f + i) :=
    h.data offset data (by simp)
  refine ⟨fun offset' data' hm i hi h1 h2 => ?_, fun i hi => ?_⟩
  -- The requests that are left are requests of before.
  · refine h.data offset' data' ?_ i hi h1 h2
    simp only [List.mem_append, List.mem_cons] at hm ⊢
    tauto
  · rw [Mm.writeFile]
    -- The byte is in the batch that has just arrived, or it is not.
    by_cases hin : offset ≤ it.swapOffset + i ∧ it.swapOffset + i < offset + batchSize
    · rw [if_pos hin]
      exact Or.inr (hdata i hi hin.1 hin.2)
    · -- the batch of this byte is on its way, or in the slot
      rw [if_neg hin]
      refine (h.rest i hi).imp_left ?_
      rintro ⟨offset', data', hm, h12⟩
      refine ⟨offset', data', (mem_remove_iff ?_).mpr hm, h12⟩
      rintro ⟨rfl, rfl⟩
      exact hin h12

/-- The last write is answered. -/
theorem returned {s : Mm} (h : WritesBack s.requests s.phys s.swapFile it f)
    (hwriting : Writing it s.requests) (hlast : it.toSwap - batchSize = 0) : Returned s it f := by
  intro offset data hmem i hi
  obtain ⟨l₁, l₂, hreq⟩ := List.append_of_mem hmem
  rw [hreq] at h hwriting
  rcases h.ack.rest i hi with ⟨offset', data', hm, -⟩ | heq
  -- No other write of the item is left.
  · exact absurd rfl (hwriting.last rfl hlast _ hm)
  · exact heq

/-- A page has just been sent. -/
theorem sent (hfresh : ∀ r ∈ requests, r.token ≠ it.id) :
    WritesBack (requests ++ Mm.writeRequests it fun k => phys (f + k)) phys file it f := by
  -- The requests of the item are the new ones: one for each batch of the page.
  have hmem (offset : Int) (data : Nat → UInt8) :
      .write it.id offset data ∈ requests ++ Mm.writeRequests it (fun k => phys (f + k)) ↔
        ∃ k < pageSize / batchSize, offset = it.swapOffset + (k * batchSize : Nat) ∧
          data = fun j => phys (f + (k * batchSize + j)) := by
    rw [List.mem_append, or_iff_right fun hr => hfresh _ hr rfl, Mm.writeRequests, List.mem_map]
    simp only [List.mem_range, SwapRequest.write.injEq, true_and, eq_comm]
  refine ⟨fun offset data hm i hi h1 h2 => ?_, fun i hi => ?_⟩
  -- A byte of a batch is the byte of the frame at the same place.
  · obtain ⟨k, hk, rfl, rfl⟩ := (hmem _ _).mp hm
    have hik : k * batchSize + (it.swapOffset + i - (it.swapOffset + (k * batchSize : Nat))).toNat
        = i := by
      simp only [batchSize] at h1 h2 ⊢
      omega
    simp only [hik]
  -- And every byte of the page is in some batch.
  · have hk : i / batchSize < pageSize / batchSize := by
      simp only [batchSize, pageSize] at hi ⊢
      omega
    refine Or.inl ⟨_, _, (hmem _ _).mpr ⟨i / batchSize, hk, rfl, rfl⟩, ?_⟩
    simp only [batchSize]
    omega

end WritesBack

/-! ### One move -/

/-- A store reaches the page that it is for, or a frame that no page is in. -/
def StoreReaches (φ : PageMap) (s : Mm) (p addr : Nat) : Prop :=
  ∀ m, s.hw (threadId p) (pageAlign addr) = some m → m.rights &&& writable ≠ 0 →
    (addr < virtualStart ∧ ∀ pg f, (φ pg).frame? = some f →
      m.frame + pageSize ≤ f ∨ f + pageSize ≤ m.frame) ∨
    virtualStart ≤ addr ∧ ∃ (pg : Page) (hold : Hold), (pg.pid = p ∧ pg.addr = pageAlign addr) ∧
      φ pg = .resident m.frame true hold ∧ ∀ it, hold ≠ .reading it

/-- A process that stores a byte finds it in the page it has stored it to. -/
theorem Contents.store (h : Contents φ μ s) (hinv : Inv φ s) {p addr : Nat} {m : HwMapping}
    (byte : UInt8) (hm : s.hw (threadId p) (pageAlign addr) = some m)
    (hrights : m.rights &&& writable ≠ 0) (hreach : StoreReaches φ s p addr) : Contents φ (μ.store p addr byte)
      { s with phys := Function.update s.phys (m.frame + addr % pageSize) byte } := by
  have hoff : addr % pageSize < pageSize := Nat.mod_lt _ (by decide)
  intro pg'
  -- Below `virtualStart` the store goes to a frame of no page.
  rcases hreach m hm hrights with ⟨hv, hfree⟩ | ⟨hv, pg, hold, hpg, hres, hnot⟩
  · rw [Memory.store, if_pos hv]
    refine (h pg').mono (fun f hf i hi => ?_) fun _ _ _ _ => rfl
    have hapart := hfree pg' f hf
    exact Function.update_of_ne (by omega) _ _
  -- Above it the store goes to the frame of this page.
  · by_cases he : pg' = pg
    · rw [he, hres]
      refine PageState.Contents.of_inFrame (fun i hi => ?_) hnot
      have hin := (h pg).inFrame hres hnot i hi
      rw [Memory.page_store hv pg hi]
      -- The byte that is stored, and the others of the page.
      by_cases hi' : i = addr % pageSize
      · rw [hi', if_pos ⟨hpg, rfl⟩]
        exact Function.update_self _ _ _
      · rw [if_neg fun hc => hi' hc.2]
        exact (Function.update_of_ne (by omega) _ _).trans hin
    · -- the other pages are in other frames
      have hbytes : (φ pg').Contents s.phys s.swapFile ((μ.store p addr byte).page pg') := by
        refine (h pg').of_bytes fun i hi => ?_
        rw [Memory.page_store hv pg' hi, if_neg]
        rintro ⟨⟨h1, h2⟩, -⟩
        exact he (Page.ext (h1.trans hpg.1.symm) (h2.trans hpg.2.symm))
      refine hbytes.mono (fun f hf i hi => ?_) fun _ _ _ _ => rfl
      have hapart := hinv.frame_apart he (by rw [hres]; rfl) hf
      exact Function.update_of_ne (by omega) _ _

/-- The pages of a range are released and forgotten, and the others keep their bytes. -/
theorem Contents.release (h : Contents φ μ s) {p : Nat} {inRange : Nat → Bool}
    (hr : Released φ s p inRange s') :
    Contents (φ.release p inRange) (μ.clear p inRange) s' := by
  have hphys : s'.phys = s.phys := by rw [hr.rest]
  have hfile : s'.swapFile = s.swapFile := by rw [hr.rest]
  intro pg
  rw [hphys, hfile]
  by_cases hin : InRange p inRange pg
  · rw [PageMap.release_of_inRange hin]
    exact fun i hi => Memory.page_clear_of hin hi
  · rw [PageMap.release_of_not hin]
    refine PageState.Contents.mapSwapping ((h pg).of_bytes fun i hi => ?_)
    exact Memory.page_clear_of_not hin hi

/-- A batch is read into its place. -/
theorem Contents.arrive (h : Contents φ μ s) (hinv : Inv φ s) {it : PageQueueItem} {f : Nat}
    (hpg : φ pg = .resident f false (.reading it)) :
    (∃ b, it.slot = some b ∧ InSlot s.swapFile b (μ.page pg)) ∧
      ∀ i < pageSize, (i : Int) < it.toSwap + batchSize →
        memcpy s.phys (f + it.toSwap.toNat)
          (fun k => s.swapFile (it.swapOffset + it.toSwap + k)) batchSize (f + i) = μ.page pg i := by
  obtain ⟨⟨b, hb, hslot⟩, hread⟩ := show PageState.Contents _ _ _ (.resident f false (.reading it))
    from hpg ▸ h pg
  refine ⟨⟨b, hb, hslot⟩, fun i hi hlt => ?_⟩
  obtain ⟨k, hk, -⟩ := (hinv.queues.reading pg f false it hpg).2.batch
  have hoff : it.swapOffset = b := PageQueueItem.slot_eq_some.mp hb
  by_cases hold : (i : Int) < it.toSwap
  · rw [memcpy_of_not (by omega)]
    exact hread i hi hold
  · have hin : f + it.toSwap.toNat ≤ f + i ∧ f + i < f + it.toSwap.toNat + batchSize := by omega
    rw [memcpy, if_pos hin, ← hslot i hi, hoff]
    congr 1
    simp only [batchSize] at hk
    omega

/-- An answer to a write changes only the slot that it is for. -/
theorem Contents.write (h : Contents φ μ s) (hinv : Inv φ s) {x : Holder} (hne : x ≠ .page pg')
    {it : PageQueueItem} (hx : ∀ b : Nat, it.swapOffset = b → Holds φ s.swappingPages x b)
    (hmem : it ∈ s.swappingPages) (hwriting : Writing it s.requests)
    {l₁ l₂ : List SwapRequest} {offset : Int} {data : Nat → UInt8}
    (hreq : s.requests = l₁ ++ .write it.id offset data :: l₂) :
    (φ pg').Contents s.phys (Mm.writeFile s.swapFile offset data) (μ.page pg') := by
  rw [hreq] at hwriting
  obtain ⟨i, hi, rfl⟩ := hwriting.offset
  obtain ⟨b, hb, -⟩ := hinv.slot_of_swapping hmem
  refine (h pg').mono (fun _ _ _ _ => rfl) fun c hc k hk => ?_
  have hapart := hinv.slot_apart hne (hx b hb) hc
  rw [Mm.writeFile, if_neg]
  simp only [pageSize, batchSize] at hapart hk hi ⊢
  omega

/-- The other pages, when a write of a page is answered. -/
theorem Contents.ack (h : Contents φ μ s) (hinv : Inv φ s) (hne : pg' ≠ pg) {f : Nat}
    {it : PageQueueItem} (hpg : φ pg = .resident f true (.writing it))
    {l₁ l₂ : List SwapRequest} {offset : Int} {data : Nat → UInt8}
    (hreq : s.requests = l₁ ++ .write it.id offset data :: l₂) :
    (φ pg').Contents s.phys (Mm.writeFile s.swapFile offset data) (μ.page pg') := by
  refine h.write hinv (x := .page pg) ?_ ?_ (hinv.queues.swapping_of_writing hpg)
    (hinv.queues.writing pg f true it hpg).2 hreq
  · simpa using hne.symm
  · intro b hb
    show (φ pg).slot? = some b
    rw [hpg]
    exact PageQueueItem.slot_eq_some.mpr hb

/-- The bytes of a page are where they were, or where the move has brought them. -/
theorem Move.contents {ℓ : Label} (hinv : Inv φ s) (h : Contents φ μ s) (hm : Move φ s ℓ φ' s')
    (hstore : ∀ p addr byte, ℓ = .store p addr byte → StoreReaches φ s p addr)
    (hreturned : ∀ it, ℓ = .answer it .evicted → ∀ pg f, φ pg = .resident f true (.writing it) →
      s.hw pg.tid pg.addr = none → it.toSwap - batchSize = 0 → Returned s it f) :
    Contents φ' (ℓ.remember μ) s' := by
  have hinv' := hm.inv hinv
  cases hm with
  | unmap | requeue | noPage | entry | map | mapPhys | register | registerFull | start | fault
  | setWait | setWaitFor | say | discardRead => exact h
  | @evict it _ pg f b _ _ hpg hslot =>
      refine Contents.update ?_ fun pg' _ => h pg'
      have hc : PageState.Contents _ _ _ (.resident f false (.active it)) := hpg ▸ h pg
      obtain ⟨c, hc', hin⟩ := hc.2 rfl
      obtain rfl : c = b := by
        have := PageQueueItem.slot_eq_some.mp hc'
        omega
      exact hin
  | @writeOut it _ _ pg f _ _ _ _ hpg =>
      refine Contents.update ?_ fun pg' _ => h pg'
      exact (h pg).inFrame hpg nofun
  | @lose it _ pg f d _ hpg =>
      refine Contents.update ?_ fun pg' _ => h pg'
      exact (h pg).inFrame hpg nofun
  | @touch pg f _ it _ _ _ hpg =>
      refine Contents.update ?_ fun pg' hne => h.fill hinv' (Function.update_of_ne hne _ _) hne
        (by rw [Function.update_self]; rfl) fun a ha => memset_of_not ha
      have hzero : PageState.Contents _ _ _ .absent := hpg ▸ h pg
      exact ⟨fun i hi => (memset_apply hi).trans (hzero i hi).symm, nofun⟩
  | @touchPinned pg f _ _ _ _ hpg =>
      refine Contents.update ?_ fun pg' hne => h.fill hinv' (Function.update_of_ne hne _ _) hne
        (by rw [Function.update_self]; rfl) fun a ha => memset_of_not ha
      have hzero : PageState.Contents _ _ _ .absent := hpg ▸ h pg
      exact fun i hi => (memset_apply hi).trans (hzero i hi).symm
  | @readIn pg f b _ it hpg _ _ _ _ _ hoff hto =>
      refine Contents.update ?_ fun pg' hne => h.fill hinv' (Function.update_of_ne hne _ _) hne
        (by rw [Function.update_self]; rfl) fun a ha => memset_of_not ha
      have hin : PageState.Contents _ _ _ (.swapped b) := hpg ▸ h pg
      refine ⟨⟨b, PageQueueItem.slot_eq_some.mpr hoff, hin⟩, fun i _ hlt => ?_⟩
      rw [hto] at hlt
      omega
  | @dirty pg f d hold hpg hnot =>
      refine Contents.update ?_ fun pg' _ => h pg'
      exact PageState.Contents.of_inFrame ((h pg).inFrame hpg hnot) hnot
  | store _ hhw hrights => exact h.store hinv _ hhw hrights (hstore _ _ _ rfl)
  | ack hreq hpg =>
      exact Contents.update ((h _).inFrame hpg nofun) fun pg' hne => h.ack hinv hne hpg hreq
  | ackDoomed hreq hmem hdel hwriting =>
      intro pg'
      exact h.write hinv (x := .doomed _) nofun (fun b hb => ⟨_, hmem, rfl, hdel, hb⟩) hmem hwriting
        hreq
  | discardWrite hreq hmem hdel hwriting =>
      intro pg'
      exact h.write hinv (x := .doomed _) nofun (fun b hb => ⟨_, hmem, rfl, hdel, hb⟩) hmem hwriting
        hreq
  | @evicted l₁ l₂ it pg f b offset data _ hreq hpg hlast hoff hhw =>
      refine Contents.update ?_ fun pg' hne => h.ack hinv hne hpg hreq
      -- What was sent is what the frame holds.
      have hslot := hreturned it rfl pg f hpg hhw hlast offset data (by rw [hreq]; simp)
      rw [hoff] at hslot
      exact fun k hk => (hslot k hk).trans ((h pg).inFrame hpg nofun k hk)
  | restored hreq hpg =>
      exact Contents.update ⟨(h _).inFrame hpg nofun, nofun⟩ fun pg' hne =>
        h.ack hinv hne hpg hreq
  | @arrive l₁ l₂ it it' pg f hreq hpg hmore hit =>
      have hother (a : Nat) (ha : a < f ∨ f + pageSize ≤ a) : memcpy s.phys (f + it.toSwap.toNat)
          (fun i => s.swapFile (it.swapOffset + it.toSwap + i)) batchSize a = s.phys a :=
        (hinv.queues.reading pg f false it hpg).2.memcpy_of_not ha
      refine Contents.update ?_ fun pg' hne => h.fill hinv' (Function.update_of_ne hne _ _) hne
        (by rw [Function.update_self]; rfl) hother
      rw [hit]
      exact h.arrive hinv hpg
  | @arrived l₁ l₂ it it' pg f hreq hpg hlast hit =>
      have hother (a : Nat) (ha : a < f ∨ f + pageSize ≤ a) : memcpy s.phys (f + it.toSwap.toNat)
          (fun i => s.swapFile (it.swapOffset + it.toSwap + i)) batchSize a = s.phys a :=
        (hinv.queues.reading pg f false it hpg).2.memcpy_of_not ha
      refine Contents.update ?_ fun pg' hne => h.fill hinv' (Function.update_of_ne hne _ _) hne
        (by rw [Function.update_self]; rfl) hother
      obtain ⟨hslot, hphys⟩ := h.arrive hinv hpg
      rw [hit]
      refine ⟨fun i hi => hphys i hi ?_, fun _ => hslot⟩
      rw [hlast]
      exact Int.ofNat_lt.mpr hi
  | release _ _ _ hr => exact h.release hr
  | delete _ _ hr =>
      have hc := h.release hr
      exact hc

/-! ### What a move does to the pages that are being written -/

/-- The pages that are written after a move have just been sent, or have been sent before and
have not changed. -/
def KeepsSent (φ : PageMap) (s : Mm) (φ' : PageMap) (s' : Mm) : Prop :=
  ∀ pg f it', φ' pg = .resident f true (.writing it') →
    WritesBack s'.requests s'.phys s'.swapFile it' f ∨
      ∃ it, φ pg = .resident f true (.writing it) ∧ it'.id = it.id ∧
        (WritesBack s.requests s.phys s.swapFile it f →
          WritesBack s'.requests s'.phys s'.swapFile it' f)

/-- Where no page changes its state, each write request has to go on carrying its piece. -/
theorem KeepsSent.same (hφ : φ' = φ)
    (h : ∀ pg f it, φ pg = .resident f true (.writing it) →
      WritesBack s.requests s.phys s.swapFile it f →
        WritesBack s'.requests s'.phys s'.swapFile it f) : KeepsSent φ s φ' s' := by
  intro pg f it hpg
  rw [hφ] at hpg
  exact Or.inr ⟨it, hpg, rfl, h pg f it hpg⟩

/-- When one page changes its state, its own requests are to be looked at, and those of the
others. -/
theorem KeepsSent.update (hst : ∀ f it', st = .resident f true (.writing it') →
      WritesBack s'.requests s'.phys s'.swapFile it' f ∨
        ∃ it, φ pg = .resident f true (.writing it) ∧ it'.id = it.id ∧
          (WritesBack s.requests s.phys s.swapFile it f →
            WritesBack s'.requests s'.phys s'.swapFile it' f))
    (hother : ∀ pg' f it, pg' ≠ pg → φ pg' = .resident f true (.writing it) →
      WritesBack s.requests s.phys s.swapFile it f →
        WritesBack s'.requests s'.phys s'.swapFile it f) :
    KeepsSent φ s (Function.update φ pg st) s' := by
  intro pg' f it hpg
  by_cases he : pg' = pg
  · rw [he] at hpg ⊢
    rw [Function.update_self] at hpg
    exact hst f it hpg
  · rw [Function.update_of_ne he] at hpg
    exact Or.inr ⟨it, hpg, rfl, hother pg' f it he hpg⟩

/-- A release keeps what has been sent of the pages that stay. -/
theorem KeepsSent.release {p : Nat} {inRange : Nat → Bool} (hr : Released φ s p inRange s') :
    KeepsSent φ s (φ.release p inRange) s' := by
  have hrequests : s'.requests = s.requests := by rw [hr.rest]
  have hphys : s'.phys = s.phys := by rw [hr.rest]
  have hfile : s'.swapFile = s.swapFile := by rw [hr.rest]
  intro pg f it' hpg
  by_cases hin : InRange p inRange pg
  · rw [PageMap.release_of_inRange hin] at hpg
    cases hpg
  · rw [PageMap.release_of_not hin] at hpg
    obtain ⟨it, hpg₀, rfl⟩ := PageState.mapSwapping_eq_writing.mp hpg
    rw [hrequests, hphys, hfile]
    exact Or.inr ⟨it, hpg₀, Mm.cancelItem_id it, fun hw =>
      hw.of_item (Mm.cancelItem_id it) (Mm.cancelItem_swapOffset it)⟩

/-- The item of another page, or one without a page, is another item. -/
theorem Inv.writing_id_ne (h : Inv φ s) {f : Nat} {d : Bool} {it it₀ : PageQueueItem}
    (hpg : φ pg = .resident f d (.writing it)) (hm : it₀ ∈ s.activePages ++ s.swappingPages)
    (hnot : ¬ it₀.For pg ∨ it₀.processDeleted = true) : it₀.id ≠ it.id := by
  intro hid
  have hpage := h.queues.page pg it (by rw [hpg]; rfl)
  have hm' := List.mem_append_right s.activePages (h.queues.swapping_of_writing hpg)
  obtain rfl := h.queues.eq_of_id hm hm' hid
  rcases hnot with hnot | hdel
  · exact hnot hpage.1
  · rw [hpage.2.1] at hdel
    cases hdel

/-- The answer to a write is not about the items of other pages. -/
theorem WritesBack.write (h : Inv φ s) {f : Nat} {it it₀ : PageQueueItem}
    (hpg : φ pg' = .resident f true (.writing it))
    (hw : WritesBack s.requests s.phys s.swapFile it f) {x : Holder} (hne : x ≠ .page pg')
    (hx : ∀ b : Nat, it₀.swapOffset = b → Holds φ s.swappingPages x b)
    (hmem : it₀ ∈ s.swappingPages) (hnot : ¬ it₀.For pg' ∨ it₀.processDeleted = true)
    (hwriting : Writing it₀ s.requests) {l₁ l₂ : List SwapRequest} {offset : Int}
    {data : Nat → UInt8} (hreq : s.requests = l₁ ++ .write it₀.id offset data :: l₂) :
    WritesBack (l₁ ++ l₂) s.phys (Mm.writeFile s.swapFile offset data) it f := by
  rw [hreq] at hwriting
  obtain ⟨i, hi, rfl⟩ := hwriting.offset
  obtain ⟨b, hb, -⟩ := h.slot_of_swapping hmem
  refine hw.mono (fun offset data' => ?_) (fun _ _ => rfl) fun k hk => ?_
  · rw [hreq]
    refine mem_remove_iff fun heq => ?_
    exact h.writing_id_ne hpg (List.mem_append_right _ hmem) hnot
      (congrArg SwapRequest.token heq).symm
  · obtain ⟨c, hc, hslot⟩ := h.slot_of_swapping (h.queues.swapping_of_writing hpg)
    have hapart := h.slot_apart hne (hx b hb) (by rw [hpg]; exact hslot)
    rw [Mm.writeFile, if_neg]
    simp only [pageSize, batchSize] at hapart hk hi ⊢
    omega

/-- The other pages, when a write of a page is answered. -/
theorem WritesBack.ack_other (h : Inv φ s) {f g : Nat} {it it₀ : PageQueueItem} (hne : pg' ≠ pg)
    (hpg : φ pg = .resident f true (.writing it₀)) (hpg' : φ pg' = .resident g true (.writing it))
    {l₁ l₂ : List SwapRequest} {offset : Int} {data : Nat → UInt8}
    (hreq : s.requests = l₁ ++ .write it₀.id offset data :: l₂)
    (hw : WritesBack s.requests s.phys s.swapFile it g) :
    WritesBack (l₁ ++ l₂) s.phys (Mm.writeFile s.swapFile offset data) it g := by
  have hfor := (h.queues.page pg it₀ (by rw [hpg]; rfl)).1
  refine hw.write h hpg' (x := .page pg) ?_ ?_ (h.queues.swapping_of_writing hpg)
    (Or.inl fun hfor' => hne (hfor'.unique hfor)) (h.queues.writing pg f true it₀ hpg).2 hreq
  · simpa using hne.symm
  · intro b hb
    show (φ pg).slot? = some b
    rw [hpg]
    exact PageQueueItem.slot_eq_some.mpr hb

/-- What is written to another frame does not change what has been sent of this one. -/
theorem WritesBack.fill {requests : List SwapRequest} {mem mem' : Nat → UInt8}
    {file : Int → UInt8} {f g : Nat} {it : PageQueueItem} (hw : WritesBack requests mem file it g)
    (hinv : Inv φ' s') (hφ : φ' pg' = φ pg') (hpg : φ pg' = .resident g true (.writing it))
    (hne : pg' ≠ pg) (hf : (φ' pg).frame? = some f)
    (hmem : ∀ a, a < f ∨ f + pageSize ≤ a → mem' a = mem a) :
    WritesBack requests mem' file it g := by
  refine hw.mono (fun _ _ => Iff.rfl) (fun k hk => hmem _ ?_) fun _ _ => rfl
  have hapart := hinv.frame_apart hne hf (by rw [hφ, hpg]; rfl)
  omega

/-- Reads are not writes. -/
theorem WritesBack.reads {requests requests' : List SwapRequest} {phys : Nat → UInt8}
    {file : Int → UInt8} {it : PageQueueItem} {f : Nat}
    (h : WritesBack requests phys file it f)
    (hreq : ∀ r : SwapRequest, r.isWrite = true → (r ∈ requests' ↔ r ∈ requests)) :
    WritesBack requests' phys file it f :=
  h.mono (fun _ _ => hreq _ rfl) (fun _ _ => rfl) fun _ _ => rfl

/-- A store changes what is being written only where the page is mapped. -/
theorem WritesBack.store (hinv : Inv φ s) {p addr f : Nat} {m : HwMapping} {it : PageQueueItem}
    (byte : UInt8) (hm : s.hw (threadId p) (pageAlign addr) = some m)
    (hrights : m.rights &&& writable ≠ 0) (hreach : StoreReaches φ s p addr)
    (hpg' : φ pg' = .resident f true (.writing it)) (hnone : s.hw pg'.tid pg'.addr = none)
    (hw : WritesBack s.requests s.phys s.swapFile it f) :
    WritesBack s.requests (Function.update s.phys (m.frame + addr % pageSize) byte) s.swapFile it
      f := by
  have hoff : addr % pageSize < pageSize := Nat.mod_lt _ (by decide)
  have hapart : m.frame + pageSize ≤ f ∨ f + pageSize ≤ m.frame := by
    rcases hreach m hm hrights with ⟨-, hfree⟩ | ⟨-, pg, hold, hpg, hres, -⟩
    · exact hfree pg' f (by rw [hpg']; rfl)
    · have hne : pg' ≠ pg := by
        rintro rfl
        rw [Page.tid, hpg.1, hpg.2, hm] at hnone
        cases hnone
      exact (hinv.frame_apart hne (by rw [hres]; rfl) (by rw [hpg']; rfl)).symm
  exact hw.mono (fun _ _ => Iff.rfl) (fun i hi => Function.update_of_ne (by omega) _ _)
    fun _ _ => rfl

/-- Only a store changes a page that is being written. -/
theorem Move.keepsSent {ℓ : Label} (hinv : Inv φ s) (hm : Move φ s ℓ φ' s')
    (hstore : ∀ p addr byte, ℓ ≠ .store p addr byte) : KeepsSent φ s φ' s' := by
  have hinv' := hm.inv hinv
  -- Three kinds of moves: those that leave frames, slots and requests alone, those that fill a
  -- frame or a slot, and those that add or answer a request.
  cases hm with
  | unmap | requeue | noPage | entry | map | mapPhys | register | registerFull | start | fault
  | setWait | setWaitFor | say => exact .same rfl fun _ _ _ _ hw => hw
  | store => exact absurd rfl (hstore _ _ _)
  | evict | lose => exact .update nofun fun _ _ _ _ _ hw => hw
  | @writeOut it it' rest pg f b q bits hq hpg hslot hlive hwait hnone hit =>
      have hactive := hinv.queues.active_of_hold hpg
      have hfor := (hinv.queues.page pg it (by rw [hpg]; rfl)).1
      have hid : it'.id = it.id := by rw [hit]
      refine .update ?_ fun pg' g it₁ hne hpg' hw => ?_
      · rintro g it'' ⟨⟩
        exact Or.inl (.sent (hid ▸ hinv.queues.no_request hactive))
      · refine hw.mono (fun offset data => ?_) (fun _ _ => rfl) fun _ _ => rfl
        -- The new requests are those of another item.
        rw [List.mem_append, or_iff_left]
        intro hmem
        have hne' := hinv.writing_id_ne hpg' (List.mem_append_left _ hactive)
          (Or.inl fun hfor' => hne (hfor'.unique hfor))
        exact hne' (hid.symm.trans (token_writeRequests hmem).1.symm)
  | @dirty pg f d hold hpg hnot =>
      refine .update ?_ fun _ _ _ _ _ hw => hw
      rintro g it ⟨⟩
      -- The dirty bit is set already while the page is written out.
      have hd := (hinv.queues.writing pg f d it hpg).1
      exact Or.inr ⟨it, hd ▸ hpg, rfl, fun hw => hw⟩
  | @touch pg f =>
      -- The frame is filled with zeroes, and no page that is written out is in it.
      refine .update nofun fun pg' g it hne hpg' hw => ?_
      exact hw.fill hinv' (Function.update_of_ne hne _ _) hpg' hne
        (by rw [Function.update_self]; rfl) fun a ha => memset_of_not ha
  | @touchPinned pg f =>
      refine .update nofun fun pg' g it hne hpg' hw => ?_
      exact hw.fill hinv' (Function.update_of_ne hne _ _) hpg' hne
        (by rw [Function.update_self]; rfl) fun a ha => memset_of_not ha
  | @readIn pg f =>
      have hother (a : Nat) (ha : a < f ∨ f + pageSize ≤ a) :
          memset s.phys f 0 pageSize a = s.phys a := memset_of_not ha
      refine .update nofun fun pg' g it hne hpg' hw => ?_
      have hw' := hw.fill hinv' (Function.update_of_ne hne _ _) hpg' hne
        (by rw [Function.update_self]; rfl) hother
      refine hw'.reads fun r hr => ?_
      -- The new request is one to read.
      rw [List.mem_append, or_iff_left]
      rintro (_ | ⟨_, hmem⟩)
      · cases hr
      · cases hmem
  | @ack l₁ l₂ it it' pg f offset data hreq hpg hmore hit =>
      refine .update ?_ fun pg' g it₁ hne hpg' hw => hw.ack_other hinv hne hpg hpg' hreq
      rintro g it'' ⟨⟩
      refine Or.inr ⟨it, hpg, by rw [hit], fun hw => ?_⟩
      rw [hreq] at hw
      -- The batch of the request is in the slot now.
      exact hw.ack.of_item (by rw [hit]) (by rw [hit])
  | evicted hreq hpg =>
      exact .update nofun fun pg' g it₁ hne hpg' hw => hw.ack_other hinv hne hpg hpg' hreq
  | restored hreq hpg =>
      exact .update nofun fun pg' g it₁ hne hpg' hw => hw.ack_other hinv hne hpg hpg' hreq
  | ackDoomed hreq hmem hdel hwriting =>
      refine .same rfl fun pg' g it₁ hpg' hw => ?_
      exact hw.write hinv hpg' (x := .doomed _) nofun (fun b hb => ⟨_, hmem, rfl, hdel, hb⟩) hmem
        (Or.inr hdel) hwriting hreq
  | discardWrite hreq hmem hdel hwriting =>
      refine .same rfl fun pg' g it₁ hpg' hw => ?_
      exact hw.write hinv hpg' (x := .doomed _) nofun (fun b hb => ⟨_, hmem, rfl, hdel, hb⟩) hmem
        (Or.inr hdel) hwriting hreq
  | discardRead hreq =>
      -- The request that goes was one to read.
      refine .same rfl fun pg' g it₁ hpg' hw => hw.reads fun r hr => ?_
      rw [hreq]
      refine mem_remove_iff ?_
      rintro rfl
      cases hr
  | @arrive l₁ l₂ it it' pg f hreq hpg =>
      have hother (a : Nat) (ha : a < f ∨ f + pageSize ≤ a) : memcpy s.phys (f + it.toSwap.toNat)
          (fun i => s.swapFile (it.swapOffset + it.toSwap + i)) batchSize a = s.phys a :=
        (hinv.queues.reading pg f false it hpg).2.memcpy_of_not ha
      refine .update nofun fun pg' g it₁ hne hpg' hw => ?_
      -- The batch is copied to the frame of the page that is read.
      have hw' := hw.fill hinv' (Function.update_of_ne hne _ _) hpg' hne
        (by rw [Function.update_self]; rfl) hother
      refine hw'.reads fun r hr => ?_
      rw [hreq, List.mem_append, or_iff_left]
      · refine mem_remove_iff ?_
        rintro rfl
        cases hr
      · rintro (_ | ⟨_, hmem⟩)
        · cases hr
        · cases hmem
  | @arrived l₁ l₂ it it' pg f hreq hpg =>
      have hother (a : Nat) (ha : a < f ∨ f + pageSize ≤ a) : memcpy s.phys (f + it.toSwap.toNat)
          (fun i => s.swapFile (it.swapOffset + it.toSwap + i)) batchSize a = s.phys a :=
        (hinv.queues.reading pg f false it hpg).2.memcpy_of_not ha
      refine .update nofun fun pg' g it₁ hne hpg' hw => ?_
      have hw' := hw.fill hinv' (Function.update_of_ne hne _ _) hpg' hne
        (by rw [Function.update_self]; rfl) hother
      refine hw'.reads fun r hr => ?_
      rw [hreq]
      refine mem_remove_iff ?_
      rintro rfl
      cases hr
  | release _ _ _ hr => exact .release hr
  | delete _ _ hr =>
      have hk := KeepsSent.release hr
      exact hk

/-- What a page held is forgotten. -/
def Memory.setPage (μ : Memory) (pg : Page) (bytes : Nat → UInt8) : Memory :=
  fun q a => if q = pg.pid ∧ pageAlign a = pg.addr then bytes (a - pg.addr) else μ q a

/-- Without a condition on the pages that leave their frames, the frames and the slots hold
something, if not what the processes have stored. -/
theorem Move.contents_some {ℓ : Label} (hinv : Inv φ s) (h : Contents φ μ s)
    (hm : Move φ s ℓ φ' s')
    (hstore : ∀ p addr byte, ℓ = .store p addr byte → StoreReaches φ s p addr) :
    ∃ μ', Contents φ' μ' s' := by
  by_cases hev : ∃ it, ℓ = .answer it .evicted
  · obtain ⟨it, rfl⟩ := hev
    cases hm with
    | @evicted l₁ l₂ _ pg f b offset data _ hreq hpg =>
        refine ⟨μ.setPage pg fun i => Mm.writeFile s.swapFile offset data (b + i), ?_⟩
        refine Contents.update (fun i hi => ?_) fun pg' hne => ?_
        · simp only [Memory.page, Memory.setPage, Memory.pageAlign_add hi, and_self, if_true,
            Nat.add_sub_cancel_left]
          rfl
        · refine (h.ack hinv hne hpg hreq).of_bytes fun i hi => ?_
          have hpage : ¬ (pg'.pid = pg.pid ∧ pg'.addr = pg.addr) := fun he => hne (Page.ext he.1 he.2)
          simp only [Memory.page, Memory.setPage, Memory.pageAlign_add hi, if_neg hpage]
  · exact ⟨_, hm.contents hinv h hstore fun it hit => absurd ⟨it, hit⟩ hev⟩

end

end Sos
