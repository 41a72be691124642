import Sos.Mm.Swapper

/-!
# `Sos.Mm.Pager`: page faults, unmapping and freeing

`mm/pager.c`. `pager` answers one page fault, or leaves the thread without an answer while
a page is being swapped. `pager_unmap_range` and `pager_free_range` walk over the page
table of a process, and `pager_free_all` cancels everything that is going on for it. All
three walk in the same two loops (`walkPageTable`). None changes the first level table, so
it is read once; a second level table is read entry by entry.

What the code takes from outside the server is in `FaultEnv`: whether the kernel can map
the page, and what `malloc` leaves in the two fields of a page queue item that
`create_page_queue_item` does not set.

`pager` deletes a process that faults where it has no access. `delete_process` is in
`process.c`, so `pager` is with it in `Sos.Process`.
-/

set_option autoImplicit false

namespace Sos

/-- The outside world during a page fault. -/
structure FaultEnv where
  initiator : ThreadId
  toSwap : Int
  mapOk : Bool

/-- The results of `virtual_mapping`. -/
inductive MappingResult
  | mappingFailed
  | mappingSuccess
  | outOfFrames
  | pageNotAvailable
deriving DecidableEq, Repr

namespace Mm

/-- `get_access_rights`. The tests are in the order of the code. -/
def getAccessRights (s : Mm) (tid : ThreadId) (addr : Nat) : Nat :=
  let p := s.getProcess tid
  if addr < 4096 then noAccess
  else if !p.initialized ∧ addr < virtualStart then fullyAccessible
  else if addr ≥ textStart ∧ addr < textEnd then
    if !p.initialized then readWriteOnly else executable ||| readable
  else if addr ≥ dataStart ∧ addr < dataEnd then readWriteOnly
  else if addr ≥ heapStart ∧ addr < heapEnd then readWriteOnly
  else if addr ≥ ipcStart ∧ addr < ipcEnd then readWriteOnly
  else if addr > stackEnd ∧ addr ≤ stackTop then readWriteOnly
  else noAccess

/-- `is_access_granted`. -/
def isAccessGranted (s : Mm) (tid : ThreadId) (addr triedAccess : Nat) : Bool :=
  (triedAccess &&& s.getAccessRights tid addr) == triedAccess

/-- `create_page_queue_item`: the new item, and the state with its address handed out. -/
def createPageQueueItem (s : Mm) (tid : ThreadId) (addr : Nat) (swapOffset : Int)
    (env : FaultEnv) : Mm × PageQueueItem :=
  ({ s with nextItem := s.nextItem + 1 },
    { id := s.nextItem
      processDeleted := false
      tid := tid
      virtualAddress := addr
      swapOffset := swapOffset
      toSwap := env.toSwap
      initiator := env.initiator })

/-- `one_to_one_mapping`: maps an address to the same physical address, with full rights
whatever access was requested. -/
def oneToOneMapping (s : Mm) (tid : ThreadId) (addr : Nat) (env : FaultEnv) : Mm × Bool :=
  s.mapFpage tid (pageAlign addr) (pageAlign addr) fullyAccessible env.mapOk

/-- `allocate_new_frame`: a frame, or 0 when there is none yet. -/
def allocateNewFrame (s : Mm) (forThread : ThreadId) : Option (Mm × Nat) := do
  let (s, newFrame) ← s.frameAlloc
  if newFrame ≠ 0 then some (s, newFrame)
  else
    let (s, result) ← s.swapOut forThread
    match result with
    | .swappingComplete =>
      let (s, newFrame) ← s.frameAlloc
      if newFrame = 0 then none else some (s, newFrame)
    | .noPageAvailable =>
      some (s.kdbEnter "Out of frames. Too few frames, too many processes?", 0)
    | .outOfSwapSpace => some (s.kdbEnter "Out of memory and swap space :-(", 0)
    | .swappingPending => some (s, 0)

/-- The end of `virtual_mapping`, for a page that is in memory: maps it with the requested
access. -/
def mapResident (s : Mm) (tid : ThreadId) (addr requestedAccess : Nat) (env : FaultEnv) :
    Option (Mm × MappingResult) := do
  let s ← if requestedAccess &&& writable ≠ 0 then s.markDirty tid addr else some s
  let pte ← s.pagerTableLookup tid addr
  let (s, ok) := s.mapFpage tid addr (clearLowerBits pte) requestedAccess env.mapOk
  some (s, if ok then .mappingSuccess else .mappingFailed)

/-- The part of `virtual_mapping` for a page that is referenced for the first time. The IPC
page gets no page queue item. -/
def mapFirstReference (s : Mm) (tid : ThreadId) (addr requestedAccess : Nat) (env : FaultEnv) :
    Option (Mm × MappingResult) := do
  let s := s.updateProcess tid fun p => { p with size := (p.size + 1) % 2 ^ 32 }
  let (s, newFrame) ← s.allocateNewFrame tid
  let s := s.setPte tid addr newFrame
  if newFrame = 0 then some (s, .outOfFrames)
  else if addr ≠ ipcMemoryStart then
    let (s, page) := s.createPageQueueItem tid addr (-1) env
    let s := { s with activePages := s.activePages ++ [page] }
    let s ← s.markDirty tid addr
    s.mapResident tid addr requestedAccess env
  else s.mapResident tid addr requestedAccess env

/-- The part of `virtual_mapping` for a page that is currently swapped out. -/
def mapSwapped (s : Mm) (tid : ThreadId) (addr entry : Nat) (env : FaultEnv) :
    Option (Mm × MappingResult) := do
  let swapOffset := clearLowerBits entry
  let (s, newFrame) ← s.allocateNewFrame tid
  if newFrame = 0 then some (s, .outOfFrames)
  else
    let s := s.setPte tid addr newFrame
    let (s, page) := s.createPageQueueItem tid addr swapOffset env
    some (s.swapIn page, .pageNotAvailable)

/-- `virtual_mapping`. -/
def virtualMapping (s : Mm) (tid : ThreadId) (addr requestedAccess : Nat) (env : FaultEnv) :
    Option (Mm × MappingResult) := do
  if !s.isAccessGranted tid addr requestedAccess then none
  else
    let addr := pageAlign addr
    let s ← s.createSecondLevelTable tid addr
    let entry ← s.pagerTableLookup tid addr
    if entry = 0 then s.mapFirstReference tid addr requestedAccess env
    else if isSwapped entry then s.mapSwapped tid addr entry env
    else s.mapResident tid addr requestedAccess env

/-- The two nested loops over the page table of a thread: the body runs for the address of
every entry of every second level table. -/
def walkPageTable (s : Mm) (tid : ThreadId) (body : Mm → Nat → Option Mm) : Option Mm := do
  let directory ← (s.getProcess tid).pageIndex
  (List.range firstLevelEntries).foldlM (fun s i =>
    match directory i with
    | none => some s
    | some _ =>
      (List.range secondLevelEntries).foldlM (fun s j => body s (createVirtualAddress i j)) s) s

/-- `pager_unmap_range`. `stop` is its `end`. -/
def pagerUnmapRange (s : Mm) (tid : ThreadId) (start stop : Nat) : Option Mm :=
  s.walkPageTable tid fun s virtualAddress => do
    let pte ← s.pagerTableLookup tid virtualAddress
    if virtualAddress ≥ start ∧ virtualAddress < stop ∧ pte ≠ 0 ∧ !isSwapped pte then
      some (s.unmapFpage tid virtualAddress)
    else some s

/-- `pager_unmap_all`. -/
def pagerUnmapAll (s : Mm) (tid : ThreadId) : Option Mm := s.pagerUnmapRange tid 0 stackTop

/-- `pager_unmap_initializer`. -/
def pagerUnmapInitializer (s : Mm) (tid : ThreadId) : Mm :=
  (List.range ((virtualStart - 0x710000) / pageSize)).foldl
    (fun s i => s.unmapFpage tid (0x710000 + i * pageSize)) s

/-- What `pager_free_all` and `pager_free_range` do with one page table entry: give back
the swap slot or the frame and clear the entry. -/
def freeEntry (s : Mm) (tid : ThreadId) (addr : Nat) : Option Mm := do
  let pte ← s.pagerTableLookup tid addr
  let s ←
    if isSwapped pte then s.swapFree (clearLowerBits pte)
    else if pte ≠ 0 then s.frameFree (clearLowerBits pte)
    else some s
  some (s.setPte tid addr 0)

/-- The loop over the active pages in `pager_free_all` and `pager_free_range`: frees the
chosen items and their swap slots. -/
def freeActivePages (s : Mm) (chosen : PageQueueItem → Bool) : Option Mm := do
  let s ← (s.activePages.filter chosen).foldlM (fun s page =>
    if page.swapOffset ≠ -1 then s.swapFree page.swapOffset else some s) s
  some { s with activePages := s.activePages.filter fun page => !chosen page }

/-- The loop over the pages being swapped, for one item: it is flagged when the thread owns
it, and loses its initiator when that is the thread. -/
def cancelItem (tid : ThreadId) (inRange : Nat → Bool) (page : PageQueueItem) : PageQueueItem :=
  let page := if tid = page.tid ∧ inRange page.virtualAddress then
    { page with processDeleted := true } else page
  if tid = page.initiator ∧ inRange page.virtualAddress then
    { page with initiator := nilthread } else page

/-- The loop over the pages being swapped. -/
def cancelSwapping (s : Mm) (tid : ThreadId) (inRange : Nat → Bool) : Mm :=
  { s with swappingPages := s.swappingPages.map (cancelItem tid inRange) }

/-- `pager_free_all`. -/
def pagerFreeAll (s : Mm) (tid : ThreadId) : Option Mm := do
  let s ← s.walkPageTable tid fun s virtualAddress => do
    let s ← s.freeEntry tid virtualAddress
    some (s.updateProcess tid fun p => { p with size := (p.size + 2 ^ 32 - 1) % 2 ^ 32 })
  let s ← s.freeActivePages fun page => tid = page.tid
  some (s.cancelSwapping tid fun _ => true)

/-- `pager_free_range`. `stop` is its `end`. -/
def pagerFreeRange (s : Mm) (tid : ThreadId) (start stop : Nat) : Option Mm := do
  let inRange := fun virtualAddress : Nat => decide (virtualAddress ≥ start ∧ virtualAddress < stop)
  let s ← s.walkPageTable tid fun s virtualAddress =>
    if inRange virtualAddress then s.freeEntry tid virtualAddress else some s
  let s ← s.freeActivePages fun page => tid = page.tid ∧ inRange page.virtualAddress
  some (s.cancelSwapping tid inRange)

end Mm

end Sos
