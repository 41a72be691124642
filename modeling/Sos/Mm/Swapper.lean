import Sos.Lib.SecondChance
import Sos.Mm.State

/-!
# `Sos.Mm.Swapper`: swapping pages out and in

`mm/swapper.c`. A dirty page is written to the swap file in requests of `batchSize` bytes,
all sent at once. `swap_write_callback` runs once for each answer. A page is read back one
request at a time, and `swap_read_callback` sends the next one.

`none` is a failed assertion or an access through an invalid pointer. The page table entry
that a callback looks up first is read only where the code reads it: when the process is
gone the pointer is wild, and the branch for `process_deleted` does not follow it.
-/

set_option autoImplicit false

namespace Sos

/-- The results of `swap_out`. -/
inductive SwapOutResult
  | swappingPending
  | swappingComplete
  | outOfSwapSpace
  | noPageAvailable
deriving DecidableEq, Repr

namespace Mm

/-- `is_dirty`, with its assertion that the page has a page table entry. -/
def isDirty (s : Mm) (page : PageQueueItem) : Option Bool := do
  let pte ← s.pagerTableLookup page.tid page.virtualAddress
  some (pte &&& 0x2 != 0)

/-- `is_referenced`: a page counts as referenced while it is mapped. -/
def isReferenced (s : Mm) (page : PageQueueItem) : Bool :=
  (s.hw page.tid page.virtualAddress).isSome

/-- `dereference`. -/
def dereference (s : Mm) (page : PageQueueItem) : Mm :=
  s.unmapFpage page.tid page.virtualAddress

/-- `second_chance_select` on the active pages. The loop ends after one turn for each page
and one more (`Lib.SecondChance.select_total`). -/
def secondChanceSelect (s : Mm) : Option (Mm × Option PageQueueItem) := do
  let (page, s', queue) ← Lib.SecondChance.select isReferenced dereference
    (s.activePages.length + 1) s s.activePages
  some ({ s' with activePages := queue }, page)

/-- `mark_swapped` on the entry of an address, with its assertions. -/
def markSwapped (s : Mm) (tid : ThreadId) (addr : Nat) (swapLocation : Int) : Option Mm := do
  let _ ← s.pagerTableLookup tid addr
  if swapLocation % pageSize ≠ 0 then none
  else some (s.setPte tid addr (swapLocation.toNat ||| 0x1))

/-- `allocate_swap_entry`: the offset of the first free slot, -1 when there is none. -/
def allocateSwapEntry (s : Mm) : Mm × Int :=
  match (List.range maxSwapEntries).find? fun i => !bitfieldGet s.swapBitfield i with
  | some i => ({ s with swapBitfield := bitfieldSet s.swapBitfield i true }, i * pageSize)
  | none => (s, -1)

/-- `swap_free`, with its assertions. -/
def swapFree (s : Mm) (offset : Int) : Option Mm :=
  if offset % pageSize ≠ 0 ∨ offset < 0 then none
  else
    let bitNumber := offset.toNat / pageSize
    if bitNumber ≤ maxSwapEntries ∧ bitfieldGet s.swapBitfield bitNumber then
      some { s with swapBitfield := bitfieldSet s.swapBitfield bitNumber false }
    else none

/-- `swap_init`; the bit field starts as what `malloc` left there. -/
def swapInit (s : Mm) : Mm :=
  { s with
    activePages := []
    swappingPages := []
    swapBitfield := (List.range maxSwapEntries).foldl
      (fun bitfield i => bitfieldSet bitfield i false) s.swapBitfield }

/-- The `nfs_write` calls of `swap_out` for one page. The data is what the frame holds
now. -/
def writeRequests (page : PageQueueItem) (data : Nat → UInt8) : List SwapRequest :=
  (List.range (pageSize / batchSize)).map fun i =>
    .write page.id (page.swapOffset + (i * batchSize : Nat)) fun k => data (i * batchSize + k)

/-- The part of `swap_out` after a page with a slot has been selected. -/
def writeBack (s : Mm) (initiator : ThreadId) (page : PageQueueItem) :
    Option (Mm × SwapOutResult) := do
  if ← s.isDirty page then
    let page := { page with toSwap := pageSize, initiator := initiator }
    let physicalPage ← s.pagerPhysicalLookup page.tid page.virtualAddress
    if physicalPage = 0 then none
    else
      some ({ s with
        swappingPages := s.swappingPages ++ [page]
        requests := s.requests ++ writeRequests page fun k => s.phys (physicalPage + k) },
        .swappingPending)
  else if page.swapOffset < 0 then none
  else
    let pte ← s.pagerTableLookup page.tid page.virtualAddress
    let s ← s.frameFree (clearLowerBits pte)
    let s ← s.markSwapped page.tid page.virtualAddress page.swapOffset
    some (s, .swappingComplete)

/-- `swap_out`: selects a page and writes it to the swap file, or only marks it swapped
when the copy it has there is current. -/
def swapOut (s : Mm) (initiator : ThreadId) : Option (Mm × SwapOutResult) := do
  let (s, selected) ← s.secondChanceSelect
  match selected with
  | none => some (s, .noPageAvailable)
  | some page =>
    if s.isReferenced page then none
    else if page.swapOffset < 0 then
      let (s, swapOffset) := s.allocateSwapEntry
      if swapOffset < 0 then some (s, .outOfSwapSpace)
      else s.writeBack initiator { page with swapOffset := swapOffset }
    else s.writeBack initiator page

/-- `swap_in`, which always returns `SWAPPING_PENDING`. -/
def swapIn (s : Mm) (page : PageQueueItem) : Mm :=
  let page := { page with toSwap := 0 }
  { s with
    swappingPages := s.swappingPages ++ [page]
    requests := s.requests ++ [.read page.id (page.swapOffset + page.toSwap) batchSize] }

/-- `TAILQ_REMOVE` from the pages being swapped. -/
def removeSwapping (s : Mm) (page : PageQueueItem) : Mm :=
  { s with swappingPages := s.swappingPages.filter fun it => it.id ≠ page.id }

/-- A store through the pointer to a page queue item that is being swapped. -/
def updateSwapping (s : Mm) (page : PageQueueItem) : Mm :=
  { s with swappingPages := s.swappingPages.map fun it => if it.id = page.id then page else it }

/-- `swap_write_callback`. `page` is the item at the address `token`. -/
def swapWriteCallback (s : Mm) (page : PageQueueItem) (status : NfsStatus) : Option Mm :=
  match status with
  | .ok => do
    let page := { page with toSwap := page.toSwap - batchSize }
    let s := s.updateSwapping page
    if page.toSwap ≠ 0 then some s
    else if !s.isReferenced page then
      let s ←
        if !page.processDeleted then do
          let pte ← s.pagerTableLookup page.tid page.virtualAddress
          let s ← s.frameFree (clearLowerBits pte)
          let s ← s.markSwapped page.tid page.virtualAddress page.swapOffset
          -- Restart the thread that ran out of memory.
          if page.initiator ≠ nilthread then
            some (s.sendIpcReply page.initiator pagefaultLabel [])
          else some s
        else some s
      some (s.removeSwapping page)
    else
      let s := s.removeSwapping page
      let s := if page.initiator ≠ nilthread
        then s.sendIpcReply page.initiator pagefaultLabel [] else s
      if !page.processDeleted then
        some { s with activePages := s.activePages ++ [{ page with initiator := nilthread }] }
      else some s
  | .noSpace => none
  | .error => none

/-- `swap_read_callback`. `data` is what the reply carries. -/
def swapReadCallback (s : Mm) (page : PageQueueItem) (status : NfsStatus) (bytesRead : Nat)
    (data : Nat → UInt8) : Option Mm :=
  if page.processDeleted then some (s.removeSwapping page)
  else
    match status with
    | .ok => do
      if bytesRead ≠ batchSize then none
      else
        let pte ← s.pagerTableLookup page.tid page.virtualAddress
        let dest := ((pte : Int) + page.toSwap).toNat
        let s := { s with phys := memcpy s.phys dest data bytesRead }
        let page := { page with toSwap := page.toSwap + bytesRead }
        if page.toSwap = (pageSize : Int) then
          let s := s.removeSwapping page
          let s := { s with activePages := s.activePages ++ [page] }
          some (s.sendIpcReply page.tid pagefaultLabel [])
        else
          let s := s.updateSwapping page
          some { s with
            requests := s.requests ++
              [.read page.id (page.swapOffset + page.toSwap) batchSize] }
    | .noSpace => none
    | .error => none

end Mm

end Sos
