import Sos.Lib.TailQueue
import Sos.Mm.Step

/-!
# `Sos.Mm.LinkedQueues`: the two page queues as the code has them

In `Sos.Mm.State` the active pages and the pages being swapped are lists of items. Here they are
what `mm/swapper.h` says: items somewhere in memory, with the `TAILQ_ENTRY` of `queue.h` in each,
and a `TAILQ_HEAD` for either queue. A token is the address of an item. The functions are those of
`mm/swapper.c` and `mm/pager.c` that use a `TAILQ` macro or follow its links; what else they do is
done to the same `Mm`, whose lists are not used.

The loops follow the links until they find a null pointer. `fuel` bounds the turns of each.

`QueueCall` lists the calls of these functions, `QueueCall.onLinks` and `QueueCall.onLists` say
what one does here and there.
-/

set_option autoImplicit false

namespace Sos

open Lib

/-- The two heads: `active_pages_head` and `swapping_pages_head`. -/
inductive PagesHead
  | active
  | swapping
deriving DecidableEq

/-- The state with the page queues in memory. -/
structure LinkedMm where
  mm : Mm
  item : Nat → PageQueueItem
  links : TailQueue.Links PagesHead Nat

namespace LinkedMm

/-- A store to the fields of a page queue item. -/
def store (l : LinkedMm) (page : PageQueueItem) : LinkedMm :=
  { l with item := Function.update l.item page.id page }

/-- `TAILQ_INSERT_TAIL`, after the fields of the item have been set. -/
def insertTail (l : LinkedMm) (head : PagesHead) (page : PageQueueItem) : LinkedMm :=
  { l.store page with links := l.links.insertTail head page.id }

/-- `TAILQ_REMOVE`. -/
def remove (l : LinkedMm) (head : PagesHead) (page : PageQueueItem) : LinkedMm :=
  { l with links := l.links.remove head page.id }

/-! ### `swapper.c` -/

/-- `swap_init`. -/
def swapInit (l : LinkedMm) : LinkedMm :=
  { l with mm := l.mm.swapInit, links := (l.links.init .active).init .swapping }

/-- `second_chance_select` on the active pages. -/
def secondChanceSelect (l : LinkedMm) (fuel : Nat) : Option (LinkedMm × Option PageQueueItem) := do
  let (page, mm, links) ← l.links.secondChance (fun s page => s.isReferenced (l.item page))
    (fun s page => s.dereference (l.item page)) .active fuel l.mm
  some ({ l with mm := mm, links := links }, page.map l.item)

/-- The part of `swap_out` after a page with a slot has been selected. -/
def writeBack (l : LinkedMm) (initiator : ThreadId) (page : PageQueueItem) :
    Option (LinkedMm × SwapOutResult) := do
  if ← l.mm.isDirty page then
    let page := { page with toSwap := pageSize, initiator := initiator }
    let l := l.insertTail .swapping page
    let physicalPage ← l.mm.pagerPhysicalLookup page.tid page.virtualAddress
    if physicalPage = 0 then none
    else
      some ({ l with
        mm := { l.mm with
          requests := l.mm.requests ++
            Mm.writeRequests page fun k => l.mm.phys (physicalPage + k) } },
        .swappingPending)
  else if page.swapOffset < 0 then none
  else
    let pte ← l.mm.pagerTableLookup page.tid page.virtualAddress
    let mm ← l.mm.frameFree (clearLowerBits pte)
    let mm ← mm.markSwapped page.tid page.virtualAddress page.swapOffset
    some ({ l with mm := mm }, .swappingComplete)

/-- `swap_out`. -/
def swapOut (l : LinkedMm) (fuel : Nat) (initiator : ThreadId) :
    Option (LinkedMm × SwapOutResult) := do
  let (l, selected) ← l.secondChanceSelect fuel
  match selected with
  | none => some (l, .noPageAvailable)
  | some page =>
    if l.mm.isReferenced page then none
    else if page.swapOffset < 0 then
      let (mm, swapOffset) := l.mm.allocateSwapEntry
      let page := { page with swapOffset := swapOffset }
      let l := { l with mm := mm }.store page
      if swapOffset < 0 then some (l, .outOfSwapSpace)
      else l.writeBack initiator page
    else l.writeBack initiator page

/-- `swap_in`. -/
def swapIn (l : LinkedMm) (page : PageQueueItem) : LinkedMm :=
  let page := { page with toSwap := 0 }
  let l := l.insertTail .swapping page
  { l with
    mm := { l.mm with
      requests := l.mm.requests ++
        [.read page.id (page.swapOffset + page.toSwap) batchSize] } }

/-- What `swap_write_callback` does after it has counted the batch. -/
def batchWritten (l : LinkedMm) (page : PageQueueItem) : Option LinkedMm :=
  if page.toSwap ≠ 0 then some l
  else if !l.mm.isReferenced page then do
    let l ←
      if !page.processDeleted then do
        let pte ← l.mm.pagerTableLookup page.tid page.virtualAddress
        let mm ← l.mm.frameFree (clearLowerBits pte)
        let mm ← mm.markSwapped page.tid page.virtualAddress page.swapOffset
        if page.initiator ≠ nilthread then
          some { l with mm := mm.sendIpcReply page.initiator pagefaultLabel [] }
        else some { l with mm := mm }
      else some l
    some (l.remove .swapping page)
  else
    let l := l.remove .swapping page
    let l := if page.initiator ≠ nilthread
      then { l with mm := l.mm.sendIpcReply page.initiator pagefaultLabel [] } else l
    if !page.processDeleted then
      some (l.insertTail .active { page with initiator := nilthread })
    else some l

/-- `swap_write_callback`. -/
def swapWriteCallback (l : LinkedMm) (token : Nat) (status : NfsStatus) : Option LinkedMm :=
  match status with
  | .ok =>
    let page := { l.item token with toSwap := (l.item token).toSwap - batchSize }
    (l.store page).batchWritten page
  | .noSpace => none
  | .error => none

/-- `swap_read_callback`. -/
def swapReadCallback (l : LinkedMm) (token : Nat) (status : NfsStatus) (bytesRead : Nat)
    (data : Nat → UInt8) : Option LinkedMm :=
  let page := l.item token
  if page.processDeleted then some (l.remove .swapping page)
  else
    match status with
    | .ok => do
      if bytesRead ≠ batchSize then none
      else
        let pte ← l.mm.pagerTableLookup page.tid page.virtualAddress
        let dest := ((pte : Int) + page.toSwap).toNat
        let l := { l with mm := { l.mm with phys := memcpy l.mm.phys dest data bytesRead } }
        let page := { page with toSwap := page.toSwap + bytesRead }
        let l := l.store page
        if page.toSwap = (pageSize : Int) then
          let l := l.remove .swapping page
          let l := l.insertTail .active page
          some { l with mm := l.mm.sendIpcReply page.tid pagefaultLabel [] }
        else
          some { l with
            mm := { l.mm with
              requests := l.mm.requests ++
                [.read page.id (page.swapOffset + page.toSwap) batchSize] } }
    | .noSpace => none
    | .error => none

/-! ### `pager.c` -/

/-- The loop over the active pages in `pager_free_all` and `pager_free_range`. -/
def freeActivePages (l : LinkedMm) (fuel : Nat) (chosen : PageQueueItem → Bool) :
    Option LinkedMm := do
  let (mm, links) ← l.links.removeLoop (fun page => chosen (l.item page))
    (fun s page =>
      if (l.item page).swapOffset ≠ -1 then s.swapFree (l.item page).swapOffset else some s)
    .active fuel l.mm (l.links.first .active)
  some { l with mm := mm, links := links }

/-- The loop over the pages being swapped in `pager_free_all` and `pager_free_range`. -/
def cancelSwapping (l : LinkedMm) (fuel : Nat) (tid : ThreadId) (inRange : Nat → Bool) :
    Option LinkedMm := do
  let item ← l.links.each
    (fun item page => Function.update item page (Mm.cancelItem tid inRange (item page)))
    fuel l.item (l.links.first .swapping)
  some { l with item := item }

/-- The items of a queue, from the head along the links. -/
def queue (l : LinkedMm) (fuel : Nat) (head : PagesHead) : List PageQueueItem :=
  (l.links.walk fuel (l.links.first head)).map l.item

end LinkedMm

namespace Mm

/-- The lists of items are replaced. -/
def withQueues (s : Mm) (queues : PagesHead → List PageQueueItem) : Mm :=
  { s with activePages := queues .active, swappingPages := queues .swapping }

end Mm

/-- The calls that change the page queues, and everything else between them, which neither reads
nor changes the queues. -/
inductive QueueCall
  /-- The new item of `virtual_mapping`. -/
  | insertActive (page : PageQueueItem)
  | swapOut (initiator : ThreadId)
  /-- `swap_in` with the new item of `virtual_mapping`. -/
  | swapIn (page : PageQueueItem)
  | swapWriteCallback (token : Nat) (status : NfsStatus)
  | swapReadCallback (token : Nat) (status : NfsStatus) (bytesRead : Nat) (data : Nat → UInt8)
  | freeActivePages (chosen : PageQueueItem → Bool)
  | cancelSwapping (tid : ThreadId) (inRange : Nat → Bool)
  | other (f : Mm → Option Mm)
    (blind : ∀ s queues, f (s.withQueues queues) = (f s).map (·.withQueues queues))

namespace QueueCall

/-- A call, with the result of `swap_out`. -/
def onLinks (fuel : Nat) (l : LinkedMm) : QueueCall → Option (LinkedMm × Option SwapOutResult)
  | insertActive page => some (l.insertTail .active page, none)
  | swapOut initiator => (l.swapOut fuel initiator).map fun r => (r.1, some r.2)
  | swapIn page => some (l.swapIn page, none)
  | swapWriteCallback token status => (l.swapWriteCallback token status).map (·, none)
  | swapReadCallback token status bytesRead data =>
    (l.swapReadCallback token status bytesRead data).map (·, none)
  | freeActivePages chosen => (l.freeActivePages fuel chosen).map (·, none)
  | cancelSwapping tid inRange => (l.cancelSwapping fuel tid inRange).map (·, none)
  | other f _ => (f l.mm).map fun mm => ({ l with mm := mm }, none)

/-- `malloc` returns an address that no item of a queue has. -/
def Fresh (s : Mm) (page : PageQueueItem) : Prop :=
  ∀ it ∈ s.activePages ++ s.swappingPages, it.id ≠ page.id

instance (s : Mm) (page : PageQueueItem) : Decidable (Fresh s page) := by
  unfold Fresh
  infer_instance

/-- The same call on the lists. A new item is at a new address, and a token is the address of a
page that is being swapped. -/
def onLists (s : Mm) : QueueCall → Option (Mm × Option SwapOutResult)
  | insertActive page =>
    if Fresh s page then some ({ s with activePages := s.activePages ++ [page] }, none) else none
  | swapOut initiator => (s.swapOut initiator).map fun r => (r.1, some r.2)
  | swapIn page => if Fresh s page then some (s.swapIn page, none) else none
  | swapWriteCallback token status => do
    let page ← s.findItem token
    let s ← s.swapWriteCallback page status
    some (s, none)
  | swapReadCallback token status bytesRead data => do
    let page ← s.findItem token
    let s ← s.swapReadCallback page status bytesRead data
    some (s, none)
  | freeActivePages chosen => (s.freeActivePages chosen).map (·, none)
  | cancelSwapping tid inRange => some (s.cancelSwapping tid inRange, none)
  | other f _ => (f s).map (·, none)

/-- The calls one after the other, with the results of `swap_out`. -/
def runOnLinks (fuel : Nat) :
    List QueueCall → LinkedMm → Option (LinkedMm × List (Option SwapOutResult))
  | [], l => some (l, [])
  | call :: calls, l => do
    let (l, result) ← call.onLinks fuel l
    let (l, results) ← runOnLinks fuel calls l
    some (l, result :: results)

def runOnLists : List QueueCall → Mm → Option (Mm × List (Option SwapOutResult))
  | [], s => some (s, [])
  | call :: calls, s => do
    let (s, result) ← call.onLists s
    let (s, results) ← runOnLists calls s
    some (s, result :: results)

end QueueCall

end Sos
