import Mathlib.Data.List.Perm.Basic
import Sos.Nfs.Requests

/-!
# `Sos.Nfs.Transport`: the queue of remote calls

The rest of `libs/nfs/src/transport.c`. A call is in `queue` until a datagram arrives that starts
with its transaction id. `nfs_timeout` would send its message again, at every seventh call, but
nothing in the repository calls this function. The function to call with the reply and its two
arguments are one value here, `func`, of any type.

`outbox` is a record of what is sent, and of which item of the queue it is sent for.
-/

set_option autoImplicit false

namespace Sos.Nfs

/-- `struct rpc_queue`. -/
structure RpcQueue (κ : Type) where
  pbuf : List UInt8
  xid : Nat
  port : Nat
  timeout : Nat
  func : κ

/-- A datagram to a port of the server. -/
structure Datagram where
  port : Nat
  payload : List UInt8
deriving DecidableEq

/-- The static variables, and what has been sent. -/
structure Transport (κ : Type) where
  curXid : Nat
  queue : List (RpcQueue κ)
  outbox : List (κ × Datagram)

/-- `extract_xid`. It reads four bytes whatever the length of the datagram is; `none` is a read
behind its end. -/
def extractXid (data : List UInt8) : Option Nat := (getfrombuf data).map (·.1)

variable {κ : Type}

/-- `get_from_queue`: the first item with this transaction id, and the queue without it. -/
def getFromQueue (xid : Nat) : List (RpcQueue κ) → Option (RpcQueue κ) × List (RpcQueue κ)
  | [] => (none, [])
  | tmp :: queue =>
    if tmp.xid = xid then (some tmp, queue)
    else ((getFromQueue xid queue).1, tmp :: (getFromQueue xid queue).2)

namespace Transport

/-- `get_xid`. -/
def getXid (t : Transport κ) : Transport κ × Nat :=
  ({ t with curXid := (t.curXid + 1) % 2 ^ 32 }, (t.curXid + 1) % 2 ^ 32)

/-- `add_to_queue`. -/
def addToQueue (t : Transport κ) (pbuf : List UInt8) (port : Nat) (func : κ) :
    Option (Transport κ) := do
  let xid ← extractXid pbuf
  some { t with queue := t.queue ++ [⟨pbuf, xid, port, 0, func⟩] }

/-- `udp_send_to`. The length and the payload of the message are as before afterwards. -/
def udpSendTo (t : Transport κ) (port : Nat) (pbuf : List UInt8) (func : κ) : Transport κ :=
  { t with outbox := t.outbox ++ [(func, ⟨port, pbuf⟩)] }

/-- `rpc_send`. -/
def rpcSend (t : Transport κ) (pbuf : List UInt8) (port : Nat) (func : κ) :
    Option (Transport κ) := do
  let t ← t.addToQueue pbuf port func
  some (t.udpSendTo port pbuf func)

/-- `my_recv`: what is to be called with the datagram, if somebody waits for it. A datagram of
fewer than four bytes has no result: `my_recv` goes on with what is behind it in memory. -/
def myRecv (t : Transport κ) (p : List UInt8) : Option (Transport κ × Option κ) := do
  let xid ← extractXid p
  some ({ t with queue := (getFromQueue xid t.queue).2 },
    (getFromQueue xid t.queue).1.map (·.func))

end Transport

/-- An item after a turn of the loop of `nfs_timeout`. -/
def RpcQueue.tick (item : RpcQueue κ) : RpcQueue κ :=
  if item.timeout > 5 then { item with timeout := 0 } else { item with timeout := item.timeout + 1 }

/-- What the turn sends. -/
def RpcQueue.resend (item : RpcQueue κ) : Option (κ × Datagram) :=
  if item.timeout > 5 then some (item.func, ⟨item.port, item.pbuf⟩) else none

/-- `nfs_timeout`. It is meant to be called every 100 ms, but is not called at all. -/
def Transport.nfsTimeout (t : Transport κ) : Transport κ :=
  { t with
    queue := t.queue.map RpcQueue.tick
    outbox := t.outbox ++ t.queue.filterMap RpcQueue.resend }

/-! ### The transaction id of a message -/

/-- The transaction id is the first word. -/
theorem extractXid_wordBytes {n : Nat} (h : n < 2 ^ 32) (rest : List UInt8) :
    extractXid (wordBytes n ++ rest) = some n := by
  rw [extractXid, getfrombuf_wordBytes h, Option.map_some]

/-- The transaction id of a call comes out of its message. -/
theorem extractXid_message {txid : Nat} (h : txid < 2 ^ 32) (c : Call) :
    extractXid (c.message txid) = some txid := by
  rw [message_eq]
  exact extractXid_wordBytes h _

/-- The message goes to the end of the queue, and out. -/
theorem Transport.rpcSend_eq (t : Transport κ) {pbuf : List UInt8} {txid : Nat}
    (h : extractXid pbuf = some txid) (port : Nat) (func : κ) :
    t.rpcSend pbuf port func = some
      { t with
        queue := t.queue ++ [⟨pbuf, txid, port, 0, func⟩]
        outbox := t.outbox ++ [(func, ⟨port, pbuf⟩)] } := by
  unfold rpcSend addToQueue
  rw [h]
  rfl

/-! ### The queue -/

variable {xid : Nat} {queue : List (RpcQueue κ)} {item : RpcQueue κ}

/-- Nobody waits for the datagram: the queue stays. -/
theorem getFromQueue_none (h : (getFromQueue xid queue).1 = none) :
    (getFromQueue xid queue).2 = queue := by
  induction queue with
  | nil => rfl
  | cons tmp queue ih =>
      rw [getFromQueue] at h ⊢
      split at h
      · cases h
      next hne => rw [if_neg hne, ih h]

/-- The item that is found has the transaction id. -/
theorem getFromQueue_xid (h : (getFromQueue xid queue).1 = some item) : item.xid = xid := by
  induction queue with
  | nil => cases h
  | cons tmp queue ih =>
      rw [getFromQueue] at h
      split at h
      next heq =>
        cases h
        exact heq
      next => exact ih h

/-- The item is taken out once, and the others stay in their order. -/
theorem getFromQueue_perm (h : (getFromQueue xid queue).1 = some item) :
    (item :: (getFromQueue xid queue).2).Perm queue := by
  induction queue with
  | nil => cases h
  | cons tmp queue ih =>
      rw [getFromQueue] at h ⊢
      split at h
      next heq =>
        cases h
        rw [if_pos heq]
      next hne =>
        rw [if_neg hne]
        exact (List.Perm.swap tmp item _).trans ((ih h).cons tmp)

/-- The place in the queue where the item was. -/
theorem getFromQueue_eraseIdx (h : (getFromQueue xid queue).1 = some item) :
    ∃ k : Nat, queue[k]? = some item ∧ (getFromQueue xid queue).2 = queue.eraseIdx k := by
  induction queue with
  | nil => cases h
  | cons tmp queue ih =>
      rw [getFromQueue] at h ⊢
      split at h
      next heq =>
        cases h
        exact ⟨0, rfl, by rw [if_pos heq]; rfl⟩
      next hne =>
        obtain ⟨k, hk, hrest⟩ := ih h
        exact ⟨k + 1, hk, by rw [if_neg hne, hrest]; rfl⟩

/-- Nothing is put into the queue when an item is taken out. -/
theorem mem_of_mem_getFromQueue (h : item ∈ (getFromQueue xid queue).2) : item ∈ queue := by
  cases hfound : (getFromQueue xid queue).1 with
  | none => rwa [getFromQueue_none hfound] at h
  | some found => exact (getFromQueue_perm hfound).subset (List.mem_cons_of_mem _ h)

/-! A turn of the loop of `nfs_timeout` changes only the counter of an item. -/

/-- The callback of an item stays. -/
@[simp] theorem RpcQueue.tick_func (item : RpcQueue κ) : item.tick.func = item.func := by
  unfold RpcQueue.tick
  split <;> rfl

/-- So does its message. -/
@[simp] theorem RpcQueue.tick_pbuf (item : RpcQueue κ) : item.tick.pbuf = item.pbuf := by
  unfold RpcQueue.tick
  split <;> rfl

/-- So does its transaction. -/
@[simp] theorem RpcQueue.tick_xid (item : RpcQueue κ) : item.tick.xid = item.xid := by
  unfold RpcQueue.tick
  split <;> rfl

/-- So does the port it is sent to. -/
@[simp] theorem RpcQueue.tick_port (item : RpcQueue κ) : item.tick.port = item.port := by
  unfold RpcQueue.tick
  split <;> rfl

end Sos.Nfs
