import Sos.Lib.Machine
import Sos.Nfs.Replies
import Sos.Nfs.Transport

/-!
# `Sos.Nfs.Network`: remote calls over a network

The client of `libs/nfs`, the network and a server as a state machine. The network can lose
datagrams, keep them as long as it likes, deliver them again, and deliver them in any order:
whatever has been sent can arrive at any time, or never. The server can execute a call each time
one of its messages arrives, and answer something else each time.

Calls are numbered in the order in which they are made, and `func` of an item of the queue is the
number of the call. A call of `nfs_timeout` is a step too, though the server does not make any:
what holds of every run does not depend on it.

* `Network.Inv`: every message, wherever it is, belongs to a call, and every call is in the queue
  or is completed.
* `Network.Paced`: how often the message of a call has been sent, given the calls of
  `nfs_timeout`.
-/

set_option autoImplicit false

namespace Sos.Nfs

/-- The server has executed a call that it found in a message. -/
structure Execution where
  xid : Nat
  call : Call
  answer : Answer call.proc

/-- The client, and what has happened on the network and the server. -/
structure Network where
  transport : Transport Nat
  nfsPort : Nat
  /-- `cur_xid` at the start. -/
  start : Nat
  calls : List Call
  sent : List (Nat × Datagram)
  /-- How often `nfs_timeout` has run while the call was in the queue. -/
  age : Nat → Nat
  executed : List Execution
  replies : List (List UInt8)
  /-- The calls whose callback has run, and the datagram that it got. -/
  completed : List (Nat × List UInt8)

inductive NetworkAction
  /-- The client calls one of the functions of `nfsrpc.c`. -/
  | call (c : Call)
  /-- `nfs_timeout` is called. -/
  | timeout
  /-- The server gets the `i`-th of the datagrams that have been sent. Its answer depends on what
  it finds in it. -/
  | serve (i : Nat) (answers : (p : Proc) → Answer p)
  /-- A datagram arrives at the client. -/
  | arrive (d : List UInt8)

namespace Network

/-- What the client has sent is on the network. -/
def flush (s : Network) (t : Transport Nat) : Network :=
  { s with transport := { t with outbox := [] }, sent := s.sent ++ t.outbox }

/-- The numbers of the calls in the queue. -/
def pending (s : Network) : List Nat := s.transport.queue.map (·.func)

def Enabled : NetworkAction → Prop
  | .call c => c.Ok
  | .timeout => True
  | .serve _ answers => ∀ p, (answers p).Ok
  | .arrive _ => True

instance (a : NetworkAction) : Decidable (Enabled a) := by
  cases a with
  | timeout => exact inferInstanceAs (Decidable True)
  | arrive => exact inferInstanceAs (Decidable True)
  | call c => exact inferInstanceAs (Decidable c.Ok)
  | serve _ answers => exact inferInstanceAs (Decidable (∀ p, (answers p).Ok))

/-- One step. `none` is an invalid access, such as a message that is written beyond its buffer, or
a message that the server does not understand. -/
def exec (s : Network) : NetworkAction → Option Network
  | .call c =>
    if c.Fits s.transport.getXid.2 then do
      let t ← s.transport.getXid.1.rpcSend (c.message s.transport.getXid.2) s.nfsPort
        s.calls.length
      some { s.flush t with
        calls := s.calls ++ [c], age := Function.update s.age s.calls.length 0 }
    else none
  | .timeout =>
    some { s.flush s.transport.nfsTimeout with
      age := fun k => if k ∈ s.pending then s.age k + 1 else s.age k }
  | .serve i answers => do
    let x ← s.sent[i]?
    let c ← decodeCall x.2.payload
    some { s with
      executed := s.executed ++ [⟨c.xid, c.call, answers c.call.proc⟩]
      replies := s.replies ++ [encodeReply c.xid (answers c.call.proc)] }
  | .arrive d => do
    let x ← s.transport.myRecv d
    some { s.flush x.1 with completed := s.completed ++ (x.2.map fun k => (k, d)).toList }

/-- The client before its first call. -/
def initial (nfsPort start : Nat) : Network where
  transport := { curXid := start, queue := [], outbox := [] }
  nfsPort := nfsPort
  start := start
  calls := []
  sent := []
  age _ := 0
  executed := []
  replies := []
  completed := []

/-- The client, the network and the server. -/
def machine : Lib.Machine Network NetworkAction where
  init s := ∃ nfsPort start, start < 2 ^ 32 ∧ s = initial nfsPort start
  step s a := if Enabled a then s.exec a else none

/-- The transaction id of a call. -/
def xidOf (s : Network) (k : Nat) : Nat := (s.start + k + 1) % 2 ^ 32

/-- The datagram with the message of a call. -/
def datagram (s : Network) (k : Nat) (c : Call) : Datagram := ⟨s.nfsPort, c.message (s.xidOf k)⟩

/-- Every message belongs to a call. -/
structure Inv (s : Network) : Prop where
  curXid : s.transport.curXid = (s.start + s.calls.length) % 2 ^ 32
  outbox : s.transport.outbox = []
  ok : ∀ c ∈ s.calls, c.Ok
  queue : ∀ item ∈ s.transport.queue, ∃ c, s.calls[item.func]? = some c ∧
    item.xid = s.xidOf item.func ∧ ⟨item.port, item.pbuf⟩ = s.datagram item.func c
  once : (s.pending ++ s.completed.map (·.1)).Perm (List.range s.calls.length)
  sent : ∀ x ∈ s.sent, ∃ c, s.calls[x.1]? = some c ∧ x.2 = s.datagram x.1 c
  executed : ∀ e ∈ s.executed, ∃ k : Nat, s.calls[k]? = some e.call ∧ e.xid = s.xidOf k ∧
    e.answer.Ok
  replies : ∀ d ∈ s.replies, ∃ e ∈ s.executed, d = encodeReply e.xid e.answer
  completed : ∀ x ∈ s.completed, extractXid x.2 = some (s.xidOf x.1)

/-- A transaction id is a word. -/
theorem xidOf_lt (s : Network) (k : Nat) : s.xidOf k < 2 ^ 32 := Nat.mod_lt _ (Nat.two_pow_pos 32)

/-- Two of fewer than 2 ^ 32 calls have different transaction ids. -/
theorem xidOf_inj {s : Network} {n k k' : Nat} (hn : n ≤ 2 ^ 32) (hk : k < n) (hk' : k' < n)
    (h : s.xidOf k = s.xidOf k') : k = k' := by
  unfold xidOf at h
  omega

/-- The invariant holds before the first call. -/
theorem inv_initial (nfsPort : Nat) {start : Nat} (h : start < 2 ^ 32) :
    (initial nfsPort start).Inv where
  curXid := (Nat.mod_eq_of_lt h).symm
  outbox := rfl
  ok := by simp [initial]
  queue := by simp [initial]
  once := List.Perm.refl _
  sent := by simp [initial]
  executed := by simp [initial]
  replies := by simp [initial]
  completed := by simp [initial]

section

variable {s s' : Network}

/-- What a call leaves behind: a new item at the end of the queue, and its message on the
network. -/
theorem exec_call {c : Call} (h : s.exec (.call c) = some s') (hinv : s.Inv) :
    s' = { s with
      transport :=
        { curXid := s.xidOf s.calls.length
          queue := s.transport.queue ++ [⟨c.message (s.xidOf s.calls.length),
            s.xidOf s.calls.length, s.nfsPort, 0, s.calls.length⟩]
          outbox := [] }
      sent := s.sent ++ [(s.calls.length, s.datagram s.calls.length c)]
      calls := s.calls ++ [c]
      age := Function.update s.age s.calls.length 0 } := by
  -- The number that `get_xid` gives is the one of this call.
  have hxid : (s.transport.curXid + 1) % 2 ^ 32 = s.xidOf s.calls.length := by
    rw [hinv.curXid, Nat.mod_add_mod]
    rfl
  have hextract := extractXid_message (s.xidOf_lt s.calls.length) c
  obtain ⟨-, h⟩ := Option.ite_none_right_eq_some.mp h
  obtain ⟨t, ht, h⟩ := Option.bind_eq_some_iff.mp h
  rw [Transport.getXid, hxid, Transport.rpcSend_eq _ hextract, Option.some.injEq] at ht
  cases h
  -- The queue has the new item at its end, and the outbox goes into the network.
  rw [← ht]
  show Network.mk _ _ _ _ _ _ _ _ _ = _
  rw [flush, hinv.outbox]
  rfl

/-- A call keeps the invariant: its item and its message are new, and have its transaction id. -/
theorem inv_call {c : Call} (hc : c.Ok) (h : s.exec (.call c) = some s') (hinv : s.Inv) :
    s'.Inv := by
  rw [exec_call h hinv]
  have hold {k : Nat} {c' : Call} (h' : s.calls[k]? = some c') :
      (s.calls ++ [c])[k]? = some c' := by
    rw [List.getElem?_append_left (List.getElem?_eq_some_iff.mp h').1, h']
  have hnew : (s.calls ++ [c])[s.calls.length]? = some c := List.getElem?_concat_length
  constructor
  case curXid =>
    show (s.start + s.calls.length + 1) % 2 ^ 32 = (s.start + (s.calls ++ [c]).length) % 2 ^ 32
    rw [List.length_append, List.length_singleton, Nat.add_assoc]
  case outbox => rfl
  case ok =>
    intro c' hmem
    cases List.mem_append.mp hmem with
    | inl hmem => exact hinv.ok c' hmem
    | inr hmem => exact List.mem_singleton.mp hmem ▸ hc
  case queue =>
    intro item hmem
    cases List.mem_append.mp hmem with
    | inl hmem =>
        obtain ⟨c', hc', hitem⟩ := hinv.queue item hmem
        exact ⟨c', hold hc', hitem⟩
    | inr hmem =>
        rw [List.mem_singleton.mp hmem]
        exact ⟨c, hnew, rfl, rfl⟩
  -- The new call waits, and the calls are the old ones and the new one.
  case once =>
    show (List.map RpcQueue.func (s.transport.queue ++ [_]) ++ _).Perm
      (List.range (s.calls ++ [c]).length)
    rw [List.map_append, List.length_append, List.length_singleton, List.range_succ,
      List.append_assoc]
    exact (List.perm_append_comm.append_left _).trans
      ((List.append_assoc _ _ _ ▸ hinv.once.append_right _))
  -- A message in the network is an old one, or the one of the new call.
  case sent =>
    intro x hmem
    cases List.mem_append.mp hmem with
    | inl hmem =>
        obtain ⟨c', hc', hx⟩ := hinv.sent x hmem
        exact ⟨c', hold hc', hx⟩
    | inr hmem =>
        rw [List.mem_singleton.mp hmem]
        exact ⟨c, hnew, rfl⟩
  case executed =>
    intro e hmem
    obtain ⟨k, hk, he⟩ := hinv.executed e hmem
    exact ⟨k, hold hk, he⟩
  case replies => exact hinv.replies
  case completed => exact hinv.completed

/-- `nfs_timeout` keeps the invariant: what it sends is the message of an item. -/
theorem inv_timeout (h : s.exec .timeout = some s') (hinv : s.Inv) : s'.Inv := by
  cases h
  -- Counting the timeout leaves who waits.
  have hpending : (s.transport.queue.map RpcQueue.tick).map (·.func) = s.pending := by
    rw [List.map_map]
    exact List.map_congr_left fun item _ => item.tick_func
  constructor
  case curXid => exact hinv.curXid
  case outbox => rfl
  case ok => exact hinv.ok
  case queue =>
    intro item hmem
    obtain ⟨old, hold, rfl⟩ := List.mem_map.mp hmem
    rw [RpcQueue.tick_func, RpcQueue.tick_xid, RpcQueue.tick_port, RpcQueue.tick_pbuf]
    exact hinv.queue old hold
  case once =>
    show ((s.transport.queue.map RpcQueue.tick).map (·.func) ++ _).Perm _
    rw [hpending]
    exact hinv.once
  case sent =>
    intro x hmem
    cases List.mem_append.mp hmem with
    | inl hmem => exact hinv.sent x hmem
    | inr hmem =>
        -- What is sent again is the message of an item that still waits.
        rw [Transport.nfsTimeout, hinv.outbox, List.nil_append] at hmem
        obtain ⟨item, hitem, hx⟩ := List.mem_filterMap.mp hmem
        obtain ⟨c, hc, -, hd⟩ := hinv.queue item hitem
        unfold RpcQueue.resend at hx
        rw [Option.ite_none_right_eq_some, Option.some.injEq] at hx
        rw [← hx.2]
        exact ⟨c, hc, hd⟩
  case executed => exact hinv.executed
  case replies => exact hinv.replies
  case completed => exact hinv.completed

/-- The server finds in every datagram the call that it was sent for. -/
theorem inv_serve {i : Nat} {answers : (p : Proc) → Answer p} (hok : ∀ p, (answers p).Ok)
    (h : s.exec (.serve i answers) = some s') (hinv : s.Inv) : s'.Inv := by
  obtain ⟨x, hx, h⟩ := Option.bind_eq_some_iff.mp h
  -- What the NFS server gets is the message of a call, which it decodes to this call.
  obtain ⟨c, hc, hd⟩ := hinv.sent x (List.mem_of_getElem? hx)
  rw [hd] at h
  rw [show (s.datagram x.1 c).payload = c.message (s.xidOf x.1) from rfl,
    decodeCall_message (s.xidOf_lt x.1) (hinv.ok c (List.mem_of_getElem? hc)),
    Option.bind_eq_bind, Option.bind_some, Option.some.injEq] at h
  cases h
  refine ⟨hinv.curXid, hinv.outbox, hinv.ok, hinv.queue, hinv.once, hinv.sent, ?_, ?_,
    hinv.completed⟩
  · intro e hmem
    cases List.mem_append.mp hmem with
    | inl hmem => exact hinv.executed e hmem
    | inr hmem =>
        rw [List.mem_singleton.mp hmem]
        exact ⟨x.1, hc, rfl, hok c.proc⟩
  -- The new reply is the answer to the execution that has just been recorded.
  · intro d hmem
    cases List.mem_append.mp hmem with
    | inl hmem =>
        obtain ⟨e, he, hreply⟩ := hinv.replies d hmem
        exact ⟨e, List.mem_append_left _ he, hreply⟩
    | inr hmem =>
        rw [List.mem_singleton.mp hmem]
        exact ⟨_, List.mem_append_right _ (List.mem_singleton.mpr rfl), rfl⟩

/-- A datagram keeps the invariant: the item that it is for leaves the queue and is completed. -/
theorem inv_arrive {d : List UInt8} (h : s.exec (.arrive d) = some s') (hinv : s.Inv) :
    s'.Inv := by
  obtain ⟨x, hx, h⟩ := Option.bind_eq_some_iff.mp h
  obtain ⟨xid, hxid, hx⟩ := Option.bind_eq_some_iff.mp hx
  cases hx
  cases h
  cases hfound : (getFromQueue xid s.transport.queue).1 with
  | none =>
      -- Nobody waits for the datagram.
      unfold flush
      dsimp only
      rw [getFromQueue_none hfound, hinv.outbox, Option.map_none, Option.map_none,
        Option.toList_none, List.append_nil, List.append_nil]
      exact ⟨hinv.curXid, rfl, hinv.ok, hinv.queue, hinv.once, hinv.sent, hinv.executed,
        hinv.replies, hinv.completed⟩
  | some item =>
      have hperm := getFromQueue_perm hfound
      unfold flush
      dsimp only
      rw [hinv.outbox, Option.map_some, Option.map_some, Option.toList_some, List.append_nil]
      refine ⟨hinv.curXid, rfl, hinv.ok, ?_, ?_, hinv.sent, hinv.executed, hinv.replies, ?_⟩
      · intro item' hmem
        exact hinv.queue item' (mem_of_mem_getFromQueue hmem)
      · have hpending := hperm.map RpcQueue.func
        rw [List.map_append, ← List.append_assoc]
        exact (List.perm_append_singleton _ _).trans ((hpending.append_right _).trans hinv.once)
      · intro x hmem
        cases List.mem_append.mp hmem with
        | inl hmem => exact hinv.completed x hmem
        | inr hmem =>
            obtain ⟨c, -, hitem, -⟩ := hinv.queue item (hperm.subset List.mem_cons_self)
            rw [List.mem_singleton.mp hmem, hxid, ← getFromQueue_xid hfound]
            exact congrArg some hitem

/-- Every step keeps the invariant. -/
theorem inv_exec {a : NetworkAction} (ha : Enabled a) (h : s.exec a = some s') (hinv : s.Inv) :
    s'.Inv := by
  cases a with
  | call c => exact inv_call ha h hinv
  | timeout => exact inv_timeout h hinv
  | serve i answers => exact inv_serve ha h hinv
  | arrive d => exact inv_arrive h hinv

/-- The invariant holds in every run, whatever arrives at the client. -/
theorem Reachable.inv {ok : Network → NetworkAction → Prop} (h : machine.Reachable ok s) : s.Inv := by
  refine Lib.Machine.Reachable.invariant Inv ?_ ?_ h
  · rintro s₀ ⟨nfsPort, start, hstart, rfl⟩
    exact inv_initial nfsPort hstart
  · intro s a s' hinv _ hstep
    obtain ⟨ha, hexec⟩ := Option.ite_none_right_eq_some.mp hstep
    exact inv_exec ha hexec hinv

end

/-! ### How often a message is sent -/

/-- How often the message of a call has been sent. -/
def sends (s : Network) (k : Nat) : Nat := (s.sent.map (·.1)).count k

/-- The message of a call is sent when the call is made, and at every seventh timeout as long as
the call is in the queue. -/
structure Paced (s : Network) : Prop where
  sends : ∀ k < s.calls.length, s.sends k = s.age k / 7 + 1
  timeout : ∀ item ∈ s.transport.queue, item.timeout = s.age item.func % 7

section

variable {s s' : Network}

/-- No call is in the queue twice. -/
theorem Inv.pending_nodup (hinv : s.Inv) : s.pending.Nodup :=
  (List.nodup_append.mp (hinv.once.nodup_iff.mpr List.nodup_range)).1

/-- What is in the queue has been called. -/
theorem Inv.lt_of_pending (hinv : s.Inv) {k : Nat} (h : k ∈ s.pending) : k < s.calls.length :=
  List.mem_range.mp (hinv.once.subset (List.mem_append_left _ h))

/-- What has been sent has been called. -/
theorem Inv.lt_of_sent (hinv : s.Inv) {k : Nat} (h : k ∈ s.sent.map (·.1)) :
    k < s.calls.length := by
  obtain ⟨x, hx, rfl⟩ := List.mem_map.mp h
  obtain ⟨c, hc, -⟩ := hinv.sent x hx
  exact (List.getElem?_eq_some_iff.mp hc).1

/-- The calls whose message a timeout sends again. -/
theorem mem_resend {queue : List (RpcQueue Nat)} {age : Nat → Nat}
    (h : ∀ item ∈ queue, item.timeout = age item.func % 7) (k : Nat) :
    k ∈ (queue.filterMap RpcQueue.resend).map (·.1) ↔
      k ∈ queue.map (·.func) ∧ age k % 7 = 6 := by
  simp only [List.mem_map, List.mem_filterMap, RpcQueue.resend, Option.ite_none_right_eq_some,
    Option.some.injEq]
  constructor
  · rintro ⟨x, ⟨item, hitem, htimeout, rfl⟩, rfl⟩
    rw [h item hitem] at htimeout
    refine ⟨⟨item, hitem, rfl⟩, ?_⟩
    dsimp only
    omega
  · rintro ⟨⟨item, hitem, rfl⟩, hage⟩
    refine ⟨_, ⟨item, hitem, ?_, rfl⟩, rfl⟩
    rw [h item hitem]
    omega

/-- A timeout sends no message twice. -/
theorem nodup_resend {queue : List (RpcQueue Nat)} (h : (queue.map (·.func)).Nodup) :
    ((queue.filterMap RpcQueue.resend).map (·.1)).Nodup := by
  -- The items that are sent again are some of the queue, in its order.
  have hmap : (queue.filterMap RpcQueue.resend).map (·.1) =
      (queue.filter fun item => item.timeout > 5).map (·.func) := by
    induction queue with
    | nil => rfl
    | cons item queue ih =>
        have hrest := ih (List.nodup_cons.mp h).2
        by_cases htimeout : item.timeout > 5
        · have hitem : item.resend = some (item.func, ⟨item.port, item.pbuf⟩) := if_pos htimeout
          rw [List.filterMap_cons_some hitem, List.filter_cons_of_pos (by simpa using htimeout),
            List.map_cons, List.map_cons, hrest]
        · have hitem : item.resend = none := if_neg htimeout
          rw [List.filterMap_cons_none hitem, List.filter_cons_of_neg (by simpa using htimeout),
            hrest]
  rw [hmap]
  exact h.sublist (List.filter_sublist.map _)

/-- A call sends its message once, and its counter starts at 0. -/
theorem paced_call {c : Call} (h : s.exec (.call c) = some s') (hinv : s.Inv) (hp : s.Paced) :
    s'.Paced := by
  rw [exec_call h hinv]
  constructor
  case sends =>
    intro k hk
    replace hk : k < (s.calls ++ [c]).length := hk
    rw [List.length_append, List.length_singleton] at hk
    show List.count k (List.map _ (s.sent ++ [_])) = Function.update s.age s.calls.length 0 k / 7 + 1
    rw [List.map_append, List.count_append]
    -- The new call has been sent once; the others are as before.
    by_cases heq : k = s.calls.length
    · subst heq
      have hzero : List.count s.calls.length (s.sent.map (·.1)) = 0 :=
        List.count_eq_zero.mpr fun hmem => Nat.lt_irrefl _ (hinv.lt_of_sent hmem)
      rw [hzero, Function.update_self, List.map_singleton, List.count_singleton_self]
    · rw [Function.update_of_ne heq, List.map_singleton,
        List.count_singleton, if_neg (by simpa using fun h => heq h.symm)]
      exact hp.sends k (by omega)
  case timeout =>
    intro item hmem
    cases List.mem_append.mp hmem with
    | inl hmem =>
        have hlt := hinv.lt_of_pending (List.mem_map.mpr ⟨item, hmem, rfl⟩)
        show _ = Function.update s.age s.calls.length 0 item.func % 7
        rw [Function.update_of_ne (Nat.ne_of_lt hlt)]
        exact hp.timeout item hmem
    | inr hmem =>
        rw [List.mem_singleton.mp hmem]
        show 0 = Function.update s.age s.calls.length 0 s.calls.length % 7
        rw [Function.update_self]

/-- A timeout sends the messages of those items whose counter has come round. -/
theorem paced_timeout (h : s.exec .timeout = some s') (hinv : s.Inv) (hp : s.Paced) :
    s'.Paced := by
  cases h
  constructor
  case sends =>
    intro k hk
    show List.count k (List.map _ (s.sent ++ (s.transport.outbox ++ _))) =
      (if k ∈ s.pending then s.age k + 1 else s.age k) / 7 + 1
    have hold : List.count k (s.sent.map (·.1)) = s.age k / 7 + 1 := hp.sends k hk
    rw [hinv.outbox, List.nil_append, List.map_append, List.count_append, hold,
      (nodup_resend hinv.pending_nodup).count, if_congr (mem_resend hp.timeout k)
        rfl rfl]
    -- A call that waits is sent again at the seventh timeout, and one that does not is never sent
    -- again.
    by_cases hmem : k ∈ s.pending
    · rw [if_pos hmem]
      by_cases hage : s.age k % 7 = 6
      · rw [if_pos ⟨hmem, hage⟩]
        omega
      · rw [if_neg fun h => hage h.2]
        omega
    · rw [if_neg hmem, if_neg fun h => hmem h.1]
  case timeout =>
    intro item hmem
    obtain ⟨old, hold, rfl⟩ := List.mem_map.mp hmem
    have hpending : old.func ∈ s.pending := List.mem_map.mpr ⟨old, hold, rfl⟩
    have htimeout := hp.timeout old hold
    show old.tick.timeout = (if old.tick.func ∈ s.pending then _ else _) % 7
    rw [RpcQueue.tick_func, if_pos hpending]
    unfold RpcQueue.tick
    -- The counter goes back to zero at the timeout that sends.
    split
    · show 0 = _
      omega
    · show old.timeout + 1 = _
      omega

/-- Every step keeps the count of the messages. -/
theorem paced_exec {a : NetworkAction} (h : s.exec a = some s') (hinv : s.Inv) (hp : s.Paced) :
    s'.Paced := by
  cases a with
  | call c => exact paced_call h hinv hp
  | timeout => exact paced_timeout h hinv hp
  | serve i answers =>
      obtain ⟨x, -, h⟩ := Option.bind_eq_some_iff.mp h
      obtain ⟨c, -, h⟩ := Option.bind_eq_some_iff.mp h
      cases h
      exact ⟨hp.sends, hp.timeout⟩
  | arrive d =>
      obtain ⟨x, hx, h⟩ := Option.bind_eq_some_iff.mp h
      obtain ⟨xid, -, hx⟩ := Option.bind_eq_some_iff.mp hx
      cases hx
      cases h
      constructor
      -- A datagram that arrives sends nothing, and takes at most one item out of the queue.
      · intro k hk
        show List.count k (List.map _ (s.sent ++ s.transport.outbox)) = _
        rw [hinv.outbox, List.append_nil]
        exact hp.sends k hk
      · intro item hmem
        exact hp.timeout item (mem_of_mem_getFromQueue hmem)

/-- In every run the messages of a call can be counted from the timeouts. -/
theorem Reachable.paced {ok : Network → NetworkAction → Prop} (h : machine.Reachable ok s) :
    s.Paced := by
  have hboth : s.Inv ∧ s.Paced := by
    refine Lib.Machine.Reachable.invariant (fun s => s.Inv ∧ s.Paced) ?_ ?_ h
    · rintro s₀ ⟨nfsPort, start, hstart, rfl⟩
      exact ⟨inv_initial nfsPort hstart, ⟨by simp [initial], by simp [initial]⟩⟩
    · intro s a s' hs _ hstep
      obtain ⟨ha, hexec⟩ := Option.ite_none_right_eq_some.mp hstep
      exact ⟨inv_exec ha hexec hs.1, paced_exec hexec hs.1 hs.2⟩
  exact hboth.2

end

end Network

end Sos.Nfs
