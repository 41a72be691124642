import Sos.Nfs.Network

/-!
# `Sos.Properties.RemoteCalls`: what the callers of the NFS library can rely on

The file system and the swapper call `nfs_read` and its siblings with a callback, and take it
that the callback runs once, with the answer to that call. The network below delivers datagrams
late, several times, in another order, or not at all.

* `remote_calls_completed_once`: whatever arrives, each call is waiting or has been completed
  once, with a datagram that carries its transaction id.
* `remote_calls_answered`: if what arrives is from the server, each callback gets an answer that
  the server gave when it executed this very call with these arguments. This is for at most
  2 ^ 32 calls, as there are that many transaction ids.
* `remote_calls_sent_once`: the server sends the message of each call once, in the order of the
  calls, and never again, because nothing calls `nfs_timeout`. A call whose message or whose
  answer is lost waits for ever.
* `remote_calls_resent`: `nfs_timeout` would send the message of a call that is waiting again, at
  every seventh time it is called, unchanged, and no longer once the call is completed.
  `transport.c` says that this is every 500 ms; with a timeout every 100 ms it is every 700 ms.
-/

set_option autoImplicit false

namespace Sos.Nfs

namespace Network

/-- Each call is waiting for a datagram, or has been completed by one, and only once. -/
structure CompletedOnce (s : Network) : Prop where
  once : (s.completed.map (·.1)).Nodup
  waiting_or_completed : ∀ k < s.calls.length, k ∈ s.pending ∨ k ∈ s.completed.map (·.1)
  not_both : ∀ k ∈ s.pending, k ∉ s.completed.map (·.1)
  called : ∀ k ∈ s.completed.map (·.1), k < s.calls.length
  xid : ∀ x ∈ s.completed, extractXid x.2 = some (s.xidOf x.1)

/-- A run in which every datagram that arrives has been sent by the server. -/
def FromServer (s : Network) : NetworkAction → Prop
  | .arrive d => d ∈ s.replies
  | .call _ | .timeout | .serve .. => True

instance (s : Network) (a : NetworkAction) : Decidable (s.FromServer a) :=
  match a with
  | .arrive d => inferInstanceAs (Decidable (d ∈ s.replies))
  | .serve .. | .timeout | .call _ => inferInstanceAs (Decidable True)

/-- The datagrams that complete calls are from the server. -/
theorem completed_mem_replies {s : Network} (h : machine.Reachable FromServer s) :
    ∀ x ∈ s.completed, x.2 ∈ s.replies := by
  refine Lib.Machine.Reachable.invariant (fun s => ∀ x ∈ s.completed, x.2 ∈ s.replies) ?_ ?_ h
  · rintro s₀ ⟨nfsPort, start, -, rfl⟩ x hx
    simp [initial] at hx
  · intro s a s' hs hok hstep x hx
    obtain ⟨-, hexec⟩ := Option.ite_none_right_eq_some.mp hstep
    -- Only an arriving datagram completes a call, and it comes from the server.
    cases a with
    | call c =>
        obtain ⟨-, hexec⟩ := Option.ite_none_right_eq_some.mp hexec
        obtain ⟨t, -, h⟩ := Option.bind_eq_some_iff.mp hexec
        cases h
        exact hs x hx
    | timeout =>
        cases hexec
        exact hs x hx
    | serve i answers =>
        obtain ⟨_, -, h⟩ := Option.bind_eq_some_iff.mp hexec
        obtain ⟨_, -, h⟩ := Option.bind_eq_some_iff.mp h
        cases h
        exact List.mem_append_left _ (hs x hx)
    | arrive d =>
        obtain ⟨y, -, h⟩ := Option.bind_eq_some_iff.mp hexec
        cases h
        cases List.mem_append.mp hx with
        | inl hx => exact hs x hx
        | inr hx =>
            obtain ⟨k, -, rfl⟩ := Option.map_eq_some_iff.mp (Option.mem_toList.mp hx)
            exact hok

/-! ### The callback runs once -/

/-- Every call is completed at most once, whatever arrives. -/
theorem remote_calls_completed_once {s : Network} (h : machine.Reachable Lib.Machine.anyStep s) :
    s.CompletedOnce := by
  have hinv := Reachable.inv h
  have hnodup := List.nodup_append.mp (hinv.once.nodup_iff.mpr List.nodup_range)
  refine ⟨hnodup.2.1, ?_, ?_, ?_, hinv.completed⟩
  · intro k hk
    exact List.mem_append.mp (hinv.once.symm.subset (List.mem_range.mpr hk))
  · intro k hpending hcompleted
    exact hnodup.2.2 k hpending k hcompleted rfl
  · intro k hk
    exact List.mem_range.mp (hinv.once.subset (List.mem_append_right _ hk))

/-- The handle of a file. -/
def someFile : Cookie := ⟨List.replicate fhsize 7, List.length_replicate⟩

/-- The attributes of a file of four bytes. -/
def someAttr : Fattr where
  type := 1
  mode := 0o100600
  nlink := 1
  uid := 1000
  gid := 1000
  size := 4
  blocksize := 512
  rdev := 0
  blocks := 1
  fsid := 1
  fileid := 3
  atime := ⟨7, 0⟩
  mtime := ⟨7, 0⟩
  ctime := ⟨7, 0⟩

/-- The answers of a server that can only read: the file holds the word `sosh`. -/
def readOnly : (p : Proc) → Answer p
  | .read => .ok (someAttr, "sosh".toUTF8.toList)
  | .getattr | .lookup | .create | .write | .readdir => .error 2

/-- Two calls to the server. The answer to the second one arrives first, and a second time, and
after it a datagram that answers nothing. -/
def twoCalls : List NetworkAction :=
  [.call ⟨.getattr, someFile⟩, .call ⟨.read, (someFile, 0, 512)⟩, .serve 1 readOnly,
    .serve 0 readOnly, .arrive (encodeReply 102 (readOnly .read)),
    .arrive (encodeReply 102 (readOnly .read)), .arrive (wordBytes 7),
    .arrive (encodeReply 101 (readOnly .getattr))]

/-- The library has 100 as its first transaction id. -/
theorem init_initial : machine.init (initial 2049 100) := ⟨2049, 100, by decide, rfl⟩

/-- Both calls are completed, in the other order, whatever else arrives. -/
theorem remote_calls_completed_once_twoCalls :
    ∃ s : Network, s.completed.map (·.1) = [1, 0] ∧ s.CompletedOnce := by
  obtain ⟨s, -, hreach, hs⟩ := Lib.Machine.exists_run machine Lib.Machine.anyStep init_initial
    twoCalls (fun s => s.completed.map (·.1) = [1, 0]) (by decide +kernel)
  exact ⟨s, hs, remote_calls_completed_once hreach⟩

/-! ### The callback gets the answer -/

/-- The callback of a call gets what the server answered when it executed the call. -/
theorem remote_calls_answered {s : Network} (h : machine.Reachable FromServer s)
    (hcalls : s.calls.length ≤ 2 ^ 32) {k : Nat} {d : List UInt8} (hmem : (k, d) ∈ s.completed) :
    ∃ (c : Call) (answer : Answer c.proc), s.calls[k]? = some c ∧
      ⟨s.xidOf k, c, answer⟩ ∈ s.executed ∧ callback c.proc d = some answer.seen := by
  have hinv := Reachable.inv h
  obtain ⟨e, he, rfl⟩ := hinv.replies d (completed_mem_replies h _ hmem)
  obtain ⟨k', hk', hxid, hok⟩ := hinv.executed e he
  have hlt : e.xid < 2 ^ 32 := hxid ▸ s.xidOf_lt k'
  -- The datagram starts with the transaction id of the call that was executed.
  have hextract : extractXid (encodeReply e.xid e.answer) = some e.xid := by
    unfold encodeReply
    split
    · exact extractXid_wordBytes hlt _
    · exact extractXid_wordBytes hlt _
    · exact extractXid_wordBytes hlt _
    · exact extractXid_wordBytes hlt _
  have hsame : s.xidOf k = s.xidOf k' := by
    have hcompleted := hinv.completed _ hmem
    rw [hextract, Option.some.injEq] at hcompleted
    exact hcompleted.symm.trans hxid
  have hk : k < s.calls.length :=
    List.mem_range.mp (hinv.once.subset (List.mem_append_right _
      (List.mem_map.mpr ⟨(k, _), hmem, rfl⟩)))
  have heq : k = k' := xidOf_inj hcalls hk (List.getElem?_eq_some_iff.mp hk').1 hsame
  subst heq
  refine ⟨e.call, e.answer, hk', ?_, callback_encodeReply hlt hok⟩
  rw [← hxid]
  exact he

/-- The callback of the read gets the four bytes, though the call before it is still waiting. -/
theorem remote_calls_answered_read :
    ∃ (s : Network) (c : Call) (answer : Answer c.proc), s.calls[1]? = some c ∧
      ⟨s.xidOf 1, c, answer⟩ ∈ s.executed ∧
        callback c.proc (encodeReply 102 (readOnly .read)) = some answer.seen := by
  obtain ⟨s, -, hreach, hs⟩ := Lib.Machine.exists_run machine FromServer init_initial
    (twoCalls.take 6)
    (fun s => s.calls.length = 2 ∧ (1, encodeReply 102 (readOnly .read)) ∈ s.completed)
    (by decide +kernel)
  obtain ⟨c, answer, hc⟩ := remote_calls_answered hreach (by rw [hs.1]; decide) hs.2
  exact ⟨s, c, answer, hc⟩

/-! ### How often the message is sent -/

/-- The messages of a call on the network: how many there are after so many calls of
`nfs_timeout`, and what they are. -/
theorem remote_calls_resent {s : Network} (h : machine.Reachable Lib.Machine.anyStep s) {k : Nat}
    {c : Call} (hc : s.calls[k]? = some c) :
    (s.sent.map (·.1)).count k = s.age k / 7 + 1 ∧
      ∀ d, (k, d) ∈ s.sent → d = ⟨s.nfsPort, c.message (s.xidOf k)⟩ := by
  have hk := (List.getElem?_eq_some_iff.mp hc).1
  refine ⟨(Reachable.paced h).sends k hk, ?_⟩
  intro d hd
  obtain ⟨c', hc', heq⟩ := (Reachable.inv h).sent _ hd
  rw [hc] at hc'
  cases hc'
  exact heq

/-- A run of the server, which does not call `nfs_timeout`. -/
def NoTimeout (_ : Network) : NetworkAction → Prop
  | .timeout => False
  | .call _ | .serve .. | .arrive _ => True

instance (s : Network) (a : NetworkAction) : Decidable (s.NoTimeout a) :=
  match a with
  | .timeout => inferInstanceAs (Decidable False)
  | .call _ | .serve .. | .arrive _ => inferInstanceAs (Decidable True)

/-- What is on the network: the message of each call, once. -/
def SentOnce (s : Network) : Prop := s.sent = s.calls.mapIdx fun k c => (k, s.datagram k c)

/-- Only a call sends a message when `nfs_timeout` is not called. -/
theorem sentOnce_exec {s s' : Network} {a : NetworkAction} (hok : s.NoTimeout a)
    (h : s.exec a = some s') (hinv : s.Inv) (hs : s.SentOnce) : s'.SentOnce := by
  cases a with
  | call c =>
      rw [exec_call h hinv]
      show s.sent ++ [(s.calls.length, s.datagram s.calls.length c)] =
        (s.calls ++ [c]).mapIdx fun k c => (k, s.datagram k c)
      rw [List.mapIdx_concat, ← hs]
  | timeout => exact hok.elim
  | serve i answers =>
      obtain ⟨_, -, h⟩ := Option.bind_eq_some_iff.mp h
      obtain ⟨_, -, h⟩ := Option.bind_eq_some_iff.mp h
      cases h
      exact hs
  | arrive d =>
      obtain ⟨x, hx, h⟩ := Option.bind_eq_some_iff.mp h
      obtain ⟨xid, -, hx⟩ := Option.bind_eq_some_iff.mp hx
      cases hx
      cases h
      -- What `my_recv` leaves in the outbox is what was there before: nothing.
      show s.sent ++ s.transport.outbox = _
      rw [hinv.outbox, List.append_nil]
      exact hs

/-- The server sends the message of every call once, in the order of the calls, unchanged, and
nothing else. -/
theorem remote_calls_sent_once {s : Network} (h : machine.Reachable NoTimeout s) :
    s.sent = s.calls.mapIdx fun k c => (k, ⟨s.nfsPort, c.message (s.xidOf k)⟩) := by
  have hboth : s.Inv ∧ s.SentOnce := by
    refine Lib.Machine.Reachable.invariant (fun s => s.Inv ∧ s.SentOnce) ?_ ?_ h
    · rintro s₀ ⟨nfsPort, start, hstart, rfl⟩
      exact ⟨inv_initial nfsPort hstart, rfl⟩
    · intro s a s' hs hok hstep
      obtain ⟨ha, hexec⟩ := Option.ite_none_right_eq_some.mp hstep
      exact ⟨inv_exec ha hexec hs.1, sentOnce_exec hok hexec hs.1 hs.2⟩
  exact hboth.2

/-- The message of the second of three calls is lost: the other two are answered, and the second
one waits. -/
theorem remote_calls_sent_once_lost :
    ∃ s : Network, s.completed.map (·.1) = [2, 0] ∧ s.pending = [1] ∧
      s.sent = s.calls.mapIdx fun k c => (k, ⟨s.nfsPort, c.message (s.xidOf k)⟩) := by
  obtain ⟨s, -, hreach, hs⟩ := Lib.Machine.exists_run machine NoTimeout init_initial
    [.call ⟨.getattr, someFile⟩, .call ⟨.read, (someFile, 0, 512)⟩, .serve 0 readOnly,
      .call ⟨.lookup, (someFile, "sosh".toUTF8.toList)⟩, .serve 2 readOnly, .serve 2 readOnly,
      .arrive (encodeReply 103 (readOnly .lookup)), .arrive (encodeReply 101 (readOnly .getattr)),
      .arrive (encodeReply 103 (readOnly .lookup))]
    (fun s => s.completed.map (·.1) = [2, 0] ∧ s.pending = [1]) (by decide +kernel)
  exact ⟨s, hs.1, hs.2, remote_calls_sent_once hreach⟩

end Network

end Sos.Nfs
