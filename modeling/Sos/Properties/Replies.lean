import Sos.Files.Effects
import Sos.Paging.Sends
import Sos.Properties.Creation
import Sos.Server.Step

/-!
# `Sos.Properties.Replies`: the stubs get the words they ask for

`stubs_agree_iff`: in every run of the server, the messages that answer a system call carry the
number of words that the stub of libsos asserts (`Syscall.stubWords`), as long as nobody calls
`wait_process` for a process that is not active. A step breaks the rule if and only if it handles
such a call: the reply then has 11 words, the number of the call (`wait_for_inactive`).

The replies of the handlers are looked at one by one (`handle_reply`). What is sent later by a
callback has the label of its call, and one word (`ClientMessage.fits_of_event`).
-/

set_option autoImplicit false

namespace Sos

/-- The number of untyped words that the stub of a call asserts. `process_start` and
`sos_debug_flush` do not look at the reply. -/
def Syscall.stubWords : Syscall → Option Nat
  | .sosTimestamp => some 2
  | .sosProcessStart | .sosUnmapAll => none
  | .sosOpen | .sosRead | .sosWrite | .sosClose | .sosGetdirent | .sosStat | .sosProcessCreate
  | .sosProcessDelete | .sosProcessId | .sosProcessStatus | .sosProcessWait | .sosProcessGetName
  | .sosSleep => some 1

/-- The message has the number of words that the stub of its call asserts. -/
def ClientMessage.Fits (m : ClientMessage) : Prop :=
  ∀ call ∈ m.call, ∀ n ∈ call.stubWords, m.words.length = n

/-- The reply of a handler has the number of words that the stub asserts. -/
def Reply.Fits (reply : Reply) (call : Syscall) : Prop :=
  ∀ words ∈ reply, ∀ n ∈ call.stubWords, words.length = n

/-- One word fits every stub that asks for one. -/
theorem Reply.fits_one {call : Syscall} (hcall : call.stubWords = some 1) (word : Int) :
    Reply.Fits (some [word]) call := by
  intro words hwords n hn
  obtain rfl := Option.some.inj hwords
  rw [hcall] at hn
  exact Option.some.inj hn

/-- Replying nothing now fits every stub. -/
theorem Reply.fits_none (call : Syscall) : Reply.Fits none call := nofun

/-! ### Direct replies -/

/-- `delete_process` replies one word, or nothing to itself. -/
theorem Mm.deleteProcess_fits {s s' : Mm} {tid : ThreadId} {pid : Int} {reply : Reply}
    (h : s.deleteProcess tid pid = some (s', reply)) : reply.Fits .sosProcessDelete := by
  unfold deleteProcess at h
  -- One word, also for a pid that is refused; a process that kills itself gets no answer.
  split at h
  · cases h
    exact Reply.fits_one rfl _
  · dsimp only at h
    split at h
    · cases h
      exact Reply.fits_one rfl _
    · obtain ⟨s₁, -, h⟩ := Option.bind_eq_some_iff.mp h
      obtain ⟨s₂, -, h⟩ := Option.bind_eq_some_iff.mp h
      split at h
      · obtain ⟨-, rfl⟩ := Prod.mk.inj (Option.some.inj h)
        exact Reply.fits_one rfl _
      · obtain ⟨-, rfl⟩ := Prod.mk.inj (Option.some.inj h)
        exact Reply.fits_none _

/-- The arguments of `set_ipc_reply` are one place off for a process that is not active. -/
theorem Mm.waitProcess_fits_iff {s : Mm} {tid : ThreadId} {pid : Int} {stack : Nat → Int} :
    (s.waitProcess tid pid stack).2.Fits .sosProcessWait ↔
      ¬ (0 ≤ pid ∧ pid < maxRunningProcess ∧
        (s.getProcess (s.pid2tid pid.toNat)).isActive = false) := by
  unfold waitProcess
  split
  next hany =>
    -- Waiting for any process or for an active one is answered later, by the deletion.
    refine iff_of_true (Reply.fits_none _) fun hpid => ?_
    rw [hany] at hpid
    exact absurd hpid.1 (by decide)
  next hany =>
    -- A pid out of range is answered with one word.
    split
    next hrange =>
      refine iff_of_true (Reply.fits_one rfl _) fun hpid => ?_
      omega
    next hrange =>
      dsimp only
      split
      next hinactive =>
        rw [Bool.not_eq_true'] at hinactive
        -- The answer has as many words as the number of the call says.
        refine iff_of_false (fun hfits => ?_) fun hnot => hnot ⟨by omega, by omega, hinactive⟩
        have hlength := hfits _ rfl 1 rfl
        rw [setIpcReply_length] at hlength
        exact absurd hlength (by decide)
      next hactive =>
        refine iff_of_true (Reply.fits_none _) fun hpid => ?_
        rw [hpid.2.2] at hactive
        exact hactive rfl

/-- `read_file` replies one word when it fails and nothing now otherwise. -/
theorem Io.readFile_fits {s : Io} {r : Io × Reply} {tid : ThreadId} {words : List Nat}
    {buf : Option IpcPage} (h : s.readFile tid words buf = some r) : r.2.Fits .sosRead := by
  unfold readFile at h
  split at h
  · obtain ⟨entry, -, h⟩ := Option.bind_eq_some_iff.mp h
    cases entry with
    | none =>
        cases h
        exact Reply.fits_one rfl _
    | some ef =>
        obtain ⟨file, -, h⟩ := Option.bind_eq_some_iff.mp h
        obtain ⟨s₁, -, h⟩ := Option.bind_eq_some_iff.mp h
        cases h
        exact Reply.fits_none _
  · cases h
    exact Reply.fits_one rfl _

/-- So does `write_file`. -/
theorem Io.writeFile_fits {s : Io} {r : Io × Reply} {tid : ThreadId} {words : List Nat}
    {buf : Option IpcPage} {allocated : Bool}
    (h : s.writeFile tid words buf allocated = some r) : r.2.Fits .sosWrite := by
  unfold writeFile at h
  split at h
  -- Refused by the access check or by the page size, else answered by the callback.
  · obtain ⟨entry, -, h⟩ := Option.bind_eq_some_iff.mp h
    cases entry with
    | none =>
        cases h
        exact Reply.fits_one rfl _
    | some ef =>
        dsimp only at h
        split at h
        · cases h
          exact Reply.fits_one rfl _
        · obtain ⟨file, -, h⟩ := Option.bind_eq_some_iff.mp h
          obtain ⟨s₁, -, h⟩ := Option.bind_eq_some_iff.mp h
          cases h
          exact Reply.fits_none _
  · cases h
    exact Reply.fits_one rfl _

/-- `close_file` replies one word. -/
theorem Io.closeFile_fits {s : Io} {r : Io × Reply} {tid : ThreadId} {words : List Nat}
    (h : s.closeFile tid words = some r) : r.2.Fits .sosClose := by
  unfold closeFile at h
  split at h
  · split at h
    · cases h
      exact Reply.fits_one rfl _
    · obtain ⟨f, -, h⟩ := Option.bind_eq_some_iff.mp h
      obtain ⟨file, -, h⟩ := Option.bind_eq_some_iff.mp h
      obtain ⟨s₁, -, h⟩ := Option.bind_eq_some_iff.mp h
      obtain ⟨s₂, -, h⟩ := Option.bind_eq_some_iff.mp h
      cases h
      exact Reply.fits_one rfl _
  · cases h
    exact Reply.fits_one rfl _

/-- `get_dirent` replies one word. -/
theorem Io.getDirent_fits {s : Io} {r : Reply × Option (List UInt8)} {words : List Nat}
    {buf : Option IpcPage} (h : s.getDirent words buf = some r) : r.1.Fits .sosGetdirent := by
  unfold getDirent at h
  split at h
  · split at h
    · cases h
      exact Reply.fits_one rfl _
    · split at h
      · cases h
        exact Reply.fits_one rfl _
      · obtain ⟨file, -, h⟩ := Option.bind_eq_some_iff.mp h
        cases h
        exact Reply.fits_one rfl _
  · cases h
    exact Reply.fits_one rfl _

/-- `stat_file` replies one word. -/
theorem Io.statFile_fits {null : Option (List UInt8)} {s : Io} {r : Reply × Option Stat}
    {words : List Nat} {buf : Option IpcPage} (h : s.statFile null words buf = some r) :
    r.1.Fits .sosStat := by
  unfold statFile at h
  split at h
  · obtain ⟨index, -, h⟩ := Option.bind_eq_some_iff.mp h
    cases index with
    | none =>
        cases h
        exact Reply.fits_one rfl _
    | some index =>
        obtain ⟨file, -, h⟩ := Option.bind_eq_some_iff.mp h
        cases h
        exact Reply.fits_one rfl _
  · cases h
    exact Reply.fits_one rfl _

/-- `sleep_timer` replies one word when it fails and nothing now otherwise. -/
theorem Clock.sleepTimer_fits (c : Clock) (tid : ThreadId) (words : List Nat) (allocated : Bool) :
    (c.sleepTimer tid words allocated).2.Fits .sosSleep := by
  unfold sleepTimer
  split
  · dsimp only
    split
    · exact Reply.fits_one rfl _
    · exact Reply.fits_none _
  · exact Reply.fits_one rfl _

/-- `send_timestamp` replies the two halves of the time stamp. -/
theorem Clock.sendTimestamp_fits (c : Clock) : c.sendTimestamp.Fits .sosTimestamp := by
  intro words hwords n hn
  obtain rfl := Option.some.inj hwords
  obtain rfl := Option.some.inj hn
  rfl

namespace Server

variable {null : Option (List UInt8)} {nullOwner : Option ThreadId} {s : Server} {tid : ThreadId}
  {words : List Nat} {env : CallEnv}

/-- The whole of `delete_process`, with its files and alarms. -/
theorem deleteProcess_fits {s' : Server} {reply : Reply}
    (h : s.deleteProcess nullOwner tid words = some (s', reply)) :
    reply.Fits .sosProcessDelete := by
  unfold deleteProcess at h
  split at h
  -- The checks of the handler come first, then that of the memory part.
  · dsimp only at h
    split at h
    · cases h
      exact Reply.fits_one rfl _
    · split at h
      · cases h
        exact Reply.fits_one rfl _
      · obtain ⟨⟨mm, reply₁⟩, hmm, h⟩ := Option.bind_eq_some_iff.mp h
        obtain ⟨io, -, h⟩ := Option.bind_eq_some_iff.mp h
        obtain ⟨clock, -, h⟩ := Option.bind_eq_some_iff.mp h
        cases h
        exact Mm.deleteProcess_fits hmm
  · cases h
    exact Reply.fits_one rfl _

/-- `get_process_status` replies one word. -/
theorem getProcessStatus_fits (s : Server) (words : List Nat) (buf : Option IpcPage) :
    (s.getProcessStatus words buf).1.Fits .sosProcessStatus := by
  unfold getProcessStatus
  split
  · exact Reply.fits_one rfl _
  · exact Reply.fits_one rfl _

/-- `get_executable_name` replies one word. -/
theorem getExecutableName_fits (s : Server) (tid : ThreadId) (buf : Option IpcPage) :
    (s.getExecutableName tid buf).1.Fits .sosProcessGetName := by
  unfold getExecutableName
  split
  · split
    · exact Reply.fits_one rfl _
    · exact Reply.fits_one rfl _
  · exact Reply.fits_one rfl _

/-- `wait_process` finds the process that these words name inactive. -/
def NamesInactive (s : Server) : List Nat → Prop
  | [word] =>
    0 ≤ toInt32 word ∧ toInt32 word < maxRunningProcess ∧
      (s.mm.getProcess (s.mm.pid2tid (toInt32 word).toNat)).isActive = false
  | _ => False

instance (s : Server) (words : List Nat) : Decidable (s.NamesInactive words) := by
  unfold NamesInactive
  split
  · exact inferInstanceAs (Decidable (_ ∧ _ ∧ _))
  · exact inferInstanceAs (Decidable False)

/-- `wait_process` replies what its stub asks for unless the message names a process that is not
there. -/
theorem waitProcess_fits_iff {stack : Nat → Int} :
    (s.waitProcess tid words stack).2.Fits .sosProcessWait ↔ ¬ s.NamesInactive words := by
  unfold waitProcess
  split
  next word => exact Mm.waitProcess_fits_iff
  next hno =>
    refine iff_of_true (Reply.fits_one rfl _) fun hnames => ?_
    unfold NamesInactive at hnames
    split at hnames
    next word => exact hno word rfl
    next => exact hnames

/-- Only `wait_process` replies with a wrong number of words, for a process that is not active. -/
theorem handle_fits_iff {call : Syscall} {h : Handled}
    (hs : s.handle null nullOwner tid words env call = some h) :
    h.reply.Fits call ↔ ¬ (call = .sosProcessWait ∧ s.NamesInactive words) := by
  have hother : call ≠ .sosProcessWait → h.reply.Fits call →
      (h.reply.Fits call ↔ ¬ (call = .sosProcessWait ∧ s.NamesInactive words)) :=
    fun hne hfits => iff_of_true hfits fun hwait => hne hwait.1
  cases call with
  | sosOpen =>
      obtain ⟨io, -, hs⟩ := Option.bind_eq_some_iff.mp hs
      cases hs
      exact hother nofun (Reply.fits_none _)
  | sosRead =>
      obtain ⟨⟨io, reply⟩, hr, hs⟩ := Option.bind_eq_some_iff.mp hs
      cases hs
      exact hother nofun (Io.readFile_fits hr)
  | sosWrite =>
      obtain ⟨⟨io, reply⟩, hr, hs⟩ := Option.bind_eq_some_iff.mp hs
      cases hs
      exact hother nofun (Io.writeFile_fits hr)
  | sosClose =>
      obtain ⟨⟨io, reply⟩, hr, hs⟩ := Option.bind_eq_some_iff.mp hs
      cases hs
      exact hother nofun (Io.closeFile_fits hr)
  | sosGetdirent =>
      obtain ⟨⟨reply, name⟩, hr, hs⟩ := Option.bind_eq_some_iff.mp hs
      cases hs
      exact hother nofun (Io.getDirent_fits hr)
  | sosStat =>
      obtain ⟨⟨reply, status⟩, hr, hs⟩ := Option.bind_eq_some_iff.mp hs
      cases hs
      exact hother nofun (Io.statFile_fits hr)
  | sosProcessCreate =>
      obtain ⟨⟨s', reply, started⟩, -, hs⟩ := Option.bind_eq_some_iff.mp hs
      cases hs
      exact hother nofun (Reply.fits_one rfl _)
  | sosProcessStart =>
      -- The stub does not look at the reply.
      exact hother nofun nofun
  | sosProcessDelete =>
      obtain ⟨⟨s', reply⟩, hr, hs⟩ := Option.bind_eq_some_iff.mp hs
      cases hs
      exact hother nofun (deleteProcess_fits hr)
  | sosProcessId =>
      cases hs
      exact hother nofun (Reply.fits_one rfl _)
  | sosProcessStatus =>
      cases hs
      exact hother nofun (getProcessStatus_fits s words env.buf)
  | sosProcessWait =>
      cases hs
      rw [and_iff_right rfl]
      exact waitProcess_fits_iff
  | sosProcessGetName =>
      cases hs
      exact hother nofun (getExecutableName_fits s tid env.buf)
  | sosSleep =>
      cases hs
      exact hother nofun (Clock.sleepTimer_fits s.clock tid words env.allocated)
  | sosTimestamp =>
      cases hs
      exact hother nofun (Clock.sendTimestamp_fits _)
  | sosUnmapAll => exact hother nofun nofun

/-! ### What a handler sends -/

/-- A handler only adds to what has been sent. -/
structure Adds (s s' : Server) : Prop where
  mm : s.mm.Sends s'.mm
  io : Io.Replies s.io s'.io

/-- Nothing is sent. -/
theorem Adds.refl (s : Server) : s.Adds s := ⟨.refl _, .of_eq rfl⟩

/-- `delete_process` sends further replies to those who wait. -/
theorem deleteProcess_adds {s' : Server} {reply : Reply}
    (h : s.deleteProcess nullOwner tid words = some (s', reply)) : s.Adds s' := by
  unfold deleteProcess at h
  split at h
  -- A refused call adds nothing; otherwise the memory and the files add their own.
  · dsimp only at h
    split at h
    · cases h
      exact .refl s
    · split at h
      · cases h
        exact .refl s
      · obtain ⟨⟨mm, reply₁⟩, hmm, h⟩ := Option.bind_eq_some_iff.mp h
        obtain ⟨io, hio, h⟩ := Option.bind_eq_some_iff.mp h
        obtain ⟨clock, -, h⟩ := Option.bind_eq_some_iff.mp h
        cases h
        exact ⟨Mm.deleteProcess_sends hmm, (Io.closeFiles_effects hio).replies⟩
  · cases h
    exact .refl s

/-- `create_process` sends none. -/
theorem createProcess_adds {buf : Option IpcPage} {create : CreateEnv}
    {r : Server × Int × Option ThreadId} (h : s.createProcess null buf create = some r) :
    s.Adds r.1 := by
  obtain ⟨found, -, h⟩ := Option.bind_eq_some_iff.mp h
  -- No such file, or no free slot: nothing is sent.
  cases found with
  | error e =>
      cases h
      exact .refl s
  | ok name =>
      dsimp only at h
      split at h
      · cases h
        exact .refl s
      · have hquiet : (s.mm.registerProcess name s.clock.getTimeStamp).1.outbox = s.mm.outbox :=
          Mm.registerProcess_outbox
        unfold registerProcess at h
        cases hentry : s.mm.registerProcess name s.clock.getTimeStamp with
        | mk mm entry =>
            rw [hentry] at h hquiet
            cases entry with
            | none =>
                cases h
                exact ⟨.of_eq hquiet, .of_eq rfl⟩
            | some i =>
                cases h
                exact ⟨.of_eq hquiet, (Io.registerFiletable_effects ..).replies⟩

/-- What each system call sends besides its own reply, by cases on the call. -/
theorem handle_adds {call : Syscall} {h : Handled}
    (hs : s.handle null nullOwner tid words env call = some h) : s.Adds h.server := by
  -- One case for each handler; calls that only read the state come last.
  cases call with
  | sosOpen =>
      obtain ⟨io, hr, hs⟩ := Option.bind_eq_some_iff.mp hs
      cases hs
      exact ⟨.refl _, (Io.openFile_effects hr).replies⟩
  | sosRead =>
      obtain ⟨⟨io, reply⟩, hr, hs⟩ := Option.bind_eq_some_iff.mp hs
      cases hs
      exact ⟨.refl _, Io.readFile_replies hr⟩
  | sosWrite =>
      obtain ⟨⟨io, reply⟩, hr, hs⟩ := Option.bind_eq_some_iff.mp hs
      cases hs
      exact ⟨.refl _, (Io.writeFile_effects hr).replies⟩
  | sosClose =>
      obtain ⟨⟨io, reply⟩, hr, hs⟩ := Option.bind_eq_some_iff.mp hs
      cases hs
      exact ⟨.refl _, (Io.closeFile_effects hr).replies⟩
  | sosGetdirent =>
      obtain ⟨⟨reply, name⟩, -, hs⟩ := Option.bind_eq_some_iff.mp hs
      cases hs
      exact .refl s
  | sosStat =>
      obtain ⟨⟨reply, status⟩, -, hs⟩ := Option.bind_eq_some_iff.mp hs
      cases hs
      exact .refl s
  | sosProcessCreate =>
      obtain ⟨⟨s', reply, started⟩, hr, hs⟩ := Option.bind_eq_some_iff.mp hs
      cases hs
      exact createProcess_adds hr
  | sosProcessStart =>
      obtain ⟨⟨s', reply⟩, hr, hs⟩ := Option.bind_eq_some_iff.mp hs
      cases hs
      unfold startProcess at hr
      split at hr
      · split at hr
        · obtain ⟨⟨mm, reply₁⟩, hmm, hr⟩ := Option.bind_eq_some_iff.mp hr
          cases hr
          exact ⟨Mm.startProcess_sends hmm, .of_eq rfl⟩
        · obtain ⟨⟨s₁, reply₁⟩, hdelete, hr⟩ := Option.bind_eq_some_iff.mp hr
          cases hr
          exact deleteProcess_adds hdelete
      · cases hr
        exact .refl s
  | sosProcessDelete =>
      obtain ⟨⟨s', reply⟩, hr, hs⟩ := Option.bind_eq_some_iff.mp hs
      cases hs
      exact deleteProcess_adds hr
  | sosProcessWait =>
      cases hs
      refine ⟨.of_eq ?_, ?_⟩
      · dsimp only [waitProcess]
        split
        · exact Mm.waitProcess_outbox
        · rfl
      · dsimp only [waitProcess]
        split
        · exact .of_eq rfl
        · exact .of_eq rfl
  | sosUnmapAll =>
      obtain ⟨mm, hr, hs⟩ := Option.bind_eq_some_iff.mp hs
      cases hs
      exact ⟨.of_eq (Mm.pagerUnmapRange_outbox hr), .of_eq rfl⟩
  | sosProcessId | sosProcessStatus | sosProcessGetName | sosSleep | sosTimestamp =>
      cases hs
      exact ⟨.refl _, .of_eq rfl⟩

/-- What the pager sends besides the answer to the fault. -/
theorem pager_adds {addr access : Nat} {env : FaultEnv} {s' : Server} {reply : Reply}
    (h : s.pager nullOwner tid addr access env = some (s', reply)) : s.Adds s' := by
  unfold pager at h
  split at h
  · obtain ⟨⟨s₁, reply₁⟩, hdelete, h⟩ := Option.bind_eq_some_iff.mp h
    cases h
    exact deleteProcess_adds hdelete
  · obtain ⟨⟨mm, reply₁⟩, hmm, h⟩ := Option.bind_eq_some_iff.mp h
    cases h
    exact ⟨(Mm.pager_sends hmm).1, .of_eq rfl⟩

end Server

/-! ### What is sent later -/

/-- A call whose messages have its label has a stub that asserts one word. -/
theorem stubWords_of_label {label : Int} {call : Syscall} (h : callOfLabel label = some call) :
    call.stubWords = some 1 := by
  unfold callOfLabel at h
  split_ifs at h <;> · cases h; rfl

/-- A message of one word, or for a page fault. -/
theorem ClientMessage.fits_of_event {recipient : ThreadId} {label : Int} {words : List Int}
    (h : label = pagefaultLabel ∨ words.length = 1) :
    ClientMessage.Fits ⟨callOfLabel label, recipient, words⟩ := by
  intro call hcall n hn
  rw [stubWords_of_label hcall] at hn
  obtain rfl := Option.some.inj hn
  rcases h with rfl | h
  · cases hcall
  · exact h

namespace System

variable {null : Option (List UInt8)} {nullOwner : Option ThreadId} {s s' : System}

/-- What is sent is noted behind what has been sent. -/
theorem deliver_outbox (mm : Mm) (events : List Event) {ev : Event}
    (h : ev ∈ (deliver mm events).outbox) : ev ∈ mm.outbox ∨ ev ∈ events := by
  induction events generalizing mm with
  | nil => exact Or.inl h
  | cons first rest ih =>
      rcases ih _ h with hold | hrest
      · cases first with
        | reply recipient label words =>
            rcases List.mem_append.mp hold with hold | hnew
            · exact Or.inl hold
            · exact Or.inr (List.mem_cons.mpr (Or.inl (List.mem_singleton.mp hnew)))
        | kdbEnter message => exact Or.inl hold
        | deleted pid => exact Or.inl hold
      · exact Or.inr (List.mem_cons_of_mem _ hrest)

/-- What a callback sends fits. -/
theorem later_fits {before after : Server} (hmm : before.mm.outbox = [])
    (hio : before.io.outbox = []) (hadds : before.Adds after) {rung : List Event}
    (hrung : ∀ ev ∈ rung, ∃ t, ev = Clock.wakeup t) {m : ClientMessage}
    (hm : m ∈ (deliver after.mm (after.io.outbox ++ rung)).outbox.filterMap ClientMessage.ofEvent) :
    m.Fits := by
  obtain ⟨sent, hsent, hmessages⟩ := hadds.mm
  obtain ⟨replies, hreplies, hfile⟩ := hadds.io
  rw [hmm, List.nil_append] at hsent
  rw [hio, List.nil_append] at hreplies
  obtain ⟨ev, hev, hof⟩ := List.mem_filterMap.mp hm
  -- Kernel debugging and deletions are no messages to a client.
  cases ev with
  | kdbEnter message => cases hof
  | deleted pid => cases hof
  | reply recipient label words =>
      obtain rfl := Option.some.inj hof
      refine ClientMessage.fits_of_event ?_
      -- Sent by the memory part, by the files or by the clock.
      rcases deliver_outbox _ _ hev with hown | hother
      · rw [hsent] at hown
        rcases hmessages _ hown recipient label words rfl with hfault | hwait
        · exact Or.inl hfault.1
        · exact Or.inr hwait.2
      · rcases List.mem_append.mp hother with hfiles | hclock
        · rw [hreplies] at hfiles
          obtain ⟨t, label', word, he, -⟩ := hfile _ hfiles
          cases he
          exact Or.inr rfl
        · obtain ⟨t, he⟩ := hrung _ hclock
          cases he
          exact Or.inr rfl

/-- The messages of a turn fit if the reply of the handler does. -/
theorem finish_fits_iff {before : Server} (hmm : before.mm.outbox = [])
    (hio : before.io.outbox = []) {h : Server.Handled} (hadds : before.Adds h.server)
    {rung : List Event} (hrung : ∀ ev ∈ rung, ∃ t, ev = Clock.wakeup t) {caller : ThreadId}
    {call : Option Syscall} :
    (∀ m ∈ (s.finish h rung caller call).sent, m.Fits) ↔ ∀ c ∈ call, h.reply.Fits c := by
  constructor
  · intro hall c hc words hwords n hn
    refine hall ⟨call, caller, words⟩ (List.mem_append_right _ ?_) c hc n hn
    rw [Option.mem_toList, Option.map_eq_some_iff]
    exact ⟨words, hwords, rfl⟩
  · intro hdirect m hm
    rcases List.mem_append.mp hm with hlater | hreply
    · exact later_fits hmm hio hadds hrung hlater
    · rw [Option.mem_toList, Option.map_eq_some_iff] at hreply
      obtain ⟨words, hwords, rfl⟩ := hreply
      exact fun c hc n hn => hdirect c hc words hwords n hn

/-- What nobody waits for. -/
theorem silent_fits {before after : Server} (hmm : before.mm.outbox = [])
    (hio : before.io.outbox = []) (hadds : before.Adds after) {rung : List Event}
    (hrung : ∀ ev ∈ rung, ∃ t, ev = Clock.wakeup t) :
    ∀ m ∈ (s.silent after rung).sent, m.Fits :=
  (finish_fits_iff hmm hio (h := { server := after, reply := none }) hadds hrung).mpr nofun

/-- The action is a call of `wait_process` that finds the process inactive. -/
def WaitsForInactive (s : System) : SystemAction → Prop
  | .syscall _ call words _ => call = .sosProcessWait ∧ s.server.NamesInactive words
  | _ => False

instance (s : System) (a : SystemAction) : Decidable (s.WaitsForInactive a) := by
  match a with
  | .fault .. | .store .. | .swapReply .. | .nfsReply .. | .serialReceive _ | .advance _
  | .timestampIrq | .timer0Irq | .createShell .. => exact inferInstanceAs (Decidable False)
  | .syscall .. => exact inferInstanceAs (Decidable (_ ∧ _))

/-- A message starts a new note of what is sent. -/
theorem received_outbox (s : System) (p : Nat) (call : Syscall) :
    (s.received p call).mm.outbox = [] ∧ (s.received p call).io.outbox = [] ∧
      (s.received p call).mm.ptable = s.server.mm.ptable := by
  unfold received
  split
  · exact ⟨rfl, rfl, rfl⟩
  · exact ⟨rfl, rfl, rfl⟩

/-- A step sends a message with a wrong number of words if and only if it is such a call. -/
theorem step_fits_iff {a : SystemAction} (hs : (machine null nullOwner).step s a = some s') :
    (∀ m ∈ s'.sent, m.Fits) ↔ ¬ s.WaitsForInactive a := by
  obtain ⟨-, hexec⟩ := step_eq_some hs
  have hnone : ∀ ev ∈ ([] : List Event), ∃ t, ev = Clock.wakeup t := by simp
  have hsilent : ∀ {after : Server}, s.cleared.Adds after →
      ∀ m ∈ (s.silent after []).sent, m.Fits := fun hadds => silent_fits rfl rfl hadds hnone
  cases a with
  | syscall p call words env =>
      obtain ⟨h, hh, hexec⟩ := Option.bind_eq_some_iff.mp hexec
      obtain rfl := Option.some.inj hexec
      obtain ⟨hmm, hio, hptable⟩ := s.received_outbox p call
      have hnames : (s.received p call).NamesInactive words ↔ s.server.NamesInactive words := by
        unfold Server.NamesInactive
        simp only [Mm.getProcess, Mm.pid2tid, hptable]
      rw [finish_fits_iff hmm hio (Server.handle_adds hh) hnone]
      -- The reply of the call is the only thing that may not fit.
      have hreply := Server.handle_fits_iff hh
      rw [hnames] at hreply
      refine Iff.trans ⟨fun hall => hall call rfl, fun hfits c hc => ?_⟩ hreply
      exact Option.some.inj hc ▸ hfits
  | fault p addr access env =>
      obtain ⟨⟨server, reply⟩, hpager, hexec⟩ := Option.bind_eq_some_iff.mp hexec
      obtain rfl := Option.some.inj hexec
      refine iff_of_true ?_ id
      exact (finish_fits_iff rfl rfl (Server.pager_adds hpager) hnone).mpr (by simp)
  -- The other steps send what is never too long.
  | store p addr byte =>
      obtain rfl := Option.some.inj hexec
      refine iff_of_true (hsilent ⟨.of_eq ?_, .of_eq rfl⟩) id
      show (s.cleared.mm.storeByte _ _ _).outbox = _
      unfold Mm.storeByte
      split
      · rfl
      · rfl
  | swapReply k status =>
      obtain ⟨mm, hmm, hexec⟩ := Option.bind_eq_some_iff.mp hexec
      obtain rfl := Option.some.inj hexec
      refine iff_of_true (hsilent ?_) id
      exact ⟨Mm.nfsReply_sends hmm, .of_eq rfl⟩
  | nfsReply k reply =>
      obtain ⟨io, hio, hexec⟩ := Option.bind_eq_some_iff.mp hexec
      obtain rfl := Option.some.inj hexec
      refine iff_of_true (hsilent ?_) id
      exact ⟨.refl _, (Io.nfsReply_effects hio).1⟩
  | serialReceive c =>
      obtain ⟨io, hio, hexec⟩ := Option.bind_eq_some_iff.mp hexec
      obtain rfl := Option.some.inj hexec
      refine iff_of_true (hsilent ?_) id
      exact ⟨.refl _, Io.serialReceiveHandler_replies hio⟩
  | advance n =>
      obtain rfl := Option.some.inj hexec
      refine iff_of_true (hsilent ?_) id
      exact ⟨.refl _, .of_eq rfl⟩
  | timestampIrq =>
      obtain ⟨clock, -, hexec⟩ := Option.bind_eq_some_iff.mp hexec
      obtain rfl := Option.some.inj hexec
      refine iff_of_true (hsilent ?_) id
      exact ⟨.refl _, .of_eq rfl⟩
  | timer0Irq =>
      obtain ⟨⟨clock, ringing⟩, -, hexec⟩ := Option.bind_eq_some_iff.mp hexec
      obtain rfl := Option.some.inj hexec
      have hrung : ∀ ev ∈ ringing.map Clock.wakeup, ∃ t, ev = Clock.wakeup t := by
        intro ev hev
        obtain ⟨t, -, rfl⟩ := List.mem_map.mp hev
        exact ⟨t, rfl⟩
      have hmm : s.cleared.mm.outbox = [] := rfl
      refine iff_of_true (silent_fits hmm rfl ?_ hrung) id
      exact ⟨.refl _, .of_eq rfl⟩
  | createShell page env =>
      obtain ⟨⟨server, reply, started⟩, hcreate, hexec⟩ := Option.bind_eq_some_iff.mp hexec
      obtain rfl := Option.some.inj hexec
      refine iff_of_true ?_ id
      have hmm : s.cleared.mm.outbox = [] := rfl
      exact (finish_fits_iff hmm rfl
        (Server.createProcess_adds hcreate) hnone).mpr (by simp)

end System

/-! ### The main result -/

/-- In every run of the server in which nobody calls `wait_process` for a process that is not
active, every message has the number of words that the stub of its call asserts. A step of any
run breaks this if and only if it handles such a call. -/
theorem stubs_agree_iff (null : Option (List UInt8)) (nullOwner : Option ThreadId) :
    (∀ s, (System.machine null nullOwner).Reachable (fun s a => ¬ s.WaitsForInactive a) s →
      ∀ m ∈ s.sent, m.Fits) ∧
    ∀ s a s', (System.machine null nullOwner).step s a = some s' →
      ((∀ m ∈ s'.sent, m.Fits) ↔ ¬ s.WaitsForInactive a) := by
  refine ⟨fun s hreach => ?_, fun s a s' hs => System.step_fits_iff hs⟩
  refine hreach.invariant (fun s => ∀ m ∈ s.sent, m.Fits) ?_
    fun s a s' _ hok hs => (System.step_fits_iff hs).mpr hok
  rintro s ⟨b, heap, -, hboot⟩
  obtain ⟨mm, -, hboot⟩ := Option.bind_eq_some_iff.mp hboot
  obtain ⟨files, -, hboot⟩ := Option.bind_eq_some_iff.mp hboot
  obtain rfl := Option.some.inj hboot
  exact nofun

/-! ### Two runs -/

/-- What a call gets from outside in these runs. -/
def plainEnv : CallEnv where
  buf := none
  allocated := true
  create := taskEnv true
  stack _ := 0

/-- The server after booting with two frames. -/
def bootedSystem : System := (System.boot (.small 2) FileServer.zeroedEntry).get (by decide +kernel)

/-- `bootedSystem` is a state after booting. -/
theorem bootedSystem_init {null : Option (List UInt8)} {nullOwner : Option ThreadId} :
    (System.machine null nullOwner).init bootedSystem :=
  ⟨_, _, Mm.Boot.small_ok Nat.two_pos (by decide), (Option.some_get _).symm⟩

open FileServer in
/-- The directory is listed, and the shell is created. -/
def shellStarts : List SystemAction :=
  [.nfsReply 1 (listing [shell]), .nfsReply 1 (okReply 0o700),
    .createShell (namedPage shell) (taskEnv true)]

/-- The shell asks for its pid. -/
theorem stubs_agree_iff_pid : ∃ s : System,
    (System.machine none none).Reachable (fun s a => ¬ s.WaitsForInactive a) s ∧
      s.sent = [⟨some .sosProcessId, threadId 1, [1]⟩] ∧ ∀ m ∈ s.sent, m.Fits := by
  obtain ⟨s, -, hreach, hsent⟩ := Lib.Machine.exists_run (System.machine none none)
    (fun s a => ¬ s.WaitsForInactive a) bootedSystem_init
    (shellStarts ++ [.syscall 1 .sosProcessId [] plainEnv])
    (fun s => s.sent = [⟨some .sosProcessId, threadId 1, [1]⟩]) (by decide +kernel)
  exact ⟨s, hreach, hsent, (stubs_agree_iff none none).1 s hreach⟩

/-- The shell waits for process 5, which there is not. The reply has 11 words. -/
theorem wait_for_inactive : ∃ s : System,
    (System.machine none none).Reachable Lib.Machine.anyStep s ∧
      (∃ m ∈ s.sent, m.call = some .sosProcessWait ∧ m.words.length = 11) ∧
      ¬ ∀ m ∈ s.sent, m.Fits := by
  obtain ⟨s, -, hreach, hsent⟩ := Lib.Machine.exists_run (System.machine none none)
    Lib.Machine.anyStep bootedSystem_init
    (shellStarts ++ [.syscall 1 .sosProcessWait [5] plainEnv])
    (fun s => ∃ m ∈ s.sent, m.call = some .sosProcessWait ∧ m.words.length = 11)
    (by decide +kernel)
  refine ⟨s, hreach, hsent, fun hall => ?_⟩
  obtain ⟨m, hm, hcall, hlength⟩ := hsent
  have hone : m.words.length = 1 := hall m hm _ hcall 1 rfl
  rw [hlength] at hone
  cases hone

end Sos
