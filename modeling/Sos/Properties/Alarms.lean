import Mathlib.Data.List.Chain
import Sos.Clock.Alarms

/-!
# `Sos.Properties.Alarms`: which timers ring, and which are removed

* `alarms_ring_in_order`: in every run, whatever the time stamps are that the driver reads, the
  queue is sorted, every timer rings once or is still in the queue, timers with the same
  expiration time keep their order, and `timer0_irq` rings exactly the timers that are due, as
  long as no time stamp is read for a timer more than `2 ^ 63` microseconds after it expires.
  `alarm_overdue` shows a timer that does not ring after that.
* `remove_timers_exact_iff`: `remove_timers` leaves exactly the timers of the other threads,
  and does not read through the null pointer, if and only if the queue is empty, or its last
  timer belongs to the thread, some timer does not, and behind the leading timers of the
  thread no two of its timers follow each other. `remove_timers_inexact` shows the two ways
  to fail.
-/

set_option autoImplicit false

namespace Sos

open Clock

/-! ### The alarms of a run -/

namespace AlarmRun

/-- What holds of every state and its history. -/
structure Kept (s : AlarmRun) (r : AlarmHistory) : Prop where
  sorted : Sorted s.clock.timerQueue
  below : ∀ t ∈ s.clock.timerQueue, t.expirationTime < 2 ^ 62
  /-- Of each expiration time the timers that have rung and those in the queue are the
  registered ones, in their order. -/
  order : ∀ e, (r.called.map AlarmCall.timer ++ s.clock.timerQueue).filter
      (fun t => t.expirationTime = e) = r.registered.filter fun t => t.expirationTime = e
  owner : ∀ call ∈ r.called, call.tid = call.timer.owner

/-- `timer0_irq` rings the timers at the head of the queue that expire at most 500 microseconds
after the time read for them, and those behind them expire later than 500 microseconds after
the time that it has read last. -/
def RingsDue (s : AlarmRun) (times : Nat → Nat) (s' : AlarmRun) : Prop :=
  ∃ k, k ≤ s.clock.timerQueue.length ∧
    s'.calls = (s.clock.timerQueue.take k).map (AlarmTimer.ring clockROk) ∧
    s'.clock.timerQueue = s.clock.timerQueue.drop k ∧
    (∀ i t, i < k → s.clock.timerQueue[i]? = some t →
      (t.expirationTime : Int) - times i ≤ 500) ∧
    ∀ t ∈ s'.clock.timerQueue, (t.expirationTime : Int) - times k > 500

/-- The timers of the calls are those that ring. -/
theorem ring_timer (status : Int) (queue : List AlarmTimer) :
    (queue.map (AlarmTimer.ring status)).map AlarmCall.timer = queue := by
  rw [List.map_map]
  exact List.map_id queue

/-- The timers of the front of the queue ring. -/
theorem Kept.rings {s s' : AlarmRun} {r : AlarmHistory} (h : Kept s r) {k : Nat} {status : Int}
    (hcalls : s'.calls = (s.clock.timerQueue.take k).map (AlarmTimer.ring status))
    (hqueue : s'.clock.timerQueue = s.clock.timerQueue.drop k) :
    Kept s' ⟨r.registered, r.called ++ s'.calls⟩ where
  sorted := hqueue ▸ h.sorted.sublist (List.drop_sublist k _)
  below t ht := h.below t (List.mem_of_mem_drop (hqueue ▸ ht))
  order e := by
    rw [← h.order e, List.map_append, hcalls, ring_timer, hqueue, List.append_assoc,
      List.take_append_drop]
  owner call hcall := by
    cases List.mem_append.mp hcall with
    | inl hold => exact h.owner call hold
    | inr hnew =>
        rw [hcalls] at hnew
        obtain ⟨t, -, rfl⟩ := List.mem_map.mp hnew
        rfl

/-- A timer that is registered goes into the queue behind those with its expiration time. -/
theorem Kept.register {s : AlarmRun} {r : AlarmHistory} (h : Kept s r) {now delay : Nat}
    {client : ThreadId} {allocated : Bool} (hsum : now + delay < 2 ^ 62) {s' : AlarmRun}
    (hs' : s'.clock = (s.clock.registerTimerAt now delay client allocated).1)
    (hcalls : s'.calls = []) :
    Kept s' (record s (.register now delay client allocated) s' r) := by
  have hcalled : r.called ++ s'.calls = r.called := by rw [hcalls, List.append_nil]
  unfold record
  rw [hcalled]
  dsimp only
  -- The registration fails, or the alarm goes into the queue.
  cases registerTimerAt_cases s.clock client allocated (Nat.lt_trans hsum (by decide)) with
  | inr hfail =>
      rw [hfail.2] at hs'
      rw [if_neg hfail.1]
      exact ⟨hs' ▸ h.sorted, hs' ▸ h.below, hs' ▸ h.order, h.owner⟩
  | inl hok =>
      have hqueue : s'.clock.timerQueue =
          timerQueueInsert ⟨now + delay, client⟩ s.clock.timerQueue := by rw [hs', hok.2]
      rw [if_pos hok.1]
      -- The three fields: the new expiration time, and the order among equal ones.
      refine ⟨hqueue ▸ h.sorted.insert, ?_, ?_, h.owner⟩
      · intro t ht
        rw [hqueue, mem_timerQueueInsert] at ht
        cases ht with
        | inl hnew => exact hnew ▸ hsum
        | inr hold => exact h.below t hold
      -- The new alarm comes behind those of before with the same expiration time.
      · intro e
        rw [hqueue, List.filter_append, timerQueueInsert_filter _ _ e h.sorted,
          ← List.append_assoc, ← List.filter_append, h.order e, List.filter_append]

/-- What `timer0_irq` does to the queue. -/
theorem step_timer0Irq {s s' : AlarmRun} {tid : ThreadId} {times : Nat → Nat}
    (hs : s.step (.timer0Irq tid times) = some s') :
    ∃ k, k ≤ s.clock.timerQueue.length ∧
      s'.calls = (s.clock.timerQueue.take k).map (AlarmTimer.ring clockROk) ∧
      s'.clock.timerQueue = s.clock.timerQueue.drop k ∧
      (∀ i t, i < k → s.clock.timerQueue[i]? = some t → dueAt (times i) t = true) ∧
      ∀ t, s.clock.timerQueue[k]? = some t → dueAt (times k) t = false := by
  obtain ⟨⟨c, ringing⟩, hirq, hs'⟩ := Option.bind_eq_some_iff.mp hs
  obtain ⟨k, hk, hringing, hleft, htaken, hstays⟩ :=
    timer0LoopAt_spec s.clock s.clock.timerQueue times
  -- Timer 0 is programmed again or not; the queue is the same.
  have hc : c.timerQueue = s.clock.timerQueue.drop k ∧ ringing = s.clock.timerQueue.take k := by
    unfold timer0IrqAt at hirq
    split at hirq
    · cases hirq
    · split at hirq
      · cases hirq
      · dsimp only at hirq
        split at hirq
        · cases hirq
          exact ⟨hleft, hringing⟩
        · cases hirq
          exact ⟨hleft, hringing⟩
  rw [← Option.some.inj hs']
  exact ⟨k, hk, congrArg _ hc.2, hc.1, htaken, hstays⟩

/-- `stop_timer` rings every timer. -/
theorem step_stopTimer {s s' : AlarmRun} (hs : s.step .stopTimer = some s') :
    s'.calls = s.clock.timerQueue.map (AlarmTimer.ring clockRCncl) ∧
      s'.clock.timerQueue = [] := by
  obtain ⟨⟨c, ringing⟩, hstop, hs'⟩ := Option.bind_eq_some_iff.mp hs
  unfold Clock.stopTimer at hstop
  split at hstop
  · cases hstop
    rw [← Option.some.inj hs']
    exact ⟨rfl, rfl⟩
  · cases hstop

/-- Every action keeps what holds of the alarms and their history. -/
theorem Kept.step {s s' : AlarmRun} {r : AlarmHistory} {a : AlarmAction} (h : Kept s r)
    (hok : s.ClockRuns a) (hs : s.step a = some s') : Kept s' (record s a s' r) := by
  -- A registration adds an alarm, and the two others ring some from the front.
  cases a with
  | register now delay client allocated =>
      have hs := Option.some.inj hs
      exact h.register hok.2 (by rw [← hs]) (by rw [← hs])
  | timer0Irq tid times =>
      obtain ⟨k, -, hcalls, hqueue, -, -⟩ := step_timer0Irq hs
      exact h.rings hcalls hqueue
  -- `stop_timer` rings them all.
  | stopTimer =>
      have hstop := step_stopTimer hs
      have hcalls : s'.calls = (s.clock.timerQueue.take s.clock.timerQueue.length).map
          (AlarmTimer.ring clockRCncl) := by
        rw [List.take_length]
        exact hstop.1
      refine h.rings hcalls ?_
      rw [List.drop_length]
      exact hstop.2

/-- The queue is sorted, so that what stays in it expires no earlier than its head. -/
theorem Kept.ringsDue {s s' : AlarmRun} {r : AlarmHistory} (h : Kept s r) {tid : ThreadId}
    {times : Nat → Nat} (hclock : s.ClockRuns (.timer0Irq tid times))
    (hrange : s.InRange (.timer0Irq tid times)) (hs : s.step (.timer0Irq tid times) = some s') :
    RingsDue s times s' := by
  obtain ⟨k, hk, hcalls, hqueue, htaken, hstays⟩ := step_timer0Irq hs
  -- Within range, an alarm that the source takes for due is due within half a millisecond.
  have hdue : ∀ i t, s.clock.timerQueue[i]? = some t →
      (dueAt (times i) t = true ↔ (t.expirationTime : Int) - times i ≤ 500) := by
    intro i t ht
    exact dueAt_iff (h.below t (List.mem_of_getElem? ht)) (hclock.2.2 i).2 (hrange i t ht)
  refine ⟨k, hk, hcalls, hqueue, fun i t hi ht => (hdue i t ht).mp (htaken i t hi ht), ?_⟩
  intro t ht
  rw [hqueue] at ht
  -- The alarms that are left come no earlier than the first of them, which is not due.
  cases hdrop : s.clock.timerQueue.drop k with
  | nil =>
      rw [hdrop] at ht
      cases ht
  | cons u rest =>
      have hu : s.clock.timerQueue[k]? = some u := by
        rw [← List.head?_drop, hdrop, List.head?_cons]
      have hlate : ¬ (u.expirationTime : Int) - times k ≤ 500 := by
        rw [← hdue k u hu, hstays u hu]
        exact Bool.false_ne_true
      have hsorted : Sorted (u :: rest) := hdrop ▸ h.sorted.sublist (List.drop_sublist k _)
      rw [hdrop] at ht
      cases List.mem_cons.mp ht with
      | inl he =>
          rw [he]
          omega
      | inr hrest =>
          have := (List.pairwise_cons.mp hsorted).1 t hrest
          omega

/-- The timers that have rung and those in the queue are the registered ones, each as often as
it was registered. -/
theorem Kept.perm {s : AlarmRun} {r : AlarmHistory} (h : Kept s r) :
    (r.called.map AlarmCall.timer ++ s.clock.timerQueue).Perm r.registered := by
  rw [List.perm_iff_count]
  intro t
  have hcount : ∀ l : List AlarmTimer,
      l.count t = (l.filter fun u => u.expirationTime = t.expirationTime).count t := by
    intro l
    exact (List.count_filter (by simp)).symm
  rw [hcount, h.order, ← hcount]

end AlarmRun

/-- In every run the queue is sorted; the timers that have rung and those in the queue are the
registered ones, and among those with one expiration time in the order of registration; a
timer rings for its owner. `timer0_irq` rings the timers that are due and `stop_timer` all of
them. -/
theorem alarms_ring_in_order {s : AlarmRun} {r : AlarmHistory}
    (h : AlarmRun.recorded.Reachable (fun x a => x.1.ClockRuns a ∧ x.1.InRange a) (s, r)) :
    Sorted s.clock.timerQueue ∧
    (r.called.map AlarmCall.timer ++ s.clock.timerQueue).Perm r.registered ∧
    (∀ e, (r.called.map AlarmCall.timer ++ s.clock.timerQueue).filter
      (fun t => t.expirationTime = e) = r.registered.filter fun t => t.expirationTime = e) ∧
    (∀ call ∈ r.called, call.tid = call.timer.owner) ∧
    (∀ tid times s', s.ClockRuns (.timer0Irq tid times) → s.InRange (.timer0Irq tid times) →
      s.step (.timer0Irq tid times) = some s' → AlarmRun.RingsDue s times s') ∧
    ∀ s', s.step .stopTimer = some s' →
      s'.calls = s.clock.timerQueue.map (AlarmTimer.ring clockRCncl) ∧
        s'.clock.timerQueue = [] := by
  -- The invariant, and what one step does where it holds.
  have hkept : AlarmRun.Kept s r := by
    refine h.invariant (fun x => AlarmRun.Kept x.1 x.2) ?_ ?_
    · rintro ⟨s₀, r₀⟩ ⟨hqueue, hr⟩
      have hqueue : s₀.clock.timerQueue = [] := hqueue
      obtain rfl : r₀ = ⟨[], []⟩ := hr
      refine ⟨hqueue ▸ List.Pairwise.nil, ?_, ?_, nofun⟩
      · rw [hqueue]
        exact nofun
      · intro e
        rw [hqueue]
        rfl
    · rintro ⟨s₁, r₁⟩ a ⟨s₂, r₂⟩ hI hok hs
      obtain ⟨hstep, hr⟩ := Lib.Machine.withHistory_step hs
      exact hr ▸ hI.step hok.1 hstep
  exact ⟨hkept.sorted, hkept.perm, hkept.order, hkept.owner,
    fun tid times s' hclock hrange hs => hkept.ringsDue hclock hrange hs,
    fun s' hs => AlarmRun.step_stopTimer hs⟩

/-- The driver has been started, and a client is registered for the time 0. -/
def oneAlarm : AlarmRun where
  clock := (started.registerTimerAt 0 0 (threadId 1) true).1
  time := 0
  calls := []

/-- The first client is registered, in runs that allow this step. -/
theorem reachable_oneAlarm {ok : AlarmRun × AlarmHistory → AlarmAction → Prop}
    (hok : ok (⟨started, 0, []⟩, ⟨[], []⟩) (.register 0 0 (threadId 1) true)) :
    AlarmRun.recorded.Reachable ok (oneAlarm, ⟨[⟨0, threadId 1⟩], []⟩) :=
  ⟨(⟨started, 0, []⟩, ⟨[], []⟩), ⟨rfl, rfl⟩, .step (.refl _) hok rfl⟩

/-- The steps of a run in which clients are only registered. -/
def AlarmRun.Registers (s : AlarmRun) : AlarmAction → Prop
  | .register now delay _ _ => s.time ≤ now ∧ now + delay < 2 ^ 62
  | .timer0Irq .. | .stopTimer => False

instance (s : AlarmRun) (a : AlarmAction) : Decidable (s.Registers a) :=
  match a with
  | .register .. => inferInstanceAs (Decidable (_ ∧ _))
  | .timer0Irq .. | .stopTimer => inferInstanceAs (Decidable False)

/-- In such a run no time stamp is read for a timer, so that none is too late. -/
theorem AlarmRun.Registers.inRange {s : AlarmRun} {a : AlarmAction} (h : s.Registers a) :
    s.ClockRuns a ∧ s.InRange a := by
  cases a with
  | register now delay client allocated => exact ⟨h, trivial⟩
  | timer0Irq tid times => exact h.elim
  | stopTimer => exact h.elim

/-- Four clients: the first and the third one sleep until the same time, the second one for
longer, and the last one for less. -/
def fourAlarms : List AlarmAction :=
  [.register 0 2000 (threadId 1) true, .register 10 9000 (threadId 2) true,
    .register 20 1980 (threadId 3) true, .register 30 500 (threadId 4) true]

/-- The four timers in the queue. -/
def fourTimers : List AlarmTimer :=
  [⟨530, threadId 4⟩, ⟨2000, threadId 1⟩, ⟨2000, threadId 3⟩, ⟨9010, threadId 2⟩]

/-- At time 1700 the first three of four timers ring, the two with the same expiration time in
the order in which they were registered. -/
theorem alarms_ring_in_order_fourAlarms : ∃ (s : AlarmRun) (r : AlarmHistory) (s' : AlarmRun),
    AlarmRun.recorded.Reachable (fun x a => x.1.ClockRuns a ∧ x.1.InRange a) (s, r) ∧
      s.clock.timerQueue = fourTimers ∧ Sorted s.clock.timerQueue ∧
      (r.called.map AlarmCall.timer ++ s.clock.timerQueue).Perm r.registered ∧
      s.step (.timer0Irq nilthread fun _ => 1700) = some s' ∧
      s'.calls = (fourTimers.take 3).map (AlarmTimer.ring clockROk) ∧
      AlarmRun.RingsDue s (fun _ => 1700) s' := by
  obtain ⟨⟨s, r⟩, -, hregistered, hqueue, htime, hcalls⟩ :=
    Lib.Machine.exists_run AlarmRun.recorded (fun x a => x.1.Registers a)
      (s := (⟨started, 0, []⟩, ⟨[], []⟩)) ⟨rfl, rfl⟩ fourAlarms
      (fun x => x.1.clock.timerQueue = fourTimers ∧ x.1.time ≤ 1700 ∧
        (x.1.step (.timer0Irq nilthread fun _ => 1700)).map AlarmRun.calls =
          some ((fourTimers.take 3).map (AlarmTimer.ring clockROk))) (by decide +kernel)
  have hreach := hregistered.mono fun _ _ h => AlarmRun.Registers.inRange h
  obtain ⟨s', hs', hrang⟩ := Option.map_eq_some_iff.mp hcalls
  have hkept := alarms_ring_in_order hreach
  refine ⟨s, r, s', hreach, hqueue, hkept.1, hkept.2.1, hs', hrang,
    hkept.2.2.2.2.1 nilthread _ s' ?_ ?_ hs'⟩
  -- The handler reads 1700 all the time.
  · have hlt : 1700 < 2 ^ 64 := by decide
    exact ⟨hqueue ▸ by decide, htime, fun _ => ⟨Nat.le_refl 1700, hlt⟩⟩
  -- All expiration times are close enough to 1700.
  · intro i t ht
    show 1700 ≤ t.expirationTime + 2 ^ 63
    omega

/-- The difference of the unsigned times has the sign of a timer that is not due, once the time
stamp is more than `2 ^ 63` microseconds behind the expiration time: the timer is overdue and
`timer0_irq` does not ring it. -/
theorem alarm_overdue :
    ∃ s r, AlarmRun.recorded.Reachable (fun x a => x.1.ClockRuns a) (s, r) ∧
      s.ClockRuns (.timer0Irq nilthread fun _ => 2 ^ 63 + 1) ∧
      ∃ s', s.step (.timer0Irq nilthread fun _ => 2 ^ 63 + 1) = some s' ∧
        ¬ AlarmRun.RingsDue s (fun _ => 2 ^ 63 + 1) s' := by
  refine ⟨oneAlarm, _, reachable_oneAlarm ⟨Nat.le_refl 0, by decide⟩, ?_, _, rfl, ?_⟩
  · have hlt : 2 ^ 63 + 1 < 2 ^ 64 := by decide
    exact ⟨by decide, by decide, fun _ => ⟨Nat.le_refl _, hlt⟩⟩
  · intro h
    obtain ⟨k, -, hcalls, hqueue, -, hlate⟩ := h
    cases k with
    | zero =>
        have hfirst := hlate ⟨0, threadId 1⟩ (by decide)
        exact absurd hfirst (by decide)
    | succ k => cases hcalls

/-! ### Removing the timers of a thread -/

namespace Clock

/-- The queues from which `remove_timers` takes exactly the timers of `tid`. The first loop
stops at a timer of another thread. The second one ends by removing the last timer, and
never looks at the timer behind one that it has removed. -/
def Removable (tid : ThreadId) (queue : List AlarmTimer) : Prop :=
  queue = [] ∨
    (queue.getLast?.any (ownedBy tid) = true ∧ (∃ t ∈ queue, t.owner ≠ tid) ∧
      (queue.dropWhile (ownedBy tid)).IsChain fun t u => ¬ (t.owner = tid ∧ u.owner = tid))

instance (tid : ThreadId) (queue : List AlarmTimer) : Decidable (Removable tid queue) :=
  inferInstanceAs (Decidable (_ ∨ _))

/-- The first loop follows the null pointer when every timer belongs to the thread. -/
theorem removeHead_none {tid : ThreadId} {queue : List AlarmTimer} :
    ∀ c : Clock, (∀ t ∈ queue, t.owner = tid) → removeHead none tid c queue = none := by
  induction queue with
  | nil =>
      intro c _
      rfl
  | cons t rest ih =>
      intro c hall
      rw [removeHead, if_pos (hall t List.mem_cons_self)]
      exact ih _ fun u hu => hall u (List.mem_cons_of_mem t hu)

/-- The first loop stops at a timer of another thread. -/
theorem removeHead_total {null : Option ThreadId} {tid : ThreadId} {queue : List AlarmTimer} :
    ∀ c : Clock, (∃ t ∈ queue, t.owner ≠ tid) → ∃ c', removeHead null tid c queue = some c' := by
  induction queue with
  | nil =>
      intro c hother
      obtain ⟨t, ht, -⟩ := hother
      cases ht
  | cons t rest ih =>
      intro c hother
      rw [removeHead]
      -- An alarm of the thread goes, and the one of somebody else is still behind it.
      by_cases hown : t.owner = tid
      · rw [if_pos hown]
        apply ih
        obtain ⟨u, hu, hne⟩ := hother
        cases List.mem_cons.mp hu with
        | inl he => exact absurd (he ▸ hown) hne
        | inr hrest => exact ⟨u, hrest, hne⟩
      -- The loop stops at somebody else's alarm.
      · rw [if_neg hown]
        exact ⟨_, rfl⟩

/-- The second loop, behind a timer of another thread: it takes out the timers of the thread
and ends before the null pointer if the last timer is the thread's and no two of its timers
follow each other, and only then. -/
theorem removeRest_exact {tid : ThreadId} {queue : List AlarmTimer}
    (hhead : queue.head?.any (ownedBy tid) = false) :
    removeRest none tid queue = some (queue.filter fun t => t.owner ≠ tid) ↔
      queue = [] ∨ (queue.getLast?.any (ownedBy tid) = true ∧
        queue.IsChain fun t u => ¬ (t.owner = tid ∧ u.owner = tid)) := by
  fun_induction removeRest none tid queue with
  | case1 => simp
  | case2 t =>
      have hlast : ([t].getLast?.any (ownedBy tid)) = false := hhead
      rw [hlast]
      simp
  | case3 => contradiction
  | case4 => contradiction
  -- The timer behind `t` is taken out.
  | case5 t u rest hown ih =>
      have ht : t.owner ≠ tid := by simpa [ownedBy] using hhead
      have hkeep : (t :: u :: rest).filter (fun t => t.owner ≠ tid) =
          t :: rest.filter fun t => t.owner ≠ tid := by
        rw [List.filter_cons_of_pos (by simpa using ht),
          List.filter_cons_of_neg (by simpa using hown)]
      rw [hkeep]
      cases rest with
      | nil => simp [removeRest, ownedBy, hown, ht]
      | cons w rest =>
          by_cases hw : w.owner = tid
          · -- the loop goes on behind `w`, which stays
            constructor
            · intro h
              obtain ⟨queue, hqueue, hcons⟩ := Option.map_eq_some_iff.mp h
              have hfirst := (removeRest_spec hqueue).2
              rw [(List.cons.inj hcons).2, List.filter_cons_of_neg (by simpa using hw)] at hfirst
              have hmem : w ∈ rest.filter fun t => t.owner ≠ tid :=
                List.mem_of_mem_head? hfirst
              exact absurd hw (by simpa using (List.mem_filter.mp hmem).2)
            · simp [hown, hw]
          · have hlater := ih (by simpa [ownedBy] using hw)
            rw [Option.map_eq_some_iff]
            simp only [List.cons.injEq, true_and, exists_eq_right]
            rw [hlater]
            simp [ht, hw]
  -- The timer behind `t` stays.
  | case6 t u rest hown ih =>
      have ht : t.owner ≠ tid := by simpa [ownedBy] using hhead
      have hlater := ih (by simpa [ownedBy] using hown)
      have hkeep : (t :: u :: rest).filter (fun t => t.owner ≠ tid) =
          t :: (u :: rest).filter fun t => t.owner ≠ tid :=
        List.filter_cons_of_pos (by simpa using ht)
      rw [hkeep, Option.map_eq_some_iff]
      simp only [List.cons.injEq, true_and, exists_eq_right]
      rw [hlater]
      simp [ht]

/-- What is left behind the leading timers of the thread: the same timers of other threads,
and the same last timer. -/
theorem dropWhile_owned {tid : ThreadId} {queue : List AlarmTimer}
    (hother : ∃ t ∈ queue, t.owner ≠ tid) :
    (queue.dropWhile (ownedBy tid)).head?.any (ownedBy tid) = false ∧
      queue.dropWhile (ownedBy tid) ≠ [] ∧
      (queue.dropWhile (ownedBy tid)).filter (fun t => t.owner ≠ tid) =
        queue.filter (fun t => t.owner ≠ tid) ∧
      (queue.dropWhile (ownedBy tid)).getLast? = queue.getLast? := by
  induction queue with
  | nil =>
      obtain ⟨t, ht, -⟩ := hother
      cases ht
  | cons t rest ih =>
      -- An alarm of the thread in front goes, and somebody else's is behind it.
      by_cases hown : t.owner = tid
      · have hrest : ∃ u ∈ rest, u.owner ≠ tid := by
          obtain ⟨u, hu, hne⟩ := hother
          cases List.mem_cons.mp hu with
          | inl he => exact absurd (he ▸ hown) hne
          | inr hrest => exact ⟨u, hrest, hne⟩
        have hne : rest ≠ [] := by
          obtain ⟨u, hu, -⟩ := hrest
          exact List.ne_nil_of_mem hu
        have hdrop : (t :: rest).dropWhile (ownedBy tid) = rest.dropWhile (ownedBy tid) :=
          List.dropWhile_cons_of_pos (decide_eq_true hown)
        rw [hdrop, List.filter_cons_of_neg (by simpa using hown), List.getLast?_cons_of_ne_nil hne]
        exact ih hrest
      -- Somebody else's alarm is in front, so that nothing goes.
      · rw [List.dropWhile_cons_of_neg (by simpa [ownedBy] using hown)]
        exact ⟨by simpa [ownedBy] using hown, List.cons_ne_nil t rest, rfl, rfl⟩

end Clock

/-- `remove_timers` ends without following a null pointer and leaves exactly the timers of the
other threads, in their order, if and only if the queue is `Removable`. -/
theorem remove_timers_exact_iff (tid : ThreadId) (c : Clock) :
    (∃ c', removeTimers none tid c = some c' ∧
        c'.timerQueue = c.timerQueue.filter fun t => t.owner ≠ tid) ↔
      Removable tid c.timerQueue := by
  unfold removeTimers Removable
  by_cases hnil : c.timerQueue = []
  · rw [if_pos hnil]
    exact ⟨fun _ => Or.inl hnil, fun _ => ⟨c, rfl, by rw [hnil, List.filter_nil]⟩⟩
  rw [if_neg hnil]
  by_cases hother : ∃ t ∈ c.timerQueue, t.owner ≠ tid
  · have htotal : ∃ c₁, removeHead none tid c c.timerQueue = some c₁ := removeHead_total c hother
    obtain ⟨c₁, hc₁⟩ := htotal
    have hqueue : c₁.timerQueue = c.timerQueue.dropWhile (ownedBy tid) := (removeHead_spec hc₁).2.2.1
    obtain ⟨hhead, hne, hfilter, hlast⟩ := dropWhile_owned hother
    have hexact := removeRest_exact hhead
    rw [hfilter, hlast] at hexact
    rw [hc₁, Option.bind_eq_bind, Option.bind_some]
    -- The queue afterwards is what the second loop returns.
    constructor
    · intro h
      obtain ⟨c', hc', hleft⟩ := h
      obtain ⟨queue, hrest, hsome⟩ := Option.bind_eq_some_iff.mp hc'
      have hqueue' : queue = c'.timerQueue := by rw [← Option.some.inj hsome]
      rw [hqueue, hqueue', hleft] at hrest
      cases hexact.mp hrest with
      | inl hdrop => exact absurd hdrop hne
      | inr hcond => exact Or.inr ⟨hcond.1, hother, hcond.2⟩
    · intro h
      cases h with
      | inl h => exact absurd h hnil
      | inr hcond =>
          have hrest := hexact.mpr (Or.inr ⟨hcond.1, hcond.2.2⟩)
          rw [← hqueue] at hrest
          refine ⟨{ c₁ with timerQueue := c.timerQueue.filter fun t => t.owner ≠ tid }, ?_, rfl⟩
          show (removeRest none tid c₁.timerQueue).bind _ = _
          rw [hrest]
          rfl
  · -- every timer is the thread's, and the first loop runs into the null pointer
    have hall : ∀ t ∈ c.timerQueue, t.owner = tid := by
      intro t ht
      by_contra hne
      exact hother ⟨t, ht, hne⟩
    rw [removeHead_none c hall]
    constructor
    · intro h
      obtain ⟨c', hc', -⟩ := h
      cases hc'
    · intro h
      cases h with
      | inl h => exact absurd h hnil
      | inr hcond => exact absurd hcond.2.1 hother

/-- `remove_timers` follows the null pointer behind the last timer, here the only one and the
thread's own. Where something can be read at address 0, it still leaves the second one of two
timers of the thread that follow each other. -/
theorem remove_timers_inexact :
    (∃ c : Clock, c.timerQueue = [⟨1, threadId 1⟩] ∧ removeTimers none (threadId 1) c = none) ∧
    ∃ c c' : Clock, c.timerQueue = [⟨1, threadId 2⟩, ⟨2, threadId 1⟩, ⟨3, threadId 1⟩] ∧
      removeTimers (some nilthread) (threadId 1) c = some c' ∧
      c'.timerQueue = [⟨1, threadId 2⟩, ⟨3, threadId 1⟩] :=
  ⟨⟨{ started with timerQueue := [⟨1, threadId 1⟩] }, rfl, by decide⟩,
    { started with timerQueue := [⟨1, threadId 2⟩, ⟨2, threadId 1⟩, ⟨3, threadId 1⟩] },
    { started with timerQueue := [⟨1, threadId 2⟩, ⟨3, threadId 1⟩] }, rfl, by decide, rfl⟩

end Sos
