import Sos.Clock.Spec

/-!
# `Sos.Properties.Timers`: the alarms

What holds of the timer queue and of timer 0 in every reachable state of the clock driver.

* `timer0_irq_finds_timer`: a timer 0 interrupt finds a timer in the queue, in every run in
  which `remove_timers` leaves a timer behind and `timer0_irq` does not empty the queue
  while timer 0 runs. `timer0_irq_without_timer` shows both ways to fail.
* `next_alarm_armed`: timer 0 raises its interrupt in time for the first timer of the queue,
  in every run in which timer 0 is programmed from a delay that has not wrapped.
  `alarm_delayed` shows a run in which a negative sleep delays the timer of another client.
* `time_stamp_monotone`: two calls of `get_time_stamp` return non-decreasing values when
  neither falls between a wrap of the counter and its handling. `time_stamp_decreases` shows
  a call that does.
-/

set_option autoImplicit false

namespace Sos

open Clock

/-! ### A timer 0 interrupt finds a timer -/

namespace Clock

/-- The condition on a step. Removing timers leaves one in the queue, and `timer0_irq` does
not take the last one while timer 0 is running. -/
def KeepsTimer (c : Clock) : ClockAction → Prop
  | .removeTimers tid => c.timerQueue = [] ∨ ∃ t ∈ c.timerQueue, t.owner ≠ tid
  | .timer0Irq => c.timer0 = none ∨ ∃ t ∈ c.timerQueue, c.due t = false
  | _ => True

instance (c : Clock) (a : ClockAction) : Decidable (c.KeepsTimer a) := by
  match a with
  | .removeTimers _ => exact inferInstanceAs (Decidable (_ ∨ _))
  | .timer0Irq => exact inferInstanceAs (Decidable (_ ∨ _))
  | .advance _ | .timestampIrq | .sleep .. | .registerTimer .. =>
      exact inferInstanceAs (Decidable True)

/-- While timer 0 runs or its interrupt is pending, somebody waits for it. -/
def Awaited (c : Clock) : Prop := c.timer0 ≠ none ∨ c.timer0Irq = true → c.timerQueue ≠ []

/-- An element that stays leaves a list that is not empty. -/
theorem dropWhile_ne_nil {α : Type} {p : α → Bool} {l : List α} (h : ∃ x ∈ l, p x = false) :
    l.dropWhile p ≠ [] := by
  induction l with
  | nil =>
      obtain ⟨x, hx, -⟩ := h
      cases hx
  | cons y rest ih =>
      -- `y` itself is the element where the dropping stops, or it lies behind.
      cases hy : p y with
      | false =>
          rw [List.dropWhile_cons_of_neg (by simp [hy])]
          exact List.cons_ne_nil _ _
      | true =>
          rw [List.dropWhile_cons_of_pos hy]
          apply ih
          obtain ⟨x, hx, hpx⟩ := h
          rcases List.mem_cons.mp hx with rfl | hx
          · rw [hy] at hpx
            cases hpx
          · exact ⟨x, hx, hpx⟩

/-- Time may run timer 0 out, whose alarm is then still in the queue. -/
theorem Awaited.advance {c : Clock} (h : c.Awaited) (n : Nat) : (c.advance n).Awaited := by
  intro hrun
  apply h
  -- An interrupt that is new comes from a timer that ran.
  cases ht : c.timer0 with
  | some deadline => exact Or.inl (by simp)
  | none =>
      rcases hrun with hrun | hrun
      · simp [Clock.advance, ht] at hrun
      · simp only [Clock.advance, ht, Option.any_none, Bool.or_false] at hrun
        exact Or.inr hrun

/-- A new alarm is in the queue when timer 0 is set. -/
theorem Awaited.registerTimer {c : Clock} (h : c.Awaited) (delay : Nat) (client : ThreadId)
    (allocated : Bool) : (c.registerTimer delay client allocated).1.Awaited := by
  have hne : timerQueueInsert (c.newTimer delay client) c.timerQueue ≠ [] :=
    List.ne_nil_of_mem (mem_timerQueueInsert.mpr (Or.inl rfl))
  rw [registerTimer_eq]
  split
  · dsimp only
    split
    · exact fun _ => hne
    · exact fun _ => hne
  · exact h

/-- The handler sets timer 0 for the next alarm, or not at all if there is none. -/
theorem Awaited.timer0Handler {c : Clock} {r : Clock × List AlarmTimer}
    (hok : c.KeepsTimer .timer0Irq) (hr : c.timer0Handler = some r) : r.1.Awaited := by
  obtain ⟨-, hirq, hqueue, hnil, -⟩ := timer0Handler_spec hr
  rintro (hrun | hpending) hempty
  · rcases hok with hstopped | hleft
    · exact hrun ((hnil hempty).trans hstopped)
    · exact dropWhile_ne_nil hleft (hqueue ▸ hempty)
  · rw [hirq] at hpending
    cases hpending

/-- Removing alarms leaves one if timer 0 goes on. -/
theorem Awaited.removeTimers {null : Option ThreadId} {tid : ThreadId} {c c' : Clock}
    (h : c.Awaited) (hok : c.KeepsTimer (.removeTimers tid))
    (hc : c.removeTimers null tid = some c') : c'.Awaited := by
  obtain ⟨-, -, -, hhead, -, hsame⟩ := removeTimers_spec hc
  rcases hok with hempty | ⟨t, ht, hown⟩
  · exact (hsame hempty).symm ▸ h
  · intro _ hempty
    have hdrop : c.timerQueue.dropWhile (ownedBy tid) ≠ [] :=
      dropWhile_ne_nil ⟨t, ht, by simpa [ownedBy] using hown⟩
    rw [hempty, List.head?_nil] at hhead
    exact hdrop (List.head?_eq_none_iff.mp hhead.symm)

/-- Every step keeps an alarm for timer 0, by cases on the action. -/
theorem Awaited.step {null : Option ThreadId} {c c' : Clock} {a : ClockAction} (h : c.Awaited)
    (hok : c.KeepsTimer a) (hs : (machine null).step c a = some c') : c'.Awaited := by
  obtain ⟨-, hs⟩ := step_eq_some hs
  -- Only the interrupt of timer 0 and the removal can leave the timer without a deadline.
  cases a with
  | advance n =>
      rw [exec, Option.some.injEq] at hs
      exact hs ▸ h.advance n
  | timestampIrq =>
      obtain ⟨-, hs⟩ := Option.ite_none_right_eq_some.mp hs
      rw [Option.some.injEq] at hs
      subst hs
      exact fun hrun => h hrun
  | timer0Irq =>
      obtain ⟨r, hr, rfl⟩ := Option.map_eq_some_iff.mp hs
      exact Awaited.timer0Handler hok hr
  | sleep tid words allocated =>
      rw [exec, Option.some.injEq] at hs
      subst hs
      -- Sleep refuses, or registers a timer.
      rcases sleepTimer_cases c tid words allocated with he | ⟨word, -, he⟩
      · rwa [he]
      · rw [he]
        exact h.registerTimer _ _ _
  | registerTimer delay tid allocated =>
      rw [exec, Option.some.injEq] at hs
      subst hs
      exact h.registerTimer _ _ _
  | removeTimers tid => exact h.removeTimers hok hs

end Clock

/-- A timer 0 interrupt finds a timer in the queue, so that `timer0_irq` runs past its
assertion: in every run in which `remove_timers` leaves a timer in the queue, and
`timer0_irq` does not empty it while timer 0 runs. -/
theorem timer0_irq_finds_timer {null : Option ThreadId} {c : Clock}
    (h : (machine null).Reachable KeepsTimer c) (hirq : c.timer0Irq = true) :
    c.timerQueue ≠ [] ∧ ∃ r, c.timer0Handler = some r := by
  have hawaited : c.Awaited := by
    refine h.invariant Awaited ?_ fun _ _ _ hI hok hs => hI.step hok hs
    rintro c₀ rfl (hrun | hpending)
    · exact absurd rfl hrun
    · cases hpending
  have hne : c.timerQueue ≠ [] := hawaited (Or.inr hirq)
  exact ⟨hne, _, timer0Handler_eq hirq hne⟩

/-- One client sleeps for a millisecond, and the millisecond passes. -/
def oneSleep : List ClockAction := [.sleep (threadId 1) [1] true, .advance 66660]

/-- The interrupt of one sleep finds its alarm. -/
theorem timer0_irq_finds_timer_oneSleep :
    ∃ c : Clock, c.timer0Irq = true ∧ c.timerQueue ≠ [] ∧ ∃ r, c.timer0Handler = some r := by
  obtain ⟨c, -, hreach, hirq⟩ := Lib.Machine.exists_run (machine none) KeepsTimer rfl oneSleep
    (fun c => c.timer0Irq = true) (by decide +kernel)
  exact ⟨c, hirq, timer0_irq_finds_timer hreach hirq⟩

/-- The assertion fails in two ways. The only timer is removed with its process while timer
0 runs for it. Or a request with a negative time programs timer 0 again while its interrupt
is pending, and `timer0_irq` then takes both timers off the queue. -/
theorem timer0_irq_without_timer :
    (∃ c, (machine (some nilthread)).Reachable Lib.Machine.anyStep c ∧ c.timer0Irq = true ∧
      c.timer0Handler = none) ∧
    ∃ c, (machine none).Reachable Lib.Machine.anyStep c ∧ c.timer0Irq = true ∧
      c.timer0Handler = none := by
  constructor
  · obtain ⟨c, -, hreach, hc⟩ := Lib.Machine.exists_run (machine (some nilthread))
      Lib.Machine.anyStep rfl
      [.sleep (threadId 1) [1] true, .removeTimers (threadId 1), .advance 66660]
      (fun c => c.timer0Irq = true ∧ c.timer0Handler = none) (by decide +kernel)
    exact ⟨c, hreach, hc⟩
  · obtain ⟨c, -, hreach, hc⟩ := Lib.Machine.exists_run (machine none) Lib.Machine.anyStep rfl
      (oneSleep ++ [.sleep (threadId 2) [2 ^ 32 - 1] true, .timer0Irq, .advance (2 ^ 32)])
      (fun c => c.timer0Irq = true ∧ c.timer0Handler = none) (by decide +kernel)
    exact ⟨c, hreach, hc⟩

/-! ### The next alarm is armed -/

namespace Clock

/-- Timer 0 can be programmed for `t`: the time stamp is the time, and `t` has not expired. -/
def Timely (c : Clock) (t : AlarmTimer) : Prop :=
  c.timestampIrq = false ∧ c.currentTimestampHigh + ticksToMicroseconds c.ostTs < 2 ^ 64 ∧
    c.getTimeStamp ≤ t.expirationTime

instance (c : Clock) (t : AlarmTimer) : Decidable (c.Timely t) :=
  inferInstanceAs (Decidable (_ ∧ _))

/-- Where `register_timer` programs timer 0, it is for a timer that has not expired. A
pending interrupt makes up for a wrong count, since its handler programs timer 0 again. -/
def RegistersInTime (c : Clock) (delay : Nat) (client : ThreadId) (allocated : Bool) : Prop :=
  c.timer0Irq = true ∨ allocated = false ∨ ¬ c.BecomesHead (c.newTimer delay client) ∨
    c.Timely (c.newTimer delay client)

instance (c : Clock) (delay : Nat) (client : ThreadId) (allocated : Bool) :
    Decidable (c.RegistersInTime delay client allocated) :=
  inferInstanceAs (Decidable (_ ∨ _))

/-- The condition on a step: where it programs timer 0, it is for a timer that has not
expired. -/
def ArmsInTime (c : Clock) : ClockAction → Prop
  | .registerTimer delay client allocated => c.RegistersInTime delay client allocated
  | .sleep client [word] allocated => c.RegistersInTime (sleepDelay word) client allocated
  | .timer0Irq => ∀ t ∈ (c.timerQueue.dropWhile c.due).head?, c.Timely t
  | .removeTimers tid =>
    c.timer0Irq = true ∨ c.timerQueue.head?.any (ownedBy tid) = false ∨
      ∀ t ∈ (c.timerQueue.dropWhile (ownedBy tid)).head?, c.Timely t
  | _ => True

instance (c : Clock) (a : ClockAction) : Decidable (c.ArmsInTime a) := by
  match a with
  | .registerTimer .. => exact inferInstanceAs (Decidable (c.RegistersInTime _ _ _))
  | .sleep _ [_] _ => exact inferInstanceAs (Decidable (c.RegistersInTime _ _ _))
  | .timer0Irq => exact inferInstanceAs (Decidable (∀ t ∈ List.head? _, c.Timely t))
  | .removeTimers _ => exact inferInstanceAs (Decidable (_ ∨ _ ∨ _))
  | .advance _ | .timestampIrq | .sleep _ [] _ | .sleep _ (_ :: _ :: _) _ =>
      exact inferInstanceAs (Decidable True)

/-- The high part of the time stamp once a pending overflow is handled. -/
def handledHigh (c : Clock) : Nat :=
  c.currentTimestampHigh + if c.timestampIrq then overflowMicroseconds else 0

/-- The time stamp once a pending overflow is handled. -/
def time (c : Clock) : Nat := c.handledHigh + ticksToMicroseconds c.ostTs

/-- A pending overflow is still to be added. -/
theorem handledHigh_of_pending {c : Clock} (h : c.timestampIrq = true) :
    c.handledHigh = c.currentTimestampHigh + overflowMicroseconds := by
  rw [handledHigh, h, if_pos rfl]

/-- A handled one has been added. -/
theorem handledHigh_of_handled {c : Clock} (h : c.timestampIrq = false) :
    c.handledHigh = c.currentTimestampHigh := by
  rw [handledHigh, h, if_neg Bool.false_ne_true, Nat.add_zero]

/-- The microseconds of one wrap of the counter. -/
theorem overflowMicroseconds_eq : overflowMicroseconds = 64430952 := by decide

/-- A timer 0 that reaches zero at `deadline` rings in time for `t`. Both sides are fiftieths
of a tick, counted from the start: `deadline`, and the expiration time of `t` plus what the
time stamp lags behind the ticks. Two microseconds are for rounding. -/
def Early (c : Clock) (deadline : Nat) (t : AlarmTimer) : Prop :=
  deadline * 50 + c.handledHigh * 3333 ≤
    2 * 3333 + c.ticks / 2 ^ 32 * 2 ^ 32 * 50 + 3333 * t.expirationTime

/-- The low part of the time stamp, against the ticks it is made of. -/
theorem lowPart_spec (c : Clock) :
    ticksToMicroseconds c.ostTs * 3333 ≤ c.ostTs * 50 ∧
      c.ostTs * 50 < ticksToMicroseconds c.ostTs * 3333 + 3333 ∧
      c.ticks = c.ticks / 2 ^ 32 * 2 ^ 32 + c.ostTs ∧
      ticksToMicroseconds c.ostTs ≤ overflowMicroseconds := by
  have hlow : c.ostTs < 2 ^ 32 := Nat.mod_lt _ (Nat.two_pow_pos 32)
  have hdiv := Nat.div_add_mod (c.ostTs * 50) 3333
  have hmod := Nat.mod_lt (c.ostTs * 50) (show 0 < 3333 by decide)
  have hticks : c.ticks = c.ticks / 2 ^ 32 * 2 ^ 32 + c.ostTs := by
    rw [Nat.mul_comm]
    exact (Nat.div_add_mod c.ticks (2 ^ 32)).symm
  rw [overflowMicroseconds_eq]
  unfold ticksToMicroseconds
  omega

/-- The time stamp does not run ahead of the time. -/
theorem getTimeStamp_le {c : Clock} (hinit : c.driverInitialized = true) :
    c.getTimeStamp ≤ c.time := by
  unfold Clock.getTimeStamp
  rw [hinit, if_neg (by simp)]
  refine (Nat.mod_le _ _).trans ?_
  exact Nat.add_le_add_right (Nat.le_add_right _ _) _

/-- In time, the time stamp is the sum of its two halves. -/
theorem Timely.getTimeStamp {c : Clock} {t : AlarmTimer} (h : c.Timely t)
    (hinit : c.driverInitialized = true) :
    c.getTimeStamp = c.currentTimestampHigh + ticksToMicroseconds c.ostTs := by
  unfold Clock.getTimeStamp
  rw [hinit, if_neg (by simp), Nat.mod_eq_of_lt h.2.1]

/-- Programming timer 0 for what is left of the time of `t` makes it ring in time. -/
theorem Timely.early {c : Clock} {t : AlarmTimer} (h : c.Timely t)
    (hinit : c.driverInitialized = true) (delay : Nat) {deadline : Nat}
    (hdelay : delay ≤ t.expirationTime - c.getTimeStamp + 1)
    (hdeadline : (c.program delay).timer0 = some deadline) : c.Early deadline t := by
  obtain ⟨deadline', he, hle⟩ := program_timer0 c delay
  obtain rfl : deadline' = deadline := Option.some.inj (he.symm.trans hdeadline)
  obtain ⟨-, hlow, hticks, -⟩ := lowPart_spec c
  have hstamp := h.getTimeStamp hinit
  have hexp := h.2.2
  unfold Early
  rw [handledHigh_of_handled h.1]
  omega

/-- The wrapped difference is the true one when the timer has not expired. -/
theorem Timely.delayOf_le {c : Clock} {t : AlarmTimer} (h : c.Timely t) :
    c.delayOf t ≤ t.expirationTime - c.getTimeStamp := by
  have hexp := h.2.2
  have hsplit : t.expirationTime + 2 ^ 64 - c.getTimeStamp =
      t.expirationTime - c.getTimeStamp + 2 ^ 64 := by omega
  rw [Clock.delayOf, hsplit, Nat.add_mod_right]
  exact Nat.mod_le _ _

/-- A timer that expires later is rung in time as well. -/
theorem Early.mono {c : Clock} {deadline : Nat} {t u : AlarmTimer} (h : c.Early deadline t)
    (hle : t.expirationTime ≤ u.expirationTime) : c.Early deadline u := by
  unfold Early at h ⊢
  omega

/-- Whether timer 0 is early depends on the time stamp only. -/
theorem Early.congr {c c' : Clock} (h : SameStamp c c') {deadline : Nat} {t : AlarmTimer}
    (hearly : c.Early deadline t) : c'.Early deadline t := by
  simpa only [Early, handledHigh, h.high, h.irq, h.ticks] using hearly

/-- The invariant: the queue is sorted, and timer 0 runs in time for every timer in it,
unless its interrupt is pending. -/
structure Armed (c : Clock) : Prop where
  initialized : c.driverInitialized = true
  sorted : Sorted c.timerQueue
  running : c.timerQueue ≠ [] → c.timer0Irq = true ∨ c.timer0 ≠ none
  early : c.timer0Irq = false → ∀ deadline, c.timer0 = some deadline →
    ∀ t ∈ c.timerQueue, c.Early deadline t

/-- After `start_timer` there is no alarm to be armed for. -/
theorem Armed.started : Armed started where
  initialized := rfl
  sorted := List.Pairwise.nil
  running := fun h => absurd rfl h
  early := nofun

/-- With the queue sorted it is enough to be in time for the head. -/
theorem early_of_head {c : Clock} {t : AlarmTimer} {rest : List AlarmTimer} {deadline : Nat}
    (hsorted : Sorted (t :: rest)) (h : c.Early deadline t) :
    ∀ u ∈ t :: rest, c.Early deadline u := by
  intro u hu
  rcases List.mem_cons.mp hu with rfl | hu
  · exact h
  · exact h.mono ((List.pairwise_cons.mp hsorted).1 u hu)

/-- Time brings timer 0 closer to its end, or to its interrupt. -/
theorem Armed.advance {c : Clock} (h : c.Armed) (n : Nat) : (c.advance n).Armed := by
  refine ⟨h.initialized, h.sorted, ?_, ?_⟩
  · -- a timer that has stopped has raised its interrupt
    intro hne
    rcases h.running hne with hirq | hrun
    · exact Or.inl (by simp [Clock.advance, hirq])
    · by_cases hfired : (c.timer0.any fun deadline => decide (deadline ≤ c.ticks + n)) = true
      · exact Or.inl (by simp [Clock.advance, hfired])
      · exact Or.inr (by simpa [Clock.advance, hfired] using hrun)
  · intro hirq deadline hrun t ht
    simp only [Clock.advance, Bool.or_eq_false_iff] at hirq
    simp only [Clock.advance, hirq.2, Bool.false_eq_true, if_false] at hrun
    have hearly := h.early hirq.1 deadline hrun t ht
    have hmono : c.ticks / 2 ^ 32 ≤ (c.ticks + n) / 2 ^ 32 :=
      Nat.div_le_div_right (Nat.le_add_right _ _)
    -- A wrap adds more ticks than `timer_overflow_irq` adds microseconds.
    have hhigh : (c.advance n).handledHigh * 3333 + c.ticks / 2 ^ 32 * 2 ^ 32 * 50 ≤
        (c.ticks + n) / 2 ^ 32 * 2 ^ 32 * 50 + 3333 * c.handledHigh := by
      have hH := overflowMicroseconds_eq
      rcases Bool.eq_false_or_eq_true c.timestampIrq with hpending | hpending
      · have hafter : (c.advance n).timestampIrq = true := by simp [Clock.advance, hpending]
        rw [handledHigh_of_pending hpending, handledHigh_of_pending hafter]
        show (c.currentTimestampHigh + _) * 3333 + _ ≤ _
        omega
      · by_cases hwrap : c.ticks / 2 ^ 32 < (c.ticks + n) / 2 ^ 32
        · have hafter : (c.advance n).timestampIrq = true := by
            simp only [Clock.advance, hwrap, decide_true, Bool.or_true]
          rw [handledHigh_of_handled hpending, handledHigh_of_pending hafter]
          show (c.currentTimestampHigh + _) * 3333 + _ ≤ _
          omega
        · have hafter : (c.advance n).timestampIrq = false := by
            simp only [Clock.advance, hpending, hwrap, decide_false, Bool.or_false]
          rw [handledHigh_of_handled hpending, handledHigh_of_handled hafter]
          show c.currentTimestampHigh * 3333 + _ ≤ _
          omega
    unfold Early at hearly ⊢
    have hticks : (c.advance n).ticks = c.ticks + n := rfl
    rw [hticks]
    apply Nat.le_of_not_lt
    intro hlt
    omega

/-- Counting an overflow leaves timer 0 armed. -/
theorem Armed.timerOverflowIrq {c : Clock} (h : c.Armed) {c' : Clock}
    (hc : c.timerOverflowIrq = some c') : c'.Armed := by
  -- The high word grows by what the pending overflow had counted for already.
  unfold Clock.timerOverflowIrq at hc
  split at hc
  next hpending =>
    rw [Option.some.injEq] at hc
    subst hc
    refine ⟨h.initialized, h.sorted, h.running, ?_⟩
    intro hirq deadline hrun t ht
    have hearly := h.early hirq deadline hrun t ht
    have hmod := Nat.mod_le (c.currentTimestampHigh + overflowMicroseconds) (2 ^ 64)
    unfold Early at hearly ⊢
    rw [handledHigh_of_pending hpending] at hearly
    rw [handledHigh_of_handled rfl]
    dsimp only
    apply Nat.le_of_not_lt
    intro hlt
    omega
  next => cases hc

/-- A new first alarm sets timer 0, and any other leaves it. -/
theorem Armed.registerTimer {c : Clock} (h : c.Armed) {delay : Nat} {client : ThreadId}
    {allocated : Bool} (hdelay : delay < 2 ^ 64)
    (hok : c.RegistersInTime delay client allocated) :
    (c.registerTimer delay client allocated).1.Armed := by
  have hsame := registerTimer_sameStamp c delay client allocated
  have hinit := hsame.initialized.trans h.initialized
  have hsorted : Sorted (timerQueueInsert (c.newTimer delay client) c.timerQueue) :=
    h.sorted.insert
  revert hsame hinit
  rw [registerTimer_eq]
  split
  next hrun =>
    dsimp only
    split
    next hhead =>
      intro hsame hinit
      refine ⟨hinit, hsorted, fun _ => Or.inr nofun, ?_⟩
      intro hirq deadline hdeadline
      -- The new timer is the head, and timer 0 is programmed for it.
      have htimely : c.Timely (c.newTimer delay client) := by
        rcases hok with hpending | hfail | hnot | htimely
        · exact absurd (hpending.symm.trans hirq) nofun
        · rw [hfail] at hrun
          exact absurd hrun.2 nofun
        · exact absurd hhead hnot
        · exact htimely
      have hlt : c.getTimeStamp < 2 ^ 64 := by
        unfold Clock.getTimeStamp
        split
        · omega
        · exact Nat.mod_lt _ (Nat.two_pow_pos 64)
      have hexp : (c.newTimer delay client).expirationTime = (c.getTimeStamp + delay) % 2 ^ 64 :=
        rfl
      have hge := htimely.2.2
      have hearly : c.Early deadline (c.newTimer delay client) := by
        refine htimely.early h.initialized delay ?_ ?_
        · omega
        · rw [← hdeadline]
          have hqueue : SameStamp c { c with
              timerQueue := timerQueueInsert (c.newTimer delay client) c.timerQueue } :=
            ⟨rfl, rfl, rfl, rfl⟩
          exact (hqueue.program delay).symm
      have hinsert : timerQueueInsert (c.newTimer delay client) c.timerQueue =
          c.newTimer delay client :: c.timerQueue := by
        cases hq : c.timerQueue with
        | nil => rfl
        | cons u rest =>
            rw [timerQueueInsert, if_pos]
            exact hhead u (by rw [hq]; rfl)
      intro u hu
      rw [program_timerQueue, hinsert] at hu
      exact (early_of_head (hinsert ▸ hsorted) hearly u hu).congr hsame
    next hhead =>
      intro hsame hinit
      -- There is a timer in front, which is rung in time.
      obtain ⟨u, hu, hle⟩ : ∃ u ∈ c.timerQueue.head?,
          u.expirationTime ≤ (c.newTimer delay client).expirationTime := by
        simp only [BecomesHead, not_forall, not_lt] at hhead
        obtain ⟨u, hu, hle⟩ := hhead
        exact ⟨u, hu, hle⟩
      have hmem : u ∈ c.timerQueue := List.mem_of_mem_head? hu
      refine ⟨hinit, hsorted, fun _ => h.running (List.ne_nil_of_mem hmem), ?_⟩
      intro hirq deadline hdeadline t ht
      rcases mem_timerQueueInsert.mp ht with rfl | ht
      · exact ((h.early hirq deadline hdeadline u hmem).mono hle).congr hsame
      · exact (h.early hirq deadline hdeadline t ht).congr hsame
  next => exact fun _ _ => h

/-- The handler sets timer 0 for the alarm that is first now. -/
theorem Armed.timer0Handler {c : Clock} (h : c.Armed) {r : Clock × List AlarmTimer}
    (hok : c.ArmsInTime .timer0Irq) (hr : c.timer0Handler = some r) : r.1.Armed := by
  obtain ⟨hsame, -, hqueue, -, hprogram⟩ := timer0Handler_spec hr
  have hsorted : Sorted r.1.timerQueue := by
    rw [hqueue]
    exact List.Pairwise.sublist (List.dropWhile_sublist _) h.sorted
  refine ⟨hsame.initialized.trans h.initialized, hsorted, ?_, ?_⟩
  · intro hne
    obtain ⟨t, rest, hcons⟩ := List.exists_cons_of_ne_nil hne
    refine Or.inr ?_
    rw [hprogram t rest hcons]
    exact nofun
  -- The timer is programmed for the new head, and the others expire after it.
  · intro _ deadline hdeadline
    cases hcons : r.1.timerQueue with
    | nil =>
        intro t ht
        cases ht
    | cons t rest =>
        have htimely : c.Timely t := by
          apply hok t
          rw [← hqueue, hcons]
          rfl
        have hearly : c.Early deadline t := by
          refine htimely.early h.initialized _ (htimely.delayOf_le.trans (Nat.le_succ _)) ?_
          rw [← hprogram t rest hcons]
          exact hdeadline
        exact fun u hu => (early_of_head (hcons ▸ hsorted) hearly u hu).congr hsame

/-- Removing alarms only makes the first alarm later. -/
theorem Armed.removeTimers {null : Option ThreadId} {tid : ThreadId} {c c' : Clock}
    (h : c.Armed) (hok : c.ArmsInTime (.removeTimers tid))
    (hc : c.removeTimers null tid = some c') : c'.Armed := by
  obtain ⟨hsame, hirq, hsub, hhead, hprogram, -⟩ := removeTimers_spec hc
  have hsorted : Sorted c'.timerQueue := List.Pairwise.sublist hsub h.sorted
  refine ⟨hsame.initialized.trans h.initialized, hsorted, ?_, ?_⟩
  · intro hne
    obtain ⟨t, rest, hcons⟩ := List.exists_cons_of_ne_nil hne
    -- Either the head stays, or timer 0 is programmed again.
    rcases hprogram t rest hcons with ⟨hkept, -, htimer⟩ | ⟨-, htimer⟩
    · rw [hirq, htimer]
      exact h.running (List.ne_nil_of_mem (List.mem_of_mem_head? hkept))
    · refine Or.inr ?_
      rw [htimer]
      exact nofun
  · intro hnot deadline hdeadline
    rw [hirq] at hnot
    cases hcons : c'.timerQueue with
    | nil =>
        intro t ht
        cases ht
    | cons t rest =>
        have hearly : c.Early deadline t := by
          rcases hprogram t rest hcons with ⟨hkept, -, htimer⟩ | ⟨howned, htimer⟩
          · exact h.early hnot deadline (htimer.symm.trans hdeadline) t
              (List.mem_of_mem_head? hkept)
          · -- the head was removed, and timer 0 is programmed for `t`
            have htimely : c.Timely t := by
              rcases hok with hpending | hother | htimely
              · exact absurd (hpending.symm.trans hnot) nofun
              · exact absurd (howned.symm.trans hother) nofun
              · apply htimely t
                rw [← hhead, hcons]
                rfl
            refine htimely.early h.initialized (max (c.delayOf t) 1) ?_ ?_
            · have hle := htimely.delayOf_le
              omega
            · exact htimer.symm.trans hdeadline
        exact fun u hu => (early_of_head (hcons ▸ hsorted) hearly u hu).congr hsame

/-- The delay of a sleep is a time stamp. -/
theorem sleepDelay_lt (word : Nat) : sleepDelay word < 2 ^ 64 := by
  unfold sleepDelay
  have hmod := Nat.mod_lt (word * 1000) (Nat.two_pow_pos 32)
  dsimp only
  split
  · omega
  · omega

/-- Every step in time keeps timer 0 armed, by cases on the action. -/
theorem Armed.step {null : Option ThreadId} {c c' : Clock} {a : ClockAction} (h : c.Armed)
    (hok : c.ArmsInTime a) (hs : (machine null).step c a = some c') : c'.Armed := by
  obtain ⟨hen, hs⟩ := step_eq_some hs
  -- Time passing keeps the deadline early enough; the other steps arm the timer again.
  cases a with
  | advance n =>
      rw [exec, Option.some.injEq] at hs
      exact hs ▸ h.advance n
  | timestampIrq => exact h.timerOverflowIrq hs
  | timer0Irq =>
      obtain ⟨r, hr, rfl⟩ := Option.map_eq_some_iff.mp hs
      exact h.timer0Handler hok hr
  | sleep tid words allocated =>
      rw [exec, Option.some.injEq] at hs
      subst hs
      rcases sleepTimer_cases c tid words allocated with he | ⟨word, rfl, he⟩
      · rwa [he]
      · rw [he]
        exact h.registerTimer (sleepDelay_lt word) hok
  | registerTimer delay tid allocated =>
      rw [exec, Option.some.injEq] at hs
      subst hs
      exact h.registerTimer hen hok
  | removeTimers tid => exact h.removeTimers hok hs

/-- Left alone, timer 0 raises its interrupt at most 500 microseconds after every timer of
the queue has expired, or from now on where it has. -/
def RaisesInTime (c : Clock) (deadline : Nat) : Prop :=
  ∀ t ∈ c.timerQueue, (deadline - c.ticks) * 50 ≤
    (max c.getTimeStamp t.expirationTime - c.getTimeStamp + 500) * 3333

/-- An armed timer 0 raises its interrupt no later than the first alarm. -/
theorem Armed.raisesInTime {c : Clock} (h : c.Armed) (hirq : c.timer0Irq = false)
    {deadline : Nat} (hrun : c.timer0 = some deadline) : c.RaisesInTime deadline := by
  intro t ht
  have hearly := h.early hirq deadline hrun t ht
  have hstamp := getTimeStamp_le h.initialized
  obtain ⟨hlow, -, hticks, -⟩ := lowPart_spec c
  unfold Early at hearly
  unfold Clock.time at hstamp
  omega

end Clock

/-- Two clients sleep, the second one for less, so that timer 0 is programmed again. Two
milliseconds later it still runs for the second one. -/
def twoSleeps : List ClockAction :=
  [.sleep (threadId 1) [10] true, .advance 66660, .sleep (threadId 2) [4] true, .advance 133320]

namespace Clock

/-- Each overflow is handled before the counter wraps again, and the 64-bit time stamp does
not overflow. -/
def HandlesOverflow (c : Clock) : ClockAction → Prop
  | .advance n => (c.ticks + n) / 2 ^ 32 ≤ c.ticks / 2 ^ 32 + if c.timestampIrq then 0 else 1
  | .timestampIrq => c.currentTimestampHigh + 2 * overflowMicroseconds < 2 ^ 64
  | _ => True

instance (c : Clock) (a : ClockAction) : Decidable (c.HandlesOverflow a) := by
  match a with
  | .timestampIrq => exact inferInstanceAs (Decidable (_ < _))
  | .advance _ => exact inferInstanceAs (Decidable (_ ≤ _))
  | .timer0Irq | .sleep .. | .registerTimer .. | .removeTimers _ =>
      exact inferInstanceAs (Decidable True)

/-- The driver runs, and the time stamp fits into 64 bits. -/
def Fits (c : Clock) : Prop :=
  c.driverInitialized = true ∧ c.currentTimestampHigh + overflowMicroseconds < 2 ^ 64

/-- The time is one of the fields that are the same. -/
theorem SameStamp.time {c c' : Clock} (h : SameStamp c c') : c'.time = c.time := by
  unfold Clock.time handledHigh ostTs
  rw [h.high, h.irq, h.ticks]

/-- So is what bounds the time stamp. -/
theorem SameStamp.fits {c c' : Clock} (h : SameStamp c c') (hfits : c.Fits) : c'.Fits := by
  unfold Fits
  rw [h.high, h.initialized]
  exact hfits

/-- Only the passing of time and the overflow handler change what the time stamp is made
of. -/
theorem step_sameStamp {null : Option ThreadId} {c c' : Clock} {a : ClockAction}
    (hs : (machine null).step c a = some c') :
    (∃ n, a = .advance n) ∨ a = .timestampIrq ∨ SameStamp c c' := by
  obtain ⟨-, hs⟩ := step_eq_some hs
  -- Only time passing and the overflow interrupt touch what the time stamp is made of.
  cases a with
  | advance n => exact Or.inl ⟨n, rfl⟩
  | timestampIrq => exact Or.inr (Or.inl rfl)
  | timer0Irq =>
      obtain ⟨r, hr, rfl⟩ := Option.map_eq_some_iff.mp hs
      exact Or.inr (Or.inr (timer0Handler_spec hr).1)
  | sleep tid words allocated =>
      rw [exec, Option.some.injEq] at hs
      subst hs
      rcases sleepTimer_cases c tid words allocated with he | ⟨word, -, he⟩
      · rw [he]
        exact Or.inr (Or.inr ⟨rfl, rfl, rfl, rfl⟩)
      · rw [he]
        exact Or.inr (Or.inr (registerTimer_sameStamp c _ _ _))
  | registerTimer delay tid allocated =>
      rw [exec, Option.some.injEq] at hs
      subst hs
      exact Or.inr (Or.inr (registerTimer_sameStamp c _ _ _))
  | removeTimers tid => exact Or.inr (Or.inr (removeTimers_spec hs).1)

/-- Time does not run backwards while ticks pass. -/
theorem time_advance {c : Clock} {n : Nat} (hok : c.HandlesOverflow (.advance n)) :
    c.time ≤ (c.advance n).time := by
  have hlow := (lowPart_spec c).2.2.2
  have hmono : c.ticks / 2 ^ 32 ≤ (c.ticks + n) / 2 ^ 32 :=
    Nat.div_le_div_right (Nat.le_add_right _ _)
  have hok' : (c.ticks + n) / 2 ^ 32 ≤ c.ticks / 2 ^ 32 + if c.timestampIrq then 0 else 1 := hok
  by_cases hwrap : c.ticks / 2 ^ 32 < (c.ticks + n) / 2 ^ 32
  · -- the counter starts again, and the overflow counts from now on
    have hpending : c.timestampIrq = false := by
      rcases Bool.eq_false_or_eq_true c.timestampIrq with h | h
      · rw [h, if_pos rfl] at hok'
        omega
      · exact h
    have hafter : (c.advance n).timestampIrq = true := by
      simp only [Clock.advance, hwrap, decide_true, Bool.or_true]
    unfold Clock.time
    rw [handledHigh_of_handled hpending, handledHigh_of_pending hafter]
    show c.currentTimestampHigh + _ ≤ c.currentTimestampHigh + overflowMicroseconds + _
    omega
  · -- the counter has not wrapped, so its value has grown
    have hirq : (c.advance n).timestampIrq = c.timestampIrq := by
      simp only [Clock.advance, hwrap, decide_false, Bool.or_false]
    have hts : c.ostTs ≤ (c.advance n).ostTs := by
      show c.ticks % 2 ^ 32 ≤ (c.ticks + n) % 2 ^ 32
      omega
    have hpart : ticksToMicroseconds c.ostTs ≤ ticksToMicroseconds (c.advance n).ostTs :=
      Nat.div_le_div_right (Nat.mul_le_mul_right 50 hts)
    unfold Clock.time handledHigh
    rw [hirq]
    exact Nat.add_le_add_left hpart _

/-- Handling the overflow does not change the time. -/
theorem time_timerOverflowIrq {c c' : Clock} (hok : c.HandlesOverflow .timestampIrq)
    (hc : c.timerOverflowIrq = some c') (hfits : c.Fits) : c'.Fits ∧ c'.time = c.time := by
  have hok' : c.currentTimestampHigh + 2 * overflowMicroseconds < 2 ^ 64 := hok
  unfold Clock.timerOverflowIrq at hc
  split at hc
  next hpending =>
    rw [Option.some.injEq] at hc
    subst hc
    have hlt : c.currentTimestampHigh + overflowMicroseconds < 2 ^ 64 := hfits.2
    -- The high word does not wrap, so the pending overflow only moves into it.
    refine ⟨⟨hfits.1, ?_⟩, ?_⟩
    · dsimp only
      rw [Nat.mod_eq_of_lt hlt]
      omega
    · unfold Clock.time
      rw [handledHigh_of_pending hpending, handledHigh_of_handled rfl]
      dsimp only
      rw [Nat.mod_eq_of_lt hlt]
      rfl
  next => cases hc

/-- A step that handles overflows in time neither overflows the time stamp nor goes back in
time. -/
theorem Fits.step {null : Option ThreadId} {c c' : Clock} {a : ClockAction} (h : c.Fits)
    (hok : c.HandlesOverflow a) (hs : (machine null).step c a = some c') :
    c'.Fits ∧ c.time ≤ c'.time := by
  rcases step_sameStamp hs with ⟨n, rfl⟩ | rfl | hsame
  · have hc := (step_eq_some hs).2
    rw [exec, Option.some.injEq] at hc
    subst hc
    exact ⟨h, time_advance hok⟩
  · have hs := (step_eq_some hs).2
    have hirq := time_timerOverflowIrq hok hs h
    exact ⟨hirq.1, hirq.2.ge⟩
  · exact ⟨hsame.fits h, hsame.time.ge⟩

/-- While no overflow is pending, the time stamp is the time. -/
theorem Fits.getTimeStamp {c : Clock} (h : c.Fits) (hirq : c.timestampIrq = false) :
    c.getTimeStamp = c.time := by
  have hlow := (lowPart_spec c).2.2.2
  have hlt := h.2
  unfold Clock.getTimeStamp Clock.time
  rw [h.1, if_neg (by simp), handledHigh_of_handled hirq]
  apply Nat.mod_eq_of_lt
  omega

end Clock

/-- Two calls of `get_time_stamp` in one run, in this order, return values that do not
decrease, when the overflow interrupt is not pending at either of them. -/
theorem time_stamp_monotone {null : Option ThreadId} {c c' : Clock}
    (h : (machine null).Reachable HandlesOverflow c)
    (hpath : (machine null).Path HandlesOverflow c c') (hc : c.timestampIrq = false)
    (hc' : c'.timestampIrq = false) : c.getTimeStamp ≤ c'.getTimeStamp := by
  have hfits : c.Fits := by
    refine h.invariant Fits ?_ fun _ _ _ hI hok hs => (hI.step hok hs).1
    rintro c₀ rfl
    exact ⟨rfl, by decide⟩
  have hrun : c'.Fits ∧ c.time ≤ c'.time :=
    hpath.relation (fun c c' => c.time ≤ c'.time) (fun _ => Nat.le_refl _)
      (fun _ _ _ => Nat.le_trans) (fun _ _ _ hI hok hs => hI.step hok hs) hfits
  rw [hfits.getTimeStamp hc, hrun.1.getTimeStamp hc']
  exact hrun.2

/-- The counter is about to wrap. -/
def untilWrap : Clock := { started with ticks := 2 ^ 32 - 1 }

/-- The run up to the wrap handles every overflow. -/
theorem reachable_untilWrap : (machine none).Reachable HandlesOverflow untilWrap := by
  obtain ⟨c, -, hreach, rfl⟩ := Lib.Machine.exists_run (machine none) HandlesOverflow rfl
    [.advance (2 ^ 32 - 1)] (fun c => c = untilWrap) (by decide +kernel)
  exact hreach

/-- Two time stamps with a wrap between them. -/
theorem time_stamp_monotone_untilWrap :
    ∃ c : Clock, c.getTimeStamp = 2 * 64430952 ∧ untilWrap.getTimeStamp ≤ c.getTimeStamp := by
  have hrun : ((machine none).runIf HandlesOverflow untilWrap
      [.advance 1, .timestampIrq, .advance (2 ^ 32 - 1)]).any (fun c =>
        decide (c.timestampIrq = false ∧ c.getTimeStamp = 2 * 64430952)) = true := by
    decide +kernel
  rw [Option.any_eq_true] at hrun
  obtain ⟨c, hc, hP⟩ := hrun
  obtain ⟨hirq, hstamp⟩ := of_decide_eq_true hP
  exact ⟨c, hstamp, time_stamp_monotone reachable_untilWrap (Lib.Machine.path_runIf hc) rfl hirq⟩

/-- A call between the wrap of the counter and its handling returns less than a call before
the wrap. -/
theorem time_stamp_decreases :
    ∃ c c' : Clock, (machine none).Reachable HandlesOverflow c ∧
      (machine none).Path HandlesOverflow c c' ∧ c'.getTimeStamp < c.getTimeStamp := by
  have hok : untilWrap.HandlesOverflow (.advance 1) := by decide +kernel
  have hstep : (machine none).step untilWrap (.advance 1) = some (untilWrap.advance 1) := by
    decide +kernel
  exact ⟨untilWrap, untilWrap.advance 1, reachable_untilWrap, .step (.refl _) hok hstep,
    by decide +kernel⟩

end Sos
