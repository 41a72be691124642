import Sos.Clock.Spec
import Sos.Lib.Machine

/-!
# `Sos.Clock.Alarms`: the alarms while the clock runs on

In `Sos.Clock.Step` no tick passes while a handler runs. Here the results of
`get_time_stamp` are arbitrary values, and `timer0_irq` reads a new one in each turn of its
loop. `registerTimer_eq_at` and `timer0Loop_eq_at` say that the handlers of `Sos.Clock.Driver`
are these ones at the time stamp of the counter.

* `timerQueueInsert_filter`: an insertion puts a timer behind those with its expiration time.
* `timer0LoopAt_spec`: how many timers `timer0_irq` takes off the queue.
-/

set_option autoImplicit false

namespace Sos

def clockRCncl : Int := -2

/-- A call of the alarm function of a timer. -/
structure AlarmCall where
  timer : AlarmTimer
  tid : ThreadId
  status : Int
deriving DecidableEq

/-- `alarm->alarm_function(alarm->owner, status)`. -/
def AlarmTimer.ring (status : Int) (alarm : AlarmTimer) : AlarmCall := ⟨alarm, alarm.owner, status⟩

namespace Clock

/-- `register_timer`, when `get_time_stamp` returns `now`. -/
def registerTimerAt (now : Nat) (c : Clock) (delay : Nat) (client : ThreadId) (allocated : Bool) :
    Clock × Int :=
  if !c.driverInitialized then (c, clockRUint)
  else if !allocated then (c, clockRFail)
  else
    let new : AlarmTimer := ⟨(now + delay) % 2 ^ 64, client⟩
    let queue := timerQueueInsert new c.timerQueue
    let isHead := c.timerQueue.head?.all fun t => new.expirationTime < t.expirationTime
    let c := { c with timerQueue := queue }
    (if isHead then c.program delay else c, clockROk)

/-- The delay of a timer when `get_time_stamp` returns `now`. -/
def delayAt (now : Nat) (t : AlarmTimer) : Nat := (t.expirationTime + 2 ^ 64 - now) % 2 ^ 64

/-- `((int64_t) delay) <= 500`. -/
def dueAt (now : Nat) (t : AlarmTimer) : Bool := delayAt now t ≤ 500 || 2 ^ 63 ≤ delayAt now t

/-- The loop of `timer0_irq`, when `get_time_stamp` returns the values of `times` one after the
other. -/
def timer0LoopAt (c : Clock) : (times : Nat → Nat) → List AlarmTimer → Clock × List AlarmTimer
  | _, [] => ({ c with timerQueue := [] }, [])
  | times, t :: rest =>
    if dueAt (times 0) t then
      let (c, ringing) := c.timer0LoopAt (fun i => times (i + 1)) rest
      (c, t :: ringing)
    else ({ c with timerQueue := t :: rest }.program (delayAt (times 0) t), [])

/-- `timer0_irq` with its two assertions. A call from inside the server has `L4_nilthread` for
the interrupt thread. -/
def timer0IrqAt (times : Nat → Nat) (c : Clock) (tid : ThreadId) :
    Option (Clock × List AlarmTimer) :=
  if tid ≠ nilthread ∧ !c.timer0Irq then none
  else if c.timerQueue = [] then none
  else
    let (c, ringing) := c.timer0LoopAt times c.timerQueue
    if tid = nilthread then some (c, ringing) else some ({ c with timer0Irq := false }, ringing)

/-- `stop_timer`, with its assertion: the driver, and the timers whose alarm functions it
calls. -/
def stopTimer (c : Clock) : Option (Clock × List AlarmTimer) :=
  if c.driverInitialized then
    some ({ c with timer0 := none, timerQueue := [], driverInitialized := false }, c.timerQueue)
  else none

/-- `register_timer` reads the time stamp once. -/
theorem registerTimer_eq_at (c : Clock) (delay : Nat) (client : ThreadId) (allocated : Bool) :
    c.registerTimer delay client allocated =
      c.registerTimerAt c.getTimeStamp delay client allocated := rfl

/-- The driver's loop is the one that reads the same time stamp every time. -/
theorem timer0Loop_eq_at (c : Clock) (queue : List AlarmTimer) :
    c.timer0Loop queue = c.timer0LoopAt (fun _ => c.getTimeStamp) queue := by
  induction queue with
  | nil => rfl
  | cons t rest ih =>
      rw [timer0Loop, timer0LoopAt, ih]
      rfl

/-- `register_timer` inserts a timer, or reports an error and changes nothing. -/
theorem registerTimerAt_cases {now delay : Nat} (c : Clock) (client : ThreadId) (allocated : Bool)
    (hsum : now + delay < 2 ^ 64) :
    ((c.registerTimerAt now delay client allocated).2 = clockROk ∧
      (c.registerTimerAt now delay client allocated).1.timerQueue =
        timerQueueInsert ⟨now + delay, client⟩ c.timerQueue) ∨
    ((c.registerTimerAt now delay client allocated).2 ≠ clockROk ∧
      (c.registerTimerAt now delay client allocated).1 = c) := by
  have huint : clockRUint ≠ clockROk := by decide
  have hfail : clockRFail ≠ clockROk := by decide
  unfold registerTimerAt
  rw [Nat.mod_eq_of_lt hsum]
  split
  · exact Or.inr ⟨huint, rfl⟩
  · split
    · exact Or.inr ⟨hfail, rfl⟩
    · refine Or.inl ⟨rfl, ?_⟩
      dsimp only
      split
      · rfl
      · rfl

/-- A new timer goes behind the timers with its expiration time. -/
theorem timerQueueInsert_filter (new : AlarmTimer) (queue : List AlarmTimer) (e : Nat)
    (hsorted : Sorted queue) :
    (timerQueueInsert new queue).filter (fun t => t.expirationTime = e) =
      queue.filter (fun t => t.expirationTime = e) ++
        [new].filter fun t => t.expirationTime = e := by
  induction queue with
  | nil => rfl
  | cons t rest ih =>
      have hrest := List.pairwise_cons.mp hsorted
      rw [timerQueueInsert]
      split
      next hlt =>
        by_cases he : new.expirationTime = e
        · -- every timer of the queue expires later
          have hnone : (t :: rest).filter (fun t => t.expirationTime = e) = [] := by
            rw [List.filter_eq_nil_iff]
            intro u hu hue
            have hue := of_decide_eq_true hue
            cases List.mem_cons.mp hu with
            | inl hut =>
                rw [hut] at hue
                omega
            | inr hu =>
                have := hrest.1 u hu
                omega
          rw [List.filter_cons_of_pos (by simpa using he), hnone,
            List.filter_cons_of_pos (by simpa using he)]
          rfl
        · have hnew : [new].filter (fun t => t.expirationTime = e) = [] :=
            List.filter_cons_of_neg (by simpa using he)
          rw [List.filter_cons_of_neg (by simpa using he), hnew, List.append_nil]
      -- The new timer goes further back.
      next hge =>
        rw [List.filter_cons, List.filter_cons, ih hrest.2]
        split
        · rfl
        · rfl

/-- The signed comparison of `timer0_irq`, for a time stamp that is not too far behind the
expiration time. -/
theorem dueAt_iff {now : Nat} {t : AlarmTimer} (ht : t.expirationTime < 2 ^ 62)
    (hnow : now < 2 ^ 64) (hrange : now ≤ t.expirationTime + 2 ^ 63) :
    dueAt now t = true ↔ (t.expirationTime : Int) - now ≤ 500 := by
  unfold dueAt delayAt
  rw [Bool.or_eq_true, decide_eq_true_eq, decide_eq_true_eq]
  by_cases hle : now ≤ t.expirationTime
  · rw [show t.expirationTime + 2 ^ 64 - now = t.expirationTime - now + 2 ^ 64 by omega,
      Nat.add_mod_right, Nat.mod_eq_of_lt (by omega)]
    omega
  · rw [Nat.mod_eq_of_lt (by omega)]
    omega

/-- The loop takes a number of timers off the front of the queue, each of them due at the time
that is read for it. The one that it leaves is not due. -/
theorem timer0LoopAt_spec (c : Clock) (queue : List AlarmTimer) :
    ∀ times : Nat → Nat, ∃ k, k ≤ queue.length ∧ (c.timer0LoopAt times queue).2 = queue.take k ∧
      (c.timer0LoopAt times queue).1.timerQueue = queue.drop k ∧
      (∀ i t, i < k → queue[i]? = some t → dueAt (times i) t = true) ∧
      ∀ t, queue[k]? = some t → dueAt (times k) t = false := by
  induction queue with
  | nil => exact fun times => ⟨0, Nat.le_refl 0, rfl, rfl, nofun, nofun⟩
  | cons t rest ih =>
      intro times
      rw [timer0LoopAt]
      -- Each timer is looked at with a time of its own.
      by_cases hdue : dueAt (times 0) t = true
      · rw [if_pos hdue]
        obtain ⟨k, hk, hringing, hleft, htaken, hstays⟩ := ih fun i => times (i + 1)
        refine ⟨k + 1, Nat.succ_le_succ hk, congrArg (t :: ·) hringing, hleft, ?_, ?_⟩
        · intro i u hi hu
          cases i with
          | zero =>
              obtain rfl : t = u := Option.some.inj hu
              exact hdue
          | succ i => exact htaken i u (Nat.lt_of_succ_lt_succ hi) hu
        · exact hstays
      · rw [if_neg hdue]
        refine ⟨0, Nat.zero_le _, rfl, rfl, nofun, ?_⟩
        intro u hu
        obtain rfl : t = u := Option.some.inj hu
        simpa using hdue

end Clock

/-! ### Runs -/

/-- The driver, the last value that `get_time_stamp` has returned, and the alarm functions
that the last step has called. -/
structure AlarmRun where
  clock : Clock
  time : Nat
  calls : List AlarmCall

inductive AlarmAction
  /-- `register_timer`, when `get_time_stamp` returns `now`. -/
  | register (now delay : Nat) (client : ThreadId) (allocated : Bool)
  | timer0Irq (tid : ThreadId) (times : Nat → Nat)
  | stopTimer

/-- What has happened in a run: the timers that were registered, in this order, and the alarm
functions that were called. -/
structure AlarmHistory where
  registered : List AlarmTimer
  called : List AlarmCall

namespace AlarmRun

/-- One call of the driver. `none` is a failed assertion. -/
def step (s : AlarmRun) : AlarmAction → Option AlarmRun
  | .register now delay client allocated =>
    some
      { clock := (s.clock.registerTimerAt now delay client allocated).1
        time := now
        calls := [] }
  | .timer0Irq tid times => do
    let (clock, ringing) ← s.clock.timer0IrqAt times tid
    -- The loop has a last turn for the timer that it leaves, if there is one.
    some
      { clock := clock
        time := times (min ringing.length (s.clock.timerQueue.length - 1))
        calls := ringing.map (AlarmTimer.ring clockROk) }
  | .stopTimer => do
    let (clock, ringing) ← s.clock.stopTimer
    some { clock := clock, time := s.time, calls := ringing.map (AlarmTimer.ring clockRCncl) }

/-- The runs from the empty queue. -/
def machine : Lib.Machine AlarmRun AlarmAction where
  init s := s.clock.timerQueue = []
  step := step

/-- `register_timer` adds a timer when it returns `CLOCK_R_OK`. -/
def record (s : AlarmRun) (a : AlarmAction) (s' : AlarmRun) (r : AlarmHistory) : AlarmHistory where
  registered :=
    match a with
    | .register now delay client allocated =>
      if (s.clock.registerTimerAt now delay client allocated).2 = clockROk then
        r.registered ++ [⟨now + delay, client⟩]
      else r.registered
    | _ => r.registered
  called := r.called ++ s'.calls

/-- The machine with its history. -/
def recorded : Lib.Machine (AlarmRun × AlarmHistory) AlarmAction :=
  machine.withHistory ⟨[], []⟩ record

/-- The time stamps do not decrease, the sum of a time stamp and a delay is below `2 ^ 62`,
and `timer0_irq` is entered with a timer in the queue. -/
def ClockRuns (s : AlarmRun) : AlarmAction → Prop
  | .register now delay _ _ => s.time ≤ now ∧ now + delay < 2 ^ 62
  | .timer0Irq _ times =>
    s.clock.timerQueue ≠ [] ∧ s.time ≤ times 0 ∧
      ∀ i, times i ≤ times (i + 1) ∧ times i < 2 ^ 64
  | .stopTimer => True

/-- No time stamp is read for a timer more than `2 ^ 63` microseconds after it expires. -/
def InRange (s : AlarmRun) : AlarmAction → Prop
  | .timer0Irq _ times =>
    ∀ i t, s.clock.timerQueue[i]? = some t → times i ≤ t.expirationTime + 2 ^ 63
  | .register .. | .stopTimer => True

end AlarmRun

end Sos
