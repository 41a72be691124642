import Sos.Process

/-!
# `Sos.Clock.Driver`: the clock driver

`libs/clock/src/clock.c` and the two timers of the chip that it drives. The time stamp timer
is a 32-bit counter that never stops and raises its interrupt when it wraps. Timer 0 is a
one-shot counter: once started it raises its interrupt when the programmed count has elapsed,
unless it is stopped or programmed again first. One tick of the bus clock is the unit of
time (`ticks`), and no tick passes while the server runs a handler.

An interrupt is pending from when it is raised until its handler has run, as a message that the
kernel keeps for the server. The bits of `OST_STATUS` say less: `OST_STATUS |= bit` at the end of
a handler writes back every bit that is set, and so clears the other one too when both are. The
assertion on the bit can then stop the server in the other handler. Here that handler runs, so
that every run in which the server goes on is one of the model.

The queue of `alarm_timer`s is a list, head first. Its list pointer moves over the null
pointer in `remove_timers`, which reads `owner` through it. What that read yields depends on
the memory at address 0, so it is a parameter (`null`): `none` where the page is not mapped,
and the server stops there.

Words of messages are machine words, and 64-bit arithmetic is written out with `% 2 ^ 64`.
-/

set_option autoImplicit false

namespace Sos

/-- `alarm_timer` of `clock.h`. Its `alarm_function` is always `wakeup`. -/
structure AlarmTimer where
  expirationTime : Nat
  owner : ThreadId
deriving DecidableEq, Repr

def clockROk : Int := 0
def clockRUint : Int := -1
def clockRFail : Int := -3

def sosSleep : Int := 13

/-- `TICKS_TO_MICROSECONDS`, for a 32-bit number of ticks. -/
def ticksToMicroseconds (ticks : Nat) : Nat := ticks * 50 / 3333

/-- `MICROSECONDS_TO_TICKS`, in 64-bit arithmetic. -/
def microsecondsToTicks (us : Nat) : Nat := us * 3333 % 2 ^ 64 / 50

/-- What `timer_overflow_irq` adds to the high part of the time stamp. -/
def overflowMicroseconds : Nat := ticksToMicroseconds 0xFFFFFFFF

/-- The driver's variables and the two timers. -/
structure Clock where
  currentTimestampHigh : Nat
  timerQueue : List AlarmTimer
  driverInitialized : Bool
  /-- Ticks since the time stamp counter was reset. -/
  ticks : Nat
  /-- The interrupt of the time stamp timer is pending. -/
  timestampIrq : Bool
  /-- Bits 31 to 2 of `OST_TIM0_RL`, the count that timer 0 starts from. -/
  timer0Reload : Nat
  /-- The tick at which timer 0 reaches zero, `none` while it is stopped. -/
  timer0 : Option Nat
  /-- The interrupt of timer 0 is pending. -/
  timer0Irq : Bool
deriving DecidableEq

namespace Clock

/-! ### The registers -/

/-- `OST_TS`. -/
def ostTs (c : Clock) : Nat := c.ticks % 2 ^ 32

/-- `TIMER0_SET`: the low two bits of the register are flags, and bit 0, which is cleared
here, lets the timer run. -/
def timer0Set (c : Clock) (count : Nat) : Clock :=
  { c with timer0Reload := ((count &&& 0xFFFFFFFFFFFFFFFC) ||| 0x2) % 2 ^ 32 &&& 0xFFFFFFFC,
           timer0 := none }

/-- `TIMER0_START`. -/
def timer0Start (c : Clock) : Clock := { c with timer0 := some (c.ticks + c.timer0Reload) }

/-- `n` ticks pass. A timer that reaches zero stops. -/
def advance (c : Clock) (n : Nat) : Clock :=
  let fired := c.timer0.any fun deadline => deadline ≤ c.ticks + n
  { c with
    ticks := c.ticks + n
    timestampIrq := c.timestampIrq || decide (c.ticks / 2 ^ 32 < (c.ticks + n) / 2 ^ 32)
    timer0 := if fired then none else c.timer0
    timer0Irq := c.timer0Irq || fired }

/-! ### The time stamp -/

/-- `get_time_stamp`. Before `start_timer` it returns the error code -1 as an unsigned
value. -/
def getTimeStamp (c : Clock) : Nat :=
  if !c.driverInitialized then 2 ^ 64 - 1
  else (c.currentTimestampHigh + ticksToMicroseconds c.ostTs) % 2 ^ 64

/-- `timer_overflow_irq`, with its assertion that the interrupt is pending. `OST_STATUS |= 4`
writes back the bit of timer 0 as well: its message stays with the kernel. -/
def timerOverflowIrq (c : Clock) : Option Clock :=
  if c.timestampIrq then
    some { c with
      currentTimestampHigh := (c.currentTimestampHigh + overflowMicroseconds) % 2 ^ 64
      timestampIrq := false }
  else none

/-- `send_timestamp`: the two halves of the time stamp. -/
def sendTimestamp (c : Clock) : Reply :=
  some [(c.getTimeStamp % 2 ^ 32 : Nat), (c.getTimeStamp / 2 ^ 32 : Nat)]

/-! ### The timer queue -/

/-- `timer_queue_insert`: behind the timers that expire earlier or at the same time. -/
def timerQueueInsert (new : AlarmTimer) : List AlarmTimer → List AlarmTimer
  | [] => [new]
  | t :: rest =>
    if new.expirationTime < t.expirationTime then new :: t :: rest
    else t :: timerQueueInsert new rest

/-- Programs timer 0 for a delay, as `TIMER0_SET` and `TIMER0_START`. -/
def program (c : Clock) (delay : Nat) : Clock :=
  (c.timer0Set (microsecondsToTicks delay)).timer0Start

/-- The time from now until a timer expires, as an unsigned 64-bit difference. -/
def delayOf (c : Clock) (t : AlarmTimer) : Nat :=
  (t.expirationTime + 2 ^ 64 - c.getTimeStamp) % 2 ^ 64

/-- The test of `timer0_irq`, on the delay as a signed value. -/
def due (c : Clock) (t : AlarmTimer) : Bool :=
  c.delayOf t ≤ 500 || 2 ^ 63 ≤ c.delayOf t

/-- `register_timer`. `allocated` says whether `malloc` returned memory. -/
def registerTimer (c : Clock) (delay : Nat) (client : ThreadId) (allocated : Bool) :
    Clock × Int :=
  if !c.driverInitialized then (c, clockRUint)
  else if !allocated then (c, clockRFail)
  else
    let new : AlarmTimer := ⟨(c.getTimeStamp + delay) % 2 ^ 64, client⟩
    let queue := timerQueueInsert new c.timerQueue
    -- The new timer is the head when every timer in the queue expires later.
    let isHead := c.timerQueue.head?.all fun t => new.expirationTime < t.expirationTime
    let c := { c with timerQueue := queue }
    (if isHead then c.program delay else c, clockROk)

/-- The conversion in `sleep_timer`: `sleep_time * 1000` is a 32-bit `int`, which is
extended with its sign to 64 bits. -/
def sleepDelay (word : Nat) : Nat :=
  let product := word * 1000 % 2 ^ 32
  if product < 2 ^ 31 then product else product + (2 ^ 64 - 2 ^ 32)

/-- `sleep_timer`, on the untyped words of the message. -/
def sleepTimer (c : Clock) (tid : ThreadId) (words : List Nat) (allocated : Bool) :
    Clock × Reply :=
  match words with
  | [word] =>
    let (c, ret) := c.registerTimer (sleepDelay word) tid allocated
    if ret ≠ clockROk then (c, some [ret]) else (c, none)
  | _ => (c, some [clockRFail])

/-- The loop of `timer0_irq`: takes due timers off the queue and calls their alarm function;
the first one that is not due programs the timer. -/
def timer0Loop (c : Clock) : List AlarmTimer → Clock × List AlarmTimer
  | [] => ({ c with timerQueue := [] }, [])
  | t :: rest =>
    if c.due t then
      let (c, ringing) := c.timer0Loop rest
      (c, t :: ringing)
    else ({ c with timerQueue := t :: rest }.program (c.delayOf t), [])

/-- `timer0_irq`, entered from the interrupt thread, with its two assertions. The alarm
function `wakeup` of each timer that rings sends a reply to its owner. `OST_STATUS |= 1` writes
back the bit of the time stamp timer as well: its message stays with the kernel. -/
def timer0Handler (c : Clock) : Option (Clock × List AlarmTimer) :=
  if !c.timer0Irq then none
  else if c.timerQueue = [] then none
  else
    let (c, ringing) := c.timer0Loop c.timerQueue
    some ({ c with timer0Irq := false }, ringing)

/-- The reply of `wakeup`. -/
def wakeup (t : AlarmTimer) : Event := .reply t.owner sosSleep [clockROk]

/-- The first loop of `remove_timers`: removes the head while it belongs to `tid`, and
programs the timer for each new head. At the end of the queue it reads through the null
pointer; should it find `tid` there, it would go on with what is stored at address 0. -/
def removeHead (null : Option ThreadId) (tid : ThreadId) (c : Clock) :
    List AlarmTimer → Option Clock
  | [] =>
    match null with
    | none => none
    | some owner => if owner = tid then none else some { c with timerQueue := [] }
  | t :: rest =>
    if t.owner = tid then
      let c := { c with timerQueue := rest }
      let c := match rest with
        | [] => c
        | head :: _ => c.program (max (c.delayOf head) 1)
      removeHead null tid c rest
    else some { c with timerQueue := t :: rest }

/-- The second loop of `remove_timers`: at each entry it looks at the next one, and goes on
behind the one it has removed. -/
def removeRest (null : Option ThreadId) (tid : ThreadId) : List AlarmTimer →
    Option (List AlarmTimer)
  | [] => some []
  | [t] =>
    match null with
    | none => none
    | some owner => if owner = tid then none else some [t]
  | t :: u :: rest =>
    if u.owner = tid then (removeRest null tid rest).map (t :: ·)
    else (removeRest null tid (u :: rest)).map (t :: ·)

/-- `remove_timers`. -/
def removeTimers (null : Option ThreadId) (tid : ThreadId) (c : Clock) : Option Clock :=
  if c.timerQueue = [] then some c
  else do
    let c ← removeHead null tid c c.timerQueue
    let queue ← removeRest null tid c.timerQueue
    some { c with timerQueue := queue }

end Clock

end Sos
