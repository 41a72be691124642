import Sos.Clock.Driver
import Sos.Lib.Machine

/-!
# `Sos.Clock.Step`: the clock driver as a state machine

The actions are the messages that `syscall_loop` passes to the driver, the deletion of a
process, and the passing of time between two messages. An interrupt handler is entered only
while its interrupt is pending. Interrupts and system calls are handled in any order.
-/

set_option autoImplicit false

namespace Sos

inductive ClockAction
  /-- `n` ticks pass. -/
  | advance (n : Nat)
  /-- `timer_overflow_irq`. -/
  | timestampIrq
  /-- `timer0_irq`. -/
  | timer0Irq
  /-- Thread `tid` sends `SOS_SLEEP` with these words. -/
  | sleep (tid : ThreadId) (words : List Nat) (allocated : Bool)
  /-- `register_timer`, called with any delay. -/
  | registerTimer (delay : Nat) (tid : ThreadId) (allocated : Bool)
  /-- `delete_process` calls `remove_timers`. -/
  | removeTimers (tid : ThreadId)

namespace Clock

/-- What `start_timer` leaves: both timers run from zero, and no alarm is registered. -/
def started : Clock where
  currentTimestampHigh := 0
  timerQueue := []
  driverInitialized := true
  ticks := 0
  timestampIrq := false
  timer0Reload := 0
  timer0 := none
  timer0Irq := false

/-- Delays are 64-bit values, words of a message 32-bit ones. -/
def Enabled (c : Clock) : ClockAction → Prop
  | .advance _ => True
  | .timestampIrq => c.timestampIrq = true
  | .timer0Irq => c.timer0Irq = true
  | .sleep _ words _ => ∀ word ∈ words, word < 2 ^ 32
  | .registerTimer delay _ _ => delay < 2 ^ 64
  | .removeTimers _ => True

instance (c : Clock) (a : ClockAction) : Decidable (c.Enabled a) := by
  cases a with
  | advance => exact inferInstanceAs (Decidable True)
  | timestampIrq => exact inferInstanceAs (Decidable (_ = true))
  | timer0Irq => exact inferInstanceAs (Decidable (_ = true))
  | sleep _ words => exact inferInstanceAs (Decidable (∀ word ∈ words, _))
  | registerTimer => exact inferInstanceAs (Decidable (_ < _))
  | removeTimers => exact inferInstanceAs (Decidable True)

/-- Handles one action. `none` is a failed assertion or an invalid access. -/
def exec (null : Option ThreadId) (c : Clock) : ClockAction → Option Clock
  | .advance n => some (c.advance n)
  | .timestampIrq => c.timerOverflowIrq
  | .timer0Irq => c.timer0Handler.map (·.1)
  | .sleep tid words allocated => some (c.sleepTimer tid words allocated).1
  | .registerTimer delay tid allocated => some (c.registerTimer delay tid allocated).1
  | .removeTimers tid => c.removeTimers null tid

/-- The driver, from `start_timer` on. -/
def machine (null : Option ThreadId) : Lib.Machine Clock ClockAction where
  init c := c = started
  step c a := if c.Enabled a then c.exec null a else none

/-- A step of the machine is an enabled action that returns. -/
theorem step_eq_some {null : Option ThreadId} {c c' : Clock} {a : ClockAction}
    (h : (machine null).step c a = some c') : c.Enabled a ∧ c.exec null a = some c' :=
  Option.ite_none_right_eq_some.mp h

end Clock

end Sos
