import Sos.Properties.Timers

/-!
# `Sos.Properties.Durations`: how long a sleep lasts, and how exact the time stamp is

* `sleep_expires_iff`: the timer of a sleep expires after the time that was asked for if and
  only if the request is below `2 ^ 31` microseconds. `sleep_timer` multiplies by 1000 in an
  `int`. Such a timer rings at most 500 microseconds early, in every run.
* `sleep_wraps`: a sleep of almost 50 days ends after 704 microseconds.
* `time_stamp_error_iff`: the time stamp differs by at most one microsecond from the time that
  has elapsed if and only if `SmallError` holds. Each overflow loses 1784 of the 3333 parts of
  a microsecond, so it never holds after the fourth one (`not_smallError`).
* `time_stamp_drifts`: four overflows after `start_timer` the time stamp is two microseconds
  late.
-/

set_option autoImplicit false

namespace Sos

open Clock

namespace Clock

/-! ### How long a sleep lasts -/

/-- The timer that `sleep_timer` registers expires `msec` milliseconds from now. -/
def SleepsFor (c : Clock) (tid : ThreadId) (msec : Nat) : Prop :=
  ∃ t : AlarmTimer,
    c.sleepTimer tid [msec] true = ((c.sleepTimer tid [msec] true).1, none) ∧
    (c.sleepTimer tid [msec] true).1.timerQueue = timerQueueInsert t c.timerQueue ∧
    t.owner = tid ∧ t.expirationTime = c.getTimeStamp + 1000 * msec

/-- An insertion adds one alarm and drops none. -/
theorem timerQueueInsert_perm (t : AlarmTimer) (queue : List AlarmTimer) :
    (timerQueueInsert t queue).Perm (t :: queue) := by
  induction queue with
  | nil => exact List.Perm.refl _
  | cons u rest ih =>
      rw [timerQueueInsert]
      split
      · exact List.Perm.refl _
      · exact (ih.cons u).trans (List.Perm.swap t u rest)

/-- The queue shows which timer was inserted. -/
theorem timerQueueInsert_inj {t t' : AlarmTimer} {queue : List AlarmTimer}
    (h : timerQueueInsert t queue = timerQueueInsert t' queue) : t = t' := by
  -- Both insertions are permutations of the queue with one more timer, so the counts agree.
  have hperm : (t :: queue).Perm (t' :: queue) :=
    (timerQueueInsert_perm t queue).symm.trans (h ▸ timerQueueInsert_perm t' queue)
  have hcount := hperm.count_eq t
  by_contra hne
  rw [List.count_cons_self, List.count_cons_of_ne (Ne.symm hne)] at hcount
  omega

/-- `sleep_timer` registers one alarm and does not reply. -/
theorem sleepTimer_registers {c : Clock} (hinit : c.driverInitialized = true) (tid : ThreadId)
    (msec : Nat) :
    c.sleepTimer tid [msec] true = ((c.sleepTimer tid [msec] true).1, none) ∧
      (c.sleepTimer tid [msec] true).1.timerQueue =
        timerQueueInsert (c.newTimer (sleepDelay msec) tid) c.timerQueue := by
  -- With memory and a driver the registration succeeds.
  have hret : (c.registerTimer (sleepDelay msec) tid true).2 = clockROk := by
    unfold registerTimer
    rw [hinit]
    rfl
  -- And then the client is not answered.
  have hsleep : c.sleepTimer tid [msec] true =
      ((c.registerTimer (sleepDelay msec) tid true).1, none) := by
    unfold sleepTimer
    dsimp only
    rw [hret, if_neg (fun hne => hne rfl)]
  refine ⟨by rw [hsleep], ?_⟩
  rw [hsleep, registerTimer_eq, if_pos ⟨hinit, rfl⟩]
  dsimp only
  split
  · rfl
  · rfl

/-- The conversion of `sleep_timer` is right as long as the product fits in an `int`. -/
theorem sleepDelay_eq_iff {msec : Nat} (hmsec : msec < 2 ^ 31) :
    sleepDelay msec = 1000 * msec ↔ 1000 * msec < 2 ^ 31 := by
  have hproduct := Nat.mod_le (msec * 1000) (2 ^ 32)
  unfold sleepDelay
  dsimp only
  split
  · omega
  · omega

/-- A sleep lasts as long as it should while its microseconds are no negative `int`. -/
theorem sleepsFor_iff {c : Clock} (hinit : c.driverInitialized = true) {tid : ThreadId}
    {msec : Nat} (hmsec : msec < 2 ^ 31) (hnow : c.getTimeStamp + 1000 * msec < 2 ^ 64) :
    c.SleepsFor tid msec ↔ 1000 * msec < 2 ^ 31 := by
  obtain ⟨hreply, hqueue⟩ := sleepTimer_registers hinit tid msec
  have hdelay : sleepDelay msec < 2 ^ 64 := sleepDelay_lt msec
  rw [← sleepDelay_eq_iff hmsec]
  -- Both sides say when the new alarm expires.
  constructor
  -- The alarm that is registered is the one that expires in time.
  · rintro ⟨t, -, hqueue', -, hexpires⟩
    have hnew : c.newTimer (sleepDelay msec) tid = t :=
      timerQueueInsert_inj (hqueue.symm.trans hqueue')
    rw [← hnew] at hexpires
    have hmod : (c.getTimeStamp + sleepDelay msec) % 2 ^ 64 = c.getTimeStamp + 1000 * msec :=
      hexpires
    omega
  · intro heq
    refine ⟨c.newTimer (sleepDelay msec) tid, hreply, hqueue, rfl, ?_⟩
    show (c.getTimeStamp + sleepDelay msec) % 2 ^ 64 = _
    rw [heq, Nat.mod_eq_of_lt hnow]

/-! ### When it ends -/

/-- The 64-bit time stamp does not overflow. -/
def StampFits (c : Clock) : ClockAction → Prop
  | .timestampIrq => c.currentTimestampHigh + 2 * overflowMicroseconds < 2 ^ 64
  | _ => True

instance (c : Clock) (a : ClockAction) : Decidable (c.StampFits a) := by
  match a with
  | .advance _ | .timer0Irq | .sleep .. | .registerTimer .. | .removeTimers _ =>
      exact inferInstanceAs (Decidable True)
  | .timestampIrq => exact inferInstanceAs (Decidable (_ < _))

/-- The high part of the time stamp only grows. -/
theorem Fits.high_step {null : Option ThreadId} {c c' : Clock} {a : ClockAction} (h : c.Fits)
    (hok : c.StampFits a) (hs : (machine null).step c a = some c') :
    c'.Fits ∧ c.currentTimestampHigh ≤ c'.currentTimestampHigh := by
  -- Only `timer_overflow_irq` writes the high part.
  rcases step_sameStamp hs with ⟨n, rfl⟩ | rfl | hsame
  · have hc := (step_eq_some hs).2
    rw [exec, Option.some.injEq] at hc
    subst hc
    exact ⟨h, Nat.le_refl _⟩
  · have hc : c.timerOverflowIrq = some c' := (step_eq_some hs).2
    have hfits : c'.Fits := (time_timerOverflowIrq hok hc h).1
    unfold timerOverflowIrq at hc
    split at hc
    · rw [Option.some.injEq] at hc
      subst hc
      refine ⟨hfits, ?_⟩
      show _ ≤ (c.currentTimestampHigh + overflowMicroseconds) % 2 ^ 64
      rw [Nat.mod_eq_of_lt h.2]
      exact Nat.le_add_right _ _
    · cases hc
  · exact ⟨hsame.fits h, hsame.high.ge⟩

/-- The time stamp is the high part and less than one turn of the counter. -/
theorem Fits.stamp_bounds {c : Clock} (h : c.Fits) :
    c.currentTimestampHigh ≤ c.getTimeStamp ∧
      c.getTimeStamp ≤ c.currentTimestampHigh + overflowMicroseconds := by
  have hlow := (lowPart_spec c).2.2.2
  have hlt := h.2
  unfold Clock.getTimeStamp
  rw [h.1, if_neg (by simp), Nat.mod_eq_of_lt (by omega)]
  omega

/-- `timer0_irq` rings only timers that are due. -/
theorem due_of_rings {c : Clock} {r : Clock × List AlarmTimer} {t : AlarmTimer}
    (hr : c.timer0Handler = some r) (ht : t ∈ r.2) : c.due t = true := by
  have hirq : c.timer0Irq = true := by
    by_contra hno
    unfold timer0Handler at hr
    rw [Bool.not_eq_true] at hno
    rw [hno] at hr
    cases hr
  have hqueue : c.timerQueue ≠ [] := by
    intro hnil
    unfold timer0Handler at hr
    rw [hirq, hnil] at hr
    cases hr
  rw [timer0Handler_eq hirq hqueue, Option.some.injEq] at hr
  rw [← hr, timer0Loop_eq] at ht
  exact List.all_eq_true.mp List.all_takeWhile t ht

/-- A timer that is not far in the future is due at most 500 microseconds early. -/
theorem due_not_early {c : Clock} {t : AlarmTimer} (hdue : c.due t = true)
    (hnear : t.expirationTime < c.getTimeStamp + 2 ^ 63) :
    t.expirationTime ≤ c.getTimeStamp + 500 := by
  unfold due delayOf at hdue
  rw [Bool.or_eq_true, decide_eq_true_eq, decide_eq_true_eq] at hdue
  omega

/-- The client that sleeps is not woken more than 500 microseconds early. -/
theorem sleep_not_early {null : Option ThreadId} {c c₁ c₂ : Clock} {tid : ThreadId} {msec : Nat}
    {r : Clock × List AlarmTimer} (h : c.Fits) (hsmall : 1000 * msec < 2 ^ 31)
    (hs : (machine null).step c (.sleep tid [msec] true) = some c₁)
    (hpath : (machine null).Path StampFits c₁ c₂) (hr : c₂.timer0Handler = some r)
    (ht : ⟨c.getTimeStamp + 1000 * msec, tid⟩ ∈ r.2) :
    c.getTimeStamp + 1000 * msec ≤ c₂.getTimeStamp + 500 := by
  have hfirst : c₁.Fits ∧ c.currentTimestampHigh ≤ c₁.currentTimestampHigh :=
    h.high_step (a := .sleep tid [msec] true) trivial hs
  -- The high part has only grown since the call, so the time stamp is at most one turn behind.
  have hrun : c₂.Fits ∧ c₁.currentTimestampHigh ≤ c₂.currentTimestampHigh :=
    hpath.relation (fun c c' => c.currentTimestampHigh ≤ c'.currentTimestampHigh)
      (fun _ => Nat.le_refl _) (fun _ _ _ => Nat.le_trans)
      (fun _ _ _ hI hok hs => hI.high_step hok hs) hfirst.1
  have hstart := h.stamp_bounds
  have hend := hrun.1.stamp_bounds
  have hlt := hrun.1.2
  have hoverflow := overflowMicroseconds_eq
  refine due_not_early (t := ⟨c.getTimeStamp + 1000 * msec, tid⟩) (due_of_rings hr ht) ?_
  show c.getTimeStamp + 1000 * msec < c₂.getTimeStamp + 2 ^ 63
  omega

end Clock

/-- The timer of a sleep expires exactly when it was asked to, if and only if the request
fits in an `int` as microseconds. It then does not ring more than 500 microseconds early. -/
theorem sleep_expires_iff {null : Option ThreadId} {c : Clock}
    (hinit : c.driverInitialized = true) {tid : ThreadId} {msec : Nat} (hmsec : msec < 2 ^ 31)
    (hnow : c.getTimeStamp + 1000 * msec < 2 ^ 64) :
    (c.SleepsFor tid msec ↔ 1000 * msec < 2 ^ 31) ∧
      (1000 * msec < 2 ^ 31 → c.Fits → ∀ c₁ c₂ r,
        (machine null).step c (.sleep tid [msec] true) = some c₁ →
        (machine null).Path StampFits c₁ c₂ → c₂.timer0Handler = some r →
        ⟨c.getTimeStamp + 1000 * msec, tid⟩ ∈ r.2 →
        c.getTimeStamp + 1000 * msec ≤ c₂.getTimeStamp + 500) :=
  ⟨sleepsFor_iff hinit hmsec hnow, fun hsmall hfits _ _ _ hs hpath hr ht =>
    sleep_not_early hfits hsmall hs hpath hr ht⟩

/-- A sleep of one second. -/
theorem sleep_expires_second : started.SleepsFor (threadId 1) 1000 :=
  (@sleep_expires_iff none started rfl (threadId 1) 1000 (by decide) (by decide)).1.mpr (by decide)

/-- The timer of a sleep of 4294968 milliseconds, which is less than 50 days, expires after
704 microseconds. -/
theorem sleep_wraps : ¬ started.SleepsFor (threadId 1) 4294968 ∧
    (started.sleepTimer (threadId 1) [4294968] true).1.timerQueue = [⟨704, threadId 1⟩] := by
  refine ⟨?_, by decide⟩
  rintro ⟨t, -, hqueue, -, hexpires⟩
  have hqueue' : [(⟨704, threadId 1⟩ : AlarmTimer)] = [t] := hqueue
  rw [← List.singleton_inj.mp hqueue'] at hexpires
  exact absurd hexpires (by decide)

/-! ### How exact the time stamp is -/

namespace Clock

/-- The time since `start_timer` in microseconds. -/
def elapsed (c : Clock) : Nat := c.ticks * 50 / 3333

/-- How often the counter has wrapped. -/
def overflows (c : Clock) : Nat := c.ticks / 2 ^ 32

/-- The time stamp is exact to a microsecond. -/
def Exact (c : Clock) : Prop := c.getTimeStamp ≤ c.elapsed + 1 ∧ c.elapsed ≤ c.getTimeStamp + 1

/-- What is lost in the overflows and in the last division is less than two microseconds. -/
def SmallError (c : Clock) : Prop := c.overflows * 1784 + c.ostTs * 50 % 3333 < 2 * 3333

/-- Each overflow that has been handled or is pending counts for `overflowMicroseconds`. -/
def CountsOverflows (c : Clock) : Prop := c.handledHigh = c.overflows * overflowMicroseconds

/-- The count of overflows is one of the fields that are the same. -/
theorem SameStamp.countsOverflows {c c' : Clock} (h : SameStamp c c') (hc : c.CountsOverflows) :
    c'.CountsOverflows := by
  unfold CountsOverflows handledHigh overflows
  rw [h.high, h.irq, h.ticks]
  exact hc

/-- The counter wraps at most once before the interrupt is handled. -/
theorem CountsOverflows.advance {c : Clock} {n : Nat} (h : c.CountsOverflows)
    (hok : c.HandlesOverflow (.advance n)) : (c.advance n).CountsOverflows := by
  have hmono : c.ticks / 2 ^ 32 ≤ (c.ticks + n) / 2 ^ 32 :=
    Nat.div_le_div_right (Nat.le_add_right _ _)
  have hok' : (c.ticks + n) / 2 ^ 32 ≤ c.ticks / 2 ^ 32 + if c.timestampIrq then 0 else 1 := hok
  have hcount : c.handledHigh = c.ticks / 2 ^ 32 * overflowMicroseconds := h
  show (c.advance n).handledHigh = (c.ticks + n) / 2 ^ 32 * overflowMicroseconds
  by_cases hwrap : c.ticks / 2 ^ 32 < (c.ticks + n) / 2 ^ 32
  -- The step is allowed to wrap the counter only when the last overflow has been handled.
  · have hpending : c.timestampIrq = false := by
      by_contra hirq
      rw [Bool.not_eq_false] at hirq
      rw [hirq, if_pos rfl] at hok'
      omega
    rw [hpending, if_neg Bool.false_ne_true] at hok'
    have hafter : (c.advance n).timestampIrq = true := by
      simp only [Clock.advance, hwrap, decide_true, Bool.or_true]
    have hnext : (c.ticks + n) / 2 ^ 32 = c.ticks / 2 ^ 32 + 1 := by omega
    rw [handledHigh_of_handled hpending] at hcount
    rw [handledHigh_of_pending hafter, hnext, Nat.add_mul, Nat.one_mul, ← hcount]
    rfl
  · have hirq : (c.advance n).timestampIrq = c.timestampIrq := by
      simp only [Clock.advance, hwrap, decide_false, Bool.or_false]
    have hsame : (c.ticks + n) / 2 ^ 32 = c.ticks / 2 ^ 32 := by omega
    rw [hsame, ← hcount]
    unfold handledHigh
    rw [hirq]
    rfl

/-- The handler counts the overflow that is pending. -/
theorem CountsOverflows.timerOverflowIrq {c c' : Clock} (h : c.CountsOverflows)
    (hfits : c.Fits) (hc : c.timerOverflowIrq = some c') : c'.CountsOverflows := by
  unfold Clock.timerOverflowIrq at hc
  split at hc
  next hpending =>
    rw [Option.some.injEq] at hc
    subst hc
    unfold CountsOverflows at h
    rw [handledHigh_of_pending hpending] at h
    unfold CountsOverflows
    rw [handledHigh_of_handled rfl]
    dsimp only
    rw [Nat.mod_eq_of_lt hfits.2, h]
    rfl
  next => cases hc

/-- Every step keeps the count, by cases on the action. -/
theorem CountsOverflows.step {null : Option ThreadId} {c c' : Clock} {a : ClockAction}
    (h : c.CountsOverflows) (hfits : c.Fits) (hok : c.HandlesOverflow a)
    (hs : (machine null).step c a = some c') : c'.CountsOverflows := by
  -- Time that passes and the handled interrupt move the count together; nothing else does.
  rcases step_sameStamp hs with ⟨n, rfl⟩ | rfl | hsame
  · have hc := (step_eq_some hs).2
    rw [exec, Option.some.injEq] at hc
    subst hc
    exact h.advance hok
  · exact h.timerOverflowIrq hfits (step_eq_some hs).2
  · exact hsame.countsOverflows h

/-- The time stamp counts the handled overflows and the counter, each rounded down. -/
theorem CountsOverflows.getTimeStamp {c : Clock} (h : c.CountsOverflows) (hfits : c.Fits)
    (hirq : c.timestampIrq = false) :
    c.getTimeStamp = c.overflows * overflowMicroseconds + ticksToMicroseconds c.ostTs := by
  rw [hfits.getTimeStamp hirq, Clock.time, h]

/-- The elapsed time is the time stamp and what has been rounded off. -/
theorem elapsed_eq (c : Clock) :
    c.elapsed = c.overflows * overflowMicroseconds + ticksToMicroseconds c.ostTs +
      (c.overflows * 1784 + c.ostTs * 50 % 3333) / 3333 := by
  obtain ⟨-, -, hticks, -⟩ := lowPart_spec c
  have hrest := Nat.div_add_mod (c.ostTs * 50) 3333
  have hoverflow := overflowMicroseconds_eq
  -- Both divisions round down; the rest of each is what the time stamp loses.
  have hparts : c.ticks * 50 =
      (c.overflows * 1784 + c.ostTs * 50 % 3333) +
        3333 * (c.overflows * overflowMicroseconds + ticksToMicroseconds c.ostTs) := by
    rw [hoverflow]
    unfold ticksToMicroseconds overflows
    omega
  unfold elapsed
  rw [hparts, Nat.add_mul_div_left _ _ (by decide), Nat.add_comm]

end Clock

/-- With every overflow handled, the time stamp is exact to a microsecond if and only if
little has been rounded off. -/
theorem time_stamp_error_iff {null : Option ThreadId} {c : Clock}
    (h : (machine null).Reachable HandlesOverflow c) (hirq : c.timestampIrq = false) :
    c.Exact ↔ c.SmallError := by
  have hinv : c.Fits ∧ c.CountsOverflows := by
    refine h.invariant (fun c => c.Fits ∧ c.CountsOverflows) ?_ ?_
    · rintro c₀ rfl
      exact ⟨⟨rfl, by decide⟩, rfl⟩
    · intro c c' a hI hok hs
      exact ⟨(hI.1.step hok hs).1, hI.2.step hI.1 hok hs⟩
  have hstamp := hinv.2.getTimeStamp hinv.1 hirq
  have helapsed := elapsed_eq c
  unfold Exact SmallError
  rw [helapsed, ← hstamp]
  omega

/-- From the fourth overflow on the time stamp is late. -/
theorem not_smallError {c : Clock} (h : 4 ≤ c.overflows) : ¬ c.SmallError := by
  unfold SmallError
  omega

/-- The counter wraps this often, and each overflow is handled. -/
def wraps (n : Nat) : List ClockAction :=
  (List.replicate n [.advance (2 ^ 32), .timestampIrq]).flatten

/-- After one overflow the time stamp is still exact. -/
theorem time_stamp_error_iff_wraps : ∃ c : Clock, c.overflows = 1 ∧ c.Exact := by
  obtain ⟨c, -, hreach, hirq, hcount, hsmall⟩ := Lib.Machine.exists_run (machine none)
    HandlesOverflow rfl (wraps 1)
    (fun c => c.timestampIrq = false ∧ c.overflows = 1 ∧
      c.overflows * 1784 + c.ostTs * 50 % 3333 < 2 * 3333) (by decide +kernel)
  exact ⟨c, hcount, (time_stamp_error_iff hreach hirq).mpr hsmall⟩

/-- Four overflows, which is less than five minutes, after `start_timer` the time stamp is two
microseconds late. -/
theorem time_stamp_drifts : ∃ c : Clock, (machine none).Reachable HandlesOverflow c ∧
    c.timestampIrq = false ∧ ¬ c.Exact := by
  obtain ⟨c, -, hreach, hirq, hlate⟩ := Lib.Machine.exists_run (machine none) HandlesOverflow rfl
    (wraps 4) (fun c => c.timestampIrq = false ∧ c.getTimeStamp + 1 < c.elapsed)
    (by decide +kernel)
  exact ⟨c, hreach, hirq, fun hexact => absurd hexact.2 (Nat.not_le.mpr hlate)⟩

end Sos
