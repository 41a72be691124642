import Mathlib.Data.List.TakeDrop
import Sos.Clock.Step

/-!
# `Sos.Clock.Spec`: what the operations of the clock driver do

One lemma for each operation, in terms of the queue and of the timer that the operation
programs timer 0 for.

* `timer0Set_reload`: the register holds the count without its low two bits, modulo `2 ^ 32`.
  A programmed count is never longer than the delay (`reload_le`).
* `registerTimer_eq`, `timer0Loop_eq`, `removeTimers_spec`: the queue and the timer
  afterwards.
* `SameStamp`: only the passing of time and `timer_overflow_irq` change the time stamp.
-/

set_option autoImplicit false

namespace Sos.Clock

/-! ### Programming timer 0 -/

/-- The register keeps 30 bits of the count. -/
theorem timer0Set_reload (c : Clock) (count : Nat) :
    (c.timer0Set count).timer0Reload = count / 4 % 2 ^ 30 * 4 := by
  have hmask62 : (0xFFFFFFFFFFFFFFFC : Nat) = (2 ^ 62 - 1) <<< 2 := rfl
  have hmask30 : (0xFFFFFFFC : Nat) = (2 ^ 30 - 1) <<< 2 := rfl
  have h62 : count &&& 0xFFFFFFFFFFFFFFFC = count / 2 ^ 2 % 2 ^ 62 * 2 ^ 2 := by
    rw [hmask62, Lib.and_mask_shiftLeft]
  have h30 : ∀ x : Nat, x &&& 0xFFFFFFFC = x / 2 ^ 2 % 2 ^ 30 * 2 ^ 2 := by
    intro x
    rw [hmask30, Lib.and_mask_shiftLeft]
  have hor : count / 2 ^ 2 % 2 ^ 62 * 2 ^ 2 ||| 0x2 = count / 2 ^ 2 % 2 ^ 62 * 2 ^ 2 + 2 :=
    Lib.or_eq_add_of_dvd (Nat.dvd_mul_left _ _) (by decide)
  show ((count &&& 0xFFFFFFFFFFFFFFFC) ||| 0x2) % 2 ^ 32 &&& 0xFFFFFFFC = _
  rw [h62, hor, h30]
  omega

/-- The count is cut off, never rounded up, so it does not take longer than the delay. -/
theorem reload_le (c : Clock) (delay : Nat) :
    (c.timer0Set (microsecondsToTicks delay)).timer0Reload * 50 ≤ delay * 3333 := by
  rw [timer0Set_reload]
  have hcount : microsecondsToTicks delay * 50 ≤ delay * 3333 := by
    have hdiv := Nat.div_mul_le_self (delay * 3333 % 2 ^ 64) 50
    have hmod := Nat.mod_le (delay * 3333) (2 ^ 64)
    rw [microsecondsToTicks]
    omega
  have hreload : microsecondsToTicks delay / 4 % 2 ^ 30 * 4 ≤ microsecondsToTicks delay := by
    omega
  omega

/-- Timer 0 is set to run out no later than the delay from now. -/
theorem program_timer0 (c : Clock) (delay : Nat) :
    ∃ deadline, (c.program delay).timer0 = some deadline ∧
      deadline * 50 ≤ c.ticks * 50 + delay * 3333 := by
  refine ⟨_, rfl, ?_⟩
  have hle := reload_le c delay
  rw [Nat.add_mul]
  exact Nat.add_le_add_left hle _

/-- Setting timer 0 does not touch the queue. -/
@[simp] theorem program_timerQueue (c : Clock) (delay : Nat) :
    (c.program delay).timerQueue = c.timerQueue := rfl

/-- An interrupt that is pending stays so. -/
@[simp] theorem program_timer0Irq (c : Clock) (delay : Nat) :
    (c.program delay).timer0Irq = c.timer0Irq := rfl

/-! ### The time stamp -/

/-- The two states give the same time stamp. -/
structure SameStamp (c c' : Clock) : Prop where
  ticks : c'.ticks = c.ticks
  high : c'.currentTimestampHigh = c.currentTimestampHigh
  irq : c'.timestampIrq = c.timestampIrq
  initialized : c'.driverInitialized = c.driverInitialized

/-- One step after another. -/
theorem SameStamp.trans {c c₁ c₂ : Clock} (h : SameStamp c c₁) (h' : SameStamp c₁ c₂) :
    SameStamp c c₂ :=
  ⟨h'.ticks.trans h.ticks, h'.high.trans h.high, h'.irq.trans h.irq,
    h'.initialized.trans h.initialized⟩

/-- The time stamp is computed from the fields that are the same. -/
theorem SameStamp.getTimeStamp {c c' : Clock} (h : SameStamp c c') :
    c'.getTimeStamp = c.getTimeStamp := by
  unfold Clock.getTimeStamp ostTs
  rw [h.initialized, h.high, h.ticks]

/-- So is what is left of an alarm. -/
theorem SameStamp.delayOf {c c' : Clock} (h : SameStamp c c') (t : AlarmTimer) :
    c'.delayOf t = c.delayOf t := by
  rw [Clock.delayOf, Clock.delayOf, h.getTimeStamp]

/-- The same delay, programmed at the same time, ends at the same tick. -/
theorem SameStamp.program {c c' : Clock} (h : SameStamp c c') (delay : Nat) :
    (c'.program delay).timer0 = (c.program delay).timer0 := by
  show some (c'.ticks + (c'.timer0Set _).timer0Reload) =
    some (c.ticks + (c.timer0Set _).timer0Reload)
  rw [timer0Set_reload, timer0Set_reload, h.ticks]

/-! ### `register_timer` -/

/-- An insertion adds one alarm and drops none. -/
theorem mem_timerQueueInsert {new t : AlarmTimer} {queue : List AlarmTimer} :
    t ∈ timerQueueInsert new queue ↔ t = new ∨ t ∈ queue := by
  induction queue with
  | nil => simp [timerQueueInsert]
  | cons u rest ih =>
      rw [timerQueueInsert]
      split
      · simp
      · simp only [List.mem_cons, ih]
        tauto

/-- The queue is sorted by the expiration time. -/
def Sorted (queue : List AlarmTimer) : Prop :=
  queue.Pairwise fun t u => t.expirationTime ≤ u.expirationTime

/-- The new alarm goes behind those that expire no later. -/
theorem Sorted.insert {new : AlarmTimer} {queue : List AlarmTimer} (h : Sorted queue) :
    Sorted (timerQueueInsert new queue) := by
  induction queue with
  | nil => exact List.pairwise_singleton _ _
  | cons u rest ih =>
      have hu := List.pairwise_cons.mp h
      rw [timerQueueInsert]
      split
      -- The new alarm goes in front: everything behind expires no earlier.
      next hlt =>
        refine List.pairwise_cons.mpr ⟨?_, h⟩
        intro t ht
        rcases List.mem_cons.mp ht with rfl | ht
        · omega
        · have := hu.1 t ht
          omega
      -- The new alarm goes further back, past one that expires no later.
      next hge =>
        refine List.pairwise_cons.mpr ⟨?_, ih hu.2⟩
        intro t ht
        rcases mem_timerQueueInsert.mp ht with rfl | ht
        · omega
        · exact hu.1 t ht

/-- The timer that `register_timer` would put in the queue. -/
def newTimer (c : Clock) (delay : Nat) (client : ThreadId) : AlarmTimer :=
  ⟨(c.getTimeStamp + delay) % 2 ^ 64, client⟩

/-- The new timer becomes the head of the queue. -/
def BecomesHead (c : Clock) (t : AlarmTimer) : Prop :=
  ∀ head ∈ c.timerQueue.head?, t.expirationTime < head.expirationTime

instance (c : Clock) (t : AlarmTimer) : Decidable (c.BecomesHead t) :=
  inferInstanceAs (Decidable (∀ head ∈ c.timerQueue.head?, _))

/-- What `register_timer` does: nothing without a driver or memory, else the new alarm is in the
queue, and timer 0 is set if it is in front. -/
theorem registerTimer_eq (c : Clock) (delay : Nat) (client : ThreadId) (allocated : Bool) :
    (c.registerTimer delay client allocated).1 =
      if c.driverInitialized ∧ allocated then
        let c' := { c with timerQueue := timerQueueInsert (c.newTimer delay client) c.timerQueue }
        if c.BecomesHead (c.newTimer delay client) then c'.program delay else c'
      else c := by
  unfold registerTimer
  cases hinit : c.driverInitialized with
  | false => simp
  -- Both checks of the source pass; what is left is who is the head of the queue.
  | true =>
      cases allocated with
      | false => simp
      | true =>
          have hhead : (c.timerQueue.head?.all fun t =>
                decide ((c.newTimer delay client).expirationTime < t.expirationTime)) = true ↔
              c.BecomesHead (c.newTimer delay client) := by
            unfold BecomesHead
            cases c.timerQueue.head? <;> simp
          simp only [Bool.not_true, Bool.false_eq_true, if_false, and_self, if_true]
          exact if_congr hhead rfl rfl

/-- Registering an alarm takes no time. -/
theorem registerTimer_sameStamp (c : Clock) (delay : Nat) (client : ThreadId)
    (allocated : Bool) : SameStamp c (c.registerTimer delay client allocated).1 := by
  rw [registerTimer_eq]
  split
  · dsimp only
    split
    · exact ⟨rfl, rfl, rfl, rfl⟩
    · exact ⟨rfl, rfl, rfl, rfl⟩
  · exact ⟨rfl, rfl, rfl, rfl⟩

/-- `sleep_timer` does nothing but register a timer, if anything. -/
theorem sleepTimer_cases (c : Clock) (tid : ThreadId) (words : List Nat) (allocated : Bool) :
    (c.sleepTimer tid words allocated).1 = c ∨ ∃ word, words = [word] ∧
      (c.sleepTimer tid words allocated).1 = (c.registerTimer (sleepDelay word) tid allocated).1 := by
  match words with
  | [] => exact Or.inl rfl
  | [word] =>
      refine Or.inr ⟨word, rfl, ?_⟩
      simp only [sleepTimer]
      split
      · rfl
      · rfl
  | _ :: _ :: _ => exact Or.inl rfl

/-! ### `timer0_irq` -/

/-- The loop takes the due timers in front off the queue, and programs timer 0 for the
first one that is left. -/
theorem timer0Loop_eq (c : Clock) (queue : List AlarmTimer) :
    c.timer0Loop queue =
      (match queue.dropWhile c.due with
        | [] => { c with timerQueue := [] }
        | t :: rest => { c with timerQueue := t :: rest }.program (c.delayOf t),
        queue.takeWhile c.due) := by
  induction queue with
  | nil => rfl
  | cons t rest ih =>
      rw [timer0Loop]
      by_cases hdue : c.due t = true
      · rw [if_pos hdue, ih, List.dropWhile_cons_of_pos hdue, List.takeWhile_cons_of_pos hdue]
      · rw [if_neg hdue, List.dropWhile_cons_of_neg hdue, List.takeWhile_cons_of_neg hdue]

/-- The handler takes the due alarms out of a queue that is not empty. -/
theorem timer0Handler_eq {c : Clock} (hirq : c.timer0Irq = true) (hq : c.timerQueue ≠ []) :
    c.timer0Handler =
      some ({ (c.timer0Loop c.timerQueue).1 with timer0Irq := false },
        (c.timer0Loop c.timerQueue).2) := by
  unfold timer0Handler
  rw [hirq, if_neg (by simp), if_neg hq]

/-- What `timer0_irq` leaves: an empty queue, or timer 0 programmed for the head. -/
theorem timer0Handler_spec {c : Clock} {r : Clock × List AlarmTimer}
    (h : c.timer0Handler = some r) :
    SameStamp c r.1 ∧ r.1.timer0Irq = false ∧ r.1.timerQueue = c.timerQueue.dropWhile c.due ∧
      (r.1.timerQueue = [] → r.1.timer0 = c.timer0) ∧
      ∀ t rest, r.1.timerQueue = t :: rest → r.1.timer0 = (c.program (c.delayOf t)).timer0 := by
  unfold timer0Handler at h
  split at h
  · cases h
  -- `timer0_handler` asserts an interrupt of timer 0 and a queue that is not empty.
  · split at h
    · cases h
    · rw [Option.some.injEq] at h
      rw [← h, timer0Loop_eq]
      cases c.timerQueue.dropWhile c.due with
      -- Nothing is left, so that timer 0 is not programmed.
      | nil =>
          refine ⟨⟨rfl, rfl, rfl, rfl⟩, rfl, rfl, fun _ => rfl, ?_⟩
          intro t rest hnil
          cases hnil
      -- The first alarm that is not due is the one that timer 0 is programmed for.
      | cons t rest =>
          refine ⟨⟨rfl, rfl, rfl, rfl⟩, rfl, rfl, ?_, ?_⟩
          · intro hcons
            cases hcons
          · intro t' rest' hcons
            cases hcons
            rfl

/-! ### `remove_timers` -/

/-- The timers `remove_timers` looks for. -/
def ownedBy (tid : ThreadId) (t : AlarmTimer) : Bool := t.owner = tid

/-- Dropping the first element changes a list. -/
theorem dropWhile_ne {p : AlarmTimer → Bool} {t : AlarmTimer} {rest : List AlarmTimer}
    (ht : p t = true) : (t :: rest).dropWhile p ≠ t :: rest := by
  intro he
  have hlen := congrArg List.length he
  have hsub := (List.dropWhile_sublist p (l := rest)).length_le
  rw [List.dropWhile_cons_of_pos ht, List.length_cons] at hlen
  omega

/-- What the first loop leaves. Where it has removed a head it has programmed timer 0 for
the new one. -/
theorem removeHead_spec {null : Option ThreadId} {tid : ThreadId} {queue : List AlarmTimer} :
    ∀ {c c' : Clock}, removeHead null tid c queue = some c' →
      SameStamp c c' ∧ c'.timer0Irq = c.timer0Irq ∧
        c'.timerQueue = queue.dropWhile (ownedBy tid) ∧
        (c'.timerQueue = queue → queue ≠ [] → c'.timer0 = c.timer0) ∧
        ∀ t rest, c'.timerQueue = t :: rest → c'.timerQueue ≠ queue →
          c'.timer0 = (c.program (max (c.delayOf t) 1)).timer0 := by
  induction queue with
  | nil =>
      intro c c' h
      cases null with
      | none => cases h
      | some owner =>
          rw [removeHead] at h
          split at h
          · cases h
          · rw [Option.some.injEq] at h
            rw [← h]
            exact ⟨⟨rfl, rfl, rfl, rfl⟩, rfl, rfl, fun _ hne => absurd rfl hne,
              fun t rest hnil => by cases hnil⟩
  | cons t rest ih =>
      intro c c' h
      rw [removeHead] at h
      by_cases hown : t.owner = tid
      · rw [if_pos hown] at h
        -- The state after the turn has the same time stamp, and is programmed for the new head.
        obtain ⟨c₁, hc₁, hsame, hirq, hprog⟩ : ∃ c₁ : Clock,
            removeHead null tid c₁ rest = some c' ∧ SameStamp c c₁ ∧ c₁.timer0Irq = c.timer0Irq ∧
            ∀ u rest', rest = u :: rest' →
              c₁.timer0 = (c.program (max (c.delayOf u) 1)).timer0 := by
          cases rest with
          | nil => exact ⟨_, h, ⟨rfl, rfl, rfl, rfl⟩, rfl, fun u rest' hnil => by cases hnil⟩
          | cons u rest' =>
              refine ⟨_, h, ⟨rfl, rfl, rfl, rfl⟩, rfl, ?_⟩
              intro u' rest'' hcons
              cases hcons
              have hsame : SameStamp c { c with timerQueue := u :: rest' } := ⟨rfl, rfl, rfl, rfl⟩
              show (program { c with timerQueue := u :: rest' }
                (max (delayOf { c with timerQueue := u :: rest' } u) 1)).timer0 = _
              rw [hsame.delayOf]
              exact hsame.program _
        have hih := ih hc₁
        have hdrop : (t :: rest).dropWhile (ownedBy tid) =
            rest.dropWhile (ownedBy tid) :=
          List.dropWhile_cons_of_pos (decide_eq_true hown)
        refine ⟨hsame.trans hih.1, hih.2.1.trans hirq, hdrop ▸ hih.2.2.1, ?_, ?_⟩
        · intro he
          exact absurd (hdrop ▸ hih.2.2.1.symm.trans he) (dropWhile_ne (decide_eq_true hown))
        · intro u rest' hcons _
          by_cases he : c'.timerQueue = rest
          · have hne : rest ≠ [] := by
              rw [← he, hcons]
              exact List.cons_ne_nil _ _
            rw [hih.2.2.2.1 he hne]
            exact hprog u rest' (he ▸ hcons)
          · have htimer := hih.2.2.2.2 u rest' hcons he
            rw [htimer, hsame.delayOf]
            exact hsame.program _
      · rw [if_neg hown, Option.some.injEq] at h
        rw [← h]
        refine ⟨⟨rfl, rfl, rfl, rfl⟩, rfl, ?_, fun _ _ => rfl, fun _ _ _ hne => absurd rfl hne⟩
        exact (List.dropWhile_cons_of_neg (by simpa [ownedBy] using hown)).symm

/-- The second loop keeps the head, and takes timers out behind it. -/
theorem removeRest_spec {null : Option ThreadId} {tid : ThreadId} {queue queue' : List AlarmTimer}
    (h : removeRest null tid queue = some queue') :
    queue'.Sublist queue ∧ queue'.head? = queue.head? := by
  -- The cases are the branches of the loop: no element, a null pointer behind the last one (where
  -- memory at null may look like an alarm), an element that goes, and one that stays.
  fun_induction removeRest null tid queue generalizing queue' with
  | case1 =>
      rw [Option.some.injEq] at h
      exact h ▸ ⟨List.Sublist.refl _, rfl⟩
  | case2 => cases h
  | case3 => cases h
  | case4 t =>
      rw [Option.some.injEq] at h
      exact h ▸ ⟨List.Sublist.refl _, rfl⟩
  -- The second of the two elements goes, and the loop goes on behind it without a look at the
  -- next one.
  | case5 t u rest hown ih =>
      rw [Option.map_eq_some_iff] at h
      obtain ⟨tail, htail, rfl⟩ := h
      exact ⟨((ih htail).1.trans (List.sublist_cons_self u rest)).cons_cons t, rfl⟩
  | case6 t u rest hown ih =>
      rw [Option.map_eq_some_iff] at h
      obtain ⟨tail, htail, rfl⟩ := h
      exact ⟨(ih htail).1.cons_cons t, rfl⟩

/-- What `remove_timers` leaves. Timer 0 is programmed for the new head where the head has
changed, and left alone otherwise. -/
theorem removeTimers_spec {null : Option ThreadId} {tid : ThreadId} {c c' : Clock}
    (h : removeTimers null tid c = some c') :
    SameStamp c c' ∧ c'.timer0Irq = c.timer0Irq ∧ c'.timerQueue.Sublist c.timerQueue ∧
      c'.timerQueue.head? =
        (c.timerQueue.dropWhile (ownedBy tid)).head? ∧
      (∀ t rest, c'.timerQueue = t :: rest →
        (c.timerQueue.head? = some t ∧ t.owner ≠ tid ∧ c'.timer0 = c.timer0) ∨
        (c.timerQueue.head?.any (ownedBy tid) = true ∧
          c'.timer0 = (c.program (max (c.delayOf t) 1)).timer0)) ∧
      (c.timerQueue = [] → c' = c) := by
  unfold removeTimers at h
  split at h
  next hnil =>
    rw [Option.some.injEq] at h
    subst h
    refine ⟨⟨rfl, rfl, rfl, rfl⟩, rfl, List.Sublist.refl _, by rw [hnil]; rfl, ?_, fun _ => rfl⟩
    intro t rest hcons
    rw [hnil] at hcons
    cases hcons
  next hne =>
    simp only [Option.bind_eq_bind, Option.bind_eq_some_iff] at h
    obtain ⟨c₁, h₁, queue, hqueue, h⟩ := h
    rw [Option.some.injEq] at h
    subst h
    have hhead := removeHead_spec h₁
    have hrest := removeRest_spec hqueue
    refine ⟨⟨hhead.1.ticks, hhead.1.high, hhead.1.irq, hhead.1.initialized⟩, hhead.2.1, ?_, ?_, ?_,
      fun hnil => absurd hnil hne⟩
    · exact hrest.1.trans (hhead.2.2.1 ▸ List.dropWhile_sublist _)
    · rw [← hhead.2.2.1]
      exact hrest.2
    · intro t rest hcons
      have ht : c₁.timerQueue.head? = some t := by
        rw [← hrest.2]
        exact congrArg List.head? hcons
      obtain ⟨tail, htail⟩ : ∃ tail, c₁.timerQueue = t :: tail := by
        cases hq : c₁.timerQueue with
        | nil =>
            rw [hq] at ht
            cases ht
        | cons u tail =>
            rw [hq] at ht
            cases ht
            exact ⟨tail, rfl⟩
      -- Either the head was not the thread's, and the loop did nothing, or it was.
      cases hq : c.timerQueue with
      | nil => exact absurd hq hne
      | cons u rest' =>
          by_cases hown : u.owner = tid
          · refine Or.inr ⟨?_, ?_⟩
            · simpa [ownedBy] using hown
            · refine hhead.2.2.2.2 t tail htail ?_
              rw [hhead.2.2.1, hq]
              exact dropWhile_ne (decide_eq_true hown)
          · have hsameQueue : c₁.timerQueue = c.timerQueue := by
              rw [hhead.2.2.1, hq, List.dropWhile_cons_of_neg (by simpa [ownedBy] using hown)]
            have hut : u = t := by
              rw [hsameQueue, hq] at ht
              exact Option.some.inj ht
            refine Or.inl ⟨congrArg some hut, hut ▸ hown, ?_⟩
            exact hhead.2.2.2.1 hsameQueue hne

end Sos.Clock
