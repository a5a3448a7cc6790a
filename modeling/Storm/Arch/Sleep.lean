import Storm.Arch.I8254
import Storm.Library.Transition

/-! # `i8254_sleep`

The loop of `i8254_sleep`, with interrupts at any point between its steps. The number of ticks to
wait for, the tick counter and the deadline have 32 bits each, and the loop compares the counter
with the deadline.

The main result, `sleeps_exactly_iff`: a sleep ends at the right loop test, whenever the interrupts
arrive, exactly when the deadline does not wrap around. -/

namespace Storm

open ByteMemory Transition

/-- Where the code is in `i8254_sleep`. -/
inductive SleepPc where
  /-- At the test of the loop. -/
  | test
  /-- In front of the `hlt` of `cpu_wait_for_interrupt`. -/
  | wait
  /-- The processor has halted until the next interrupt. -/
  | halted
  /-- The function has returned. -/
  | returned
  deriving DecidableEq, Repr

/-- A call of `i8254_sleep`. -/
structure SleepState where
  timer : I8254State
  finishedTick : Word
  pc : SleepPc
  /-- How many timer interrupts have been handled since the call. -/
  handled : ℕ
  /-- How many of them at the last test of the loop. -/
  lastTest : Option ℕ

/-- What can happen. -/
inductive SleepAction where
  /-- The next step of `i8254_sleep`. -/
  | code
  /-- A timer interrupt. -/
  | timer
  /-- Another interrupt. -/
  | other
  deriving DecidableEq, Repr

/-- `i8254_sleep(time_s)`, up to its loop. -/
def i8254Sleep (timeS : Word) (timer : I8254State) : SleepState where
  timer
  finishedTick := timer.tickCount + timer.freq * timeS
  pc := .test
  handled := 0
  lastTest := none

namespace SleepState

/-- A halted processor continues behind the `hlt` after an interrupt. -/
def wake (s : SleepState) : SleepState :=
  if s.pc = .halted then { s with pc := .test } else s

/-- What an action leads to, if it can happen. -/
def step (s : SleepState) : SleepAction → Option SleepState
  | .code =>
      match s.pc with
      | .test => some { s with
          pc := if s.timer.tickCount < s.finishedTick then .wait else .returned
          lastTest := some s.handled }
      | .wait => some { s with pc := .halted }
      | .halted | .returned => none
  | .timer => some (wake { s with timer := i8254IrqHandler s.timer, handled := s.handled + 1 })
  | .other => some s.wake

/-- The steps. -/
def Step (s : SleepState) (a : SleepAction) (s' : SleepState) : Prop := s.step a = some s'

/-- The last test of the loop has ended the sleep exactly if as many timer interrupts had been
handled as were to be waited for. -/
def Exact (ticks : ℕ) (s : SleepState) : Prop :=
  ∀ n, s.lastTest = some n → (s.pc = .returned ↔ ticks ≤ n)

/-- A step that makes a test of the loop only as long as the tick counter, which was at `start` at
the beginning, has not wrapped around. -/
def StepBeforeWrap (start : Word) (s : SleepState) (a : SleepAction) (s' : SleepState) : Prop :=
  s.Step a s' ∧ (a = .code → s.pc = .test → start.toNat + s.handled < 2 ^ 32)

variable {timer : I8254State} {timeS : Word} {s s' : SleepState} {a : SleepAction}

/-- Waking up changes nothing but the place in the code. -/
theorem wake_eq (s : SleepState) : s.wake = { s with pc := s.wake.pc } ∧
    (s.wake.pc = .returned ↔ s.pc = .returned) := by
  unfold wake
  by_cases h : s.pc = .halted
  · simp [h]
  · simp [h]

/-- What a step can do. -/
theorem step_cases (h : s.Step a s') :
    (a = .code ∧ s.pc = .test ∧ s' = { s with
      pc := if s.timer.tickCount < s.finishedTick then .wait else .returned
      lastTest := some s.handled }) ∨
    (a = .code ∧ s.pc = .wait ∧ s' = { s with pc := .halted }) ∨
    (a = .timer ∧ s' = wake { s with
      timer := i8254IrqHandler s.timer, handled := s.handled + 1 }) ∨
    (a = .other ∧ s' = s.wake) := by
  cases a with
  | code =>
      rw [Step, step] at h
      split at h
      · exact .inl ⟨rfl, ‹_›, (Option.some.inj h).symm⟩
      · exact .inr (.inl ⟨rfl, ‹_›, (Option.some.inj h).symm⟩)
      · cases h
      · cases h
  | timer => exact .inr (.inr (.inl ⟨rfl, (Option.some.inj h).symm⟩))
  | other => exact .inr (.inr (.inr ⟨rfl, (Option.some.inj h).symm⟩))

/-- What holds during a sleep that the call `i8254_sleep(time_s)` has begun. -/
structure Sleeping (timer : I8254State) (timeS : Word) (s : SleepState) : Prop where
  finishedTick : s.finishedTick = timer.tickCount + timer.freq * timeS
  /-- The counter counts the timer interrupts. -/
  tickCount : s.timer.tickCount = timer.tickCount + BitVec.ofNat 32 s.handled
  exact : Exact (timer.freq.toNat * timeS.toNat) s

/-- A test of the loop, before the counter has wrapped around, is right about a deadline that does
not wrap around. -/
theorem not_lt_finishedTick {start freq : Word} {n : ℕ}
    (hdeadline : start.toNat + freq.toNat * timeS.toNat < 2 ^ 32) (hn : start.toNat + n < 2 ^ 32) :
    ¬ start + BitVec.ofNat 32 n < start + freq * timeS ↔ freq.toNat * timeS.toNat ≤ n := by
  have hticks : (start + freq * timeS).toNat = start.toNat + freq.toNat * timeS.toNat := by
    rw [BitVec.toNat_add, BitVec.toNat_mul, Nat.add_mod_mod, Nat.mod_eq_of_lt hdeadline]
  have hcount : (start + BitVec.ofNat 32 n).toNat = start.toNat + n := by
    rw [BitVec.toNat_add, BitVec.toNat_ofNat, Nat.add_mod_mod, Nat.mod_eq_of_lt hn]
  rw [BitVec.lt_def, hticks, hcount]
  omega

/-- **Every step** before the counter wraps around keeps the sleep right. -/
theorem Sleeping.step (h : Sleeping timer timeS s)
    (hdeadline : timer.tickCount.toNat + timer.freq.toNat * timeS.toNat < 2 ^ 32)
    (hstep : StepBeforeWrap timer.tickCount s a s') : Sleeping timer timeS s' := by
  obtain ⟨hfinished, hcount, hexact⟩ := h
  obtain ⟨hs, hwrap⟩ := hstep
  obtain ⟨ha, hpc, rfl⟩ | ⟨-, hpc, rfl⟩ | ⟨-, rfl⟩ | ⟨-, rfl⟩ := step_cases hs
  -- the test of the loop
  · refine ⟨hfinished, hcount, fun n hn => ?_⟩
    obtain rfl : s.handled = n := Option.some.inj hn
    rw [← not_lt_finishedTick hdeadline (hwrap ha hpc), ← hfinished, ← hcount]
    by_cases hlt : s.timer.tickCount < s.finishedTick <;> simp [hlt]
  -- the `hlt`
  · refine ⟨hfinished, hcount, fun n hn => ?_⟩
    rw [← hexact n hn, hpc]
    simp
  -- a timer interrupt, which advances the counter
  · obtain ⟨heq, hpc⟩ := wake_eq { s with
      timer := i8254IrqHandler s.timer, handled := s.handled + 1 }
    rw [heq]
    refine ⟨hfinished, ?_, fun n hn => hpc.trans (hexact n hn)⟩
    show s.timer.tickCount + 1 = _
    rw [hcount, BitVec.ofNat_add, add_assoc]
    rfl
  -- another interrupt
  · obtain ⟨heq, hpc⟩ := wake_eq s
    rw [heq]
    exact ⟨hfinished, hcount, fun n hn => hpc.trans (hexact n hn)⟩

/-- A call begins a sleep. -/
theorem sleeping_i8254Sleep (timer : I8254State) (timeS : Word) :
    Sleeping timer timeS (i8254Sleep timeS timer) :=
  ⟨rfl, (add_zero _).symm, fun _ hn => by cases hn⟩

/-! ## Deadlines that wrap around -/

/-- Timer interrupts in front of the first test of the loop. -/
theorem run_timers (timer : I8254State) (timeS : Word) (n : ℕ) :
    Run (StepBeforeWrap timer.tickCount) (i8254Sleep timeS timer) (List.replicate n .timer)
      { i8254Sleep timeS timer with
        timer := { timer with tickCount := timer.tickCount + BitVec.ofNat 32 n }
        handled := n } := by
  induction n with
  | zero =>
      rw [show timer.tickCount + BitVec.ofNat 32 0 = timer.tickCount from add_zero _]
      exact .nil _
  | succ n ih =>
      rw [List.replicate_succ']
      refine ih.snoc ⟨?_, fun h => by cases h⟩
      rw [BitVec.ofNat_add, ← add_assoc]
      rfl

/-- **A sleep ends early** when its deadline wraps around: the first test may be made after fewer
timer interrupts than were to be waited for, and does not wait. -/
theorem exists_early (timer : I8254State) (timeS : Word)
    (hdeadline : 2 ^ 32 ≤ timer.tickCount.toNat + timer.freq.toNat * timeS.toNat) :
    ∃ acts s, Run (StepBeforeWrap timer.tickCount) (i8254Sleep timeS timer) acts s ∧
      ¬ s.Exact (timer.freq.toNat * timeS.toNat) := by
  have htick := timer.tickCount.isLt
  -- so many interrupts that the counter has passed the deadline, but has not wrapped around
  obtain ⟨n, hn, hlt, hpassed⟩ : ∃ n < timer.freq.toNat * timeS.toNat,
      timer.tickCount.toNat + n < 2 ^ 32 ∧
        ¬ timer.tickCount + BitVec.ofNat 32 n < timer.tickCount + timer.freq * timeS := by
    have hmul : (timer.freq * timeS).toNat = timer.freq.toNat * timeS.toNat % 2 ^ 32 :=
      BitVec.toNat_mul ..
    have hrest := Nat.mod_lt (timer.freq.toNat * timeS.toNat) (show 2 ^ 32 > 0 by decide)
    have hle := Nat.mod_le (timer.freq.toNat * timeS.toNat) (2 ^ 32)
    generalize timer.freq * timeS = required at hmul ⊢
    generalize timer.freq.toNat * timeS.toNat = ticks at *
    by_cases hwrap : timer.tickCount.toNat + ticks % 2 ^ 32 < 2 ^ 32
    -- the counter reaches the deadline a multiple of `2³²` ticks too early
    · refine ⟨ticks % 2 ^ 32, by omega, hwrap, ?_⟩
      rw [← hmul, BitVec.ofNat_toNat, BitVec.setWidth_eq]
      exact BitVec.lt_irrefl _
    -- the deadline is below the counter from the beginning
    · refine ⟨0, by omega, by omega, ?_⟩
      bv_omega
  have hstep : StepBeforeWrap timer.tickCount { i8254Sleep timeS timer with
      timer := { timer with tickCount := timer.tickCount + BitVec.ofNat 32 n }
      handled := n } .code _ := ⟨rfl, fun _ _ => hlt⟩
  refine ⟨_, _, (run_timers timer timeS n).snoc hstep, fun hexact => ?_⟩
  have hreturned := (hexact n rfl).mp (if_neg hpassed)
  omega

/-- **A sleep ends at the right test**, in every run that makes no test after the counter has
wrapped around, exactly when its deadline does not wrap around. -/
theorem sleeps_exactly_iff (timer : I8254State) (timeS : Word) :
    (∀ acts s, Run (StepBeforeWrap timer.tickCount) (i8254Sleep timeS timer) acts s →
        s.Exact (timer.freq.toNat * timeS.toNat)) ↔
      timer.tickCount.toNat + timer.freq.toNat * timeS.toNat < 2 ^ 32 := by
  constructor
  · intro hexact
    by_contra hdeadline
    obtain ⟨acts, s, hrun, hearly⟩ := exists_early timer timeS (by omega)
    exact hearly (hexact acts s hrun)
  · intro hdeadline acts s hrun
    have hsleeping := hrun.invariant (I := Sleeping timer timeS)
      (fun _ _ _ h hstep => h.step hdeadline hstep) (sleeping_i8254Sleep timer timeS)
    exact hsleeping.exact

/-- **A sleep of one second that ends at once**: at 100 Hz, with the tick counter just below `2³²`.
-/
theorem early_return :
    ∃ acts s, Run Step (i8254Sleep 1 { I8254State.initial with tickCount := 0xffffffff, freq := 100 })
        acts s ∧ s.pc = .returned ∧ s.handled = 0 ∧ ¬ s.Exact (100 * 1) := by
  have hstep : Step (i8254Sleep 1 { I8254State.initial with tickCount := 0xffffffff, freq := 100 })
      .code _ := rfl
  refine ⟨_, _, .single hstep, by decide, rfl, fun hexact => ?_⟩
  exact absurd ((hexact 0 rfl).mp (by decide)) (by decide)

end SleepState

end Storm
