import Storm.Arch.I8259Chips
import Storm.Arch.Interrupts
import Storm.Library.IntervalTimer

/-! # `arch/i386/i8254.c`: the timer

`i8254_init` programs counter 0 of the timer and registers its interrupt handler. The bytes that it
writes are in the history; `timerAfter` is what a timer makes of them.

The main result, `runs_at_request_iff`, says for which frequencies the counter is programmed as it
should be. The quotient is cut to 16 bits, which is wrong below 19 Hz, and for the frequency zero
the code divides by zero. -/

namespace Storm

open ByteMemory

/-- The static variables of `i8254.c`, and those of the files it uses. -/
structure I8254State extends IrqState where
  /-- `i8254_tick_count`. -/
  tickCount : Word
  /-- `i8254_freq`. -/
  freq : Word

/-- `I8254_OSCIL_FREQ`. -/
def i8254OscilFreq : Word := 1193182

/-- `I8254_CHANNEL0_DATA_PORT`. -/
def i8254Channel0DataPort : Port := 0x40

/-- `I8254_COMMAND_PORT`. -/
def i8254CommandPort : Port := 0x43

/-- `I8254_MODE_BINARY`. -/
def i8254ModeBinary : Byte := 0x0

/-- `I8254_MODE_RATE_GENERATOR`. -/
def i8254ModeRateGenerator : Byte := 0x1 <<< 2

/-- `I8254_MODE_ACCESS_LOW`. -/
def i8254ModeAccessLow : Byte := 0x1 <<< 4

/-- `I8254_MODE_ACCESS_HIGH`. -/
def i8254ModeAccessHigh : Byte := 0x1 <<< 5

/-- `I8254_SELECT_CHANNEL_0`. -/
def i8254SelectChannel0 : Byte := 0x0

/-- `I8254_IRQ_NO`. -/
def i8254IrqNo : Byte := 0

/-- `i8254_irq_handler`. -/
def i8254IrqHandler (s : I8254State) : I8254State := { s with tickCount := s.tickCount + 1 }

/-- `io_write_byte`. -/
def I8254State.write (port : Port) (byte : Byte) (s : I8254State) : I8254State :=
  { s with toPicState := ioWriteByte port byte s.toPicState }

/-- A division of the processor; by zero it raises the exception that panics. -/
def divide (a b : Word) : Except String Word :=
  if b = 0 then .error "Divide error" else .ok (a / b)

/-- `cpu_register_irq`. -/
def cpuRegisterIrq (irq : Byte) (fn arg : Word) (s : I8254State) : Except String I8254State := do
  let irqState ← interruptsRegisterIrq irq fn arg s.toIrqState
  return { s with toIrqState := irqState }

/-- The command byte of `i8254_init`. -/
def i8254Cmd : Byte :=
  i8254ModeBinary ||| i8254ModeRateGenerator ||| i8254ModeAccessLow ||| i8254ModeAccessHigh |||
    i8254SelectChannel0

/-- `i8254_init`; `handler` is the address of `i8254_irq_handler`. -/
def i8254Init (handler freq : Word) (s : I8254State) : Except String I8254State := do
  let s := { s with freq }
  let s := s.write i8254CommandPort i8254Cmd
  let quotient ← divide i8254OscilFreq s.freq
  -- `uint16_t divisor`: what does not fit is cut off
  let divisor := quotient.setWidth 16
  let s := s.write i8254Channel0DataPort ((divisor &&& 0xff#16).setWidth 8)
  let s := s.write i8254Channel0DataPort ((divisor >>> 8).setWidth 8)
  cpuRegisterIrq i8254IrqNo handler null s

/-! ## The timer -/

/-- What a timer makes of an output. Its registers are at the ports from 0x40 to 0x43. -/
def timerStep (chip : IntervalTimer.Chip) : IrqEvent → IntervalTimer.Chip
  | .out port byte =>
      if port = 0x43 then chip.control byte
      else if port = 0x40 then chip.data 0 byte
      else if port = 0x41 then chip.data 1 byte
      else if port = 0x42 then chip.data 2 byte
      else chip
  | .setImr .. | .setFn .. | .setArg .. | .call .. => chip

/-- A timer after what the history records. -/
def timerAfter (chip : IntervalTimer.Chip) (trace : List IrqEvent) : IntervalTimer.Chip :=
  trace.foldl timerStep chip

/-- What a run of `i8254_init` adds to the history. -/
def i8254Events (handler freq : Word) (s : I8254State) : List IrqEvent :=
  let divisor := (i8254OscilFreq / freq).setWidth 16
  [.out i8254CommandPort i8254Cmd,
    .out i8254Channel0DataPort ((divisor &&& 0xff#16).setWidth 8),
    .out i8254Channel0DataPort ((divisor >>> 8).setWidth 8),
    .setFn i8254IrqNo handler, .setArg i8254IrqNo null] ++ enableEvents s.toPicState i8254IrqNo

variable {s s' : I8254State} {handler freq : Word} {chip : IntervalTimer.Chip}

/-- `i8254_init` with the frequency zero divides by zero. -/
theorem i8254Init_zero : i8254Init handler 0 s = .error "Divide error" := rfl

/-- **`i8254_init`** with another frequency adds its events to the history. -/
theorem i8254Init_eq_ok (handler : Word) (s : I8254State) (hfreq : freq ≠ 0) :
    ∃ s', i8254Init handler freq s = .ok s' ∧
      s'.trace = s.trace ++ i8254Events handler freq s ∧ s'.freq = freq := by
  have hdivide : divide i8254OscilFreq freq = .ok (i8254OscilFreq / freq) := if_neg hfreq
  rw [i8254Init]
  simp only [I8254State.write, ioWriteByte, hdivide, bind, Except.bind, cpuRegisterIrq,
    interruptsRegisterIrq_eq (show i8254IrqNo < i8259NoIrqs by decide), pure, Except.pure]
  refine ⟨_, rfl, ?_, rfl⟩
  simp [i8254Events, enableEvents]

/-- What a timer makes of a run of `i8254_init`: only counter 0 is programmed. -/
theorem timerAfter_i8254Events (hs : s.Wired) :
    timerAfter chip (i8254Events handler freq s) 0 =
      let divisor := (i8254OscilFreq / freq).setWidth 16
      (((chip 0).control i8254Cmd).data ((divisor &&& 0xff#16).setWidth 8)).data
        ((divisor >>> 8).setWidth 8) := by
  have hport : (s.pics (picOf i8254IrqNo)).dataPort = 0x21 := (hs .master).2
  -- the registration writes the mask of the master, to a port that is none of the timer's
  simp only [timerAfter, i8254Events, enableEvents, hport, List.cons_append, List.nil_append,
    List.foldl_cons, List.foldl_nil]
  rfl

/-- The count that counter 0 holds after a run of `i8254_init`; none when there is no such state. -/
def periodAfter (chip : IntervalTimer.Chip) (handler freq : Word) (s : I8254State) : Option ℕ :=
  match i8254Init handler freq s with
  | .error _ => none
  | .ok s' => some (timerAfter chip (s'.trace.drop s.trace.length) 0).period

/-- **The count after `i8254_init`** is the quotient, cut to 16 bits. -/
theorem periodAfter_eq (chip : IntervalTimer.Chip) (handler : Word) (hs : s.Wired)
    (hfreq : freq ≠ 0) : periodAfter chip handler freq s =
    let n := 1193182 / freq.toNat % 65536
    some (if n = 0 then 65536 else n) := by
  obtain ⟨s', hinit, htrace, -⟩ := i8254Init_eq_ok handler s hfreq
  rw [periodAfter, hinit]
  dsimp only
  rw [htrace, List.drop_left, timerAfter_i8254Events hs]
  dsimp only
  -- the two bytes make up the 16 bits of the divisor again
  rw [IntervalTimer.period_lowHigh (by decide) (by decide), BitVec.toNat_setWidth,
    BitVec.toNat_udiv]
  rfl

/-- What is asked of `i8254_init`: up to 596591 Hz the count is the quotient, or the largest count
if that is less, and it never divides by zero. -/
def RunsAtRequest (chip : IntervalTimer.Chip) (handler freq : Word) (s : I8254State) : Prop :=
  (1 ≤ freq.toNat → freq.toNat ≤ 596591 →
      periodAfter chip handler freq s = some (min 65536 (1193182 / freq.toNat))) ∧
    i8254Init handler freq s ≠ .error "Divide error"

/-- From 19 Hz on the quotient fits into 16 bits. -/
theorem periodAfter_of_le (hs : s.Wired) (hle : 19 ≤ freq.toNat) (hmax : freq.toNat ≤ 596591) :
    periodAfter chip handler freq s = some (min 65536 (1193182 / freq.toNat)) := by
  have hfreq : freq ≠ 0 := by bv_omega
  have hlt : 1193182 / freq.toNat < 65536 := by
    rw [Nat.div_lt_iff_lt_mul (by omega)]
    omega
  have hpos : 0 < 1193182 / freq.toNat := Nat.div_pos (by omega) (by omega)
  rw [periodAfter_eq chip handler hs hfreq]
  dsimp only
  rw [Nat.mod_eq_of_lt hlt, if_neg hpos.ne', min_eq_right hlt.le]

/-- **The timer runs at the requested frequency** exactly from 19 Hz on; from there on a higher
frequency never gives a slower timer. -/
theorem runs_at_request_iff (hs : s.Wired) :
    (∀ freq, RunsAtRequest chip handler freq s ↔ 19 ≤ freq.toNat) ∧
      ∀ low high : Word, 19 ≤ low.toNat → low.toNat ≤ high.toNat → high.toNat ≤ 596591 →
        ∃ p q, periodAfter chip handler low s = some p ∧ periodAfter chip handler high s = some q ∧
          q ≤ p := by
  constructor
  · intro freq
    constructor
    · rintro ⟨hperiod, hdivide⟩
      by_contra hlt
      rcases Nat.eq_zero_or_pos freq.toNat with hzero | hpos
      · obtain rfl : freq = 0 := BitVec.eq_of_toNat_eq hzero
        exact hdivide i8254Init_zero
      · -- the quotient is larger than 65536, and what is left of it in 16 bits is not zero
        have hcut : ∀ f < 19, 0 < f → (if 1193182 / f % 65536 = 0 then 65536
            else 1193182 / f % 65536) ≠ min 65536 (1193182 / f) := by decide
        have hfreq : freq ≠ 0 := by bv_omega
        have heq := hperiod hpos (by omega)
        rw [periodAfter_eq chip handler hs hfreq] at heq
        exact hcut freq.toNat (by omega) hpos (Option.some.inj heq)
    · intro hle
      refine ⟨fun _ hmax => periodAfter_of_le hs hle hmax, fun hdivide => ?_⟩
      obtain ⟨s', hinit, -⟩ := i8254Init_eq_ok handler s
        (show freq ≠ 0 by bv_omega)
      exact absurd (hinit.symm.trans hdivide) (by simp)
  · intro low high hlow hle hhigh
    refine ⟨_, _, periodAfter_of_le hs hlow (by omega), periodAfter_of_le hs (by omega) hhigh, ?_⟩
    exact min_le_min_left 65536 (Nat.div_le_div_left hle (by omega))

/-- The static variables after `i8259_init`, before `i8254_init`. -/
def I8254State.initial : I8254State where
  pics pic := ⟨cmdPortOf pic, dataPortOf pic, 0xff⟩
  trace := []
  irqHandlers := fun _ => ⟨null, null⟩
  tickCount := 0
  freq := 0

/-- A timer that has not been programmed. -/
def resetTimer : IntervalTimer.Chip := fun _ => ⟨.lowHigh, 0, false, none, 0⟩

theorem runs_at_request_iff_initial :
    (∀ freq, RunsAtRequest resetTimer 0x100900 freq .initial ↔ 19 ≤ freq.toNat) ∧
      ∀ low high : Word, 19 ≤ low.toNat → low.toNat ≤ high.toNat → high.toNat ≤ 596591 →
        ∃ p q, periodAfter resetTimer 0x100900 low .initial = some p ∧
          periodAfter resetTimer 0x100900 high .initial = some q ∧ q ≤ p :=
  runs_at_request_iff fun _ => ⟨rfl, rfl⟩

/-- **The timer runs too fast** when 18 Hz are requested, faster than for 19 Hz; and zero is a
division by zero. -/
theorem not_runsAtRequest_initial :
    ¬ RunsAtRequest resetTimer 0x100900 18 .initial ∧
      periodAfter resetTimer 0x100900 18 .initial = some 751 ∧
      periodAfter resetTimer 0x100900 19 .initial = some 62799 ∧
      i8254Init 0x100900 0 .initial = .error "Divide error" := by
  have hwired : I8254State.initial.Wired := fun _ => ⟨rfl, rfl⟩
  have hslow := periodAfter_eq resetTimer 0x100900 hwired
    (show (18 : Word) ≠ 0 by decide)
  refine ⟨?_, hslow, periodAfter_eq resetTimer 0x100900 hwired (by decide), rfl⟩
  rintro ⟨hperiod, -⟩
  have heq := hslow.symm.trans (hperiod (by decide) (by decide))
  exact absurd (Option.some.inj heq) (by decide)

end Storm
