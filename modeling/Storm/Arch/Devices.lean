import Storm.Arch.I8254
import Storm.Arch.Uart

/-! # The devices together

The two interrupt controllers, the timer and the serial port hang on one bus, and the kernel has one
history of what it writes there. Each device has its own ports and ignores those of the others, so
that the initializations of `i8259.c`, `i8254.c` and `uart.c`, one after the other as in
`start_kernel`, do not get in each other's way: `startDevices_eq_ok`. -/

namespace Storm

open ByteMemory

/-- The outputs among the events are to these ports. -/
def OnPorts (ports : List Port) (events : List IrqEvent) : Prop :=
  ∀ port byte, .out port byte ∈ events → port ∈ ports

/-- The ports of the interrupt controllers. -/
def picPorts : List Port := [0x20, 0x21, 0xA0, 0xA1]

/-- The ports of the timer. -/
def timerPorts : List Port := [0x40, 0x41, 0x42, 0x43]

/-- The ports of the first serial port. -/
def uartPorts : List Port := [0x3F8, 0x3F9, 0x3FA, 0x3FB, 0x3FC, 0x3FD, 0x3FE, 0x3FF]

/-- The devices have different ports. -/
theorem disjoint_ports : picPorts.Disjoint timerPorts ∧ picPorts.Disjoint uartPorts ∧
    timerPorts.Disjoint uartPorts := by
  simp [picPorts, timerPorts, uartPorts]

/-- An output to one of these ports. -/
def isOutTo (ports : List Port) : IrqEvent → Bool
  | .out port _ => port ∈ ports
  | .setImr .. | .setFn .. | .setArg .. | .call .. => false

variable {ports : List Port} {events events' : List IrqEvent} {chips : Chips}

theorem OnPorts.append (h : OnPorts ports events) (h' : OnPorts ports events') :
    OnPorts ports (events ++ events') := by
  intro port byte hmem
  exact (List.mem_append.mp hmem).elim (h port byte) (h' port byte)

theorem OnPorts.mono {ports' : List Port} (h : OnPorts ports events) (hle : ports ⊆ ports') :
    OnPorts ports' events := fun port byte hmem => hle (h port byte hmem)

/-- The controllers ignore other ports. -/
theorem ignoresOthers_chipsStep : Device.IgnoresOthers chipsStep (isOutTo picPorts) := by
  intro chips e he
  cases e with
  | out port byte =>
      have hport : port ≠ 0x20 ∧ port ≠ 0x21 ∧ port ≠ 0xA0 ∧ port ≠ 0xA1 := by
        simpa [isOutTo, picPorts] using he
      obtain ⟨h₁, h₂, h₃, h₄⟩ := hport
      rw [chipsStep, if_neg h₁, if_neg h₂, if_neg h₃, if_neg h₄]
  | setImr => rfl
  | setFn => rfl
  | setArg => rfl
  | call => rfl

/-- So does the timer. -/
theorem ignoresOthers_timerStep : Device.IgnoresOthers timerStep (isOutTo timerPorts) := by
  intro chip e he
  cases e with
  | out port byte =>
      have hport : port ≠ 0x40 ∧ port ≠ 0x41 ∧ port ≠ 0x42 ∧ port ≠ 0x43 := by
        simpa [isOutTo, timerPorts] using he
      obtain ⟨h₁, h₂, h₃, h₄⟩ := hport
      rw [timerStep, if_neg h₄, if_neg h₁, if_neg h₂, if_neg h₃]
  | setImr => rfl
  | setFn => rfl
  | setArg => rfl
  | call => rfl

/-- So does the serial port. -/
theorem ignoresOthers_uartPorts : Device.IgnoresOthers uartStep (isOutTo uartPorts) := by
  intro chip e he
  cases e with
  | out port byte =>
      refine ignoresOthers_uartStep chip (.out port byte) ?_
      have hport : port ∉ uartPorts := of_decide_eq_false he
      rw [isUartEvent, ← Bool.not_eq_true, Bool.and_eq_true, decide_eq_true_iff,
        decide_eq_true_iff]
      rintro ⟨hlo, hhi⟩
      simp only [uartPorts, List.mem_cons, List.not_mem_nil, or_false, not_or] at hport
      rw [uartCom1Port] at hlo hhi
      bv_omega
  | setImr => rfl
  | setFn => rfl
  | setArg => rfl
  | call => rfl

/-- **A device does not see what is written elsewhere.** -/
theorem OnPorts.foldl_eq {σ : Type} {step : σ → IrqEvent → σ} {mine : List Port}
    (h : OnPorts ports events) (hstep : Device.IgnoresOthers step (isOutTo mine))
    (hports : ports.Disjoint mine) (chip : σ) : events.foldl step chip = chip := by
  refine Device.foldl_of_others hstep (fun e he => ?_) chip
  cases e with
  | out port byte => exact decide_eq_false (hports (h port byte he))
  | setImr => rfl
  | setFn => rfl
  | setArg => rfl
  | call => rfl

/-! ## What the initializations write -/

/-- The timer after more history. -/
theorem timerAfter_append (timer : IntervalTimer.Chip) :
    timerAfter timer (events ++ events') = timerAfter (timerAfter timer events) events' :=
  List.foldl_append

/-- The outputs of a list of events. -/
theorem onPorts_iff : OnPorts ports events ↔
    ∀ e ∈ events, ∀ port byte, e = .out port byte → port ∈ ports := by
  constructor
  · rintro h e he port byte rfl
    exact h port byte he
  · intro h port byte hmem
    exact h _ hmem port byte rfl

/-- `i8259_init` writes to the controllers. -/
theorem onPorts_i8259Init {s s' : PicState} (h : i8259Init s = .ok s')
    (hevents : s'.trace = s.trace ++ events) : OnPorts picPorts events := by
  obtain ⟨s₁, hinit, hs₁, htrace₁, -⟩ := i8259Init_eq s
  rw [hinit, i8259EnableIrq_eq_updateMask (by decide)] at h
  obtain rfl := Except.ok.inj h
  rw [updateMask_trace hs₁, htrace₁, List.append_assoc, List.append_cancel_left_eq] at hevents
  subst hevents
  refine OnPorts.append ?_ ?_
  · rw [onPorts_iff]
    simp [initEvents, picPorts]
  · rw [onPorts_iff]
    simp [picPorts, dataPortOf, picOf, i8259SlaveIrq, i8259MasterPicDataPort]

/-- `i8254_init` writes to the timer and to the controllers. -/
theorem onPorts_i8254Events {s : I8254State} (hs : s.Wired) (handler freq : Word) :
    OnPorts (timerPorts ++ picPorts) (i8254Events handler freq s) := by
  have hport : (s.pics (picOf i8254IrqNo)).dataPort = 0x21 := (hs .master).2
  rw [onPorts_iff]
  simp [i8254Events, enableEvents, hport, timerPorts, picPorts, i8254CommandPort,
    i8254Channel0DataPort]

/-- `uart_init` writes to the serial port. -/
theorem onPorts_uartInitEvents : OnPorts uartPorts uartInitEvents := by
  rw [onPorts_iff]
  simp [uartInitEvents, uartPorts]

variable {s : I8254State} {handler freq : Word} {calls : List PicCall}

/-- Of what `i8254_init` outputs, the controllers see the last byte. -/
theorem chipsAfter_i8254Events : chipsAfter chips (i8254Events handler freq s) =
    chipsAfter chips (enableEvents s.toPicState i8254IrqNo) := by
  rw [i8254Events, chipsAfter_append]
  rfl

/-- **`i8254_init`**, with another frequency than zero, registers its handler and enables its line. -/
theorem PicsAgree.i8254Init (h : PicsAgree calls s.toPicState chips) (hs : s.Wired)
    (hfreq : freq ≠ 0) (handler : Word) :
    ∃ s', i8254Init handler freq s = .ok s' ∧ s'.trace = s.trace ++ i8254Events handler freq s ∧
      s'.freq = freq ∧ s'.tickCount = s.tickCount ∧ s'.Wired ∧
      s'.irqHandlers = Function.update s.irqHandlers i8254IrqNo ⟨handler, null⟩ ∧
      PicsAgree (calls ++ [.enable i8254IrqNo]) s'.toPicState
        (chipsAfter chips (i8254Events handler freq s)) := by
  have hirq : i8254IrqNo < i8259NoIrqs := by decide
  have hdivide : divide i8254OscilFreq freq = .ok (i8254OscilFreq / freq) := if_neg hfreq
  obtain ⟨pics, events, henable, htrace, hwired, hagree⟩ := h.enable hs hirq
  rw [i8259EnableIrq_eq hirq] at henable
  obtain rfl := Except.ok.inj henable
  obtain rfl : enableEvents s.toPicState i8254IrqNo = events := List.append_cancel_left htrace
  rw [Storm.i8254Init]
  simp only [I8254State.write, ioWriteByte, hdivide, bind, Except.bind, cpuRegisterIrq,
    interruptsRegisterIrq_eq hirq, pure, Except.pure]
  refine ⟨_, rfl, ?_, rfl, rfl, hwired, rfl, ?_⟩
  · simp [i8254Events, enableEvents]
  · rw [chipsAfter_i8254Events]
    exact hagree.congr rfl (fun pic => ⟨_, rfl⟩) fun n => Iff.rfl

/-- **Each device sees its own part** of the three initializations. -/
theorem seen_initializations (hs : s.Wired) (h : OnPorts picPorts events) (handler freq : Word)
    (chips : Chips) (timer : IntervalTimer.Chip) (uart : SerialPort.Chip) :
    let timerEvents := i8254Events handler freq s
    let all := events ++ timerEvents ++ uartInitEvents
    OnPorts (picPorts ++ timerPorts ++ uartPorts) all ∧
      chipsAfter chips all = chipsAfter (chipsAfter chips events) timerEvents ∧
      timerAfter timer all = timerAfter timer timerEvents ∧
      uartAfter uart all = uartAfter uart uartInitEvents := by
  intro timerEvents all
  obtain ⟨hpicTimer, hpicUart, htimerUart⟩ := disjoint_ports
  have htimer : OnPorts (timerPorts ++ picPorts) timerEvents := onPorts_i8254Events hs handler freq
  have huart := onPorts_uartInitEvents
  refine ⟨?ports, ?chips, ?timer, ?uart⟩
  case ports =>
    have hboth : timerPorts ++ picPorts ⊆ picPorts ++ timerPorts :=
      List.append_subset.mpr ⟨List.subset_append_right _ _, List.subset_append_left _ _⟩
    refine OnPorts.append ?_ (huart.mono (List.subset_append_right _ _))
    refine OnPorts.mono ?_ (List.subset_append_left _ _)
    exact (h.mono (List.subset_append_left _ _)).append (htimer.mono hboth)
  case chips =>
    rw [chipsAfter_append, chipsAfter_append]
    exact huart.foldl_eq ignoresOthers_chipsStep hpicUart.symm _
  case timer =>
    have hevents : timerAfter timer events = timer :=
      h.foldl_eq ignoresOthers_timerStep hpicTimer timer
    rw [timerAfter_append, timerAfter_append, hevents]
    exact huart.foldl_eq ignoresOthers_timerStep htimerUart.symm _
  case uart =>
    have hevents : uartAfter uart events = uart := h.foldl_eq ignoresOthers_uartPorts hpicUart uart
    have htimerEvents : uartAfter uart timerEvents = uart :=
      htimer.foldl_eq ignoresOthers_uartPorts
        (List.disjoint_append_left.mpr ⟨htimerUart, hpicUart⟩) uart
    rw [uartAfter_append, uartAfter_append, hevents, htimerEvents]

/-- Counter 0 after `i8254_init`. -/
theorem timerAfter_i8254Init (hs : s.Wired) (hfreq : freq ≠ 0) (handler : Word)
    (timer : IntervalTimer.Chip) : (timerAfter timer (i8254Events handler freq s) 0).mode = 2 ∧
      (timerAfter timer (i8254Events handler freq s) 0).period =
        let n := 1193182 / freq.toNat % 65536
        if n = 0 then 65536 else n := by
  constructor
  · rw [timerAfter_i8254Events hs]
    rfl
  · obtain ⟨s', hinit, htrace, -⟩ := i8254Init_eq_ok handler s hfreq
    have hperiod := periodAfter_eq timer handler hs hfreq
    rw [periodAfter, hinit] at hperiod
    dsimp only at hperiod
    rw [htrace, List.drop_left] at hperiod
    exact Option.some.inj hperiod

/-- The mask that enables the line of the timer does not change which lines are in service. -/
theorem isr_i8254Events (h : Programmed chips) (hs : s.Wired) (handler freq : Word) (pic : Pic) :
    (chipsAfter chips (i8254Events handler freq s) pic).isr = (chips pic).isr := by
  have hport : (s.pics (picOf i8254IrqNo)).dataPort = dataPortOf (picOf i8254IrqNo) :=
    (hs (picOf i8254IrqNo)).2
  rw [chipsAfter_i8254Events, enableEvents, hport, chipsAfter_updateMask (h.ready _)]
  by_cases hpic : pic = picOf i8254IrqNo
  · subst hpic
    rw [Function.update_self]
  · rw [Function.update_of_ne hpic]

/-- The calls of `start_kernel` between `cpu_init` and `heap_init`; `handler` is the address of
`i8254_irq_handler`. -/
def startDevices (handler freq : Word) (s : I8254State) : Except String I8254State := do
  let pics ← i8259Init s.toPicState
  let s := { s with toPicState := pics }
  let s ← i8254Init handler freq s
  return { s with toPicState := uartInit s.toPicState }

/-- The devices are ready, and the code knows it. The serial port was in the state `uart₀` before. -/
structure DevicesReady (handler freq : Word) (uart₀ : SerialPort.Chip) (s : I8254State)
    (chips : Chips) (timer : IntervalTimer.Chip) (uart : SerialPort.Chip) : Prop where
  wired : s.Wired
  /-- Of the lines, that of the slave and that of the timer are enabled. -/
  pics : PicsAgree [.enable i8254IrqNo] s.toPicState chips
  /-- The timer has the only handler. -/
  handlers : ∀ n < i8259NoIrqs, s.irqHandlers n =
    if n = i8254IrqNo then ⟨handler, null⟩ else ⟨null, null⟩
  freq_eq : s.freq = freq
  /-- Counter 0 is a rate generator with a period that is cut to 16 bits. -/
  mode : (timer 0).mode = 2
  period : (timer 0).period =
    let n := 1193182 / freq.toNat % 65536
    if n = 0 then 65536 else n
  /-- The serial port sends eight data bits, one stop bit and no parity bit at the full clock
  frequency, and has sent nothing. -/
  uart : uart = { lcr := 3, ier := uart₀.ier, divisorLow := 1, divisorHigh := 0, sent := uart₀.sent }

/-- **The devices are initialized** one after the other, whatever state they are in. Interrupts that
are in service stay in service. -/
theorem startDevices_eq_ok (hhandlers : ∀ n < i8259NoIrqs, s.irqHandlers n = ⟨null, null⟩)
    (hfreq : freq ≠ 0) (handler : Word) (chips : Chips) (timer : IntervalTimer.Chip)
    (uart : SerialPort.Chip) :
    ∃ s' events, startDevices handler freq s = .ok s' ∧ s'.trace = s.trace ++ events ∧
      OnPorts (picPorts ++ timerPorts ++ uartPorts) events ∧ s'.tickCount = s.tickCount ∧
      (∀ pic, (chipsAfter chips events pic).isr = (chips pic).isr) ∧
      DevicesReady handler freq uart s' (chipsAfter chips events) (timerAfter timer events)
        (uartAfter uart events) := by
  obtain ⟨pics, events, hpics, htrace, hwired, hagree⟩ := i8259Init_picsAgree s.toPicState chips
  obtain ⟨s₀, hs₀⟩ : ∃ s₀ : I8254State, s₀ = { s with toPicState := pics } := ⟨_, rfl⟩
  have hwired₀ : s₀.Wired := hs₀ ▸ hwired
  have htrace₀ : s₀.trace = s.trace ++ events := hs₀ ▸ htrace
  have hhandlers₀ : s₀.irqHandlers = s.irqHandlers := hs₀ ▸ rfl
  have htick₀ : s₀.tickCount = s.tickCount := hs₀ ▸ rfl
  have hagree₀ : PicsAgree [] s₀.toPicState (chipsAfter chips events) := hs₀ ▸ hagree
  obtain ⟨s₁, hinit, htrace₁, hfreq₁, htick₁, hwired₁, hhandlers₁, hagree₁⟩ :=
    hagree₀.i8254Init hwired₀ hfreq handler
  have hstart : startDevices handler freq s =
      .ok { s₁ with toPicState := uartInit s₁.toPicState } := by
    simp only [startDevices, hpics, ← hs₀, hinit, bind, Except.bind, pure, Except.pure]
  obtain ⟨hports, hchips, htimer, huart⟩ := seen_initializations hwired₀
    (onPorts_i8259Init hpics htrace) handler freq chips timer uart
  obtain ⟨hmode, hperiod⟩ := timerAfter_i8254Init hwired₀ hfreq handler timer
  refine ⟨_, _, hstart, ?trace, hports, htick₁.trans htick₀, fun pic => ?isr, ?ready⟩
  case trace =>
    rw [uartInit_eq]
    dsimp only
    rw [htrace₁, htrace₀, List.append_assoc, List.append_assoc, List.append_assoc]
  case isr =>
    rw [hchips, isr_i8254Events hagree₀.programmed hwired₀]
    exact isr_i8259Init hpics htrace
  rw [hchips, htimer, huart]
  refine ⟨?wired, ?pics, ?handlers, hfreq₁, hmode, hperiod, uartAfter_uartInitEvents uart⟩
  case wired =>
    rw [uartInit_eq]
    exact hwired₁
  case pics =>
    rw [uartInit_eq]
    exact hagree₁.congr rfl (fun pic => ⟨_, rfl⟩) fun n => Iff.rfl
  case handlers =>
    intro n hn
    dsimp only
    rw [hhandlers₁, hhandlers₀, Function.update_apply, hhandlers n hn]

end Storm
