import Storm.Arch.InService
import Storm.Kernel.Main
import Storm.Kernel.Panic

/-! # The running kernel

After `start_kernel`, the threads and the scheduler run, characters are put on the serial line, and
interrupts come in between. An interrupt goes the whole way: the processor takes a vector from the
interrupt controllers, finds its gate, pushes a frame and enters the stub of the vector, which calls
`isr_main`; this ends the interrupt at the controllers and calls the handler of the line, which for
the timer counts a tick; and the stub goes back to the interrupted code.

`kernel_runs` says that, in whatever order this happens, no interrupt and no call of the scheduler
ends in a panic, every interrupted computation goes on undisturbed, the controllers stay as the
software takes them to be, `i8254_tick_count` counts the interrupts of the timer, and the serial line
gets the characters that were put, in order. -/

namespace Storm

open ByteMemory I386 Transition

/-- The whole machine: the processor with its tables, the static variables of the drivers, the
interrupt controllers, the serial port and the system of the scheduler. -/
structure Running where
  tables : CpuTables
  drivers : I8254State
  chips : Chips
  uart : SerialPort.Chip
  system : System Heap

/-- A call of a handler runs it. `i8254_irq_handler` is the only one. -/
def runHandler (im : KernelImage) (s : I8254State) : IrqEvent → I8254State
  | .call fn _ => if fn = im.i8254IrqHandler then i8254IrqHandler s else s
  | .out .. | .setImr .. | .setFn .. | .setArg .. => s

namespace Running

/-- The registers and the memory. -/
def machine (s : Running) : Machine := s.system.kernel.machine

/-- The call of `isr_main` for an interrupt; none when the vector has no stub. -/
def callIsr (im : KernelImage) (d : Delivery) (s : Running) : Option Machine :=
  let v := d.vector s.chips
  (isrStubs.lookup v).map fun kind =>
    callIsrMain im.cpu.interruptsAsm (s.tables.idt v).gate (v, kind) 0 s.machine

/-- An interrupt is delivered and handled. When `isr_main` returns, the machine is in the state
`ret`. -/
def interrupt (im : KernelImage) (d : Delivery) (ret : Machine) (s : Running) :
    Except String Running :=
  match s.callIsr im d with
  | none => .error idtDefaultInterruptHandler
  | some call => do
      let frame := InterruptStackFrame.load call.mem (load32 call.mem (call.gpr .esp + 4))
      let irq ← isrMain frame s.drivers.toIrqState
      let events := irq.trace.drop s.drivers.trace.length
      return {
        tables := s.tables
        drivers := events.foldl (runHandler im) { s.drivers with toIrqState := irq }
        chips := chipsAfter (d.acknowledge s.chips) events
        uart := uartAfter s.uart events
        system := s.system.withMachine (returnIsrMain im.cpu.interruptsAsm ret) }

/-- The running code calls `_putchar`. -/
def put (c : Byte) (s : Running) : Running :=
  let pics := putchar c s.drivers.toPicState
  let events := pics.trace.drop s.drivers.trace.length
  { s with
    drivers := { s.drivers with toPicState := pics }
    chips := chipsAfter s.chips events
    uart := uartAfter s.uart events }

end Running

/-- What happens next. -/
inductive Happening where
  /-- An action of the running thread, or of the scheduler. -/
  | act (a : Action)
  /-- An interrupt, with the machine in this state when `isr_main` returns. -/
  | interrupt (d : Delivery) (ret : Machine)
  /-- A character of a text that is printed. -/
  | put (c : Byte)

/-- The interrupts of the timer. -/
def Happening.ticks : Happening → Bool
  | .interrupt d _ => d = .line i8254IrqNo
  | .act _ | .put _ => false

/-- The character that is put. -/
def Happening.char : Happening → Option Byte
  | .put c => some c
  | .act _ | .interrupt .. => none

/-- The steps of the running kernel. An interrupt comes when interrupts are enabled; `isr_main`
returns as the calling convention wants it and leaves the `n` bytes of the stack above the frame. -/
inductive RunningStep (im : KernelImage) (n : ℕ) : Running → Happening → Running → Prop where
  | act {s : Running} {a : Action} {system : System Heap}
      (h : System.Step im.toImage kernelHeap s.system a system) :
      RunningStep im n s (.act a) { s with system }
  | interrupt {s s' : Running} {d : Delivery} {call ret : Machine}
      (henabled : cpuInterruptsEnabled s.machine = true) (hd : d.Valid)
      (hcall : s.callIsr im d = some call) (hret : IsrMainReturns n call ret)
      (h : s.interrupt im d ret = .ok s') : RunningStep im n s (.interrupt d ret) s'
  | put {s : Running} (c : Byte) : RunningStep im n s (.put c) (s.put c)

namespace Running

/-- What holds in all states of a run in which the timer has interrupted `ticks` times and the
characters `sent` were put, after the serial port was in the state `uart`. -/
structure Up (im : KernelImage) (machine : Machine) (uart : SerialPort.Chip) (ticks : ℕ)
    (sent : List Byte) (acts : List Action) (s : Running) : Prop where
  tables : s.tables.Loaded im.cpu
  wired : s.drivers.Wired
  handlers : ∀ n < i8259NoIrqs, s.drivers.irqHandlers n =
    if n = i8254IrqNo then ⟨im.i8254IrqHandler, null⟩ else ⟨null, null⟩
  pics : PicsAgree [.enable i8254IrqNo] s.drivers.toPicState s.chips
  /-- No line is in service. -/
  idle : ∀ pic, (s.chips pic).Idle
  tickCount : s.drivers.tickCount = BitVec.ofNat 32 ticks
  /-- The port sends what it gets. -/
  ready : uart.dlab = false ∧ uart.Sends (uartDivisor.setWidth 16)
  line : s.uart = { uart with sent := uart.sent ++ sent }
  reachable : System.Reachable im.toImage machine acts s.system

variable {im : KernelImage} {machine : Machine} {uart : SerialPort.Chip} {ticks n : ℕ}
  {sent : List Byte} {acts : List Action} {s s' : Running} {d : Delivery}

/-- Handlers run when they are called. -/
theorem ignoresOthers_runHandler (im : KernelImage) :
    Device.IgnoresOthers (runHandler im) IrqEvent.isCall := by
  intro drivers e he
  cases e with
  | call fn arg => simp [IrqEvent.isCall] at he
  | out => rfl
  | setImr => rfl
  | setFn => rfl
  | setArg => rfl

/-- The interrupts of the timer are those of its line. -/
theorem eq_line_iff : d = .line i8254IrqNo ↔ d.number = i8254IrqNo := by
  cases d with
  | line k => simp [Delivery.number]
  | spuriousMaster => simp [Delivery.number, i8254IrqNo]
  | spuriousSlave => simp [Delivery.number, i8254IrqNo]

/-- **The handlers of an interrupt** count a tick when it is one of the timer. -/
theorem foldl_runHandler (d : Delivery) (drivers : I8254State)
    (hhandler : drivers.irqHandlers d.number =
      if d.number = i8254IrqNo then ⟨im.i8254IrqHandler, null⟩ else ⟨null, null⟩) :
    (eoiEvents d.number ++ (drivers.irqHandlers d.number).calls).foldl (runHandler im) drivers =
      if d = .line i8254IrqNo then i8254IrqHandler drivers else drivers := by
  have heoi : ∀ e ∈ eoiEvents d.number, e.isCall = false := by
    intro e he
    rw [eoiEvents] at he
    split_ifs at he with hline
    all_goals
      simp only [List.nil_append, List.cons_append, List.mem_cons, List.not_mem_nil, or_false] at he
      aesop
  rw [List.foldl_append, Device.foldl_of_others (ignoresOthers_runHandler im) heoi, hhandler]
  by_cases hd : d.number = i8254IrqNo
  · have hcalls : IrqHandler.calls ⟨im.i8254IrqHandler, null⟩ =
        [.call im.i8254IrqHandler null] := if_neg im.i8254IrqHandler.property
    rw [if_pos hd, if_pos (eq_line_iff.mpr hd), hcalls, List.foldl_cons, List.foldl_nil, runHandler,
      if_pos rfl]
  · rw [if_neg hd, if_neg (mt eq_line_iff.mp hd)]
    rfl

/-- The vector of a line has a stub. -/
theorem Up.lookup_vector (h : s.Up im machine uart ticks sent acts) (hd : d.Valid) :
    let v := d.vector s.chips
    isrStubs.lookup v = some .noError ∧ (v, .noError) ∈ isrStubs ∧ v ∈ idtEntries := by
  have hvector := Delivery.vector_eq h.pics.programmed hd
  have hlines : ∀ v : Byte, 32 ≤ v → v < 48 → isrStubs.lookup v = some .noError ∧
      (v, .noError) ∈ isrStubs ∧ v ∈ idtEntries := by decide
  have hnumber : d.number < 16 := hd
  rw [idtIrqBase] at hvector
  exact hlines _ (by bv_omega) (by bv_omega)

/-- `isr_main` is called with interrupts disabled. -/
theorem cpuInterruptsEnabled_callIsrMain {isrMain error : Word} (l : Linked (interruptsAsm isrMain))
    {gate : Gate} {stub : Byte × IsrKind} (hs : stub ∈ isrStubs) (hgate : gate.offset = isr l stub.1)
    (m : Machine) : cpuInterruptsEnabled (callIsrMain l gate stub error m) = false := by
  have hflags : (callIsrMain l gate stub error m).eflags = m.eflags &&& ~~~clearedFlags := by
    rw [callIsrMain, l.run_add, run_stub l hs hgate,
      l.run_of_getElem? (i := 0) (c := .pushal) rfl rfl,
      l.run_of_getElem? (i := 1) (c := .push .esp) rfl rfl,
      l.run_of_getElem? (i := 2) (c := .call isrMain) rfl rfl]
    rfl
  have hgate := cpuInterruptsEnabled_interrupt (m := m) gate none
  rw [← Bool.not_eq_true, cpuInterruptsEnabled_iff] at hgate ⊢
  rw [hflags]
  exact hgate

/-- **`isr_main` finds its frame** behind the pointer that it is called with. -/
theorem frame_callIsrMain {isrMain : Word} (l : Linked (interruptsAsm isrMain)) (error : Word)
    {gate : Gate} {stub : Byte × IsrKind} (hs : stub ∈ isrStubs) (hgate : gate.offset = isr l stub.1)
    (m : Machine) :
    let call := callIsrMain l gate stub error m
    InterruptStackFrame.load call.mem (load32 call.mem (call.gpr .esp + 4)) =
      expectedFrame (frameError stub.1 error) (stub.1.setWidth 32) m := by
  intro call
  obtain ⟨-, hesp, hmem⟩ := callIsrMain_spec l error m hs hgate
  obtain ⟨-, hframe⟩ := load32_interruptMem (frameError stub.1 error) (stub.1.setWidth 32)
    (l.addr 3) m
  rw [hesp, hmem, sub_add, show (60 : Word) - 4 = 56 from rfl, hframe, load_interruptMem]

/-- The gate of a line leads to the stub of its vector. -/
theorem Up.gate_offset (h : s.Up im machine uart ticks sent acts) (hd : d.Valid) :
    (s.tables.idt (d.vector s.chips)).gate.offset =
      isr im.cpu.interruptsAsm (d.vector s.chips) := by
  obtain ⟨-, -, hentry⟩ := h.lookup_vector hd
  rw [h.tables.gate, if_pos hentry]
  rfl

/-- **The call of `isr_main`** comes from this stub. -/
theorem Up.callIsr_eq (h : s.Up im machine uart ticks sent acts) (hd : d.Valid) :
    s.callIsr im d = some (callIsrMain im.cpu.interruptsAsm
      (s.tables.idt (d.vector s.chips)).gate (d.vector s.chips, .noError) 0 s.machine) := by
  obtain ⟨hlookup, -, -⟩ := h.lookup_vector hd
  rw [callIsr, hlookup]
  rfl

/-- **What an interrupt does**: of the drivers it changes the tick counter only, and the controllers
and the serial port are as they were before. -/
theorem Up.interrupt_eq (h : s.Up im machine uart ticks sent acts) (hd : d.Valid) (ret : Machine) :
    ∃ drivers : I8254State,
      s.interrupt im d ret = .ok { s with
        drivers, system := s.system.withMachine (returnIsrMain im.cpu.interruptsAsm ret) } ∧
      drivers.pics = s.drivers.pics ∧ drivers.irqHandlers = s.drivers.irqHandlers ∧
      drivers.tickCount = s.drivers.tickCount + if d = .line i8254IrqNo then 1 else 0 := by
  obtain ⟨-, hs, -⟩ := h.lookup_vector hd
  -- `isr_main` finds the number of the interrupt in its frame
  have hframe := frame_callIsrMain im.cpu.interruptsAsm 0 hs (h.gate_offset hd) s.machine
  have hintNo : (expectedFrame (frameError (d.vector s.chips) 0)
      ((d.vector s.chips).setWidth 32) s.machine).intNo = idtIrqBase + d.number.setWidth 32 :=
    Delivery.vector_eq h.pics.programmed hd
  have hexec := isrMain_eq (s := s.drivers.toIrqState) (fun pic => (h.wired pic).1) hd hintNo
  -- the end of interrupt takes back the acknowledge
  have hchips : chipsAfter (d.acknowledge s.chips)
      (eoiEvents d.number ++ (s.drivers.irqHandlers d.number).calls) = s.chips := by
    rw [chipsAfter_append, chipsAfter_eoiEvents_acknowledge hd h.idle, chipsAfter_calls]
  have huart : uartAfter s.uart
      (eoiEvents d.number ++ (s.drivers.irqHandlers d.number).calls) = s.uart :=
    Device.foldl_of_others ignoresOthers_uartStep (fun e he => isUartEvent_eoiEvents he) s.uart
  obtain ⟨drivers, hdrivers⟩ : ∃ drivers : I8254State, drivers = { s.drivers with
      trace := s.drivers.trace ++ eoiEvents d.number ++ (s.drivers.irqHandlers d.number).calls } :=
    ⟨_, rfl⟩
  have hhandlers : drivers.irqHandlers = s.drivers.irqHandlers := hdrivers ▸ rfl
  have hrun := foldl_runHandler d drivers (hhandlers ▸ h.handlers _ hd)
  refine ⟨if d = .line i8254IrqNo then i8254IrqHandler drivers else drivers, ?_, ?_⟩
  · rw [Running.interrupt, h.callIsr_eq hd]
    dsimp only
    rw [hframe, hexec]
    simp only [bind, Except.bind, pure, Except.pure, List.append_assoc, List.drop_left, hchips,
      huart]
    rw [← hrun, hhandlers, hdrivers, List.append_assoc]
  · rw [hdrivers]
    split
    · exact ⟨rfl, rfl, rfl⟩
    · exact ⟨rfl, rfl, (add_zero _).symm⟩

/-- **The kernel is still up** when an interrupt has changed the tick counter, and the interrupted
code goes on with the machine `m`. -/
theorem Up.handled (h : s.Up im machine uart ticks sent acts) {drivers : I8254State}
    (hpics : drivers.pics = s.drivers.pics) (hhandlers : drivers.irqHandlers = s.drivers.irqHandlers)
    (htick : drivers.tickCount = s.drivers.tickCount + if d = .line i8254IrqNo then 1 else 0)
    (m : Machine) :
    ({ s with drivers, system := s.system.withMachine m } : Running).Up im machine uart
      (if d = .line i8254IrqNo then ticks + 1 else ticks) sent (acts ++ [.compute m]) := by
  refine ⟨h.tables, ?wired, ?handlers, ?pics, h.idle, ?tickCount, h.ready, h.line, ?reachable⟩
  case wired =>
    intro pic
    rw [hpics]
    exact h.wired pic
  case handlers =>
    intro k hk
    rw [hhandlers]
    exact h.handlers k hk
  case pics => exact h.pics.congr hpics (fun pic => ⟨_, rfl⟩) fun k => Iff.rfl
  case tickCount =>
    rw [htick, h.tickCount]
    split
    · rw [BitVec.ofNat_add]
      rfl
    · exact add_zero _
  case reachable => exact Run.snoc h.reachable ⟨trivial, rfl⟩

/-- **An interrupt is handled**, and the interrupted computation goes on. -/
theorem Up.handles (h : s.Up im machine uart ticks sent acts) (hn : n + 60 ≤ 2 ^ 32) (hd : d.Valid) :
    ∃ call, s.callIsr im d = some call ∧ cpuInterruptsEnabled call = false ∧
      ∀ ret, IsrMainReturns n call ret → ∃ s', s.interrupt im d ret = .ok s' ∧
        Resumes n s.machine s'.machine ∧ s'.system = s.system.withMachine s'.machine ∧
        s'.Up im machine uart (if d = .line i8254IrqNo then ticks + 1 else ticks) sent
          (acts ++ [.compute s'.machine]) := by
  obtain ⟨-, hs, -⟩ := h.lookup_vector hd
  have hgate := h.gate_offset hd
  refine ⟨_, h.callIsr_eq hd, cpuInterruptsEnabled_callIsrMain _ hs hgate s.machine,
    fun ret hret => ?_⟩
  obtain ⟨drivers, hinterrupt, hpics, hhandlers, htick⟩ := h.interrupt_eq hd ret
  exact ⟨_, hinterrupt, returnIsrMain_spec im.cpu.interruptsAsm hn hs hgate hret, rfl,
    h.handled hpics hhandlers htick _⟩

/-- **An action of the system** keeps the rest as it is. -/
theorem Up.act (h : s.Up im machine uart ticks sent acts) {a : Action} {system : System Heap}
    (hstep : System.Step im.toImage kernelHeap s.system a system) :
    ({ s with system } : Running).Up im machine uart ticks sent (acts ++ [a]) :=
  ⟨h.tables, h.wired, h.handlers, h.pics, h.idle, h.tickCount, h.ready, h.line,
    Run.snoc h.reachable hstep⟩

/-- **A character** goes on the line, and no other device sees it. -/
theorem Up.put (h : s.Up im machine uart ticks sent acts) (c : Byte) :
    (s.put c).Up im machine uart ticks (sent ++ [c]) acts := by
  have hchips : chipsAfter s.chips [.out uartCom1Port c] = s.chips :=
    Device.foldl_of_others ignoresOthers_chipsStep (by simp [isOutTo, picPorts, uartCom1Port]) s.chips
  have hput : s.put c = { s with
      drivers := { s.drivers with trace := s.drivers.trace ++ [.out uartCom1Port c] }
      uart := { s.uart with sent := s.uart.sent ++ [c] } } := by
    have hevents : (putchar c s.drivers.toPicState).trace.drop s.drivers.trace.length =
        [.out uartCom1Port c] := List.drop_left
    have huart : uartAfter s.uart [.out uartCom1Port c] =
        { s.uart with sent := s.uart.sent ++ [c] } := by
      refine uartAfter_putEvents ?_ [c]
      rw [h.line]
      exact h.ready.1
    rw [Running.put]
    dsimp only
    rw [hevents, hchips, huart]
    rfl
  rw [hput]
  refine ⟨h.tables, h.wired, h.handlers, ?_, h.idle, h.tickCount, h.ready, ?_, h.reachable⟩
  · exact h.pics.congr rfl (fun pic => ⟨_, rfl⟩) fun k => Iff.rfl
  · dsimp only
    rw [h.line, List.append_assoc]

/-- **A step.** -/
theorem Up.step (h : s.Up im machine uart ticks sent acts) (hn : n + 60 ≤ 2 ^ 32) {e : Happening}
    (hstep : RunningStep im n s e s') :
    ∃ acts', s'.Up im machine uart (if e.ticks then ticks + 1 else ticks) (sent ++ e.char.toList)
      acts' := by
  cases hstep with
  | act hact =>
      rw [Happening.char, Option.toList_none, List.append_nil]
      exact ⟨_, h.act hact⟩
  | interrupt henabled hd hcall hret hinterrupt =>
      obtain ⟨call', hcall', -, hreturns⟩ := h.handles hn hd
      obtain rfl := Option.some.inj (hcall'.symm.trans hcall)
      obtain ⟨s'', hinterrupt', -, -, hup⟩ := hreturns _ hret
      obtain rfl : s'' = s' := Except.ok.inj (hinterrupt'.symm.trans hinterrupt)
      simp only [Happening.ticks, decide_eq_true_eq]
      rw [Happening.char, Option.toList_none, List.append_nil]
      exact ⟨_, hup⟩
  | put c => exact ⟨_, h.put c⟩

/-- **A run.** -/
theorem Up.run (h : s.Up im machine uart ticks sent acts) (hn : n + 60 ≤ 2 ^ 32)
    {es : List Happening} (hrun : Run (RunningStep im n) s es s') :
    ∃ acts', s'.Up im machine uart (ticks + es.countP Happening.ticks)
      (sent ++ es.filterMap Happening.char) acts' := by
  induction hrun generalizing ticks sent acts with
  | nil s =>
      rw [List.filterMap_nil, List.append_nil]
      exact ⟨acts, h⟩
  | @cons s₀ s₁ s' e es hstep hrun ih =>
      obtain ⟨acts₁, h'⟩ := h.step hn hstep
      obtain ⟨acts', hup⟩ := ih h'
      refine ⟨acts', ?_⟩
      have hcount : (if e.ticks = true then ticks + 1 else ticks) + es.countP Happening.ticks =
          ticks + (e :: es).countP Happening.ticks := by
        rw [List.countP_cons]
        split <;> omega
      have hchars : sent ++ e.char.toList ++ es.filterMap Happening.char =
          sent ++ (e :: es).filterMap Happening.char := by
        rw [List.append_assoc]
        cases h : e.char with
        | none => rw [List.filterMap_cons_none h]; rfl
        | some c => rw [List.filterMap_cons_some h]; rfl
      rwa [hcount, hchars] at hup

/-- What is to be said about a state in which the timer has interrupted `ticks` times, and the serial
port has got the bytes `sent`. -/
structure Sound (im : KernelImage) (n ticks : ℕ) (sent : List Byte) (s : Running) : Prop where
  tickCount : s.drivers.tickCount = BitVec.ofNat 32 ticks
  pics : PicsAgree [.enable i8254IrqNo] s.drivers.toPicState s.chips
  idle : ∀ pic, (s.chips pic).Idle
  sent_eq : s.uart.sent = sent
  sends : s.uart.Sends (uartDivisor.setWidth 16)
  /-- What a thread may call does not panic. -/
  acts : ∀ a, s.system.Enabled a → ∃ system, s.system.exec im.toImage kernelHeap a = .ok system
  /-- An interrupt does not panic either. `isr_main` runs with interrupts disabled, and when it returns
  the interrupted code goes on, in the same thread. -/
  interrupts : ∀ d : Delivery, d.Valid → ∃ call, s.callIsr im d = some call ∧
    cpuInterruptsEnabled call = false ∧ ∀ ret, IsrMainReturns n call ret →
      ∃ s', s.interrupt im d ret = .ok s' ∧ Resumes n s.machine s'.machine ∧
        s'.system = s.system.withMachine s'.machine

theorem Up.sound (hp : im.Placed) (h : s.Up im machine uart ticks sent acts)
    (hn : n + 60 ≤ 2 ^ 32) : s.Sound im n ticks (uart.sent ++ sent) := by
  have hline := h.line
  refine ⟨h.tickCount, h.pics, h.idle, by rw [hline], ?sends,
    fun a ha => h.reachable.exec_ok hp ha, fun d hd => ?interrupts⟩
  case sends =>
    rw [hline]
    exact h.ready.2.congr rfl rfl rfl
  case interrupts =>
    obtain ⟨call, hcall, hdisabled, hreturns⟩ := h.handles hn hd
    refine ⟨call, hcall, hdisabled, fun ret hret => ?_⟩
    obtain ⟨s', hinterrupt, hresumes, hsystem, -⟩ := hreturns ret hret
    exact ⟨s', hinterrupt, hresumes, hsystem⟩

end Running

/-- The machine when the first thread has entered `thread_main`. -/
def KernelState.running (im : KernelImage) (machine : Machine) (chips : Chips)
    (uart : SerialPort.Chip) (s : KernelState) : Running where
  tables := s.tables
  drivers := s.drivers
  chips := chips
  uart := uart
  system := System.arrive im.toImage
    { enabledKernel im.toImage machine with kernel := s.kernel, started := true }

/-- After `start_kernel` the kernel is up. -/
theorem up_startKernel {im : KernelImage} {machine : Machine} {s : KernelState} {chips : Chips}
    (hp : im.Placed) (happart : StandsApart im.toImage machine)
    (hs : s.kernel = .initial Heap.initial machine) (htick : s.drivers.tickCount = 0)
    (hidle : ∀ pic, (chips pic).Idle) (uart : SerialPort.Chip) :
    ∃ s₀ events, startKernel im s = .ok s₀ ∧ s₀.drivers.trace = s.drivers.trace ++ events ∧
      (uartAfter uart events).sent = uart.sent ∧
      ∃ acts, (s₀.running im machine (chipsAfter chips events) (uartAfter uart events)).Up im machine
        (uartAfter uart events) 0 [] acts := by
  obtain ⟨s₀, events, hstart, htrace, -, htick₀, hisr, hstarted⟩ :=
    startKernel_started hp happart hs chips resetTimer uart
  have huart := hstarted.devices.uart
  refine ⟨s₀, events, hstart, htrace, by rw [huart], _, hstarted.tables, hstarted.devices.wired,
    hstarted.devices.handlers, hstarted.devices.pics, fun pic => ?_, htick₀.trans htick, ?_, ?_,
    hstarted.reachable⟩
  · rw [InterruptController.Chip.Idle]
    exact (hisr pic).trans (hidle pic)
  · rw [huart]
    exact sends_uartInit uart.ier uart.sent
  · rw [List.append_nil]
    rfl

/-- **The kernel runs**: after `start_kernel`, threads, the scheduler, output and interrupts in any
order lead to sound states only. -/
theorem kernel_runs {im : KernelImage} {machine : Machine} {s : KernelState} {chips : Chips} {n : ℕ}
    (hp : im.Placed) (happart : StandsApart im.toImage machine)
    (hs : s.kernel = .initial Heap.initial machine) (htick : s.drivers.tickCount = 0)
    (hidle : ∀ pic, (chips pic).Idle) (hn : n + 60 ≤ 2 ^ 32) (uart : SerialPort.Chip) :
    ∃ s₀ events, startKernel im s = .ok s₀ ∧ s₀.drivers.trace = s.drivers.trace ++ events ∧
      ∀ es r, Run (RunningStep im n)
          (s₀.running im machine (chipsAfter chips events) (uartAfter uart events)) es r →
        r.Sound im n (es.countP Happening.ticks) (uart.sent ++ es.filterMap Happening.char) := by
  obtain ⟨s₀, events, hstart, htrace, hsent, acts₀, hup⟩ :=
    up_startKernel hp happart hs htick hidle uart
  refine ⟨s₀, events, hstart, htrace, fun es r hrun => ?_⟩
  obtain ⟨acts, hr⟩ := hup.run hn hrun
  have hsound := hr.sound hp hn
  rwa [Nat.zero_add, List.nil_append, hsent] at hsound

theorem kernel_runs_linkedKernel :
    ∃ s₀ events, startKernel linkedKernel loadedKernel = .ok s₀ ∧ s₀.drivers.trace = [] ++ events ∧
      ∀ es r, Run (RunningStep linkedKernel 4096)
          (s₀.running linkedKernel System.bootMachine (chipsAfter IrqSystem.resetChips events)
            (uartAfter ⟨0x80, 0, 0, 0, []⟩ events)) es r →
        r.Sound linkedKernel 4096 (es.countP Happening.ticks)
          ([] ++ es.filterMap Happening.char) :=
  kernel_runs System.linkedImage_placed standsApart_bootMachine rfl rfl
    (fun pic => show (IrqSystem.resetChips pic).isr = 0 from rfl) (by decide) ⟨0x80, 0, 0, 0, []⟩

end Storm
