import Storm.Arch.Cpu
import Storm.Arch.Devices
import Storm.Kernel.Lifecycle

/-! # `main.c`: `start_kernel`

`start_kernel` calls the initializations of all parts, enables interrupts and starts the scheduler.
`start_kernel` says what it leaves, whatever was in the devices and in the tables before: a
processor that finds its segments and the stubs of the interrupts, devices that are set up, and the
idle thread about to enter its function, with interrupts enabled. -/

namespace Storm

open ByteMemory I386 Transition

/-- The addresses that linking gives to the objects and functions of the whole kernel. -/
structure KernelImage extends Image where
  /-- Those of `cpu.c`, `gdt.c`, `idt.c` and `interrupts_asm.S`. -/
  cpu : CpuImage
  /-- `i8254_irq_handler`. No function has the address `NULL`. -/
  i8254IrqHandler : { fn : Word // fn ≠ null }

/-- `STORM_TIMER_FREQ`. -/
def stormTimerFreq : Word := 100

/-- The processor, and the static variables of the kernel. -/
structure KernelState where
  tables : CpuTables
  /-- The static variables of the drivers, and the history of what they do. -/
  drivers : I8254State
  /-- Those of `heap.c` and `thread.c`, and the machine. -/
  kernel : Kernel Heap

/-- `start_kernel`, up to the first instruction of `thread_main`. -/
def startKernel (im : KernelImage) (s : KernelState) : Except String KernelState := do
  let (tables, irq) := cpuInit im.cpu s.tables s.drivers.toIrqState
  let drivers := { s.drivers with toIrqState := irq }
  let drivers ← startDevices im.i8254IrqHandler stormTimerFreq drivers
  let kernel := { s.kernel with heap := heapInit im.heap s.kernel.heap }
  let (error, kernel) := threadInit im.toImage kernelHeap kernel
  assert (error = 0) "!thread_init()"
  let kernel := { kernel with machine := cpuEnableInterrupts kernel.machine }
  let kernel ← threadStartScheduler im.toImage kernel
  return { tables, drivers, kernel }

/-! ## The scheduler -/

section Threads

variable {im : Image} {machine : Machine}

/-- `thread_init` gets its memory. -/
theorem threadInit_heapInit (hp : im.Placed) (machine : Machine) :
    threadInit im kernelHeap (Kernel.initial (heapInit im.heap Heap.initial) machine) =
      (0, (System.bootKernel im machine).kernel) := by
  obtain ⟨heap, halloc, -⟩ := HeapAfter.init hp
  refine Prod.ext ?_ rfl
  simp [threadInit, idleThreadCreate, Kernel.initial, halloc]

/-- `thread_load_first_asm` does not change the flags. -/
theorem eflags_threadLoadFirst {H : Type} (t : Word) (k : Kernel H) :
    (threadLoadFirst im t k).machine.eflags = k.machine.eflags := by
  have hcode : ∀ i ∈ threadAsm, i.keepsFlags = true := by decide
  rw [threadLoadFirst_eq]
  exact im.threadAsm.eflags_run hcode 7 _

/-- `thread_start_scheduler` does not either. -/
theorem eflags_threadStartScheduler {H : Type} {k k' : Kernel H} (hq : threadRunQueueEmpty k = true)
    (h : threadStartScheduler im k = .ok k') : k'.machine.eflags = k.machine.eflags := by
  obtain ⟨first, k₁, hnext, rfl⟩ := threadStartScheduler_eq_ok.mp h
  rw [threadGetNext, if_pos hq] at hnext
  cases hnext
  rw [eflags_threadLoadFirst]
  rfl

/-- The code that starts the scheduler stands on a stack of its own, apart from the heap. -/
def StandsApart (im : Image) (machine : Machine) : Prop :=
  ∀ b ∈ Range im.heap.toNat (im.heap.toNat + heapSize.toNat), b ∉ Below (machine.gpr .esp) 28

/-- The machine is in another state. -/
def System.withMachine {H : Type} (m : Machine) (s : System H) : System H :=
  { s with kernel := { s.kernel with machine := m } }

@[simp] theorem System.machine_withMachine {H : Type} (m : Machine) (s : System H) :
    (s.withMachine m).kernel.machine = m := rfl

@[simp] theorem System.threads_withMachine {H : Type} (m : Machine) (s : System H) :
    (s.withMachine m).threads = s.threads := rfl

/-- It has computed. -/
theorem System.exec_compute {H : Type} (al : Allocator H) (m : Machine) (s : System H) :
    s.exec im al (.compute m) = .ok (s.withMachine m) := rfl

/-- The kernel when interrupts have been enabled. -/
def enabledKernel (im : Image) (machine : Machine) : System Heap :=
  let s := System.bootKernel im machine
  s.withMachine (cpuEnableInterrupts s.kernel.machine)

/-- The first dispatch has room on the stack. -/
theorem hasRoom_enabledKernel (hp : im.Placed) (happart : StandsApart im machine) :
    (enabledKernel im machine).HasRoom := by
  intro c hc _ b hb
  have hgpr : (System.bootKernel im machine).kernel.machine.gpr = machine.gpr :=
    System.gpr_threadInit kernelHeap (Kernel.initial (heapInit im.heap Heap.initial) machine)
  rw [enabledKernel, System.machine_withMachine, cpuEnableInterrupts, hgpr]
  rw [enabledKernel, System.threads_withMachine] at hc
  refine happart b ?_
  obtain ⟨i, hi, hext⟩ := (System.OnKernelHeap.boot hp machine).exists_position hc
  obtain rfl : i = 0 := Nat.lt_one_iff.mp hi
  have hin := (System.threadExtents_at hp (Nat.zero_le 1010)).2
    ⟨c.stack.toNat, threadDefaultStackSize.toNat⟩
    (by rw [← hext]; simp [Creation.extents, threadExtents])
  obtain ⟨hlo, hhi, -⟩ := hp.heapStart_bounds
  have hsize := toNat_heapSize
  simp only [Extent.Within, Extent.hi] at hin
  simp only [Creation.stackRange, mem_range] at hb ⊢
  omega

/-- **The scheduler starts** with the idle thread, which is about to enter its function with the
interrupts that were enabled before. -/
theorem threadStartScheduler_enabledKernel (hp : im.Placed) (happart : StandsApart im machine) :
    ∃ k, threadStartScheduler im (enabledKernel im machine).kernel = .ok k ∧
      k.currentThread = (enabledKernel im machine).idle.thread ∧ k.machine.eip = im.threadMain ∧
      load32 k.machine.mem (k.machine.gpr .esp + 4) = im.idleThreadFn ∧
      load32 k.machine.mem (k.machine.gpr .esp + 8) = null ∧
      cpuInterruptsEnabled k.machine = true ∧
      System.Reachable im machine
        [.compute (cpuEnableInterrupts (System.bootKernel im machine).kernel.machine), .start]
        (System.arrive im { enabledKernel im machine with kernel := k, started := true }) := by
  obtain ⟨heap, hfresh⟩ := System.freshBoot_kernelHeap hp
  have hboot : (System.bootKernel im machine).InOrder im ⟨threadAt im 0, [], none, []⟩ :=
    System.InOrder.boot hfresh
  obtain ⟨s₁, hstep₁, hrun₁⟩ := (System.Reachable.nil im machine).snoc hp
    (.compute (cpuEnableInterrupts (System.bootKernel im machine).kernel.machine)) trivial
  obtain rfl : enabledKernel im machine = s₁ :=
    Except.ok.inj ((System.exec_compute kernelHeap _ _).symm.trans hstep₁.2)
  have hin : (enabledKernel im machine).InOrder im ⟨threadAt im 0, [], none, []⟩ := by
    refine hboot.compute ?_ (System.exec_compute kernelHeap _ _)
    intro c _ _ b _
    rfl
  obtain ⟨s₂, hstep₂, hrun₂⟩ := hrun₁.snoc hp .start rfl
  obtain ⟨k, hk, rfl⟩ := System.exec_start.mp hstep₂.2
  have hidle := hin.represents.idle_eq
  have hempty : threadRunQueueEmpty (enabledKernel im machine).kernel = true :=
    hin.represents.kernel.queue.threadRunQueueEmpty_iff.mpr rfl
  have he := hin.entering_start (c := (enabledKernel im machine).idle) rfl rfl
    (hasRoom_enabledKernel hp happart) hidle.symm hk
  have hframe := he.frame hin List.mem_cons_self (by rw [hin.dispatched]; simp)
  obtain ⟨hmain, hfn, harg⟩ := hframe.restore
  obtain ⟨hidleFn, hidleArg⟩ : (enabledKernel im machine).idle.fn = im.idleThreadFn ∧
      (enabledKernel im machine).idle.arg = null := by
    unfold enabledKernel System.bootKernel System.boot
    dsimp only
    split <;> exact ⟨rfl, rfl⟩
  refine ⟨k, hk, he.current, he.eip.trans hmain, ?_, ?_, ?_, hrun₂⟩
  · rw [← hidleFn, ← hfn]
    exact congrArg (fun sp => load32 k.machine.mem (sp + 4)) he.esp
  · rw [← hidleArg, ← harg]
    exact congrArg (fun sp => load32 k.machine.mem (sp + 8)) he.esp
  · rw [cpuInterruptsEnabled_iff, eflags_threadStartScheduler hempty hk,
      ← cpuInterruptsEnabled_iff]
    exact cpuInterruptsEnabled_enable

end Threads

/-! ## The whole -/

/-- `cpu_init` outputs nothing and clears the table of handlers. -/
theorem cpuInit_spec (im : CpuImage) (t : CpuTables) (irq : IrqState) :
    ∃ tables irq' events, cpuInit im t irq = (tables, irq') ∧ tables.Loaded im ∧
      irq'.trace = irq.trace ++ events ∧ OnPorts [] events ∧
      ∀ n < i8259NoIrqs, irq'.irqHandlers n = ⟨null, null⟩ := by
  obtain ⟨events, htrace, hnone⟩ := trace_interruptsInit irq
  refine ⟨_, _, events, rfl, loaded_cpuInit im t irq, htrace, ?_, ?_⟩
  · intro port byte hmem
    exact absurd hmem (hnone port byte)
  · intro n hn
    exact irqHandlers_interruptsInit irq hn

/-- What `start_kernel` leaves behind. The controllers, the timer and the serial port are as the
outputs have made them; the serial port was in the state `uart₀` before. -/
structure Started (im : KernelImage) (machine : Machine) (uart₀ : SerialPort.Chip) (s : KernelState)
    (chips : Chips) (timer : IntervalTimer.Chip) (uart : SerialPort.Chip) : Prop where
  /-- The processor finds flat segments, and for every vector its stub or the default handler. -/
  tables : s.tables.Loaded im.cpu
  /-- Only the line of the timer and that of the slave are enabled, and the handler of the timer is
  the only one. -/
  devices : DevicesReady im.i8254IrqHandler stormTimerFreq uart₀ s.drivers chips timer uart
  /-- The timer counts to 1193182 / 100. -/
  period : (timer 0).period = 11931
  /-- The idle thread is about to enter `thread_main(idle_thread_fn, NULL)`. -/
  eip : s.kernel.machine.eip = im.threadMain
  fn : load32 s.kernel.machine.mem (s.kernel.machine.gpr .esp + 4) = im.idleThreadFn
  arg : load32 s.kernel.machine.mem (s.kernel.machine.gpr .esp + 8) = null
  /-- Interrupts are enabled, without which it would wait forever. -/
  interrupts : cpuInterruptsEnabled s.kernel.machine = true
  current : s.kernel.currentThread = (enabledKernel im.toImage machine).idle.thread
  /-- The scheduler has been started, once. -/
  reachable : System.Reachable im.toImage machine
    [.compute (cpuEnableInterrupts (System.bootKernel im.toImage machine).kernel.machine), .start]
    (System.arrive im.toImage
      { enabledKernel im.toImage machine with kernel := s.kernel, started := true })

/-- `start_kernel` on devices in these states. -/
theorem startKernel_started {im : KernelImage} {machine : Machine} {s : KernelState}
    (hp : im.Placed) (happart : StandsApart im.toImage machine)
    (hs : s.kernel = .initial Heap.initial machine) (chips : Chips) (timer : IntervalTimer.Chip)
    (uart : SerialPort.Chip) :
    ∃ s' events, startKernel im s = .ok s' ∧ s'.drivers.trace = s.drivers.trace ++ events ∧
      OnPorts (picPorts ++ timerPorts ++ uartPorts) events ∧
      s'.drivers.tickCount = s.drivers.tickCount ∧
      (∀ pic, (chipsAfter chips events pic).isr = (chips pic).isr) ∧
      Started im machine uart s' (chipsAfter chips events) (timerAfter timer events)
        (uartAfter uart events) := by
  obtain ⟨tables, irq, quiet, hcpu, htables, hquiet, hquietPorts, hhandlers⟩ :=
    cpuInit_spec im.cpu s.tables s.drivers.toIrqState
  obtain ⟨drivers, events, hdevices, htrace, hports, htick, hisr, hready⟩ :=
    startDevices_eq_ok (s := { s.drivers with toIrqState := irq }) hhandlers
      (show stormTimerFreq ≠ 0 by decide) im.i8254IrqHandler chips timer uart
  obtain ⟨k, hk, hcurrent, heip, hfn, harg, hinterrupts, hreachable⟩ :=
    threadStartScheduler_enabledKernel hp happart
  have hinit := threadInit_heapInit hp machine
  refine ⟨⟨tables, drivers, k⟩, quiet ++ events, ?start, ?trace, ?ports, htick, ?chips⟩
  case start =>
    have hkernel : { s.kernel with heap := heapInit im.heap s.kernel.heap } =
        Kernel.initial (heapInit im.heap Heap.initial) machine := by
      rw [hs]
      rfl
    simp only [startKernel, hcpu, hdevices, hkernel, hinit, bind, Except.bind, decide_true,
      assert_true, pure, Except.pure]
    exact congrArg (Except.map _) hk
  case trace =>
    rw [htrace]
    exact (congrArg (· ++ events) hquiet).trans (List.append_assoc _ _ _)
  case ports => exact (hquietPorts.mono (List.nil_subset _)).append hports
  case chips =>
    have hchips : chipsAfter chips quiet = chips :=
      hquietPorts.foldl_eq ignoresOthers_chipsStep (List.disjoint_nil_left _) chips
    have htimer : timerAfter timer quiet = timer :=
      hquietPorts.foldl_eq ignoresOthers_timerStep (List.disjoint_nil_left _) timer
    have huart : uartAfter uart quiet = uart :=
      hquietPorts.foldl_eq ignoresOthers_uartPorts (List.disjoint_nil_left _) uart
    rw [chipsAfter_append, hchips, timerAfter_append, htimer, uartAfter_append, huart]
    exact ⟨hisr, htables, hready, hready.period, heip, hfn, harg, hinterrupts, hcurrent, hreachable⟩

/-- **`start_kernel` starts the kernel**, whatever is in the tables and in the variables of the
drivers, on any machine that stands on a stack outside of the heap. It writes the same to the devices
whatever state they are in, and all of them are ready afterwards. -/
theorem start_kernel {im : KernelImage} {machine : Machine} {s : KernelState} (hp : im.Placed)
    (happart : StandsApart im.toImage machine) (hs : s.kernel = .initial Heap.initial machine) :
    ∃ s' events, startKernel im s = .ok s' ∧ s'.drivers.trace = s.drivers.trace ++ events ∧
      OnPorts (picPorts ++ timerPorts ++ uartPorts) events ∧
      s'.drivers.tickCount = s.drivers.tickCount ∧
      ∀ chips timer uart, (∀ pic, (chipsAfter chips events pic).isr = (chips pic).isr) ∧
        Started im machine uart s' (chipsAfter chips events) (timerAfter timer events)
          (uartAfter uart events) := by
  obtain ⟨s', events, hstart, htrace, hports, htick, -⟩ :=
    startKernel_started hp happart hs (fun _ => ⟨[], 0, 0, 0, 0, 0⟩) resetTimer ⟨0, 0, 0, 0, []⟩
  refine ⟨s', events, hstart, htrace, hports, htick, fun chips timer uart => ?_⟩
  obtain ⟨s'', events', hstart', htrace', -, -, hisr, hstarted⟩ :=
    startKernel_started hp happart hs chips timer uart
  obtain rfl : s' = s'' := Except.ok.inj (hstart.symm.trans hstart')
  obtain rfl : events = events' := List.append_cancel_left (htrace.symm.trans htrace')
  exact ⟨hisr, hstarted⟩

/-- One way to link the whole kernel. -/
def linkedKernel : KernelImage where
  toImage := linkedImage
  cpu :=
    { gdt := 0x10c000
      idt := 0x10d000
      isrMain := 0x101000
      interruptsAsm := linkedInterrupts
      idtDefaultInterruptHandler := 0x102000 }
  i8254IrqHandler := ⟨0x100900, by decide⟩

/-- The state in which the kernel is loaded, with zeros in its variables. -/
def loadedKernel : KernelState where
  tables := ⟨fun _ => ⟨0, 0⟩, ⟨⟨0, 0⟩, 0, 0, 0, 0, 0, 0⟩, fun _ => ⟨0, 0⟩, ⟨0, 0⟩⟩
  drivers := .initial
  kernel := .initial Heap.initial System.bootMachine

/-- The boot stack is in front of the heap. -/
theorem standsApart_bootMachine : StandsApart linkedImage System.bootMachine := by
  intro b hb hbelow
  have hsp : System.bootMachine.gpr .esp = 0x10e000 := rfl
  have hheap : linkedImage.heap.toNat = 0x110000 := rfl
  rw [hsp] at hbelow
  simp only [mem_range, mem_below, hheap] at hb hbelow
  bv_omega

theorem start_kernel_linkedKernel :
    ∃ s' events, startKernel linkedKernel loadedKernel = .ok s' ∧ s'.drivers.trace = [] ++ events ∧
      OnPorts (picPorts ++ timerPorts ++ uartPorts) events ∧ s'.drivers.tickCount = 0 ∧
      ∀ chips timer uart, (∀ pic, (chipsAfter chips events pic).isr = (chips pic).isr) ∧
        Started linkedKernel System.bootMachine uart s' (chipsAfter chips events)
          (timerAfter timer events) (uartAfter uart events) :=
  start_kernel System.linkedImage_placed standsApart_bootMachine rfl

end Storm
