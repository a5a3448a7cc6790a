import Storm.Kernel.Running

/-! # Exceptions

An exception in the running kernel, and any interrupt of a vector that belongs to no line, ends in a
panic. The gate of the vector leads to its stub and so to `isr_main`, which panics with the name of
the exception, or else to the default handler. `exceptions_panic` says that the kernel gets there from
every state, with interrupts disabled, and that the text is the last that comes on the serial line. -/

namespace Storm

open ByteMemory I386 Transition

/-- The text of the panic for a vector. -/
def exceptionText (v : Byte) : String :=
  if v = 0 then "Divide error"
  else if v = 13 then "General protection fault"
  else if idtEntries.contains v then "Unhandled exception"
  else idtDefaultInterruptHandler

namespace Running

/-- The machine when the processor has taken the gate of a vector. -/
def atGate (v : Byte) (error : Word) (s : Running) : Machine :=
  s.machine.interrupt (s.tables.idt v).gate (if pushesError v then some error else none)

/-- An exception ends in a panic, with the machine in this state. -/
inductive Panics (im : KernelImage) (s : Running) (v : Byte) (error : Word) :
    Machine → String → Prop where
  /-- The stub of the vector calls `isr_main`. -/
  | stub {kind : IsrKind} {call : Machine} {text : String} (hstub : isrStubs.lookup v = some kind)
      (hcall : callIsrMain im.cpu.interruptsAsm (s.tables.idt v).gate (v, kind) error s.machine = call)
      (h : isrMain (InterruptStackFrame.load call.mem (load32 call.mem (call.gpr .esp + 4)))
        s.drivers.toIrqState = .error text) : Panics im s v error call text
  /-- The gate leads to the default handler. -/
  | default (h : (s.atGate v error).eip = im.cpu.idtDefaultInterruptHandler) :
      Panics im s v error (s.atGate v error) idtDefaultInterruptHandler

variable {im : KernelImage} {machine : Machine} {uart : SerialPort.Chip} {ticks : ℕ}
  {sent : List Byte} {acts : List Action} {s : Running} {v : Byte}

/-- All these texts are known. -/
theorem exceptionText_mem (v : Byte) : exceptionText v ∈ panicTexts := by
  rw [exceptionText]
  split_ifs <;> simp [panicTexts]

/-- A vector with a stub that belongs to no line is that of an exception. -/
theorem lookup_exception (hv : v ∈ idtEntries) (hline : v < 32 ∨ 48 ≤ v) :
    v < 32 ∧ ∃ kind, isrStubs.lookup v = some kind ∧ (v, kind) ∈ isrStubs := by
  have hentries : ∀ v ∈ idtEntries, v < 48 ∧
      (isrStubs.lookup v = some .withError ∧ (v, .withError) ∈ isrStubs ∨
        isrStubs.lookup v = some .noError ∧ (v, .noError) ∈ isrStubs) := by decide
  obtain ⟨hlt, hkind⟩ := hentries v hv
  constructor
  · rcases hline with hlow | hhigh
    · exact hlow
    · exact absurd hlt (BitVec.not_lt.mpr hhigh)
  · rcases hkind with hkind | hkind
    · exact ⟨_, hkind⟩
    · exact ⟨_, hkind⟩

/-- **`isr_main` panics** with the name of an exception. -/
theorem isrMain_exception (hv : v ∈ idtEntries) (hlow : v < 32) {frame : InterruptStackFrame}
    (hintNo : frame.intNo = v.setWidth 32) (irq : IrqState) :
    isrMain frame irq = .error (exceptionText v) := by
  have hlt : v.setWidth 32 < idtIrqBase := by
    rw [idtIrqBase]
    bv_omega
  have hdivide : v.setWidth 32 = idtDivideErrorIntNo ↔ v = 0 := by
    rw [idtDivideErrorIntNo]
    bv_omega
  have hprotection : v.setWidth 32 = idtGpFaultIntNo ↔ v = 13 := by
    rw [idtGpFaultIntNo]
    bv_omega
  rw [isrMain, hintNo, if_pos hlt, interruptHandleCpuException, hintNo, exceptionText,
    if_pos (List.contains_iff_mem.mpr hv)]
  simp only [hdivide, hprotection]

/-- A vector without a stub has the text of the default handler. -/
theorem exceptionText_default (hv : v ∉ idtEntries) :
    exceptionText v = idtDefaultInterruptHandler := by
  have hentries : (0 : Byte) ∈ idtEntries ∧ (13 : Byte) ∈ idtEntries := by decide
  have hdivide : v ≠ 0 := fun heq => hv (heq ▸ hentries.1)
  have hprotection : v ≠ 13 := fun heq => hv (heq ▸ hentries.2)
  rw [exceptionText, if_neg hdivide, if_neg hprotection, if_neg (mt List.contains_iff_mem.mp hv)]

/-- **An exception panics**, with interrupts disabled. -/
theorem Up.panics (h : s.Up im machine uart ticks sent acts) (hline : v < 32 ∨ 48 ≤ v)
    (error : Word) :
    ∃ m, s.Panics im v error m (exceptionText v) ∧ cpuInterruptsEnabled m = false := by
  by_cases hv : v ∈ idtEntries
  · obtain ⟨hlow, kind, hlookup, hs⟩ := lookup_exception hv hline
    have hgate : (s.tables.idt v).gate.offset = isr im.cpu.interruptsAsm v := by
      rw [h.tables.gate, if_pos hv]
      rfl
    refine ⟨_, .stub hlookup rfl ?_, cpuInterruptsEnabled_callIsrMain _ hs hgate s.machine⟩
    -- it reads the vector from its frame
    have hframe := frame_callIsrMain im.cpu.interruptsAsm error hs hgate s.machine
    dsimp only at hframe
    rw [hframe]
    exact isrMain_exception hv hlow rfl s.drivers.toIrqState
  · have hgate : (s.tables.idt v).gate.offset = im.cpu.idtDefaultInterruptHandler := by
      rw [h.tables.gate, if_neg hv]
      rfl
    refine ⟨s.atGate v error, ?_, cpuInterruptsEnabled_interrupt _ _⟩
    rw [exceptionText_default hv]
    exact .default hgate

end Running

/-- **Exceptions are the end**: whatever has happened since `start_kernel`, an exception or an
interrupt of a vector without a line leads to the panic that names it, with interrupts disabled.
`panic` puts the whole text on the line behind what was put there before, and nothing comes after
it. -/
theorem exceptions_panic [FloatText] {im : KernelImage} {machine : Machine} {s : KernelState}
    {chips : Chips} {n : ℕ} (hp : im.Placed) (happart : StandsApart im.toImage machine)
    (hs : s.kernel = .initial Heap.initial machine) (htick : s.drivers.tickCount = 0)
    (hidle : ∀ pic, (chips pic).Idle) (hn : n + 60 ≤ 2 ^ 32) (uart : SerialPort.Chip) :
    ∃ s₀ events, startKernel im s = .ok s₀ ∧ s₀.drivers.trace = s.drivers.trace ++ events ∧
      ∀ es r, Run (RunningStep im n)
          (s₀.running im machine (chipsAfter chips events) (uartAfter uart events)) es r →
        r.uart.sent = uart.sent ++ es.filterMap Happening.char ∧
        ∀ v error, v < 32 ∨ 48 ≤ v →
          let text := chars "Panic: " ++ chars (exceptionText v) ++ chars "\n"
          (∃ m, r.Panics im v error m (exceptionText v) ∧ cpuInterruptsEnabled m = false) ∧
            panic (cString (exceptionText v)) r.drivers.toPicState =
              .ok { r.drivers.toPicState with trace := r.drivers.trace ++ putEvents text } ∧
            PanicIsFinal r.uart text := by
  obtain ⟨s₀, events, hstart, htrace, hsent, acts₀, hup⟩ :=
    up_startKernel hp happart hs htick hidle uart
  refine ⟨s₀, events, hstart, htrace, fun es r hrun => ?_⟩
  obtain ⟨acts, hr⟩ := hup.run hn hrun
  rw [Nat.zero_add, List.nil_append] at hr
  have hready : r.uart.dlab = false := by
    rw [hr.line]
    exact hr.ready.1
  refine ⟨?_, fun v error hline => ⟨hr.panics hline error, ?_⟩⟩
  · rw [hr.line, ← hsent]
  · exact panic_panicTexts (Running.exceptionText_mem v) hready r.drivers.toPicState

attribute [local instance] noFloats in
theorem exceptions_panic_linkedKernel :
    ∃ s₀ events, startKernel linkedKernel loadedKernel = .ok s₀ ∧ s₀.drivers.trace = [] ++ events ∧
      ∀ es r, Run (RunningStep linkedKernel 4096)
          (s₀.running linkedKernel System.bootMachine (chipsAfter IrqSystem.resetChips events)
            (uartAfter ⟨0x80, 0, 0, 0, []⟩ events)) es r →
        r.uart.sent = [] ++ es.filterMap Happening.char ∧
        ∀ v error, v < 32 ∨ 48 ≤ v →
          let text := chars "Panic: " ++ chars (exceptionText v) ++ chars "\n"
          (∃ m, r.Panics linkedKernel v error m (exceptionText v) ∧
              cpuInterruptsEnabled m = false) ∧
            panic (cString (exceptionText v)) r.drivers.toPicState =
              .ok { r.drivers.toPicState with trace := r.drivers.trace ++ putEvents text } ∧
            PanicIsFinal r.uart text :=
  exceptions_panic System.linkedImage_placed standsApart_bootMachine rfl rfl
    (fun pic => show (IrqSystem.resetChips pic).isr = 0 from rfl) (by decide) ⟨0x80, 0, 0, 0, []⟩

end Storm
