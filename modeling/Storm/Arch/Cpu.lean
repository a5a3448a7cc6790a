import Storm.Arch.Gdt
import Storm.Arch.InterruptDelivery

/-! # `arch/i386/cpu/cpu.c` and `cpu_asm.S`: the processor

`cpu_init` sets up the two descriptor tables and clears the table of interrupt handlers. What the
processor makes of the tables is `CpuTables.Loaded`, of which `loaded_cpuInit` is the proof. The
functions of `cpu_asm.S` are one instruction each, on the flags of the machine. -/

namespace Storm

open ByteMemory I386

/-- Where linking puts the tables and the functions that the tables lead to. -/
structure CpuImage where
  /-- `gdt`. -/
  gdt : Word
  /-- `idt`. -/
  idt : Word
  /-- `isr_main`. -/
  isrMain : Word
  /-- `interrupts_asm.S`. -/
  interruptsAsm : Linked (Storm.interruptsAsm isrMain)
  /-- `idt_default_interrupt_handler`. -/
  idtDefaultInterruptHandler : Word

/-- The two tables, and the registers of the processor that belong to them. -/
structure CpuTables where
  gdt : Gdt
  segments : SegmentRegisters
  idt : Idt
  idtr : CpuPseudoDescriptor

/-- `cpu_init`. -/
def cpuInit (im : CpuImage) (t : CpuTables) (irq : IrqState) : CpuTables × IrqState :=
  let (gdt, gdtDesc) := gdtInit im.gdt t.gdt
  let segments := loadGdt gdtDesc
  let (idt, idtr) := idtInit im.idt (isr im.interruptsAsm) im.idtDefaultInterruptHandler t.idt
  (⟨gdt, segments, idt, idtr⟩, interruptsInit irq)

/-- `CPU_INTERRUPTS_ENABLED_FLAG`. -/
def cpuInterruptsEnabledFlag : Word := 0x1 <<< 9

/-- `cpu_get_eflags`. -/
def cpuGetEflags (m : Machine) : Word := m.eflags

/-- `cpu_interrupts_enabled`. -/
def cpuInterruptsEnabled (m : Machine) : Bool := cpuGetEflags m &&& cpuInterruptsEnabledFlag ≠ 0

/-- `cpu_enable_interrupts`: `sti` sets `IF`. -/
def cpuEnableInterrupts (m : Machine) : Machine :=
  { m with eflags := m.eflags ||| cpuInterruptsEnabledFlag }

/-- `cpu_disable_interrupts`: `cli` clears `IF`. -/
def cpuDisableInterrupts (m : Machine) : Machine :=
  { m with eflags := m.eflags &&& ~~~cpuInterruptsEnabledFlag }

variable {m : Machine}

/-- The flag is one bit. -/
theorem cpuInterruptsEnabled_iff : cpuInterruptsEnabled m = true ↔ m.eflags.getLsbD 9 = true := by
  have hflag : cpuInterruptsEnabledFlag = BitVec.twoPow 32 9 := by decide
  have hone : BitVec.twoPow 32 9 ≠ 0 := by decide
  rw [cpuInterruptsEnabled, cpuGetEflags, hflag, BitVec.and_twoPow, decide_eq_true_iff]
  cases m.eflags.getLsbD 9 with
  | true => exact iff_of_true hone rfl
  | false => exact iff_of_false (fun h => h rfl) Bool.false_ne_true

/-- **After `cpu_enable_interrupts`** interrupts are enabled. -/
theorem cpuInterruptsEnabled_enable : cpuInterruptsEnabled (cpuEnableInterrupts m) = true := by
  rw [cpuInterruptsEnabled_iff, cpuEnableInterrupts, BitVec.getLsbD_or]
  exact Bool.or_eq_true_iff.mpr (Or.inr (by decide))

/-- **After `cpu_disable_interrupts`** they are disabled. -/
theorem cpuInterruptsEnabled_disable : cpuInterruptsEnabled (cpuDisableInterrupts m) = false := by
  have hbit : (~~~cpuInterruptsEnabledFlag).getLsbD 9 = false := by decide
  rw [← Bool.not_eq_true, cpuInterruptsEnabled_iff, cpuDisableInterrupts, BitVec.getLsbD_and, hbit,
    Bool.and_false]
  exact Bool.false_ne_true

/-- A gate that is taken disables interrupts. -/
theorem cpuInterruptsEnabled_interrupt (gate : Gate) (error : Option Word) :
    cpuInterruptsEnabled (m.interrupt gate error) = false := by
  have hbit : (~~~clearedFlags).getLsbD 9 = false := by decide
  have hflags : (m.interrupt gate error).eflags = m.eflags &&& ~~~clearedFlags := rfl
  rw [← Bool.not_eq_true, cpuInterruptsEnabled_iff, hflags, BitVec.getLsbD_and, hbit,
    Bool.and_false]
  exact Bool.false_ne_true

/-- What the processor finds in the tables: all segments are flat, and the gate of every vector is an
interrupt gate to the stub of the vector or to the default handler. -/
structure CpuTables.Loaded (im : CpuImage) (t : CpuTables) : Prop where
  /-- The registers have the addresses of the tables. -/
  base : t.segments.gdtr.base = im.gdt ∧ t.idtr.base = im.idt
  /-- The code segment, whatever is in memory behind the table. -/
  code : ∀ behind, segmentOf (t.gdt.words behind) t.segments.gdtr.limit t.segments.cs =
    some (.flat true)
  /-- The other segments. -/
  data : ∀ behind, ∀ selector ∈ [t.segments.ds, t.segments.es, t.segments.fs, t.segments.gs,
      t.segments.ss],
    segmentOf (t.gdt.words behind) t.segments.gdtr.limit selector = some (.flat false)
  /-- The gates are in the table. -/
  limit : ∀ v : Byte, 8 * v.toNat + 7 ≤ t.idtr.limit.toNat
  gate : ∀ v, (t.idt v).gate =
    kernelGate (if v ∈ idtEntries then isr im.interruptsAsm v else im.idtDefaultInterruptHandler)
  /-- The linear address behind a gate. -/
  linear : ∀ behind v,
    (segmentOf (t.gdt.words behind) t.segments.gdtr.limit (t.idt v).gate.selector).bind
        (Segment.linear (t.idt v).gate.offset) =
      some (if v ∈ idtEntries then isr im.interruptsAsm v else im.idtDefaultInterruptHandler)

/-- **`cpu_init`** loads the tables, whatever was in them. -/
theorem loaded_cpuInit (im : CpuImage) (t : CpuTables) (irq : IrqState) :
    (cpuInit im t irq).1.Loaded im where
  base := ⟨rfl, rfl⟩
  code _ := segmentOf_code
  data _ _ h := segmentOf_data h
  limit v := by
    have hv := v.isLt
    show _ ≤ 2047
    omega
  gate v := by
    show ((idtInit im.idt (isr im.interruptsAsm) im.idtDefaultInterruptHandler t.idt).1 v).gate = _
    rw [idtInit_apply, gate_idtInterruptGateDescriptorInit]
  linear _ v := gate_linear im.idt (isr im.interruptsAsm) im.idtDefaultInterruptHandler t.idt v

end Storm
