import Storm.Arch.Idt
import Storm.Arch.Interrupts
import Storm.Arch.InterruptsAsm

/-! # Delivering an interrupt

From the gate of a vector through its stub to `isr_main`, and back. The C structure
`struct interrupt_stack_frame` is read from where `isr_main` finds it (`InterruptStackFrame.load`);
the way back takes the registers from the same place. -/

namespace Storm

open ByteMemory I386

/-- `*frame`: the members of the structure one after the other, four bytes each. -/
def InterruptStackFrame.load (mem : Memory) (frame : Word) : InterruptStackFrame where
  registers :=
    { edi := load32 mem frame
      esi := load32 mem (frame + 4)
      ebp := load32 mem (frame + 8)
      esp := load32 mem (frame + 12)
      ebx := load32 mem (frame + 16)
      edx := load32 mem (frame + 20)
      ecx := load32 mem (frame + 24)
      eax := load32 mem (frame + 28) }
  intNo := load32 mem (frame + 32)
  error := load32 mem (frame + 36)
  eip := load32 mem (frame + 40)
  cs := load32 mem (frame + 44)
  eflags := load32 mem (frame + 48)

/-- `sizeof(struct interrupt_stack_frame)`. -/
def sizeofInterruptStackFrame : ℕ := 52

/-- A frame is given by its memory. -/
theorem InterruptStackFrame.load_congr {mem mem' : Memory} {frame : Word}
    (h : Agree (Above frame sizeofInterruptStackFrame) mem mem') :
    InterruptStackFrame.load mem frame = InterruptStackFrame.load mem' frame := by
  have hword : ∀ d : Word, d.toNat + 4 ≤ 52 → load32 mem (frame + d) = load32 mem' (frame + d) :=
    fun d hd => h.load32 (wordAt_subset_above hd (by decide))
  have hfirst := hword 0 (by decide)
  rw [add_zero] at hfirst
  rw [load, load, hfirst, hword 4 (by decide), hword 8 (by decide), hword 12 (by decide),
    hword 16 (by decide), hword 20 (by decide), hword 24 (by decide), hword 28 (by decide),
    hword 32 (by decide), hword 36 (by decide), hword 40 (by decide), hword 44 (by decide),
    hword 48 (by decide)]

section Common

variable {isrMain : Word} (l : Linked (interruptsAsm isrMain)) {gate : Gate} {error v : Word}
  {m : Machine}

/-- What `isr_main` is to find, for an interrupt of the machine `m`. -/
def expectedFrame (error v : Word) (m : Machine) : InterruptStackFrame where
  registers :=
    { edi := m.gpr .edi
      esi := m.gpr .esi
      ebp := m.gpr .ebp
      esp := m.gpr .esp - 20
      ebx := m.gpr .ebx
      edx := m.gpr .edx
      ecx := m.gpr .ecx
      eax := m.gpr .eax }
  intNo := v
  error
  eip := m.eip
  cs := m.cs
  eflags := m.eflags

/-- The memory when `isr_main` is entered: 15 words below the stack pointer, the last of which is
the return address. -/
def interruptMem (error v ret : Word) (m : Machine) : Memory :=
  let sp := m.gpr .esp
  let mem := store32 m.mem (sp - 4) m.eflags
  let mem := store32 mem (sp - 8) m.cs
  let mem := store32 mem (sp - 12) m.eip
  let mem := store32 mem (sp - 16) error
  let mem := store32 mem (sp - 20) v
  let mem := store32 mem (sp - 24) (m.gpr .eax)
  let mem := store32 mem (sp - 28) (m.gpr .ecx)
  let mem := store32 mem (sp - 32) (m.gpr .edx)
  let mem := store32 mem (sp - 36) (m.gpr .ebx)
  let mem := store32 mem (sp - 40) (sp - 20)
  let mem := store32 mem (sp - 44) (m.gpr .ebp)
  let mem := store32 mem (sp - 48) (m.gpr .esi)
  let mem := store32 mem (sp - 52) (m.gpr .edi)
  let mem := store32 mem (sp - 56) (sp - 52)
  store32 mem (sp - 60) ret

/-- `isr_main` finds the frame that is expected. -/
theorem load_interruptMem (error v ret : Word) (m : Machine) :
    InterruptStackFrame.load (interruptMem error v ret m) (m.gpr .esp - 52) =
      expectedFrame error v m := by
  simp [InterruptStackFrame.load, interruptMem, expectedFrame, sub_add, load32_store32_of_apart]

/-- Above the stack pointer the memory is the same. -/
theorem agree_interruptMem {s : Set Word} {ret : Word}
    (hs : ∀ b ∈ s, b ∉ Below (m.gpr .esp) 60) : Agree s (interruptMem error v ret m) m.mem := by
  let sp := m.gpr .esp
  have hmem : interruptMem error v ret m = storesBelow sp
      [(4, m.eflags), (8, m.cs), (12, m.eip), (16, error), (20, v), (24, m.gpr .eax),
        (28, m.gpr .ecx), (32, m.gpr .edx), (36, m.gpr .ebx), (40, sp - 20), (44, m.gpr .ebp),
        (48, m.gpr .esi), (52, m.gpr .edi), (56, sp - 52), (60, ret)] m.mem := rfl
  rw [hmem]
  exact agree_storesBelow hs (by simp)

/-- **`isr_common` up to `isr_main`.** -/
theorem run_isrCommon_call :
    let call := l.run 3 (atIsrCommon l gate error v m)
    call.eip = isrMain ∧ call.gpr .esp = m.gpr .esp - 60 ∧
      call.mem = interruptMem error v (l.addr 3) m := by
  rw [l.run_of_getElem? (i := 0) (c := .pushal) rfl rfl,
    l.run_of_getElem? (i := 1) (c := .push .esp) rfl rfl,
    l.run_of_getElem? (i := 2) (c := .call isrMain) rfl rfl]
  simp [Linked.run, Instr.exec, Instr.effect, Instr.continueAt, atIsrCommon, interruptMem, sub_sub]

/-- **`isr_common` after `isr_main`**: all registers come from the frame, to which the stack pointer
points after the argument is removed. -/
theorem run_isrCommon_return {ret : Machine} (h : ret.eip = l.addr 3) :
    let frame := InterruptStackFrame.load ret.mem (ret.gpr .esp + 4)
    let r := l.run 4 ret
    r.gpr .eax = frame.registers.eax ∧ r.gpr .ecx = frame.registers.ecx ∧
      r.gpr .edx = frame.registers.edx ∧ r.gpr .ebx = frame.registers.ebx ∧
      r.gpr .esp = ret.gpr .esp + 56 ∧ r.gpr .ebp = frame.registers.ebp ∧
      r.gpr .esi = frame.registers.esi ∧ r.gpr .edi = frame.registers.edi ∧ r.eip = frame.eip ∧
      r.cs = frame.cs ∧ r.eflags = frame.eflags ∧ r.mem = ret.mem := by
  rw [l.run_of_getElem? (i := 3) (c := .addImm 4 .esp) rfl h,
    l.run_of_getElem? (i := 4) (c := .popal) rfl rfl,
    l.run_of_getElem? (i := 5) (c := .addImm 8 .esp) rfl rfl,
    l.run_of_getElem? (i := 6) (c := .iret) rfl rfl]
  simp [Linked.run, Instr.exec, Instr.effect, Instr.continueAt, InterruptStackFrame.load,
    Machine.popReg, Machine.top, BitVec.add_assoc]

/-- The machine when `isr_main` is called: from the gate through the stub `s` and `isr_common`. -/
def callIsrMain (gate : Gate) (s : Byte × IsrKind) (error : Word) (m : Machine) : Machine :=
  l.run ((s.2.code s.1).length + 3)
    (m.interrupt gate (if pushesError s.1 then some error else none))

/-- The machine after the `iret`, when `isr_main` has returned. -/
def returnIsrMain (ret : Machine) : Machine := l.run 4 ret

end Common

/-- What the C calling convention says about the return of `isr_main`: it goes back to the return
address, above which the stack pointer is then. Moreover it has changed neither the frame that its
argument points to nor the `n` bytes of the stack behind it. -/
structure IsrMainReturns (n : ℕ) (call ret : Machine) : Prop where
  eip : ret.eip = call.top
  esp : ret.gpr .esp = call.gpr .esp + 4
  mem : Agree (Above (load32 call.mem (call.gpr .esp + 4)) (sizeofInterruptStackFrame + n))
    ret.mem call.mem

section Delivery

variable {isrMain : Word} (l : Linked (interruptsAsm isrMain)) {gate : Gate} {s : Byte × IsrKind}
  {error : Word} {m ret : Machine}

/-- The error code that is found in the frame. -/
def frameError (v : Byte) (error : Word) : Word := if pushesError v then error else 0

/-- **From the gate to `isr_main`.** -/
theorem callIsrMain_spec (error : Word) (m : Machine) (hs : s ∈ isrStubs)
    (hgate : gate.offset = isr l s.1) :
    let call := callIsrMain l gate s error m
    call.eip = isrMain ∧ call.gpr .esp = m.gpr .esp - 60 ∧
      call.mem = interruptMem (frameError s.1 error) (s.1.setWidth 32) (l.addr 3) m := by
  rw [callIsrMain, l.run_add, run_stub l hs hgate]
  exact run_isrCommon_call l

/-- The argument of `isr_main`, and its return address. -/
theorem load32_interruptMem (error v ret : Word) (m : Machine) :
    load32 (interruptMem error v ret m) (m.gpr .esp - 60) = ret ∧
      load32 (interruptMem error v ret m) (m.gpr .esp - 56) = m.gpr .esp - 52 := by
  simp [interruptMem, load32_store32_of_apart]

/-- `isr_main` returns into `isr_common`. -/
theorem IsrMainReturns.eip_eq {n : ℕ} (hs : s ∈ isrStubs) (hgate : gate.offset = isr l s.1)
    (h : IsrMainReturns n (callIsrMain l gate s error m) ret) : ret.eip = l.addr 3 := by
  obtain ⟨-, hesp, hmem⟩ := callIsrMain_spec l error m hs hgate
  rw [h.eip, Machine.top, hmem, hesp, (load32_interruptMem _ _ _ _).1]

/-- The way back does not write to the memory. -/
theorem returnIsrMain_mem {n : ℕ} (hs : s ∈ isrStubs) (hgate : gate.offset = isr l s.1)
    (h : IsrMainReturns n (callIsrMain l gate s error m) ret) :
    (returnIsrMain l ret).mem = ret.mem := by
  obtain ⟨-, -, -, -, -, -, -, -, -, -, -, hmem⟩ :=
    run_isrCommon_return l (IsrMainReturns.eip_eq l hs hgate h)
  exact hmem

/-- **From `isr_main` back** to the interrupted code. -/
theorem returnIsrMain_spec {n : ℕ} (hn : n + 60 ≤ 2 ^ 32) (hs : s ∈ isrStubs)
    (hgate : gate.offset = isr l s.1) (h : IsrMainReturns n (callIsrMain l gate s error m) ret) :
    Resumes n m (returnIsrMain l ret) := by
  obtain ⟨-, hesp, hmem⟩ := callIsrMain_spec l error m hs hgate
  obtain ⟨-, hframe⟩ := load32_interruptMem (frameError s.1 error) (s.1.setWidth 32) (l.addr 3) m
  have heip := IsrMainReturns.eip_eq l hs hgate h
  obtain ⟨-, hesp', hmem'⟩ := h
  rw [hesp, sub_add, show (60 : Word) - 4 = 56 from rfl] at hesp' hmem'
  rw [hmem, hframe] at hmem'
  -- the frame is still the one that was built
  have hload : InterruptStackFrame.load ret.mem (ret.gpr .esp + 4) =
      expectedFrame (frameError s.1 error) (s.1.setWidth 32) m := by
    rw [hesp', sub_add, show (56 : Word) - 4 = 52 from rfl, InterruptStackFrame.load_congr
      (hmem'.mono fun b hb => ?_), load_interruptMem]
    exact hb.trans_le (Nat.le_add_right _ _)
  have hr := run_isrCommon_return l heip
  rw [hload] at hr
  obtain ⟨heax, hecx, hedx, hebx, hsp, hebp, hesi, hedi, heip', hcs, heflags, hmem''⟩ := hr
  refine ⟨fun r => ?_, heip', hcs, heflags, ?_⟩
  · cases r with
    | eax => exact heax
    | ecx => exact hecx
    | edx => exact hedx
    | ebx => exact hebx
    | esp =>
        refine hsp.trans ?_
        rw [hesp', sub_add_cancel]
    | ebp => exact hebp
    | esi => exact hesi
    | edi => exact hedi
  · rw [returnIsrMain, hmem'']
    refine (hmem'.mono fun b hb => ?_).trans
      (agree_interruptMem (notMem_below_of_mem_above (by omega)))
    simp only [mem_above, sizeofInterruptStackFrame] at hb ⊢
    bv_omega

/-- What an interrupt of the machine `m` with the vector `v` comes to, when `table` is the interrupt
descriptor table and its register: -/
structure InterruptTransparent (table : Idt × CpuPseudoDescriptor)
    (addr idtDefaultInterruptHandler : Word) (v : Byte) (error : Word) (m : Machine) (n : ℕ) :
    Prop where
  /-- The processor finds the gate of the vector, at offset `8 * v` of the table. -/
  found : table.2.base = addr ∧ 8 * v.toNat + 7 ≤ table.2.limit.toNat
  /-- It is an interrupt gate of the kernel to the stub of the vector, or to the default handler. -/
  gate : (table.1 v).gate = kernelGate
    (if v ∈ isrStubs.map Prod.fst then isr l v else idtDefaultInterruptHandler)
  /-- The stub ends up in `isr_main`. -/
  called : ∀ kind, (v, kind) ∈ isrStubs →
    (callIsrMain l (table.1 v).gate (v, kind) error m).eip = isrMain
  /-- The argument of `isr_main` points to a frame that describes the interrupt and the interrupted
  code. -/
  frame : ∀ kind, (v, kind) ∈ isrStubs →
    let call := callIsrMain l (table.1 v).gate (v, kind) error m
    InterruptStackFrame.load call.mem (load32 call.mem (call.gpr .esp + 4)) =
      expectedFrame (if pushesError v then error else 0) (v.setWidth 32) m
  /-- The interrupted code goes on undisturbed when `isr_main` returns. -/
  resumes : ∀ kind, (v, kind) ∈ isrStubs → ∀ ret,
    IsrMainReturns n (callIsrMain l (table.1 v).gate (v, kind) error m) ret →
      Resumes n m (returnIsrMain l ret)

/-- **Interrupt delivery is transparent and correctly labelled** after `idt_init`. -/
theorem interrupt_transparent (addr idtDefaultInterruptHandler : Word) (idt : Idt) (v : Byte)
    (error : Word) (m : Machine) {n : ℕ} (hn : n + 60 ≤ 2 ^ 32) :
    InterruptTransparent l (idtInit addr (isr l) idtDefaultInterruptHandler idt) addr
      idtDefaultInterruptHandler v error m n := by
  have hentries : idtEntries = isrStubs.map Prod.fst := rfl
  have hgate : ((idtInit addr (isr l) idtDefaultInterruptHandler idt).1 v).gate = kernelGate
      (if v ∈ isrStubs.map Prod.fst then isr l v else idtDefaultInterruptHandler) := by
    rw [idtInit_apply, gate_idtInterruptGateDescriptorInit, hentries]
  have hoffset : ∀ kind, (v, kind) ∈ isrStubs →
      ((idtInit addr (isr l) idtDefaultInterruptHandler idt).1 v).gate.offset = isr l v := by
    intro kind hs
    rw [hgate, if_pos (List.mem_map_of_mem hs)]
    rfl
  refine ⟨⟨rfl, ?_⟩, hgate, fun kind hs => (callIsrMain_spec l error m hs (hoffset kind hs)).1,
    fun kind hs => ?_, fun kind hs ret hret => returnIsrMain_spec l hn hs (hoffset kind hs) hret⟩
  · have hv := v.isLt
    show _ ≤ 2047
    omega
  · obtain ⟨-, hesp, hmem⟩ := callIsrMain_spec l error m hs (hoffset kind hs)
    intro call
    rw [hesp, hmem, sub_add, show (60 : Word) - 4 = 56 from rfl, (load32_interruptMem _ _ _ _).2,
      load_interruptMem]
    rfl

end Delivery

/-- One way to link `interrupts_asm.S`, with `isr_main` behind it. -/
def linkedInterrupts : Linked (interruptsAsm 0x101000) :=
  .consecutive (interruptsAsm 0x101000) 0x100200 (by decide)

/-- A timer interrupt of code with a stack of 4096 bytes. -/
theorem interrupt_transparent_timer :
    InterruptTransparent linkedInterrupts
      (idtInit 0x10d000 (isr linkedInterrupts) 0x102000 fun _ => ⟨0, 0⟩) 0x10d000 0x102000 32 0
      { gpr := fun _ => 0x110000, eip := 0x103000, cs := 8, eflags := 0x202, mem := fun _ => 0 }
      4096 :=
  interrupt_transparent linkedInterrupts 0x10d000 0x102000 (fun _ => ⟨0, 0⟩) 32 0 _ (by decide)

end Storm
