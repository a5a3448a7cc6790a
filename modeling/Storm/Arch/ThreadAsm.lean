import Storm.Library.I386

/-! # `arch/i386/thread_asm.S`: loading and switching threads

The code of the file, one list entry an instruction, and the two routines that C calls. A call
follows the C calling convention: the arguments are pushed from right to left, then the return
address.

`threadLoadFirstAsm_spec` and `threadContextSwitchAsm_spec` say what a whole call does to the
registers and the memory. -/

namespace Storm

open ByteMemory I386 Linked

/-- `thread_asm.S`. -/
def threadAsm : List Instr := [
  -- 0: thread_load_first_asm
  .load 4 .esp .esp,
  .jmp 10,
  -- 2: thread_context_switch_asm
  .load 8 .esp .ecx,
  .load 4 .esp .eax,
  -- save registers belonging to current thread
  .push .ebp,
  .push .ebx,
  .push .edi,
  .push .esi,
  -- save current thread's stack
  .store .esp .eax,
  -- switch to new stack
  .mov .ecx .esp,
  -- 10: thread_restore
  .pop .esi,
  .pop .edi,
  .pop .ebx,
  .pop .ebp,
  .ret]

/-- The machine at the first instruction of `thread_context_switch_asm(current_stack_ptr,
next_stack_ptr)`, called with return address `ret`. -/
def callContextSwitch (l : Linked threadAsm) (currentStackPtr nextStackPtr ret : Word)
    (m : Machine) : Machine :=
  (((m.push nextStackPtr).push currentStackPtr).push ret).setEip (l.addr 2)

/-- The machine at the first instruction of `thread_load_first_asm(stack_ptr)`, called with return
address `ret`. -/
def callLoadFirst (l : Linked threadAsm) (stackPtr ret : Word) (m : Machine) : Machine :=
  ((m.push stackPtr).push ret).setEip (l.addr 0)

/-- Run `thread_context_switch_asm` from its first instruction through its `ret`. -/
def threadContextSwitchAsm (l : Linked threadAsm) (m : Machine) : Machine := l.run 13 m

/-- Run `thread_load_first_asm` from its first instruction through the `ret` of
`thread_restore`. -/
def threadLoadFirstAsm (l : Linked threadAsm) (m : Machine) : Machine := l.run 7 m

/-- Run `thread_context_switch_asm` up to the instruction that stores the stack pointer. -/
def switchSaving (l : Linked threadAsm) (m : Machine) : Machine := l.run 6 m

/-- Run `thread_context_switch_asm` up to the label `thread_restore`. -/
def switchRestoring (l : Linked threadAsm) (m : Machine) : Machine := l.run 8 m

/-- Run `thread_load_first_asm` up to the label `thread_restore`. -/
def loadRestoring (l : Linked threadAsm) (m : Machine) : Machine := l.run 2 m

variable (l : Linked threadAsm)

/-- The memory after `thread_context_switch_asm` has saved a context at the stack pointer `sp` of
its first instruction: the four registers below it, and the stack pointer in its slot. -/
def savedMem (m : Machine) (slot : Word) : Memory :=
  let sp := m.gpr .esp
  store32 (store32 (store32 (store32 (store32 m.mem (sp - 4) (m.gpr .ebp)) (sp - 8) (m.gpr .ebx))
    (sp - 12) (m.gpr .edi)) (sp - 16) (m.gpr .esi)) slot (sp - 16)

/-- What `thread_restore` makes of a machine: four registers and the instruction pointer come from
the stack. -/
theorem run_threadRestore {m : Machine} (h : m.eip = l.addr 10) :
    let sp := m.gpr .esp
    let m' := l.run 5 m
    m'.gpr .esi = load32 m.mem sp ∧ m'.gpr .edi = load32 m.mem (sp + 4) ∧
      m'.gpr .ebx = load32 m.mem (sp + 8) ∧ m'.gpr .ebp = load32 m.mem (sp + 12) ∧
      m'.eip = load32 m.mem (sp + 16) ∧ m'.gpr .esp = sp + 20 ∧ m'.mem = m.mem := by
  intro sp m'
  have hrun : m' = Instr.exec l.addr (l.addr 15)
      ((effects m [.pop .esi, .pop .edi, .pop .ebx, .pop .ebp]).setEip (l.addr 14)) .ret := by
    show l.run (4 + 1) m = _
    rw [l.run_add, l.run_straight (i := 10) (by decide) h (by decide),
      l.run_of_eip (i := 14) (by decide) rfl]
    rfl
  rw [hrun]
  simp [effects, Instr.exec, Instr.effect, Instr.continueAt, Machine.popReg, Machine.top, sp,
    BitVec.add_assoc]

/-- `thread_context_switch_asm` up to the store: the stack pointer is below four saved
registers. -/
theorem switchSaving_esp {m : Machine} (h : m.eip = l.addr 2) :
    (switchSaving l m).gpr .esp = m.gpr .esp - 16 := by
  rw [switchSaving, l.run_straight (i := 2) (by decide) h (by decide)]
  simp [effects, threadAsm, Instr.effect, sub_sub]

/-- `thread_context_switch_asm` up to `thread_restore`: the context is saved and the stack pointer
is the second argument. -/
theorem switchRestoring_spec {m : Machine} (h : m.eip = l.addr 2) :
    (switchRestoring l m).gpr .esp = load32 m.mem (m.gpr .esp + 8) ∧
      (switchRestoring l m).mem = savedMem m (load32 m.mem (m.gpr .esp + 4)) ∧
      (switchRestoring l m).eip = l.addr 10 := by
  rw [switchRestoring, l.run_straight (i := 2) (by decide) h (by decide)]
  simp [effects, threadAsm, Instr.effect, savedMem, sub_sub]

/-- `thread_load_first_asm` up to `thread_restore`: the stack pointer is the argument. -/
theorem loadRestoring_spec {m : Machine} (h : m.eip = l.addr 0) :
    (loadRestoring l m).gpr .esp = load32 m.mem (m.gpr .esp + 4) ∧
      (loadRestoring l m).mem = m.mem ∧ (loadRestoring l m).eip = l.addr 10 := by
  rw [loadRestoring, l.run_of_eip (i := 0) (by decide) h, l.run_of_eip (i := 1) (by decide) rfl]
  simp [Linked.run, threadAsm, Instr.exec, Instr.effect, Instr.continueAt]

/-- The arguments and the return address of a call of `thread_context_switch_asm`, on the stack. -/
theorem callContextSwitch_args (slot next ret : Word) (m : Machine) :
    let c := callContextSwitch l slot next ret m
    c.eip = l.addr 2 ∧ c.gpr .esp = m.gpr .esp - 12 ∧
      load32 c.mem (m.gpr .esp - 4) = next ∧ load32 c.mem (m.gpr .esp - 8) = slot ∧
      load32 c.mem (m.gpr .esp - 12) = ret := by
  simp [callContextSwitch, sub_sub, load32_store32_of_apart]

/-- The argument of a call of `thread_load_first_asm`, on the stack. -/
theorem callLoadFirst_args (stackPtr ret : Word) (m : Machine) :
    let c := callLoadFirst l stackPtr ret m
    c.eip = l.addr 0 ∧ c.gpr .esp = m.gpr .esp - 8 ∧
      load32 c.mem (m.gpr .esp - 4) = stackPtr ∧
      c.mem = store32 (store32 m.mem (m.gpr .esp - 4) stackPtr) (m.gpr .esp - 8) ret := by
  simp [callLoadFirst, sub_sub, load32_store32_of_apart]

/-- The memory after a call of `thread_context_switch_asm` from a machine with stack pointer `sp`:
arguments, return address and four registers below `sp`, and the stack pointer in its slot. -/
def switchMem (slot next ret : Word) (m : Machine) : Memory :=
  let sp := m.gpr .esp
  let args := store32 (store32 (store32 m.mem (sp - 4) next) (sp - 8) slot) (sp - 12) ret
  store32 (store32 (store32 (store32 (store32 args (sp - 16) (m.gpr .ebp)) (sp - 20) (m.gpr .ebx))
    (sp - 24) (m.gpr .edi)) (sp - 28) (m.gpr .esi)) slot (sp - 28)

/-- The memory of a call is the one that its first instructions leave. -/
theorem savedMem_callContextSwitch (slot next ret : Word) (m : Machine) :
    savedMem (callContextSwitch l slot next ret m) slot = switchMem slot next ret m := by
  simp [savedMem, switchMem, callContextSwitch, sub_sub]

/-- **A call of `thread_context_switch_asm`** writes 28 bytes below the stack pointer, and the slot.
-/
theorem agree_switchMem {s : Set Word} {slot next ret : Word} {m : Machine}
    (hs : ∀ b ∈ s, b ∉ Below (m.gpr .esp) 28) (hslot : ∀ b ∈ s, b ∉ WordAt slot) :
    Agree s (switchMem slot next ret m) m.mem := by
  let sp := m.gpr .esp
  have hmem : switchMem slot next ret m = store32 (storesBelow sp
      [(4, next), (8, slot), (12, ret), (16, m.gpr .ebp), (20, m.gpr .ebx), (24, m.gpr .edi),
        (28, m.gpr .esi)] m.mem) slot (sp - 28) := rfl
  rw [hmem]
  exact (agree_store32 hslot).trans (agree_storesBelow hs (by simp))

/-- A call of `thread_load_first_asm` writes eight bytes below the stack pointer. -/
theorem agree_callLoadFirst {l : Linked threadAsm} {s : Set Word} {sp ret : Word} {m : Machine}
    (hs : ∀ b ∈ s, b ∉ Below (m.gpr .esp) 8) : Agree s (callLoadFirst l sp ret m).mem m.mem := by
  have hmem : (callLoadFirst l sp ret m).mem =
      storesBelow (m.gpr .esp) [(4, sp), (8, ret)] m.mem := (callLoadFirst_args l sp ret m).2.2.2
  rw [hmem]
  exact agree_storesBelow hs (by simp)

/-- **`thread_context_switch_asm`, called from C**: it saves the caller's context, and continues
with what is on the stack at `next`. -/
theorem threadContextSwitchAsm_spec (slot next ret : Word) (m : Machine) :
    let c := callContextSwitch l slot next ret m
    let m' := threadContextSwitchAsm l c
    let mem := switchMem slot next ret m
    (switchSaving l c).gpr .esp = m.gpr .esp - 28 ∧ (switchRestoring l c).gpr .esp = next ∧
      m'.mem = mem ∧ m'.eip = load32 mem (next + 16) ∧ m'.gpr .esp = next + 20 ∧
      m'.gpr .esi = load32 mem next ∧ m'.gpr .edi = load32 mem (next + 4) ∧
      m'.gpr .ebx = load32 mem (next + 8) ∧ m'.gpr .ebp = load32 mem (next + 12) := by
  intro c m' mem
  obtain ⟨heip, hsp, hnext, hslot, -⟩ := callContextSwitch_args l slot next ret m
  obtain ⟨hresp, hrmem, hreip⟩ := switchRestoring_spec l heip
  rw [hsp, sub_add, show (12 : Word) - 8 = 4 from rfl, hnext] at hresp
  rw [hsp, sub_add, show (12 : Word) - 4 = 8 from rfl, hslot, savedMem_callContextSwitch] at hrmem
  have hm' : m' = l.run 5 (switchRestoring l c) := l.run_add 8 5 c
  obtain ⟨hesi, hedi, hebx, hebp, heip', hesp, hmem'⟩ := run_threadRestore l hreip
  rw [← hm', hresp, hrmem] at hesi hedi hebx hebp heip'
  rw [← hm', hresp] at hesp
  rw [← hm', hrmem] at hmem'
  refine ⟨?_, hresp, hmem', heip', hesp, hesi, hedi, hebx, hebp⟩
  rw [switchSaving_esp l heip, hsp, sub_sub]
  rfl

/-- **`thread_load_first_asm`, called from C**: it continues with what is on the stack at
`stackPtr`. -/
theorem threadLoadFirstAsm_spec (stackPtr ret : Word) (m : Machine) :
    let c := callLoadFirst l stackPtr ret m
    let m' := threadLoadFirstAsm l c
    (loadRestoring l c).gpr .esp = stackPtr ∧ m'.mem = c.mem ∧
      m'.eip = load32 c.mem (stackPtr + 16) ∧ m'.gpr .esp = stackPtr + 20 := by
  intro c m'
  obtain ⟨heip, hsp, harg, -⟩ := callLoadFirst_args l stackPtr ret m
  obtain ⟨hresp, hrmem, hreip⟩ := loadRestoring_spec l heip
  rw [hsp, sub_add, show (8 : Word) - 4 = 4 from rfl, harg] at hresp
  have hm' : m' = l.run 5 (loadRestoring l c) := l.run_add 2 5 c
  obtain ⟨-, -, -, -, heip', hesp, hmem'⟩ := run_threadRestore l hreip
  rw [← hm', hresp] at hesp
  rw [← hm', hresp, hrmem] at heip'
  rw [← hm', hrmem] at hmem'
  exact ⟨hresp, hmem', heip', hesp⟩

end Storm
