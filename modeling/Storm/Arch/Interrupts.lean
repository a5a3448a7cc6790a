import Storm.Arch.I8259

/-! # `arch/i386/cpu/interrupts.c`: handlers of interrupts

The table of handlers, one for each line, and the two functions at the borders of the file:
`isr_main`, which the stubs of `interrupts_asm.S` call for every interrupt, and
`interrupts_register_irq`.

A handler is called at the very end of `isr_main`. What it does then, including calls of
`interrupts_register_irq` of its own, comes after everything modelled here. -/

namespace Storm

open ByteMemory

/-- `struct registers`: the general registers in the order in which `pushal` leaves them. -/
structure Registers where
  edi : Word
  esi : Word
  ebp : Word
  esp : Word
  ebx : Word
  edx : Word
  ecx : Word
  eax : Word
  deriving DecidableEq, Repr

/-- `struct interrupt_stack_frame`. -/
structure InterruptStackFrame where
  registers : Registers
  intNo : Word
  error : Word
  eip : Word
  cs : Word
  eflags : Word
  deriving DecidableEq, Repr

/-- `struct irq_handler`. -/
structure IrqHandler where
  fn : Word
  arg : Word
  deriving DecidableEq, Repr

/-- The static variables of `interrupts.c` and `i8259.c`, and the history. -/
structure IrqState extends PicState where
  /-- `irq_handlers`; from entry 16 on, the memory behind the array. -/
  irqHandlers : Byte → IrqHandler

/-- `sizeof(irq_handlers)`: 16 entries of eight bytes. -/
def sizeofIrqHandlers : Word := 128

/-- `IDT_DIVIDE_ERROR_INT_NO`. -/
def idtDivideErrorIntNo : Word := 0

/-- `IDT_GP_FAULT_INT_NO`. -/
def idtGpFaultIntNo : Word := 13

/-- `irq_handler_init`, for the handler at an index of the table. -/
def irqHandlerInit (irq : Byte) (fn arg : Word) (s : IrqState) : IrqState where
  pics := s.pics
  irqHandlers := Function.update s.irqHandlers irq ⟨fn, arg⟩
  trace := s.trace ++ [.setFn irq fn, .setArg irq arg]

/-- `irq_handler_execute`, for the handler at an index of the table. -/
def irqHandlerExecute (irq : Byte) (s : IrqState) : IrqState :=
  let handler := s.irqHandlers irq
  if handler.fn ≠ null then { s with trace := s.trace ++ [.call handler.fn handler.arg] } else s

/-- `interrupt_handle_cpu_exception`: the text of the panic. -/
def interruptHandleCpuException (frame : InterruptStackFrame) : String :=
  if frame.intNo = idtDivideErrorIntNo then "Divide error"
  else if frame.intNo = idtGpFaultIntNo then "General protection fault"
  else "Unhandled exception"

/-- `interrupt_handle_irq`. -/
def interruptHandleIrq (irq : Byte) (s : IrqState) : Except String IrqState := do
  let s := { s with toPicState := i8259SendEoi irq s.toPicState }
  assert (irq.setWidth 32 < sizeofIrqHandlers) "irq < sizeof(irq_handlers)"
  return irqHandlerExecute irq s

/-- `isr_main`. -/
def isrMain (frame : InterruptStackFrame) (s : IrqState) : Except String IrqState :=
  if frame.intNo < idtIrqBase then .error (interruptHandleCpuException frame)
  else interruptHandleIrq ((frame.intNo - idtIrqBase).setWidth 8) s

/-- `interrupts_init`. -/
def interruptsInit (s : IrqState) : IrqState :=
  (List.range i8259NoIrqs.toNat).foldl (fun s i => irqHandlerInit (BitVec.ofNat 8 i) null null s) s

/-- `interrupts_register_irq`. -/
def interruptsRegisterIrq (irq : Byte) (fn arg : Word) (s : IrqState) : Except String IrqState := do
  assert (irq.setWidth 32 < sizeofIrqHandlers) "irq < sizeof(irq_handlers)"
  let s := irqHandlerInit irq fn arg s
  let pics ← i8259EnableIrq irq s.toPicState
  return { s with toPicState := pics }

/-! ## What the functions do -/

variable {s : IrqState} {irq n : Byte} {fn arg : Word} {frame : InterruptStackFrame}

/-- `irq_handler_init` writes one entry. -/
theorem irqHandlers_irqHandlerInit : (irqHandlerInit irq fn arg s).irqHandlers n =
    if n = irq then ⟨fn, arg⟩ else s.irqHandlers n := Function.update_apply ..

/-- The calls of a handler: none when it has no function. -/
def IrqHandler.calls (handler : IrqHandler) : List IrqEvent :=
  if handler.fn = null then [] else [.call handler.fn handler.arg]

/-- `irq_handler_execute` calls the handler. -/
theorem irqHandlerExecute_eq :
    irqHandlerExecute irq s = { s with trace := s.trace ++ (s.irqHandlers irq).calls } := by
  rw [irqHandlerExecute, IrqHandler.calls]
  by_cases h : (s.irqHandlers irq).fn = null
  · simp only [h, ne_eq, not_true_eq_false, if_true, if_false, List.append_nil]
  · simp only [h, ne_eq, not_false_eq_true, if_true, if_false]

/-- The lines are indices of the table, which the assertions compare with its size in bytes. -/
theorem lt_sizeofIrqHandlers (hirq : irq < i8259NoIrqs) : irq.setWidth 32 < sizeofIrqHandlers := by
  rw [i8259NoIrqs, sizeofIrqHandlers] at *
  bv_omega

/-- **`isr_main`** for a line: the controllers are told first, then the handler is called. -/
theorem isrMain_eq (hs : s.Initialized) (hn : n < i8259NoIrqs)
    (hframe : frame.intNo = idtIrqBase + n.setWidth 32) :
    isrMain frame s =
      .ok { s with trace := s.trace ++ eoiEvents n ++ (s.irqHandlers n).calls } := by
  have hge : ¬ frame.intNo < idtIrqBase := by
    rw [hframe, idtIrqBase]
    bv_omega
  have hirq : (frame.intNo - idtIrqBase).setWidth 8 = n := by
    rw [hframe, add_sub_cancel_left]
    exact BitVec.setWidth_setWidth_of_le n (by omega) |>.trans (BitVec.setWidth_eq n)
  rw [isrMain, if_neg hge, hirq, interruptHandleIrq, i8259SendEoi_eq hs,
    decide_eq_true (lt_sizeofIrqHandlers hn), assert_true]
  simp only [bind, Except.bind, pure, Except.pure, irqHandlerExecute_eq]

/-- **`interrupts_register_irq`** writes the entry of the line, then enables the line. -/
theorem interruptsRegisterIrq_eq (hirq : irq < i8259NoIrqs) :
    interruptsRegisterIrq irq fn arg s = .ok
      { pics := Function.update s.pics (picOf irq)
          { s.pics (picOf irq) with imr := clearLine (s.pics (picOf irq)).imr (lineOf irq) }
        irqHandlers := Function.update s.irqHandlers irq ⟨fn, arg⟩
        trace := s.trace ++ [.setFn irq fn, .setArg irq arg] ++ enableEvents s.toPicState irq } := by
  rw [interruptsRegisterIrq, decide_eq_true (lt_sizeofIrqHandlers hirq), assert_true]
  simp only [bind, Except.bind, i8259EnableIrq_eq hirq, irqHandlerInit]
  rfl

/-- `interrupts_init` leaves no handlers. -/
theorem irqHandlers_interruptsInit (s : IrqState) (hn : n < i8259NoIrqs) :
    (interruptsInit s).irqHandlers n = ⟨null, null⟩ := by
  have hloop : ∀ k ≤ 16, ∀ n : Byte, n.toNat < k → ((List.range k).foldl
      (fun s i => irqHandlerInit (BitVec.ofNat 8 i) null null s) s).irqHandlers n =
        ⟨null, null⟩ := by
    intro k
    induction k with
    | zero => exact fun _ n hn => absurd hn (Nat.not_lt_zero _)
    | succ k ih =>
        intro hk n hn
        rw [List.range_succ, List.foldl_append, List.foldl_cons, List.foldl_nil,
          irqHandlers_irqHandlerInit]
        split
        · rfl
        · refine ih (by omega) n ?_
          bv_omega
  exact hloop 16 le_rfl n hn

/-- `interrupts_init` outputs nothing. -/
theorem trace_interruptsInit (s : IrqState) :
    ∃ events, (interruptsInit s).trace = s.trace ++ events ∧
      ∀ port byte, .out port byte ∉ events := by
  suffices hloop : ∀ l : List ℕ, ∃ events,
      (l.foldl (fun s i => irqHandlerInit (BitVec.ofNat 8 i) null null s) s).trace =
        s.trace ++ events ∧ ∀ port byte, .out port byte ∉ events from hloop _
  intro l
  induction l generalizing s with
  | nil => exact ⟨[], (List.append_nil _).symm, fun _ _ => List.not_mem_nil⟩
  | cons i l ih =>
      obtain ⟨events, htrace, hevents⟩ := ih (irqHandlerInit (BitVec.ofNat 8 i) null null s)
      refine ⟨[.setFn (BitVec.ofNat 8 i) null, .setArg (BitVec.ofNat 8 i) null] ++ events, ?_,
        fun port byte => ?_⟩
      · rw [List.foldl_cons, htrace]
        simp [irqHandlerInit]
      · simpa using hevents port byte

end Storm
