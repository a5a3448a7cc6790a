import Storm.Arch.IrqHistory

/-! # Accesses to the table of handlers

`interrupts.c` checks the number of a line against `sizeof(irq_handlers)`, which counts bytes, while
`i8259.c` checks it against the number of lines. Here the calls are run with the entries that they
read and write, and with the state in which they panic.

The main result, `rejects_out_of_range_iff`: the accesses stay inside of the table exactly when no
number between 16 and 127 occurs. -/

namespace Storm

open ByteMemory

/-- The static variables, and the indices of the entries of `irq_handlers` that have been read or
written, which may be behind the end of the array. -/
structure TableState extends IrqState where
  accesses : List Byte

/-- Code that may panic; it then leaves the state of the panic. -/
abbrev IrqM := EStateM String TableState Unit

namespace IrqM

/-- `assert`. -/
def check (condition : Bool) (text : String) : IrqM :=
  if condition then pure () else throw ("Assertion failed: " ++ text)

/-- An access to an entry of `irq_handlers`. -/
def access (irq : Byte) : IrqM := modify fun s => { s with accesses := s.accesses ++ [irq] }

/-- Code that cannot panic. -/
def run (f : IrqState → IrqState) : IrqM := modify fun s => { s with toIrqState := f s.toIrqState }

/-- A function of `i8259.c`, which can only panic before it does anything else. -/
def call (f : PicState → Except String PicState) : IrqM := fun s =>
  match f s.toPicState with
  | .ok pics => .ok () { s with toPicState := pics }
  | .error text => .error text s

/-- `interrupt_handle_irq`. -/
def interruptHandleIrq (irq : Byte) : IrqM := do
  -- the interrupt has been ended when the number is checked
  call fun pics => .ok (i8259SendEoi irq pics)
  check (irq.setWidth 32 < sizeofIrqHandlers) "irq < sizeof(irq_handlers)"
  access irq
  run (irqHandlerExecute irq)

/-- `isr_main`. -/
def isrMain (frame : InterruptStackFrame) : IrqM :=
  if frame.intNo < idtIrqBase then throw (interruptHandleCpuException frame)
  -- `interrupt_handle_irq` takes a `uint8_t`
  else interruptHandleIrq ((frame.intNo - idtIrqBase).setWidth 8)

/-- `interrupts_register_irq`. -/
def interruptsRegisterIrq (irq : Byte) (fn arg : Word) : IrqM := do
  check (irq.setWidth 32 < sizeofIrqHandlers) "irq < sizeof(irq_handlers)"
  access irq
  run (irqHandlerInit irq fn arg)
  -- only here the number is checked against that of the lines
  call (i8259EnableIrq irq)

end IrqM

namespace IrqCall

/-- Run a call with its accesses. -/
def runM : IrqCall → IrqM
  | .register irq fn arg => IrqM.interruptsRegisterIrq irq fn arg
  | .interrupt frame => IrqM.isrMain frame

/-- What a call returns or panics with, from a state without accesses. -/
def result (c : IrqCall) (s : IrqState) : EStateM.Result String TableState Unit :=
  c.runM ⟨s, []⟩

/-- The entries that a call accesses. -/
def accesses (c : IrqCall) (s : IrqState) : List Byte :=
  match c.result s with
  | .ok _ s' | .error _ s' => s'.accesses

/-- Numbers of lines are rejected before they touch anything: no access is behind the end of the
table, and a registration for a number that is not one of a line panics and changes nothing. As
nothing is output, the controllers keep their masks. -/
structure Rejects (c : IrqCall) (s : IrqState) : Prop where
  inside : ∀ irq ∈ c.accesses s, irq < i8259NoIrqs
  registration : ∀ irq fn arg, c = .register irq fn arg → i8259NoIrqs ≤ irq →
    ∃ text s', c.result s = .error text s' ∧ s'.irqHandlers = s.irqHandlers ∧ s'.pics = s.pics ∧
      s'.trace = s.trace

/-- A number that is that of a line, or is larger than the size of the table in bytes. -/
def Far (irq : Byte) : Prop := irq < i8259NoIrqs ∨ sizeofIrqHandlers ≤ irq.setWidth 32

/-- The calls that return. -/
def Returns : IrqCall → Prop
  | .register irq _ _ => irq < i8259NoIrqs
  | .interrupt frame => ¬ frame.intNo < idtIrqBase ∧
      ((frame.intNo - idtIrqBase).setWidth 8).setWidth 32 < sizeofIrqHandlers

/-- The number that a call is about is not behind the end of the table, counted in entries, and
below it, counted in bytes. -/
def NotBehind : IrqCall → Prop
  | .register irq _ _ => Far irq
  | .interrupt frame => frame.intNo < idtIrqBase ∨ Far ((frame.intNo - idtIrqBase).setWidth 8)

end IrqCall

variable {s : IrqState} {c : IrqCall} {irq : Byte} {fn arg : Word} {frame : InterruptStackFrame}

/-- A check that succeeds. -/
theorem IrqM.check_true (text : String) : check true text = pure () := rfl

/-- A check that fails. -/
theorem IrqM.check_false (text : String) :
    check false text = throw ("Assertion failed: " ++ text) := rfl

/-- **`interrupts_register_irq`** accesses the entry before `i8259_enable_irq` checks the number. -/
theorem result_register (s : IrqState) (irq : Byte) (fn arg : Word) :
    (IrqCall.register irq fn arg).result s =
      if irq.setWidth 32 < sizeofIrqHandlers then
        match i8259EnableIrq irq (irqHandlerInit irq fn arg s).toPicState with
        | .ok pics => .ok () ⟨{ irqHandlerInit irq fn arg s with toPicState := pics }, [irq]⟩
        | .error text => .error text ⟨irqHandlerInit irq fn arg s, [irq]⟩
      else .error "Assertion failed: irq < sizeof(irq_handlers)" ⟨s, []⟩ := by
  show IrqM.interruptsRegisterIrq irq fn arg ⟨s, []⟩ = _
  unfold IrqM.interruptsRegisterIrq
  by_cases hsize : irq.setWidth 32 < sizeofIrqHandlers
  · rw [if_pos hsize, decide_eq_true hsize, IrqM.check_true]
    rfl
  · rw [if_neg hsize, decide_eq_false hsize, IrqM.check_false]
    rfl

/-- **`isr_main`** accesses the entry after the check of its number. -/
theorem result_interrupt : (IrqCall.interrupt frame).result s =
    if frame.intNo < idtIrqBase then .error (interruptHandleCpuException frame) ⟨s, []⟩
    else
      let irq := (frame.intNo - idtIrqBase).setWidth 8
      let s := { s with toPicState := i8259SendEoi irq s.toPicState }
      if irq.setWidth 32 < sizeofIrqHandlers then .ok () ⟨irqHandlerExecute irq s, [irq]⟩
      else .error "Assertion failed: irq < sizeof(irq_handlers)" ⟨s, []⟩ := by
  show IrqM.isrMain frame ⟨s, []⟩ = _
  unfold IrqM.isrMain
  by_cases hexception : frame.intNo < idtIrqBase
  · rw [if_pos hexception, if_pos hexception]
    rfl
  · rw [if_neg hexception, if_neg hexception]
    unfold IrqM.interruptHandleIrq
    dsimp only
    by_cases hsize : ((frame.intNo - idtIrqBase).setWidth 8).setWidth 32 < sizeofIrqHandlers
    · rw [if_pos hsize, decide_eq_true hsize, IrqM.check_true]
      rfl
    · rw [if_neg hsize, decide_eq_false hsize, IrqM.check_false]
      rfl

/-- Apart from the state in which it panics, a call with its accesses is the call. -/
theorem exec_eq_result (c : IrqCall) (s : IrqState) : c.exec s =
    match c.result s with
    | .ok _ s' => .ok s'.toIrqState
    | .error text _ => .error text := by
  cases c with
  | register irq fn arg =>
      rw [result_register, IrqCall.exec, Storm.interruptsRegisterIrq]
      by_cases hsize : irq.setWidth 32 < sizeofIrqHandlers
      · rw [if_pos hsize, decide_eq_true hsize, assert_true]
        dsimp only [bind, Except.bind]
        cases i8259EnableIrq irq (irqHandlerInit irq fn arg s).toPicState <;> rfl
      · rw [if_neg hsize, decide_eq_false hsize]
        rfl
  | interrupt frame =>
      rw [result_interrupt, IrqCall.exec, Storm.isrMain]
      by_cases hexception : frame.intNo < idtIrqBase
      · rw [if_pos hexception, if_pos hexception]
      · rw [if_neg hexception, if_neg hexception, Storm.interruptHandleIrq]
        dsimp only
        by_cases hsize : ((frame.intNo - idtIrqBase).setWidth 8).setWidth 32 < sizeofIrqHandlers
        · rw [if_pos hsize, decide_eq_true hsize, assert_true]
          rfl
        · rw [if_neg hsize, decide_eq_false hsize]
          rfl

/-- A registration accesses its entry when it passes the check against the size in bytes. -/
theorem accesses_register : (IrqCall.register irq fn arg).accesses s =
    if irq.setWidth 32 < sizeofIrqHandlers then [irq] else [] := by
  rw [IrqCall.accesses, result_register]
  by_cases hsize : irq.setWidth 32 < sizeofIrqHandlers
  · rw [if_pos hsize, if_pos hsize]
    cases i8259EnableIrq irq (irqHandlerInit irq fn arg s).toPicState <;> rfl
  · rw [if_neg hsize, if_neg hsize]

/-- So does an interrupt that is not an exception. -/
theorem accesses_interrupt : (IrqCall.interrupt frame).accesses s =
    if frame.intNo < idtIrqBase then []
    else
      let irq := (frame.intNo - idtIrqBase).setWidth 8
      if irq.setWidth 32 < sizeofIrqHandlers then [irq] else [] := by
  rw [IrqCall.accesses, result_interrupt]
  by_cases hexception : frame.intNo < idtIrqBase
  · rw [if_pos hexception, if_pos hexception]
  · rw [if_neg hexception, if_neg hexception]
    dsimp only
    by_cases hsize : ((frame.intNo - idtIrqBase).setWidth 8).setWidth 32 < sizeofIrqHandlers
    · rw [if_pos hsize, if_pos hsize]
    · rw [if_neg hsize, if_neg hsize]

/-- **Where the two checks differ**: an entry that the first one admits is in the table exactly when
its number is not between them. -/
theorem inside_iff_far :
    (∀ n ∈ if irq.setWidth 32 < sizeofIrqHandlers then [irq] else [], n < i8259NoIrqs) ↔
      IrqCall.Far irq := by
  unfold IrqCall.Far
  by_cases hsize : irq.setWidth 32 < sizeofIrqHandlers
  · rw [if_pos hsize, or_iff_left (BitVec.not_le.mpr hsize)]
    simp
  · rw [if_neg hsize]
    exact iff_of_true (fun n hn => by cases hn) (Or.inr (BitVec.not_lt.mp hsize))

/-- A number that is not one of a line is rejected. -/
theorem i8259EnableIrq_of_le (hirq : i8259NoIrqs ≤ irq) (s : PicState) :
    i8259EnableIrq irq s = .error "Assertion failed: irq < I8259_NO_IRQS" := by
  rw [i8259EnableIrq, decide_eq_false (BitVec.not_lt.mpr hirq)]
  rfl

/-- **One call** accesses only the table, and rejects numbers of lines that do not exist, exactly
when its number is not behind the end of the table. -/
theorem rejects_iff : c.Rejects s ↔ c.NotBehind := by
  cases c with
  | register irq fn arg =>
      constructor
      · intro h
        have hinside := h.inside
        rw [accesses_register] at hinside
        exact inside_iff_far.mp hinside
      · intro hfar
        refine ⟨?_, fun n fn' arg' heq hn => ?_⟩
        · rw [accesses_register]
          exact inside_iff_far.mpr hfar
        · -- it is not the number of a line, so that the first check fails already
          obtain ⟨rfl, -, -⟩ := IrqCall.register.inj heq
          have hsize := hfar.resolve_left (BitVec.not_lt.mpr hn)
          have hresult := result_register s irq fn arg
          rw [if_neg (BitVec.not_lt.mpr hsize)] at hresult
          exact ⟨_, _, hresult, rfl, rfl, rfl⟩
  | interrupt frame =>
      have hinside : (∀ n ∈ (IrqCall.interrupt frame).accesses s, n < i8259NoIrqs) ↔
          (IrqCall.interrupt frame).NotBehind := by
        rw [accesses_interrupt, IrqCall.NotBehind]
        by_cases hexception : frame.intNo < idtIrqBase
        · rw [if_pos hexception]
          exact iff_of_true (fun n hn => by cases hn) (Or.inl hexception)
        · rw [if_neg hexception, or_iff_right hexception]
          exact inside_iff_far
      constructor
      · exact fun h => hinside.mp h.inside
      · exact fun hfar => ⟨hinside.mpr hfar, fun n fn arg heq => by cases heq⟩

/-- **Which calls return**, from whatever state. -/
theorem exec_eq_ok_iff (c : IrqCall) (s : IrqState) : (∃ s', c.exec s = .ok s') ↔ c.Returns := by
  rw [exec_eq_result]
  cases c with
  | register irq fn arg =>
      rw [result_register, IrqCall.Returns]
      by_cases hirq : irq < i8259NoIrqs
      · rw [if_pos (lt_sizeofIrqHandlers hirq), i8259EnableIrq_eq hirq]
        exact iff_of_true ⟨_, rfl⟩ hirq
      · refine iff_of_false ?_ hirq
        by_cases hsize : irq.setWidth 32 < sizeofIrqHandlers
        · rw [if_pos hsize, i8259EnableIrq_of_le (BitVec.not_lt.mp hirq)]
          simp
        · rw [if_neg hsize]
          simp
  | interrupt frame =>
      rw [result_interrupt, IrqCall.Returns]
      by_cases hexception : frame.intNo < idtIrqBase
      · rw [if_pos hexception]
        simp [hexception]
      · rw [if_neg hexception]
        dsimp only
        by_cases hsize : ((frame.intNo - idtIrqBase).setWidth 8).setWidth 32 < sizeofIrqHandlers
        · rw [if_pos hsize]
          exact iff_of_true ⟨_, rfl⟩ ⟨hexception, hsize⟩
        · rw [if_neg hsize]
          simp [hsize]

/-- A sequence of calls returns when each of them does. -/
theorem runIrqCalls_eq_ok_iff (calls : List IrqCall) (s : IrqState) :
    (∃ s', runIrqCalls calls s = .ok s') ↔ ∀ c ∈ calls, c.Returns := by
  induction calls generalizing s with
  | nil => exact iff_of_true ⟨s, rfl⟩ (by simp)
  | cons c calls ih =>
      rw [List.forall_mem_cons, ← exec_eq_ok_iff c s]
      cases hexec : c.exec s with
      | error text =>
          refine iff_of_false ?_ (by simp)
          rintro ⟨s', hs'⟩
          rw [runIrqCalls, List.foldlM_cons, hexec] at hs'
          cases hs'
      | ok s₁ =>
          -- whether the other calls return does not depend on the state that this one leaves
          have hrun : runIrqCalls (c :: calls) s = runIrqCalls calls s₁ := by
            rw [runIrqCalls, List.foldlM_cons, hexec]
            rfl
          rw [hrun, ih s₁]
          simp

/-- **Accesses to the table of handlers** stay inside of it, and numbers of lines that do not exist
are rejected, by every call of a sequence up to the first panic, exactly when none of these calls
has a number behind the end of the table. -/
theorem rejects_out_of_range_iff (s : IrqState) (calls : List IrqCall) :
    (∀ before c after s', calls = before ++ c :: after → runIrqCalls before s = .ok s' →
        c.Rejects s') ↔
      ∀ before c after, calls = before ++ c :: after → (∀ b ∈ before, b.Returns) →
        c.NotBehind := by
  constructor
  · intro h before c after hcalls hbefore
    obtain ⟨s', hrun⟩ := (runIrqCalls_eq_ok_iff before s).mpr hbefore
    exact rejects_iff.mp (h before c after s' hcalls hrun)
  · intro h before c after s' hcalls hrun
    have hbefore := (runIrqCalls_eq_ok_iff before s).mp ⟨s', hrun⟩
    exact rejects_iff.mpr (h before c after hcalls hbefore)

/-- **The entry behind the table is overwritten** by a registration for line 16, before the panic.
-/
theorem not_rejects_register :
    ¬ (IrqCall.register 16 0x100900 7).Rejects .initial ∧
      ∃ s', (IrqCall.register 16 0x100900 7).result .initial =
          .error "Assertion failed: irq < I8259_NO_IRQS" s' ∧
        s'.accesses = [16] ∧ s'.irqHandlers 16 = ⟨0x100900, 7⟩ := by
  refine ⟨fun h => ?_, _, rfl, rfl, rfl⟩
  exact absurd (rejects_iff.mp h) (by unfold IrqCall.NotBehind IrqCall.Far; decide)

end Storm
