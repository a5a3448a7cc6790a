import Storm.Arch.I8259Chips
import Storm.Arch.IrqHistory
import Storm.Library.Transition

/-! # Processor, controllers and handlers

One processor, the two interrupt controllers and the code of `interrupts.c`, step by step. The
controllers may interrupt between any two steps, as long as interrupts are enabled. The interrupt
gates disable them, so that `isr_main` runs undisturbed until it calls the handler of the line. The
handler may enable interrupts again, and is then interrupted itself.

The code that runs outside of handlers registers handlers. Here `interrupts_register_irq` is cut
into its stores (`RegisterStep`); `interruptsRegisterIrq_eq_steps` says that nothing is missing. -/

namespace Storm

open ByteMemory

/-- The arguments of a call of `interrupts_register_irq`. -/
structure Registration where
  irq : Byte
  fn : Word
  arg : Word
  deriving DecidableEq, Repr

/-- What `interrupts_register_irq` does behind its assertion, one store after the other. -/
inductive RegisterStep where
  /-- `handler->fn = fn`. -/
  | storeFn
  /-- `handler->arg = arg`. -/
  | storeArg
  /-- `pic->imr &= ~(1 << irq)`. -/
  | updateImr
  /-- `i8259_pic_update_imr(pic)`. -/
  | writeMask
  deriving DecidableEq, Repr

namespace RegisterStep

/-- One step of a registration. -/
def exec (r : Registration) (s : IrqState) : RegisterStep → IrqState
  | .storeFn => { s with
      irqHandlers := Function.update s.irqHandlers r.irq { s.irqHandlers r.irq with fn := r.fn }
      trace := s.trace ++ [.setFn r.irq r.fn] }
  | .storeArg => { s with
      irqHandlers := Function.update s.irqHandlers r.irq { s.irqHandlers r.irq with arg := r.arg }
      trace := s.trace ++ [.setArg r.irq r.arg] }
  | .updateImr =>
      let imr := clearLine (s.pics (picOf r.irq)).imr (lineOf r.irq)
      { s with toPicState := setImr (picOf r.irq) imr s.toPicState }
  | .writeMask => { s with toPicState := i8259PicUpdateImr (picOf r.irq) s.toPicState }

/-- The step that follows, if there is one. -/
def next : RegisterStep → Option RegisterStep
  | .storeFn => some .storeArg
  | .storeArg => some .updateImr
  | .updateImr => some .writeMask
  | .writeMask => none

end RegisterStep

/-- **The steps of a registration**, one after the other, are `interrupts_register_irq`. -/
theorem interruptsRegisterIrq_eq_steps {r : Registration} (hirq : r.irq < i8259NoIrqs)
    (s : IrqState) :
    interruptsRegisterIrq r.irq r.fn r.arg s =
      .ok ([.storeFn, .storeArg, .updateImr, .writeMask].foldl (RegisterStep.exec r) s) := by
  rw [interruptsRegisterIrq_eq hirq]
  simp [RegisterStep.exec, setImr, i8259PicUpdateImr, i8259PicWriteData, ioWriteByte, enableEvents]

/-- What the controllers may deliver. -/
inductive Delivery where
  /-- An interrupt of a line. -/
  | line (n : Byte)
  /-- A spurious interrupt of the master. It comes as line 7. -/
  | spuriousMaster
  /-- A spurious interrupt of the slave. It comes as line 15. -/
  | spuriousSlave
  deriving DecidableEq, Repr

namespace Delivery

/-- The line that the processor sees. -/
def number : Delivery → Byte
  | .line n => n
  | .spuriousMaster => 7
  | .spuriousSlave => 15

/-- There are 16 lines. -/
def Valid (d : Delivery) : Prop := d.number < i8259NoIrqs

instance (d : Delivery) : Decidable d.Valid := inferInstanceAs (Decidable (_ < _))

/-- The processor acknowledges a line of a controller. -/
def acknowledgeAt (pic : Pic) (line : ℕ) (chips : Chips) : Chips :=
  Function.update chips pic ((chips pic).acknowledge line)

/-- The controllers when the interrupt is delivered. Line 2 of the master is in service for all
lines of the slave, also when the slave has nothing to deliver any more. -/
def acknowledge (chips : Chips) : Delivery → Chips
  | .line n =>
      let chips := if 8 ≤ n then acknowledgeAt .master i8259SlaveIrq.toNat chips else chips
      acknowledgeAt (picOf n) (lineOf n).toNat chips
  | .spuriousMaster => chips
  | .spuriousSlave => acknowledgeAt .master i8259SlaveIrq.toNat chips

/-- The vector, which comes from the controller of the line. -/
def vector (d : Delivery) (chips : Chips) : Byte :=
  (chips (picOf d.number)).vector (lineOf d.number).toNat

/-- An interrupt of a line that no mask masks. -/
def Unmasked (chips : Chips) : Delivery → Prop
  | .line n => (chips (picOf n)).imr.getLsbD (lineOf n).toNat = false
  | .spuriousMaster | .spuriousSlave => False

end Delivery

/-- Whether an event is the call of a handler. -/
def IrqEvent.isCall : IrqEvent → Bool
  | .call .. => true
  | .out .. | .setImr .. | .setFn .. | .setArg .. => false

/-- The processor, the controllers and the static variables. -/
structure IrqSystem where
  /-- The static variables, and the history. -/
  irq : IrqState
  chips : Chips
  /-- Whether interrupts are enabled. -/
  interrupts : Bool
  /-- The number of handlers that have been called and have not returned. -/
  handlers : ℕ
  /-- The registration that is under way, and its next step. -/
  pending : Option (Registration × RegisterStep)
  /-- The registrations that are complete. -/
  registered : List Registration

/-- What may happen next. -/
inductive IrqAction where
  /-- A call of `interrupts_register_irq`. -/
  | register (r : Registration)
  /-- The next step of the registration that is under way. -/
  | advance
  /-- An interrupt is delivered, and `isr_main(frame)` runs. -/
  | deliver (d : Delivery) (frame : InterruptStackFrame)
  /-- A handler returns, and so does the `isr_main` that has called it. -/
  | handlerReturns
  /-- The running code enables or disables interrupts. -/
  | setInterrupts (enabled : Bool)
  deriving DecidableEq, Repr

namespace IrqSystem

/-- What one state adds to the history of another. -/
def newEvents (s s' : IrqSystem) : List IrqEvent := s'.irq.trace.drop s.irq.trace.length

/-- The code has changed the static variables; the controllers see what it has output. -/
def advanceTo (irq : IrqState) (s : IrqSystem) : IrqSystem :=
  { s with irq, chips := chipsAfter s.chips (irq.trace.drop s.irq.trace.length) }

/-- `isr_main` has been called. When it calls a handler, interrupts are still disabled; otherwise it
returns at once, to code with interrupts enabled. -/
def interrupted (irq : IrqState) (s : IrqSystem) : IrqSystem :=
  if (irq.trace.drop s.irq.trace.length).any IrqEvent.isCall then
    { s.advanceTo irq with interrupts := false, handlers := s.handlers + 1 }
  else s.advanceTo irq

/-- Perform an action, if it is possible. -/
def exec (s : IrqSystem) : IrqAction → Option IrqSystem
  | .register r =>
      -- handlers run to their end before the code that they interrupt goes on
      if r.irq < i8259NoIrqs ∧ s.handlers = 0 ∧ s.pending = none then
        some { s with pending := some (r, .storeFn) }
      else none
  | .advance =>
      match s.pending with
      | some (r, step) =>
          if s.handlers = 0 then
            some { s.advanceTo (step.exec r s.irq) with
              pending := step.next.map fun step => (r, step)
              registered := s.registered ++ if step.next = none then [r] else [] }
          else none
      | none => none
  | .deliver d frame =>
      -- the processor takes the vector from the controller
      if s.interrupts ∧ d.Valid ∧ frame.intNo = (d.vector s.chips).setWidth 32 then
        match isrMain frame s.irq with
        | .ok irq => some ({ s with chips := d.acknowledge s.chips }.interrupted irq)
        | .error _ => none
      else none
  | .handlerReturns =>
      -- `iret` takes back the flags of the interrupted code
      if 0 < s.handlers then some { s with interrupts := true, handlers := s.handlers - 1 }
      else none
  | .setInterrupts enabled =>
      -- a registration does not change the flags
      if 0 < s.handlers ∨ s.pending = none then some { s with interrupts := enabled } else none

/-- The steps of the system. -/
def Step (s : IrqSystem) (a : IrqAction) (s' : IrqSystem) : Prop := s.exec a = some s'

/-- The state after `irqBoot`, with interrupts disabled. -/
def boot (irq : IrqState) (chips : Chips) : Except String IrqSystem := do
  let irq' ← irqBoot irq
  return {
    irq := irq'
    chips := chipsAfter chips (irq'.trace.drop irq.trace.length)
    interrupts := false
    handlers := 0
    pending := none
    registered := [] }

/-- What every state of a run satisfies. -/
structure Ready (s : IrqSystem) : Prop where
  /-- The code knows the ports of the controllers. -/
  wired : s.irq.Wired
  /-- The controllers have been programmed. -/
  programmed : Programmed s.chips

end IrqSystem

/-! ## Registrations -/

/-- The controllers see nothing but outputs. -/
theorem chipsAfter_of_notMem {chips : Chips} {events : List IrqEvent}
    (h : ∀ port byte, .out port byte ∉ events) : chipsAfter chips events = chips := by
  induction events with
  | nil => rfl
  | cons e events ih =>
      have htail := ih fun port byte hmem => h port byte (List.mem_cons_of_mem e hmem)
      cases e with
      | out port byte => exact absurd (List.mem_cons_self ..) (h port byte)
      | setImr | setFn | setArg | call => exact htail

variable {chips : Chips} {r : Registration} {irq irq' : IrqState}

/-- The controller of a line has its mask from the software. -/
def maskWritten (r : Registration) (irq : IrqState) (chips : Chips) : Chips :=
  Function.update chips (picOf r.irq)
    { chips (picOf r.irq) with imr := (irq.pics (picOf r.irq)).imr }

/-- The lines in service stay the same. -/
theorem isr_maskWritten (pic : Pic) : (maskWritten r irq chips pic).isr = (chips pic).isr := by
  unfold maskWritten
  by_cases h : pic = picOf r.irq
  · subst h
    rw [Function.update_self]
  · rw [Function.update_of_ne h]

/-- **One step of a registration**: only the last one is seen by the controllers. -/
theorem RegisterStep.exec_spec (step : RegisterStep) (hirq : irq.Wired)
    (hchips : Programmed chips) :
    ∃ events, (step.exec r irq).trace = irq.trace ++ events ∧ (step.exec r irq).Wired ∧
      chipsAfter chips events = if step = .writeMask then maskWritten r irq chips else chips := by
  cases step with
  | storeFn => exact ⟨_, rfl, hirq, rfl⟩
  | storeArg => exact ⟨_, rfl, hirq, rfl⟩
  | updateImr =>
      refine ⟨_, rfl, fun pic => ?_, rfl⟩
      by_cases h : pic = picOf r.irq
      · subst h
        simpa [exec, setImr] using hirq (picOf r.irq)
      · simpa [exec, setImr, h] using hirq pic
  | writeMask =>
      refine ⟨_, rfl, hirq, ?_⟩
      rw [(hirq (picOf r.irq)).2, if_pos rfl]
      exact chipsAfter_updateMask (hchips.ready (picOf r.irq))

/-! ## Deliveries -/

/-- Calls of handlers are nothing that the controllers see. -/
theorem chipsAfter_calls (handler : IrqHandler) : chipsAfter chips handler.calls = chips := by
  refine chipsAfter_of_notMem fun port byte => ?_
  unfold IrqHandler.calls
  split <;> simp

/-- To acknowledge an interrupt only changes which lines are in service. -/
theorem Delivery.acknowledgeAt_apply (chips : Chips) (pic pic' : Pic) (line : ℕ) :
    ∃ isr, acknowledgeAt pic line chips pic' = { chips pic' with isr } := by
  unfold acknowledgeAt
  by_cases h : pic' = pic
  · subst h
    rw [Function.update_self]
    exact ⟨_, rfl⟩
  · rw [Function.update_of_ne h]
    exact ⟨(chips pic').isr, rfl⟩

/-- So does a delivery. -/
theorem Delivery.acknowledge_apply (d : Delivery) (chips : Chips) (pic : Pic) :
    ∃ isr, d.acknowledge chips pic = { chips pic with isr } := by
  cases d with
  | line n =>
      unfold Delivery.acknowledge
      dsimp only
      split
      -- a line of the slave is acknowledged twice
      · obtain ⟨isr, hisr⟩ := acknowledgeAt_apply chips .master pic i8259SlaveIrq.toNat
        obtain ⟨isr', hisr'⟩ := acknowledgeAt_apply
          (acknowledgeAt .master i8259SlaveIrq.toNat chips) (picOf n) pic (lineOf n).toNat
        exact ⟨isr', by rw [hisr', hisr]⟩
      · exact acknowledgeAt_apply chips (picOf n) pic (lineOf n).toNat
  | spuriousMaster => exact ⟨(chips pic).isr, rfl⟩
  | spuriousSlave => exact acknowledgeAt_apply chips .master pic i8259SlaveIrq.toNat

/-- The calls among the events of `isr_main` are those of the handler. -/
theorem call_mem_isrMain {fn arg : Word} {n : Byte} {handler : IrqHandler} :
    .call fn arg ∈ eoiEvents n ++ handler.calls ↔ handler.fn ≠ null ∧ handler = ⟨fn, arg⟩ := by
  have heoi : .call fn arg ∉ eoiEvents n := by
    unfold eoiEvents
    split <;> simp
  obtain ⟨fn', arg'⟩ := handler
  rw [List.mem_append, or_iff_right heoi, IrqHandler.calls]
  by_cases h : fn' = null
  · simp [h]
  · simp [h, eq_comm]

/-- The vector of a line in the table of the processor. -/
theorem Delivery.vector_eq {d : Delivery} (h : Programmed chips) (hd : d.Valid) :
    (d.vector chips).setWidth 32 = idtIrqBase + d.number.setWidth 32 := by
  have hline := toNat_lineOf_lt hd
  obtain ⟨hmaster, hslave⟩ := h.vectors
  have hd' : d.number < 16 := hd
  simp only [InterruptController.Chip.vector, BitVec.ofNat_eq_ofNat, BitVec.add_zero]
    at hmaster hslave
  rw [Delivery.vector, InterruptController.Chip.vector, idtIrqBase, BitVec.ofNat_toNat]
  by_cases h8 : 8 ≤ d.number
  · rw [picOf, lineOf, if_pos h8, if_pos h8, hslave]
    bv_omega
  · rw [picOf, lineOf, if_neg h8, if_neg h8, hmaster]
    bv_omega

namespace IrqSystem

variable {s s' : IrqSystem} {a : IrqAction} {d : Delivery} {frame : InterruptStackFrame}

/-- **The initialization** makes the system ready. No handler is registered, only the line of the
slave is not masked, and the lines in service stay the same. -/
theorem boot_eq_ok (irq : IrqState) (chips : Chips) : ∃ s, boot irq chips = .ok s ∧ s.Ready ∧
    (∀ pic, (s.chips pic).isr = (chips pic).isr ∧ (s.chips pic).imr = (s.irq.pics pic).imr) ∧
    (∀ n < i8259NoIrqs, s.irq.irqHandlers n = ⟨null, null⟩ ∧
      ((s.chips (picOf n)).imr.getLsbD (lineOf n).toNat = false ↔ n = i8259SlaveIrq)) ∧
    s.pending = none ∧ s.registered = [] := by
  obtain ⟨events, htrace, hout⟩ := trace_interruptsInit irq
  obtain ⟨pics, events', hinit, htrace', hwired, hagree⟩ :=
    i8259Init_picsAgree (interruptsInit irq).toPicState chips
  -- the controllers see what `i8259_init` outputs; `interrupts_init` only clears the table
  have hnew : pics.trace.drop irq.trace.length = events ++ events' := by
    rw [htrace', htrace, List.append_assoc, List.drop_left]
  have hboot : boot irq chips = .ok
      { irq := { interruptsInit irq with toPicState := pics }
        chips := chipsAfter chips events'
        interrupts := false
        handlers := 0
        pending := none
        registered := [] } := by
    simp only [boot, irqBoot, hinit, bind, Except.bind, pure, Except.pure, hnew, chipsAfter_append,
      chipsAfter_of_notMem hout]
  refine ⟨_, hboot, ⟨hwired, hagree.programmed⟩, fun pic =>
    ⟨isr_i8259Init hinit htrace', hagree.mask pic⟩,
    fun n hn => ⟨irqHandlers_interruptsInit irq hn, ?_⟩, rfl, rfl⟩
  rw [hagree.lines n hn]
  simp [Enabled]

/-- A step of a registration. -/
theorem step_advance (hstep : Step s .advance s') : ∃ r step, s.pending = some (r, step) ∧
    s' = { s.advanceTo (step.exec r s.irq) with
      pending := step.next.map fun step => (r, step)
      registered := s.registered ++ if step.next = none then [r] else [] } := by
  unfold Step exec at hstep
  dsimp only at hstep
  split at hstep
  next r step hpending =>
    split at hstep
    · exact ⟨r, step, hpending, (Option.some.inj hstep).symm⟩
    · cases hstep
  next => cases hstep

/-- A registration begins. -/
theorem step_register (hstep : Step s (.register r) s') : r.irq < i8259NoIrqs ∧ s.pending = none ∧
    s' = { s with pending := some (r, .storeFn) } := by
  unfold Step exec at hstep
  dsimp only at hstep
  split at hstep
  next hguard => exact ⟨hguard.1, hguard.2.2, (Option.some.inj hstep).symm⟩
  next => cases hstep

/-- An interrupt is delivered. -/
theorem step_deliver (hstep : Step s (.deliver d frame) s') :
    d.Valid ∧ frame.intNo = (d.vector s.chips).setWidth 32 ∧
      ∃ irq, isrMain frame s.irq = .ok irq ∧
        s' = { s with chips := d.acknowledge s.chips }.interrupted irq := by
  unfold Step exec at hstep
  dsimp only at hstep
  split at hstep
  next hguard =>
    split at hstep
    next irq hirq => exact ⟨hguard.2.1, hguard.2.2, irq, hirq, (Option.some.inj hstep).symm⟩
    next => cases hstep
  next => cases hstep

/-- A handler that returns, and code that enables or disables interrupts, change only the
processor. -/
theorem step_processor (hstep : Step s a s')
    (ha : a = .handlerReturns ∨ ∃ enabled, a = .setInterrupts enabled) :
    ∃ interrupts handlers, s' = { s with interrupts, handlers } := by
  unfold Step at hstep
  obtain rfl | ⟨enabled, rfl⟩ := ha
  · rw [exec] at hstep
    split at hstep
    · exact ⟨_, _, (Option.some.inj hstep).symm⟩
    · cases hstep
  · rw [exec] at hstep
    split at hstep
    · exact ⟨_, _, (Option.some.inj hstep).symm⟩
    · cases hstep

/-- **A delivery**: `isr_main` acknowledges the interrupt, then calls the handler of the line, if
there is one. -/
theorem Ready.deliver (h : s.Ready) (hstep : Step s (.deliver d frame) s') :
    d.Valid ∧ s.newEvents s' = eoiEvents d.number ++ (s.irq.irqHandlers d.number).calls ∧
      s'.irq = { s.irq with
        trace := s.irq.trace ++ eoiEvents d.number ++ (s.irq.irqHandlers d.number).calls } ∧
      s'.chips = chipsAfter (d.acknowledge s.chips) (eoiEvents d.number) := by
  obtain ⟨hd, hframe, irq, hirq, rfl⟩ := step_deliver hstep
  -- the vector is that of the line, so that `isr_main` does not panic
  rw [Delivery.vector_eq h.programmed hd] at hframe
  rw [isrMain_eq (fun pic => (h.wired pic).1) hd hframe] at hirq
  obtain rfl := Except.ok.inj hirq
  have hchips : chipsAfter (d.acknowledge s.chips)
      (eoiEvents d.number ++ (s.irq.irqHandlers d.number).calls) =
        chipsAfter (d.acknowledge s.chips) (eoiEvents d.number) := by
    rw [chipsAfter_append, chipsAfter_calls]
  -- whether a handler has been called makes no difference here
  unfold interrupted
  split <;> simp [newEvents, advanceTo, hd, hchips]

/-- All that a delivery changes in the controllers is which lines are in service. -/
theorem Ready.deliver_chips (h : s.Ready) (hstep : Step s (.deliver d frame) s') (pic : Pic) :
    ∃ isr, s'.chips pic = { s.chips pic with isr } := by
  obtain ⟨isr, hisr⟩ := d.acknowledge_apply s.chips pic
  obtain ⟨isr', hisr'⟩ := chipsAfter_eoiEvents (d.acknowledge s.chips) d.number pic
  exact ⟨isr', by rw [(h.deliver hstep).2.2.2, hisr', hisr]⟩

/-- The controllers after a step of a registration. -/
theorem Ready.advanceTo_chips (h : s.Ready) (r : Registration) (step : RegisterStep) :
    (s.advanceTo (step.exec r s.irq)).chips =
      if step = .writeMask then maskWritten r s.irq s.chips else s.chips := by
  obtain ⟨events, htrace, -, hchips⟩ := step.exec_spec (r := r) h.wired h.programmed
  rw [advanceTo, htrace, List.drop_left]
  exact hchips

/-- What is neither a delivery nor a step of a registration leaves the static variables and the
controllers alone. -/
theorem Step.unchanged (hstep : Step s a s') (hadvance : a ≠ .advance)
    (hdeliver : ∀ d frame, a ≠ .deliver d frame) : s'.irq = s.irq ∧ s'.chips = s.chips := by
  cases a with
  | advance => exact absurd rfl hadvance
  | deliver d frame => exact absurd rfl (hdeliver d frame)
  | register r =>
      obtain ⟨-, -, rfl⟩ := step_register hstep
      exact ⟨rfl, rfl⟩
  | handlerReturns | setInterrupts =>
      obtain ⟨interrupts, handlers, rfl⟩ := step_processor hstep (by simp)
      exact ⟨rfl, rfl⟩

/-- The registrations change only when one begins and by its steps. -/
theorem Step.registrations (hstep : Step s a s') (hadvance : a ≠ .advance)
    (hregister : ∀ r, a ≠ .register r) : s'.pending = s.pending ∧ s'.registered = s.registered := by
  cases a with
  | advance => exact absurd rfl hadvance
  | register r => exact absurd rfl (hregister r)
  | deliver d frame =>
      obtain ⟨-, -, irq, -, rfl⟩ := step_deliver hstep
      unfold interrupted
      split <;> exact ⟨rfl, rfl⟩
  | handlerReturns | setInterrupts =>
      obtain ⟨interrupts, handlers, rfl⟩ := step_processor hstep (by simp)
      exact ⟨rfl, rfl⟩

/-- **The system stays ready.** -/
theorem Ready.step (h : s.Ready) (hstep : Step s a s') : s'.Ready := by
  cases a with
  | advance =>
      obtain ⟨r, step, -, rfl⟩ := step_advance hstep
      obtain ⟨events, -, hwired, -⟩ := step.exec_spec (r := r) h.wired h.programmed
      refine ⟨hwired, ?_⟩
      rw [h.advanceTo_chips]
      split
      · exact h.programmed.updateMask
      · exact h.programmed
  | deliver d frame =>
      constructor
      · rw [(h.deliver hstep).2.2.1]
        exact h.wired
      · exact h.programmed.congr (h.deliver_chips hstep)
  | register | handlerReturns | setInterrupts =>
      obtain ⟨hirq, hchips⟩ := hstep.unchanged (by simp) (by simp)
      exact ⟨by rw [hirq]; exact h.wired, by rw [hchips]; exact h.programmed⟩

/-- Controllers after a reset. -/
def resetChips : Chips := fun _ => ⟨[], 0, 0, 0, 0, 0⟩

/-- The system after the initialization, from static variables that are zero. -/
def booted : Except String IrqSystem := boot .initial resetChips

/-- A frame with the number of an interrupt. -/
def frameOf (intNo : Word) : InterruptStackFrame := ⟨⟨0, 0, 0, 0, 0, 0, 0, 0⟩, intNo, 0, 0, 0, 0⟩

end IrqSystem

end Storm
