import Storm.Arch.Interrupts

/-! # Interrupts and the history of registrations

Runs of calls of `interrupts_register_irq` and `isr_main` after `interrupts_init` and `i8259_init`.
The main result, `irq_dispatch`, says that no call panics, and relates the state after any number of
calls to the registrations among them (`IrqDispatch`). -/

namespace Storm

open ByteMemory

/-- The calls from outside. -/
inductive IrqCall where
  /-- `interrupts_register_irq(irq, fn, arg)`. -/
  | register (irq : Byte) (fn arg : Word)
  /-- `isr_main(frame)`. -/
  | interrupt (frame : InterruptStackFrame)
  deriving DecidableEq, Repr

namespace IrqCall

/-- The lines have numbers below 16, and their vectors follow the base. -/
def Valid : IrqCall → Prop
  | .register irq _ _ => irq < i8259NoIrqs
  | .interrupt frame => ∃ n : Byte, n < i8259NoIrqs ∧ frame.intNo = idtIrqBase + n.setWidth 32

/-- Run a call. -/
def exec (s : IrqState) : IrqCall → Except String IrqState
  | .register irq fn arg => interruptsRegisterIrq irq fn arg s
  | .interrupt frame => isrMain frame s

/-- The handler that a call registers for a line. -/
def registers (n : Byte) : IrqCall → Option IrqHandler
  | .register irq fn arg => if irq = n then some ⟨fn, arg⟩ else none
  | .interrupt _ => none

end IrqCall

/-- `interrupts_init` and `i8259_init`, in the order of `start_kernel`. -/
def irqBoot (s : IrqState) : Except String IrqState := do
  let s := interruptsInit s
  let pics ← i8259Init s.toPicState
  return { s with toPicState := pics }

/-- Run calls one after the other. -/
def runIrqCalls (calls : List IrqCall) (s : IrqState) : Except String IrqState :=
  calls.foldlM IrqCall.exec s

/-- The most recent registration for a line. -/
def lastRegistered (n : Byte) (calls : List IrqCall) : Option IrqHandler :=
  (calls.filterMap (IrqCall.registers n)).getLast?

/-- The entry of a line has been written. -/
def EntryWritten (n : Byte) (trace : List IrqEvent) : Prop :=
  (∃ fn, .setFn n fn ∈ trace) ∧ ∃ arg, .setArg n arg ∈ trace

/-- Whenever a mask is assigned that does not mask a line, the entry of the line has been written
before. Line 2 has no handler of its own. -/
def UnmasksAfterEntry (trace : List IrqEvent) : Prop :=
  ∀ before pic imr after, trace = before ++ .setImr pic imr :: after →
    ∀ n, Unmasks pic imr n → n = i8259SlaveIrq ∨ EntryWritten n before

/-- What is the case in the state `s` that these calls lead to from the state `b`. -/
structure IrqDispatch (b : IrqState) (calls : List IrqCall) (s : IrqState) : Prop where
  /-- The entry of each line is its most recent registration. -/
  entry : ∀ n < i8259NoIrqs, s.irqHandlers n = (lastRegistered n calls).getD ⟨null, null⟩
  /-- The unmasked lines are line 2 and the registered ones. -/
  unmasked : ∀ n, s.Unmasked n ↔ n = i8259SlaveIrq ∨ lastRegistered n calls ≠ none
  /-- No line was unmasked before its entry was written. -/
  order : ∃ trace, s.trace = b.trace ++ trace ∧ UnmasksAfterEntry trace
  /-- The next interrupt of a line changes nothing but the history: it sends an end of interrupt to
  the slave, for the upper eight lines, then one to the master, then calls the function of the most
  recent registration with its argument, if there is one and it is not null. -/
  interrupt : ∀ n < i8259NoIrqs, ∀ frame : InterruptStackFrame,
    frame.intNo = idtIrqBase + n.setWidth 32 →
    isrMain frame s = .ok { s with
      trace := s.trace ++ ((if 8 ≤ n then [.out 0xA0 0x20] else []) ++ [.out 0x20 0x20]) ++
        match lastRegistered n calls with
        | none => []
        | some ⟨fn, arg⟩ => if fn = null then [] else [.call fn arg] }
  /-- The next registration changes the entry of no other line. -/
  register : ∀ irq < i8259NoIrqs, ∀ fn arg, ∃ s', interruptsRegisterIrq irq fn arg s = .ok s' ∧
    ∀ n ≠ irq, s'.irqHandlers n = s.irqHandlers n

/-- The invariant of a run: `IrqDispatch` without what it says about the next call. -/
structure IrqInvariant (b : IrqState) (calls : List IrqCall) (s : IrqState) : Prop where
  initialized : s.Initialized
  entry : ∀ n < i8259NoIrqs, s.irqHandlers n = (lastRegistered n calls).getD ⟨null, null⟩
  unmasked : ∀ n, s.Unmasked n ↔ n = i8259SlaveIrq ∨ lastRegistered n calls ≠ none
  order : ∃ trace, s.trace = b.trace ++ trace ∧ UnmasksAfterEntry trace ∧
    ∀ n, lastRegistered n calls ≠ none → EntryWritten n trace

section Lemmas

variable {b s s' : IrqState} {calls : List IrqCall} {c : IrqCall} {n irq : Byte} {fn arg : Word}
  {trace events : List IrqEvent}

/-- One more call: its registration, if it is one for the line, is the most recent one. -/
theorem lastRegistered_append_singleton : lastRegistered n (calls ++ [c]) =
    (c.registers n).or (lastRegistered n calls) := by
  rw [lastRegistered, List.filterMap_append, List.getLast?_append]
  cases h : c.registers n <;> simp [h, lastRegistered]

/-- An entry stays written. -/
theorem EntryWritten.append (h : EntryWritten n trace) (events : List IrqEvent) :
    EntryWritten n (trace ++ events) := by
  obtain ⟨⟨fn, hfn⟩, arg, harg⟩ := h
  exact ⟨⟨fn, List.mem_append_left _ hfn⟩, arg, List.mem_append_left _ harg⟩

/-- The order holds of a longer history when it holds of the new events. -/
theorem UnmasksAfterEntry.append (h : UnmasksAfterEntry trace)
    (hnew : ∀ before pic imr after, events = before ++ .setImr pic imr :: after →
      ∀ n, Unmasks pic imr n → n = i8259SlaveIrq ∨ EntryWritten n (trace ++ before)) :
    UnmasksAfterEntry (trace ++ events) := by
  intro before pic imr after heq n hn
  -- the mask is assigned among the new events, or before
  rcases List.append_eq_append_iff.mp heq with ⟨l, rfl, hl⟩ | ⟨l, rfl, hl⟩
  · exact hnew l pic imr after hl n hn
  · cases l with
    | nil => exact (hnew [] pic imr after hl.symm n hn).imp_right fun h => by simpa using h
    | cons e l =>
        obtain ⟨rfl, rfl⟩ := List.cons.inj hl
        exact h before pic imr l rfl n hn

/-- The order holds as long as no mask is assigned. -/
theorem UnmasksAfterEntry.append_of_notMem (h : UnmasksAfterEntry trace) (events : List IrqEvent)
    (hnew : ∀ pic imr, .setImr pic imr ∉ events) : UnmasksAfterEntry (trace ++ events) :=
  h.append fun before pic imr after heq => absurd (by rw [heq]; simp) (hnew pic imr)

/-- A mask may be assigned that only unmasks lines whose entry has been written. -/
theorem UnmasksAfterEntry.setImr (h : UnmasksAfterEntry trace) (pic : Pic) (imr : Byte)
    (hmask : ∀ n, Unmasks pic imr n → n = i8259SlaveIrq ∨ EntryWritten n trace) :
    UnmasksAfterEntry (trace ++ [.setImr pic imr]) := by
  refine h.append fun before pic' imr' after heq n hn => ?_
  cases before with
  | nil =>
      obtain ⟨hevent, -⟩ := List.cons.inj heq
      obtain ⟨rfl, rfl⟩ := IrqEvent.setImr.inj hevent
      rw [List.append_nil]
      exact hmask n hn
  | cons e before => simp at heq

/-- **After the initialization** nothing is registered. -/
theorem irqBoot_eq_ok (s : IrqState) : ∃ b, irqBoot s = .ok b ∧ IrqInvariant b [] b := by
  obtain ⟨pics, hinit, hports, hunmasked⟩ := i8259Init_eq_ok (interruptsInit s).toPicState
  refine ⟨{ interruptsInit s with toPicState := pics }, ?_, hports, ?_, ?_, [], ?_, ?_, ?_⟩
  · rw [irqBoot, hinit]
    rfl
  · exact fun n hn => irqHandlers_interruptsInit s hn
  · exact fun n => (hunmasked n).trans ⟨Or.inl, fun h => h.resolve_right fun h' => h' rfl⟩
  · exact (List.append_nil _).symm
  · intro before pic imr after h
    simp at h
  · exact fun n h => absurd rfl h

/-- **A registration** keeps the invariant. -/
theorem IrqInvariant.register (h : IrqInvariant b calls s) (hirq : irq < i8259NoIrqs)
    (hexec : interruptsRegisterIrq irq fn arg s = .ok s') :
    IrqInvariant b (calls ++ [.register irq fn arg]) s' := by
  obtain rfl := Except.ok.inj ((interruptsRegisterIrq_eq hirq).symm.trans hexec)
  have hlast : ∀ n, lastRegistered n (calls ++ [.register irq fn arg]) =
      if irq = n then some ⟨fn, arg⟩ else lastRegistered n calls := by
    intro n
    rw [lastRegistered_append_singleton, IrqCall.registers]
    split <;> rfl
  obtain ⟨trace, htrace, horder, hwritten⟩ := h.order
  have hentry : EntryWritten irq (trace ++ [.setFn irq fn, .setArg irq arg]) :=
    ⟨⟨fn, by simp⟩, arg, by simp⟩
  refine ⟨h.initialized.enable, fun n hn => ?_, fun n => ?_,
    trace ++ [.setFn irq fn, .setArg irq arg] ++ enableEvents s.toPicState irq, ?_, ?_, ?_⟩
  · rw [hlast]
    by_cases heq : irq = n
    · subst heq
      simp
    · simp [heq, Ne.symm heq, h.entry n hn]
  · rw [hlast]
    refine (unmasked_enable hirq).trans ?_
    rw [h.unmasked n]
    by_cases heq : irq = n
    · simp [heq]
    · simp [heq, Ne.symm heq]
  · rw [htrace, List.append_assoc, List.append_assoc, List.append_assoc]
  · have hmask := (horder.append_of_notMem [.setFn irq fn, .setArg irq arg] (by simp)).setImr
      (picOf irq) (clearLine (s.pics (picOf irq)).imr (lineOf irq)) fun n hn => ?_
    · have hout := hmask.append_of_notMem [.out (s.pics (picOf irq)).dataPort
        (clearLine (s.pics (picOf irq)).imr (lineOf irq))] (by simp)
      rwa [List.append_assoc] at hout
    -- the line itself, whose entry has just been written, or one that was not masked before
    rcases (unmasks_clearLine hirq).mp hn with rfl | hn
    · exact Or.inr hentry
    · have hs : s.Unmasked n := by
        rw [PicState.Unmasked, hn.2.1]
        exact hn
      exact ((h.unmasked n).mp hs).imp_right fun hreg => (hwritten n hreg).append _
  · intro n hn
    rw [hlast] at hn
    by_cases heq : irq = n
    · subst heq
      exact hentry.append _
    · rw [if_neg heq] at hn
      exact ((hwritten n hn).append _).append _

/-- **An interrupt** keeps the invariant. -/
theorem IrqInvariant.interrupt {frame : InterruptStackFrame} (h : IrqInvariant b calls s)
    (hn : n < i8259NoIrqs) (hframe : frame.intNo = idtIrqBase + n.setWidth 32)
    (hexec : isrMain frame s = .ok s') : IrqInvariant b (calls ++ [.interrupt frame]) s' := by
  obtain rfl := Except.ok.inj ((isrMain_eq h.initialized hn hframe).symm.trans hexec)
  have hlast : ∀ n, lastRegistered n (calls ++ [.interrupt frame]) = lastRegistered n calls :=
    fun n => lastRegistered_append_singleton
  obtain ⟨trace, htrace, horder, hwritten⟩ := h.order
  refine ⟨h.initialized, fun n hn => ?_, fun n => ?_,
    trace ++ (eoiEvents n ++ (s.irqHandlers n).calls), ?_, ?_, ?_⟩
  · rw [hlast]
    exact h.entry n hn
  · rw [hlast]
    exact h.unmasked n
  · rw [htrace, List.append_assoc, List.append_assoc]
  · refine horder.append_of_notMem _ fun pic imr => ?_
    by_cases hfn : (s.irqHandlers n).fn = null <;> simp [eoiEvents, IrqHandler.calls, hfn]
  · intro n hn
    rw [hlast] at hn
    exact (hwritten n hn).append _

/-- **A valid call** does not panic and keeps the invariant. -/
theorem IrqInvariant.exec (h : IrqInvariant b calls s) (hc : c.Valid) :
    ∃ s', c.exec s = .ok s' ∧ IrqInvariant b (calls ++ [c]) s' := by
  cases c with
  | register irq fn arg => exact ⟨_, interruptsRegisterIrq_eq hc, h.register hc
      (interruptsRegisterIrq_eq hc)⟩
  | interrupt frame =>
      obtain ⟨n, hn, hframe⟩ := hc
      have hexec := isrMain_eq h.initialized hn hframe
      exact ⟨_, hexec, h.interrupt hn hframe hexec⟩

/-- **Valid calls** do not panic and keep the invariant. -/
theorem IrqInvariant.run (hb : IrqInvariant b [] b) (hcalls : ∀ c ∈ calls, c.Valid) :
    ∃ s, runIrqCalls calls b = .ok s ∧ IrqInvariant b calls s := by
  induction calls using List.reverseRecOn with
  | nil => exact ⟨b, rfl, hb⟩
  | append_singleton calls c ih =>
      obtain ⟨s, hs, h⟩ := ih fun c hc => hcalls c (List.mem_append_left _ hc)
      obtain ⟨s', hs', h'⟩ := h.exec
        (hcalls c (List.mem_append_right _ (List.mem_singleton_self c)))
      refine ⟨s', ?_, h'⟩
      rw [runIrqCalls, List.foldlM_append, ← runIrqCalls, hs]
      show (c.exec s >>= pure) = _
      rw [hs']
      rfl

/-- What the invariant says about the next call. -/
theorem IrqInvariant.irqDispatch (h : IrqInvariant b calls s) : IrqDispatch b calls s := by
  obtain ⟨trace, htrace, horder, -⟩ := h.order
  refine ⟨h.entry, h.unmasked, ⟨trace, htrace, horder⟩, fun n hn frame hframe => ?_,
    fun irq hirq fn arg => ⟨_, interruptsRegisterIrq_eq hirq, fun n hn => ?_⟩⟩
  · rw [isrMain_eq h.initialized hn hframe, h.entry n hn]
    cases hlast : lastRegistered n calls <;> rfl
  · exact Function.update_of_ne hn _ _

end Lemmas

/-- **IRQ dispatch follows the history of registrations.** -/
theorem irq_dispatch (s₀ : IrqState) {calls : List IrqCall} (hcalls : ∀ c ∈ calls, c.Valid) :
    ∃ b s, irqBoot s₀ = .ok b ∧ runIrqCalls calls b = .ok s ∧ IrqDispatch b calls s := by
  obtain ⟨b, hboot, hb⟩ := irqBoot_eq_ok s₀
  obtain ⟨s, hrun, h⟩ := hb.run hcalls
  exact ⟨b, s, hboot, hrun, h.irqDispatch⟩

/-- The static variables before `start_kernel`. -/
def IrqState.initial : IrqState where
  pics := fun _ => ⟨0, 0, 0⟩
  irqHandlers := fun _ => ⟨null, null⟩
  trace := []

theorem irq_dispatch_initial :
    ∃ b s, irqBoot .initial = .ok b ∧
      runIrqCalls [.register 0 0x100900 0, .register 9 0x100a00 7, .register 0 0x100b00 1] b =
        .ok s ∧
      IrqDispatch b [.register 0 0x100900 0, .register 9 0x100a00 7, .register 0 0x100b00 1] s :=
  irq_dispatch .initial (by simp [IrqCall.Valid, i8259NoIrqs])

end Storm
