import Storm.Arch.IrqSystem

/-! # Handlers and their arguments

A registration stores the function of a handler and its argument one after the other. An interrupt
of the line between the two stores calls the new function with the old argument (`Torn`). Until the
first registration of a line is complete the mask protects the line; later nothing does.

The main result, `calls_registered_iff`, says that this is the only way to call a function with an
argument that was not registered with it. -/

namespace Storm

open ByteMemory Transition

namespace IrqSystem

variable {s s' : IrqSystem} {a : IrqAction} {d : Delivery} {frame : InterruptStackFrame}
  {r : Registration}

/-- Interrupts are delivered only for lines that are not masked, and are not spurious. -/
def StepUnmasked (s : IrqSystem) (a : IrqAction) (s' : IrqSystem) : Prop :=
  Step s a s' ∧ ∀ d frame, a = .deliver d frame → d.Unmasked s.chips

/-- `interrupts_register_irq` has been called with these arguments. -/
def Passed (s : IrqSystem) (r : Registration) : Prop :=
  r ∈ s.registered ∨ ∃ step, s.pending = some (r, step)

/-- A function and an argument with which `irq_handler_execute` calls it have been passed together,
for the line. -/
def CallsRegistered (s : IrqSystem) : IrqAction → IrqSystem → Prop
  | .deliver d _, s' => ∀ fn arg, .call fn arg ∈ s.newEvents s' → s.Passed ⟨d.number, fn, arg⟩
  | .register _, _ | .advance, _ | .handlerReturns, _ | .setInterrupts _, _ => True

/-- The line is delivered while a registration for it has stored its function, and not yet its
argument. The old argument is another one, and was never registered with this function. -/
def Torn (s : IrqSystem) : IrqAction → Prop
  | .deliver d _ => ∃ r, s.pending = some (r, .storeArg) ∧ r.irq = d.number ∧ r.fn ≠ null ∧
      let arg := (s.irq.irqHandlers d.number).arg
      arg ≠ r.arg ∧ ⟨d.number, r.fn, arg⟩ ∉ s.registered
  | .register _ | .advance | .handlerReturns | .setInterrupts _ => False

/-! ## The table of handlers -/

/-- What the table holds, after the initialization. -/
structure Recorded (s : IrqSystem) : Prop where
  /-- An entry that is not being written is empty or was passed as it is. -/
  entry : ∀ n < i8259NoIrqs, (∀ r, s.pending = some (r, .storeArg) → r.irq ≠ n) →
    (s.irq.irqHandlers n).fn = null ∨
      s.Passed ⟨n, (s.irq.irqHandlers n).fn, (s.irq.irqHandlers n).arg⟩
  /-- An entry that is being written has its new function. -/
  half : ∀ r, s.pending = some (r, .storeArg) → (s.irq.irqHandlers r.irq).fn = r.fn

/-- A call stays a call. -/
theorem Passed.advance {step : RegisterStep} {irq : IrqState} (h : s.Passed r) {r' : Registration}
    (hpending : s.pending = some (r', step)) :
    Passed { s.advanceTo irq with
      pending := step.next.map fun step => (r', step)
      registered := s.registered ++ if step.next = none then [r'] else [] } r := by
  rcases h with h | ⟨step', h⟩
  · exact Or.inl (List.mem_append_left _ h)
  · obtain ⟨rfl, rfl⟩ := Prod.mk.inj (Option.some.inj (h.symm.trans hpending))
    cases step' with
    | writeMask => exact Or.inl (List.mem_append_right _ (List.mem_singleton_self r))
    | storeFn | storeArg | updateImr => exact Or.inr ⟨_, rfl⟩

/-- **A step of a registration** keeps the table recorded. -/
theorem Recorded.advance (h : s.Recorded) (hstep : Step s .advance s') : s'.Recorded := by
  obtain ⟨r, step, hpending, rfl⟩ := step_advance hstep
  have hpassed : s.Passed r := Or.inr ⟨step, hpending⟩
  cases step with
  | storeFn =>
      -- from here on the entry is excepted, and has the new function
      refine ⟨fun n hn hother => ?_, fun r' hr' => ?_⟩
      · have hne : n ≠ r.irq := fun heq => hother r rfl heq.symm
        have hentry := h.entry n hn fun r' hr' => by
          rw [hpending] at hr'
          cases hr'
        simp only [advanceTo, RegisterStep.exec, Function.update_of_ne hne]
        exact hentry.imp_right fun h => h.advance hpending
      · obtain ⟨rfl, -⟩ := Prod.mk.inj (Option.some.inj hr')
        simp [advanceTo, RegisterStep.exec]
  | storeArg =>
      -- the entry is complete again: both halves are those of this call
      refine ⟨fun n hn _ => ?_, fun r' hr' => by cases hr'⟩
      by_cases heq : n = r.irq
      · subst heq
        simp only [advanceTo, RegisterStep.exec, Function.update_self, h.half r hpending]
        exact Or.inr (hpassed.advance hpending)
      · have hentry := h.entry n hn fun r' hr' => by
          obtain ⟨rfl, -⟩ := Prod.mk.inj (Option.some.inj (hpending.symm.trans hr'))
          exact Ne.symm heq
        simp only [advanceTo, RegisterStep.exec, Function.update_of_ne heq]
        exact hentry.imp_right fun h => h.advance hpending
  | updateImr | writeMask =>
      refine ⟨fun n hn _ => ?_, fun r' hr' => by cases hr'⟩
      have hentry := h.entry n hn fun r' hr' => by
        rw [hpending] at hr'
        cases hr'
      exact hentry.imp_right fun h => h.advance hpending

/-- The table is recorded as long as neither the table nor the registrations change. -/
theorem Recorded.congr (h : s.Recorded) (hhandlers : s'.irq.irqHandlers = s.irq.irqHandlers)
    (hpending : s'.pending = s.pending) (hregistered : s'.registered = s.registered) :
    s'.Recorded := by
  refine ⟨fun n hn hother => ?_, fun r hr => ?_⟩
  · have hentry := h.entry n hn (by rwa [hpending] at hother)
    rwa [Passed, hhandlers, hpending, hregistered]
  · rw [hhandlers]
    exact h.half r (hpending ▸ hr)

/-- **The table stays recorded.** -/
theorem Recorded.step (h : s.Recorded) (hready : s.Ready) (hstep : Step s a s') :
    s'.Recorded := by
  cases a with
  | register r =>
      obtain ⟨-, hnone, rfl⟩ := step_register hstep
      refine ⟨fun n hn _ => ?_, fun r' hr' => by cases hr'⟩
      have hentry := h.entry n hn fun r' hr' => by
        rw [hnone] at hr'
        cases hr'
      -- no registration is under way before
      refine hentry.imp_right fun hpassed => Or.inl (hpassed.resolve_right fun ⟨step, hstep⟩ => ?_)
      rw [hnone] at hstep
      cases hstep
  | advance => exact h.advance hstep
  | deliver d frame =>
      obtain ⟨hpending, hregistered⟩ := hstep.registrations (by simp) (by simp)
      exact h.congr (by rw [(hready.deliver hstep).2.2.1]) hpending hregistered
  | handlerReturns | setInterrupts =>
      obtain ⟨hpending, hregistered⟩ := hstep.registrations (by simp) (by simp)
      exact h.congr (by rw [(hstep.unchanged (by simp) (by simp)).1]) hpending hregistered

/-- **One delivery** calls a function with an argument that was not registered with it exactly when
it is torn. -/
theorem Recorded.callsRegistered_iff (h : s.Recorded) (hready : s.Ready) (hstep : Step s a s') :
    CallsRegistered s a s' ↔ ¬ s.Torn a := by
  cases a with
  | deliver d frame =>
      obtain ⟨hd, hnew, -⟩ := hready.deliver hstep
      have hcalls : CallsRegistered s (.deliver d frame) s' ↔
          ((s.irq.irqHandlers d.number).fn ≠ null → s.Passed
            ⟨d.number, (s.irq.irqHandlers d.number).fn, (s.irq.irqHandlers d.number).arg⟩) := by
        unfold CallsRegistered
        simp only [hnew, call_mem_isrMain]
        constructor
        · exact fun hall hfn => hall _ _ ⟨hfn, rfl⟩
        · rintro hentry fn arg ⟨hfn, heq⟩
          rw [heq] at hentry hfn
          exact hentry hfn
      rw [hcalls]
      by_cases hpending : ∃ r, s.pending = some (r, .storeArg) ∧ r.irq = d.number
      · -- the line is being registered: it has the new function and the old argument
        obtain ⟨r, hr, hirq⟩ := hpending
        have hfn : (s.irq.irqHandlers d.number).fn = r.fn := hirq ▸ h.half r hr
        have hpassed : ∀ arg, s.Passed ⟨d.number, r.fn, arg⟩ ↔
            arg = r.arg ∨ ⟨d.number, r.fn, arg⟩ ∈ s.registered := by
          intro arg
          obtain ⟨irq, fn, arg'⟩ := r
          obtain rfl : irq = d.number := hirq
          simp [Passed, hr, or_comm, eq_comm]
        rw [hfn, hpassed]
        constructor
        · rintro hentry ⟨r', hr', -, hfn', harg, hnew⟩
          obtain ⟨rfl, -⟩ := Prod.mk.inj (Option.some.inj (hr.symm.trans hr'))
          exact (hentry hfn').elim harg hnew
        · intro htorn hfn'
          by_contra hnot
          rw [not_or] at hnot
          exact htorn ⟨r, hr, hirq, hfn', hnot.1, hnot.2⟩
      · -- otherwise its entry is complete
        have hentry := h.entry d.number hd fun r hr hirq => hpending ⟨r, hr, hirq⟩
        refine iff_of_true (fun hfn => hentry.resolve_left hfn) ?_
        rintro ⟨r, hr, hirq, -⟩
        exact hpending ⟨r, hr, hirq⟩
  | register | advance | handlerReturns | setInterrupts => exact iff_of_true trivial id

/-! ## The masks -/

/-- What the masks protect: only line 2 and the lines with a complete registration are not masked.
-/
structure MasksProtect (s : IrqSystem) : Prop where
  /-- The mask of the controller. -/
  hardware : ∀ n, Unmasks (picOf n) (s.chips (picOf n)).imr n →
    n = i8259SlaveIrq ∨ ∃ r ∈ s.registered, r.irq = n
  /-- The mask that the software keeps is ahead by the registration under way. -/
  shadow : ∀ n, s.irq.Unmasked n → n = i8259SlaveIrq ∨ (∃ r ∈ s.registered, r.irq = n) ∨
    ∃ r, s.pending = some (r, .writeMask) ∧ r.irq = n
  /-- Only lines are registered. -/
  valid : ∀ r step, s.pending = some (r, step) → r.irq < i8259NoIrqs

/-- A registration that has not updated the mask has not unmasked anything. -/
theorem MasksProtect.shadow_of_ne {n : Byte} {step : RegisterStep} (h : s.MasksProtect)
    (hpending : s.pending = some (r, step)) (hstep : step ≠ .writeMask) (hn : s.irq.Unmasked n) :
    n = i8259SlaveIrq ∨ ∃ r ∈ s.registered, r.irq = n := by
  refine (h.shadow n hn).imp_right fun hreg => hreg.resolve_right ?_
  rintro ⟨r', hr', -⟩
  obtain ⟨-, heq⟩ := Prod.mk.inj (Option.some.inj (hpending.symm.trans hr'))
  exact hstep heq

/-- **A step of a registration** unmasks the line only when the entry is complete. -/
theorem MasksProtect.advance (h : s.MasksProtect) (hready : s.Ready) (hstep : Step s .advance s') :
    s'.MasksProtect := by
  obtain ⟨r, step, hpending, rfl⟩ := step_advance hstep
  have hirq := h.valid r step hpending
  have hchips := hready.advanceTo_chips r step
  have hvalid : ∀ r' step', step.next.map (fun step => (r, step)) = some (r', step') →
      r'.irq < i8259NoIrqs := by
    intro r' step' hmap
    obtain ⟨_, -, heq⟩ := Option.map_eq_some_iff.mp hmap
    obtain ⟨rfl, -⟩ := Prod.mk.inj heq
    exact hirq
  cases step with
  -- neither mask changes
  | storeFn | storeArg =>
      rw [if_neg (by simp)] at hchips
      refine ⟨fun n hn => ?_, fun n hn => ?_, hvalid⟩
      · rw [hchips] at hn
        simpa [RegisterStep.next] using h.hardware n hn
      · have hold := h.shadow_of_ne hpending (by simp) hn
        simpa [RegisterStep.next] using hold
  -- now the software takes the line for enabled, the controller does not yet
  | updateImr =>
      rw [if_neg (by simp)] at hchips
      refine ⟨fun n hn => ?_, fun n hn => ?_, hvalid⟩
      · rw [hchips] at hn
        simpa [RegisterStep.next] using h.hardware n hn
      · rcases (unmasked_enable hirq).mp hn with rfl | hn
        · exact Or.inr (Or.inr ⟨r, rfl, rfl⟩)
        · have hold := h.shadow_of_ne hpending (by simp) hn
          exact hold.imp_right fun hreg => Or.inl (by simpa [RegisterStep.next] using hreg)
  | writeMask =>
      rw [if_pos rfl] at hchips
      -- the registration is complete: the masks are the same again
      have hall : ∀ n, s.irq.Unmasked n →
          n = i8259SlaveIrq ∨ ∃ r' ∈ s.registered ++ [r], r'.irq = n := by
        intro n hn
        rcases h.shadow n hn with hslave | ⟨r', hr', hirq'⟩ | ⟨r', hr', hirq'⟩
        · exact Or.inl hslave
        · exact Or.inr ⟨r', List.mem_append_left _ hr', hirq'⟩
        · obtain ⟨rfl, -⟩ := Prod.mk.inj (Option.some.inj (hpending.symm.trans hr'))
          exact Or.inr ⟨r, List.mem_append_right _ (List.mem_singleton_self r), hirq'⟩
      refine ⟨fun n hn => ?_, fun n hn => (hall n hn).imp_right Or.inl, hvalid⟩
      rw [hchips, maskWritten] at hn
      by_cases hpic : picOf n = picOf r.irq
      · rw [hpic, Function.update_self, ← hpic] at hn
        exact hall n hn
      · rw [Function.update_of_ne hpic] at hn
        refine (h.hardware n hn).imp_right ?_
        rintro ⟨r', hr', hirq'⟩
        exact ⟨r', List.mem_append_left _ hr', hirq'⟩

/-- **The masks go on protecting** the lines without a registration. -/
theorem MasksProtect.step (h : s.MasksProtect) (hready : s.Ready) (hstep : Step s a s') :
    s'.MasksProtect := by
  cases a with
  | register r =>
      obtain ⟨hirq, hnone, rfl⟩ := step_register hstep
      refine ⟨h.hardware, fun n hn => ?_, fun r' step hr' => ?_⟩
      · refine (h.shadow n hn).imp_right fun hreg => Or.inl (hreg.resolve_right ?_)
        rintro ⟨r', hr', -⟩
        rw [hnone] at hr'
        cases hr'
      · obtain ⟨rfl, -⟩ := Prod.mk.inj (Option.some.inj hr')
        exact hirq
  | advance => exact h.advance hready hstep
  | deliver d frame =>
      obtain ⟨hpending, hregistered⟩ := hstep.registrations (by simp) (by simp)
      refine ⟨fun n hn => ?_, fun n hn => ?_, by rw [hpending]; exact h.valid⟩
      · obtain ⟨isr, hchip⟩ := hready.deliver_chips hstep (picOf n)
        rw [hchip] at hn
        rw [hregistered]
        exact h.hardware n hn
      · rw [(hready.deliver hstep).2.2.1] at hn
        rw [hpending, hregistered]
        exact h.shadow n hn
  | handlerReturns | setInterrupts =>
      obtain ⟨hpending, hregistered⟩ := hstep.registrations (by simp) (by simp)
      obtain ⟨hirq, hchips⟩ := hstep.unchanged (by simp) (by simp)
      refine ⟨?_, ?_, ?_⟩
      · rw [hchips, hregistered]
        exact h.hardware
      · rw [hirq, hpending, hregistered]
        exact h.shadow
      · rw [hpending]
        exact h.valid

/-- **The mask protects the first registration**: a delivery can be torn only for line 2, which
`i8259_init` does not mask, or for a line that has been registered before. -/
theorem MasksProtect.registered_of_torn (h : s.MasksProtect)
    (hstep : StepUnmasked s (.deliver d frame) s') (htorn : s.Torn (.deliver d frame)) :
    d.number = i8259SlaveIrq ∨ ∃ r ∈ s.registered, r.irq = d.number := by
  obtain ⟨r, hpending, hirq, -⟩ := htorn
  have hvalid : d.number < i8259NoIrqs := hirq ▸ h.valid r _ hpending
  refine h.hardware d.number ⟨hvalid, rfl, ?_⟩
  have hunmasked := hstep.2 d frame rfl
  cases d with
  | line n => exact hunmasked
  | spuriousMaster | spuriousSlave => exact hunmasked.elim

/-- A torn delivery in a run after the initialization is for line 2, or for a line that has been
registered before. -/
theorem torn_only_registered (irq : IrqState) (chips : Chips) (acts : List IrqAction) :
    ∃ s, boot irq chips = .ok s ∧ EveryStep StepUnmasked (fun s a _ => s.Torn a → ∀ d frame,
      a = .deliver d frame → d.number = i8259SlaveIrq ∨ ∃ r ∈ s.registered, r.irq = d.number)
        s acts := by
  obtain ⟨s, hboot, hready, hchips, htable, hpending, -⟩ := boot_eq_ok irq chips
  have hmasks : s.MasksProtect := by
    refine ⟨fun n ⟨hn, _, hbit⟩ => Or.inl ((htable n hn).2.mp hbit), fun n hn => ?_, ?_⟩
    · obtain ⟨hn, -, hbit⟩ := hn
      rw [← (hchips (picOf n)).2] at hbit
      exact Or.inl ((htable n hn).2.mp hbit)
    · intro r step hr
      rw [hpending] at hr
      cases hr
  refine ⟨s, hboot, fun before a after t u _ hrun hstep htorn d frame ha => ?_⟩
  obtain ⟨-, ht⟩ := hrun.invariant (I := fun s => s.Ready ∧ s.MasksProtect)
    (fun _ _ _ h hstep => ⟨h.1.step hstep.1, h.2.step h.1 hstep.1⟩) ⟨hready, hmasks⟩
  subst ha
  exact ht.registered_of_torn hstep htorn

/-- **Handlers are called with their arguments**, in every delivery of a run after the
initialization, exactly when no delivery of the run is torn. -/
theorem calls_registered_iff (irq : IrqState) (chips : Chips) (acts : List IrqAction) :
    ∃ s, boot irq chips = .ok s ∧
      (EveryStep StepUnmasked CallsRegistered s acts ↔
        EveryStep StepUnmasked (fun s a _ => ¬ s.Torn a) s acts) := by
  obtain ⟨s, hboot, hready, -, htable, hpending, hregistered⟩ := boot_eq_ok irq chips
  have hrecorded : s.Recorded := by
    refine ⟨fun n hn _ => Or.inl ?_, fun r hr => ?_⟩
    · rw [(htable n hn).1]
    · rw [hpending] at hr
      cases hr
  refine ⟨s, hboot, EveryStep.congr (I := fun s => s.Ready ∧ s.Recorded) ?_ ⟨hready, hrecorded⟩ ?_⟩
  · exact fun _ _ _ h hstep => ⟨h.1.step hstep.1, h.2.step h.1 hstep.1⟩
  · exact fun _ _ _ h hstep => h.2.callsRegistered_iff h.1 hstep.1

/-- Actions that are no deliveries can be run by computation. -/
theorem run_of_foldlM {acts : List IrqAction} (hacts : ∀ d frame, .deliver d frame ∉ acts)
    (h : acts.foldlM exec s = some s') : Run StepUnmasked s acts s' := by
  induction acts generalizing s with
  | nil =>
      obtain rfl := Option.some.inj h
      exact .nil s
  | cons a acts ih =>
      rw [List.foldlM_cons] at h
      obtain ⟨t, hstep, htail⟩ := Option.bind_eq_some_iff.mp h
      refine .cons ⟨hstep, ?_⟩ (ih (fun d frame hmem => ?_) htail)
      · rintro d frame rfl
        exact absurd List.mem_cons_self (hacts d frame)
      · exact hacts d frame (List.mem_cons_of_mem a hmem)

/-- Two registrations of line 0 with interrupts enabled, the second up to the first store. -/
def registerTwice : List IrqAction := [
  .setInterrupts true,
  .register ⟨0, 0x100900, 1⟩, .advance, .advance, .advance, .advance,
  .register ⟨0, 0x100a00, 2⟩, .advance]

/-- **The second function is called with the first argument**: an interrupt of the line between the
two stores of the second registration. -/
theorem not_calls_registered : ∃ s, booted = .ok s ∧ ¬ EveryStep StepUnmasked CallsRegistered s
    (registerTwice ++ [.deliver (.line 0) (frameOf 32)]) := by
  have heval : (booted.toOption.bind fun s => (registerTwice.foldlM exec s).bind fun t =>
      (t.exec (.deliver (.line 0) (frameOf 32))).map fun u =>
        (t.newEvents u, t.registered, t.pending, (t.chips .master).imr)) =
      some ([.out 0x20 0x20, .call 0x100a00 1], [⟨0, 0x100900, 1⟩],
        some (⟨0, 0x100a00, 2⟩, .storeArg), 0b11111010) := by decide
  simp only [Option.bind_eq_some_iff, Option.map_eq_some_iff, Prod.mk.injEq] at heval
  obtain ⟨s, hboot, t, hrun, u, hdeliver, hnew, hregistered, hpending, himr⟩ := heval
  refine ⟨s, ?_, fun hevery => ?_⟩
  · cases hok : booted with
    | ok s₀ => rw [hok] at hboot; exact congrArg Except.ok (Option.some.inj hboot)
    | error e => rw [hok] at hboot; cases hboot
  have hunmasked : Delivery.Unmasked t.chips (.line 0) := by
    show (t.chips .master).imr.getLsbD _ = false
    rw [himr]
    decide
  have hbefore := run_of_foldlM (by simp [registerTwice]) hrun
  have hcalls := hevery registerTwice _ [] t u rfl hbefore ⟨hdeliver, fun d frame heq => by
    obtain ⟨rfl, -⟩ := IrqAction.deliver.inj heq
    exact hunmasked⟩
  have hpassed := hcalls 0x100a00 1 (by rw [hnew]; simp)
  rw [Passed, hregistered, hpending] at hpassed
  simp [Delivery.number] at hpassed

end IrqSystem

end Storm
