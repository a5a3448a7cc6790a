import Storm.Arch.IrqSystem

/-! # Lines in service

An interrupt that the processor has acknowledged keeps its line in service, which blocks the line
and the ones below it until the code ends the interrupt. The end of an interrupt does not say which
line it is for; the controller takes the one with the highest priority.

`isr_main` sends it before it calls the handler, with interrupts disabled. So at most one interrupt
is in service at a time, and the right one is ended: `in_service_clear`, for real and spurious
interrupts and for handlers that are interrupted themselves. -/

namespace Storm

open ByteMemory Transition

variable {chips : Chips} {pic : Pic} {d : Delivery}

/-- An end of interrupt. -/
theorem chipsStep_eoi_eq : chipsStep chips (.out (cmdPortOf pic) i8259EoiCmd) =
    Function.update chips pic (chips pic).endOfInterrupt := chipsStep_cmdPort

/-- An end of interrupt for a controller without lines in service does nothing. -/
theorem chipsStep_eoi_of_idle (h : (chips pic).Idle) :
    chipsStep chips (.out (cmdPortOf pic) i8259EoiCmd) = chips := by
  rw [chipsStep_eoi_eq, InterruptController.Chip.endOfInterrupt_of_idle h, Function.update_eq_self]

/-- An end of interrupt takes back the acknowledgement. -/
theorem chipsStep_eoi_acknowledgeAt {line : ℕ} (h : (chips pic).Idle) (hline : line < 8) :
    chipsStep (Delivery.acknowledgeAt pic line chips) (.out (cmdPortOf pic) i8259EoiCmd) =
      chips := by
  rw [chipsStep_eoi_eq, Delivery.acknowledgeAt, Function.update_self,
    InterruptController.Chip.endOfInterrupt_acknowledge h hline, Function.update_idem,
    Function.update_eq_self]

/-- **The ends of interrupt of `isr_main`** take back what the delivery has put in service, when
nothing was in service before. -/
theorem chipsAfter_eoiEvents_acknowledge (hd : d.Valid) (h : ∀ pic, (chips pic).Idle) :
    chipsAfter (d.acknowledge chips) (eoiEvents d.number) = chips := by
  -- for the lines of the slave, the master is left with its line 2 in service
  have hslave : chipsStep (Delivery.acknowledgeAt .master i8259SlaveIrq.toNat chips)
      (.out (cmdPortOf .slave) i8259EoiCmd) =
        Delivery.acknowledgeAt .master i8259SlaveIrq.toNat chips := chipsStep_eoi_of_idle (h .slave)
  have hmaster : chipsStep (Delivery.acknowledgeAt .master i8259SlaveIrq.toNat chips)
      (.out (cmdPortOf .master) i8259EoiCmd) = chips :=
    chipsStep_eoi_acknowledgeAt (h .master) (by decide)
  cases d with
  | line n =>
      have hline : (lineOf n).toNat < 8 := toNat_lineOf_lt hd
      by_cases h8 : 8 ≤ n
      · have hpic : picOf n = .slave := if_pos h8
        have hends : eoiEvents n =
            [.out (cmdPortOf .slave) i8259EoiCmd, .out (cmdPortOf .master) i8259EoiCmd] := by
          rw [eoiEvents, if_pos h8]
          rfl
        rw [Delivery.number, hends, Delivery.acknowledge, if_pos h8, hpic]
        have hidle : (Delivery.acknowledgeAt .master i8259SlaveIrq.toNat chips .slave).Idle :=
          h .slave
        unfold chipsAfter
        rw [List.foldl_cons, chipsStep_eoi_acknowledgeAt hidle hline]
        exact hmaster
      · have hpic : picOf n = .master := if_neg h8
        have hends : eoiEvents n = [.out (cmdPortOf .master) i8259EoiCmd] := by
          rw [eoiEvents, if_neg h8]
          rfl
        rw [Delivery.number, hends, Delivery.acknowledge, if_neg h8, hpic]
        exact chipsStep_eoi_acknowledgeAt (h .master) hline
  | spuriousMaster => exact chipsStep_eoi_of_idle (h .master)
  | spuriousSlave =>
      have hends : eoiEvents Delivery.spuriousSlave.number =
          [.out (cmdPortOf .slave) i8259EoiCmd, .out (cmdPortOf .master) i8259EoiCmd] := rfl
      rw [hends, Delivery.acknowledge]
      unfold chipsAfter
      rw [List.foldl_cons, hslave]
      exact hmaster

namespace IrqSystem

variable {s s' : IrqSystem} {a : IrqAction}

/-- No line is in service in either controller. -/
def Idle (s : IrqSystem) : Prop := ∀ pic, (s.chips pic).Idle

/-- No line is in service when a handler is called, and when `isr_main` returns: in the step that
delivers the interrupt when there is no handler, otherwise when the handler returns. -/
def ClearsInService (s : IrqSystem) : IrqAction → IrqSystem → Prop
  | .deliver d _, s' =>
      (∀ before fn arg after, s.newEvents s' = before ++ .call fn arg :: after →
        ∀ pic, (chipsAfter (d.acknowledge s.chips) before pic).Idle) ∧
      ((∀ fn arg, .call fn arg ∉ s.newEvents s') → s'.Idle)
  | .handlerReturns, s' => s'.Idle
  | .register _, _ | .advance, _ | .setInterrupts _, _ => True

/-- **Between two steps no line is in service.** -/
theorem Idle.step (hidle : s.Idle) (h : s.Ready) (hstep : Step s a s') : s'.Idle := by
  cases a with
  | advance =>
      obtain ⟨r, step, -, rfl⟩ := step_advance hstep
      intro pic
      rw [h.advanceTo_chips]
      split
      · exact (isr_maskWritten pic).trans (hidle pic)
      · exact hidle pic
  | deliver d frame =>
      obtain ⟨hd, -, -, hchips⟩ := h.deliver hstep
      -- `isr_main` has ended what the delivery has put in service
      rw [chipsAfter_eoiEvents_acknowledge hd hidle] at hchips
      rw [Idle, hchips]
      exact hidle
  | register | handlerReturns | setInterrupts =>
      rw [Idle, (hstep.unchanged (by simp) (by simp)).2]
      exact hidle

/-- The first call in the events of `isr_main` comes after the ends of interrupt. -/
theorem eoiEvents_prefix {n : Byte} {calls before after : List IrqEvent} {fn arg : Word}
    (h : eoiEvents n ++ calls = before ++ .call fn arg :: after) :
    ∃ l, before = eoiEvents n ++ l ∧ calls = l ++ .call fn arg :: after := by
  rcases List.append_eq_append_iff.mp h with ⟨l, rfl, rfl⟩ | ⟨l, heoi, hl⟩
  · exact ⟨l, rfl, rfl⟩
  -- otherwise the call would be one of the ends of interrupt
  · cases l with
    | nil => exact ⟨[], by rw [heoi, List.append_nil, List.append_nil], hl.symm⟩
    | cons e l =>
        obtain ⟨rfl, -⟩ := List.cons.inj hl
        have hmem : .call fn arg ∈ eoiEvents n := by simp [heoi]
        unfold eoiEvents at hmem
        split at hmem <;> simp at hmem

/-- **One step** calls a handler and returns from `isr_main` only with no line in service. -/
theorem Idle.clearsInService (hidle : s.Idle) (h : s.Ready) (hstep : Step s a s') :
    ClearsInService s a s' := by
  cases a with
  | deliver d frame =>
      obtain ⟨hd, hnew, -⟩ := h.deliver hstep
      refine ⟨fun before fn arg after heq => ?_, fun _ => hidle.step h hstep⟩
      obtain ⟨l, rfl, hl⟩ := eoiEvents_prefix (hnew.symm.trans heq)
      -- the ends of interrupt have been seen, and only calls come after them
      have hl' : ∀ port byte, .out port byte ∉ l := fun port byte hmem => by
        have hcalls : .out port byte ∈ (s.irq.irqHandlers d.number).calls :=
          hl ▸ List.mem_append_left _ hmem
        unfold IrqHandler.calls at hcalls
        split at hcalls <;> simp at hcalls
      rw [chipsAfter_append, chipsAfter_eoiEvents_acknowledge hd hidle, chipsAfter_of_notMem hl']
      exact hidle
  | handlerReturns => exact hidle.step h hstep
  | register | advance | setInterrupts => exact trivial

/-- **No line stays in service**, in any run of deliveries, handlers and registrations: whenever a
handler is called and whenever `isr_main` returns, no line is in service in either controller. -/
theorem in_service_clear (h : s.Ready) (hidle : s.Idle) (acts : List IrqAction) :
    EveryStep Step ClearsInService s acts := by
  intro before a after t u _ hrun hstep
  obtain ⟨ht, hidlet⟩ := hrun.invariant (I := fun s => s.Ready ∧ s.Idle)
    (fun _ _ _ hs hstep => ⟨hs.1.step hstep, hs.2.step hs.1 hstep⟩) ⟨h, hidle⟩
  exact hidlet.clearsInService ht hstep

/-- A timer interrupt with a handler that enables interrupts, which a spurious interrupt of the
slave then interrupts. -/
theorem in_service_clear_booted : ∃ s, booted = .ok s ∧ EveryStep Step ClearsInService s
    [.register ⟨0, 0x100900, 0⟩, .advance, .advance, .advance, .advance, .setInterrupts true,
      .deliver (.line 0) (frameOf 32), .setInterrupts true, .deliver .spuriousSlave (frameOf 47),
      .handlerReturns] := by
  obtain ⟨s, hboot, hready, hchips, -⟩ := boot_eq_ok .initial resetChips
  exact ⟨s, hboot, in_service_clear hready (fun pic => (hchips pic).1) _⟩

end IrqSystem

end Storm
