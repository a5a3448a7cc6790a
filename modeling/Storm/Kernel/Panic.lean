import Storm.Arch.Cpu
import Storm.Arch.Interrupts
import Storm.Arch.Uart
import Storm.Lib.PrintfString
import Storm.Library.Transition

/-! # `panic.c` and `cpu_halt`: the end of the kernel

A function that panics is an error elsewhere in this model, with the text of the panic. Here is what
such an error means: `panic` prints the text on the serial line (`panic_eq`), and `cpu_halt` disables
interrupts and waits, after which nothing happens any more (`cpuHalt_final`).

`vector_handled` follows an interrupt of any vector to the end of its handling or to such a panic. -/

namespace Storm

open ByteMemory I386 Transition

/-- The characters of a string constant. -/
def chars (text : String) : List Byte := text.toList.map ascii

/-- A string constant in memory. -/
def cString (text : String) : List Byte := chars text ++ [0]

section Print

variable [FloatText]

/-- `panic`, up to the call of `cpu_halt`. -/
def panic (error : List Byte) (s : PicState) : Except Fault PicState :=
  (printf putchar (cString "Panic: %s\n") [.string error] s).map Prod.fst

/-! ## The text of a panic -/

/-- Characters that are no conversion are emitted as they are. -/
theorem vsnprintfLoop_literals {σ : Type} (out : Out σ) {cs : List Byte}
    (hcs : ∀ c ∈ cs, c ≠ 0 ∧ c ≠ ascii '%') (n : ℕ) (rest : List Byte) (va : List Arg)
    (o : σ × Word) :
    vsnprintfLoop out (cs.length + n) (cs ++ rest) va o =
      vsnprintfLoop out n rest va (emitAll out cs o) := by
  induction cs generalizing o with
  | nil => rw [List.length_nil, Nat.zero_add, List.nil_append, emitAll_nil]
  | cons c cs ih =>
      obtain ⟨hzero, hpercent⟩ := hcs c List.mem_cons_self
      rw [List.length_cons, Nat.add_right_comm, List.cons_append, vsnprintfLoop_cons,
        if_neg hzero, if_pos hpercent, ih fun c hc => hcs c (List.mem_cons_of_mem _ hc),
        emitAll_cons]

omit [FloatText] in
/-- What is printed of a string with its terminator. -/
theorem stringText_terminated {t : List Byte} (ht : (0 : Byte) ∉ t) (rest : List Byte) :
    stringText {} 0 0 (t ++ 0 :: rest) = t := by
  have hne : ∀ c ∈ t, decide (c ≠ 0) = true := fun c hc => decide_eq_true fun h => ht (h ▸ hc)
  rw [stringText, printed, List.takeWhile_append_of_pos hne, takeWhile_cons_zero,
    List.append_nil]
  simp

/-- The text of a panic. -/
theorem formatText_panic {t rest : List Byte} (ht : (0 : Byte) ∉ t)
    (hlen : (t ++ 0 :: rest).length < 2 ^ 32) :
    formatText (cString "Panic: %s\n") [.string (t ++ 0 :: rest)] =
      .ok (chars "Panic: " ++ t ++ chars "\n") := by
  have hformat : cString "Panic: %s\n" =
      chars "Panic: " ++ ascii '%' :: ascii 's' :: cString "\n" := by decide
  have hcount : (cString "Panic: %s\n").length = (chars "Panic: ").length + 4 := by decide
  have hliteral : ∀ c ∈ chars "Panic: ", c ≠ 0 ∧ c ≠ ascii '%' := by decide
  have hsuffices : Suffices 0 (t ++ 0 :: rest) := Or.inl (by simp)
  have hconvert (o : List Byte × Word) :
      convert collect ⟨{}, 0, 0⟩ (ascii 's') [.string (t ++ 0 :: rest)] o =
        .ok (emitAll collect t o, []) := by
    have htext : convertString collect {} 0 0 [.string (t ++ 0 :: rest)] o =
        if Suffices 0 (t ++ 0 :: rest) then
          .ok (emitAll collect (stringText {} 0 0 (t ++ 0 :: rest)) o, [])
        else .error .string :=
      convertString_eq collect hlen (fun _ => rfl) [] o
    rw [if_pos hsuffices, stringText_terminated ht rest] at htext
    exact htext
  have hloop : vsnprintfLoop collect 4 (ascii '%' :: ascii 's' :: cString "\n")
      [.string (t ++ 0 :: rest)] (emitAll collect (chars "Panic: ") ([], 0)) =
        .ok (emitAll collect (chars "\n")
          (emitAll collect t (emitAll collect (chars "Panic: ") ([], 0)))) := by
    rw [vsnprintfLoop_cons, if_neg (by decide), if_neg (by decide)]
    have hparse (va : List Arg) : parseDirective (ascii 's' :: cString "\n") va =
      .ok (⟨{}, 0, 0⟩, ascii 's' :: cString "\n", va) := rfl
    rw [hparse]
    simp only [bind, Except.bind, current, pure, Except.pure, hconvert]
    rfl
  rw [formatText, hcount, hformat, vsnprintfLoop_literals collect hliteral, hloop]
  refine congrArg Except.ok ?_
  dsimp only
  rw [← emitAll_append, ← emitAll_append, emitAll_collect, List.nil_append, List.append_assoc]

/-- **`panic`** prints its text. -/
theorem panic_eq {t rest : List Byte} (ht : (0 : Byte) ∉ t)
    (hlen : (t ++ 0 :: rest).length < 2 ^ 32) (s : PicState) :
    panic (t ++ 0 :: rest) s =
      .ok { s with trace := s.trace ++ putEvents (chars "Panic: " ++ t ++ chars "\n") } := by
  have hvisible : visible (chars "Panic: " ++ t ++ chars "\n") =
      chars "Panic: " ++ t ++ chars "\n" := by
    have hpanic : ∀ c ∈ chars "Panic: ", c ≠ 0 := by decide
    have hline : ∀ c ∈ chars "\n", c ≠ 0 := by decide
    rw [visible, List.filter_eq_self]
    intro c hc
    rw [List.append_assoc, List.mem_append, List.mem_append] at hc
    rcases hc with hc | hc | hc
    · exact decide_eq_true (hpanic c hc)
    · exact decide_eq_true fun h => ht (h ▸ hc)
    · exact decide_eq_true (hline c hc)
  rw [panic, printf_putchar, formatText_panic ht hlen]
  simp only [Except.map, hvisible]

end Print

/-! ## A panic step by step -/

/-- Where the processor is in a panic. -/
inductive PanicLocation where
  /-- In `printf`, with these characters still to be put. -/
  | print (cs : List Byte)
  /-- In front of `cpu_disable_interrupts`. -/
  | disable
  /-- In the loop of `cpu_halt`. -/
  | wait
  deriving DecidableEq, Repr

/-- The characters still to be put. -/
def PanicLocation.remaining : PanicLocation → List Byte
  | print cs => cs
  | disable | wait => []

/-- The processor in a panic. -/
structure PanicState where
  location : PanicLocation
  machine : Machine
  trace : List IrqEvent

/-- What happens in a panic. -/
inductive PanicEvent where
  /-- `_putchar`. -/
  | put
  /-- `printf` returns. -/
  | printed
  /-- `cpu_disable_interrupts`. -/
  | cli
  /-- `cpu_wait_for_interrupt`, up to the next turn of the loop. -/
  | hlt
  /-- An interrupt, with all that its handler does. -/
  | interrupt (events : List IrqEvent)

/-- A step of a panic. -/
inductive PanicStep : PanicState → PanicEvent → PanicState → Prop where
  /-- A character is put. -/
  | put {c : Byte} {cs : List Byte} (m : Machine) (trace : List IrqEvent) :
      PanicStep ⟨.print (c :: cs), m, trace⟩ .put
        ⟨.print cs, m, trace ++ [.out uartCom1Port c]⟩
  /-- `cpu_halt` is called. -/
  | printed (m : Machine) (trace : List IrqEvent) :
      PanicStep ⟨.print [], m, trace⟩ .printed ⟨.disable, m, trace⟩
  /-- Interrupts are disabled, and the loop is entered. -/
  | cli (m : Machine) (trace : List IrqEvent) :
      PanicStep ⟨.disable, m, trace⟩ .cli ⟨.wait, cpuDisableInterrupts m, trace⟩
  /-- A turn of the loop. -/
  | hlt (m : Machine) (trace : List IrqEvent) :
      PanicStep ⟨.wait, m, trace⟩ .hlt ⟨.wait, m, trace⟩
  /-- An interrupt comes back to where it came. Its handler does not print. -/
  | interrupt (location : PanicLocation) {m : Machine} (trace : List IrqEvent)
      {events : List IrqEvent} (henabled : cpuInterruptsEnabled m = true)
      (hquiet : ∀ e ∈ events, isUartEvent e = false) :
      PanicStep ⟨location, m, trace⟩ (.interrupt events) ⟨location, m, trace ++ events⟩

/-- Of the text, some characters are on the line, and the others are still to be put. In the loop
interrupts are disabled. -/
structure PanicState.Printing (chip : SerialPort.Chip) (text : List Byte) (s : PanicState) :
    Prop where
  line : ∃ put, text = put ++ s.location.remaining ∧
    uartAfter chip s.trace = { chip with sent := chip.sent ++ put }
  disabled : s.location = .wait → cpuInterruptsEnabled s.machine = false

variable {chip : SerialPort.Chip} {text : List Byte} {s s' : PanicState}

/-- **A step of a panic** keeps the text together. -/
theorem PanicState.Printing.step (hchip : chip.dlab = false) (h : s.Printing chip text)
    {e : PanicEvent} (hstep : PanicStep s e s') : s'.Printing chip text := by
  obtain ⟨⟨put, htext, hline⟩, hdisabled⟩ := h
  cases hstep with
  | @put c cs m trace =>
      refine ⟨⟨put ++ [c], ?_, ?_⟩, fun h => by cases h⟩
      · rw [htext, List.append_assoc]
        rfl
      · have hput : ({ chip with sent := chip.sent ++ put } : SerialPort.Chip).dlab = false := hchip
        rw [uartAfter_append, hline]
        refine (uartAfter_putEvents hput [c]).trans ?_
        rw [List.append_assoc]
  | printed => exact ⟨⟨put, htext, hline⟩, fun h => by cases h⟩
  | cli => exact ⟨⟨put, htext, hline⟩, fun _ => cpuInterruptsEnabled_disable⟩
  | hlt => exact ⟨⟨put, htext, hline⟩, hdisabled⟩
  | @interrupt location m trace events henabled hquiet =>
      refine ⟨⟨put, htext, ?_⟩, hdisabled⟩
      rw [uartAfter_append, hline]
      exact Device.foldl_of_others ignoresOthers_uartStep hquiet _

/-- In the loop nothing happens any more. -/
theorem PanicState.Printing.eq_of_wait (h : s.Printing chip text) (hs : s.location = .wait)
    {e : PanicEvent} (hstep : PanicStep s e s') : s' = s := by
  have hdisabled := h.disabled hs
  cases hstep with
  | put => cases hs
  | printed => cases hs
  | cli => cases hs
  | hlt => rfl
  | interrupt location trace henabled =>
      exact absurd (henabled.symm.trans hdisabled) Bool.true_eq_false.mp

/-- What is to be said about a panic with a text, with interrupts enabled or not: whenever interrupts
come in, at every moment the serial line has got the beginning of the text, and the whole text when
`cpu_halt` is called; and when the loop of `cpu_halt` is reached, nothing ever happens any more. -/
def PanicIsFinal (chip : SerialPort.Chip) (text : List Byte) : Prop :=
  ∀ m events s, Run PanicStep ⟨.print text, m, []⟩ events s →
    (∃ put, put <+: text ∧ (s.location.remaining = [] → put = text) ∧
      uartAfter chip s.trace = { chip with sent := chip.sent ++ put }) ∧
    (s.location = .wait → ∀ events' s', Run PanicStep s events' s' → s' = s)

/-- **A panic is final**, whatever its text. -/
theorem panicIsFinal (hchip : chip.dlab = false) (text : List Byte) : PanicIsFinal chip text := by
  intro m events s hrun
  have hstart : PanicState.Printing chip text ⟨.print text, m, []⟩ :=
    ⟨⟨[], rfl, by rw [List.append_nil]; rfl⟩, fun h => by cases h⟩
  have h := hrun.invariant (fun _ _ _ h hstep => h.step hchip hstep) hstart
  constructor
  · obtain ⟨put, htext, hline⟩ := h.line
    refine ⟨put, ⟨_, htext.symm⟩, fun hrest => ?_, hline⟩
    rw [htext, hrest, List.append_nil]
  · intro hs events' s' hafter
    have hstay : ∀ (t : PanicState) (e : PanicEvent) (t' : PanicState), t = s →
        PanicStep t e t' → t' = s := by
      rintro t e t' rfl hstep
      exact h.eq_of_wait hs hstep
    exact Run.invariant (I := fun t => t = s) hstay rfl hafter

/-- **`panic`** prints its text, step by step as it puts the characters, and nothing comes after it. -/
theorem panic_final [FloatText] {t rest : List Byte} (ht : (0 : Byte) ∉ t)
    (hlen : (t ++ 0 :: rest).length < 2 ^ 32) (hchip : chip.dlab = false) (s : PicState) :
    panic (t ++ 0 :: rest) s =
        .ok { s with trace := s.trace ++ putEvents (chars "Panic: " ++ t ++ chars "\n") } ∧
      PanicIsFinal chip (chars "Panic: " ++ t ++ chars "\n") :=
  ⟨panic_eq ht hlen s, panicIsFinal hchip _⟩

/-! ## Interrupts that nobody handles -/

/-- `idt_default_interrupt_handler`: the text of the panic. -/
def idtDefaultInterruptHandler : String := "Unhandled interrupt!"

/-- What the gate of a vector leads to: `isr_main`, when the vector has a stub. -/
def handleVector (v : Byte) (frame : InterruptStackFrame) (s : IrqState) :
    Except String IrqState :=
  if idtEntries.contains v then isrMain frame s else .error idtDefaultInterruptHandler

/-- The texts of the panics of interrupts. -/
def panicTexts : List String :=
  ["Divide error", "General protection fault", "Unhandled exception", idtDefaultInterruptHandler]

/-- These panics print what they have to say. -/
theorem panic_panicTexts [FloatText] {text : String} (htext : text ∈ panicTexts)
    (hchip : chip.dlab = false) (s : PicState) :
    panic (cString text) s =
        .ok { s with
          trace := s.trace ++ putEvents (chars "Panic: " ++ chars text ++ chars "\n") } ∧
      PanicIsFinal chip (chars "Panic: " ++ chars text ++ chars "\n") := by
  have hall : ∀ text ∈ panicTexts, (0 : Byte) ∉ chars text ∧ (cString text).length < 2 ^ 32 := by
    decide +kernel
  obtain ⟨hzero, hlen⟩ := hall text htext
  exact panic_final hzero hlen hchip s

/-- A vector belongs to a line of the controllers, or its interrupt is a panic. -/
theorem handleVector_cases {v : Byte} {frame : InterruptStackFrame} {s : IrqState}
    (hs : s.Initialized) (hframe : frame.intNo = v.setWidth 32) :
    (∃ n < i8259NoIrqs, v = 32 + n ∧ handleVector v frame s =
      .ok { s with trace := s.trace ++ eoiEvents n ++ (s.irqHandlers n).calls }) ∨
    ∃ text ∈ panicTexts, handleVector v frame s = .error text := by
  have hentries : ∀ v ∈ idtEntries, v < 32 ∨ 32 ≤ v ∧ v < 48 := by decide +kernel
  rw [handleVector]
  by_cases hv : v ∈ idtEntries
  · rw [if_pos (List.contains_iff_mem.mpr hv)]
    rcases hentries v hv with hlow | ⟨hlo, hhi⟩
    · -- an exception
      have hlt : frame.intNo < idtIrqBase := by
        rw [hframe, idtIrqBase]
        bv_omega
      refine Or.inr ⟨interruptHandleCpuException frame, ?_, by rw [isrMain, if_pos hlt]⟩
      rw [interruptHandleCpuException]
      split_ifs <;> simp [panicTexts]
    · have hn : v - 32 < i8259NoIrqs := by
        rw [i8259NoIrqs]
        bv_omega
      have hintNo : frame.intNo = idtIrqBase + (v - 32).setWidth 32 := by
        rw [hframe, idtIrqBase]
        bv_omega
      exact Or.inl ⟨v - 32, hn, by bv_omega, isrMain_eq hs hn hintNo⟩
  · rw [if_neg (mt List.contains_iff_mem.mp hv)]
    exact Or.inr ⟨_, by simp [panicTexts], rfl⟩

/-- The outputs of a handler in place of its call: `outputs fn arg` is what the function `fn` outputs
when it is called with `arg`. -/
def expandCall (outputs : Word → Word → List IrqEvent) : IrqEvent → List IrqEvent
  | .call fn arg => outputs fn arg
  | e => [e]

/-- The outputs of a registered function; none when there is none. -/
def IrqHandler.outputs (outputs : Word → Word → List IrqEvent) (handler : IrqHandler) :
    List IrqEvent :=
  if handler.fn = null then [] else outputs handler.fn handler.arg

/-- Neither the controllers nor the call of a handler are the serial port. -/
theorem isUartEvent_eoiEvents {n : Byte} {handler : IrqHandler} {e : IrqEvent}
    (he : e ∈ eoiEvents n ++ handler.calls) : isUartEvent e = false := by
  have hslave : isUartEvent (.out i8259SlavePicCmdPort i8259EoiCmd) = false := by decide
  have hmaster : isUartEvent (.out i8259MasterPicCmdPort i8259EoiCmd) = false := by decide
  rw [eoiEvents, IrqHandler.calls] at he
  split_ifs at he with hline hfn hfn
  all_goals
    simp only [List.mem_append, List.mem_cons, List.not_mem_nil, or_false] at he
    aesop

/-- **What an interrupt of a line does to the serial port** is what its handler does. -/
theorem uartAfter_line (outputs : Word → Word → List IrqEvent) (n : Byte) (handler : IrqHandler) :
    uartAfter chip ((eoiEvents n ++ handler.calls).flatMap (expandCall outputs)) =
      uartAfter chip (handler.outputs outputs) := by
  have heoi : (eoiEvents n).flatMap (expandCall outputs) = eoiEvents n := by
    rw [eoiEvents]
    split_ifs <;> rfl
  have hcalls : handler.calls.flatMap (expandCall outputs) = handler.outputs outputs := by
    rw [IrqHandler.calls, IrqHandler.outputs]
    split_ifs
    · rfl
    · rw [List.flatMap_singleton, expandCall]
  have hquiet : uartAfter chip (eoiEvents n) = chip :=
    Device.foldl_of_others ignoresOthers_uartStep
      (fun _ he => isUartEvent_eoiEvents (List.mem_append_left handler.calls he)) chip
  rw [List.flatMap_append, heoi, hcalls, uartAfter_append, hquiet]

/-- **Every interrupt** puts on the serial line what its registered handler puts there and nothing
else, or ends in a panic with a text that can be read. -/
theorem vector_handled [FloatText] {v : Byte} {frame : InterruptStackFrame} {s : IrqState}
    (hs : s.Initialized) (hframe : frame.intNo = v.setWidth 32) (hchip : chip.dlab = false) :
    (∃ n < i8259NoIrqs, v = 32 + n ∧ ∃ s' events, handleVector v frame s = .ok s' ∧
      s'.trace = s.trace ++ events ∧ ∀ outputs : Word → Word → List IrqEvent,
        uartAfter chip (events.flatMap (expandCall outputs)) =
          uartAfter chip ((s.irqHandlers n).outputs outputs)) ∨
    ∃ text ∈ panicTexts, handleVector v frame s = .error text ∧
      panic (cString text) s.toPicState = .ok { s.toPicState with
        trace := s.trace ++ putEvents (chars "Panic: " ++ chars text ++ chars "\n") } ∧
      PanicIsFinal chip (chars "Panic: " ++ chars text ++ chars "\n") := by
  rcases handleVector_cases hs hframe with ⟨n, hn, hv, hexec⟩ | ⟨text, htext, hexec⟩
  · exact Or.inl ⟨n, hn, hv, _, _, hexec, List.append_assoc .., fun outputs =>
      uartAfter_line outputs n (s.irqHandlers n)⟩
  · exact Or.inr ⟨text, htext, hexec, panic_panicTexts htext hchip s.toPicState⟩

/-- The state after `i8259_init`, with a handler for the timer. -/
def timerIrqState : IrqState where
  pics pic := ⟨cmdPortOf pic, dataPortOf pic, 0xff⟩
  trace := []
  irqHandlers := Function.update (fun _ => ⟨null, null⟩) 0 ⟨0x100900, null⟩

/-- The frame of an interrupt without an error code. -/
def frameOf (v : Byte) : InterruptStackFrame :=
  ⟨⟨0, 0, 0, 0, 0, 0, 0, 0⟩, v.setWidth 32, 0, 0x100400, 8, 0x202⟩

attribute [local instance] noFloats in
/-- A timer interrupt, and a page fault. -/
theorem vector_handled_timerIrqState :
    (∃ s' events, handleVector 32 (frameOf 32) timerIrqState = .ok s' ∧
      s'.trace = [] ++ events ∧ ∀ outputs : Word → Word → List IrqEvent,
        uartAfter ⟨3, 0, 1, 0, []⟩ (events.flatMap (expandCall outputs)) =
          uartAfter ⟨3, 0, 1, 0, []⟩ (outputs 0x100900 null)) ∧
    handleVector 14 (frameOf 14) timerIrqState = .error "Unhandled exception" ∧
      panic (cString "Unhandled exception") timerIrqState.toPicState =
        .ok { timerIrqState.toPicState with
          trace := putEvents (chars "Panic: " ++ chars "Unhandled exception" ++ chars "\n") } ∧
      PanicIsFinal ⟨3, 0, 1, 0, []⟩
        (chars "Panic: " ++ chars "Unhandled exception" ++ chars "\n") := by
  have hs : timerIrqState.Initialized := fun _ => rfl
  have hchip : SerialPort.Chip.dlab ⟨3, 0, 1, 0, []⟩ = false := by decide
  have htimer : (frameOf 32).intNo = (32 : Byte).setWidth 32 := rfl
  have hfault : (frameOf 14).intNo = (14 : Byte).setWidth 32 := rfl
  constructor
  · rcases vector_handled hs htimer hchip with
      ⟨n, -, hn, s', events, hexec, htrace, huart⟩ | ⟨text, -, hexec, -⟩
    · obtain rfl : n = 0 := by bv_omega
      exact ⟨s', events, hexec, htrace, huart⟩
    · cases hexec
  · rcases vector_handled hs hfault hchip with
      ⟨n, hlt, hn, -⟩ | ⟨text, -, hexec, hpanic, hfinal⟩
    · rw [i8259NoIrqs] at hlt
      bv_omega
    · obtain rfl : "Unhandled exception" = text := Except.error.inj hexec
      exact ⟨rfl, hpanic, hfinal⟩

end Storm
