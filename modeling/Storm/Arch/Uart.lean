import Storm.Arch.I8259
import Storm.Lib.PrintfText
import Storm.Library.Device
import Storm.Library.SerialPort

/-! # `arch/i386/uart.c` and `putchar.c`: the serial line

`uart_init` programs the first serial port; `_putchar`, which `printf` calls for each character, writes
to its data register. The bytes that they write are in the history, among those that interrupt
handlers write to other devices; `uartAfter` is what the port makes of them.

The main result, `prints_sent`, says what is on the line after any number of calls of `printf`. -/

namespace Storm

open ByteMemory

/-- `UART_CLOCK_FREQ`. -/
def uartClockFreq : Word := 115200

/-- `UART_BAUD_RATE`. -/
def uartBaudRate : Word := 115200

/-- `UART_DIVISOR`. -/
def uartDivisor : Word := uartClockFreq / uartBaudRate

/-- `UART_COM1_PORT`. -/
def uartCom1Port : Port := 0x3F8

/-- `UART_DATA_REG_OFFSET`. -/
def uartDataRegOffset : Port := 0

/-- `UART_DIV_LOW_REG_OFFSET`. -/
def uartDivLowRegOffset : Port := 0

/-- `UART_DIV_HIGH_REG_OFFSET`. -/
def uartDivHighRegOffset : Port := 1

/-- `UART_LCR_REG_OFFSET`. -/
def uartLcrRegOffset : Port := 3

/-- `UART_DLAB_BIT`. -/
def uartDlabBit : Byte := 0x1 <<< 7

/-- `UART_LCR_8_DATA_BITS`. -/
def uartLcr8DataBits : Byte := 0x3

/-- `UART_LCR_1_STOP_BIT`. -/
def uartLcr1StopBit : Byte := 0x0

/-- `UART_LCR_NO_PARITY_BIT`. -/
def uartLcrNoParityBit : Byte := 0x0

/-- `uart_init`. -/
def uartInit (s : PicState) : PicState :=
  -- set DLAB to set the divisor
  let s := ioWriteByte (uartCom1Port + uartLcrRegOffset) uartDlabBit s
  let s := ioWriteByte (uartCom1Port + uartDivLowRegOffset) (uartDivisor.setWidth 8) s
  let s := ioWriteByte (uartCom1Port + uartDivHighRegOffset) ((uartDivisor >>> 8).setWidth 8) s
  -- clear DLAB
  let s := ioWriteByte (uartCom1Port + uartLcrRegOffset) 0 s
  ioWriteByte (uartCom1Port + uartLcrRegOffset)
    (uartLcr8DataBits ||| uartLcr1StopBit ||| uartLcrNoParityBit) s

/-- `uart_write_byte`. -/
def uartWriteByte (byte : Byte) (s : PicState) : PicState :=
  ioWriteByte (uartCom1Port + uartDataRegOffset) byte s

/-- `_putchar`. -/
def putchar (c : Byte) (s : PicState) : PicState := uartWriteByte c s

/-! ## The port -/

/-- The writes to the eight registers of the port. -/
def isUartEvent : IrqEvent → Bool
  | .out port _ => uartCom1Port ≤ port && port < uartCom1Port + 8
  | .setImr .. | .setFn .. | .setArg .. | .call .. => false

/-- What the port makes of an output. -/
def uartStep (chip : SerialPort.Chip) : IrqEvent → SerialPort.Chip
  | .out port byte =>
      if uartCom1Port ≤ port && port < uartCom1Port + 8 then
        chip.write (port - uartCom1Port).toNat byte
      else chip
  | .setImr .. | .setFn .. | .setArg .. | .call .. => chip

/-- The port after what the history records. -/
def uartAfter (chip : SerialPort.Chip) (trace : List IrqEvent) : SerialPort.Chip :=
  trace.foldl uartStep chip

/-- The port ignores what is written elsewhere. -/
theorem ignoresOthers_uartStep : Device.IgnoresOthers uartStep isUartEvent := by
  intro chip e he
  cases e with
  | out port byte => exact if_neg (Bool.eq_false_iff.mp he)
  | setImr => rfl
  | setFn => rfl
  | setArg => rfl
  | call => rfl

/-- What is written elsewhere in between does not matter. -/
theorem uartAfter_filter (chip : SerialPort.Chip) (trace : List IrqEvent) :
    uartAfter chip trace = uartAfter chip (trace.filter isUartEvent) :=
  Device.foldl_filter ignoresOthers_uartStep trace chip

theorem uartAfter_append (chip : SerialPort.Chip) (trace events : List IrqEvent) :
    uartAfter chip (trace ++ events) = uartAfter (uartAfter chip trace) events :=
  List.foldl_append

/-! ## What the functions write -/

/-- What `uart_init` adds to the history. -/
def uartInitEvents : List IrqEvent :=
  [.out 0x3FB 0x80, .out 0x3F8 1, .out 0x3F9 0, .out 0x3FB 0, .out 0x3FB 3]

theorem uartInit_eq (s : PicState) : uartInit s = { s with trace := s.trace ++ uartInitEvents } := by
  have hdivisor : uartDivisor = 1 := by decide
  simp only [uartInit, ioWriteByte, List.append_assoc, hdivisor]
  rfl

/-- **After `uart_init`** the port sends at the full clock frequency, in frames of eight bits without
parity, whatever state it was in. Nothing was sent meanwhile. -/
theorem uartAfter_uartInitEvents (chip : SerialPort.Chip) :
    uartAfter chip uartInitEvents =
      { lcr := 3, ier := chip.ier, divisorLow := 1, divisorHigh := 0, sent := chip.sent } := by
  simp [uartAfter, uartInitEvents, uartStep, uartCom1Port, SerialPort.Chip.write,
    SerialPort.Chip.dlab]

/-- The outputs for some characters. -/
def putEvents (cs : List Byte) : List IrqEvent := cs.map (.out uartCom1Port)

/-- `_putchar` for one character after the other. -/
theorem foldl_putchar (cs : List Byte) (s : PicState) :
    cs.foldl (fun s c => putchar c s) s = { s with trace := s.trace ++ putEvents cs } := by
  induction cs generalizing s with
  | nil => simp [putEvents]
  | cons c cs ih =>
      rw [List.foldl_cons, ih]
      simp [putEvents, putchar, uartWriteByte, ioWriteByte, uartDataRegOffset]

/-- **The port sends the characters.** -/
theorem uartAfter_putEvents {chip : SerialPort.Chip} (hchip : chip.dlab = false) (cs : List Byte) :
    uartAfter chip (putEvents cs) = { chip with sent := chip.sent ++ cs } := by
  rw [← SerialPort.Chip.foldl_write_data hchip, uartAfter, putEvents, List.foldl_map]
  rfl

/-! ## Printing -/

/-- The characters of a text that `printf_` puts. -/
def visible (t : List Byte) : List Byte := t.filter (· ≠ 0)

section Calls

variable [FloatText]

/-- `printf_` writes to the port only. -/
theorem printf_putchar (format : List Byte) (va : List Arg) (s : PicState) :
    printf putchar format va s = (formatText format va).map fun t =>
      ({ s with trace := s.trace ++ putEvents (visible t) }, BitVec.ofNat 32 t.length) := by
  rw [printf_eq]
  simp only [foldl_putchar, visible]

/-- One call of `printf_` after the other. -/
def runPrints (calls : List (List Byte × List Arg)) (s : PicState) : Except Fault PicState :=
  calls.foldlM (fun s call => (printf putchar call.1 call.2 s).map Prod.fst) s

/-- The texts of several calls. -/
def callTexts (calls : List (List Byte × List Arg)) : Except Fault (List (List Byte)) :=
  calls.mapM fun call => formatText call.1 call.2

/-- **Calls of `printf_`** write their texts one after the other. -/
theorem runPrints_eq (calls : List (List Byte × List Arg)) (s : PicState) :
    runPrints calls s = (callTexts calls).map fun ts =>
      { s with trace := s.trace ++ putEvents (visible ts.flatten) } := by
  induction calls generalizing s with
  | nil => simp [runPrints, callTexts, putEvents, visible, pure, Except.pure, Except.map]
  | cons call calls ih =>
      rw [runPrints, List.foldlM_cons, printf_putchar, callTexts, List.mapM_cons]
      cases formatText call.1 call.2 with
      | error e => rfl
      | ok t =>
          refine (ih _).trans ?_
          rw [callTexts]
          cases calls.mapM fun call => formatText call.1 call.2 with
          | error e => rfl
          | ok ts => simp [Except.map, bind, Except.bind, pure, Except.pure, putEvents, visible]

end Calls

/-- How the port sends after `uart_init`. -/
theorem sends_uartInit (ier : Byte) (sent : List Byte) :
    let chip : SerialPort.Chip := ⟨3, ier, 1, 0, sent⟩
    chip.dlab = false ∧ chip.Sends (uartDivisor.setWidth 16) := by
  have hbits : (3#8).getLsbD 7 = false ∧ (3#8).getLsbD 2 = false ∧ (3#8).getLsbD 3 = false ∧
      (3#8).getLsbD 6 = false := by decide
  have hdivisor : (0#8 ++ 1#8 : BitVec 16) = uartDivisor.setWidth 16 := by decide
  obtain ⟨hdlab, hstop, hparity, hbreak⟩ := hbits
  exact ⟨hdlab, rfl, hstop, hparity, hbreak, hdivisor⟩

/-- **What is on the line** after `uart_init` and any number of calls of `printf`: the characters of
their texts, one after the other, whatever state the port was in and whatever interrupt handlers
write to other devices meanwhile. The divisor is one. -/
theorem prints_sent [FloatText] {calls : List (List Byte × List Arg)} {s s' : PicState}
    (hrun : runPrints calls (uartInit s) = .ok s') {trace : List IrqEvent}
    (htrace : s.trace ++ trace.filter isUartEvent = s'.trace) (chip : SerialPort.Chip) :
    ∃ ts, callTexts calls = .ok ts ∧ (uartAfter chip trace).Sends (uartDivisor.setWidth 16) ∧
      (uartAfter chip trace).ier = chip.ier ∧
      (uartAfter chip trace).sent = chip.sent ++ visible ts.flatten := by
  rw [runPrints_eq, uartInit_eq] at hrun
  cases htexts : callTexts calls with
  | error e =>
      rw [htexts] at hrun
      cases hrun
  | ok ts =>
      rw [htexts] at hrun
      cases hrun
      refine ⟨ts, rfl, ?_⟩
      dsimp only at htrace
      rw [List.append_assoc, List.append_cancel_left_eq] at htrace
      obtain ⟨hdlab, hsends⟩ := sends_uartInit chip.ier chip.sent
      rw [uartAfter_filter, htrace, uartAfter_append, uartAfter_uartInitEvents,
        uartAfter_putEvents hdlab]
      exact ⟨hsends.congr rfl rfl rfl, rfl, rfl⟩

attribute [local instance] noFloats in
/-- Two calls, and an interrupt in between. -/
theorem prints_sent_interrupted :
    let chip := uartAfter ⟨0x80, 0, 0, 0, []⟩ (uartInitEvents ++ [.out uartCom1Port (ascii 'o'),
      .out 0x20 0x20, .out uartCom1Port (ascii 'k')])
    ∃ ts, callTexts [([ascii 'o', 0], []), ([ascii 'k', 0], [])] = .ok ts ∧
      chip.Sends (uartDivisor.setWidth 16) ∧ chip.ier = 0 ∧ chip.sent = [] ++ visible ts.flatten := by
  have hrun : runPrints [([ascii 'o', 0], []), ([ascii 'k', 0], [])]
      (uartInit ⟨fun _ => ⟨0, 0, 0⟩, []⟩) =
        .ok ⟨fun _ => ⟨0, 0, 0⟩, uartInitEvents ++ putEvents [ascii 'o', ascii 'k']⟩ := by
    rw [runPrints_eq, uartInit_eq]
    rfl
  exact prints_sent hrun (by decide) ⟨0x80, 0, 0, 0, []⟩

end Storm
