import Mathlib.Data.BitVec

/-! # The 16550 serial port

Eight registers, of which the first two have another meaning while bit 7 of the line control register
is set: then they are the divisor of the clock, otherwise the data and the enabled interrupts. A byte
that is written to the data register is sent.

Only what is written to the port is modelled: it is always ready to send. -/

namespace SerialPort

/-- A byte on the data bus. -/
abbrev Byte := BitVec 8

/-- The port, and what it has sent. -/
@[ext] structure Chip where
  /-- The line control register. -/
  lcr : Byte
  /-- The interrupt enable register. -/
  ier : Byte
  divisorLow : Byte
  divisorHigh : Byte
  /-- The bytes that were sent, in order. -/
  sent : List Byte
  deriving DecidableEq, Repr

namespace Chip

/-- Whether the first two registers are those of the divisor. -/
def dlab (c : Chip) : Bool := c.lcr.getLsbD 7

/-- The divisor of the clock. -/
def divisor (c : Chip) : BitVec 16 := c.divisorHigh ++ c.divisorLow

/-- The number of data bits in a frame. -/
def dataBits (c : Chip) : ℕ := 5 + (c.lcr.extractLsb' 0 2).toNat

/-- Whether a frame has more than one stop bit. -/
def longStop (c : Chip) : Bool := c.lcr.getLsbD 2

/-- Whether a frame has a parity bit. -/
def parity (c : Chip) : Bool := c.lcr.getLsbD 3

/-- Whether the line is held in the break condition, in which nothing can be sent. -/
def setBreak (c : Chip) : Bool := c.lcr.getLsbD 6

/-- The port sends frames of eight data bits and one stop bit, without parity, at the clock frequency
divided by `n`. -/
structure Sends (c : Chip) (n : BitVec 16) : Prop where
  dataBits : c.dataBits = 8
  stop : c.longStop = false
  parity : c.parity = false
  setBreak : c.setBreak = false
  divisor : c.divisor = n

/-- The line control register and the divisor say how it sends. -/
theorem Sends.congr {c c' : Chip} {n : BitVec 16} (h : c.Sends n) (hlcr : c'.lcr = c.lcr)
    (hlow : c'.divisorLow = c.divisorLow) (hhigh : c'.divisorHigh = c.divisorHigh) : c'.Sends n := by
  have hdivisor : c'.divisor = c.divisor := by rw [Chip.divisor, Chip.divisor, hlow, hhigh]
  refine ⟨?_, ?_, ?_, ?_, hdivisor.trans h.divisor⟩
  · rw [← h.dataBits, Chip.dataBits, Chip.dataBits, hlcr]
  · rw [← h.stop, Chip.longStop, Chip.longStop, hlcr]
  · rw [← h.parity, Chip.parity, Chip.parity, hlcr]
  · rw [← h.setBreak, Chip.setBreak, Chip.setBreak, hlcr]

/-- A write to a register. -/
def write (offset : ℕ) (byte : Byte) (c : Chip) : Chip :=
  if offset = 0 then
    if c.dlab then { c with divisorLow := byte } else { c with sent := c.sent ++ [byte] }
  else if offset = 1 then
    if c.dlab then { c with divisorHigh := byte } else { c with ier := byte }
  else if offset = 3 then { c with lcr := byte }
  else c

variable {c : Chip}

/-- A byte for the data register is sent. -/
theorem write_data (h : c.dlab = false) (byte : Byte) :
    c.write 0 byte = { c with sent := c.sent ++ [byte] } := by
  rw [write, if_pos rfl, h, if_neg Bool.false_ne_true]

/-- **Bytes are sent in order.** -/
theorem foldl_write_data (h : c.dlab = false) (bytes : List Byte) :
    bytes.foldl (fun c byte => c.write 0 byte) c = { c with sent := c.sent ++ bytes } := by
  induction bytes generalizing c with
  | nil => rw [List.foldl_nil, List.append_nil]
  | cons byte bytes ih =>
      have hnext : ({ c with sent := c.sent ++ [byte] } : Chip).dlab = false := h
      rw [List.foldl_cons, write_data h, ih hnext, List.append_assoc, List.singleton_append]

end Chip

end SerialPort
