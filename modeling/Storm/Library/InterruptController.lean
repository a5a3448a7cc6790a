import Mathlib.Data.BitVec

/-! # The 8259A interrupt controller

A controller has eight lines. Software writes to its command port and to its data port. What a byte
at the data port means depends on the state of the chip: after the first word of an initialization
at the command port, it is one of the words that are still awaited; otherwise it is the interrupt
mask.

Of the commands, only the beginning of an initialization and the non-specific end of interrupt are
modelled, in fully nested mode: line 0 has the highest priority. -/

namespace InterruptController

/-- A byte on the data bus. -/
abbrev Byte := BitVec 8

/-- The initialization words that go to the data port. -/
inductive InitWord where
  /-- The vector of line 0, in bits 7 to 3. -/
  | icw2
  /-- How the controllers are connected: for a master a mask of the lines with slaves, for a slave
  the number of its line. -/
  | icw3
  /-- The mode. -/
  | icw4
  deriving DecidableEq, Repr

/-- A controller. -/
structure Chip where
  /-- The initialization words that are still to come. -/
  awaited : List InitWord
  icw2 : Byte
  icw3 : Byte
  icw4 : Byte
  /-- The interrupt mask: a set bit masks a line. -/
  imr : Byte
  /-- The lines in service. -/
  isr : Byte
  deriving DecidableEq, Repr

/-- The words that follow the first one of an initialization: its bit 1 says that there is a single
controller, its bit 0 asks for the fourth word. -/
def awaitedAfter (icw1 : Byte) : List InitWord :=
  [.icw2] ++ (if icw1.getLsbD 1 then [] else [.icw3]) ++ if icw1.getLsbD 0 then [.icw4] else []

namespace Chip

/-- A non-specific end of interrupt: of the lines in service, the one with the highest priority is
no longer. -/
def endOfInterrupt (c : Chip) : Chip := { c with isr := c.isr &&& (c.isr - 1) }

/-- A byte at the command port. -/
def command (byte : Byte) (c : Chip) : Chip :=
  if byte.getLsbD 4 then { c with awaited := awaitedAfter byte, imr := 0 }
  else if byte = 0x20 then c.endOfInterrupt
  else c

/-- A byte at the data port. -/
def data (byte : Byte) (c : Chip) : Chip :=
  match c.awaited with
  | .icw2 :: rest => { c with awaited := rest, icw2 := byte }
  | .icw3 :: rest => { c with awaited := rest, icw3 := byte }
  | .icw4 :: rest => { c with awaited := rest, icw4 := byte }
  | [] => { c with imr := byte }

/-- The processor acknowledges an interrupt of a line. -/
def acknowledge (line : ℕ) (c : Chip) : Chip := { c with isr := c.isr ||| 1#8 <<< line }

/-- The vector of a line. -/
def vector (line : ℕ) (c : Chip) : Byte := (c.icw2 &&& 0xf8#8) + BitVec.ofNat 8 line

variable {c : Chip} {byte : Byte} {line : ℕ}

/-- No line is in service. -/
def Idle (c : Chip) : Prop := c.isr = 0

/-- Outside of an initialization, the data port is the mask. -/
theorem data_of_ready (h : c.awaited = []) : c.data byte = { c with imr := byte } := by
  unfold data
  rw [h]

/-- An end of interrupt when no line is in service changes nothing. -/
theorem endOfInterrupt_of_idle (h : c.Idle) : c.endOfInterrupt = c := by
  have hisr : c.isr = 0 := h
  have hclear : c.isr &&& (c.isr - 1) = c.isr := by
    rw [hisr]
    decide
  unfold endOfInterrupt
  rw [hclear]

/-- **An end of interrupt after an interrupt**, when no other line is in service. -/
theorem endOfInterrupt_acknowledge (h : c.Idle) (hline : line < 8) :
    (c.acknowledge line).endOfInterrupt = c := by
  have hclear : ∀ n < 8, (0#8 ||| 1#8 <<< n) &&& ((0#8 ||| 1#8 <<< n) - 1) = 0 := by decide
  obtain ⟨awaited, icw2, icw3, icw4, imr, isr⟩ := c
  obtain rfl : isr = 0 := h
  exact congrArg (Chip.mk awaited icw2 icw3 icw4 imr) (hclear line hline)

end Chip

end InterruptController
