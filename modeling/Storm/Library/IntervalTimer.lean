import Mathlib.Data.BitVec

/-! # The 8254 interval timer

The chip has three counters and a control word register. A control word programs the counter that it
selects: how the two bytes of its count are transferred, the mode, and whether it counts in binary
or in decimal. The bytes of a count then go to the register of the counter itself.

Only what is written to the chip is modelled, not the counting. -/

namespace IntervalTimer

/-- A byte on the data bus. -/
abbrev Byte := BitVec 8

/-- How the bytes of a count are transferred. -/
inductive Access where
  /-- Only the low byte; the high byte is zero. -/
  | low
  /-- Only the high byte; the low byte is zero. -/
  | high
  /-- First the low byte, then the high byte. -/
  | lowHigh
  deriving DecidableEq, Repr

/-- A counter. -/
structure Counter where
  access : Access
  mode : BitVec 3
  /-- Whether it counts in decimal digits. -/
  bcd : Bool
  /-- The low byte, when the high byte is still to come. -/
  pending : Option Byte
  /-- The count register. -/
  count : BitVec 16
  deriving DecidableEq, Repr

/-- The chip: its three counters. -/
abbrev Chip := Fin 3 → Counter

/-- The transfer that bits 5 and 4 of a control word ask for; none for a counter latch command. -/
def accessOf (control : Byte) : Option Access :=
  match control.getLsbD 5, control.getLsbD 4 with
  | false, false => none
  | false, true => some .low
  | true, false => some .high
  | true, true => some .lowHigh

/-- A control word for a counter. -/
def Counter.control (control : Byte) (c : Counter) : Counter :=
  match accessOf control with
  | none => c
  | some access =>
      { c with access, mode := control.extractLsb' 1 3, bcd := control.getLsbD 0, pending := none }

/-- A byte of a count. -/
def Counter.data (byte : Byte) (c : Counter) : Counter :=
  match c.access, c.pending with
  | .low, _ => { c with count := 0#8 ++ byte }
  | .high, _ => { c with count := byte ++ 0#8 }
  | .lowHigh, none => { c with pending := some byte }
  | .lowHigh, some low => { c with pending := none, count := byte ++ low }

/-- The number in a count register, which is never zero: all zeros stand for the number behind the
largest one. -/
def Counter.period (c : Counter) : ℕ :=
  let digit (i : ℕ) := (c.count.extractLsb' (4 * i) 4).toNat
  let n := if c.bcd then digit 0 + 10 * digit 1 + 100 * digit 2 + 1000 * digit 3
    else c.count.toNat
  if n = 0 then if c.bcd then 10000 else 65536 else n

/-- A write to the control word register. Bits 7 and 6 select the counter; the value three is that
of the read-back command, which programs none. -/
def Chip.control (byte : Byte) (chip : Chip) : Chip := fun i =>
  if (byte.extractLsb' 6 2).toNat = i.val then (chip i).control byte else chip i

/-- A write to the register of a counter. -/
def Chip.data (i : Fin 3) (byte : Byte) (chip : Chip) : Chip :=
  Function.update chip i ((chip i).data byte)

/-- The two bytes of a number make up the number. -/
theorem append_bytes (v : BitVec 16) : (v >>> 8).setWidth 8 ++ (v &&& 0xff#16).setWidth 8 = v := by
  have hmask : ∀ i < 8, (0xff#16).getLsbD i = true := by decide
  apply BitVec.eq_of_getLsbD_eq
  intro i hi
  simp only [BitVec.getLsbD_append, BitVec.getLsbD_setWidth, BitVec.getLsbD_and,
    BitVec.getLsbD_ushiftRight]
  by_cases h : i < 8
  · simp only [h, hmask i h, decide_true, Bool.true_and, Bool.and_true, if_true]
  · simp only [h, if_false, show i - 8 < 8 by omega, show 8 + (i - 8) = i by omega, decide_true,
      Bool.true_and]

/-- **Programming a counter** with both bytes of a count, in binary. -/
theorem period_lowHigh {c : Counter} {control : Byte} (haccess : accessOf control = some .lowHigh)
    (hbinary : control.getLsbD 0 = false) (v : BitVec 16) :
    (((c.control control).data ((v &&& 0xff#16).setWidth 8)).data
      ((v >>> 8).setWidth 8)).period = if v.toNat = 0 then 65536 else v.toNat := by
  unfold Counter.control
  rw [haccess]
  simp only [Counter.data, Counter.period, hbinary, append_bytes, Bool.false_eq_true, if_false]

end IntervalTimer
