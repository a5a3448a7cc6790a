import Storm.Library.I386

/-! # Interrupts of the i386

What the processor does with an interrupt in ring 0: it finds the gate of the vector in the
interrupt descriptor table, pushes the flags, the code segment and the instruction pointer, for some
exceptions an error code as well, and continues at the target of the gate. `iret` takes back the
first three.

`Resumes` is what the interrupted code may expect. -/

namespace I386

open ByteMemory

/-- A gate descriptor, decoded. -/
@[ext] structure Gate where
  /-- Whether the gate may be used. -/
  present : Bool
  /-- The privilege level needed to reach the gate with an `int` instruction. -/
  dpl : BitVec 2
  /-- Bits 5 to 12 of the second word. -/
  kind : BitVec 8
  /-- The code segment to continue in. -/
  selector : BitVec 16
  /-- The address to continue at. -/
  offset : Word
  deriving DecidableEq, Repr

/-- The kind of a 32-bit interrupt gate. -/
def interruptGate32 : BitVec 8 := 0b01110000

/-- Decode the two words of a gate descriptor. -/
def Gate.decode (low high : Word) : Gate where
  present := high.getLsbD 15
  dpl := high.extractLsb' 13 2
  kind := high.extractLsb' 5 8
  selector := low.extractLsb' 16 16
  offset := high.extractLsb' 16 16 ++ low.extractLsb' 0 16

/-- The exceptions for which the processor pushes an error code. -/
def pushesError (v : Byte) : Bool := v ∈ [8, 10, 11, 12, 13, 14, 17, 21]

/-- The flags that an interrupt gate clears: `TF`, `IF`, `NT`, `RF` and `VM`. -/
def clearedFlags : Word := 0x34300

/-- Take an interrupt through an interrupt gate, without a change of privilege. -/
def Machine.interrupt (gate : Gate) (error : Option Word) (m : Machine) : Machine :=
  let pushed := ((m.push m.eflags).push m.cs).push m.eip
  let pushed := match error with
    | none => pushed
    | some error => pushed.push error
  { pushed with
    eip := gate.offset
    cs := gate.selector.setWidth 32
    eflags := m.eflags &&& ~~~clearedFlags }

/-- The machine `m'` goes on where `m` was: with the same registers, and the same memory on the `n`
bytes at and above the stack pointer. -/
structure Resumes (n : ℕ) (m m' : Machine) : Prop where
  gpr : ∀ r, m'.gpr r = m.gpr r
  eip : m'.eip = m.eip
  cs : m'.cs = m.cs
  eflags : m'.eflags = m.eflags
  mem : Agree (Above (m.gpr .esp) n) m'.mem m.mem

end I386
