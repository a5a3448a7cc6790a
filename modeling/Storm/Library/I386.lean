import Storm.Library.ByteMemory
import Mathlib.Data.List.Range

/-! # A fragment of the i386

The general registers, a flat byte memory and the instructions that hand-written context-switch and
interrupt code is made of. `Instr.effect` is what an instruction does to registers and memory,
`Instr.exec` adds where it continues.

Code is a list of instructions together with the addresses the linker gave them (`Linked`); jump
targets inside the code are list positions. `Linked.step` fetches and executes the instruction at
`eip`, `Linked.run` does so a number of times. `Linked.run_straight` computes a run through
straight-line code as the composition of the instructions' effects. -/

namespace I386

open ByteMemory

/-- The eight general registers. -/
inductive Reg where
  | eax | ecx | edx | ebx | esp | ebp | esi | edi
  deriving DecidableEq, Repr

/-- The state of the processor, together with the memory. -/
@[ext] structure Machine where
  /-- The general registers. -/
  gpr : Reg → Word
  /-- The instruction pointer. -/
  eip : Word
  /-- The code segment selector, as it is pushed. -/
  cs : Word
  /-- The flags. -/
  eflags : Word
  /-- The memory. -/
  mem : Memory

namespace Machine

/-- Write a general register. -/
def setReg (r : Reg) (v : Word) (m : Machine) : Machine :=
  { m with gpr := Function.update m.gpr r v }

/-- Push a word: the stack pointer moves down by four and the word is stored there. -/
def push (v : Word) (m : Machine) : Machine :=
  { m with
    gpr := Function.update m.gpr .esp (m.gpr .esp - 4)
    mem := store32 m.mem (m.gpr .esp - 4) v }

/-- The word at the top of the stack. -/
def top (m : Machine) : Word := load32 m.mem (m.gpr .esp)

/-- Move the stack pointer up by `n` bytes. -/
def drop (n : Word) (m : Machine) : Machine := m.setReg .esp (m.gpr .esp + n)

/-- Pop a word into a register. -/
def popReg (r : Reg) (m : Machine) : Machine := (m.drop 4).setReg r m.top

/-- Continue at another address. -/
def setEip (pc : Word) (m : Machine) : Machine := { m with eip := pc }

@[simp] theorem setEip_eip (pc : Word) (m : Machine) : (m.setEip pc).eip = pc := rfl

@[simp] theorem setEip_setEip (pc pc' : Word) (m : Machine) :
    (m.setEip pc).setEip pc' = m.setEip pc' := rfl

/-- Continuing where the machine already is changes nothing. -/
@[simp] theorem setEip_self (m : Machine) : m.setEip m.eip = m := rfl

@[simp] theorem setReg_setEip (r : Reg) (v pc : Word) (m : Machine) :
    (m.setEip pc).setReg r v = (m.setReg r v).setEip pc := rfl

@[simp] theorem push_setEip (v pc : Word) (m : Machine) :
    (m.setEip pc).push v = (m.push v).setEip pc := rfl

@[simp] theorem drop_setEip (n pc : Word) (m : Machine) :
    (m.setEip pc).drop n = (m.drop n).setEip pc := rfl

@[simp] theorem popReg_setEip (r : Reg) (pc : Word) (m : Machine) :
    (m.setEip pc).popReg r = (m.popReg r).setEip pc := rfl

@[simp] theorem setEip_gpr (pc : Word) (m : Machine) : (m.setEip pc).gpr = m.gpr := rfl

@[simp] theorem setEip_mem (pc : Word) (m : Machine) : (m.setEip pc).mem = m.mem := rfl

@[simp] theorem setEip_cs (pc : Word) (m : Machine) : (m.setEip pc).cs = m.cs := rfl

@[simp] theorem setEip_eflags (pc : Word) (m : Machine) : (m.setEip pc).eflags = m.eflags := rfl

@[simp] theorem setReg_gpr (r r' : Reg) (v : Word) (m : Machine) :
    (m.setReg r v).gpr r' = if r' = r then v else m.gpr r' := Function.update_apply ..

@[simp] theorem setReg_mem (r : Reg) (v : Word) (m : Machine) : (m.setReg r v).mem = m.mem := rfl

@[simp] theorem setReg_eip (r : Reg) (v : Word) (m : Machine) : (m.setReg r v).eip = m.eip := rfl

@[simp] theorem setReg_cs (r : Reg) (v : Word) (m : Machine) : (m.setReg r v).cs = m.cs := rfl

@[simp] theorem setReg_eflags (r : Reg) (v : Word) (m : Machine) :
    (m.setReg r v).eflags = m.eflags := rfl

@[simp] theorem push_gpr (r : Reg) (v : Word) (m : Machine) :
    (m.push v).gpr r = if r = .esp then m.gpr .esp - 4 else m.gpr r := Function.update_apply ..

@[simp] theorem push_mem (v : Word) (m : Machine) :
    (m.push v).mem = store32 m.mem (m.gpr .esp - 4) v := rfl

@[simp] theorem push_eip (v : Word) (m : Machine) : (m.push v).eip = m.eip := rfl

@[simp] theorem push_cs (v : Word) (m : Machine) : (m.push v).cs = m.cs := rfl

@[simp] theorem push_eflags (v : Word) (m : Machine) : (m.push v).eflags = m.eflags := rfl

@[simp] theorem drop_gpr (r : Reg) (n : Word) (m : Machine) :
    (m.drop n).gpr r = if r = .esp then m.gpr .esp + n else m.gpr r := Function.update_apply ..

@[simp] theorem drop_mem (n : Word) (m : Machine) : (m.drop n).mem = m.mem := rfl

@[simp] theorem drop_eip (n : Word) (m : Machine) : (m.drop n).eip = m.eip := rfl

@[simp] theorem drop_cs (n : Word) (m : Machine) : (m.drop n).cs = m.cs := rfl

@[simp] theorem drop_eflags (n : Word) (m : Machine) : (m.drop n).eflags = m.eflags := rfl

end Machine

/-- The flags after adding `b` to `a`: carry, parity, auxiliary carry, zero, sign and overflow are
set from the operands, the other flags are kept. -/
def addFlags (eflags a b : Word) : Word :=
  let r := a + b
  let bit (n : ℕ) (c : Bool) : Word := if c then 1 <<< n else 0
  let parity := !((List.range 8).foldl (fun p i => p ^^ r.getLsbD i) false)
  (eflags &&& ~~~(0x8d5 : Word)) ||| bit 0 (r < a) ||| bit 2 parity
    ||| bit 4 ((a &&& 0xf) + (b &&& 0xf) > 0xf) ||| bit 6 (r = 0) ||| bit 7 r.msb
    ||| bit 11 (a.msb = b.msb ∧ r.msb ≠ a.msb)

/-- The instructions, in AT&T operand order (source before destination). -/
inductive Instr where
  /-- `mov disp(base), dst`. -/
  | load (disp : Word) (base dst : Reg)
  /-- `mov src, (base)`. -/
  | store (src base : Reg)
  /-- `mov src, dst`. -/
  | mov (src dst : Reg)
  /-- `push src`. -/
  | push (src : Reg)
  /-- `pushl $v`. -/
  | pushImm (v : Word)
  /-- `pop dst`. -/
  | pop (dst : Reg)
  /-- `add $v, dst`. -/
  | addImm (v : Word) (dst : Reg)
  /-- `pushal`: all general registers, the stack pointer with its value before the instruction. -/
  | pushal
  /-- `popal`: all general registers but the stack pointer, whose slot is skipped. -/
  | popal
  /-- `jmp` to a position of the same code. -/
  | jmp (target : ℕ)
  /-- `call` of a function at an address. -/
  | call (target : Word)
  /-- `ret`. -/
  | ret
  /-- `iret` without a change of privilege. -/
  | iret
  deriving DecidableEq, Repr

namespace Instr

/-- What an instruction does to the registers and the memory, the instruction pointer apart. For a
`call` it is the push of the return address `next`. -/
def effect (next : Word) (m : Machine) : Instr → Machine
  | .load disp base dst => m.setReg dst (load32 m.mem (m.gpr base + disp))
  | .store src base => { m with mem := store32 m.mem (m.gpr base) (m.gpr src) }
  | .mov src dst => m.setReg dst (m.gpr src)
  | .push src => m.push (m.gpr src)
  | .pushImm v => m.push v
  | .pop dst => m.popReg dst
  | .addImm v dst => { m.setReg dst (m.gpr dst + v) with eflags := addFlags m.eflags (m.gpr dst) v }
  | .pushal =>
      let sp := m.gpr .esp
      (((((((m.push (m.gpr .eax)).push (m.gpr .ecx)).push (m.gpr .edx)).push (m.gpr .ebx)).push
        sp).push (m.gpr .ebp)).push (m.gpr .esi)).push (m.gpr .edi)
  | .popal =>
      (((((((m.popReg .edi).popReg .esi).popReg .ebp).drop 4).popReg .ebx).popReg .edx).popReg
        .ecx).popReg .eax
  | .jmp _ => m
  | .call _ => m.push next
  | .ret => m.drop 4
  | .iret =>
      { m.drop 12 with
        cs := load32 m.mem (m.gpr .esp + 4)
        eflags := load32 m.mem (m.gpr .esp + 8) }

/-- Where execution continues after an instruction whose successor in the code is at `next`. -/
def continueAt (label : ℕ → Word) (next : Word) (m : Machine) : Instr → Word
  | .jmp target => label target
  | .call target => target
  | .ret | .iret => m.top
  | .load .. | .store .. | .mov .. | .push .. | .pushImm .. | .pop .. | .addImm .. | .pushal
  | .popal => next

/-- Execute one instruction. -/
def exec (label : ℕ → Word) (next : Word) (m : Machine) (i : Instr) : Machine :=
  (i.effect next m).setEip (i.continueAt label next m)

@[simp] theorem exec_eip (label : ℕ → Word) (next : Word) (m : Machine) (i : Instr) :
    (i.exec label next m).eip = i.continueAt label next m := rfl

/-- The effect of an instruction does not depend on the instruction pointer. -/
theorem effect_setEip (next pc : Word) (m : Machine) (i : Instr) :
    i.effect next (m.setEip pc) = (i.effect next m).setEip pc := by
  cases i with
  | pushal => simp only [effect, Machine.push_setEip, Machine.setEip_gpr]
  | popal => simp only [effect, Machine.popReg_setEip, Machine.drop_setEip]
  | _ => rfl

/-- Instructions that do not write the flags. -/
def keepsFlags : Instr → Bool
  | .addImm .. | .iret => false
  | .load .. | .store .. | .mov .. | .push .. | .pushImm .. | .pop .. | .pushal | .popal | .jmp ..
  | .call .. | .ret => true

/-- They do not. -/
theorem eflags_exec {label : ℕ → Word} {next : Word} {m : Machine} {i : Instr}
    (hi : i.keepsFlags = true) : (i.exec label next m).eflags = m.eflags := by
  cases i with
  | addImm | iret => simp [keepsFlags] at hi
  | _ => rfl

/-- Instructions after which execution continues with the following one. -/
def straight : Instr → Bool
  | .jmp .. | .call .. | .ret | .iret => false
  | .load .. | .store .. | .mov .. | .push .. | .pushImm .. | .pop .. | .addImm .. | .pushal
  | .popal => true

end Instr

/-- The addresses a linker gives to the instructions of `code`, all different. -/
structure Linked (code : List Instr) where
  /-- The address of the instruction at each position; at position `code.length`, the address just
  behind the code. -/
  addr : ℕ → Word
  /-- Different instructions have different addresses. -/
  addr_inj : ∀ i < code.length, ∀ j < code.length, addr i = addr j → i = j

namespace Linked

variable {code : List Instr} (l : Linked code)

/-- Addresses in a row from `base` on, one for each instruction. -/
def consecutive (code : List Instr) (base : Word) (h : code.length ≤ 2 ^ 32) : Linked code where
  addr i := base + BitVec.ofNat 32 i
  addr_inj i hi j hj heq := by
    have hij := congrArg BitVec.toNat (add_left_cancel heq)
    rwa [BitVec.toNat_ofNat, BitVec.toNat_ofNat, Nat.mod_eq_of_lt (by omega),
      Nat.mod_eq_of_lt (by omega)] at hij

/-- The position of the instruction at an address, if there is one. -/
def fetch (eip : Word) : Option ℕ := (List.range code.length).find? (fun i => l.addr i = eip)

/-- The instruction at position `i` is found at its address. -/
theorem fetch_addr {i : ℕ} (hi : i < code.length) : l.fetch (l.addr i) = some i := by
  rw [fetch, List.find?_range_eq_some]
  refine ⟨by simp, List.mem_range.mpr hi, fun j hj => ?_⟩
  have hne : l.addr j ≠ l.addr i := fun h => absurd (l.addr_inj j (by omega) i hi h) (by omega)
  simpa using hne

/-- Execute the instruction at `eip`; `none` outside of the code. -/
def step (m : Machine) : Option Machine :=
  match l.fetch m.eip with
  | none => none
  | some i => (code[i]?).map (Instr.exec l.addr (l.addr (i + 1)) m)

/-- Execute up to `n` instructions, as long as `eip` is in the code. -/
def run : ℕ → Machine → Machine
  | 0, m => m
  | n + 1, m =>
      match l.step m with
      | none => m
      | some m' => run n m'

/-- A step executes an instruction of the code. -/
theorem exists_of_step {m m' : Machine} (h : l.step m = some m') :
    ∃ i ∈ code, ∃ next, m' = i.exec l.addr next m := by
  rw [step] at h
  cases hfetch : l.fetch m.eip with
  | none => simp [hfetch] at h
  | some k =>
      rw [hfetch] at h
      obtain ⟨i, hi, rfl⟩ := Option.map_eq_some_iff.mp h
      exact ⟨i, List.mem_of_getElem? hi, _, rfl⟩

/-- A step at position `i` of the code executes the instruction there. -/
theorem step_of_eip {m : Machine} {i : ℕ} (hi : i < code.length) (h : m.eip = l.addr i) :
    l.step m = some (code[i].exec l.addr (l.addr (i + 1)) m) := by
  simp only [step, h, l.fetch_addr hi, List.getElem?_eq_getElem hi, Option.map_some]

/-- A run from position `i` of the code executes the instruction there and continues. -/
theorem run_of_eip {m : Machine} {i n : ℕ} (hi : i < code.length) (h : m.eip = l.addr i) :
    l.run (n + 1) m = l.run n (code[i].exec l.addr (l.addr (i + 1)) m) := by
  rw [run, l.step_of_eip hi h]

/-- The same for code that is only known at position `i`. -/
theorem run_of_getElem? {m : Machine} {i n : ℕ} {c : Instr} (hi : code[i]? = some c)
    (h : m.eip = l.addr i) :
    l.run (n + 1) m = l.run n (c.exec l.addr (l.addr (i + 1)) m) := by
  obtain ⟨hlt, rfl⟩ := List.getElem?_eq_some_iff.mp hi
  exact l.run_of_eip hlt h

/-- Outside of the code a run does not move. -/
theorem run_of_step_none {m : Machine} (h : l.step m = none) (n : ℕ) : l.run n m = m := by
  cases n with
  | zero => rfl
  | succ n => rw [run, h]

/-- A run of `a + b` instructions is a run of `a`, then of `b`. -/
theorem run_add (a b : ℕ) (m : Machine) : l.run (a + b) m = l.run b (l.run a m) := by
  induction a generalizing m with
  | zero => rw [Nat.zero_add, run]
  | succ a ih =>
      rw [Nat.add_right_comm, run, run]
      cases hm : l.step m with
      | some m' => exact ih m'
      | none => exact (l.run_of_step_none hm b).symm

/-- The composed effect of a straight-line piece of code. -/
def effects (m : Machine) (is : List Instr) : Machine := is.foldl (fun m i => i.effect 0 m) m

/-- The composed effect does not depend on the instruction pointer. -/
theorem effects_setEip (pc : Word) (m : Machine) (is : List Instr) :
    effects (m.setEip pc) is = (effects m is).setEip pc := by
  induction is generalizing m with
  | nil => rfl
  | cons i is ih =>
      rw [effects, List.foldl_cons, Instr.effect_setEip, ← effects, ih]
      rfl

/-- A straight-line instruction has its effect and continues behind itself. -/
theorem exec_straight {label : ℕ → Word} {next : Word} {m : Machine} {i : Instr}
    (hi : i.straight) : i.exec label next m = (i.effect 0 m).setEip next := by
  cases i with
  | jmp | call | ret | iret => simp [Instr.straight] at hi
  | _ => simp only [Instr.exec, Instr.effect, Instr.continueAt]

/-- **Straight-line code.** A run through `n` straight-line instructions from position `i` composes
their effects and arrives at position `i + n`. -/
theorem run_straight {m : Machine} {i n : ℕ} (hn : i + n ≤ code.length) (h : m.eip = l.addr i)
    (hs : ∀ k (hk : k < n), (code.get ⟨i + k, by omega⟩).straight) :
    l.run n m = (effects m ((code.drop i).take n)).setEip (l.addr (i + n)) := by
  induction n generalizing m i with
  | zero =>
      rw [run, List.take_zero, effects, List.foldl_nil, Nat.add_zero, ← h, Machine.setEip_self]
  | succ n ih =>
      have hi : i < code.length := by omega
      have hs₀ : code[i].straight := hs 0 (by omega)
      rw [l.run_of_eip hi h, exec_straight hs₀, ih (i := i + 1) (by omega) rfl, effects_setEip,
        Machine.setEip_setEip, List.drop_eq_getElem_cons hi, List.take_succ_cons]
      · rw [show i + 1 + n = i + (n + 1) by omega]
        rfl
      · intro k hk
        have := hs (k + 1) (by omega)
        simpa only [show i + (k + 1) = i + 1 + k by omega] using this

/-- Code whose instructions keep the flags keeps them. -/
theorem eflags_run (hcode : ∀ i ∈ code, i.keepsFlags = true) (n : ℕ) (m : Machine) :
    (l.run n m).eflags = m.eflags := by
  induction n generalizing m with
  | zero => rfl
  | succ n ih =>
      rw [run]
      cases hm : l.step m with
      | none => rfl
      | some m' =>
          obtain ⟨i, hi, next, rfl⟩ := l.exists_of_step hm
          rw [ih, Instr.eflags_exec (hcode i hi)]

end Linked

end I386
