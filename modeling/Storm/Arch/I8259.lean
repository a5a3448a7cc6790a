import Storm.Lib.Basic

/-! # `arch/i386/i8259.c`: the interrupt controllers

Two controllers with eight lines each, the slave behind line 2 of the master. For each the code
keeps its ports and a shadow of its mask register, in which a set bit masks a line.

The functions run on the static variables of the file and append what they do to a history: the
writes to ports and the assignments to the shadow masks, in order. -/

namespace Storm

open ByteMemory

/-- An I/O port. -/
abbrev Port := BitVec 16

/-- The two variables of type `struct i8259_pic`. -/
inductive Pic where
  | master
  | slave
  deriving DecidableEq, Repr

/-- `struct i8259_pic`. -/
structure I8259Pic where
  cmdPort : Port
  dataPort : Port
  imr : Byte
  deriving DecidableEq, Repr

/-- What the history records. -/
inductive IrqEvent where
  /-- `io_write_byte`. -/
  | out (port : Port) (byte : Byte)
  /-- `pic->imr = imr`. -/
  | setImr (pic : Pic) (imr : Byte)
  /-- `handler->fn = fn`, for the handler of a line. -/
  | setFn (irq : Byte) (fn : Word)
  /-- `handler->arg = arg`. -/
  | setArg (irq : Byte) (arg : Word)
  /-- `handler->fn(handler->arg)`. -/
  | call (fn arg : Word)
  deriving DecidableEq, Repr

/-- `master_pic` and `slave_pic`, and the history. -/
structure PicState where
  pics : Pic → I8259Pic
  trace : List IrqEvent

/-- `I8259_MASTER_PIC_CMD_PORT`. -/
def i8259MasterPicCmdPort : Port := 0x20

/-- `I8259_MASTER_PIC_DATA_PORT`. -/
def i8259MasterPicDataPort : Port := 0x21

/-- `I8259_SLAVE_PIC_CMD_PORT`. -/
def i8259SlavePicCmdPort : Port := 0xA0

/-- `I8259_SLAVE_PIC_DATA_PORT`. -/
def i8259SlavePicDataPort : Port := 0xA1

/-- `I8259_SLAVE_IRQ`. -/
def i8259SlaveIrq : Byte := 2

/-- `I8259_INIT_CMD`. -/
def i8259InitCmd : Byte := 0x11

/-- `I8259_EOI_CMD`. -/
def i8259EoiCmd : Byte := 0x20

/-- `I8259_8086_MODE`. -/
def i8259Mode8086 : Byte := 0x1

/-- `I8259_NO_IRQS`. -/
def i8259NoIrqs : Byte := 16

/-- `IDT_IRQ_BASE`: the vector of line 0. -/
def idtIrqBase : Word := 32

/-- `io_write_byte`. -/
def ioWriteByte (port : Port) (byte : Byte) (s : PicState) : PicState :=
  { s with trace := s.trace ++ [.out port byte] }

/-- `pic->imr = imr`. -/
def setImr (pic : Pic) (imr : Byte) (s : PicState) : PicState where
  pics := Function.update s.pics pic { s.pics pic with imr }
  trace := s.trace ++ [.setImr pic imr]

/-- `i8259_pic_init`. -/
def i8259PicInit (pic : Pic) (cmdPort dataPort : Port) (s : PicState) : PicState :=
  setImr pic 0xff
    { s with pics := Function.update s.pics pic { s.pics pic with cmdPort, dataPort } }

/-- `i8259_pic_write_cmd`. -/
def i8259PicWriteCmd (pic : Pic) (byte : Byte) (s : PicState) : PicState :=
  ioWriteByte (s.pics pic).cmdPort byte s

/-- `i8259_pic_write_data`. -/
def i8259PicWriteData (pic : Pic) (byte : Byte) (s : PicState) : PicState :=
  ioWriteByte (s.pics pic).dataPort byte s

/-- `i8259_pic_update_imr`. -/
def i8259PicUpdateImr (pic : Pic) (s : PicState) : PicState :=
  i8259PicWriteData pic (s.pics pic).imr s

/-- `imr & ~(1 << irq)`, an `int` that is cut to eight bits again. -/
def clearLine (imr irq : Byte) : Byte :=
  (imr.setWidth 32 &&& ~~~((1 : Word) <<< irq.toNat)).setWidth 8

/-- `i8259_pic_enable_irq`. -/
def i8259PicEnableIrq (pic : Pic) (irq : Byte) (s : PicState) : PicState :=
  i8259PicUpdateImr pic (setImr pic (clearLine (s.pics pic).imr irq) s)

/-- `imr | (1 << irq)`, an `int` that is cut to eight bits again. -/
def setLine (imr irq : Byte) : Byte := (imr.setWidth 32 ||| (1 : Word) <<< irq.toNat).setWidth 8

/-- `i8259_pic_disable_irq`. -/
def i8259PicDisableIrq (pic : Pic) (irq : Byte) (s : PicState) : PicState :=
  i8259PicUpdateImr pic (setImr pic (setLine (s.pics pic).imr irq) s)

/-- `i8259_pic_send_eoi`. -/
def i8259PicSendEoi (pic : Pic) (s : PicState) : PicState := i8259PicWriteCmd pic i8259EoiCmd s

/-- `i8259_master_pic_init`. -/
def i8259MasterPicInit (s : PicState) : PicState :=
  i8259PicInit .master i8259MasterPicCmdPort i8259MasterPicDataPort s

/-- `i8259_slave_pic_init`. -/
def i8259SlavePicInit (s : PicState) : PicState :=
  i8259PicInit .slave i8259SlavePicCmdPort i8259SlavePicDataPort s

/-- `i8259_enable_irq`. -/
def i8259EnableIrq (irq : Byte) (s : PicState) : Except String PicState := do
  assert (irq < i8259NoIrqs) "irq < I8259_NO_IRQS"
  if 8 ≤ irq then return i8259PicEnableIrq .slave (irq - 8) s
  else return i8259PicEnableIrq .master irq s

/-- `i8259_disable_irq`. -/
def i8259DisableIrq (irq : Byte) (s : PicState) : Except String PicState := do
  assert (irq < i8259NoIrqs) "irq < I8259_NO_IRQS"
  if 8 ≤ irq then return i8259PicDisableIrq .slave (irq - 8) s
  else return i8259PicDisableIrq .master irq s

/-- `i8259_init`. -/
def i8259Init (s : PicState) : Except String PicState :=
  let s := i8259MasterPicInit s
  let s := i8259SlavePicInit s
  -- ICW1: begin the initialization sequence
  let s := i8259PicWriteCmd .master i8259InitCmd s
  let s := i8259PicWriteCmd .slave i8259InitCmd s
  -- ICW2: the vectors of the first lines
  let s := i8259PicWriteData .master (idtIrqBase.setWidth 8) s
  let s := i8259PicWriteData .slave ((idtIrqBase + 8).setWidth 8) s
  -- ICW3: how the two controllers are connected
  let s := i8259PicWriteData .master (0x1 <<< i8259SlaveIrq.toNat) s
  let s := i8259PicWriteData .slave i8259SlaveIrq s
  -- ICW4: 8086 mode
  let s := i8259PicWriteData .master i8259Mode8086 s
  let s := i8259PicWriteData .slave i8259Mode8086 s
  let s := i8259PicUpdateImr .master s
  let s := i8259PicUpdateImr .slave s
  i8259EnableIrq i8259SlaveIrq s

/-- `i8259_send_eoi`. -/
def i8259SendEoi (irq : Byte) (s : PicState) : PicState :=
  let s := if 8 ≤ irq then i8259PicSendEoi .slave s else s
  i8259PicSendEoi .master s

/-! ## Lines -/

/-- The controller of a line. -/
def picOf (irq : Byte) : Pic := if 8 ≤ irq then .slave else .master

/-- The number of a line at its controller. -/
def lineOf (irq : Byte) : Byte := if 8 ≤ irq then irq - 8 else irq

/-- A line that a mask does not mask. -/
def Unmasks (pic : Pic) (imr irq : Byte) : Prop :=
  irq < i8259NoIrqs ∧ picOf irq = pic ∧ imr.getLsbD (lineOf irq).toNat = false

/-- A line that its shadow mask does not mask. -/
def PicState.Unmasked (s : PicState) (irq : Byte) : Prop :=
  Unmasks (picOf irq) (s.pics (picOf irq)).imr irq

/-- The command port of a controller. -/
def cmdPortOf : Pic → Port
  | .master => i8259MasterPicCmdPort
  | .slave => i8259SlavePicCmdPort

/-- The data port of a controller. -/
def dataPortOf : Pic → Port
  | .master => i8259MasterPicDataPort
  | .slave => i8259SlavePicDataPort

/-- The controllers have the ports that `i8259_init` gives them. -/
def PicState.Initialized (s : PicState) : Prop := ∀ pic, (s.pics pic).cmdPort = cmdPortOf pic

variable {s s' : PicState} {irq n imr : Byte}

/-- A line below 16 is below 8 at its controller. -/
theorem toNat_lineOf_lt (h : n < i8259NoIrqs) : (lineOf n).toNat < 8 := by
  rw [lineOf, i8259NoIrqs] at *
  split <;> bv_omega

/-- A line is given by its controller and its number there. -/
theorem eq_of_picOf_eq (hpic : picOf irq = picOf n) (hline : lineOf irq = lineOf n) : irq = n := by
  rw [picOf, picOf] at hpic
  rw [lineOf, lineOf] at hline
  by_cases hirq : 8 ≤ irq <;> by_cases hn : 8 ≤ n <;>
    simp only [hirq, hn, if_true, if_false, reduceCtorEq] at hpic hline <;> bv_omega

/-- The bits of `1 << irq`. -/
theorem getLsbD_one_shiftLeft (hirq : irq.toNat < 8) :
    ((1 : Word) <<< irq.toNat).getLsbD n.toNat = decide (n = irq) := by
  rw [show (1 : Word) = 1#32 from rfl, ← BitVec.twoPow_eq, BitVec.getLsbD_twoPow]
  simp [show irq.toNat < 32 by omega, ← BitVec.toNat_inj, eq_comm]

/-- The lines that are set after clearing one. -/
theorem getLsbD_clearLine (hirq : irq.toNat < 8) (hn : n.toNat < 8) :
    (clearLine imr irq).getLsbD n.toNat = (imr.getLsbD n.toNat && decide (n ≠ irq)) := by
  rw [clearLine, BitVec.getLsbD_setWidth, BitVec.getLsbD_and, BitVec.getLsbD_not,
    BitVec.getLsbD_setWidth, getLsbD_one_shiftLeft hirq]
  simp [hn, show n.toNat < 32 by omega]

/-- The lines that are set after setting one. -/
theorem getLsbD_setLine (hirq : irq.toNat < 8) (hn : n.toNat < 8) :
    (setLine imr irq).getLsbD n.toNat = (imr.getLsbD n.toNat || decide (n = irq)) := by
  rw [setLine, BitVec.getLsbD_setWidth, BitVec.getLsbD_or, BitVec.getLsbD_setWidth,
    getLsbD_one_shiftLeft hirq]
  simp [hn, show n.toNat < 32 by omega]

/-- **Clearing a line** unmasks it and leaves the others. -/
theorem unmasks_clearLine (hirq : irq < i8259NoIrqs) :
    Unmasks (picOf irq) (clearLine imr (lineOf irq)) n ↔
      n = irq ∨ Unmasks (picOf irq) imr n := by
  by_cases hn : n < i8259NoIrqs ∧ picOf n = picOf irq
  · rw [Unmasks, Unmasks, getLsbD_clearLine (toNat_lineOf_lt hirq) (toNat_lineOf_lt hn.1)]
    have hline : lineOf n = lineOf irq ↔ n = irq :=
      ⟨eq_of_picOf_eq hn.2, fun h => by rw [h]⟩
    simp only [hn, true_and, Bool.and_eq_false_iff, decide_eq_false_iff_not, not_not, hline, ne_eq]
    exact or_comm
  · refine iff_of_false (fun h => hn ⟨h.1, h.2.1⟩) ?_
    rintro (rfl | h)
    · exact hn ⟨hirq, rfl⟩
    · exact hn ⟨h.1, h.2.1⟩

/-- Nothing is unmasked when all bits are set. -/
theorem not_unmasks_all (pic : Pic) : ¬ Unmasks pic 0xff n := by
  rintro ⟨hn, -, hbit⟩
  have hset : ∀ i < 8, (0xff : Byte).getLsbD i = true := by decide
  rw [hset _ (toNat_lineOf_lt hn)] at hbit
  contradiction

/-! ## What the functions do -/

/-- What `i8259_enable_irq` adds to the history: the new mask, and its output. -/
def enableEvents (s : PicState) (irq : Byte) : List IrqEvent :=
  let imr := clearLine (s.pics (picOf irq)).imr (lineOf irq)
  [.setImr (picOf irq) imr, .out (s.pics (picOf irq)).dataPort imr]

/-- **`i8259_enable_irq`** clears the line in its mask. -/
theorem i8259EnableIrq_eq (hirq : irq < i8259NoIrqs) :
    i8259EnableIrq irq s = .ok
      { pics := Function.update s.pics (picOf irq)
          { s.pics (picOf irq) with imr := clearLine (s.pics (picOf irq)).imr (lineOf irq) }
        trace := s.trace ++ enableEvents s irq } := by
  rw [i8259EnableIrq, decide_eq_true hirq, assert_true, enableEvents, picOf, lineOf]
  by_cases h : 8 ≤ irq <;>
    simp only [h, if_true, if_false, bind, Except.bind, pure, Except.pure, i8259PicEnableIrq,
      i8259PicUpdateImr, i8259PicWriteData, ioWriteByte, setImr, Function.update_self,
      List.append_assoc, List.singleton_append]

/-- What `i8259_send_eoi` adds to the history. -/
def eoiEvents (irq : Byte) : List IrqEvent :=
  (if 8 ≤ irq then [.out i8259SlavePicCmdPort i8259EoiCmd] else []) ++
    [.out i8259MasterPicCmdPort i8259EoiCmd]

/-- **`i8259_send_eoi`** sends one command to the master and, for the upper eight lines, one to the
slave before. -/
theorem i8259SendEoi_eq (hs : s.Initialized) :
    i8259SendEoi irq s = { s with trace := s.trace ++ eoiEvents irq } := by
  have hmaster : (s.pics .master).cmdPort = i8259MasterPicCmdPort := hs .master
  have hslave : (s.pics .slave).cmdPort = i8259SlavePicCmdPort := hs .slave
  rw [i8259SendEoi, eoiEvents]
  by_cases h : 8 ≤ irq <;>
    simp only [h, if_true, if_false, i8259PicSendEoi, i8259PicWriteCmd, ioWriteByte, hmaster,
      hslave, List.append_assoc, List.nil_append]

/-- Enabling a line does not change ports. -/
theorem PicState.Initialized.enable {pic : Pic} {trace : List IrqEvent} (hs : s.Initialized) :
    PicState.Initialized
      { pics := Function.update s.pics pic { s.pics pic with imr }, trace } := by
  intro pic'
  by_cases h : pic' = pic
  · subst h
    simp [hs pic']
  · simp [h, hs pic']

/-- **Enabling a line** unmasks it and no other. -/
theorem unmasked_enable {trace : List IrqEvent} (hirq : irq < i8259NoIrqs) :
    PicState.Unmasked
        { pics := Function.update s.pics (picOf irq)
            { s.pics (picOf irq) with imr := clearLine (s.pics (picOf irq)).imr (lineOf irq) }
          trace } n ↔
      n = irq ∨ s.Unmasked n := by
  rw [PicState.Unmasked, PicState.Unmasked]
  by_cases h : picOf n = picOf irq
  · rw [h]
    simp only [Function.update_self]
    exact unmasks_clearLine hirq
  · simp only [Function.update_of_ne h]
    exact ⟨Or.inr, fun h' => h'.resolve_left fun heq => h (heq ▸ rfl)⟩

/-- **`i8259_init`** sets the ports, and unmasks only the line of the slave. -/
theorem i8259Init_eq_ok (s : PicState) :
    ∃ s', i8259Init s = .ok s' ∧ s'.Initialized ∧ ∀ n, s'.Unmasked n ↔ n = i8259SlaveIrq := by
  rw [i8259Init]
  refine ⟨_, i8259EnableIrq_eq (by decide), PicState.Initialized.enable ?_, fun n => ?_⟩
  · rintro (_ | _) <;> rfl
  · rw [unmasked_enable (by decide), or_iff_left]
    intro h
    rw [PicState.Unmasked] at h
    refine not_unmasks_all (n := n) (picOf n) ?_
    cases hpic : picOf n <;> rw [hpic] at h <;> exact h

end Storm
