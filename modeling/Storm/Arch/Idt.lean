import Storm.Library.Interrupt

/-! # `arch/i386/cpu/idt.c`: the interrupt descriptor table

`idt_init` first points all 256 entries at the default handler, then those of the vectors in use at
their stubs, and loads the table. -/

namespace Storm

open ByteMemory I386

/-- `struct cpu_segment_descriptor`. -/
structure CpuSegmentDescriptor where
  low : Word
  high : Word
  deriving DecidableEq, Repr

/-- The gate that the processor sees in a descriptor. -/
def CpuSegmentDescriptor.gate (d : CpuSegmentDescriptor) : Gate := Gate.decode d.low d.high

/-- `struct cpu_pseudo_descriptor`. -/
structure CpuPseudoDescriptor where
  limit : BitVec 16
  base : Word
  deriving DecidableEq, Repr

/-- `idt`, with the vector as index. -/
abbrev Idt := Byte → CpuSegmentDescriptor

/-- `GDT_CODE_SEGMENT_SELECTOR`. -/
def gdtCodeSegmentSelector : Word := 1 <<< 3

/-- `CPU_SEG_P_FLAG`. -/
def cpuSegPFlag : Word := 0x1 <<< 15

/-- `IDT_SEG_INT_GATE`. -/
def idtSegIntGate : Word := (0x1 <<< 9) ||| (0x1 <<< 10) ||| (0x1 <<< 11)

/-- `IDT_SIZE`. -/
def idtSize : ℕ := 256

/-- `sizeof(idt)`. -/
def sizeofIdt : Word := 2048

/-- `cpu_pseudo_descriptor_init`. -/
def cpuPseudoDescriptorInit (addr : Word) (size : BitVec 16) : CpuPseudoDescriptor where
  limit := size - 1
  base := addr

/-- `idt_interrupt_gate_descriptor_init`. -/
def idtInterruptGateDescriptorInit (entryFn : Word) : CpuSegmentDescriptor where
  low := (entryFn &&& 0xffff#32) ||| (gdtCodeSegmentSelector <<< 16)
  high := (entryFn &&& 0xffff0000#32) ||| cpuSegPFlag ||| idtSegIntGate

/-- The vectors of the `INIT_IDT_ENTRY` lines. -/
def idtEntries : List Byte := [
  -- exceptions
  0, 1, 2, 3, 4, 5, 6, 7, 8, 9, 10, 11, 12, 13, 14, 15, 16, 17, 18, 19, 20, 21,
  -- user defined interrupts
  32, 33, 34, 35, 36, 37, 38, 39, 40, 41, 42, 43, 44, 45, 46, 47]

/-- `INIT_IDT_ENTRY(n)`, and the body of the loop before: write an entry. -/
def initIdtEntry (n : Byte) (entryFn : Word) (idt : Idt) : Idt :=
  Function.update idt n (idtInterruptGateDescriptorInit entryFn)

/-- `idt_init`, for the address of the table and the addresses of `isr_n` and of
`idt_default_interrupt_handler`: the table, and what `load_idt` loads. -/
def idtInit (addr : Word) (isr : Byte → Word) (idtDefaultInterruptHandler : Word) (idt : Idt) :
    Idt × CpuPseudoDescriptor :=
  let idt := (List.range idtSize).foldl
    (fun idt i => initIdtEntry (BitVec.ofNat 8 i) idtDefaultInterruptHandler idt) idt
  let idt := idtEntries.foldl (fun idt n => initIdtEntry n (isr n) idt) idt
  (idt, cpuPseudoDescriptorInit addr (sizeofIdt.setWidth 16))

/-- A present 32-bit interrupt gate of ring 0 in the kernel code segment. -/
def kernelGate (entryFn : Word) : Gate where
  present := true
  dpl := 0
  kind := interruptGate32
  selector := gdtCodeSegmentSelector.setWidth 16
  offset := entryFn

/-- The target of a gate is split over the two words. -/
theorem offset_idtInterruptGateDescriptorInit (entryFn : Word) :
    let d := idtInterruptGateDescriptorInit entryFn
    d.high.extractLsb' 16 16 ++ d.low.extractLsb' 0 16 = entryFn := by
  have hlow : ∀ j < 16, (0xffff#32).getLsbD j = true ∧
      (gdtCodeSegmentSelector <<< 16).getLsbD j = false := by decide
  have hhigh : ∀ j < 32, 16 ≤ j → (0xffff0000#32).getLsbD j = true ∧
      cpuSegPFlag.getLsbD j = false ∧ idtSegIntGate.getLsbD j = false := by decide
  intro d
  apply BitVec.eq_of_getLsbD_eq
  intro i hi
  rw [BitVec.getLsbD_append]
  by_cases h : i < 16
  · obtain ⟨hmask, hsel⟩ := hlow i h
    simp only [d, h, if_true, idtInterruptGateDescriptorInit, BitVec.getLsbD_extractLsb',
      BitVec.getLsbD_or, BitVec.getLsbD_and, Nat.zero_add, hmask, hsel, decide_true,
      Bool.true_and, Bool.and_true, Bool.or_false]
  · obtain ⟨hmask, hp, hgate⟩ := hhigh i hi (by omega)
    simp only [d, h, if_false, idtInterruptGateDescriptorInit, BitVec.getLsbD_extractLsb',
      BitVec.getLsbD_or, BitVec.getLsbD_and, show 16 + (i - 16) = i by omega, hmask, hp, hgate,
      show i - 16 < 16 by omega, decide_true, Bool.true_and, Bool.and_true, Bool.or_false]

/-- The other bits of the two words are those of the flags. -/
theorem flags_idtInterruptGateDescriptorInit (entryFn : Word) :
    let d := idtInterruptGateDescriptorInit entryFn
    (∀ j < 16, d.high.getLsbD j = (cpuSegPFlag ||| idtSegIntGate).getLsbD j) ∧
      ∀ j < 16, d.low.getLsbD (16 + j) = gdtCodeSegmentSelector.getLsbD j := by
  have hhigh : ∀ j < 16, (0xffff0000#32).getLsbD j = false := by decide
  have hlow : ∀ j < 16, (0xffff#32).getLsbD (16 + j) = false := by decide
  refine ⟨fun j hj => ?_, fun j hj => ?_⟩
  · simp only [idtInterruptGateDescriptorInit, BitVec.getLsbD_or, BitVec.getLsbD_and, hhigh j hj,
      Bool.and_false, Bool.false_or]
  · simp only [idtInterruptGateDescriptorInit, BitVec.getLsbD_or, BitVec.getLsbD_and, hlow j hj,
      BitVec.getLsbD_shiftLeft, Bool.and_false, Bool.false_or, Nat.add_sub_cancel_left,
      show 16 + j < 32 by omega, Nat.not_lt.mpr (Nat.le_add_right 16 j), decide_true, decide_false,
      Bool.not_false, Bool.true_and]

/-- **An entry decodes** to the gate it is meant to be. -/
theorem gate_idtInterruptGateDescriptorInit (entryFn : Word) :
    (idtInterruptGateDescriptorInit entryFn).gate = kernelGate entryFn := by
  obtain ⟨hhigh, hlow⟩ := flags_idtInterruptGateDescriptorInit entryFn
  have hdpl : ∀ j < 2, (cpuSegPFlag ||| idtSegIntGate).getLsbD (13 + j) = false := by decide
  have hkind : ∀ j < 8, (cpuSegPFlag ||| idtSegIntGate).getLsbD (5 + j) =
      interruptGate32.getLsbD j := by decide
  refine Gate.ext ?_ ?_ ?_ ?_ (offset_idtInterruptGateDescriptorInit entryFn)
  · exact hhigh 15 (by decide)
  · apply BitVec.eq_of_getLsbD_eq
    intro i hi
    rw [CpuSegmentDescriptor.gate, Gate.decode, BitVec.getLsbD_extractLsb', hhigh _ (by omega),
      hdpl i hi]
    simp [kernelGate]
  · apply BitVec.eq_of_getLsbD_eq
    intro i hi
    rw [CpuSegmentDescriptor.gate, Gate.decode, BitVec.getLsbD_extractLsb', hhigh _ (by omega),
      hkind i hi]
    simp [kernelGate, hi]
  · apply BitVec.eq_of_getLsbD_eq
    intro i hi
    rw [CpuSegmentDescriptor.gate, Gate.decode, BitVec.getLsbD_extractLsb', hlow i hi]
    simp [kernelGate, hi]

variable {addr idtDefaultInterruptHandler : Word} {isr : Byte → Word} {idt : Idt} {n : Byte}

/-- Writing the entries of a list of vectors. -/
theorem foldl_initIdtEntry (ns : List Byte) (f : Byte → Word) (idt : Idt) (n : Byte) :
    (ns.foldl (fun idt n => initIdtEntry n (f n) idt) idt) n =
      if n ∈ ns then idtInterruptGateDescriptorInit (f n) else idt n := by
  induction ns generalizing idt with
  | nil => simp
  | cons k ns ih =>
      rw [List.foldl_cons, ih]
      by_cases hn : n ∈ ns
      · simp [hn]
      · by_cases hk : n = k
        · simp [hk, initIdtEntry]
        · simp [hn, hk, initIdtEntry]

/-- **The table after `idt_init`.** -/
theorem idtInit_apply (v : Byte) :
    (idtInit addr isr idtDefaultInterruptHandler idt).1 v =
      idtInterruptGateDescriptorInit
        (if v ∈ idtEntries then isr v else idtDefaultInterruptHandler) := by
  -- the loop writes every entry
  have hloop : ((List.range idtSize).foldl
      (fun idt i => initIdtEntry (BitVec.ofNat 8 i) idtDefaultInterruptHandler idt) idt) v =
        idtInterruptGateDescriptorInit idtDefaultInterruptHandler := by
    have hmem : v ∈ (List.range idtSize).map (BitVec.ofNat 8) :=
      List.mem_map.mpr ⟨v.toNat, List.mem_range.mpr v.isLt, BitVec.ofNat_toNat 8 v⟩
    have := foldl_initIdtEntry ((List.range idtSize).map (BitVec.ofNat 8))
      (fun _ => idtDefaultInterruptHandler) idt v
    rwa [List.foldl_map, if_pos hmem] at this
  refine (foldl_initIdtEntry idtEntries isr _ v).trans ?_
  rw [hloop]
  split <;> rfl

end Storm
