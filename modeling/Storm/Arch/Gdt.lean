import Storm.Arch.Idt
import Storm.Library.Segment

/-! # `arch/i386/cpu/gdt.c`: the global descriptor table

`gdt_init` writes a null descriptor, a code and a data segment, and `load_gdt` of `gdt_asm.S` loads
the table and the segment registers. All segments are flat (`segmentOf_loadGdt`), so that the gates
of the interrupt descriptor table lead to the functions that they name (`gate_linear`). -/

namespace Storm

open ByteMemory I386

/-- `gdt`, with `GDT_SIZE` descriptors. -/
abbrev Gdt := Fin 3 → CpuSegmentDescriptor

/-- `GDT_NULL_SEGMENT_INDEX`. -/
def gdtNullSegmentIndex : Fin 3 := ⟨0, by decide⟩

/-- `GDT_CODE_SEGMENT_INDEX`. -/
def gdtCodeSegmentIndex : Fin 3 := ⟨1, by decide⟩

/-- `GDT_DATA_SEGMENT_INDEX`. -/
def gdtDataSegmentIndex : Fin 3 := ⟨2, by decide⟩

/-- `GDT_DATA_SEGMENT_SELECTOR`. -/
def gdtDataSegmentSelector : Word := 2 <<< 3

/-- `CPU_SEG_S_FLAG`. -/
def cpuSegSFlag : Word := 0x1 <<< 12

/-- `CPU_SEG_DB_FLAG`. -/
def cpuSegDbFlag : Word := 0x1 <<< 22

/-- `CPU_SEG_G_FLAG`. -/
def cpuSegGFlag : Word := 0x1 <<< 23

/-- `GDT_SEG_DATA_RW`. -/
def gdtSegDataRw : Word := 0x1 <<< 9

/-- `GDT_SEG_CODE_RX`. -/
def gdtSegCodeRx : Word := (0x1 <<< 9) ||| (0x1 <<< 11)

/-- `sizeof(gdt)`. -/
def sizeofGdt : Word := 24

/-- `gdt_null_descriptor_init`. -/
def gdtNullDescriptorInit : CpuSegmentDescriptor where
  low := 0
  high := 0

/-- `gdt_code_descriptor_init`. -/
def gdtCodeDescriptorInit : CpuSegmentDescriptor where
  low := 0xffff
  high := (0xf <<< 16) ||| cpuSegSFlag ||| cpuSegPFlag ||| cpuSegDbFlag ||| cpuSegGFlag |||
    gdtSegCodeRx

/-- `gdt_data_descriptor_init`. -/
def gdtDataDescriptorInit : CpuSegmentDescriptor where
  low := 0xffff
  high := (0xf <<< 16) ||| cpuSegSFlag ||| cpuSegPFlag ||| cpuSegDbFlag ||| cpuSegGFlag |||
    gdtSegDataRw

/-- `gdt_init`, for the address of the table: the table, and what `load_gdt` loads. -/
def gdtInit (addr : Word) (gdt : Gdt) : Gdt × CpuPseudoDescriptor :=
  let gdt := Function.update gdt gdtNullSegmentIndex gdtNullDescriptorInit
  let gdt := Function.update gdt gdtCodeSegmentIndex gdtCodeDescriptorInit
  let gdt := Function.update gdt gdtDataSegmentIndex gdtDataDescriptorInit
  (gdt, cpuPseudoDescriptorInit addr (sizeofGdt.setWidth 16))

/-- The registers that `load_gdt` writes. -/
structure SegmentRegisters where
  gdtr : CpuPseudoDescriptor
  cs : BitVec 16
  ds : BitVec 16
  es : BitVec 16
  fs : BitVec 16
  gs : BitVec 16
  ss : BitVec 16
  deriving DecidableEq, Repr

/-- `load_gdt`. -/
def loadGdt (pseudoDescriptor : CpuPseudoDescriptor) : SegmentRegisters where
  gdtr := pseudoDescriptor
  cs := gdtCodeSegmentSelector.setWidth 16
  ds := gdtDataSegmentSelector.setWidth 16
  es := gdtDataSegmentSelector.setWidth 16
  fs := gdtDataSegmentSelector.setWidth 16
  gs := gdtDataSegmentSelector.setWidth 16
  ss := gdtDataSegmentSelector.setWidth 16

/-- The words of the table, as the processor finds them; what is behind the table is not known. -/
def Gdt.words (gdt : Gdt) (behind : ℕ → Word × Word) (i : ℕ) : Word × Word :=
  if h : i < 3 then ((gdt ⟨i, h⟩).low, (gdt ⟨i, h⟩).high) else behind i

variable {addr : Word} {gdt : Gdt} {behind : ℕ → Word × Word}

/-- The code descriptor decodes to a flat segment. -/
theorem decode_gdtCodeDescriptorInit :
    Segment.decode gdtCodeDescriptorInit.low gdtCodeDescriptorInit.high = .flat true := by decide

/-- So does the data descriptor. -/
theorem decode_gdtDataDescriptorInit :
    Segment.decode gdtDataDescriptorInit.low gdtDataDescriptorInit.high = .flat false := by decide

/-- **The code segment** is flat. -/
theorem segmentOf_code :
    segmentOf ((gdtInit addr gdt).1.words behind) (gdtInit addr gdt).2.limit
      (loadGdt (gdtInit addr gdt).2).cs = some (.flat true) := by
  have hlimit : 1 * 8 + 7 ≤ (gdtInit addr gdt).2.limit.toNat := by
    show 1 * 8 + 7 ≤ (sizeofGdt.setWidth 16 - 1).toNat
    decide
  have hselector : (loadGdt (gdtInit addr gdt).2).cs = gdtCodeSegmentSelector.setWidth 16 := rfl
  rw [hselector, segmentOf_of_index (by decide) one_ne_zero (by decide) hlimit,
    ← decode_gdtCodeDescriptorInit]
  rfl

/-- **The other segments** are flat. -/
theorem segmentOf_data {selector : BitVec 16}
    (h : let r := loadGdt (gdtInit addr gdt).2; selector ∈ [r.ds, r.es, r.fs, r.gs, r.ss]) :
    segmentOf ((gdtInit addr gdt).1.words behind) (gdtInit addr gdt).2.limit selector =
      some (.flat false) := by
  have hselector : selector = gdtDataSegmentSelector.setWidth 16 := by simpa [loadGdt] using h
  have hlimit : 2 * 8 + 7 ≤ (gdtInit addr gdt).2.limit.toNat := by
    show 2 * 8 + 7 ≤ (sizeofGdt.setWidth 16 - 1).toNat
    decide
  rw [hselector, segmentOf_of_index (by decide) two_ne_zero (by decide) hlimit,
    ← decode_gdtDataDescriptorInit]
  rfl

/-- **Where a gate leads**: the linear address at which the processor continues with the interrupt of
a vector is that of its stub, or of the default handler. -/
theorem gate_linear (idtAddr : Word) (isr : Byte → Word) (idtDefaultInterruptHandler : Word)
    (idt : Idt) (v : Byte) :
    let gate := ((idtInit idtAddr isr idtDefaultInterruptHandler idt).1 v).gate
    (segmentOf ((gdtInit addr gdt).1.words behind) (gdtInit addr gdt).2.limit gate.selector).bind
      (Segment.linear gate.offset) =
        some (if v ∈ idtEntries then isr v else idtDefaultInterruptHandler) := by
  intro gate
  have hgate : gate = kernelGate (if v ∈ idtEntries then isr v else idtDefaultInterruptHandler) := by
    rw [← gate_idtInterruptGateDescriptorInit, ← idtInit_apply]
  have hselector : gate.selector = (loadGdt (gdtInit addr gdt).2).cs := by
    rw [hgate]
    rfl
  rw [hselector, segmentOf_code, Option.bind_some, Segment.linear_flat, hgate]
  rfl

end Storm
