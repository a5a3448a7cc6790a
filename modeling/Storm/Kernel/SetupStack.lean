import Storm.Kernel.Thread
import Storm.Library.Agreement

/-! # `thread_setup_stack` and `thread_restore`

A new thread is entered through the code that brings back suspended ones. `thread_setup_stack`
builds by hand the frame that `thread_restore` takes from the stack: four registers, the address of
`thread_main`, and then what `thread_main` expects of its caller, a return address and two
arguments.

`restore_setup_stack` says that the two fit together, for every stack and on both ways into
`thread_restore`. -/

namespace Storm

open ByteMemory I386 Linked

variable {im : Image} {base size fn arg : Word} {mem : Memory}

/-- **`thread_setup_stack` writes eight words** at the top of the stack. -/
theorem agree_threadSetupStack {s : Set Word} (hs : ∀ b ∈ s, b ∉ Below (base + size) 32) :
    Agree s (threadSetupStack im base size fn arg mem).1 mem := by
  have hmem : (threadSetupStack im base size fn arg mem).1 =
      storesBelow (base + size)
        [(4, arg), (8, fn), (12, 0), (16, im.threadMain), (20, 0), (24, 0), (28, 0), (32, 0)]
        mem := rfl
  rw [hmem]
  exact agree_storesBelow hs (by simp)

/-- The addresses of the frame, for a stack of `size` bytes at `base`. -/
def setupFrame (base size : Word) : Set Word :=
  Range (base.toNat + size.toNat - 32) (base.toNat + size.toNat)

/-- The frame that `thread_restore` finds at `stackPtr`. -/
structure RestoreFrame (im : Image) (fn arg stackPtr : Word) (mem : Memory) : Prop where
  esi : load32 mem stackPtr = 0
  edi : load32 mem (stackPtr + 4) = 0
  ebx : load32 mem (stackPtr + 8) = 0
  ebp : load32 mem (stackPtr + 12) = 0
  /-- The return address for `thread_restore`. -/
  main : load32 mem (stackPtr + 16) = im.threadMain
  /-- The fake return address of the call of `thread_main`. -/
  returnAddress : load32 mem (stackPtr + 20) = 0
  fn : load32 mem (stackPtr + 24) = fn
  arg : load32 mem (stackPtr + 28) = arg

/-- `thread_setup_stack` builds the frame. -/
theorem restoreFrame_threadSetupStack (im : Image) (base size fn arg : Word) (mem : Memory) :
    let r := threadSetupStack im base size fn arg mem
    RestoreFrame im fn arg r.2 r.1 := by
  intro r
  have hoff : ∀ d : Word, r.2 + d = base + size - (32 - d) := fun d => by
    show base + size - 32 + d = _
    rw [sub_add]
  constructor
  · simp [r, threadSetupStack]
  all_goals
    rw [hoff]
    simp [r, threadSetupStack, load32_store32_of_apart]

/-- `thread_main(fn, arg)` has just been called, with the stack pointer `sp`. -/
structure EntersThreadMain (im : Image) (fn arg sp : Word) (m : Machine) : Prop where
  eip : m.eip = im.threadMain
  esp : m.gpr .esp = sp
  saved : m.gpr .ebp = 0 ∧ m.gpr .ebx = 0 ∧ m.gpr .edi = 0 ∧ m.gpr .esi = 0
  returnAddress : load32 m.mem sp = 0
  fn : load32 m.mem (sp + 4) = fn
  arg : load32 m.mem (sp + 8) = arg

/-- **`thread_restore` reads 20 bytes** from the stack. -/
theorem readsWithin_threadRestore (l : Linked threadAsm) {s : Set Word} {m : Machine}
    (h : m.eip = l.addr 10) (hs : Above (m.gpr .esp) 20 ⊆ s) : l.ReadsWithin s 5 m := by
  have hword : ∀ d : Word, d.toNat + 4 ≤ 20 → WordAt (m.gpr .esp + d) ⊆ s := fun d hd =>
    Set.Subset.trans (wordAt_subset_above hd (by decide)) hs
  have hfirst := hword 0 (by decide)
  rw [add_zero] at hfirst
  refine l.readsWithin_of_getElem? (c := .pop .esi) rfl h hfirst ?_
  refine l.readsWithin_of_getElem? (i := 11) (c := .pop .edi) rfl rfl ?_ ?_
  · simpa [Instr.exec, Instr.effect, Instr.reads, Machine.popReg] using hword 4 (by decide)
  refine l.readsWithin_of_getElem? (i := 12) (c := .pop .ebx) rfl rfl ?_ ?_
  · simpa [Instr.exec, Instr.effect, Instr.reads, Machine.popReg, BitVec.add_assoc] using
      hword 8 (by decide)
  refine l.readsWithin_of_getElem? (i := 13) (c := .pop .ebp) rfl rfl ?_ ?_
  · simpa [Instr.exec, Instr.effect, Instr.reads, Machine.popReg, BitVec.add_assoc] using
      hword 12 (by decide)
  refine l.readsWithin_of_getElem? (i := 14) (c := .ret) rfl rfl ?_ trivial
  simpa [Instr.exec, Instr.effect, Instr.reads, Machine.popReg, BitVec.add_assoc] using
    hword 16 (by decide)

/-- The machine `m` is at `thread_restore` with the new stack, on which it reads only the frame, and
from which it enters `thread_main`. -/
structure Restores (im : Image) (base size fn arg : Word) (m : Machine) : Prop where
  eip : m.eip = im.threadAsm.addr 10
  esp : m.gpr .esp = base + size - 32
  reads : im.threadAsm.ReadsWithin (setupFrame base size) 5 m
  enters : EntersThreadMain im fn arg (base + size - 12) (im.threadAsm.run 5 m)

section Restore

variable (hsize : 32 ≤ size.toNat) (htop : base.toNat + size.toNat < 2 ^ 32)
include hsize htop

/-- The frame is below the end of the stack. -/
theorem setupFrame_eq_below : setupFrame base size = Below (base + size) 32 := by
  have hnat : (base + size).toNat = base.toNat + size.toNat := BitVec.toNat_add_of_lt htop
  rw [below_eq_range (by omega), hnat, setupFrame]

/-- The frame is above the stack pointer that `thread_setup_stack` returns. -/
theorem above_subset_setupFrame {n : ℕ} (hn : n ≤ 32) :
    Above (base + size - 32) n ⊆ setupFrame base size := by
  intro b hb
  rw [setupFrame_eq_below hsize htop]
  simp only [mem_above, mem_below] at hb ⊢
  bv_omega

/-- **`thread_restore` consumes the frame.** -/
theorem restores_of_agree (mem : Memory) {m : Machine} (heip : m.eip = im.threadAsm.addr 10)
    (hesp : m.gpr .esp = base + size - 32)
    (hmem : Agree (setupFrame base size) m.mem (threadSetupStack im base size fn arg mem).1) :
    Restores im base size fn arg m := by
  have hframe : RestoreFrame im fn arg (base + size - 32) m.mem := by
    have hsetup := restoreFrame_threadSetupStack im base size fn arg mem
    have hword : ∀ d : Word, d.toNat + 4 ≤ 32 → load32 m.mem (base + size - 32 + d) =
        load32 (threadSetupStack im base size fn arg mem).1 (base + size - 32 + d) := fun d hd =>
      hmem.load32 (Set.Subset.trans (wordAt_subset_above hd (by decide))
        (above_subset_setupFrame hsize htop le_rfl))
    have hfirst := hword 0 (by decide)
    rw [add_zero] at hfirst
    exact ⟨hfirst.trans hsetup.esi, (hword _ (by decide)).trans hsetup.edi,
      (hword _ (by decide)).trans hsetup.ebx, (hword _ (by decide)).trans hsetup.ebp,
      (hword _ (by decide)).trans hsetup.main, (hword _ (by decide)).trans hsetup.returnAddress,
      (hword _ (by decide)).trans hsetup.fn, (hword _ (by decide)).trans hsetup.arg⟩
  -- the four pops and `ret` take 20 bytes, and what `thread_main` expects is left
  obtain ⟨hesi, hedi, hebx, hebp, heip', hesp', hmem'⟩ := run_threadRestore im.threadAsm heip
  have htwenty : base + size - 32 + 20 = base + size - 12 := by rw [sub_add]; rfl
  rw [hesp] at hesi hedi hebx hebp heip' hesp'
  rw [htwenty] at hesp'
  refine ⟨heip, hesp, readsWithin_threadRestore im.threadAsm heip ?_, ?_⟩
  · rw [hesp]
    exact above_subset_setupFrame hsize htop (by decide)
  · refine ⟨heip'.trans hframe.main, hesp', ⟨hebp.trans hframe.ebp, hebx.trans hframe.ebx,
      hedi.trans hframe.edi, hesi.trans hframe.esi⟩, ?_, ?_, ?_⟩
    all_goals rw [hmem', ← htwenty]
    · exact hframe.returnAddress
    · rw [add_assoc]
      exact hframe.fn
    · rw [add_assoc]
      exact hframe.arg

/-- **The hand-built stack is what the restore path consumes**: `thread_setup_stack` writes only the
frame, and whenever the frame is still there, both ways of switching to the stack pointer that it
returns enter `thread_main(fn, arg)`. The code that switches must not stand on the frame itself. -/
theorem restore_setup_stack (im : Image) (fn arg : Word) (mem : Memory) :
    let r := threadSetupStack im base size fn arg mem
    (∀ b ∉ setupFrame base size, r.1 b = mem b) ∧
      ∀ m : Machine, Agree (setupFrame base size) m.mem r.1 →
        (∀ ret, Disjoint (setupFrame base size) (Below (m.gpr .esp) 8) →
          Restores im base size fn arg
            (loadRestoring im.threadAsm (callLoadFirst im.threadAsm r.2 ret m))) ∧
        ∀ slot ret, Disjoint (setupFrame base size) (Below (m.gpr .esp) 28) →
          Disjoint (setupFrame base size) (WordAt slot) →
          Restores im base size fn arg
            (switchRestoring im.threadAsm (callContextSwitch im.threadAsm slot r.2 ret m)) := by
  intro r
  refine ⟨fun b hb => ?_, fun m hm => ⟨fun ret hbelow => ?_, fun slot ret hbelow hslot => ?_⟩⟩
  · rw [setupFrame_eq_below hsize htop] at hb
    refine agree_threadSetupStack (s := {b}) (fun b' hb' => ?_) b rfl
    rwa [Set.mem_singleton_iff.mp hb']
  -- `thread_load_first_asm` loads its argument and falls into `thread_restore`
  · obtain ⟨heip, hsp, harg, -⟩ := callLoadFirst_args im.threadAsm r.2 ret m
    obtain ⟨hesp, hmem, heip'⟩ := loadRestoring_spec im.threadAsm heip
    rw [hsp, sub_add, show (8 : Word) - 4 = 4 from rfl, harg] at hesp
    refine restores_of_agree hsize htop mem heip' hesp ?_
    rw [hmem]
    exact (agree_callLoadFirst (Set.disjoint_left.mp hbelow)).trans hm
  -- `thread_context_switch_asm` saves the registers of its caller before
  · obtain ⟨heip, hsp, hnext, hargslot, -⟩ := callContextSwitch_args im.threadAsm slot r.2 ret m
    obtain ⟨hesp, hmem, heip'⟩ := switchRestoring_spec im.threadAsm heip
    rw [hsp, sub_add, show (12 : Word) - 8 = 4 from rfl, hnext] at hesp
    rw [hsp, sub_add, show (12 : Word) - 4 = 8 from rfl, hargslot,
      savedMem_callContextSwitch] at hmem
    refine restores_of_agree hsize htop mem heip' hesp ?_
    rw [hmem]
    exact (agree_switchMem (Set.disjoint_left.mp hbelow) (Set.disjoint_left.mp hslot)).trans hm

end Restore

/-- The frame of a stack of 4096 bytes that is not aligned to pages. -/
theorem restore_setup_stack_linkedImage :
    let r := threadSetupStack linkedImage 0x110040 4096 0x100900 7 fun _ => 0
    (∀ b ∉ setupFrame 0x110040 4096, r.1 b = 0) ∧
      ∀ m : Machine, Agree (setupFrame 0x110040 4096) m.mem r.1 →
        (∀ ret, Disjoint (setupFrame 0x110040 4096) (Below (m.gpr .esp) 8) →
          Restores linkedImage 0x110040 4096 0x100900 7 (loadRestoring linkedImage.threadAsm
            (callLoadFirst linkedImage.threadAsm r.2 ret m))) ∧
        ∀ slot ret, Disjoint (setupFrame 0x110040 4096) (Below (m.gpr .esp) 28) →
          Disjoint (setupFrame 0x110040 4096) (WordAt slot) →
          Restores linkedImage 0x110040 4096 0x100900 7 (switchRestoring linkedImage.threadAsm
            (callContextSwitch linkedImage.threadAsm slot r.2 ret m)) :=
  restore_setup_stack (by decide) (by decide) linkedImage 0x100900 7 fun _ => 0

end Storm
