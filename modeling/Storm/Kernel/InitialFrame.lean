import Storm.Kernel.SetupStack
import Storm.Kernel.System

/-! # The initial stack frame

`thread_setup_stack` builds the frame from which `thread_restore` enters `thread_main(fn, arg)`.
`InitialFrame` describes it; it stays intact as long as nobody writes to the stack of the thread
(`InitialFrame.congr`), and `thread_setup_stack` itself does not write to other stacks
(`InitialFrame.agree_threadSetupStack`). -/

namespace Storm

open ByteMemory I386

/-- The addresses of a thread's stack. -/
def Creation.stackRange (c : Creation) : Set Word :=
  Range c.stack.toNat (c.stack.toNat + threadDefaultStackSize.toNat)

/-- The frame of a thread that has not run yet, 32 bytes at the top of its stack. -/
structure InitialFrame (im : Image) (c : Creation) (stackPtr : Word) (mem : Memory) : Prop where
  stackPtr_eq : stackPtr = c.stack + 4064
  /-- Behind four words for the saved registers, the return address for `thread_restore`. -/
  main : load32 mem (c.stack + 4080) = im.threadMain
  /-- The fake return address of the call of `thread_main`. -/
  returnAddress : load32 mem (c.stack + 4084) = 0
  fn : load32 mem (c.stack + 4088) = c.fn
  arg : load32 mem (c.stack + 4092) = c.arg

namespace InitialFrame

variable {im : Image} {c : Creation} {sp : Word} {mem mem' : Memory}

/-- The words of the frame are in the stack. -/
theorem wordAt_subset {d : Word} (hb : c.stack.toNat + 4096 ≤ 2 ^ 32) (hd : d.toNat + 4 ≤ 4096) :
    WordAt (c.stack + d) ⊆ c.stackRange := by
  refine wordAt_subset_range ?_ ?_ hb
  · bv_omega
  · rw [show threadDefaultStackSize.toNat = 4096 from rfl]
    bv_omega

/-- The frame depends only on the thread's stack. -/
theorem congr (h : InitialFrame im c sp mem) (hb : c.stack.toNat + 4096 ≤ 2 ^ 32)
    (hmem : Agree c.stackRange mem' mem) : InitialFrame im c sp mem' :=
  ⟨h.stackPtr_eq, (hmem.load32 (wordAt_subset hb (by decide))).trans h.main,
    (hmem.load32 (wordAt_subset hb (by decide))).trans h.returnAddress,
    (hmem.load32 (wordAt_subset hb (by decide))).trans h.fn,
    (hmem.load32 (wordAt_subset hb (by decide))).trans h.arg⟩

/-- **`thread_setup_stack`** builds the frame. -/
theorem threadSetupStack (thread stack fn arg : Word) (mem : Memory) :
    let r := threadSetupStack im stack threadDefaultStackSize fn arg mem
    InitialFrame im ⟨thread, stack, fn, arg⟩ r.2 r.1 := by
  have hoff : ∀ d : Word, stack + threadDefaultStackSize - d = stack + (4096 - d) := fun d =>
    add_sub_assoc _ _ _
  simp only [Storm.threadSetupStack, hoff]
  refine ⟨rfl, ?_, ?_, ?_, ?_⟩ <;> simp [load32_store32_of_apart]

/-- `thread_setup_stack` writes only to the new stack. -/
theorem agree_threadSetupStack {s : Set Word} {stack fn arg : Word}
    (hb : stack.toNat + 4096 ≤ 2 ^ 32)
    (hs : ∀ b ∈ s, b ∉ Range stack.toNat (stack.toNat + 4096)) :
    Agree s (Storm.threadSetupStack im stack threadDefaultStackSize fn arg mem).1 mem := by
  refine Storm.agree_threadSetupStack fun b hbs hb' => hs b hbs ?_
  simp only [mem_below, mem_range, threadDefaultStackSize] at hb' ⊢
  bv_omega

/-- What `thread_restore` finds: it returns to `thread_main`, which finds its arguments. -/
theorem restore (h : InitialFrame im c sp mem) :
    load32 mem (sp + 16) = im.threadMain ∧ load32 mem (sp + 20 + 4) = c.fn ∧
      load32 mem (sp + 20 + 8) = c.arg := by
  rw [h.stackPtr_eq, add_assoc, add_assoc, add_assoc, add_assoc, add_assoc]
  exact ⟨h.main, h.fn, h.arg⟩

end InitialFrame

end Storm
