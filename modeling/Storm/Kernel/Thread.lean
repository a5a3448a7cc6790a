import Storm.Arch.ThreadAsm
import Storm.Lib.List

/-! # `kernel/thread.c`: threads and the scheduler

The functions of `thread.c` on an explicit kernel state. The members of `struct thread` are kept in
a record for each address, apart from the embedded list node, which is the `struct list` object at
`threadNode`. Stacks are plain bytes of the machine's memory.

`heap_malloc` and `heap_free` are a parameter (`Allocator`), so that the scheduler can be run on the
kernel's own heap as well as on any other source of memory. The addresses that the linker fixes are
an `Image`.

The state also keeps a history: each function appends what it did to `trace`. No function reads
it. -/

namespace Storm

open ByteMemory DoublyLinked I386

/-- `struct thread`, without its list node. -/
structure Thread where
  id : Word
  /-- `const char *name`. -/
  name : Word
  stackPtr : Word
  stackSize : Word
  ready : Bool
  deriving DecidableEq, Repr

/-- `sizeof(struct thread)`: four words, a padded `bool` and two links. -/
def sizeofThread : Word := 28

/-- `offsetof(struct thread, stack_ptr)`. -/
def stackPtrOffset : Word := 8

/-- `offsetof(struct thread, node)`. -/
def nodeOffset : Word := 20

/-- `&thread->node`. -/
def threadNode (thread : Word) : Word := thread + nodeOffset

/-- `list_entry(node, struct thread, node)`. -/
def listEntryThread (node : Word) : Word := node - nodeOffset

@[simp] theorem listEntryThread_threadNode (thread : Word) :
    listEntryThread (threadNode thread) = thread := by
  simp [listEntryThread, threadNode]

/-- Different threads have different list nodes. -/
theorem threadNode_injective : Function.Injective threadNode :=
  Function.LeftInverse.injective listEntryThread_threadNode

@[simp] theorem threadNode_inj {t t' : Word} : threadNode t = threadNode t' ↔ t = t' :=
  threadNode_injective.eq_iff

/-- `THREAD_DEFAULT_STACK_SIZE`. -/
def threadDefaultStackSize : Word := 4096

/-- The heap interface of `heap.h` over a heap state `H`. -/
structure Allocator (H : Type) where
  /-- `heap_malloc`. -/
  malloc : Word → H → Word × H
  /-- `heap_free`. -/
  free : Word → H → H

/-- The addresses that linking gives to the objects and functions of the kernel. -/
structure Image where
  /-- `heap`, the array of `heap.c`. -/
  heap : Word
  /-- `thread_run_queue`; its first member is the list header `thread_list`. -/
  threadRunQueue : Word
  /-- `thread_main`. -/
  threadMain : Word
  /-- `idle_thread_fn`. -/
  idleThreadFn : Word
  /-- The string `"Idle thread"`. -/
  idleName : Word
  /-- The return address of the call in `thread_load_first`. -/
  loadReturn : Word
  /-- The return address of the call in `thread_context_switch`. -/
  switchReturn : Word
  /-- `thread_asm.S`. -/
  threadAsm : Linked Storm.threadAsm

/-- One way to link the kernel. -/
def linkedImage : Image where
  heap := 0x110000
  threadRunQueue := 0x10f000
  threadMain := 0x100400
  idleThreadFn := 0x100500
  idleName := 0x100600
  loadReturn := 0x100700
  switchReturn := 0x100800
  threadAsm := ⟨fun i => 0x100100 + BitVec.ofNat 32 i, by decide⟩

/-- What the history records. -/
inductive Event where
  /-- `thread_setup_stack` gave a thread its initial stack pointer. -/
  | setup (thread stackPtr : Word)
  /-- `thread_run_queue_add`. -/
  | add (thread : Word)
  /-- `thread_run_queue_pop`. -/
  | pop (thread : Word)
  /-- `thread_context_switch_asm` stored this stack pointer for the thread it leaves. -/
  | switchOut (thread stackPtr : Word)
  /-- `thread_restore` was reached for a thread with this stack pointer loaded. -/
  | switchIn (thread stackPtr : Word)
  /-- `thread_main(fn, arg)` was entered on the thread's stack. -/
  | enter (thread fn arg : Word)
  /-- `thread_main` called `fn(arg)` on the thread's stack. -/
  | call (thread fn arg : Word)
  /-- `fn` returned to `thread_main`. -/
  | finish (thread : Word)
  /-- `thread_context_switch_asm` returned to the thread's call of it. -/
  | resume (thread : Word)
  deriving DecidableEq, Repr

/-- The state of the kernel. -/
structure Kernel (H : Type) where
  /-- The heap. -/
  heap : H
  /-- The `struct thread` objects, by address. -/
  threads : Word → Thread
  /-- The `struct list` objects, by address. -/
  lists : Lists
  /-- `thread_run_queue.no_threads`. -/
  noThreads : Word
  /-- `idle_thread`. -/
  idleThread : Word
  /-- `current_thread`. -/
  currentThread : Word
  /-- `global_id_counter`. -/
  globalIdCounter : Word
  /-- The processor and the memory. -/
  machine : Machine
  /-- The history. -/
  trace : List Event

variable {H : Type}

/-- The state before `thread_init`: static objects are zero. -/
def Kernel.initial (heap : H) (machine : Machine) : Kernel H where
  heap
  threads := fun _ => ⟨0, null, 0, 0, false⟩
  lists := fun _ => ⟨null, null⟩
  noThreads := 0
  idleThread := null
  currentThread := null
  globalIdCounter := 0
  machine
  trace := []

/-! ## The run queue -/

/-- `thread_run_queue_init`. -/
def threadRunQueueInit (im : Image) (k : Kernel H) : Kernel H :=
  { k with lists := listInit im.threadRunQueue k.lists, noThreads := 0 }

/-- `thread_run_queue_empty`. -/
def threadRunQueueEmpty (k : Kernel H) : Bool := k.noThreads = 0

/-- `thread_run_queue_add`. -/
def threadRunQueueAdd (im : Image) (thread : Word) (k : Kernel H) : Kernel H :=
  { k with
    lists := listAddTail (threadNode thread) im.threadRunQueue k.lists
    noThreads := k.noThreads + 1
    trace := k.trace ++ [.add thread] }

/-- `thread_runqueue_remove`. -/
def threadRunqueueRemove (thread : Word) (k : Kernel H) : Kernel H :=
  { k with
    lists := listDel (threadNode thread) k.lists
    noThreads := k.noThreads - 1 }

/-- `thread_run_queue_pop`. -/
def threadRunQueuePop (im : Image) (k : Kernel H) : Except String (Word × Kernel H) := do
  assert (!threadRunQueueEmpty k) "!thread_run_queue_empty(run_queue)"
  let thread := listEntryThread (k.lists im.threadRunQueue).next
  let k := threadRunqueueRemove thread k
  return (thread, { k with trace := k.trace ++ [.pop thread] })

/-! ## Dispatching -/

/-- `thread_load_first`: the call of `thread_load_first_asm(thread->stack_ptr)`. -/
def threadLoadFirst (im : Image) (thread : Word) (k : Kernel H) : Kernel H :=
  let m := callLoadFirst im.threadAsm (k.threads thread).stackPtr im.loadReturn k.machine
  { k with
    machine := threadLoadFirstAsm im.threadAsm m
    trace := k.trace ++ [.switchIn thread ((loadRestoring im.threadAsm m).gpr .esp)] }

/-- `thread_context_switch`: the call of `thread_context_switch_asm(&current->stack_ptr,
next->stack_ptr)`. The assembly writes `current->stack_ptr` through the pointer it is given. -/
def threadContextSwitch (im : Image) (current next : Word) (k : Kernel H) : Kernel H :=
  let slot := current + stackPtrOffset
  let m := callContextSwitch im.threadAsm slot (k.threads next).stackPtr im.switchReturn k.machine
  let m' := threadContextSwitchAsm im.threadAsm m
  { k with
    machine := m'
    threads := Function.update k.threads current
      { k.threads current with stackPtr := load32 m'.mem slot }
    trace := k.trace ++
      [.switchOut current ((switchSaving im.threadAsm m).gpr .esp),
       .switchIn next ((switchRestoring im.threadAsm m).gpr .esp)] }

/-- `thread_get_current`. -/
def threadGetCurrent (k : Kernel H) : Word := k.currentThread

/-- `thread_set_current`. -/
def threadSetCurrent (thread : Word) (k : Kernel H) : Kernel H := { k with currentThread := thread }

/-- `thread_is_idle`. -/
def threadIsIdle (thread : Word) (k : Kernel H) : Bool := thread = k.idleThread

/-- `thread_get_next`. -/
def threadGetNext (im : Image) (k : Kernel H) : Except String (Word × Kernel H) :=
  if threadRunQueueEmpty k then .ok (k.idleThread, k) else threadRunQueuePop im k

/-- `thread_reschedule`. -/
def threadReschedule (im : Image) (k : Kernel H) : Except String (Kernel H) := do
  let current := threadGetCurrent k
  let (next, k) ← threadGetNext im k
  let k := threadSetCurrent next k
  let k :=
    if !threadIsIdle current k && (k.threads current).ready then threadRunQueueAdd im current k
    else k
  return threadContextSwitch im current next k

/-- `thread_main`, from its entry to the call of `fn`: the value of its local variable `current`. -/
def threadMainEnter (fn arg : Word) (k : Kernel H) : Word × Kernel H :=
  let current := threadGetCurrent k
  (current, { k with trace := k.trace ++ [.enter current fn arg, .call current fn arg] })

/-- `current->ready = false`, after `fn` has returned to `thread_main`. -/
def finished (current : Word) (k : Kernel H) : Kernel H :=
  { k with
    threads := Function.update k.threads current { k.threads current with ready := false }
    trace := k.trace ++ [.finish current] }

/-- `thread_main`, after `fn` has returned. -/
def threadMainLeave (im : Image) (current : Word) (k : Kernel H) : Except String (Kernel H) :=
  threadReschedule im (finished current k)

/-! ## Creating threads -/

/-- `thread_setup_stack`: the memory with the initial frame, and the initial stack pointer. -/
def threadSetupStack (im : Image) (stackBaseAddr stackSize fn arg : Word) (mem : Memory) :
    Memory × Word :=
  let stackPtr := stackBaseAddr + stackSize
  -- thread_main args
  let mem := store32 mem (stackPtr - 4) arg
  let mem := store32 mem (stackPtr - 8) fn
  -- fake return address
  let mem := store32 mem (stackPtr - 12) 0
  -- return address at the end of thread_restore
  let mem := store32 mem (stackPtr - 16) im.threadMain
  -- saved registers
  let mem := store32 mem (stackPtr - 20) 0
  let mem := store32 mem (stackPtr - 24) 0
  let mem := store32 mem (stackPtr - 28) 0
  let mem := store32 mem (stackPtr - 32) 0
  (mem, stackPtr - 32)

/-- `thread_struct_init`. -/
def threadStructInit (im : Image) (thread name stackBaseAddr stackSize fn arg : Word)
    (k : Kernel H) : Kernel H :=
  let (mem, stackPtr) := threadSetupStack im stackBaseAddr stackSize fn arg k.machine.mem
  { k with
    globalIdCounter := k.globalIdCounter + 1
    lists := listNodeInit (threadNode thread) k.lists
    threads := Function.update k.threads thread
      { id := k.globalIdCounter, name, stackPtr, stackSize, ready := true }
    machine := { k.machine with mem }
    trace := k.trace ++ [.setup thread stackPtr] }

/-- The allocations of `thread_create` and `idle_thread_create`: a `struct thread` and a stack, or
neither. On failure both pointers, as far as they were set, go back to the heap. -/
def threadAllocate (al : Allocator H) (h : H) : Option (Word × Word) × H :=
  let (thread, h) := al.malloc sizeofThread h
  if thread = null then (none, al.free null (al.free thread h))
  else
    let (stack, h) := al.malloc threadDefaultStackSize h
    if stack = null then (none, al.free stack (al.free thread h))
    else (some (thread, stack), h)

/-- What a call of `thread_create` leaves behind. -/
structure CreateResult (H : Type) where
  /-- The return value. -/
  error : Int
  /-- `*threadp`. -/
  threadp : Word
  kernel : Kernel H

/-- `idle_thread_create`, with the old value of `*threadp`. -/
def idleThreadCreate (im : Image) (al : Allocator H) (threadp : Word) (k : Kernel H) :
    CreateResult H :=
  match threadAllocate al k.heap with
  | (none, heap) => ⟨1, threadp, { k with heap }⟩
  | (some (thread, stack), heap) =>
      ⟨0, thread, threadStructInit im thread im.idleName stack threadDefaultStackSize
        im.idleThreadFn null { k with heap }⟩

/-- `thread_init`. -/
def threadInit (im : Image) (al : Allocator H) (k : Kernel H) : Int × Kernel H :=
  let r := idleThreadCreate im al k.idleThread k
  let k := { r.kernel with idleThread := r.threadp }
  if r.error ≠ 0 then (r.error, k) else (0, threadRunQueueInit im k)

/-- `thread_create`, with the old value of `*threadp`. -/
def threadCreate (im : Image) (al : Allocator H) (threadp name fn arg : Word) (k : Kernel H) :
    CreateResult H :=
  match threadAllocate al k.heap with
  | (none, heap) => ⟨1, threadp, { k with heap }⟩
  | (some (thread, stack), heap) =>
      let k := threadStructInit im thread name stack threadDefaultStackSize fn arg { k with heap }
      ⟨0, thread, threadRunQueueAdd im thread k⟩

/-- `thread_start_scheduler`. -/
def threadStartScheduler (im : Image) (k : Kernel H) : Except String (Kernel H) := do
  let (first, k) ← threadGetNext im k
  let k := threadSetCurrent first k
  return threadLoadFirst im first k

/-! ## What the dispatching functions do -/

section Dispatch

variable {im : Image} {k k' : Kernel H}

/-- The kernel when `thread_reschedule` has taken `next` and calls `thread_context_switch`. -/
def requeued (im : Image) (current next : Word) (k : Kernel H) : Kernel H :=
  let k := threadSetCurrent next k
  if !threadIsIdle current k && (k.threads current).ready then threadRunQueueAdd im current k else k

/-- `thread_reschedule` fails only when `thread_get_next` does. -/
theorem threadReschedule_eq_ok : threadReschedule im k = .ok k' ↔
    ∃ next k₁, threadGetNext im k = .ok (next, k₁) ∧
      threadContextSwitch im k.currentThread next (requeued im k.currentThread next k₁) = k' := by
  cases h : threadGetNext im k with
  | error e => simp [threadReschedule, h, bind, Except.bind]
  | ok r => simp [threadReschedule, h, bind, Except.bind, pure, Except.pure, requeued,
      threadGetCurrent, Prod.ext_iff]

/-- `thread_start_scheduler` fails only when `thread_get_next` does. -/
theorem threadStartScheduler_eq_ok : threadStartScheduler im k = .ok k' ↔
    ∃ first k₁, threadGetNext im k = .ok (first, k₁) ∧
      threadLoadFirst im first (threadSetCurrent first k₁) = k' := by
  cases h : threadGetNext im k with
  | error e => simp [threadStartScheduler, h, bind, Except.bind]
  | ok r => simp [threadStartScheduler, h, bind, Except.bind, pure, Except.pure, Prod.ext_iff]

/-- **`thread_load_first`** loads the stack pointer of the thread. -/
theorem threadLoadFirst_eq (t : Word) :
    threadLoadFirst im t k =
      { k with
        machine := threadLoadFirstAsm im.threadAsm
          (callLoadFirst im.threadAsm (k.threads t).stackPtr im.loadReturn k.machine)
        trace := k.trace ++ [.switchIn t (k.threads t).stackPtr] } := by
  rw [threadLoadFirst, (threadLoadFirstAsm_spec im.threadAsm _ _ _).1]

/-- `thread_load_first` pops five words. -/
theorem threadLoadFirst_esp (t : Word) :
    (threadLoadFirst im t k).machine.gpr .esp = (k.threads t).stackPtr + 20 :=
  (threadLoadFirstAsm_spec im.threadAsm _ _ _).2.2.2

/-- **`thread_context_switch`** stores the stack pointer of the one thread, 28 bytes below that of
the caller, and loads the one that the other thread had before. -/
theorem threadContextSwitch_eq (c n : Word) :
    threadContextSwitch im c n k =
      { k with
        machine := threadContextSwitchAsm im.threadAsm
          (callContextSwitch im.threadAsm (c + stackPtrOffset) (k.threads n).stackPtr
            im.switchReturn k.machine)
        threads := Function.update k.threads c
          { k.threads c with stackPtr := k.machine.gpr .esp - 28 }
        trace := k.trace ++ [.switchOut c (k.machine.gpr .esp - 28),
          .switchIn n (k.threads n).stackPtr] } := by
  obtain ⟨hsaving, hrestoring, hmem, -⟩ := threadContextSwitchAsm_spec im.threadAsm
    (c + stackPtrOffset) (k.threads n).stackPtr im.switchReturn k.machine
  rw [threadContextSwitch, hsaving, hrestoring, hmem, switchMem, load32_store32]

end Dispatch

end Storm
