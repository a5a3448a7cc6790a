import Storm.Kernel.Thread
import Storm.Library.Extent
import Storm.Library.Transition

/-! # Runs of the kernel

`System` is the kernel together with what a run has to remember about it: the threads created so
far with their memory, whether the scheduler has started, and the local variable `current` of each
thread's activation of `thread_main`.

An `Action` is what happens between two step boundaries: a call of `thread_create` (at boot or by
the running thread), the call of `thread_start_scheduler`, a call of `thread_reschedule` by the
running thread, the return of a thread function to `thread_main`, or a piece of the running thread's
own computation. `System.exec` runs the kernel code of an action. `System.Enabled` says when an
action can happen; a `System.Step` is an enabled action that is executed without a panic. -/

namespace Storm

open ByteMemory I386

/-- A created thread: its `struct thread`, the base of its stack, its function and argument. -/
structure Creation where
  thread : Word
  stack : Word
  fn : Word
  arg : Word
  deriving DecidableEq, Repr

/-- The memory of a thread: its `struct thread` and its stack. -/
def threadExtents (thread stack : Word) : List Extent :=
  [⟨thread.toNat, sizeofThread.toNat⟩, ⟨stack.toNat, threadDefaultStackSize.toNat⟩]

/-- The memory that belongs to a created thread. -/
def Creation.extents (c : Creation) : List Extent := threadExtents c.thread c.stack

/-- `sizeof(struct thread_run_queue)`. -/
def sizeofRunQueue : Word := 12

/-- The kernel and the history of its threads. -/
structure System (H : Type) where
  kernel : Kernel H
  /-- The idle thread. -/
  idle : Creation
  /-- The other threads, in creation order. -/
  created : List Creation
  /-- Whether `thread_start_scheduler` was called. -/
  started : Bool
  /-- The local variable `current` of each thread's call of `thread_main`. -/
  mainLocal : Word → Option Word

/-- What happens between two step boundaries. -/
inductive Action where
  /-- A call of `thread_create`. -/
  | create (name fn arg : Word)
  /-- The call of `thread_start_scheduler`. -/
  | start
  /-- A call of `thread_reschedule` by the running thread. -/
  | reschedule
  /-- The running thread's function returns to `thread_main`. -/
  | exit
  /-- The running code computes, which leaves the machine in this state. -/
  | compute (m : Machine)

/-- The actions that call `thread_reschedule`. -/
def Action.reschedules : Action → Bool
  | .reschedule | .exit => true
  | .create .. | .start | .compute _ => false

variable {H : Type}

namespace System

/-- The idle thread and all others. -/
def threads (s : System H) : List Creation := s.idle :: s.created

/-- Memory that is in use: the run queue, and the `struct thread` and the stack of every thread. -/
def extents (im : Image) (s : System H) : List Extent :=
  ⟨im.threadRunQueue.toNat, sizeofRunQueue.toNat⟩ :: s.threads.flatMap Creation.extents

/-- Control has passed to the current thread: for a new thread `thread_restore` jumps to
`thread_main`, which finds its arguments above the fake return address; otherwise it returns to the
thread's call of `thread_context_switch_asm`. -/
def arrive (im : Image) (s : System H) : System H :=
  let m := s.kernel.machine
  if m.eip = im.threadMain then
    let fn := load32 m.mem (m.gpr .esp + 4)
    let arg := load32 m.mem (m.gpr .esp + 8)
    let (current, kernel) := threadMainEnter fn arg s.kernel
    { s with
      kernel
      mainLocal := Function.update s.mainLocal s.kernel.currentThread (some current) }
  else if m.eip = im.switchReturn then
    { s with
      kernel := { s.kernel with trace := s.kernel.trace ++ [.resume s.kernel.currentThread] } }
  else s

/-- The created threads after a call of `thread_create` whose allocations end like this. -/
def createdBy (fn arg : Word) (s : System H) : Option (Word × Word) → List Creation
  | none => s.created
  | some (thread, stack) => s.created ++ [⟨thread, stack, fn, arg⟩]

/-- Run the kernel code of an action. -/
def exec (im : Image) (al : Allocator H) (s : System H) : Action → Except String (System H)
  | .create name fn arg =>
      .ok { s with
        kernel := (threadCreate im al null name fn arg s.kernel).kernel
        created := s.createdBy fn arg (threadAllocate al s.kernel.heap).1 }
  | .start => do
      let kernel ← threadStartScheduler im s.kernel
      return arrive im { s with kernel, started := true }
  | .reschedule => do
      let kernel ← threadReschedule im s.kernel
      return arrive im { s with kernel }
  | .exit => do
      let current := (s.mainLocal s.kernel.currentThread).getD null
      let kernel ← threadMainLeave im current s.kernel
      return arrive im { s with kernel }
  | .compute machine => .ok { s with kernel := { s.kernel with machine } }

/-- When an action can happen. `thread_create` can always be called. The scheduler is started once.
From then on the current thread runs: any may call `thread_reschedule`, and all but the idle thread,
whose function loops forever, may return to their `thread_main`. -/
def Enabled (s : System H) : Action → Prop
  | .create .. | .compute _ => True
  | .start => s.started = false
  | .reschedule => s.started = true
  | .exit => s.started = true ∧ s.kernel.currentThread ≠ s.idle.thread ∧
      s.mainLocal s.kernel.currentThread ≠ none

/-- A step: an action that can happen, executed without a panic. -/
def Step (im : Image) (al : Allocator H) (s : System H) (a : Action) (s' : System H) : Prop :=
  s.Enabled a ∧ s.exec im al a = .ok s'

/-- The system after `thread_init` on a heap and a machine. -/
def boot (im : Image) (al : Allocator H) (heap : H) (machine : Machine) : System H where
  kernel := (threadInit im al (Kernel.initial heap machine)).2
  idle :=
    match (threadAllocate al heap).1 with
    | none => ⟨null, null, im.idleThreadFn, null⟩
    | some (thread, stack) => ⟨thread, stack, im.idleThreadFn, null⟩
  created := []
  started := false
  mainLocal := fun _ => none

/-- A call followed by a pure function succeeds when the call does. -/
theorem bind_pure_eq_ok {α β : Type} {x : Except String α} {f : α → β} {b : β} :
    (do let a ← x; return f a) = Except.ok b ↔ ∃ a, x = .ok a ∧ f a = b := by
  cases x with
  | error e => simp [bind, Except.bind]
  | ok a => simp [bind, Except.bind, pure, Except.pure]

section Exec

variable {im : Image} {al : Allocator H} {s s' : System H}

/-- What a call of `thread_create` does. -/
theorem exec_create {name fn arg : Word} : s.exec im al (.create name fn arg) = .ok s' ↔
    { s with
      kernel := (threadCreate im al null name fn arg s.kernel).kernel
      created := s.createdBy fn arg (threadAllocate al s.kernel.heap).1 } = s' := by
  rw [exec, Except.ok.injEq]

/-- What `thread_start_scheduler` does. -/
theorem exec_start : s.exec im al .start = .ok s' ↔
    ∃ kernel, threadStartScheduler im s.kernel = .ok kernel ∧
      arrive im { s with kernel, started := true } = s' := bind_pure_eq_ok

/-- What a call of `thread_reschedule` does. -/
theorem exec_reschedule : s.exec im al .reschedule = .ok s' ↔
    ∃ kernel, threadReschedule im s.kernel = .ok kernel ∧ arrive im { s with kernel } = s' :=
  bind_pure_eq_ok

/-- What the return of a thread function does. -/
theorem exec_exit : s.exec im al .exit = .ok s' ↔
    ∃ kernel, threadMainLeave im ((s.mainLocal s.kernel.currentThread).getD null) s.kernel =
      .ok kernel ∧ arrive im { s with kernel } = s' := bind_pure_eq_ok

/-- An arrival only adds to the history, and a local variable `current` that it sets is that of the
current thread. -/
theorem arrive_eq (im : Image) (s : System H) :
    ∃ events mainLocal, s.arrive im =
        { s with kernel := { s.kernel with trace := s.kernel.trace ++ events }, mainLocal } ∧
      (∀ e ∈ events, (∃ t fn arg, e = .enter t fn arg) ∨ (∃ t fn arg, e = .call t fn arg) ∨
        ∃ t, e = .resume t) ∧
      ∀ t c, mainLocal t = some c → s.mainLocal t = some c ∨ c = t := by
  rw [arrive]
  split
  · refine ⟨_, _, rfl, by simp, fun t c hc => ?_⟩
    by_cases ht : t = s.kernel.currentThread
    · subst ht
      rw [Function.update_self] at hc
      exact Or.inr (Option.some.inj hc).symm
    · rw [Function.update_of_ne ht] at hc
      exact Or.inl hc
  · split
    · exact ⟨_, _, rfl, by simp, fun t c hc => Or.inl hc⟩
    · exact ⟨[], s.mainLocal, by rw [List.append_nil], by simp, fun t c hc => Or.inl hc⟩

/-- An arrival at `thread_main`. -/
theorem arrive_threadMain (h : s.kernel.machine.eip = im.threadMain) :
    s.arrive im =
      let m := s.kernel.machine
      let t := s.kernel.currentThread
      let fn := load32 m.mem (m.gpr .esp + 4)
      let arg := load32 m.mem (m.gpr .esp + 8)
      { s with
        kernel := { s.kernel with trace := s.kernel.trace ++ [.enter t fn arg, .call t fn arg] }
        mainLocal := Function.update s.mainLocal t (some t) } := if_pos h

/-- An arrival creates no thread. -/
@[simp] theorem threads_arrive (im : Image) (s : System H) : (s.arrive im).threads = s.threads := by
  obtain ⟨events, mainLocal, heq, -⟩ := arrive_eq im s
  rw [heq]
  rfl

/-- An arrival does not start the scheduler. -/
@[simp] theorem started_arrive (im : Image) (s : System H) : (s.arrive im).started = s.started := by
  obtain ⟨events, mainLocal, heq, -⟩ := arrive_eq im s
  rw [heq]

/-- The scheduler is started once: afterwards a step is another action, and it stays started. -/
theorem Step.started {act : Action} (hs : s.started = true) (h : Step im al s act s') :
    act ≠ .start ∧ s'.started = true := by
  obtain ⟨hen, hexec⟩ := h
  cases act with
  | create name fn arg =>
      obtain rfl := exec_create.mp hexec
      exact ⟨by simp, hs⟩
  | start => exact absurd (hs.symm.trans hen) (by decide)
  | reschedule =>
      obtain ⟨k, -, rfl⟩ := exec_reschedule.mp hexec
      exact ⟨by simp, (started_arrive im _).trans hs⟩
  | exit =>
      obtain ⟨k, -, rfl⟩ := exec_exit.mp hexec
      exact ⟨by simp, (started_arrive im _).trans hs⟩
  | compute m =>
      obtain rfl := Except.ok.inj hexec
      exact ⟨by simp, hs⟩

end Exec

/-- The `struct thread` of a new thread is not that of another thread, and its list node is not the
header of the run queue. -/
def Unused (im : Image) (s : System H) (thread : Word) : Prop :=
  thread ∉ s.threads.map Creation.thread ∧ threadNode thread ≠ im.threadRunQueue

/-- The memory of a new thread is not in use for anything else. -/
def Fresh (im : Image) (s : System H) (thread stack : Word) : Prop :=
  (threadExtents thread stack).Pairwise Extent.Apart ∧
    ∀ e ∈ threadExtents thread stack, e.Within 0 (2 ^ 32) ∧ ∀ f ∈ s.extents im, e.Apart f

end System

end Storm
