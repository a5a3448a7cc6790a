import Storm.Kernel.Scheduling
import Storm.Kernel.ThreadHeap

/-! # Runs on the kernel's own heap

The reachable states of the kernel, with `heap.c` as its heap: `OnKernelHeap` says what holds in
each of them. The scheduler is in some state of the round-robin dispatcher, the heap is the one
after so-and-so many calls of `thread_create`, and the threads are where those calls put them. In
particular a new thread never gets the `struct thread` of another (`OnKernelHeap.unused`). -/

namespace Storm

open ByteMemory I386 Transition

/-- The actions that call `thread_create`. -/
def Action.creates : Action → Bool
  | .create .. => true
  | .start | .reschedule | .exit | .compute _ => false

namespace System

/-- What is observed of a step: the thread that it dispatches. -/
def dispatched {H : Type} (a : Action) (s : System H) : List Word :=
  match a with
  | .start | .reschedule | .exit => [s.kernel.currentThread]
  | .create .. | .compute _ => []

/-- What an action does to the queue of waiting threads: a created thread joins its end, a dispatch
removes its head, and the caller of `thread_reschedule`, unless it is the idle thread, joins its end
after that. A thread that exits does not come back. -/
def queueAfter {H : Type} (a : Action) (s s' : System H) (queue : List Word) : List Word :=
  match a with
  | .create .. => queue ++ (s'.threads.drop s.threads.length).map Creation.thread
  | .start | .exit => queue.tail
  | .reschedule =>
      queue.tail ++
        if s.kernel.currentThread = s.idle.thread then [] else [s.kernel.currentThread]
  | .compute _ => queue

/-- The kernel after `heap_init` and `thread_init`. -/
def bootKernel (im : Image) (machine : Machine) : System Heap :=
  boot im kernelHeap (heapInit im.heap Heap.initial) machine

/-- A run of the kernel over these actions leads to the state `s`. -/
def Reachable (im : Image) (machine : Machine) (acts : List Action) (s : System Heap) : Prop :=
  Run (Step im kernelHeap) (bootKernel im machine) acts s

/-- What holds in every state that the kernel reaches with `n` calls of `thread_create`. -/
structure OnKernelHeap (im : Image) (n : ℕ) (s : System Heap) (a : RoundRobin.State Word) :
    Prop where
  represents : s.Represents im a
  heap : HeapAfter im n s.threads.length s.kernel.heap
  threads : s.threads.map (fun c => (c.thread, c.stack)) =
    (List.range s.threads.length).map fun i => (threadAt im i, stackAt im i)

namespace OnKernelHeap

variable {im : Image} {n : ℕ} {s s' : System Heap}
  {a : RoundRobin.State Word} {act : Action}

/-- The `struct thread` objects of different threads that the heap can hold are different. -/
theorem threadAt_inj (hp : im.Placed) {i j : ℕ} (hi : i ≤ 1011) (hj : j ≤ 1011)
    (hij : threadAt im i = threadAt im j) : i = j := by
  rw [threadAt_eq, threadAt_eq, add_left_inj] at hij
  have := congrArg BitVec.toNat hij
  rw [hp.toNat_blockAt hi, hp.toNat_blockAt hj] at this
  omega

/-- No list node in the heap is the header of the run queue. -/
theorem threadNode_threadAt_ne (hp : im.Placed) {i : ℕ} (hi : i ≤ 1011) :
    threadNode (threadAt im i) ≠ im.threadRunQueue := by
  obtain ⟨hlo, hhi, -⟩ := hp.heapStart_bounds
  have hblock := hp.toNat_blockAt hi
  have hle := hp.heap_le
  have hq := hp.queue_apart
  rw [toNat_heapSize] at hle
  simp only [Extent.Apart, Extent.hi, toNat_heapSize,
    show sizeofRunQueue.toNat = 12 from rfl] at hq
  have hroom : (blockAt im i).toNat + 44 ≤ 2 ^ 32 := by omega
  -- the node is at offset 20 in the `struct thread`, behind a header of 12 bytes
  have hnode : (threadNode (threadAt im i)).toNat = (blockAt im i).toNat + 32 := by
    rw [threadNode, threadAt_eq, nodeOffset]
    bv_omega
  intro heq
  rw [← heq, hnode] at hq
  omega

/-- **The memory of a new thread is not that of another.** -/
theorem unused (hp : im.Placed) (h : s.OnKernelHeap im n a) (hlt : s.threads.length ≤ 1011) :
    s.Unused im (threadAt im s.threads.length) := by
  refine ⟨?_, threadNode_threadAt_ne hp hlt⟩
  have hts : s.threads.map Creation.thread =
      (List.range s.threads.length).map (threadAt im) := by
    have := congrArg (List.map Prod.fst) h.threads
    rwa [List.map_map, List.map_map] at this
  rw [hts]
  intro hmem
  obtain ⟨i, hi, heq⟩ := List.mem_map.mp hmem
  have hilt := List.mem_range.mp hi
  have := threadAt_inj hp (by omega) hlt heq
  omega

/-- After `thread_init`. -/
theorem boot (hp : im.Placed) (machine : Machine) :
    (bootKernel im machine).OnKernelHeap im 0 ⟨threadAt im 0, [], none, []⟩ := by
  obtain ⟨h, halloc, hheap⟩ := HeapAfter.init hp
  obtain ⟨hrep, hh, hts⟩ := Represents.boot machine halloc
    (threadNode_threadAt_ne hp (Nat.zero_le _))
  refine ⟨hrep, ?_, ?_⟩
  · rw [bootKernel, hts, hh]
    exact hheap
  · rw [bootKernel, hts]
    rfl

/-- A state with the heap and the threads of another. -/
theorem of_threads_eq {a' : RoundRobin.State Word} (h : s.OnKernelHeap im n a)
    (hrep : s'.Represents im a') (hheap : s'.kernel.heap = s.kernel.heap)
    (hts : s'.threads = s.threads) : s'.OnKernelHeap im n a' := by
  refine ⟨hrep, ?_, ?_⟩
  · rw [hheap, hts]
    exact h.heap
  · rw [hts]
    exact h.threads

/-- The thread that a step of the dispatcher dispatches is the kernel's current thread. -/
theorem dispatched_eq {l : RoundRobin.Label Word} {a' : RoundRobin.State Word}
    (hstep : RoundRobin.Step a l a') (hl : l.dispatches) (hrep : s'.Represents im a') :
    RoundRobin.dispatched l a' = [s'.kernel.currentThread] := by
  have hcur := hstep.current_eq
  rw [if_pos hl] at hcur
  rw [RoundRobin.dispatched, if_pos hl, hcur, hrep.kernel.current _ hcur]
  rfl

/-- **A step on the kernel heap** is answered by the dispatcher, whose queue changes as the action
says, and which dispatches its next thread. -/
theorem step (hp : im.Placed) (h : s.OnKernelHeap im n a) (hstep : Step im kernelHeap s act s') :
    ∃ bs a', Observed RoundRobin.Step RoundRobin.dispatched a bs (dispatched act s') a' ∧
      s'.OnKernelHeap im (if act.creates then n + 1 else n) a' ∧
      a'.queue = queueAfter act s s' a.queue ∧ ∀ t ∈ dispatched act s', t = a.next := by
  obtain ⟨hen, hexec⟩ := hstep
  cases act with
  | create name fn arg =>
      obtain ⟨heap, halloc, hheap⟩ | ⟨heap, halloc, hheap⟩ := h.heap.threadAllocate hp
      · have hlt := hheap.live_le
        -- the new thread is at the next position
        obtain ⟨s₁, hexec₁, hrr, hrep, hh, hts⟩ := h.represents.exec_create_some name fn
          arg halloc (h.unused hp (by omega))
        obtain rfl : s₁ = s' := Except.ok.inj (hexec₁.symm.trans hexec)
        refine ⟨[.create _], _, .single hrr, ⟨hrep, ?_, ?_⟩, ?_, by simp [dispatched]⟩
        · rw [hh, hts, List.length_append]
          exact hheap
        · rw [hts, List.map_append, h.threads, List.length_append, List.length_singleton,
            List.range_succ, List.map_append]
          rfl
        · rw [queueAfter, hts, List.drop_left]
          rfl
      -- without memory the dispatcher takes no step
      · obtain ⟨s₁, hexec₁, hrep, hh, hts⟩ := h.represents.exec_create_none name fn arg
          halloc
        obtain rfl : s₁ = s' := Except.ok.inj (hexec₁.symm.trans hexec)
        refine ⟨[], a, .nil a, ⟨hrep, ?_, ?_⟩, ?_, by simp [dispatched]⟩
        · rw [hh, hts]
          exact hheap
        · rw [hts]
          exact h.threads
        · rw [queueAfter, hts, List.drop_length, List.map_nil, List.append_nil]
  | start =>
      obtain ⟨s₁, hexec₁, hrr, hrep, hh, hts⟩ := h.represents.exec_start kernelHeap hen
      obtain rfl : s₁ = s' := Except.ok.inj (hexec₁.symm.trans hexec)
      refine ⟨[.start], _, ?_, h.of_threads_eq hrep hh hts, rfl, ?_⟩
      · rw [dispatched, ← dispatched_eq hrr rfl hrep]
        exact .single hrr
      · simpa [dispatched] using hrep.kernel.current a.next rfl
  | reschedule =>
      obtain ⟨s₁, hexec₁, hrr, hrep, hh, hts⟩ := h.represents.exec_reschedule kernelHeap hen
      obtain rfl : s₁ = s' := Except.ok.inj (hexec₁.symm.trans hexec)
      refine ⟨[.yield], _, ?_, h.of_threads_eq hrep hh hts, ?_, ?_⟩
      · rw [dispatched, ← dispatched_eq hrr rfl hrep]
        exact .single hrr
      · rw [queueAfter, ← h.represents.idle_eq]
        rfl
      · simpa [dispatched] using hrep.kernel.current a.next rfl
  | exit =>
      obtain ⟨s₁, hexec₁, hrr, hrep, hh, hts⟩ := h.represents.exec_exit kernelHeap hen
      obtain rfl : s₁ = s' := Except.ok.inj (hexec₁.symm.trans hexec)
      refine ⟨[.exit], _, ?_, h.of_threads_eq hrep hh hts, rfl, ?_⟩
      · rw [dispatched, ← dispatched_eq hrr rfl hrep]
        exact .single hrr
      · simpa [dispatched] using hrep.kernel.current a.next rfl
  | compute m =>
      obtain ⟨s₁, hexec₁, hrep, hh, hts⟩ := h.represents.exec_compute kernelHeap m
      obtain rfl : s₁ = s' := Except.ok.inj (hexec₁.symm.trans hexec)
      exact ⟨[], a, .nil a, h.of_threads_eq hrep hh hts, rfl, by simp [dispatched]⟩

/-- **A run on the kernel heap** is answered by the dispatcher, which dispatches the same threads.
-/
theorem run (hp : im.Placed) (h : s.OnKernelHeap im n a) {acts : List Action} {ds : List Word}
    (hrun : Observed (Step im kernelHeap) dispatched s acts ds s') :
    ∃ bs a', Observed RoundRobin.Step RoundRobin.dispatched a bs ds a' ∧
      s'.OnKernelHeap im (n + acts.countP Action.creates) a' := by
  refine hrun.simulate (R := fun done s a =>
    s.OnKernelHeap im (n + done.countP Action.creates) a) [] ?_ h
  intro done s act s' a h hstep
  obtain ⟨bs, a', hbs, h', -, -⟩ := h.step hp hstep
  refine ⟨bs, a', hbs, ?_⟩
  rw [List.countP_append, List.countP_singleton]
  cases hact : act.creates <;> simpa [hact, Nat.add_assoc] using h'

/-- The first 1010 calls of `thread_create` succeed. -/
theorem exists_create (hp : im.Placed) (h : s.OnKernelHeap im n a) (hn : n < 1010)
    (name fn arg : Word) :
    ∃ s', Step im kernelHeap s (.create name fn arg) s' ∧
      s'.OnKernelHeap im (n + 1) { a with queue := a.queue ++ [threadAt im (n + 1)] } ∧
      s'.threads = s.threads ++ [⟨threadAt im (n + 1), stackAt im (n + 1), fn, arg⟩] := by
  have hlen : s.threads.length = n + 1 := h.heap.live_eq (by omega)
  obtain ⟨heap, halloc, hheap⟩ | ⟨heap, -, hheap⟩ := h.heap.threadAllocate hp
  · obtain ⟨s', hexec, -, hrep, hh, hts⟩ := h.represents.exec_create_some name fn arg halloc
      (h.unused hp (by omega))
    rw [hlen] at hrep hts
    refine ⟨s', ⟨trivial, hexec⟩, ⟨hrep, ?_, ?_⟩, hts⟩
    · rw [hh, hts, List.length_append]
      exact hheap
    · rw [hts, List.map_append, h.threads, List.length_append, List.length_singleton,
        List.range_succ, List.map_append, hlen]
      rfl
  · have hlive := hheap.live_eq (by omega)
    omega

/-- A call of `thread_reschedule`. -/
theorem exists_reschedule {c : Word} (h : s.OnKernelHeap im n a) (hc : a.current = some c) :
    ∃ s', Step im kernelHeap s .reschedule s' ∧ s'.kernel.currentThread = a.next ∧
      s'.OnKernelHeap im n (a.dispatch.requeue c) := by
  have hs : s.started = true := by
    rw [h.represents.started, hc]
    rfl
  obtain ⟨s', hexec, -, hrep, hh, hts⟩ := h.represents.exec_reschedule kernelHeap hs
  rw [h.represents.kernel.current c hc] at hrep
  exact ⟨s', ⟨hs, hexec⟩, hrep.kernel.current _ rfl, h.of_threads_eq hrep hh hts⟩

/-- The return of a thread function. -/
theorem exists_exit {c : Word} (h : s.OnKernelHeap im n a) (hc : a.current = some c)
    (hen : s.Enabled .exit) :
    ∃ s', Step im kernelHeap s .exit s' ∧ s'.kernel.currentThread = a.next ∧
      s'.OnKernelHeap im n { a.dispatch with exited := c :: a.exited } := by
  obtain ⟨s', hexec, -, hrep, hh, hts⟩ := h.represents.exec_exit kernelHeap hen
  rw [h.represents.kernel.current c hc] at hrep
  exact ⟨s', ⟨hen, hexec⟩, hrep.kernel.current _ rfl, h.of_threads_eq hrep hh hts⟩

end OnKernelHeap

/-- Every reachable state is a state of the dispatcher. -/
theorem Reachable.onKernelHeap {im : Image} {machine : Machine} {acts : List Action}
    {s : System Heap} (hp : im.Placed) (hrun : Reachable im machine acts s) :
    ∃ a, s.OnKernelHeap im (acts.countP Action.creates) a := by
  obtain ⟨ds, hds⟩ := Run.observed dispatched hrun
  obtain ⟨bs, a, -, h⟩ := (OnKernelHeap.boot hp machine).run hp hds
  rw [Nat.zero_add] at h
  exact ⟨a, h⟩

variable {im : Image} {machine : Machine} {acts : List Action} {s : System Heap}

/-- An action that can happen does happen: no assertion fails. -/
theorem Reachable.exec_ok (hp : im.Placed) (hrun : Reachable im machine acts s)
    {act : Action} (hen : s.Enabled act) : ∃ s', s.exec im kernelHeap act = .ok s' := by
  obtain ⟨a, h⟩ := hrun.onKernelHeap hp
  cases act with
  | create name fn arg => exact ⟨_, rfl⟩
  | start =>
      obtain ⟨s', hs', -⟩ := h.represents.exec_start kernelHeap hen
      exact ⟨s', hs'⟩
  | reschedule =>
      obtain ⟨s', hs', -⟩ := h.represents.exec_reschedule kernelHeap hen
      exact ⟨s', hs'⟩
  | exit =>
      obtain ⟨s', hs', -⟩ := h.represents.exec_exit kernelHeap hen
      exact ⟨s', hs'⟩
  | compute m => exact ⟨_, rfl⟩

/-- The state after `thread_init` is reachable. -/
theorem Reachable.nil (im : Image) (machine : Machine) :
    Reachable im machine [] (bootKernel im machine) := Run.nil _

/-- Every reachable state in which an action can happen is followed by another. -/
theorem Reachable.snoc (hp : im.Placed) (hrun : Reachable im machine acts s) (act : Action)
    (hen : s.Enabled act) :
    ∃ s', Step im kernelHeap s act s' ∧ Reachable im machine (acts ++ [act]) s' := by
  obtain ⟨s', hexec⟩ := hrun.exec_ok hp hen
  exact ⟨s', ⟨hen, hexec⟩, Run.snoc hrun ⟨hen, hexec⟩⟩

/-- `linkedImage` places the heap in the address space and the run queue outside of it. -/
theorem linkedImage_placed : linkedImage.Placed := ⟨by decide, by decide⟩

/-- A machine on the boot stack. -/
def bootMachine : Machine where
  gpr r := if r = .esp then 0x10e000 else 0
  eip := 0x100000
  cs := 8
  eflags := 2
  mem _ := 0

/-- The scheduler can be started. -/
theorem Reachable.start (hp : im.Placed) (hrun : Reachable im machine acts s)
    (hs : s.started = false) :
    ∃ s', Step im kernelHeap s .start s' ∧ Reachable im machine (acts ++ [.start]) s' ∧
      s'.started = true := by
  obtain ⟨s', hstep, hrun'⟩ := hrun.snoc hp .start hs
  obtain ⟨k, -, rfl⟩ := exec_start.mp hstep.2
  exact ⟨_, hstep, hrun', started_arrive im _⟩

end System

end Storm
