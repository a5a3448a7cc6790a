import Storm.Kernel.InitialFrame
import Storm.Kernel.Runs

/-! # The life of a thread

Runs in which thread functions create threads and return, but do not call `thread_reschedule`: no
thread is ever interrupted, each runs from its `thread_main` to the end. The main result,
`runs_in_order`, says that the threads run one after the other in creation order, that each enters
`thread_main` once and calls its own function with its own argument once, that the idle thread comes
last, and that no call of `thread_reschedule` ever returns.

The heap is any source of memory that does not hand out memory in use, and the running code keeps to
its own stack (`System.Disciplined`). -/

namespace Storm

open ByteMemory I386 Transition

variable {H : Type}

/-! ## Reading the history -/

/-- The thread that an event switches to. -/
def Event.switchedTo : Event → Option Word
  | .switchIn t _ => some t
  | .setup .. | .add _ | .pop _ | .switchOut .. | .enter .. | .call .. | .finish _ | .resume _ => none

/-- The function and the argument with which an event enters `thread_main` on the thread `t`. -/
def Event.entered (t : Word) : Event → Option (Word × Word)
  | .enter u fn arg => if u = t then some (fn, arg) else none
  | .setup .. | .add _ | .pop _ | .switchOut .. | .switchIn .. | .call .. | .finish _
  | .resume _ => none

/-- The function that an event calls on the thread `t`, and its argument. -/
def Event.called (t : Word) : Event → Option (Word × Word)
  | .call u fn arg => if u = t then some (fn, arg) else none
  | .setup .. | .add _ | .pop _ | .switchOut .. | .switchIn .. | .enter .. | .finish _
  | .resume _ => none

/-- The thread whose function an event ends. -/
def Event.finishes : Event → Option Word
  | .finish t => some t
  | .setup .. | .add _ | .pop _ | .switchOut .. | .switchIn .. | .enter .. | .call ..
  | .resume _ => none

/-- The threads dispatched so far, in order. -/
def dispatchedThreads (trace : List Event) : List Word := trace.filterMap Event.switchedTo

/-- The entries of `thread_main` on a thread. -/
def entriesOf (t : Word) (trace : List Event) : List (Word × Word) :=
  trace.filterMap (Event.entered t)

/-- The calls of a thread's function on the thread. -/
def callsOf (t : Word) (trace : List Event) : List (Word × Word) := trace.filterMap (Event.called t)

/-- The threads whose function has returned, in order. -/
def finishedThreads (trace : List Event) : List Word := trace.filterMap Event.finishes

/-- Of each thread in `ts`, the history shows nothing before it is dispatched and then, once, its
own function and argument. -/
structure Once (read : Word → List Event → List (Word × Word)) (ts : List Creation)
    (trace : List Event) : Prop where
  dispatched : ∀ c ∈ ts, c.thread ∈ dispatchedThreads trace → read c.thread trace = [(c.fn, c.arg)]
  waiting : ∀ t, t ∉ dispatchedThreads trace → read t trace = []

namespace Once

variable {read : Word → List Event → List (Word × Word)} {ts : List Creation}
  {trace trace' : List Event} {c : Creation}

/-- One more thread is dispatched. -/
theorem dispatch (h : Once read ts trace) (hnew : c.thread ∉ dispatchedThreads trace)
    (hinj : ∀ d ∈ ts, d.thread = c.thread → d = c)
    (hdisp : dispatchedThreads trace' = dispatchedThreads trace ++ [c.thread])
    (hread : ∀ t, read t trace' =
      read t trace ++ if c.thread = t then [(c.fn, c.arg)] else []) : Once read ts trace' := by
  refine ⟨fun d hd hd' => ?_, fun t ht => ?_⟩
  · rw [hdisp, List.mem_append, List.mem_singleton] at hd'
    by_cases hdc : d.thread = c.thread
    · rw [hread, hdc, h.waiting _ hnew, if_pos rfl, hinj d hd hdc, List.nil_append]
    · rw [hread, h.dispatched d hd (hd'.resolve_right hdc), if_neg (Ne.symm hdc),
        List.append_nil]
  · rw [hdisp, List.mem_append, List.mem_singleton, not_or] at ht
    rw [hread, h.waiting t ht.1, if_neg (Ne.symm ht.2), List.append_nil]

/-- One more thread is created. -/
theorem create (h : Once read ts trace) (hnew : c.thread ∉ dispatchedThreads trace)
    (hdisp : dispatchedThreads trace' = dispatchedThreads trace)
    (hread : ∀ t, read t trace' = read t trace) : Once read (ts ++ [c]) trace' := by
  refine ⟨fun d hd hd' => ?_, fun t ht => ?_⟩
  · rw [hdisp] at hd'
    rw [hread]
    rcases List.mem_append.mp hd with hd | hd
    · exact h.dispatched d hd hd'
    · rw [List.mem_singleton.mp hd] at hd'
      exact absurd hd' hnew
  · rw [hdisp] at ht
    rw [hread, h.waiting t ht]

end Once

namespace System

/-! ## Disciplined runs -/

/-- The thread does not run now. -/
def Suspended (s : System H) (c : Creation) : Prop :=
  s.started = true → s.kernel.currentThread ≠ c.thread

/-- The running code has room on its own stack for a call into the scheduler. -/
def HasRoom (s : System H) : Prop :=
  ∀ c ∈ s.threads, s.Suspended c → ∀ b ∈ c.stackRange, b ∉ Below (s.kernel.machine.gpr .esp) 28

/-- What the runs considered here may do. The idle thread creates nothing, and memory for new
threads is not in use; thread functions do not call `thread_reschedule`; the scheduler is called
with room on the stack; and the running code does not write to the stacks of suspended threads. -/
def Disciplined (im : Image) (al : Allocator H) (s : System H) : Action → Prop
  | .create .. => (s.started = true → s.kernel.currentThread ≠ s.idle.thread) ∧
      ∀ thread stack heap, threadAllocate al s.kernel.heap = (some (thread, stack), heap) →
        s.Fresh im thread stack
  | .start | .exit => s.HasRoom
  | .reschedule => False
  | .compute m => ∀ c ∈ s.threads, s.Suspended c → Agree c.stackRange m.mem s.kernel.machine.mem

/-- A disciplined step. -/
def DisciplinedStep (im : Image) (al : Allocator H) (s : System H) (act : Action) (s' : System H) :
    Prop := Step im al s act s' ∧ s.Disciplined im al act

/-- What `thread_init` allocates for the idle thread is not in use either. -/
structure FreshBoot (im : Image) (al : Allocator H) (heap : H) (thread stack : Word) (heap' : H) :
    Prop where
  alloc_eq : threadAllocate al heap = (some (thread, stack), heap')
  pairwise : (⟨im.threadRunQueue.toNat, sizeofRunQueue.toNat⟩ :: threadExtents thread stack).Pairwise
    Extent.Apart
  within : ∀ e ∈ threadExtents thread stack, e.Within 0 (2 ^ 32)

/-- The state of a run in which each thread so far has run from its beginning to its end, or has not
run at all, or is the one that runs now. -/
structure InOrder (im : Image) (s : System H) (a : RoundRobin.State Word) : Prop where
  represents : s.Represents im a
  /-- Nothing overlaps. -/
  layout : (s.extents im).Pairwise Extent.Apart
  within : ∀ c ∈ s.threads, ∀ e ∈ c.extents, e.Within 0 (2 ^ 32)
  /-- The threads exited, run or wait in creation order. -/
  created : s.created.map Creation.thread =
    a.exited.reverse ++ a.current.toList.filter (· ≠ a.idle) ++ a.queue
  dispatched : dispatchedThreads s.kernel.trace = a.exited.reverse ++ a.current.toList
  finished : finishedThreads s.kernel.trace = a.exited.reverse
  /-- When the idle thread runs, nobody waits. -/
  idle_last : a.current = some a.idle → a.queue = []
  /-- Threads that have not run yet have their initial frame. -/
  frame : ∀ c ∈ s.threads, c.thread ∉ dispatchedThreads s.kernel.trace →
    InitialFrame im c (s.kernel.threads c.thread).stackPtr s.kernel.machine.mem
  entered : Once entriesOf s.threads s.kernel.trace
  called : Once callsOf s.threads s.kernel.trace
  resumed : ∀ t, .resume t ∉ s.kernel.trace
  ids : ∀ i c, s.threads[i]? = some c → (s.kernel.threads c.thread).id = BitVec.ofNat 32 i
  counter : s.kernel.globalIdCounter = BitVec.ofNat 32 s.threads.length

namespace InOrder

variable {im : Image} {al : Allocator H} {s s' : System H} {a a' : RoundRobin.State Word}
  {act : Action} {c d : Creation}

/-! ## Memory -/

/-- A `struct thread` is apart from every stack. -/
theorem struct_apart (h : s.InOrder im a) (hc : c ∈ s.threads) (hd : d ∈ s.threads) :
    Extent.Apart ⟨c.thread.toNat, sizeofThread.toNat⟩
      ⟨d.stack.toNat, threadDefaultStackSize.toNat⟩ := by
  have hlayout := h.layout
  rw [extents, List.pairwise_cons] at hlayout
  refine hlayout.2.forall (List.mem_flatMap_of_mem hc ?_) (List.mem_flatMap_of_mem hd ?_) ?_
  · simp [Creation.extents, threadExtents]
  · simp [Creation.extents, threadExtents]
  · simp [sizeofThread, threadDefaultStackSize]

/-- Stacks end inside of the address space. -/
theorem stack_le (h : s.InOrder im a) (hc : c ∈ s.threads) : c.stack.toNat + 4096 ≤ 2 ^ 32 :=
  (h.within c hc ⟨c.stack.toNat, threadDefaultStackSize.toNat⟩
    (by simp [Creation.extents, threadExtents])).2

/-- The slot for a thread's stack pointer is not on a stack. -/
theorem slot_notMem (h : s.InOrder im a) (hc : c ∈ s.threads) (hd : d ∈ s.threads) :
    ∀ b ∈ d.stackRange, b ∉ WordAt (c.thread + stackPtrOffset) := by
  have hapart := h.struct_apart hc hd
  have hle := (h.within c hc ⟨c.thread.toNat, sizeofThread.toNat⟩
    (by simp [Creation.extents, threadExtents])).2
  simp only [Extent.Apart, Extent.hi, show sizeofThread.toNat = 28 from rfl,
    show threadDefaultStackSize.toNat = 4096 from rfl] at hapart hle
  intro b hb hw
  simp only [Creation.stackRange, mem_range, mem_wordAt, stackPtrOffset,
    show threadDefaultStackSize.toNat = 4096 from rfl] at hb hw
  bv_omega

/-- A created thread is given by its address. -/
theorem eq_of_thread_eq (h : s.InOrder im a) (hc : c ∈ s.threads) (hd : d ∈ s.threads)
    (hcd : c.thread = d.thread) : c = d :=
  List.inj_on_of_nodup_map h.represents.nodup hc hd hcd

/-! ## Dispatching a new thread -/

/-- The next thread has not run yet. -/
theorem next_fresh (h : s.InOrder im a) (hcur : a.current ≠ some a.idle) :
    ∃ c ∈ s.threads, c.thread = a.next ∧ c.thread ∉ dispatchedThreads s.kernel.trace := by
  obtain ⟨c, hc, hnext⟩ := List.mem_map.mp h.represents.next_mem
  refine ⟨c, hc, hnext, ?_⟩
  rw [hnext, h.dispatched, List.mem_append, List.mem_reverse, Option.mem_toList, not_or]
  rcases a.next_cases with ⟨-, hn⟩ | ⟨q, hq⟩
  · rw [hn]
    exact ⟨h.represents.valid.idle_exited, hcur⟩
  · have hmem : a.next ∈ a.queue := by
      rw [hq]
      exact List.mem_cons_self
    exact ⟨fun he => h.represents.valid.exited_queue _ he hmem,
      fun hc' => h.represents.valid.current_queue _ hc' hmem⟩

/-- A thread that has not been dispatched does not run. -/
theorem current_ne (h : s.InOrder im a) (hd : d.thread ∉ dispatchedThreads s.kernel.trace) :
    a.current ≠ some d.thread := by
  intro hcur
  rw [h.dispatched, hcur] at hd
  simp at hd

end InOrder

/-- The thread `c` is about to be entered for the first time: `thread_restore` has just jumped to
the return address on its stack. The events since the state `s`, in which `running` ran, are
`es`. -/
structure Entering (s s₁ : System H) (running : Option Word) (c : Creation) (es : List Event) :
    Prop where
  threads : s₁.threads = s.threads
  current : s₁.kernel.currentThread = c.thread
  eip : s₁.kernel.machine.eip =
    load32 s₁.kernel.machine.mem ((s.kernel.threads c.thread).stackPtr + 16)
  esp : s₁.kernel.machine.gpr .esp = (s.kernel.threads c.thread).stackPtr + 20
  trace : s₁.kernel.trace = s.kernel.trace ++ es
  switched : es.filterMap Event.switchedTo = [c.thread]
  finished : es.filterMap Event.finishes = running.toList
  entered : ∀ t, es.filterMap (Event.entered t) = []
  called : ∀ t, es.filterMap (Event.called t) = []
  resumed : ∀ t, Event.resume t ∉ es
  ids : ∀ t, (s₁.kernel.threads t).id = (s.kernel.threads t).id
  /-- The stack pointer and the stack of the thread that ran may have changed. -/
  stackPtr : ∀ t, running ≠ some t →
    (s₁.kernel.threads t).stackPtr = (s.kernel.threads t).stackPtr
  memory : ∀ d ∈ s.threads, running ≠ some d.thread →
    Agree d.stackRange s₁.kernel.machine.mem s.kernel.machine.mem
  counter : s₁.kernel.globalIdCounter = s.kernel.globalIdCounter

namespace Entering

variable {im : Image} {s s₁ : System H} {a a' : RoundRobin.State Word} {c : Creation}
  {es : List Event} {l : RoundRobin.Label Word}

/-- The thread still has its initial frame. -/
theorem frame (he : Entering s s₁ a.current c es) (h : s.InOrder im a) (hc : c ∈ s.threads)
    (hnew : c.thread ∉ dispatchedThreads s.kernel.trace) :
    InitialFrame im c (s.kernel.threads c.thread).stackPtr s₁.kernel.machine.mem :=
  (h.frame c hc hnew).congr (h.stack_le hc) (he.memory c hc (h.current_ne hnew))

/-- **The thread arrives** in `thread_main` with its own function and argument. -/
theorem arrive (he : Entering s s₁ a.current c es) (h : s.InOrder im a) (hc : c ∈ s.threads)
    (hnew : c.thread ∉ dispatchedThreads s.kernel.trace) :
    (s₁.arrive im).kernel =
      { s₁.kernel with
        trace := s.kernel.trace ++ es ++
          [.enter c.thread c.fn c.arg, .call c.thread c.fn c.arg] } := by
  obtain ⟨hmain, hfn, harg⟩ := (he.frame h hc hnew).restore
  rw [arrive_threadMain (he.eip.trans hmain)]
  dsimp only
  rw [he.esp, hfn, harg, he.current, he.trace]

/-- Its `thread_main` has found out which thread it is. -/
theorem mainLocal_arrive (he : Entering s s₁ a.current c es) (h : s.InOrder im a)
    (hc : c ∈ s.threads) (hnew : c.thread ∉ dispatchedThreads s.kernel.trace) :
    (s₁.arrive im).mainLocal c.thread = some c.thread := by
  obtain ⟨hmain, -, -⟩ := (he.frame h hc hnew).restore
  rw [arrive_threadMain (he.eip.trans hmain)]
  dsimp only
  rw [he.current, Function.update_self]

/-- **The invariant after a dispatch** of a new thread, by the first dispatch or an exit. -/
theorem inOrder (he : Entering s s₁ a.current c es) (h : s.InOrder im a) (hc : c ∈ s.threads)
    (hnew : c.thread ∉ dispatchedThreads s.kernel.trace) (hnext : c.thread = a.next)
    (hidle : a.current ≠ some a.idle) (hrep : (s₁.arrive im).Represents im a')
    (hstep : RoundRobin.Step a l a') (hl : l = .start ∨ l = .exit) :
    (s₁.arrive im).InOrder im a' := by
  have hvalid := h.represents.valid
  have hidle' := hstep.idle_eq
  obtain ⟨hqueue, hcur, hexited⟩ := hstep.leaves hl
  have harr := he.arrive h hc hnew
  have hts : (s₁.arrive im).threads = s.threads := (threads_arrive im s₁).trans he.threads
  have htrace : (s₁.arrive im).kernel.trace = s.kernel.trace ++ es ++
      [.enter c.thread c.fn c.arg, .call c.thread c.fn c.arg] := by rw [harr]
  have hdisp : dispatchedThreads (s₁.arrive im).kernel.trace =
      dispatchedThreads s.kernel.trace ++ [c.thread] := by
    simp [dispatchedThreads, htrace, he.switched, Event.switchedTo]
  refine ⟨hrep, ?layout, ?within, ?created, ?dispatched, ?finished, ?idleLast, ?frame, ?entered,
    ?called, ?resumed, ?ids, ?counter⟩
  case layout =>
    rw [extents, hts]
    exact h.layout
  case within =>
    rw [hts]
    exact h.within
  case created =>
    -- the next thread moves from the head of the queue to the end of the dispatched ones
    have hcreated : (s₁.arrive im).created = s.created := (List.cons.inj hts).2
    have hfilter : a.current.toList.filter (· ≠ a.idle) = a.current.toList := by
      refine List.filter_eq_self.mpr fun t ht => ?_
      rw [Option.mem_toList] at ht
      rw [decide_eq_true_iff]
      rintro rfl
      exact hidle ht
    rw [hcreated, h.created, hexited, hcur, hqueue, hidle', hfilter]
    nth_rewrite 1 [hvalid.queue_eq]
    exact (List.append_assoc _ _ _).symm
  case dispatched =>
    rw [hdisp, h.dispatched, hexited, hcur, hnext]
    rfl
  case finished =>
    rw [hexited, ← h.finished]
    simp [finishedThreads, htrace, he.finished, Event.finishes]
  case idleLast =>
    -- the idle thread is taken only from an empty queue
    intro hcur'
    rw [hidle', hcur] at hcur'
    rw [hqueue, hvalid.next_eq_idle_iff.mp (Option.some.inj hcur'), List.tail_nil]
  case frame =>
    -- a thread that has not run is neither the one that ran nor the one that is entered
    intro d hd hd'
    rw [hts] at hd
    rw [hdisp, List.mem_append, not_or] at hd'
    have hdcur := h.current_ne hd'.1
    rw [harr]
    dsimp only
    rw [he.stackPtr _ hdcur]
    exact (h.frame d hd hd'.1).congr (h.stack_le hd) (he.memory d hd hdcur)
  case entered =>
    -- of the two events at the end, the first is the entry of `c`, the second its call
    rw [hts]
    refine h.entered.dispatch hnew (fun d hd => h.eq_of_thread_eq hd hc) hdisp fun t => ?_
    by_cases ht : c.thread = t <;> simp [entriesOf, htrace, he.entered, Event.entered, ht]
  case called =>
    rw [hts]
    refine h.called.dispatch hnew (fun d hd => h.eq_of_thread_eq hd hc) hdisp fun t => ?_
    by_cases ht : c.thread = t <;>
      simp [callsOf, htrace, he.called, Event.called, ht, List.filterMap_cons]
  case resumed =>
    intro t ht
    simp [htrace, he.resumed, h.resumed] at ht
  case ids =>
    intro i d hd
    rw [hts] at hd
    rw [harr]
    exact (he.ids d.thread).trans (h.ids i d hd)
  case counter =>
    rw [harr, hts]
    exact he.counter.trans h.counter

end Entering

namespace InOrder

variable {im : Image} {al : Allocator H} {s s' : System H} {a a' : RoundRobin.State Word}
  {act : Action} {c d : Creation} {k : Kernel H}

/-- `thread_start_scheduler` is about to enter the first thread. -/
theorem entering_start (h : s.InOrder im a) (hcur : a.current = none) (hs : s.started = false)
    (hroom : s.HasRoom) (hnext : c.thread = a.next)
    (hk : threadStartScheduler im s.kernel = .ok k) :
    Entering s { s with kernel := k, started := true } a.current c
      (a.queue.head?.toList.map Event.pop ++
        [.switchIn c.thread (s.kernel.threads c.thread).stackPtr]) := by
  obtain ⟨first, k₁, hget, hload⟩ := threadStartScheduler_eq_ok.mp hk
  obtain ⟨rfl, rfl⟩ := Prod.mk.inj
    (Except.ok.inj (h.represents.kernel.dispatch.1.symm.trans hget))
  rw [threadLoadFirst_eq, ← hnext] at hload
  simp only [threadSetCurrent, taken_machine, taken_threads, taken_trace] at hload
  obtain ⟨-, hmem, heip, hesp⟩ := threadLoadFirstAsm_spec im.threadAsm
    (s.kernel.threads c.thread).stackPtr im.loadReturn s.kernel.machine
  subst hload
  refine ⟨rfl, rfl, ?eip, hesp, List.append_assoc _ _ _, ?switched, ?finished, ?entered, ?called,
    ?resumed, fun t => rfl, fun t _ => rfl, ?memory, taken_globalIdCounter⟩
  case eip => exact heip.trans (congrArg (load32 · _) hmem.symm)
  case switched => simp [Event.switchedTo]
  case finished => simp [Event.finishes, hcur]
  case entered => simp [Event.entered]
  case called => simp [Event.called]
  case resumed => simp
  case memory =>
    -- only the arguments of the call are written, below the stack pointer
    intro d hd _
    dsimp only
    rw [hmem]
    exact agree_callLoadFirst fun b hb hb' =>
      hroom d hd (fun hst => absurd (hs.symm.trans hst) (by decide)) b hb
        (below_mono (by decide) hb')

/-- **The scheduler is started.** -/
theorem start (h : s.InOrder im a) (hs : s.started = false) (hroom : s.HasRoom)
    (hexec : s.exec im al .start = .ok s') : ∃ a', s'.InOrder im a' := by
  obtain ⟨s₁, hexec₁, hrr, hrep, -, -⟩ := h.represents.exec_start al hs
  obtain rfl : s₁ = s' := Except.ok.inj (hexec₁.symm.trans hexec)
  have hcur : a.current = none := by
    cases hrr with
    | start hcur => exact hcur
  have hidle : a.current ≠ some a.idle := by
    rw [hcur]
    exact (Option.some_ne_none _).symm
  obtain ⟨c, hc, hnext, hnew⟩ := h.next_fresh hidle
  obtain ⟨k, hk, rfl⟩ := System.exec_start.mp hexec
  have he := h.entering_start hcur hs hroom hnext hk
  exact ⟨_, he.inOrder h hc hnew hnext hidle hrep hrr (Or.inl rfl)⟩

/-- The first thread, unless it is the idle one, may return from its function. -/
theorem enabled_exit (h : s.InOrder im a) (hs : s.started = false) (hroom : s.HasRoom)
    (hq : a.queue ≠ []) (hexec : s.exec im al .start = .ok s') : s'.Enabled .exit := by
  obtain ⟨s₁, hexec₁, -, hrep, -, -⟩ := h.represents.exec_start al hs
  obtain rfl : s₁ = s' := Except.ok.inj (hexec₁.symm.trans hexec)
  have hcur : a.current = none := by
    rw [← Option.not_isSome_iff_eq_none, ← h.represents.started, hs]
    exact Bool.false_ne_true
  obtain ⟨c, hc, hnext, hnew⟩ := h.next_fresh (by rw [hcur]; exact (Option.some_ne_none _).symm)
  have hcurrent : s₁.kernel.currentThread = c.thread := by
    rw [hnext]
    exact hrep.kernel.current _ rfl
  obtain ⟨k, hk, rfl⟩ := System.exec_start.mp hexec
  have he := h.entering_start hcur hs hroom hnext hk
  refine ⟨started_arrive im _, ?_, ?_⟩
  · rw [hcurrent, hnext, ← hrep.idle_eq]
    exact fun hidle => hq (h.represents.valid.next_eq_idle_iff.mp hidle)
  · rw [hcurrent, he.mainLocal_arrive h hc hnew]
    exact Option.some_ne_none _

/-- A thread that exits is about to give way to the next one. -/
theorem entering_exit (h : s.InOrder im a) (hs : s.started = true) (hroom : s.HasRoom)
    (hnew : c.thread ∉ dispatchedThreads s.kernel.trace) (hnext : c.thread = a.next)
    (hk : threadMainLeave im s.kernel.currentThread s.kernel = .ok k) :
    Entering s { s with kernel := k } a.current c
      ([.finish s.kernel.currentThread] ++ a.queue.head?.toList.map Event.pop ++
        [.switchOut s.kernel.currentThread (s.kernel.machine.gpr .esp - 28),
          .switchIn c.thread (s.kernel.threads c.thread).stackPtr]) := by
  have hrep := h.represents
  have hcur := hrep.current_eq hs
  have hne : s.kernel.currentThread ≠ c.thread := fun heq => h.current_ne hnew (heq ▸ hcur)
  obtain ⟨e, he, hethread⟩ := List.mem_map.mp (hrep.current_mem hcur)
  obtain ⟨next, k₁, hget, hswitch⟩ := threadReschedule_eq_ok.mp hk
  obtain ⟨rfl, rfl⟩ := Prod.mk.inj (Except.ok.inj
    ((hrep.kernel.finish (hrep.current_mem hcur)).dispatch.1.symm.trans hget))
  -- the thread is not ready, so that it is not queued again
  have hleave : requeued im s.kernel.currentThread c.thread
      (taken a.queue (Storm.finished s.kernel.currentThread s.kernel)) = threadSetCurrent c.thread
        (taken a.queue (Storm.finished s.kernel.currentThread s.kernel)) :=
    requeued_of_leave (Or.inr (by simp [Storm.finished]))
  replace hswitch : Storm.threadContextSwitch im s.kernel.currentThread c.thread
      (requeued im s.kernel.currentThread c.thread
        (taken a.queue (Storm.finished s.kernel.currentThread s.kernel))) = k := by
    rw [hnext]
    exact hswitch
  rw [hleave, threadContextSwitch_eq] at hswitch
  simp only [threadSetCurrent, taken_machine, taken_threads, taken_trace] at hswitch
  simp only [Storm.finished, Function.update_of_ne hne.symm] at hswitch
  obtain ⟨-, -, hmem, heip, hesp, -⟩ := threadContextSwitchAsm_spec im.threadAsm
    (s.kernel.currentThread + stackPtrOffset) (s.kernel.threads c.thread).stackPtr im.switchReturn
    s.kernel.machine
  subst hswitch
  refine ⟨rfl, rfl, ?eip, hesp, ?trace, ?switched, ?finished, ?entered, ?called, ?resumed, ?ids,
    ?stackPtr, ?memory, taken_globalIdCounter⟩
  case eip => exact heip.trans (congrArg (load32 · _) hmem.symm)
  case trace => simp
  case switched => simp [Event.switchedTo, List.filterMap_cons]
  case finished => simp [Event.finishes, hcur, List.filterMap_cons]
  case entered => simp [Event.entered, List.filterMap_cons]
  case called => simp [Event.called, List.filterMap_cons]
  case resumed => simp
  case ids =>
    intro t
    by_cases ht : t = s.kernel.currentThread
    · simp [ht]
    · simp [ht]
  case stackPtr =>
    intro t ht
    have htcur : t ≠ s.kernel.currentThread := fun heq => ht (heq ▸ hcur)
    simp [htcur]
  case memory =>
    -- the frame is saved on the stack of the thread that exits, and the slot is on no stack
    intro d hd hdcur
    dsimp only
    rw [hmem]
    refine agree_switchMem (hroom d hd fun _ heq => hdcur (heq ▸ hcur)) ?_
    rw [← hethread]
    exact h.slot_notMem he hd

/-- **A thread function returns.** -/
theorem exit (h : s.InOrder im a) (hen : s.Enabled .exit) (hroom : s.HasRoom)
    (hexec : s.exec im al .exit = .ok s') :
    (∃ a', s'.InOrder im a') ∧ s'.kernel.currentThread ≠ s.kernel.currentThread ∧
      s'.kernel.machine.eip = im.threadMain := by
  have hrep := h.represents
  obtain ⟨s₁, hexec₁, hrr, hrep', -, -⟩ := hrep.exec_exit al hen
  obtain rfl : s₁ = s' := Except.ok.inj (hexec₁.symm.trans hexec)
  have hcur := hrep.current_eq hen.1
  have hidle : a.current ≠ some a.idle := by
    rw [hcur, hrep.idle_eq]
    exact fun heq => hen.2.1 (Option.some.inj heq)
  obtain ⟨c, hc, hnext, hnew⟩ := h.next_fresh hidle
  obtain ⟨k, hk, rfl⟩ := System.exec_exit.mp hexec
  rw [hrep.mainLocal_current hen] at hk
  have he := h.entering_exit hen.1 hroom hnew hnext hk
  refine ⟨⟨_, he.inOrder h hc hnew hnext hidle hrep' hrr (Or.inr rfl)⟩, ?_⟩
  rw [he.arrive h hc hnew]
  refine ⟨fun heq => h.current_ne hnew ?_, he.eip.trans (he.frame h hc hnew).restore.1⟩
  rw [hcur]
  exact congrArg some (heq.symm.trans he.current)

/-- The dispatched threads were created. -/
theorem mem_of_dispatched (h : s.InOrder im a) {t : Word}
    (ht : t ∈ dispatchedThreads s.kernel.trace) : t ∈ s.threads.map Creation.thread := by
  rw [← h.represents.known]
  rw [h.dispatched, List.mem_append, List.mem_reverse, Option.mem_toList] at ht
  exact ht.elim (fun he => Or.inr (Or.inr (Or.inr he))) fun hc => Or.inr (Or.inr (Or.inl hc))

/-- A thread that has not been dispatched is suspended. -/
theorem suspended (h : s.InOrder im a) (hc : c.thread ∉ dispatchedThreads s.kernel.trace) :
    s.Suspended c := by
  intro hs heq
  rw [h.dispatched, h.represents.current_eq hs, heq] at hc
  simp at hc

/-- Memory that is not in use is no other thread's. -/
theorem unused_of_fresh {t stack : Word} (hf : s.Fresh im t stack) : s.Unused im t := by
  obtain ⟨-, hfresh⟩ := hf
  obtain ⟨hwithin, hapart⟩ := hfresh ⟨t.toNat, sizeofThread.toNat⟩ (by simp [threadExtents])
  refine ⟨fun hmem => ?_, fun heq => ?_⟩
  · obtain ⟨c, hc, rfl⟩ := List.mem_map.mp hmem
    have := hapart ⟨c.thread.toNat, sizeofThread.toNat⟩ (List.mem_cons_of_mem _
      (List.mem_flatMap_of_mem hc (by simp [Creation.extents, threadExtents])))
    simp [Extent.Apart, Extent.hi, sizeofThread] at this
  · have := hapart ⟨im.threadRunQueue.toNat, sizeofRunQueue.toNat⟩ List.mem_cons_self
    simp only [Extent.Apart, Extent.Within, Extent.hi, show sizeofThread.toNat = 28 from rfl,
      show sizeofRunQueue.toNat = 12 from rfl] at this hwithin
    rw [← heq, threadNode, nodeOffset] at this
    bv_omega

/-- The initial frame of a new thread is built apart from the stacks of the others. -/
theorem agree_of_fresh {t stack : Word} (hf : s.Fresh im t stack) (hd : d ∈ s.threads)
    (fn arg : Word) :
    Agree d.stackRange (threadSetupStack im stack threadDefaultStackSize fn arg
      s.kernel.machine.mem).1 s.kernel.machine.mem := by
  obtain ⟨hwithin, hapart⟩ := hf.2 ⟨stack.toNat, threadDefaultStackSize.toNat⟩
    (by simp [threadExtents])
  refine InitialFrame.agree_threadSetupStack hwithin.2 fun b hb hb' => ?_
  have hstack := hapart ⟨d.stack.toNat, threadDefaultStackSize.toNat⟩ (List.mem_cons_of_mem _
    (List.mem_flatMap_of_mem hd (by simp [Creation.extents, threadExtents])))
  simp only [Creation.stackRange, Extent.Apart, Extent.hi, mem_range,
    show threadDefaultStackSize.toNat = 4096 from rfl] at hstack hb hb'
  omega

/-- **The running code computes.** -/
theorem compute {m : Machine} (h : s.InOrder im a) (hd : s.Disciplined im al (.compute m))
    (hexec : s.exec im al (.compute m) = .ok s') : s'.InOrder im a := by
  obtain ⟨s₁, hexec₁, hrep, -, -⟩ := h.represents.exec_compute al m
  obtain rfl : s₁ = s' := Except.ok.inj (hexec₁.symm.trans hexec)
  obtain rfl := Except.ok.inj hexec
  exact ⟨hrep, h.layout, h.within, h.created, h.dispatched, h.finished, h.idle_last,
    fun c hc hc' => (h.frame c hc hc').congr (h.stack_le hc) (hd c hc (h.suspended hc')),
    h.entered, h.called, h.resumed, h.ids, h.counter⟩

/-- A call of `thread_create` fails. -/
theorem create_none {name fn arg : Word} {heap : H} (h : s.InOrder im a)
    (halloc : threadAllocate al s.kernel.heap = (none, heap))
    (hexec : s.exec im al (.create name fn arg) = .ok s') : s'.InOrder im a := by
  obtain ⟨s₁, hexec₁, hrep, -, -⟩ := h.represents.exec_create_none name fn arg
    halloc
  obtain rfl : s₁ = s' := Except.ok.inj (hexec₁.symm.trans hexec)
  obtain rfl := System.exec_create.mp hexec
  simp only [createdBy, halloc, threadCreate] at hrep ⊢
  exact ⟨hrep, h.layout, h.within, h.created, h.dispatched, h.finished, h.idle_last, h.frame,
    h.entered, h.called, h.resumed, h.ids, h.counter⟩

/-- **A thread is created.** -/
theorem create_some {name fn arg t stack : Word} {heap : H} (h : s.InOrder im a)
    (halloc : threadAllocate al s.kernel.heap = (some (t, stack), heap))
    (hfresh : s.Fresh im t stack)
    (hidle : s.started = true → s.kernel.currentThread ≠ s.idle.thread)
    (hexec : s.exec im al (.create name fn arg) = .ok s') : ∃ a', s'.InOrder im a' := by
  have hunused := unused_of_fresh hfresh
  obtain ⟨s₁, hexec₁, -, hrep, -, hts⟩ := h.represents.exec_create_some name fn arg
    halloc hunused
  obtain rfl : s₁ = s' := Except.ok.inj (hexec₁.symm.trans hexec)
  obtain rfl := System.exec_create.mp hexec
  simp only [createdBy, halloc, threadCreate] at hrep hts ⊢
  have hnew : t ∉ dispatchedThreads s.kernel.trace := fun ht => hunused.1 (h.mem_of_dispatched ht)
  have hne : ∀ d ∈ s.threads, d.thread ≠ t := fun d hd heq =>
    hunused.1 (heq ▸ List.mem_map_of_mem hd)
  have hdisp : dispatchedThreads (s.kernel.trace ++
      [.setup t (threadSetupStack im stack threadDefaultStackSize fn arg s.kernel.machine.mem).2] ++
      [.add t]) = dispatchedThreads s.kernel.trace := by
    simp [dispatchedThreads, Event.switchedTo, List.filterMap_cons]
  have hagree : ∀ d ∈ s.threads, Agree d.stackRange (threadSetupStack im stack
      threadDefaultStackSize fn arg s.kernel.machine.mem).1 s.kernel.machine.mem := fun d hd =>
    agree_of_fresh hfresh hd fn arg
  obtain ⟨hpair, hfresh⟩ := hfresh
  refine ⟨_, hrep, ?layout, ?within, ?created, ?dispatched, ?finished, ?idleLast, ?frame, ?entered,
    ?called, ?resumed, ?ids, ?counter⟩
  case layout =>
    rw [extents, hts, List.flatMap_append, ← List.cons_append, List.flatMap_singleton]
    exact List.pairwise_append.mpr ⟨h.layout, hpair, fun e he f hf => ((hfresh f hf).2 e he).symm⟩
  case within =>
    intro d hd e he
    rw [hts] at hd
    rcases List.mem_append.mp hd with hd | hd
    · exact h.within d hd e he
    · rw [List.mem_singleton.mp hd] at he
      exact (hfresh e he).1
  case created =>
    rw [List.map_append, h.created, List.append_assoc]
    rfl
  case dispatched => exact hdisp.trans h.dispatched
  case finished =>
    refine Eq.trans ?_ h.finished
    simp [finishedThreads, threadRunQueueAdd, threadStructInit, Event.finishes, List.filterMap_cons]
  case idleLast =>
    -- the idle thread creates nothing
    intro hcur
    have hs : s.started = true := by
      rw [h.represents.started, hcur]
      rfl
    refine absurd ?_ (hidle hs)
    rw [← h.represents.idle_eq]
    exact h.represents.kernel.current _ hcur
  case frame =>
    -- the others keep their frames; the new thread has the one that has just been built
    intro d hd hd'
    rw [hts] at hd
    rcases List.mem_append.mp hd with hd | hd
    · have hframe := (h.frame d hd fun hdis => hd' (hdisp ▸ hdis)).congr (h.stack_le hd)
        (hagree d hd)
      simpa [threadRunQueueAdd, threadStructInit, hne d hd] using hframe
    · rw [List.mem_singleton.mp hd]
      simpa [threadRunQueueAdd, threadStructInit] using
        InitialFrame.threadSetupStack t stack fn arg s.kernel.machine.mem
  case entered =>
    rw [hts]
    refine h.entered.create hnew hdisp fun u => ?_
    simp [entriesOf, threadRunQueueAdd, threadStructInit, Event.entered, List.filterMap_cons]
  case called =>
    rw [hts]
    refine h.called.create hnew hdisp fun u => ?_
    simp [callsOf, threadRunQueueAdd, threadStructInit, Event.called, List.filterMap_cons]
  case resumed =>
    intro u hu
    simp [threadRunQueueAdd, threadStructInit, h.resumed] at hu
  case ids =>
    -- the new thread gets the counter, which is the number of threads so far
    intro i d hd
    rw [hts] at hd
    rcases Nat.lt_or_ge i s.threads.length with hi | hi
    · rw [List.getElem?_append_left hi] at hd
      have hdne := hne d (List.mem_of_getElem? hd)
      simpa [threadRunQueueAdd, threadStructInit, hdne] using h.ids i d hd
    · rw [List.getElem?_append_right hi, List.getElem?_singleton] at hd
      split at hd
      · obtain rfl : i = s.threads.length := by omega
        obtain rfl := Option.some.inj hd
        simp [threadRunQueueAdd, threadStructInit, h.counter]
      · simp at hd
  case counter =>
    rw [hts, List.length_append, List.length_singleton, BitVec.ofNat_add, ← h.counter]
    rfl

/-- **After `thread_init`** only the idle thread exists. -/
theorem boot {heap heap' : H} {t stack : Word} {machine : Machine}
    (hb : FreshBoot im al heap t stack heap') :
    (System.boot im al heap machine).InOrder im ⟨t, [], none, []⟩ := by
  have hlayout := hb.pairwise
  have hwithin := hb.within
  have hnode : threadNode t ≠ im.threadRunQueue := by
    have hapart := (List.pairwise_cons.mp hlayout).1 ⟨t.toNat, sizeofThread.toNat⟩
      (by simp [threadExtents])
    have hin := hwithin ⟨t.toNat, sizeofThread.toNat⟩ (by simp [threadExtents])
    simp only [Extent.Apart, Extent.Within, Extent.hi, show sizeofThread.toNat = 28 from rfl,
      show sizeofRunQueue.toNat = 12 from rfl] at hapart hin
    intro heq
    rw [← heq, threadNode, nodeOffset] at hapart
    bv_omega
  obtain ⟨hrep, -, hts⟩ := Represents.boot machine hb.alloc_eq hnode
  have hkernel : (System.boot im al heap machine).kernel = threadRunQueueInit im
      { threadStructInit im t im.idleName stack threadDefaultStackSize im.idleThreadFn null
          { Kernel.initial heap machine with heap := heap' } with idleThread := t } := by
    simp [System.boot, threadInit, idleThreadCreate, Kernel.initial, hb.alloc_eq]
  have htrace : (System.boot im al heap machine).kernel.trace = [.setup t (threadSetupStack im stack
      threadDefaultStackSize im.idleThreadFn null machine.mem).2] := by
    rw [hkernel]
    rfl
  refine ⟨hrep, ?layout, ?within, rfl, ?dispatched, ?finished, fun h => by simp at h, ?frame,
    ?entered, ?called, ?resumed, ?ids, ?counter⟩
  case layout =>
    rw [extents, hts, List.flatMap_singleton]
    exact hlayout
  case within =>
    intro c hc e he
    rw [hts, List.mem_singleton] at hc
    rw [hc] at he
    exact hwithin e he
  case dispatched =>
    rw [htrace]
    rfl
  case finished =>
    rw [htrace]
    rfl
  case frame =>
    intro c hc _
    rw [hts, List.mem_singleton] at hc
    rw [hc, hkernel]
    simpa [threadRunQueueInit, threadStructInit, Kernel.initial] using
      InitialFrame.threadSetupStack t stack im.idleThreadFn null machine.mem
  case entered =>
    rw [htrace]
    exact ⟨fun c _ hc => by simp [dispatchedThreads, Event.switchedTo, List.filterMap_cons] at hc,
      fun u _ => rfl⟩
  case called =>
    rw [htrace]
    exact ⟨fun c _ hc => by simp [dispatchedThreads, Event.switchedTo, List.filterMap_cons] at hc,
      fun u _ => rfl⟩
  case resumed =>
    rw [htrace]
    simp
  case ids =>
    intro i c hc
    rw [hts, List.getElem?_singleton] at hc
    split at hc
    · obtain rfl := Option.some.inj hc
      rw [hkernel]
      simp [threadRunQueueInit, threadStructInit, Kernel.initial, *]
    · simp at hc
  case counter =>
    rw [hts, hkernel]
    rfl

/-- **Every disciplined step** keeps the order. -/
theorem step (h : s.InOrder im a) (hstep : DisciplinedStep im al s act s') :
    ∃ a', s'.InOrder im a' := by
  obtain ⟨⟨hen, hexec⟩, hd⟩ := hstep
  cases act with
  | create name fn arg =>
      obtain ⟨r, heap, halloc⟩ : ∃ r heap, threadAllocate al s.kernel.heap = (r, heap) :=
        ⟨_, _, rfl⟩
      cases r with
      | none => exact ⟨a, h.create_none halloc hexec⟩
      | some p => exact h.create_some halloc (hd.2 p.1 p.2 heap halloc) hd.1 hexec
  | start => exact h.start hen hd hexec
  | reschedule => exact hd.elim
  | exit => exact (h.exit hen hd hexec).1
  | compute m => exact ⟨a, h.compute hd hexec⟩

/-- **Every disciplined run** is in order. -/
theorem run {heap heap' : H} {t stack : Word} {machine : Machine} {acts : List Action}
    (hb : FreshBoot im al heap t stack heap')
    (hrun : Run (DisciplinedStep im al) (System.boot im al heap machine) acts s) :
    ∃ a, s.InOrder im a :=
  hrun.invariant (I := fun s => ∃ a, s.InOrder im a)
    (fun _ _ _ ⟨_, h⟩ hstep => h.step hstep) ⟨_, boot hb⟩

end InOrder

namespace InOrder

variable {im : Image} {al : Allocator H} {s : System H} {a : RoundRobin.State Word}

/-- The idle thread aside, the dispatched threads are the first ones of those created. -/
theorem filter_dispatched (h : s.InOrder im a) :
    (dispatchedThreads s.kernel.trace).filter (· ≠ s.idle.thread) =
      a.exited.reverse ++ a.current.toList.filter (· ≠ a.idle) := by
  rw [h.dispatched, ← h.represents.idle_eq, List.filter_append]
  congr 1
  refine List.filter_eq_self.mpr fun t ht => decide_eq_true fun heq => ?_
  exact h.represents.valid.idle_exited (heq ▸ List.mem_reverse.mp ht)

/-- No thread is dispatched twice. -/
theorem nodup_dispatched (h : s.InOrder im a) : (dispatchedThreads s.kernel.trace).Nodup := by
  have hcreated : (s.created.map Creation.thread).Nodup := h.represents.nodup.tail
  rw [h.created, List.append_assoc] at hcreated
  rw [h.dispatched, List.nodup_append]
  refine ⟨hcreated.of_append_left, ?_, ?_⟩
  · cases a.current <;> simp
  · rintro t ht u hu rfl
    exact h.represents.valid.current_exited t (Option.mem_toList.mp hu) (List.mem_reverse.mp ht)

/-- When the idle thread runs, all others have returned from their functions. -/
theorem finished_of_idle (h : s.InOrder im a)
    (hidle : s.idle.thread ∈ dispatchedThreads s.kernel.trace) :
    s.created.map Creation.thread = finishedThreads s.kernel.trace := by
  have hvalid := h.represents.valid
  rw [← h.represents.idle_eq, h.dispatched, List.mem_append, List.mem_reverse,
    Option.mem_toList] at hidle
  have hcur : a.current = some a.idle := hidle.resolve_left hvalid.idle_exited
  rw [h.created, h.finished, h.idle_last hcur, hcur]
  simp

/-- The ids of the threads are counted up from zero. -/
theorem map_id (h : s.InOrder im a) :
    s.threads.map (fun c => (s.kernel.threads c.thread).id) =
      (List.range s.threads.length).map (BitVec.ofNat 32) := by
  refine List.ext_getElem (by simp) fun i hi hi' => ?_
  rw [List.length_map] at hi
  rw [List.getElem_map, List.getElem_map, List.getElem_range]
  exact h.ids i _ (List.getElem?_eq_getElem hi)

/-- There are no more threads than addresses. -/
theorem length_threads_le (h : s.InOrder im a) : s.threads.length ≤ 2 ^ 32 := by
  have hle := (h.represents.nodup.map BitVec.toFin_injective).length_le_card
  rwa [List.length_map, List.length_map, Fintype.card_fin] at hle

/-- All ids are different. -/
theorem nodup_id (h : s.InOrder im a) :
    (s.threads.map fun c => (s.kernel.threads c.thread).id).Nodup := by
  have hle := h.length_threads_le
  rw [h.map_id]
  refine List.Nodup.map_on (fun i hi j hj hij => ?_) List.nodup_range
  have hi := List.mem_range.mp hi
  have hj := List.mem_range.mp hj
  have := congrArg BitVec.toNat hij
  rwa [BitVec.toNat_ofNat, BitVec.toNat_ofNat, Nat.mod_eq_of_lt (by omega),
    Nat.mod_eq_of_lt (by omega)] at this

end InOrder

/-- What is the case at every point of a run in which no thread is interrupted. -/
structure RunsInOrder (im : Image) (al : Allocator H) (s : System H) : Prop where
  /-- The threads dispatched so far are the first ones of those created. -/
  dispatched : (dispatchedThreads s.kernel.trace).filter (· ≠ s.idle.thread) <+:
    s.created.map Creation.thread
  /-- Ids count the threads in creation order, from the idle thread on. -/
  ids : ∀ (i : ℕ) (c : Creation), s.threads[i]? = some c →
    (s.kernel.threads c.thread).id = BitVec.ofNat 32 i
  /-- All ids are different. -/
  ids_nodup : (s.threads.map fun c => (s.kernel.threads c.thread).id).Nodup
  /-- A dispatched thread has entered `thread_main` once, with the function and the argument of its
  creation, and has called that function with that argument once. -/
  once : ∀ c ∈ s.threads, c.thread ∈ dispatchedThreads s.kernel.trace →
    entriesOf c.thread s.kernel.trace = [(c.fn, c.arg)] ∧
      callsOf c.thread s.kernel.trace = [(c.fn, c.arg)]
  /-- No thread is dispatched twice. -/
  nodup : (dispatchedThreads s.kernel.trace).Nodup
  /-- The idle thread runs only when every other thread has returned from its function. -/
  idle : s.idle.thread ∈ dispatchedThreads s.kernel.trace →
    ∀ c ∈ s.created, c.thread ∈ finishedThreads s.kernel.trace
  /-- No call of `thread_reschedule` has returned. -/
  never_resumed : ∀ t, .resume t ∉ s.kernel.trace
  /-- The one at the end of `thread_main` goes to the `thread_main` of another thread. -/
  leaves : ∀ s', DisciplinedStep im al s .exit s' →
    s'.kernel.currentThread ≠ s.kernel.currentThread ∧ s'.kernel.machine.eip = im.threadMain

/-- **Every created thread runs its own function exactly once, in creation order.** -/
theorem runs_in_order {im : Image} {al : Allocator H} {heap heap' : H} {t stack : Word}
    {machine : Machine} {acts : List Action} {s : System H}
    (hb : FreshBoot im al heap t stack heap')
    (hrun : Run (DisciplinedStep im al) (boot im al heap machine) acts s) :
    RunsInOrder im al s := by
  obtain ⟨a, h⟩ := InOrder.run hb hrun
  refine ⟨?_, h.ids, h.nodup_id, fun c hc hd => ⟨h.entered.dispatched c hc hd,
    h.called.dispatched c hc hd⟩, h.nodup_dispatched, fun hidle c hc => ?_, h.resumed,
    fun s' hs' => ?_⟩
  · rw [h.filter_dispatched, h.created]
    exact List.prefix_append _ _
  · rw [← h.finished_of_idle hidle]
    exact List.mem_map_of_mem hc
  · obtain ⟨⟨hen, hexec⟩, hroom⟩ := hs'
    exact (h.exit hen hroom hexec).2

/-! ## The kernel's own heap -/

section KernelHeap

variable {im : Image} {n i : ℕ} {s : System Heap} {a : RoundRobin.State Word}

/-- The memory of the thread at position `i` is in its part of the heap. -/
theorem threadExtents_at (hp : im.Placed) (hi : i ≤ 1010) :
    (threadExtents (threadAt im i) (stackAt im i)).Pairwise Extent.Apart ∧
      ∀ e ∈ threadExtents (threadAt im i) (stackAt im i),
        e.Within (heapStart im + 4148 * i) (heapStart im + 4148 * (i + 1)) := by
  obtain ⟨hlo, hhi, -⟩ := hp.heapStart_bounds
  have hle := hp.heap_le
  rw [toNat_heapSize] at hle
  have hblock := hp.toNat_blockAt (i := i) (by omega)
  have hroom : (blockAt im i).toNat + 52 < 2 ^ 32 := by omega
  have hthread : (threadAt im i).toNat = heapStart im + 4148 * i + 12 := by
    rw [threadAt_eq, ← hblock]
    bv_omega
  have hstack : (stackAt im i).toNat = heapStart im + 4148 * i + 52 := by
    rw [stackAt_eq, ← hblock]
    bv_omega
  rw [threadExtents, hthread, hstack, show sizeofThread.toNat = 28 from rfl,
    show threadDefaultStackSize.toNat = 4096 from rfl]
  refine ⟨by simp [Extent.Apart, Extent.hi], ?_⟩
  simp only [List.mem_cons, List.not_mem_nil, or_false, forall_eq_or_imp, forall_eq,
    Extent.Within, Extent.hi]
  omega

/-- The heap is apart from the run queue. -/
theorem apart_runQueue (hp : im.Placed) {e : Extent}
    (he : e.Within (heapStart im) (heapStart im + 4148 * 1011)) :
    e.Apart ⟨im.threadRunQueue.toNat, sizeofRunQueue.toNat⟩ := by
  obtain ⟨hlo, hhi, -⟩ := hp.heapStart_bounds
  have hq := hp.queue_apart
  simp only [Extent.Apart, Extent.Within, Extent.hi, toNat_heapSize,
    show sizeofRunQueue.toNat = 12 from rfl] at hq he ⊢
  omega

/-- The heap is in the address space. -/
theorem within_space (hp : im.Placed) {e : Extent}
    (he : e.Within (heapStart im) (heapStart im + 4148 * 1011)) : e.Within 0 (2 ^ 32) := by
  obtain ⟨hlo, hhi, -⟩ := hp.heapStart_bounds
  have hle := hp.heap_le
  rw [toNat_heapSize] at hle
  exact he.mono (Nat.zero_le _) (by omega)

/-- What is allocated up to position `i` is in the heap. -/
theorem within_heap {e : Extent} (hi : i ≤ 1010)
    (he : e.Within (heapStart im + 4148 * i) (heapStart im + 4148 * (i + 1))) :
    e.Within (heapStart im) (heapStart im + 4148 * 1011) := he.mono (by omega) (by omega)

/-- `thread_init` gets memory that is not in use. -/
theorem freshBoot_kernelHeap (hp : im.Placed) :
    ∃ heap, FreshBoot im kernelHeap (heapInit im.heap Heap.initial) (threadAt im 0) (stackAt im 0)
      heap := by
  obtain ⟨heap, halloc, -⟩ := HeapAfter.init hp
  obtain ⟨hpw, hin⟩ := threadExtents_at hp (Nat.zero_le 1010)
  refine ⟨heap, halloc, List.pairwise_cons.mpr ⟨fun e he => ?_, hpw⟩, fun e he => ?_⟩
  · exact (apart_runQueue hp (within_heap (Nat.zero_le _) (hin e he))).symm
  · exact within_space hp (within_heap (Nat.zero_le _) (hin e he))

/-- Every thread has the memory of its position. -/
theorem OnKernelHeap.exists_position (h : s.OnKernelHeap im n a) {c : Creation}
    (hc : c ∈ s.threads) : ∃ i < s.threads.length,
      c.extents = threadExtents (threadAt im i) (stackAt im i) := by
  have hmem := List.mem_map_of_mem (f := fun c : Creation => (c.thread, c.stack)) hc
  rw [h.threads] at hmem
  obtain ⟨i, hi, heq⟩ := List.mem_map.mp hmem
  obtain ⟨hthread, hstack⟩ := Prod.mk.inj heq
  exact ⟨i, List.mem_range.mp hi, by rw [Creation.extents, hthread, hstack]⟩

/-- **The kernel's own heap** does not hand out memory in use to the first 1011 threads. -/
theorem OnKernelHeap.fresh (hp : im.Placed) (h : s.OnKernelHeap im n a)
    (hle : s.threads.length ≤ 1010) :
    s.Fresh im (threadAt im s.threads.length) (stackAt im s.threads.length) := by
  obtain ⟨hpw, hin⟩ := threadExtents_at hp hle
  refine ⟨hpw, fun e he => ⟨within_space hp (within_heap hle (hin e he)), fun f hf => ?_⟩⟩
  rcases List.mem_cons.mp hf with rfl | hf
  · exact apart_runQueue hp (within_heap hle (hin e he))
  · obtain ⟨c, hc, hf⟩ := List.mem_flatMap.mp hf
    obtain ⟨i, hi, hext⟩ := h.exists_position hc
    rw [hext] at hf
    have hfin := ((threadExtents_at hp (by omega)).2 f hf).mono le_rfl
      (show _ ≤ heapStart im + 4148 * s.threads.length by omega)
    exact (Extent.apart_of_within hfin (hin e he)).symm

/-- Creating one of the first 1011 threads is disciplined when the idle thread does not do it. -/
theorem OnKernelHeap.disciplined_create (hp : im.Placed) (h : s.OnKernelHeap im n a)
    (hle : s.threads.length ≤ 1010)
    (hidle : s.started = true → s.kernel.currentThread ≠ s.idle.thread) (name fn arg : Word) :
    s.Disciplined im kernelHeap (.create name fn arg) := by
  refine ⟨hidle, fun thread stack heap halloc => ?_⟩
  obtain ⟨heap', halloc', -⟩ | ⟨heap', halloc', -⟩ := h.heap.threadAllocate hp
  · obtain ⟨heq, -⟩ := Prod.mk.inj (halloc.symm.trans halloc')
    obtain ⟨rfl, rfl⟩ := Prod.mk.inj (Option.some.inj heq)
    exact h.fresh hp hle
  · exact absurd (congrArg Prod.fst (halloc.symm.trans halloc')) (Option.some_ne_none _)

/-- `thread_create` leaves the stack pointer where it is. -/
theorem gpr_threadCreate {H : Type} (al : Allocator H) (threadp name fn arg : Word) (k : Kernel H) :
    (threadCreate im al threadp name fn arg k).kernel.machine.gpr = k.machine.gpr := by
  rw [threadCreate]
  split <;> rfl

/-- `thread_init` does, too. -/
theorem gpr_threadInit {H : Type} (al : Allocator H) (k : Kernel H) :
    (threadInit im al k).2.machine.gpr = k.machine.gpr := by
  rw [threadInit, idleThreadCreate]
  split <;> rfl

/-- Code on a stack in front of the heap has room there. -/
theorem OnKernelHeap.hasRoom (hp : im.Placed) (h : s.OnKernelHeap im n a)
    (hle : s.threads.length ≤ 1011) (hlo : 28 ≤ (s.kernel.machine.gpr .esp).toNat)
    (hhi : (s.kernel.machine.gpr .esp).toNat ≤ im.heap.toNat) : s.HasRoom := by
  intro c hc _ b hb hbelow
  obtain ⟨i, hi, hext⟩ := h.exists_position hc
  have hin := (threadExtents_at hp (i := i) (by omega)).2
    ⟨c.stack.toNat, threadDefaultStackSize.toNat⟩
    (by rw [← hext]; simp [Creation.extents, threadExtents])
  obtain ⟨hstart, -, -⟩ := hp.heapStart_bounds
  have hstack : im.heap.toNat ≤ c.stack.toNat := by
    have := hin.1
    dsimp only at this
    omega
  simp only [Creation.stackRange, mem_range, mem_below] at hb hbelow
  clear hin
  bv_omega

/-- **Threads created at boot** wait in the order of their creation. -/
theorem exists_created (hp : im.Placed) (machine : Machine) (name fn arg : Word) (hn : n ≤ 1010) :
    ∃ s, Run (DisciplinedStep im kernelHeap) (bootKernel im machine)
        (List.replicate n (.create name fn arg)) s ∧
      s.OnKernelHeap im n
        ⟨threadAt im 0, (List.range n).map fun i => threadAt im (i + 1), none, []⟩ ∧
      s.kernel.machine.gpr = machine.gpr := by
  induction n with
  | zero =>
      exact ⟨_, .nil _, OnKernelHeap.boot hp machine, gpr_threadInit _ _⟩
  | succ n ih =>
      obtain ⟨s, hrun, h, hgpr⟩ := ih (by omega)
      have hlen : s.threads.length = n + 1 := h.heap.live_eq (by omega)
      obtain ⟨s', hstep, h', -⟩ := h.exists_create hp (by omega) name fn arg
      have hdisc := h.disciplined_create hp (by omega)
        (fun hs => absurd (h.represents.started.symm.trans hs) Bool.false_ne_true) name fn arg
      refine ⟨s', ?_, ?_, ?_⟩
      · rw [List.replicate_succ']
        exact hrun.snoc ⟨hstep, hdisc⟩
      · rw [List.range_succ, List.map_append]
        exact h'
      · obtain rfl := exec_create.mp hstep.2
        exact (gpr_threadCreate _ _ _ _ _ _).trans hgpr

/-- **The first of them runs** after `thread_start_scheduler`, and may return from its function. -/
theorem exists_started (hp : im.Placed) (machine : Machine) (hlo : 28 ≤ (machine.gpr .esp).toNat)
    (hhi : (machine.gpr .esp).toNat ≤ im.heap.toNat) (name fn arg : Word) (hn : n < 1010) :
    ∃ s, Run (DisciplinedStep im kernelHeap) (bootKernel im machine)
        (List.replicate (n + 1) (.create name fn arg) ++ [.start]) s ∧
      s.OnKernelHeap im (n + 1) ⟨threadAt im 0, (List.range n).map fun i => threadAt im (i + 2),
        some (threadAt im 1), []⟩ ∧ s.Enabled .exit := by
  obtain ⟨heap, hfresh⟩ := freshBoot_kernelHeap hp
  obtain ⟨s, hrun, h, hgpr⟩ := exists_created hp machine name fn arg hn
  have hlen : s.threads.length = n + 2 := h.heap.live_eq hn
  have hroom : s.HasRoom := h.hasRoom hp (by omega) (by rwa [hgpr]) (by rwa [hgpr])
  obtain ⟨s', hexec, -, hrep, hh, hts⟩ := h.represents.exec_start kernelHeap h.represents.started
  refine ⟨s', hrun.snoc ⟨⟨h.represents.started, hexec⟩, hroom⟩, ?_, ?_⟩
  · refine h.of_threads_eq ?_ hh hts
    rw [RoundRobin.State.dispatch, RoundRobin.State.next] at hrep
    simpa [List.range_succ_eq_map, Function.comp_def] using hrep
  · obtain ⟨a, hin⟩ := InOrder.run hfresh hrun
    refine hin.enabled_exit h.represents.started hroom ?_ hexec
    rw [← hin.represents.kernel.queue.runQueue_eq, h.represents.kernel.queue.runQueue_eq]
    simp

end KernelHeap

theorem runs_in_order_linkedImage :
    ∃ s, Run (DisciplinedStep linkedImage kernelHeap) (bootKernel linkedImage bootMachine)
        [.create 1 2 3, .start] s ∧
      RunsInOrder linkedImage kernelHeap s := by
  obtain ⟨heap, hfresh⟩ := freshBoot_kernelHeap linkedImage_placed
  obtain ⟨s, hrun, -⟩ := exists_started linkedImage_placed (n := 0) bootMachine
    (by decide) (by decide) 1 2 3 (by decide)
  exact ⟨s, hrun, runs_in_order hfresh hrun⟩

end System

end Storm
