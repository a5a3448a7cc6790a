import Storm.Kernel.Lifecycle

/-! # Saved stack pointers

A thread must be resumed from the stack pointer that was stored last for it: at its last switch-out,
or by `thread_setup_stack` when it has not run yet. `lastSaved` reads that off the history, and
`NeverStale` says that every switch loaded it.

`thread_context_switch` reads `next->stack_ptr` before the assembly code stores the one of
`current`. That is harmless unless both are the same thread, which `thread_reschedule` can only
choose when the idle thread calls it while the run queue is empty. In all other runs no stale
pointer is loaded (`never_stale`). In that case the pointer loaded is the one before, which is
right only when it happens to be the same (`neverStale_iff`). -/

namespace Storm

open ByteMemory I386 Transition

variable {H : Type}

/-- The stack pointer that an event stores for the thread `t`. -/
def Event.saves (t : Word) : Event → Option Word
  | .setup u sp | .switchOut u sp => if u = t then some sp else none
  | .add _ | .pop _ | .switchIn .. | .enter .. | .call .. | .finish _ | .resume _ => none

/-- The stack pointer stored last for the thread `t`. -/
def lastSaved (trace : List Event) (t : Word) : Option Word :=
  trace.reverse.findSome? (Event.saves t)

/-- Every switch to a thread loaded the stack pointer stored last for it. -/
def NeverStale (trace : List Event) : Prop :=
  ∀ (before : List Event) (t sp : Word) (after : List Event),
    trace = before ++ .switchIn t sp :: after → lastSaved before t = some sp

@[simp] theorem lastSaved_append_singleton (trace : List Event) (e : Event) (t : Word) :
    lastSaved (trace ++ [e]) t = (e.saves t).or (lastSaved trace t) := by
  rw [lastSaved, List.reverse_append, List.reverse_singleton, List.singleton_append,
    List.findSome?_cons]
  cases e.saves t <;> rfl

/-- Nothing is stale before the first event. -/
theorem neverStale_nil : NeverStale [] := by
  intro before t sp after h
  simp at h

/-- One more event: if it switches to a thread, it must load what was stored last. -/
theorem neverStale_append_singleton {trace : List Event} {e : Event} :
    NeverStale (trace ++ [e]) ↔
      NeverStale trace ∧ ∀ t sp, e = .switchIn t sp → lastSaved trace t = some sp := by
  constructor
  · intro h
    refine ⟨fun before t sp after heq => h before t sp (after ++ [e]) (by simp [heq]), ?_⟩
    rintro t sp rfl
    exact h trace t sp [] rfl
  · rintro ⟨h, he⟩ before t sp after heq
    -- the switch is the new event, or one before it
    rcases List.eq_nil_or_concat after with rfl | ⟨after', e', rfl⟩
    · obtain ⟨rfl, hsw⟩ := List.append_inj' heq rfl
      exact he t sp (List.singleton_inj.mp hsw)
    · rw [List.concat_eq_append, ← List.cons_append, ← List.append_assoc] at heq
      exact h before t sp after' (List.append_inj' heq rfl).1

/-- Events that neither store nor load a stack pointer. -/
def Event.Unsaved (e : Event) : Prop := ∀ t, e.saves t = none ∧ ∀ sp, e ≠ .switchIn t sp

/-- Events that neither store nor load change nothing. -/
theorem append_unsaved {events : List Event} (trace : List Event) (he : ∀ e ∈ events, e.Unsaved) :
    (∀ t, lastSaved (trace ++ events) t = lastSaved trace t) ∧
      (NeverStale trace → NeverStale (trace ++ events)) := by
  -- on the new events, from the last one, as the lemmas above add one event at the end
  induction events using List.reverseRecOn with
  | nil => simp
  | append_singleton events e ih =>
      have hue := he e (by simp)
      obtain ⟨hsaved, hstale⟩ := ih fun e' he' => he e' (by simp [he'])
      rw [← List.append_assoc]
      refine ⟨fun t => ?_, fun h => neverStale_append_singleton.mpr ⟨hstale h, fun t sp hsw => ?_⟩⟩
      · rw [lastSaved_append_singleton, (hue t).1, Option.none_or, hsaved]
      · exact absurd hsw ((hue t).2 sp)

/-- What holds of the stack pointers of the threads `ts`: `stack_ptr` is the one stored last, and
none was ever stale. -/
structure Tracked (ts : List Word) (k : Kernel H) : Prop where
  saved : ∀ t ∈ ts, lastSaved k.trace t = some (k.threads t).stackPtr
  neverStale : NeverStale k.trace

namespace Tracked

variable {im : Image} {ts : List Word} {k k' : Kernel H} {t c n : Word}

/-- Further events that neither store nor load. -/
theorem append (h : Tracked ts k) (events : List Event) (he : ∀ e ∈ events, e.Unsaved)
    (htrace : k'.trace = k.trace ++ events)
    (hthreads : ∀ t ∈ ts, (k'.threads t).stackPtr = (k.threads t).stackPtr) : Tracked ts k' := by
  obtain ⟨hsaved, hstale⟩ := append_unsaved k.trace he
  refine ⟨fun t ht => ?_, ?_⟩
  · rw [htrace, hsaved, h.saved t ht, hthreads t ht]
  · rw [htrace]
    exact hstale h.neverStale

/-- `thread_load_first` loads the initial stack pointer of the thread. -/
theorem threadLoadFirst (h : Tracked ts k) (ht : t ∈ ts) : Tracked ts (threadLoadFirst im t k) := by
  rw [threadLoadFirst_eq]
  refine ⟨fun u hu => ?_, neverStale_append_singleton.mpr ⟨h.neverStale, ?_⟩⟩
  · exact (lastSaved_append_singleton _ _ _).trans (h.saved u hu)
  · rintro u sp ⟨⟩
    exact h.saved t ht

/-- `thread_context_switch` to another thread, or to the same one from where it was saved before. -/
theorem threadContextSwitch (h : Tracked ts k) (hn : n ∈ ts)
    (hnc : n = c → (k.threads n).stackPtr = k.machine.gpr .esp - 28) :
    Tracked ts (threadContextSwitch im c n k) := by
  have htrace : k.trace ++
        [.switchOut c (k.machine.gpr .esp - 28), .switchIn n (k.threads n).stackPtr] =
      k.trace ++ [.switchOut c (k.machine.gpr .esp - 28)] ++
        [.switchIn n (k.threads n).stackPtr] := by simp
  rw [threadContextSwitch_eq, htrace]
  refine ⟨fun u hu => ?_, ?_⟩
  · rw [lastSaved_append_singleton, lastSaved_append_singleton]
    by_cases huc : u = c
    · subst huc
      simp [Event.saves]
    · simpa [Event.saves, huc, Ne.symm huc] using h.saved u hu
  · rw [neverStale_append_singleton, neverStale_append_singleton]
    refine ⟨⟨h.neverStale, fun u sp hsw => by cases hsw⟩, ?_⟩
    rintro u sp ⟨⟩
    rw [lastSaved_append_singleton]
    by_cases hne : c = n
    · simp [Event.saves, hne, hnc hne.symm]
    · -- the value was read before the store, but that was for another thread
      simpa [Event.saves, hne] using h.saved n hn

/-- `thread_struct_init` stores the initial stack pointer of a new thread. -/
theorem threadStructInit {name stack size fn arg : Word} (h : Tracked ts k) (ht : t ∉ ts) :
    Tracked (ts ++ [t]) (threadStructInit im t name stack size fn arg k) := by
  refine ⟨fun u hu => ?_, ?_⟩
  · show lastSaved (k.trace ++ [_]) u = _
    rw [lastSaved_append_singleton]
    by_cases hut : u = t
    · subst hut
      simp [Event.saves, Storm.threadStructInit, threadSetupStack]
    · rw [List.mem_append, List.mem_singleton] at hu
      simpa [Event.saves, Storm.threadStructInit, hut, Ne.symm hut] using
        h.saved u (hu.resolve_right hut)
  · refine neverStale_append_singleton.mpr ⟨h.neverStale, fun u sp hsw => ?_⟩
    cases hsw

/-- `thread_get_next` neither stores nor loads. -/
theorem taken (h : Tracked ts k) {q : List Word} : Tracked ts (taken q k) := by
  cases q with
  | nil => exact h
  | cons t q =>
      exact h.append [.pop t] (by simp [Event.Unsaved, Event.saves])
        rfl fun _ _ => rfl

/-- `thread_run_queue_add` neither stores nor loads. -/
theorem threadRunQueueAdd (h : Tracked ts k) : Tracked ts (threadRunQueueAdd im c k) :=
  h.append [.add c] (by simp [Event.Unsaved, Event.saves]) rfl fun _ _ => rfl

/-- Queueing a thread again neither stores nor loads. -/
theorem requeued (h : Tracked ts k) : Tracked ts (requeued im c n k) := by
  have hset : Tracked ts (threadSetCurrent n k) := ⟨h.saved, h.neverStale⟩
  rw [Storm.requeued]
  split
  · exact hset.threadRunQueueAdd
  · exact hset

/-- Clearing `ready` neither stores nor loads. -/
theorem finished (h : Tracked ts k) : Tracked ts (finished c k) := by
  refine h.append [.finish c] (by simp [Event.Unsaved, Event.saves]) rfl fun t _ => ?_
  by_cases htc : t = c
  · subst htc
    simp [Storm.finished]
  · simp [Storm.finished, htc]

end Tracked

namespace System

variable {im : Image} {machine : Machine} {n : ℕ} {acts : List Action} {s s' : System Heap}
  {a : RoundRobin.State Word} {act : Action}

/-- An arrival neither stores nor loads. -/
theorem tracked_arrive {ts : List Word} (h : Tracked ts s.kernel) :
    Tracked ts (s.arrive im).kernel := by
  obtain ⟨events, mainLocal, heq, hevents, -⟩ := arrive_eq im s
  rw [heq]
  refine h.append events (fun e he => ?_) rfl fun _ _ => rfl
  rcases hevents e he with ⟨t, fn, arg, rfl⟩ | ⟨t, fn, arg, rfl⟩ | ⟨t, rfl⟩ <;>
    simp [Event.Unsaved, Event.saves]

/-- `thread_reschedule` is not called by the idle thread while the run queue is empty. -/
def NotIdlyRescheduled (s : System Heap) : Action → Prop
  | .reschedule => s.kernel.currentThread = s.kernel.idleThread →
      threadRunQueueEmpty s.kernel = false
  | .create .. | .start | .exit | .compute _ => True

/-- `thread_reschedule` is called by the idle thread while the run queue is empty, and not from the
stack position at which the idle thread was saved last. -/
def ReschedulesStale (s : System Heap) : Action → Prop
  | .reschedule => s.kernel.currentThread = s.kernel.idleThread ∧
      threadRunQueueEmpty s.kernel = true ∧
      (s.kernel.threads s.kernel.idleThread).stackPtr ≠ s.kernel.machine.gpr .esp - 28
  | .create .. | .start | .exit | .compute _ => False

/-- Not being called idly at all is more than needed. -/
theorem NotIdlyRescheduled.not_stale (hni : s.NotIdlyRescheduled act) :
    ¬ s.ReschedulesStale act := by
  cases act with
  | reschedule =>
      rintro ⟨hidle, hempty, -⟩
      rw [hni hidle] at hempty
      cases hempty
  | create | start | exit | compute => exact id

instance (s : System Heap) (act : Action) : Decidable (s.NotIdlyRescheduled act) := by
  cases act <;> simp only [NotIdlyRescheduled] <;> infer_instance

/-- Then the thread chosen is another one. -/
theorem Represents.next_ne_current (h : s.Represents im a) (hs : s.started = true)
    (hni : s.NotIdlyRescheduled .reschedule) : a.next ≠ s.kernel.currentThread := by
  have hcur := h.current_eq hs
  by_cases hidle : s.kernel.currentThread = a.idle
  · have hne : a.queue ≠ [] := by
      rw [ne_eq, ← h.kernel.queue.threadRunQueueEmpty_iff, Bool.not_eq_true]
      exact hni (hidle.trans h.kernel.idleThread.symm)
    rcases a.next_cases with ⟨hq, -⟩ | ⟨q, hq⟩
    · exact absurd hq hne
    · intro heq
      exact h.valid.current_queue _ hcur (by rw [hq, heq]; exact List.mem_cons_self)
  · exact h.valid.next_ne hcur hidle

/-- When the thread chosen is the calling one, its saved stack pointer is right unless it is
stale. -/
theorem Represents.stackPtr_next (h : s.Represents im a) (hs : s.started = true)
    (hstale : ¬ s.ReschedulesStale .reschedule) (hnext : a.next = s.kernel.currentThread) :
    (s.kernel.threads a.next).stackPtr = s.kernel.machine.gpr .esp - 28 := by
  by_contra hne
  have hni : ¬ s.NotIdlyRescheduled .reschedule := fun hni => h.next_ne_current hs hni hnext
  rw [NotIdlyRescheduled, Classical.not_imp, Bool.not_eq_false] at hni
  obtain ⟨hidle, hempty⟩ := hni
  rw [hnext, hidle] at hne
  exact hstale ⟨hidle, hempty, hne⟩

/-- A step that is not such a call keeps track of the stack pointers. -/
theorem OnKernelHeap.tracked (hp : im.Placed) (h : s.OnKernelHeap im n a)
    (ht : Tracked (s.threads.map Creation.thread) s.kernel) (hstep : Step im kernelHeap s act s')
    (hstale : ¬ s.ReschedulesStale act) :
    Tracked (s'.threads.map Creation.thread) s'.kernel := by
  have hrep := h.represents
  obtain ⟨hen, hexec⟩ := hstep
  cases act with
  | create name fn arg =>
      obtain rfl := exec_create.mp hexec
      obtain ⟨heap, halloc, hheap⟩ | ⟨heap, halloc, hheap⟩ := h.heap.threadAllocate hp
      · have hlt := hheap.live_le
        have hunused := h.unused hp (by omega)
        have hheap' : Tracked (s.threads.map Creation.thread) { s.kernel with heap } :=
          ⟨ht.saved, ht.neverStale⟩
        have hinit : Tracked _ (threadStructInit im (threadAt im s.threads.length) name
            (stackAt im s.threads.length) threadDefaultStackSize fn arg { s.kernel with heap }) :=
          hheap'.threadStructInit hunused.1
        have hadd : Tracked _ (threadRunQueueAdd im (threadAt im s.threads.length) _) :=
          hinit.threadRunQueueAdd
        simpa [System.threads, createdBy, halloc, threadCreate] using hadd
      · simp only [createdBy, halloc, threadCreate]
        exact ⟨ht.saved, ht.neverStale⟩
  | start =>
      obtain ⟨k, hk, rfl⟩ := exec_start.mp hexec
      obtain ⟨first, k₁, hget, rfl⟩ := threadStartScheduler_eq_ok.mp hk
      obtain ⟨rfl, rfl⟩ := Prod.mk.inj (Except.ok.inj (hrep.kernel.dispatch.1.symm.trans hget))
      rw [threads_arrive]
      refine tracked_arrive (Tracked.threadLoadFirst ?_ hrep.next_mem)
      exact ⟨ht.taken.saved, ht.taken.neverStale⟩
  | reschedule =>
      obtain ⟨k, hk, rfl⟩ := exec_reschedule.mp hexec
      obtain ⟨next, k₁, hget, rfl⟩ := threadReschedule_eq_ok.mp hk
      obtain ⟨rfl, rfl⟩ := Prod.mk.inj (Except.ok.inj (hrep.kernel.dispatch.1.symm.trans hget))
      rw [threads_arrive]
      -- only when the thread chosen is the caller, its pointer is stored in between
      refine tracked_arrive (ht.taken.requeued.threadContextSwitch hrep.next_mem fun hnext => ?_)
      rw [requeued_threads, requeued_machine, taken_threads, taken_machine]
      exact hrep.stackPtr_next hen hstale hnext
  | exit =>
      obtain ⟨k, hk, rfl⟩ := exec_exit.mp hexec
      rw [hrep.mainLocal_current hen] at hk
      obtain ⟨next, k₁, hget, rfl⟩ := threadReschedule_eq_ok.mp hk
      have hcur := hrep.current_eq hen.1
      have hd := (hrep.kernel.finish (hrep.current_mem hcur)).dispatch.1
      obtain ⟨rfl, rfl⟩ := Prod.mk.inj (Except.ok.inj (hd.symm.trans hget))
      rw [threads_arrive]
      -- the thread that exits is never the next one
      have hne : a.next ≠ s.kernel.currentThread := by
        refine hrep.valid.next_ne hcur ?_
        rw [hrep.idle_eq]
        exact hen.2.1
      exact tracked_arrive (ht.finished.taken.requeued.threadContextSwitch hrep.next_mem
        fun hnext => absurd hnext hne)
  | compute m =>
      obtain rfl := Except.ok.inj hexec
      exact ⟨ht.saved, ht.neverStale⟩

/-- `thread_init` stores the initial stack pointer of the idle thread. -/
theorem tracked_bootKernel (hp : im.Placed) :
    Tracked ((bootKernel im machine).threads.map Creation.thread) (bootKernel im machine).kernel := by
  obtain ⟨heap, halloc, -⟩ := HeapAfter.init hp
  have hnil : Tracked [] { Kernel.initial (heapInit im.heap Heap.initial) machine with heap } :=
    ⟨by simp, neverStale_nil⟩
  have hinit : Tracked _ (threadStructInit im (threadAt im 0) im.idleName (stackAt im 0)
      threadDefaultStackSize im.idleThreadFn null _) := hnil.threadStructInit List.not_mem_nil
  simp only [System.threads, bootKernel, System.boot, threadInit, idleThreadCreate, Kernel.initial,
    halloc, List.map_cons, List.map_nil] at hinit ⊢
  exact ⟨hinit.saved, hinit.neverStale⟩

/-- When `thread_reschedule` chooses the thread that is already running, it returns to its caller:
behind the call, with the arguments still on the stack and the caller's registers. -/
def ReturnsInContext (im : Image) (s s' : System Heap) : Prop :=
  s'.kernel.currentThread = s.kernel.currentThread →
    s'.kernel.machine.eip = im.switchReturn ∧
      s'.kernel.machine.gpr .esp = s.kernel.machine.gpr .esp - 8 ∧
      ∀ r ∈ [Reg.ebp, .ebx, .edi, .esi], s'.kernel.machine.gpr r = s.kernel.machine.gpr r

/-- A step that is not a call of `thread_reschedule` by the idle thread on an empty run queue. -/
def CarefulStep (im : Image) (s : System Heap) (act : Action) (s' : System Heap) : Prop :=
  Step im kernelHeap s act s' ∧ s.NotIdlyRescheduled act

/-- Runs of such steps keep track of the stack pointers. -/
theorem tracked_of_run (hp : im.Placed)
    (hrun : Run (CarefulStep im) (bootKernel im machine) acts s) :
    (∃ n a, s.OnKernelHeap im n a) ∧ Tracked (s.threads.map Creation.thread) s.kernel := by
  refine hrun.invariant (I := fun s => (∃ n a, s.OnKernelHeap im n a) ∧
    Tracked (s.threads.map Creation.thread) s.kernel) ?_
    ⟨⟨0, _, OnKernelHeap.boot hp machine⟩, tracked_bootKernel hp⟩
  rintro s act s' ⟨⟨n, a, h⟩, ht⟩ ⟨hstep, hni⟩
  obtain ⟨bs, a', -, h', -⟩ := h.step hp hstep
  exact ⟨⟨_, a', h'⟩, h.tracked hp ht hstep hni.not_stale⟩

/-- **No stale stack pointer is loaded** in a run in which the idle thread never calls
`thread_reschedule` on an empty run queue. In such a run a call never chooses the thread that is
already running, so that there is nothing to show of a call that does. -/
theorem never_stale (hp : im.Placed)
    (hrun : Run (CarefulStep im) (bootKernel im machine) acts s) :
    NeverStale s.kernel.trace ∧ ∀ s', CarefulStep im s .reschedule s' → ReturnsInContext im s s' := by
  obtain ⟨⟨n, a, h⟩, ht⟩ := tracked_of_run hp hrun
  refine ⟨ht.neverStale, fun s' ⟨hstep, hni⟩ heq => ?_⟩
  -- the thread chosen is never the one already running
  have hrep := h.represents
  obtain ⟨s₁, hexec, -, hrep₁, -⟩ := hrep.exec_reschedule kernelHeap hstep.1
  obtain rfl : s₁ = s' := Except.ok.inj (hexec.symm.trans hstep.2)
  rw [hrep₁.kernel.current a.next rfl] at heq
  exact absurd heq (hrep.next_ne_current hstep.1 hni)

/-- While threads wait, `thread_reschedule` is not called idly. -/
theorem OnKernelHeap.notIdlyRescheduled (h : s.OnKernelHeap im n a) (hq : a.queue ≠ []) :
    s.NotIdlyRescheduled .reschedule := by
  intro _
  rw [Bool.eq_false_iff, ne_eq, h.represents.kernel.queue.threadRunQueueEmpty_iff]
  exact hq

/-- The first thread is switched out and resumed. -/
theorem never_stale_linkedImage :
    ∃ s s', Run (CarefulStep linkedImage) (bootKernel linkedImage bootMachine)
        (List.replicate 2 (.create 1 2 3) ++ [.start]) s ∧
      s.kernel.currentThread = threadAt linkedImage 1 ∧
      Observed (CarefulStep linkedImage) dispatched s [.reschedule, .reschedule]
        [threadAt linkedImage 2, threadAt linkedImage 1] s' ∧
      NeverStale s'.kernel.trace ∧
      ∀ s'', CarefulStep linkedImage s' .reschedule s'' → ReturnsInContext linkedImage s' s'' := by
  obtain ⟨s, hrun, h, -⟩ := exists_started linkedImage_placed (n := 1) bootMachine
    (by decide) (by decide) 1 2 3 (by decide)
  have hcareful : Run (CarefulStep linkedImage) (bootKernel linkedImage bootMachine)
      (List.replicate 2 (.create 1 2 3) ++ [.start]) s := by
    refine hrun.mono fun s act s' ⟨hstep, hdisc⟩ => ⟨hstep, ?_⟩
    cases act with
    | reschedule => exact hdisc.elim
    | create | start | exit | compute => trivial
  obtain ⟨s₁, hstep₁, hcur₁, h₁⟩ := h.exists_reschedule rfl
  obtain ⟨s₂, hstep₂, hcur₂, -⟩ := h₁.exists_reschedule rfl
  have hni := h.notIdlyRescheduled (List.cons_ne_nil _ _)
  have hni₁ := h₁.notIdlyRescheduled (List.cons_ne_nil _ _)
  have hobs : Observed (CarefulStep linkedImage) dispatched s [.reschedule, .reschedule]
      [s₁.kernel.currentThread, s₂.kernel.currentThread] s₂ :=
    .cons ⟨hstep₁, hni⟩ (.cons ⟨hstep₂, hni₁⟩ (.nil s₂))
  have hall := hcareful.append hobs.run
  rw [hcur₁, hcur₂] at hobs
  exact ⟨s, s₂, hcareful, h.represents.kernel.current _ rfl, hobs,
    never_stale linkedImage_placed hall⟩

/-- **A stale stack pointer is loaded** when the idle thread calls `thread_reschedule` on an empty
run queue, unless it happens to be at the stack position that is stored for it. -/
theorem stale_after_idle_reschedule (h : s.OnKernelHeap im n a)
    (hidle : s.kernel.currentThread = s.kernel.idleThread)
    (hempty : threadRunQueueEmpty s.kernel = true)
    (hsp : (s.kernel.threads s.kernel.idleThread).stackPtr ≠ s.kernel.machine.gpr .esp - 28)
    (hstep : Step im kernelHeap s .reschedule s') : ¬ NeverStale s'.kernel.trace := by
  have hrep := h.represents
  have hqueue := hrep.kernel.queue.threadRunQueueEmpty_iff.mp hempty
  obtain ⟨k, hk, rfl⟩ := exec_reschedule.mp hstep.2
  have htrace : k.trace = s.kernel.trace ++
      [.switchOut s.kernel.idleThread (s.kernel.machine.gpr .esp - 28),
        .switchIn s.kernel.idleThread (s.kernel.threads s.kernel.idleThread).stackPtr] := by
    obtain ⟨next, k₁, hget, rfl⟩ := threadReschedule_eq_ok.mp hk
    obtain ⟨rfl, rfl⟩ := Prod.mk.inj (Except.ok.inj (hrep.kernel.dispatch.1.symm.trans hget))
    rw [RoundRobin.State.next, hqueue, List.headD_nil, ← hrep.kernel.idleThread, hidle, taken,
      requeued_of_leave (Or.inl rfl), threadContextSwitch_eq]
    rfl
  obtain ⟨events, mainLocal, harr, -⟩ := arrive_eq im { s with kernel := k }
  rw [harr]
  show ¬ NeverStale (k.trace ++ events)
  intro hstale
  have hlast := hstale (s.kernel.trace ++
    [.switchOut s.kernel.idleThread (s.kernel.machine.gpr .esp - 28)]) s.kernel.idleThread
    (s.kernel.threads s.kernel.idleThread).stackPtr events (by simp [htrace])
  rw [lastSaved_append_singleton] at hlast
  simp only [Event.saves, if_true, Option.some_or, Option.some.injEq] at hlast
  exact hsp hlast.symm

/-- **Exactly when no stale stack pointer is loaded**: in no state of a run is one, if and only if
the idle thread never calls `thread_reschedule` on an empty run queue from another stack position
than the one at which it was saved last. -/
theorem neverStale_iff (hp : im.Placed) (machine : Machine) (acts : List Action) :
    EveryState (Step im kernelHeap) (fun s => NeverStale s.kernel.trace) (bootKernel im machine)
        acts ↔
      EveryStep (Step im kernelHeap) (fun s act _ => ¬ s.ReschedulesStale act)
        (bootKernel im machine) acts := by
  refine everyState_iff_everyStep (I := fun s => (∃ n a, s.OnKernelHeap im n a) ∧
    Tracked (s.threads.map Creation.thread) s.kernel) (fun s h => h.2.neverStale) ?_ ?_
    ⟨⟨0, _, OnKernelHeap.boot hp machine⟩, tracked_bootKernel hp⟩
  · rintro s act s' ⟨⟨n, a, h⟩, ht⟩ hstep hstale
    obtain ⟨bs, a', -, h', -⟩ := h.step hp hstep
    exact ⟨⟨_, a', h'⟩, h.tracked hp ht hstep hstale⟩
  · rintro s act s' ⟨⟨n, a, h⟩, -⟩ hstep hstale
    cases act with
    | reschedule =>
        obtain ⟨hidle, hempty, hsp⟩ := not_not.mp hstale
        exact stale_after_idle_reschedule h hidle hempty hsp hstep
    | create | start | exit | compute => exact absurd id hstale

/-- **The failing run**: without threads the idle thread is dispatched first, and calls
`thread_reschedule`. -/
theorem stale_idle_linkedImage :
    ∃ s, Reachable linkedImage bootMachine [.start, .reschedule] s ∧ ¬ NeverStale s.kernel.trace := by
  have hp := linkedImage_placed
  have hboot := OnKernelHeap.boot hp bootMachine
  obtain ⟨s₁, hstep₁, hrun₁, hs₁⟩ := (Reachable.nil linkedImage bootMachine).start hp rfl
  obtain ⟨s₂, hstep₂, hrun₂⟩ := hrun₁.snoc hp .reschedule hs₁
  obtain ⟨s, hexec, -, hrep, hh, hts⟩ := hboot.represents.exec_start kernelHeap rfl
  obtain rfl : s = s₁ := Except.ok.inj (hexec.symm.trans hstep₁.2)
  have h₁ := hboot.of_threads_eq hrep hh hts
  refine ⟨s₂, hrun₂, stale_after_idle_reschedule h₁ ?_ ?_ ?_ hstep₂⟩
  · rw [hrep.kernel.current _ rfl, hrep.kernel.idleThread]
    rfl
  · exact hrep.kernel.queue.threadRunQueueEmpty_iff.mpr rfl
  · -- `thread_load_first_asm` has popped 20 bytes: the pointer stored next is 8 bytes lower
    obtain ⟨k, hk, rfl⟩ := exec_start.mp hexec
    have hk' : (k.threads k.idleThread).stackPtr ≠ k.machine.gpr .esp - 28 := by
      obtain ⟨first, k₁, hget, rfl⟩ := threadStartScheduler_eq_ok.mp hk
      obtain ⟨rfl, rfl⟩ :=
        Prod.mk.inj (Except.ok.inj (hboot.represents.kernel.dispatch.1.symm.trans hget))
      rw [threadLoadFirst_esp]
      show (_ : Word) ≠ ((bootKernel linkedImage bootMachine).kernel.threads
        (threadAt linkedImage 0)).stackPtr + 20 - 28
      rw [← show (bootKernel linkedImage bootMachine).kernel.idleThread = threadAt linkedImage 0
        from hboot.represents.kernel.idleThread]
      show ((bootKernel linkedImage bootMachine).kernel.threads
        (bootKernel linkedImage bootMachine).kernel.idleThread).stackPtr ≠ _
      generalize ((bootKernel linkedImage bootMachine).kernel.threads
        (bootKernel linkedImage bootMachine).kernel.idleThread).stackPtr = sp
      bv_omega
    obtain ⟨events, mainLocal, harr, -⟩ := arrive_eq linkedImage
      { bootKernel linkedImage bootMachine with kernel := k, started := true }
    rw [harr]
    exact hk'

end System

end Storm
