import Storm.Kernel.Lifecycle

/-! # The scheduler: main results

What the scheduler guarantees in every run of the kernel, whatever threads are created, yield and
exit, and whatever the running code does to registers and stacks between these operations:

* `run_queue_fifo` — the run queue is a well-formed circular list that implements a FIFO queue:
  the queue to which creations and yields add and from which dispatches remove; no operation panics;
* `thread_accounted` — each thread is running, queued once, or has exited for good;
* `bounded_waiting` — queued threads are dispatched next, in the order of the queue. -/

namespace Storm

open ByteMemory I386 Transition

namespace System

variable {im : Image} {machine : Machine} {acts : List Action} {s : System Heap}

/-- The next links of the list nodes. -/
def nextLink (k : Kernel Heap) (n : Word) : Word := (k.lists n).next

/-- The previous links of the list nodes. -/
def prevLink (k : Kernel Heap) (n : Word) : Word := (k.lists n).prev

/-- The pointer structure, the counter and the history agree on the queue `q`. -/
structure IsFifo (im : Image) (k : Kernel Heap) (q : List Word) : Prop where
  /-- `q` is what additions at the tail and removals of the head have left. -/
  history : fifoReplay k.trace = some q
  /-- From the header, `next` goes through the nodes of `q` in order and back to the header. -/
  next : List.iterate (nextLink k) (nextLink k im.threadRunQueue) (q.length + 1) =
    q.map threadNode ++ [im.threadRunQueue]
  /-- From the header, `prev` goes through the same nodes in reverse. -/
  prev : List.iterate (prevLink k) (prevLink k im.threadRunQueue) (q.length + 1) =
    (q.map threadNode).reverse ++ [im.threadRunQueue]
  /-- No node occurs twice. -/
  nodup : (im.threadRunQueue :: q.map threadNode).Nodup
  /-- `no_threads` is the number of nodes. -/
  count : k.noThreads.toNat = q.length

/-- A step of the kernel, next to an abstract queue on which its operations work. -/
structure FifoStep (im : Image) (x : System Heap × List Word) (act : Action)
    (y : System Heap × List Word) : Prop where
  step : Step im kernelHeap x.1 act y.1
  /-- Additions go to the end of the queue, removals take its head. -/
  queue : y.2 = queueAfter act x.1 y.1 x.2
  /-- The thread dispatched is the head removed, or the idle thread when the queue is empty. -/
  head : ∀ t ∈ dispatched act y.1, t = x.2.headD x.1.idle.thread

section Fifo

variable {n : ℕ} {s' : System Heap} {a : RoundRobin.State Word} {act : Action}

/-- The pointer structure is that of the dispatcher's queue. -/
theorem OnKernelHeap.isFifo (h : s.OnKernelHeap im n a) : IsFifo im s.kernel a.queue := by
  have hqueue := h.represents.kernel.queue
  have hnext := hqueue.ring.iterate_next
  have hprev := hqueue.ring.iterate_prev
  rw [List.length_map] at hnext hprev
  exact ⟨hqueue.fifo, hnext, hprev, hqueue.ring.nodup, hqueue.toNat_noThreads⟩

/-- A step works on the dispatcher's queue. -/
theorem OnKernelHeap.fifoStep (hp : im.Placed) (h : s.OnKernelHeap im n a)
    (hstep : Step im kernelHeap s act s') :
    ∃ m a', FifoStep im (s, a.queue) act (s', a'.queue) ∧ s'.OnKernelHeap im m a' := by
  obtain ⟨bs, a', -, h', hqueue, hhead⟩ := h.step hp hstep
  refine ⟨_, a', ⟨hstep, hqueue, fun t ht => ?_⟩, h'⟩
  rw [hhead t ht, RoundRobin.State.next, h.represents.idle_eq]

/-- A run works on the dispatcher's queue, which is empty at the beginning. -/
theorem Reachable.fifo (hp : im.Placed) (hrun : Reachable im machine acts s) :
    ∃ n a, Run (FifoStep im) (bootKernel im machine, []) acts (s, a.queue) ∧
      s.OnKernelHeap im n a := by
  have hsim : ∃ x, Run (FifoStep im) (bootKernel im machine, []) acts x ∧
      x.1 = s ∧ ∃ n a, s.OnKernelHeap im n a ∧ a.queue = x.2 := by
    refine hrun.simulate (R := fun _ s (x : System Heap × List Word) =>
      x.1 = s ∧ ∃ n a, s.OnKernelHeap im n a ∧ a.queue = x.2) [] ?_
      ⟨rfl, 0, _, OnKernelHeap.boot hp machine, rfl⟩
    rintro done s act s' ⟨_, _⟩ ⟨rfl, n, a, h, rfl⟩ hstep
    obtain ⟨m, a', hfifo, h'⟩ := h.fifoStep hp hstep
    exact ⟨(s', a'.queue), hfifo, rfl, m, a', h', rfl⟩
  obtain ⟨⟨_, _⟩, hfifo, rfl, n, a, h, rfl⟩ := hsim
  exact ⟨n, a, hfifo, h⟩

end Fifo

/-- A run that creates four threads, of which the first one runs then. -/
abbrev startedActs : List Action := List.replicate 4 (.create 1 2 3) ++ [.start]

/-- After that run the first thread exits, and the second one yields to the third. -/
theorem exists_reachable_switches :
    ∃ s s₁ s₂, Reachable linkedImage bootMachine startedActs s ∧
      s.OnKernelHeap linkedImage 4 ⟨threadAt linkedImage 0, [threadAt linkedImage 2,
        threadAt linkedImage 3, threadAt linkedImage 4], some (threadAt linkedImage 1), []⟩ ∧
      Step linkedImage kernelHeap s .exit s₁ ∧
      s₁.OnKernelHeap linkedImage 4 ⟨threadAt linkedImage 0, [threadAt linkedImage 3,
        threadAt linkedImage 4], some (threadAt linkedImage 2), [threadAt linkedImage 1]⟩ ∧
      Step linkedImage kernelHeap s₁ .reschedule s₂ ∧
      s₂.OnKernelHeap linkedImage 4 ⟨threadAt linkedImage 0, [threadAt linkedImage 4,
        threadAt linkedImage 2], some (threadAt linkedImage 3), [threadAt linkedImage 1]⟩ := by
  obtain ⟨s, hrun, h, hen⟩ := exists_started linkedImage_placed (n := 3) bootMachine
    (by decide) (by decide) 1 2 3 (by decide)
  obtain ⟨s₁, hstep₁, -, h₁⟩ := h.exists_exit rfl hen
  obtain ⟨s₂, hstep₂, -, h₂⟩ := h₁.exists_reschedule rfl
  exact ⟨s, s₁, s₂, hrun.mono fun _ _ _ hstep => hstep.1, h, hstep₁, h₁, hstep₂, h₂⟩

/-- The thread has exited: it is not ready, does not run and is not queued. -/
def HasExited (im : Image) (k : Kernel Heap) (t : Word) : Prop :=
  (k.threads t).ready = false ∧ k.currentThread ≠ t ∧ t ∉ runQueue im k

/-- A thread that the dispatcher has on its list of exits has exited. -/
theorem Represents.hasExited {a : RoundRobin.State Word} {t : Word} (h : s.Represents im a)
    (hs : s.started = true) (ht : t ∈ a.exited) : HasExited im s.kernel t := by
  have hmem := (h.known t).mp (Or.inr (Or.inr (Or.inr ht)))
  refine ⟨?_, ?_, ?_⟩
  · rw [← Bool.not_eq_true, h.kernel.ready t hmem]
    exact not_not_intro ht
  · rintro rfl
    exact h.valid.current_exited _ (h.current_eq hs) ht
  · rw [h.kernel.queue.runQueue_eq]
    exact h.valid.exited_queue t ht

/-- An exit is final: the dispatcher that answers a continuation of the run never takes it back. -/
theorem OnKernelHeap.hasExited_run {n : ℕ} {a : RoundRobin.State Word} {t : Word}
    {s' : System Heap} {acts' : List Action} (hp : im.Placed) (h : s.OnKernelHeap im n a)
    (hs : s.started = true) (ht : t ∈ a.exited) (hrun : Run (Step im kernelHeap) s acts' s') :
    HasExited im s'.kernel t := by
  obtain ⟨ds, hds⟩ := Run.observed dispatched hrun
  obtain ⟨bs, a', hbs, h'⟩ := h.run hp hds
  have hsome : a'.current.isSome :=
    RoundRobin.Run.current_isSome hbs.run (by rw [h.represents.current_eq hs]; rfl)
  exact h'.represents.hasExited (h'.represents.started.trans hsome)
    (RoundRobin.Run.exited_subset hbs.run ht)

/-- Where a thread is; the three places exclude each other. -/
inductive Place (im : Image) (s : System Heap) (t : Word) : Prop
  /-- It is `current_thread`, ready and not queued. -/
  | running (hcur : s.kernel.currentThread = t) (hready : (s.kernel.threads t).ready = true)
      (hqueue : t ∉ runQueue im s.kernel)
  /-- It is in the run queue exactly once, ready and not current. -/
  | queued (hqueue : (runQueue im s.kernel).count t = 1)
      (hready : (s.kernel.threads t).ready = true) (hcur : s.kernel.currentThread ≠ t)
  /-- It has exited, and this stays so in every continuation of the run. -/
  | exited (hexit : HasExited im s.kernel t)
      (hever : ∀ acts' s', Run (Step im kernelHeap) s acts' s' → HasExited im s'.kernel t)

/-- **No thread is lost, duplicated or revived.** Once the scheduler has started, each thread
created so far is the running thread, or is queued once, or has exited for good. The idle thread is
not in the run queue. -/
theorem thread_accounted (hp : im.Placed) (hrun : Reachable im machine acts s)
    (hs : s.started = true) :
    (∀ c ∈ s.created, Place im s c.thread) ∧ s.idle.thread ∉ runQueue im s.kernel := by
  obtain ⟨a, h⟩ := hrun.onKernelHeap hp
  have hrep := h.represents
  have hqueue := hrep.kernel.queue.runQueue_eq
  have hcur := hrep.current_eq hs
  refine ⟨fun c hc => ?_, ?_⟩
  · have hmem : c.thread ∈ s.threads.map Creation.thread :=
      List.mem_map_of_mem (List.mem_cons_of_mem _ hc)
    have hidle : c.thread ≠ a.idle := by
      have hnd := hrep.nodup
      rw [threads, List.map_cons, List.nodup_cons] at hnd
      rw [hrep.idle_eq]
      rintro heq
      exact hnd.1 (heq ▸ List.mem_map_of_mem hc)
    have hready := hrep.kernel.ready c.thread hmem
    rcases (hrep.known c.thread).mpr hmem with hi | hq | hr | he
    · exact absurd hi hidle
    · refine .queued ?_ (hready.mpr fun he => hrep.valid.exited_queue _ he hq) ?_
      · rw [hqueue]
        exact List.count_eq_one_of_mem hrep.valid.nodup hq
      · intro heq
        exact hrep.valid.current_queue _ (heq ▸ hcur) hq
    · refine .running (hrep.kernel.current _ hr) (hready.mpr (hrep.valid.current_exited _ hr)) ?_
      rw [hqueue]
      exact hrep.valid.current_queue _ hr
    · exact .exited (hrep.hasExited hs he) fun _ _ hrun' => h.hasExited_run hp hs he hrun'
  · rw [hqueue, ← hrep.idle_eq]
    exact hrep.valid.idle_queue

/-- The thread whose function returns has exited from then on. -/
theorem hasExited_of_exit {s₁ s' : System Heap} {acts' : List Action} (hp : im.Placed)
    (hrun : Reachable im machine acts s) (hexit : Step im kernelHeap s .exit s₁)
    (hcont : Run (Step im kernelHeap) s₁ acts' s') :
    HasExited im s'.kernel s.kernel.currentThread := by
  obtain ⟨a, h⟩ := hrun.onKernelHeap hp
  obtain ⟨s₂, hexec, -, hrep, hh, hts⟩ := h.represents.exec_exit kernelHeap hexit.1
  obtain rfl : s₂ = s₁ := Except.ok.inj (hexec.symm.trans hexit.2)
  exact (h.of_threads_eq hrep hh hts).hasExited_run hp (hexit.started hexit.1.1).2
    List.mem_cons_self hcont

/-- One thread has exited, one is queued, one runs. -/
theorem thread_accounted_linkedImage :
    ∃ s, Reachable linkedImage bootMachine (startedActs ++ [.exit, .reschedule]) s ∧
      s.started = true ∧
      HasExited linkedImage s.kernel (threadAt linkedImage 1) ∧
      runQueue linkedImage s.kernel = [threadAt linkedImage 4, threadAt linkedImage 2] ∧
      s.kernel.currentThread = threadAt linkedImage 3 ∧
      (∀ c ∈ s.created, Place linkedImage s c.thread) ∧
      s.idle.thread ∉ runQueue linkedImage s.kernel := by
  obtain ⟨_, _, s, hrun, -, hstep₁, -, hstep₂, h⟩ := exists_reachable_switches
  have hrun' : Reachable linkedImage bootMachine (startedActs ++ [.exit, .reschedule]) s :=
    Run.append hrun (.cons hstep₁ (.single hstep₂))
  have hrep := h.represents
  have hs : s.started = true := hrep.started
  exact ⟨s, hrun', hs, hrep.hasExited hs List.mem_cons_self, hrep.kernel.queue.runQueue_eq,
    hrep.kernel.current _ rfl, thread_accounted linkedImage_placed hrun' hs⟩

/-- In a run of a started scheduler, the dispatches are the calls of `thread_reschedule`. -/
theorem length_dispatched {s s' : System Heap} {ds : List Word} (hs : s.started = true)
    (h : Observed (Step im kernelHeap) dispatched s acts ds s') :
    ds.length = acts.countP Action.reschedules := by
  induction h with
  | nil => rfl
  | @cons s s₁ s' act acts ds hstep _ ih =>
      obtain ⟨hact, hs₁⟩ := hstep.started hs
      rw [List.length_append, ih hs₁, List.countP_cons, Nat.add_comm]
      cases act with
      | start => exact absurd rfl hact
      | create | reschedule | exit | compute => rfl

/-- What bounded waiting says about the threads `ds` that are dispatched, one by each call of
`thread_reschedule`, when the run continues from the state `s` over these actions. -/
structure BoundedWaiting (im : Image) (s : System Heap) (acts : List Action) (ds : List Word) :
    Prop where
  length_eq : ds.length = acts.countP Action.reschedules
  /-- The thread at position `k` of the run queue, counted from zero, is dispatched by
  the `k + 1`-st call, not earlier and not later. -/
  position : ∀ (k : ℕ) (t : Word), (runQueue im s.kernel)[k]? = some t →
    (k < ds.length → ds.idxOf t = k) ∧ (ds.length ≤ k → t ∉ ds)
  /-- Of two queued threads, the one in front is dispatched first. -/
  order : ∀ (i j : ℕ) (u v : Word), i < j → (runQueue im s.kernel)[i]? = some u →
    (runQueue im s.kernel)[j]? = some v → v ∈ ds → u ∈ ds ∧ ds.idxOf u < ds.idxOf v
  /-- When the continuation begins with the running thread yielding, and `es` are the dispatches
  from then up to its next one, `es` has each thread queued ahead of it exactly once. -/
  round : ∀ (rest : List Action) (es : List Word), acts = .reschedule :: rest →
    s.kernel.currentThread ≠ s.idle.thread → ds = es ++ [s.kernel.currentThread] →
    s.kernel.currentThread ∉ es → ∀ u ∈ runQueue im s.kernel, es.count u = 1

/-- **Bounded waiting** holds in every continuation of a run after the start of the scheduler. -/
theorem bounded_waiting (hp : im.Placed) (hrun : Reachable im machine acts s)
    (hs : s.started = true) {acts' : List Action} {ds : List Word} {s' : System Heap}
    (hcont : Observed (Step im kernelHeap) dispatched s acts' ds s') :
    BoundedWaiting im s acts' ds := by
  obtain ⟨a, h⟩ := hrun.onKernelHeap hp
  have hrep := h.represents
  have hcur := hrep.current_eq hs
  have hqueue := hrep.kernel.queue.runQueue_eq
  obtain ⟨bs, a', hbs, -⟩ := h.run hp hcont
  refine ⟨length_dispatched hs hcont, ?_, ?_, ?_⟩ <;> rw [hqueue]
  · intro k t hk
    exact RoundRobin.idxOf_dispatched hbs hrep.valid.nodup hk
  · intro i j u v hij hi hj hv
    exact RoundRobin.dispatched_before hbs hrep.valid.nodup hij hi hj hv
  · rintro rest es rfl hidle hes hnew u hu
    rw [← hrep.idle_eq] at hidle
    cases hcont with
    | @cons _ s₁ _ _ _ ds' hstep hrest =>
        -- after the first step the dispatcher has queued the caller behind all others
        obtain ⟨s₂, hexec, -, hrep₂, hh, hts⟩ := hrep.exec_reschedule kernelHeap hs
        obtain rfl : s₂ = s₁ := Except.ok.inj (hexec.symm.trans hstep.2)
        obtain ⟨bs', a'', hbs', -⟩ := (h.of_threads_eq hrep₂ hh hts).run hp hrest
        refine RoundRobin.count_dispatched_between hrep.valid hcur hidle hbs' ?_ hnew hu
        rw [← hes, dispatched, hrep₂.kernel.current a.next rfl]
        rfl

/-- The running thread exits, the next one yields until it runs again, and a thread is created. -/
theorem bounded_waiting_linkedImage :
    ∃ s s₁ s',
      Reachable linkedImage bootMachine startedActs s ∧ s.started = true ∧
      runQueue linkedImage s.kernel =
        [threadAt linkedImage 2, threadAt linkedImage 3, threadAt linkedImage 4] ∧
      Step linkedImage kernelHeap s .exit s₁ ∧
      s₁.kernel.currentThread = threadAt linkedImage 2 ∧
      Observed (Step linkedImage kernelHeap) dispatched s₁
        [.reschedule, .create 4 5 6, .reschedule, .reschedule]
        [threadAt linkedImage 3, threadAt linkedImage 4, threadAt linkedImage 2] s' ∧
      BoundedWaiting linkedImage s [.exit, .reschedule, .create 4 5 6, .reschedule, .reschedule]
        [threadAt linkedImage 2, threadAt linkedImage 3, threadAt linkedImage 4,
          threadAt linkedImage 2] ∧
      BoundedWaiting linkedImage s₁ [.reschedule, .create 4 5 6, .reschedule, .reschedule]
        [threadAt linkedImage 3, threadAt linkedImage 4, threadAt linkedImage 2] := by
  have hp := linkedImage_placed
  obtain ⟨s, s₁, s₂, hrun, h, hstep₁, h₁, hstep₂, h₂⟩ := exists_reachable_switches
  obtain ⟨s₃, hstep₃, h₃, -⟩ := h₂.exists_create hp (by decide) 4 5 6
  obtain ⟨s₄, hstep₄, hcur₄, h₄⟩ := h₃.exists_reschedule rfl
  obtain ⟨s₅, hstep₅, hcur₅, h₅⟩ := h₄.exists_reschedule rfl
  have hcur₁ := h₁.represents.kernel.current _ rfl
  have hcur₂ := h₂.represents.kernel.current _ rfl
  have hcont : Observed (Step linkedImage kernelHeap) dispatched s₁
      [.reschedule, .create 4 5 6, .reschedule, .reschedule]
      [s₂.kernel.currentThread, s₄.kernel.currentThread, s₅.kernel.currentThread] s₅ :=
    .cons hstep₂ (.cons hstep₃ (.cons hstep₄ (.cons hstep₅ (.nil s₅))))
  rw [hcur₂, hcur₄, hcur₅] at hcont
  have hcont' : Observed (Step linkedImage kernelHeap) dispatched s _
      ([s₁.kernel.currentThread] ++ _) s₅ := .cons hstep₁ hcont
  rw [hcur₁] at hcont'
  have hs : s.started = true := h.represents.started
  exact ⟨s, s₁, s₅, hrun, hs, h.represents.kernel.queue.runQueue_eq, hstep₁, hcur₁, hcont,
    bounded_waiting hp hrun hs hcont',
    bounded_waiting hp (Run.snoc hrun hstep₁) (hstep₁.started hs).2 hcont⟩

end System

end Storm
