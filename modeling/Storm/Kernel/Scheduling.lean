import Storm.Kernel.RunQueue
import Storm.Kernel.System
import Storm.Library.RoundRobin

/-! # The scheduler implements the round-robin dispatcher

`KernelRepresents` relates the data structures of the kernel to a state of the abstract dispatcher:
the circle of links is its queue, `current_thread` its running thread, and `ready` is cleared
exactly for the threads that have exited. `System.Represents` adds what a run remembers. Each kernel
function has a lemma that says which step of the dispatcher it takes; in the middle of
`thread_reschedule`, between taking the next thread and queueing the old one again, the kernel
represents the dispatcher after `State.dispatch` only. -/

namespace Storm

open ByteMemory DoublyLinked I386

variable {H : Type}

/-- The kernel `k`, in which the threads `ts` were created, is in the dispatcher's state `a`. -/
structure KernelRepresents (im : Image) (ts : List Word) (k : Kernel H)
    (a : RoundRobin.State Word) : Prop where
  idleThread : k.idleThread = a.idle
  queue : RunQueueIs im k a.queue
  /-- A thread that is not queued has no neighbours. -/
  unlinked : ∀ t ∈ ts, t ∉ a.queue → k.lists (threadNode t) = ⟨null, null⟩
  /-- No list node is the header of the run queue. -/
  header : ∀ t ∈ ts, threadNode t ≠ im.threadRunQueue
  ready : ∀ t ∈ ts, (k.threads t).ready = true ↔ t ∉ a.exited
  current : ∀ t, a.current = some t → k.currentThread = t

namespace KernelRepresents

variable {im : Image} {ts : List Word} {k : Kernel H} {a : RoundRobin.State Word} {t c n : Word}

/-- The list node of a thread that is not queued is not part of the queue. -/
theorem notMem_queueNodes (h : KernelRepresents im ts k a) {q : List Word} (ht : t ∈ ts)
    (hq : t ∉ q) : threadNode t ∉ queueNodes im q := by
  rw [queueNodes, List.mem_cons, List.mem_map_of_injective threadNode_injective, not_or]
  exact ⟨h.header t ht, hq⟩

/-- Only the history changes: by an arrival. -/
theorem append_trace (h : KernelRepresents im ts k a) {events : List Event}
    (he : ∀ e ∈ events, ∀ q, fifoStep q e = some q) :
    KernelRepresents im ts { k with trace := k.trace ++ events } a :=
  ⟨h.idleThread, h.queue.congr (fun _ _ => rfl) rfl (fifoReplay_append_of_neutral he), h.unlinked,
    h.header, h.ready, h.current⟩

/-- `thread_load_first` changes nothing that the dispatcher knows. -/
theorem threadLoadFirst (h : KernelRepresents im ts k a) :
    KernelRepresents im ts (threadLoadFirst im n k) a :=
  ⟨h.idleThread, h.queue.threadLoadFirst, h.unlinked, h.header, h.ready, h.current⟩

/-- `thread_context_switch` changes nothing that the dispatcher knows. -/
theorem threadContextSwitch (h : KernelRepresents im ts k a) :
    KernelRepresents im ts (threadContextSwitch im c n k) a :=
  ⟨h.idleThread, h.queue.threadContextSwitch, h.unlinked, h.header,
    fun t ht => by rw [ready_threadContextSwitch]; exact h.ready t ht, h.current⟩

/-- **The next thread is taken**: `thread_get_next` and `thread_set_current`. -/
theorem dispatch (h : KernelRepresents im ts k a) :
    threadGetNext im k = .ok (a.next, taken a.queue k) ∧
      KernelRepresents im ts (threadSetCurrent a.next (taken a.queue k)) a.dispatch := by
  obtain ⟨hnext, hqueue⟩ := h.queue.threadGetNext
  rw [h.idleThread] at hnext
  refine ⟨hnext, ?_, ?_, ?_, h.header, ?_, ?_⟩
  · show (taken a.queue k).idleThread = a.idle
    rw [taken_idleThread, h.idleThread]
  · exact hqueue.congr (fun _ _ => rfl) rfl rfl
  · intro t ht htail
    show (taken a.queue k).lists (threadNode t) = ⟨null, null⟩
    by_cases hq : t ∈ a.queue
    · -- `t` was queued but is not in the tail: it is the thread taken
      refine RunQueueIs.lists_taken_head ?_
      cases hqs : a.queue with
      | nil => simp [hqs] at hq
      | cons u q =>
          rw [RoundRobin.State.dispatch, hqs, List.tail_cons] at htail
          rw [hqs, List.mem_cons] at hq
          rw [List.head?_cons, Option.mem_some_iff]
          exact (hq.resolve_right htail).symm
    · rw [h.queue.lists_taken (h.notMem_queueNodes ht hq)]
      exact h.unlinked t ht hq
  · intro t ht
    show ((taken a.queue k).threads t).ready = true ↔ _
    rw [taken_threads]
    exact h.ready t ht
  · intro t ht
    exact Option.some.inj ht

/-- **The previous thread is queued again**, unless it is the idle thread. -/
theorem requeue (h : KernelRepresents im ts k a) (hn : a.current = some n) (hc : c ∈ ts)
    (hq : c ∉ a.queue) (he : c ∉ a.exited) :
    KernelRepresents im ts (requeued im c n k) (a.requeue c) := by
  -- the next thread is the current one already, so that setting it changes nothing
  have hset : threadSetCurrent n k = k := by
    rw [threadSetCurrent, ← h.current n hn]
  by_cases hci : c = a.idle
  · -- the idle thread is never queued
    rw [requeued_of_leave (Or.inl (hci.trans h.idleThread.symm)), hset, RoundRobin.State.requeue,
      if_pos hci, List.append_nil]
    exact h
  · have hready : (k.threads c).ready = true := (h.ready c hc).mpr he
    have hnode := h.notMem_queueNodes hc hq
    rw [requeued_of_ready (by rw [h.idleThread]; exact hci) hready, hset,
      RoundRobin.State.requeue, if_neg hci]
    refine ⟨h.idleThread, h.queue.threadRunQueueAdd hnode, ?_, h.header, h.ready, h.current⟩
    intro t ht htq
    rw [List.mem_append, List.mem_singleton, not_or] at htq
    rw [h.queue.lists_threadRunQueueAdd (h.notMem_queueNodes ht htq.1)
      (fun hnn => htq.2 (threadNode_injective hnn))]
    exact h.unlinked t ht htq.1

/-- The previous thread has exited: it is not queued again. -/
theorem leave (h : KernelRepresents im ts k a) (hn : a.current = some n) (hc : c ∈ ts)
    (he : c ∈ a.exited) : KernelRepresents im ts (requeued im c n k) a := by
  have hready : (k.threads c).ready = false := by
    rw [← Bool.not_eq_true, h.ready c hc]
    exact not_not_intro he
  rw [requeued_of_leave (Or.inr hready), threadSetCurrent, ← h.current n hn]
  exact h

/-- `thread_main` clears `ready`. -/
theorem finish (h : KernelRepresents im ts k a) (hc : c ∈ ts) :
    KernelRepresents im ts (finished c k) { a with exited := c :: a.exited } := by
  refine ⟨h.idleThread, h.queue.congr (fun _ _ => rfl) rfl
    (fifoReplay_append_of_neutral (by simp [fifoStep])), h.unlinked, h.header, ?_, h.current⟩
  intro t ht
  by_cases htc : t = c
  · subst htc
    simp [finished]
  · simpa [finished, htc] using h.ready t ht

/-- **A new thread** joins the end of the queue. -/
theorem create {name stack fn arg : Word} {heap : H} (h : KernelRepresents im ts k a)
    (ht : t ∉ ts) (hnode : threadNode t ≠ im.threadRunQueue) (hq : ∀ u ∈ a.queue, u ∈ ts)
    (he : ∀ u ∈ a.exited, u ∈ ts) :
    KernelRepresents im (ts ++ [t])
      (threadRunQueueAdd im t (threadStructInit im t name stack threadDefaultStackSize fn arg
        { k with heap })) { a with queue := a.queue ++ [t] } := by
  have hnew : threadNode t ∉ queueNodes im a.queue := by
    rw [queueNodes, List.mem_cons, List.mem_map_of_injective threadNode_injective, not_or]
    exact ⟨hnode, fun htq => ht (hq t htq)⟩
  have hqueue : RunQueueIs im { k with heap } a.queue := h.queue.congr (fun _ _ => rfl) rfl rfl
  have hinit : RunQueueIs im (threadStructInit im t name stack threadDefaultStackSize fn arg
      { k with heap }) a.queue := hqueue.threadStructInit hnew
  refine ⟨h.idleThread, hinit.threadRunQueueAdd hnew, ?_, ?_, ?_, h.current⟩
  · -- what is not queued now was not queued before, and is not the new thread
    intro u hu huq
    rw [List.mem_append, List.mem_singleton] at hu
    rw [List.mem_append, List.mem_singleton, not_or] at huq
    have huts : u ∈ ts := hu.resolve_right huq.2
    have hne : threadNode u ≠ threadNode t := fun hnn => huq.2 (threadNode_injective hnn)
    rw [hinit.lists_threadRunQueueAdd (h.notMem_queueNodes huts huq.1) hne]
    exact (listNodeInit_of_ne hne).trans (h.unlinked u huts huq.1)
  · intro u hu
    rw [List.mem_append, List.mem_singleton] at hu
    rcases hu with hu | rfl
    · exact h.header u hu
    · exact hnode
  · intro u hu
    by_cases hut : u = t
    · subst hut
      simpa [threadRunQueueAdd, threadStructInit] using fun hx => ht (he u hx)
    · rw [List.mem_append, List.mem_singleton] at hu
      simpa [threadRunQueueAdd, threadStructInit, hut] using h.ready u (hu.resolve_right hut)

/-- **`thread_reschedule` by a ready thread** yields. -/
theorem threadReschedule (h : KernelRepresents im ts k a) (hv : a.Valid) (hc : a.current = some c)
    (hts : c ∈ ts) :
    ∃ k', threadReschedule im k = .ok k' ∧
      KernelRepresents im ts k' (a.dispatch.requeue c) ∧ k'.heap = k.heap := by
  obtain ⟨hnext, hd⟩ := h.dispatch
  obtain rfl : k.currentThread = c := h.current c hc
  -- taking the next thread has not put the calling one on the queue
  have hq : k.currentThread ∉ a.dispatch.queue := fun hq =>
    hv.current_queue _ hc (List.mem_of_mem_tail hq)
  refine ⟨_, threadReschedule_eq_ok.mpr ⟨a.next, taken a.queue k, hnext, rfl⟩, ?_, ?_⟩
  · exact (hd.requeue rfl hts hq (hv.current_exited _ hc)).threadContextSwitch
  · show (requeued im k.currentThread a.next (taken a.queue k)).heap = k.heap
    rw [requeued_heap, taken_heap]

/-- **The end of `thread_main`**: the thread exits. -/
theorem threadMainLeave (h : KernelRepresents im ts k a) (hc : a.current = some c) (hts : c ∈ ts) :
    ∃ k', threadMainLeave im c k = .ok k' ∧
      KernelRepresents im ts k' { a.dispatch with exited := c :: a.exited } ∧
      k'.heap = k.heap := by
  -- the thread is not ready any more when it calls `thread_reschedule`
  have hf := h.finish hts
  obtain ⟨hnext, hd⟩ := hf.dispatch
  obtain rfl : k.currentThread = c := h.current c hc
  refine ⟨_, threadReschedule_eq_ok.mpr ⟨_, _, hnext, rfl⟩, ?_, ?_⟩
  · exact (hd.leave rfl hts List.mem_cons_self).threadContextSwitch
  · show (requeued im k.currentThread _ (taken a.queue _)).heap = k.heap
    rw [requeued_heap, taken_heap]
    rfl

/-- **`thread_start_scheduler`** dispatches the first thread. -/
theorem threadStartScheduler (h : KernelRepresents im ts k a) :
    ∃ k', threadStartScheduler im k = .ok k' ∧ KernelRepresents im ts k' a.dispatch ∧
      k'.heap = k.heap := by
  obtain ⟨hnext, hd⟩ := h.dispatch
  refine ⟨_, threadStartScheduler_eq_ok.mpr ⟨_, _, hnext, rfl⟩, hd.threadLoadFirst, ?_⟩
  exact taken_heap

end KernelRepresents

namespace System

/-- The system `s` is in the dispatcher's state `a`. -/
structure Represents (im : Image) (s : System H) (a : RoundRobin.State Word) : Prop where
  valid : a.Valid
  /-- The threads that the dispatcher knows are the ones that were created. -/
  known : ∀ t, a.Known t ↔ t ∈ s.threads.map Creation.thread
  nodup : (s.threads.map Creation.thread).Nodup
  idle_eq : a.idle = s.idle.thread
  kernel : KernelRepresents im (s.threads.map Creation.thread) s.kernel a
  started : s.started = a.current.isSome
  /-- The local variable `current` of a thread's `thread_main` is that thread. -/
  mainLocal : ∀ t c, s.mainLocal t = some c → c = t

namespace Represents

variable {im : Image} {s : System H} {a : RoundRobin.State Word} {t c : Word}

/-- The dispatcher's running thread is `current_thread`. -/
theorem current_eq (h : s.Represents im a) (hs : s.started = true) :
    a.current = some s.kernel.currentThread := by
  have hcur := h.started
  rw [hs] at hcur
  obtain ⟨t, ht⟩ := Option.isSome_iff_exists.mp hcur.symm
  rw [ht, h.kernel.current t ht]

/-- The dispatcher knows its running thread. -/
theorem current_mem (h : s.Represents im a) (hc : a.current = some c) :
    c ∈ s.threads.map Creation.thread :=
  (h.known c).mp (Or.inr (Or.inr (Or.inl hc)))

/-- The next thread to be dispatched was created. -/
theorem next_mem (h : s.Represents im a) :
    a.next ∈ s.threads.map Creation.thread := by
  rw [← h.known]
  rcases a.next_cases with ⟨-, hn⟩ | ⟨q, hq⟩
  · exact Or.inl hn
  · exact Or.inr (Or.inl (by rw [hq]; exact List.mem_cons_self))

/-- An arrival changes nothing that the dispatcher knows. -/
theorem arrive (h : s.Represents im a) : (s.arrive im).Represents im a := by
  obtain ⟨events, mainLocal, heq, hevents, hlocal⟩ := arrive_eq im s
  rw [heq]
  refine ⟨h.valid, h.known, h.nodup, h.idle_eq, h.kernel.append_trace ?_, h.started, ?_⟩
  · intro e he q
    rcases hevents e he with ⟨t, fn, arg, rfl⟩ | ⟨t, fn, arg, rfl⟩ | ⟨t, rfl⟩ <;> rfl
  · intro t c hc
    rcases hlocal t c hc with hc | rfl
    · exact h.mainLocal t c hc
    · rfl

/-- A step of the dispatcher that dispatches a thread, taken by the kernel. -/
theorem of_dispatch {k : Kernel H} {a' : RoundRobin.State Word} {l : RoundRobin.Label Word}
    (h : s.Represents im a) (hstep : RoundRobin.Step a l a') (hl : l.dispatches)
    (hk : KernelRepresents im (s.threads.map Creation.thread) k a') :
    Represents im { s with kernel := k, started := true } a' := by
  refine ⟨hstep.valid h.valid, fun t => ?_, h.nodup, hstep.idle_eq.trans h.idle_eq, hk, ?_,
    h.mainLocal⟩
  · rw [hstep.known_iff, h.known t]
    cases l with
    | create u => simp [RoundRobin.Label.dispatches] at hl
    | _ => simp [threads]
  · rw [hstep.current_eq, if_pos hl]
    rfl

/-- **`thread_start_scheduler`** is the first dispatch. -/
theorem exec_start (al : Allocator H) (h : s.Represents im a) (hs : s.started = false) :
    ∃ s', s.exec im al .start = .ok s' ∧ RoundRobin.Step a .start a.dispatch ∧
      s'.Represents im a.dispatch ∧ s'.kernel.heap = s.kernel.heap ∧ s'.threads = s.threads := by
  have hcur : a.current = none := by
    rw [← Option.not_isSome_iff_eq_none, ← h.started, hs]
    exact Bool.false_ne_true
  have hstep : RoundRobin.Step a .start a.dispatch := .start hcur
  obtain ⟨k, hk, hrep, hheap⟩ := h.kernel.threadStartScheduler
  obtain ⟨events, mainLocal, harr, -⟩ := arrive_eq im { s with kernel := k, started := true }
  refine ⟨_, System.exec_start.mpr ⟨k, hk, rfl⟩, hstep, (h.of_dispatch hstep rfl hrep).arrive, ?_⟩
  rw [harr]
  exact ⟨hheap, rfl⟩

/-- **A call of `thread_reschedule`** is a yield of the running thread. -/
theorem exec_reschedule (al : Allocator H) (h : s.Represents im a) (hs : s.started = true) :
    let a' := a.dispatch.requeue s.kernel.currentThread
    ∃ s', s.exec im al .reschedule = .ok s' ∧ RoundRobin.Step a .yield a' ∧
      s'.Represents im a' ∧ s'.kernel.heap = s.kernel.heap ∧ s'.threads = s.threads := by
  intro a'
  have hcur := h.current_eq hs
  have hstep : RoundRobin.Step a .yield a' := .yield hcur
  obtain ⟨k, hk, hrep, hheap⟩ := h.kernel.threadReschedule h.valid hcur (h.current_mem hcur)
  have hrep' := h.of_dispatch hstep rfl hrep
  obtain ⟨events, mainLocal, harr, -⟩ := arrive_eq im { s with kernel := k }
  refine ⟨_, System.exec_reschedule.mpr ⟨k, hk, rfl⟩, hstep, ?_, ?_⟩
  · rw [← hs] at hrep'
    exact hrep'.arrive
  · rw [harr]
    exact ⟨hheap, rfl⟩

/-- The local variable `current` of the running thread's `thread_main`. -/
theorem mainLocal_current (h : s.Represents im a) (hen : s.Enabled .exit) :
    (s.mainLocal s.kernel.currentThread).getD null = s.kernel.currentThread := by
  obtain ⟨c, hc⟩ := Option.ne_none_iff_exists'.mp hen.2.2
  rw [hc, Option.getD_some, h.mainLocal _ c hc]

/-- **The return of a thread function** is an exit of the running thread. -/
theorem exec_exit (al : Allocator H) (h : s.Represents im a) (hen : s.Enabled .exit) :
    let a' := { a.dispatch with exited := s.kernel.currentThread :: a.exited }
    ∃ s', s.exec im al .exit = .ok s' ∧ RoundRobin.Step a .exit a' ∧
      s'.Represents im a' ∧ s'.kernel.heap = s.kernel.heap ∧ s'.threads = s.threads := by
  intro a'
  have hlocal := h.mainLocal_current hen
  obtain ⟨hs, hidle, -⟩ := hen
  have hcur := h.current_eq hs
  have hstep : RoundRobin.Step a .exit a' := .exit hcur (by rwa [h.idle_eq])
  obtain ⟨k, hk, hrep, hheap⟩ := h.kernel.threadMainLeave hcur (h.current_mem hcur)
  have hrep' := h.of_dispatch hstep rfl hrep
  obtain ⟨events, mainLocal, harr, -⟩ := arrive_eq im { s with kernel := k }
  refine ⟨_, System.exec_exit.mpr ⟨k, ?_, rfl⟩, hstep, ?_, ?_⟩
  · rw [hlocal]
    exact hk
  · rw [← hs] at hrep'
    exact hrep'.arrive
  · rw [harr]
    exact ⟨hheap, rfl⟩

/-- **A successful call of `thread_create`** creates a thread. -/
theorem exec_create_some {al : Allocator H} {stack : Word} {heap : H} (name fn arg : Word)
    (h : s.Represents im a)
    (halloc : threadAllocate al s.kernel.heap = (some (t, stack), heap)) (hu : s.Unused im t) :
    let a' := { a with queue := a.queue ++ [t] }
    ∃ s', s.exec im al (.create name fn arg) = .ok s' ∧ RoundRobin.Step a (.create t) a' ∧
      s'.Represents im a' ∧ s'.kernel.heap = heap ∧
      s'.threads = s.threads ++ [⟨t, stack, fn, arg⟩] := by
  intro a'
  have hnew : ¬ a.Known t := fun hk => hu.1 ((h.known t).mp hk)
  have hstep : RoundRobin.Step a (.create t) a' := .create hnew
  have hqueue : ∀ u ∈ a.queue, u ∈ s.threads.map Creation.thread := fun u hq =>
    (h.known u).mp (Or.inr (Or.inl hq))
  have hexited : ∀ u ∈ a.exited, u ∈ s.threads.map Creation.thread := fun u he =>
    (h.known u).mp (Or.inr (Or.inr (Or.inr he)))
  have hk : KernelRepresents im (s.threads.map Creation.thread ++ [t])
      (threadRunQueueAdd im t (threadStructInit im t name stack threadDefaultStackSize fn arg
        { s.kernel with heap })) a' := h.kernel.create hu.1 hu.2 hqueue hexited
  refine ⟨_, System.exec_create.mpr rfl, hstep, ?_, ?_, ?_⟩
  · refine ⟨hstep.valid h.valid, fun u => ?_, ?_, h.idle_eq, ?_, h.started, h.mainLocal⟩
    · rw [hstep.known_iff, h.known u]
      simp [threads, createdBy, halloc, eq_comm, or_assoc]
    · have hnd := h.nodup
      have hu' := hu.1
      simp only [threads, createdBy, halloc, List.map_cons, List.map_append, List.map_nil] at *
      rw [← List.cons_append]
      exact hnd.append (List.nodup_singleton t) (by simpa using hu')
    · simpa [threads, createdBy, halloc, threadCreate] using hk
  · simp [threadCreate, halloc, threadRunQueueAdd, threadStructInit]
  · simp [threads, createdBy, halloc]

/-- A failed call of `thread_create` creates none. -/
theorem exec_create_none {al : Allocator H} {heap : H} (name fn arg : Word)
    (h : s.Represents im a)
    (halloc : threadAllocate al s.kernel.heap = (none, heap)) :
    ∃ s', s.exec im al (.create name fn arg) = .ok s' ∧ s'.Represents im a ∧
      s'.kernel.heap = heap ∧ s'.threads = s.threads := by
  refine ⟨_, System.exec_create.mpr rfl, ?_, ?_, ?_⟩
  · have hk : KernelRepresents im (s.threads.map Creation.thread) { s.kernel with heap } a :=
      ⟨h.kernel.idleThread, h.kernel.queue.congr (fun _ _ => rfl) rfl rfl, h.kernel.unlinked,
        h.kernel.header, h.kernel.ready, h.kernel.current⟩
    simp only [createdBy, halloc, threadCreate]
    exact ⟨h.valid, h.known, h.nodup, h.idle_eq, hk, h.started, h.mainLocal⟩
  · simp [threadCreate, halloc]
  · simp [threads, createdBy, halloc]

/-- The running code computes. -/
theorem exec_compute (al : Allocator H) (m : Machine) (h : s.Represents im a) :
    ∃ s', s.exec im al (.compute m) = .ok s' ∧ s'.Represents im a ∧
      s'.kernel.heap = s.kernel.heap ∧ s'.threads = s.threads := by
  refine ⟨_, rfl, ⟨h.valid, h.known, h.nodup, h.idle_eq, ?_, h.started, h.mainLocal⟩, rfl, rfl⟩
  exact ⟨h.kernel.idleThread, h.kernel.queue.congr (fun _ _ => rfl) rfl rfl, h.kernel.unlinked,
    h.kernel.header, h.kernel.ready, h.kernel.current⟩

/-- **After `thread_init`** nobody waits and nobody runs. -/
theorem boot {al : Allocator H} {heap heap' : H} {stack : Word} (machine : Machine)
    (halloc : threadAllocate al heap = (some (t, stack), heap'))
    (hnode : threadNode t ≠ im.threadRunQueue) :
    (boot im al heap machine).Represents im ⟨t, [], none, []⟩ ∧
      (System.boot im al heap machine).kernel.heap = heap' ∧
      (System.boot im al heap machine).threads = [⟨t, stack, im.idleThreadFn, null⟩] := by
  have hkernel : KernelRepresents im [t] (System.boot im al heap machine).kernel
      ⟨t, [], none, []⟩ := by
    simp only [System.boot, threadInit, idleThreadCreate, Kernel.initial, halloc, ne_eq,
      not_true_eq_false, if_false]
    refine ⟨rfl, RunQueueIs.threadRunQueueInit rfl, ?_, ?_, ?_, fun _ h => by simp at h⟩
    · intro u hu _
      rw [List.mem_singleton.mp hu]
      exact (listInit_of_ne hnode).trans listNodeInit_self
    · intro u hu
      rw [List.mem_singleton.mp hu]
      exact hnode
    · intro u hu
      rw [List.mem_singleton.mp hu]
      simp [Storm.threadRunQueueInit, threadStructInit]
  refine ⟨⟨⟨by simp, by simp, by simp, by simp, by simp, by simp⟩, ?_, ?_, ?_, ?_, rfl, ?_⟩, ?_, ?_⟩
  · simp [RoundRobin.State.Known, threads, System.boot, halloc]
  · simp [threads, System.boot]
  · simp [System.boot, halloc]
  · simpa [threads, System.boot, halloc] using hkernel
  · simp [System.boot]
  · simp [System.boot, threadInit, idleThreadCreate, Kernel.initial, halloc,
      Storm.threadRunQueueInit, threadStructInit]
  · simp [threads, System.boot, halloc]

end Represents

end System

end Storm
