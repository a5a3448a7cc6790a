import Storm.Kernel.Thread
import Mathlib.Data.Fintype.Card
import Mathlib.Data.Finset.Card

/-! # The run queue as a FIFO queue

The abstract queue is what the history says: each `thread_run_queue_add` appends its thread, each
`thread_run_queue_pop` must return the head and removes it (`fifoReplay`). `RunQueueIs im k q` says
that the pointer structure and the counter of the kernel `k` represent the queue `q`, and that `q`
is the abstract queue of its history.

Each function of the run queue, and those built on them, has one lemma that says what it does to
`q` and which list nodes it leaves alone. -/

namespace Storm

open ByteMemory DoublyLinked

variable {H : Type}

/-- What an event does to the abstract queue; `none` when a pop does not return the head. -/
def fifoStep (q : List Word) : Event → Option (List Word)
  | .add t => some (q ++ [t])
  | .pop t =>
      match q with
      | [] => none
      | h :: rest => if h = t then some rest else none
  | .setup .. | .switchOut .. | .switchIn .. | .enter .. | .call .. | .finish _ | .resume _ => some q

/-- The abstract queue after a history. -/
def fifoReplay (trace : List Event) : Option (List Word) := trace.foldlM fifoStep []

/-- One more event continues the replay. -/
theorem fifoReplay_append (trace new : List Event) :
    fifoReplay (trace ++ new) = (fifoReplay trace).bind fun q => new.foldlM fifoStep q :=
  List.foldlM_append

/-- Events other than additions and removals do not change the abstract queue. -/
theorem fifoReplay_append_of_neutral {trace new : List Event}
    (h : ∀ e ∈ new, ∀ q, fifoStep q e = some q) : fifoReplay (trace ++ new) = fifoReplay trace := by
  have hnew : ∀ q, new.foldlM fifoStep q = some q := by
    induction new with
    | nil => exact fun q => rfl
    | cons e new ih =>
        intro q
        rw [List.foldlM_cons, h e List.mem_cons_self]
        exact ih (fun e he => h e (List.mem_cons_of_mem _ he)) q
  rw [fifoReplay_append]
  cases hq : fifoReplay trace with
  | none => rfl
  | some q => exact hnew q

/-- The kernel's run queue represents `q`. -/
structure RunQueueIs (im : Image) (k : Kernel H) (q : List Word) : Prop where
  /-- The circle of links goes through the nodes of the threads in `q`. -/
  ring : Ring k.lists im.threadRunQueue (q.map threadNode)
  /-- `no_threads` counts them. -/
  count : k.noThreads = BitVec.ofNat 32 q.length
  /-- `q` is what the history of additions and removals leaves. -/
  fifo : fifoReplay k.trace = some q

/-- The list nodes that belong to the run queue: the header and the nodes of the queued threads. -/
def queueNodes (im : Image) (q : List Word) : List Word := im.threadRunQueue :: q.map threadNode

variable {im : Image} {k : Kernel H} {q : List Word} {t : Word}

/-- A duplicate-free list of words has at most `2³²` members. -/
theorem length_le_of_nodup {l : List Word} (h : l.Nodup) : l.length ≤ 2 ^ 32 := by
  have hinj : Function.Injective (BitVec.toFin : Word → Fin (2 ^ 32)) := fun a b hab => by
    rwa [BitVec.toFin_inj] at hab
  calc l.length = (l.map BitVec.toFin).length := (List.length_map _).symm
    _ ≤ Fintype.card (Fin (2 ^ 32)) := (h.map hinj).length_le_card
    _ = 2 ^ 32 := Fintype.card_fin _

/-- The kernel after `thread_run_queue_pop` has removed a thread. -/
def popped (t : Word) (k : Kernel H) : Kernel H :=
  { threadRunqueueRemove t k with trace := k.trace ++ [.pop t] }

/-- The kernel after `thread_get_next` with the queue `q`. -/
def taken : List Word → Kernel H → Kernel H
  | [], k => k
  | t :: _, k => popped t k

/-- What `thread_get_next` leaves as it was. -/
@[simp] theorem taken_heap : (taken q k).heap = k.heap := by
  cases q <;> rfl

@[simp] theorem taken_threads : (taken q k).threads = k.threads := by
  cases q <;> rfl

@[simp] theorem taken_idleThread : (taken q k).idleThread = k.idleThread := by
  cases q <;> rfl

@[simp] theorem taken_globalIdCounter : (taken q k).globalIdCounter = k.globalIdCounter := by
  cases q <;> rfl

theorem taken_trace : (taken q k).trace = k.trace ++ q.head?.toList.map Event.pop := by
  cases q with
  | nil => exact (List.append_nil _).symm
  | cons t q => rfl

@[simp] theorem taken_machine : (taken q k).machine = k.machine := by
  cases q <;> rfl

/-- The threads that a walk along `next` finds in the run queue. -/
def runQueue (im : Image) (k : Kernel H) : List Word :=
  (List.iterate (fun n => (k.lists n).next) (k.lists im.threadRunQueue).next
    k.noThreads.toNat).map listEntryThread

namespace RunQueueIs

/-- The counter does not overflow: the threads have different addresses, and none is the
header. -/
theorem length_lt (h : RunQueueIs im k q) : q.length < 2 ^ 32 := by
  have := length_le_of_nodup h.ring.nodup
  rwa [List.length_cons, List.length_map] at this

/-- `no_threads` is the number of nodes. -/
theorem toNat_noThreads (h : RunQueueIs im k q) : k.noThreads.toNat = q.length := by
  rw [h.count, BitVec.toNat_ofNat, Nat.mod_eq_of_lt h.length_lt]

/-- A walk along `next` finds the queue. -/
theorem runQueue_eq (h : RunQueueIs im k q) : runQueue im k = q := by
  have hring : Ring k.lists im.threadRunQueue (q.map threadNode ++ []) := by
    rw [List.append_nil]
    exact h.ring
  have hwalk := Ring.iterate_next_of_isChain hring.links_split.1
  rw [List.length_map] at hwalk
  rw [runQueue, h.toNat_noThreads, hwalk, List.map_map,
    show listEntryThread ∘ threadNode = id from funext listEntryThread_threadNode, List.map_id]

/-- `thread_run_queue_empty` tells whether the queue is empty. -/
theorem threadRunQueueEmpty_iff (h : RunQueueIs im k q) :
    threadRunQueueEmpty k = true ↔ q = [] := by
  rw [threadRunQueueEmpty, decide_eq_true_iff, ← List.length_eq_zero_iff, ← h.toNat_noThreads,
    BitVec.toNat_eq]
  rfl

/-- Threads in the queue are different. -/
theorem nodup (h : RunQueueIs im k q) : q.Nodup :=
  List.Nodup.of_map _ (List.nodup_cons.mp h.ring.nodup).2

/-- The run queue depends only on the links of its nodes, the counter and the abstract queue. -/
theorem congr {k' : Kernel H} (h : RunQueueIs im k q)
    (hlists : ∀ a ∈ queueNodes im q, k'.lists a = k.lists a) (hcount : k'.noThreads = k.noThreads)
    (hfifo : fifoReplay k'.trace = fifoReplay k.trace) : RunQueueIs im k' q :=
  ⟨h.ring.congr hlists, hcount.trans h.count, hfifo.trans h.fifo⟩

/-- `thread_run_queue_init` makes the queue empty. -/
theorem threadRunQueueInit (hfifo : fifoReplay k.trace = some []) :
    RunQueueIs im (threadRunQueueInit im k) [] := ⟨ring_listInit, rfl, hfifo⟩

/-- **`thread_run_queue_add`** appends the thread. -/
theorem threadRunQueueAdd (h : RunQueueIs im k q) (ht : threadNode t ∉ queueNodes im q) :
    RunQueueIs im (threadRunQueueAdd im t k) (q ++ [t]) := by
  refine ⟨?_, ?_, ?_⟩
  · rw [List.map_append, List.map_singleton]
    exact ring_listAddTail h.ring ht
  · show k.noThreads + 1 = BitVec.ofNat 32 (q ++ [t]).length
    rw [h.count, List.length_append, List.length_singleton, BitVec.ofNat_add]
    rfl
  · rw [Storm.threadRunQueueAdd, fifoReplay_append, h.fifo]
    rfl

/-- `thread_run_queue_add` leaves all other nodes alone. -/
theorem lists_threadRunQueueAdd (h : RunQueueIs im k q) {a : Word} (ha : a ∉ queueNodes im q)
    (hat : a ≠ threadNode t) : (Storm.threadRunQueueAdd im t k).lists a = k.lists a :=
  listAddTail_of_notMem h.ring ha hat

/-- **`thread_run_queue_pop`** returns and removes the head; the assertion holds. -/
theorem threadRunQueuePop (h : RunQueueIs im k (t :: q)) :
    threadRunQueuePop im k = .ok (t, popped t k) ∧ RunQueueIs im (popped t k) q := by
  have hempty : threadRunQueueEmpty k = false := by
    rw [Bool.eq_false_iff, ne_eq, h.threadRunQueueEmpty_iff]
    exact List.cons_ne_nil t q
  have hhead : listEntryThread (k.lists im.threadRunQueue).next = t := by
    rw [next_head h.ring, listEntryThread_threadNode]
  refine ⟨?_, ?_, ?_, ?_⟩
  · simp only [Storm.threadRunQueuePop, hempty, hhead]
    rfl
  · exact ring_listDel_head h.ring
  · show k.noThreads - 1 = BitVec.ofNat 32 q.length
    rw [h.count, List.length_cons, BitVec.ofNat_add]
    exact add_sub_cancel_right _ 1#32
  · rw [popped, fifoReplay_append, h.fifo]
    simp [fifoStep]

/-- **`thread_get_next`** returns the head of the queue, or the idle thread when it is empty. -/
theorem threadGetNext (h : RunQueueIs im k q) :
    threadGetNext im k = .ok (q.headD k.idleThread, taken q k) ∧
      RunQueueIs im (taken q k) q.tail := by
  cases q with
  | nil =>
      have hempty : threadRunQueueEmpty k = true := h.threadRunQueueEmpty_iff.mpr rfl
      refine ⟨?_, h⟩
      rw [Storm.threadGetNext, if_pos hempty]
      rfl
  | cons t q =>
      have hempty : ¬ threadRunQueueEmpty k = true := by
        rw [h.threadRunQueueEmpty_iff]
        exact List.cons_ne_nil t q
      rw [Storm.threadGetNext, if_neg hempty]
      exact h.threadRunQueuePop

/-- `thread_get_next` leaves nodes outside of the queue alone. -/
theorem lists_taken (h : RunQueueIs im k q) {a : Word} (ha : a ∉ queueNodes im q) :
    (taken q k).lists a = k.lists a := by
  cases q with
  | nil => rfl
  | cons t q => exact listDel_of_notMem h.ring ha

/-- `thread_get_next` clears the links of the thread it takes. -/
theorem lists_taken_head (hq : t ∈ q.head?) : (taken q k).lists (threadNode t) = ⟨null, null⟩ := by
  cases q with
  | nil => simp at hq
  | cons u q =>
      obtain rfl : u = t := by simpa using hq
      exact listDel_self

/-- `thread_struct_init` of a thread outside of the queue leaves the queue as it is. -/
theorem threadStructInit {name stack size fn arg : Word} (h : RunQueueIs im k q)
    (ht : threadNode t ∉ queueNodes im q) :
    RunQueueIs im (threadStructInit im t name stack size fn arg k) q := by
  refine h.congr (fun a ha => listNodeInit_of_ne ?_) rfl
    (fifoReplay_append_of_neutral (by simp [fifoStep]))
  rintro rfl
  exact ht ha

/-- `thread_load_first` leaves the queue as it is. -/
theorem threadLoadFirst (h : RunQueueIs im k q) : RunQueueIs im (threadLoadFirst im t k) q :=
  h.congr (fun _ _ => rfl) rfl (fifoReplay_append_of_neutral (by simp [fifoStep]))

/-- `thread_context_switch` leaves the queue as it is. -/
theorem threadContextSwitch {c n : Word} (h : RunQueueIs im k q) :
    RunQueueIs im (threadContextSwitch im c n k) q :=
  h.congr (fun _ _ => rfl) rfl (fifoReplay_append_of_neutral (by simp [fifoStep]))

end RunQueueIs

/-- The current thread is not queued again when it is the idle thread or not ready. -/
theorem requeued_of_leave {c n : Word} (h : c = k.idleThread ∨ (k.threads c).ready = false) :
    requeued im c n k = threadSetCurrent n k := by
  rcases h with h | h
  · simp [requeued, threadIsIdle, threadSetCurrent, h]
  · simp [requeued, threadSetCurrent, h]

/-- The current thread is queued again when it is ready and not the idle thread. -/
theorem requeued_of_ready {c n : Word} (hc : c ≠ k.idleThread) (h : (k.threads c).ready = true) :
    requeued im c n k = threadRunQueueAdd im c (threadSetCurrent n k) := by
  simp [requeued, threadIsIdle, threadSetCurrent, h, hc]

/-- Queueing a thread again does not touch the heap, the `struct thread`s and the machine. -/
@[simp] theorem requeued_heap {c n : Word} : (requeued im c n k).heap = k.heap := by
  rw [requeued]
  split <;> rfl

@[simp] theorem requeued_threads {c n : Word} : (requeued im c n k).threads = k.threads := by
  rw [requeued]
  split <;> rfl

@[simp] theorem requeued_machine {c n : Word} : (requeued im c n k).machine = k.machine := by
  rw [requeued]
  split <;> rfl

/-- `thread_context_switch` does not change who is ready. -/
@[simp] theorem ready_threadContextSwitch {c n : Word} :
    ((threadContextSwitch im c n k).threads t).ready = (k.threads t).ready := by
  by_cases h : t = c
  · subst h
    simp [threadContextSwitch]
  · simp [threadContextSwitch, h]

end Storm
