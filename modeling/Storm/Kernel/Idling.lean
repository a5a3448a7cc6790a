import Storm.Kernel.Runs

/-! # When the idle thread runs

The idle thread halts the processor until an interrupt. It should be dispatched only when there is
nothing else to do: when no other thread is ready, the one that calls `thread_reschedule` included.

`thread_reschedule` takes the next thread from the run queue before it puts the calling thread back.
When a thread yields and nobody else waits, the queue is still empty, and the idle thread is
dispatched in spite of the ready caller. The main result, `idles_rightly_iff`, says that this is the
only such case. -/

namespace Storm

open ByteMemory I386 Transition

/-- The actions that dispatch a thread. -/
def Action.dispatches : Action → Bool
  | .start | .reschedule | .exit => true
  | .create .. | .compute _ => false

namespace System

/-- A step dispatches the idle thread only if, afterwards, no other thread is ready. -/
def IdlesRightly (_ : System Heap) (act : Action) (s' : System Heap) : Prop :=
  act.dispatches → s'.kernel.currentThread = s'.idle.thread →
    ∀ c ∈ s'.created, (s'.kernel.threads c.thread).ready = false

/-- `thread_reschedule` is called by a thread, not the idle one, while the run queue is empty. -/
def YieldsAlone (s : System Heap) (act : Action) : Prop :=
  act = .reschedule ∧ s.kernel.currentThread ≠ s.kernel.idleThread ∧
    threadRunQueueEmpty s.kernel = true

variable {im : Image} {machine : Machine} {n : ℕ} {s s' : System Heap}
  {a a' : RoundRobin.State Word} {act : Action} {l : RoundRobin.Label Word}

/-- The created threads other than the idle one are queued, run or have exited. -/
theorem Represents.created_cases (h : s.Represents im a) {c : Creation} (hc : c ∈ s.created) :
    c.thread ≠ a.idle ∧ (c.thread ∈ a.queue ∨ a.current = some c.thread ∨ c.thread ∈ a.exited) := by
  have hidle : c.thread ≠ a.idle := by
    have hnd := h.nodup
    rw [threads, List.map_cons, List.nodup_cons] at hnd
    rw [h.idle_eq]
    exact fun heq => hnd.1 (heq ▸ List.mem_map_of_mem hc)
  refine ⟨hidle, ?_⟩
  exact ((h.known _).mpr (List.mem_map_of_mem (List.mem_cons_of_mem _ hc))).resolve_left hidle

/-- **A dispatch** is right about idling when, if nobody waited, all other threads have exited. -/
theorem idlesRightly_iff (h : s.Represents im a) (h' : s'.Represents im a')
    (hstep : RoundRobin.Step a l a') (hl : l.dispatches) (hact : act.dispatches) :
    IdlesRightly s act s' ↔ (a.queue = [] → ∀ c ∈ s'.created, c.thread ∈ a'.exited) := by
  have hcur : a'.current = some a.next := by
    rw [hstep.current_eq, if_pos hl]
  have hidle : s'.kernel.currentThread = s'.idle.thread ↔ a.queue = [] := by
    rw [← h'.idle_eq, hstep.idle_eq, h'.kernel.current _ hcur]
    exact h.valid.next_eq_idle_iff
  have hready : ∀ c ∈ s'.created,
      (s'.kernel.threads c.thread).ready = false ↔ c.thread ∈ a'.exited := by
    intro c hc
    have hmem := List.mem_map_of_mem (f := Creation.thread) (List.mem_cons_of_mem s'.idle hc)
    rw [← Bool.not_eq_true, h'.kernel.ready _ hmem, not_not]
  unfold IdlesRightly
  rw [hidle]
  constructor
  · intro hright hq c hc
    exact (hready c hc).mp (hright hact hq c hc)
  · intro hexited _ hq c hc
    exact (hready c hc).mpr (hexited hq c hc)

/-- When the idle thread runs and nobody waits, all other threads have exited. -/
theorem Represents.exited_of_idle (h : s.Represents im a) (hq : a.queue = [])
    (hcur : a.current = some a.idle) : ∀ c ∈ s.created, c.thread ∈ a.exited := by
  intro c hc
  obtain ⟨hidle, hqueued | hrunning | hexited⟩ := h.created_cases hc
  · rw [hq] at hqueued
    cases hqueued
  · rw [hcur] at hrunning
    exact absurd (Option.some.inj hrunning).symm hidle
  · exact hexited

/-- **Every step** is right about idling unless a thread yields alone. -/
theorem OnKernelHeap.idlesRightly_iff (h : s.OnKernelHeap im n a)
    (hstep : Step im kernelHeap s act s') : IdlesRightly s act s' ↔ ¬ s.YieldsAlone act := by
  have hrep := h.represents
  have hnext : a.queue = [] → some a.next = some a.idle := fun hq =>
    congrArg some (hrep.valid.next_eq_idle_iff.mpr hq)
  obtain ⟨hen, hexec⟩ := hstep
  cases act with
  | create name fn arg => exact iff_of_true (fun hd => by cases hd) fun hy => by cases hy.1
  | compute m => exact iff_of_true (fun hd => by cases hd) fun hy => by cases hy.1
  | start =>
      obtain ⟨s₁, hexec₁, hrr, hrep', -, -⟩ := hrep.exec_start kernelHeap hen
      obtain rfl : s₁ = s' := Except.ok.inj (hexec₁.symm.trans hexec)
      rw [System.idlesRightly_iff hrep hrep' hrr rfl rfl]
      refine iff_of_true (fun hq => ?_) fun hy => by cases hy.1
      exact hrep'.exited_of_idle (by rw [RoundRobin.State.dispatch, hq]; rfl) (hnext hq)
  | reschedule =>
      obtain ⟨s₁, hexec₁, hrr, hrep', -, hts⟩ := hrep.exec_reschedule kernelHeap hen
      obtain rfl : s₁ = s' := Except.ok.inj (hexec₁.symm.trans hexec)
      rw [System.idlesRightly_iff hrep hrep' hrr rfl rfl, YieldsAlone,
        hrep.kernel.queue.threadRunQueueEmpty_iff, hrep.kernel.idleThread]
      by_cases hq : a.queue = []
      · by_cases hidle : s.kernel.currentThread = a.idle
        -- the idle thread goes on, as nobody else waits
        · refine iff_of_true (fun _ => ?_) fun hy => hy.2.1 hidle
          refine hrep'.exited_of_idle ?_ (hnext hq)
          simp [RoundRobin.State.requeue, RoundRobin.State.dispatch, hq, hidle]
        · -- the caller is ready, but the idle thread was taken before it was queued again
          refine iff_of_false (fun hexited => ?_) fun hy => hy ⟨rfl, hidle, hq⟩
          have hcur := hrep.current_eq hen
          obtain ⟨c, hc, hthread⟩ := List.mem_map.mp (hrep.current_mem hcur)
          rw [← hts] at hc
          -- the caller is a created thread that has not exited
          rcases List.mem_cons.mp hc with rfl | hc
          · exact hidle (hthread.symm.trans (hrep'.idle_eq.symm.trans hrr.idle_eq))
          · refine hrep.valid.current_exited _ hcur ?_
            rw [← hthread]
            exact hexited hq c hc
      -- somebody waits, and is dispatched
      · exact iff_of_true (fun hq' => absurd hq' hq) fun hy => hq hy.2.2
  | exit =>
      obtain ⟨s₁, hexec₁, hrr, hrep', -, -⟩ := hrep.exec_exit kernelHeap hen
      obtain rfl : s₁ = s' := Except.ok.inj (hexec₁.symm.trans hexec)
      rw [System.idlesRightly_iff hrep hrep' hrr rfl rfl]
      refine iff_of_true (fun hq => ?_) fun hy => by cases hy.1
      exact hrep'.exited_of_idle (by rw [RoundRobin.State.dispatch, hq]; rfl) (hnext hq)

/-- **The scheduler idles only when there is nothing to do**, in every dispatch of a run, exactly
when no thread in the run yields while the run queue is empty. -/
theorem idles_rightly_iff (hp : im.Placed) (machine : Machine) (acts : List Action) :
    EveryStep (Step im kernelHeap) IdlesRightly (bootKernel im machine) acts ↔
      EveryStep (Step im kernelHeap) (fun s act _ => ¬ s.YieldsAlone act) (bootKernel im machine)
        acts := by
  refine EveryStep.congr (I := fun s => ∃ n a, s.OnKernelHeap im n a) ?_
    ⟨0, _, OnKernelHeap.boot hp machine⟩ ?_
  · rintro s act s' ⟨n, a, h⟩ hstep
    obtain ⟨bs, a', -, h', -⟩ := h.step hp hstep
    exact ⟨_, a', h'⟩
  · rintro s act s' ⟨n, a, h⟩ hstep
    exact h.idlesRightly_iff hstep

theorem idles_rightly_iff_linkedImage :
    EveryStep (Step linkedImage kernelHeap) IdlesRightly (bootKernel linkedImage bootMachine)
        [.create 1 2 3, .start, .exit] ↔
      EveryStep (Step linkedImage kernelHeap) (fun s act _ => ¬ s.YieldsAlone act)
        (bootKernel linkedImage bootMachine) [.create 1 2 3, .start, .exit] :=
  idles_rightly_iff linkedImage_placed bootMachine _

/-- In a run that creates one thread and starts the scheduler, this thread is alone. -/
theorem yieldsAlone_of_create_start {name fn arg : Word} (hp : im.Placed)
    (hrun : Run (Step im kernelHeap) (bootKernel im machine) [.create name fn arg, .start] s) :
    s.YieldsAlone .reschedule := by
  obtain ⟨s₁, hcreate, hstart⟩ := Run.cons_iff.mp hrun
  rw [Run.singleton_iff] at hstart
  have hboot := OnKernelHeap.boot hp machine
  have hone : (bootKernel im machine).threads.length = 1 := hboot.heap.live_eq (by decide)
  obtain ⟨heap, halloc, -⟩ | ⟨heap, -, hheap⟩ := hboot.heap.threadAllocate hp
  · obtain ⟨s₁', hexec₁, -, hrep₁, -⟩ := hboot.represents.exec_create_some name fn arg halloc
      (hboot.unused hp (by rw [hone]; decide))
    obtain rfl : s₁' = s₁ := Except.ok.inj (hexec₁.symm.trans hcreate.2)
    obtain ⟨s', hexec, -, hrep, -⟩ := hrep₁.exec_start kernelHeap hstart.1
    obtain rfl : s' = s := Except.ok.inj (hexec.symm.trans hstart.2)
    refine ⟨rfl, ?_, hrep.kernel.queue.threadRunQueueEmpty_iff.mpr rfl⟩
    rw [hrep.kernel.current _ rfl, hrep.kernel.idleThread]
    exact fun heq => hrep₁.valid.idle_queue (heq ▸ List.mem_singleton_self _)
  · have htwo := hheap.live_eq (by decide)
    rw [hone] at htwo
    cases htwo

/-- **The idle thread runs instead of the only thread**, which yields. -/
theorem not_idlesRightly_linkedImage :
    ¬ EveryStep (Step linkedImage kernelHeap) IdlesRightly (bootKernel linkedImage bootMachine)
      [.create 1 2 3, .start, .reschedule] := by
  have hp := linkedImage_placed
  obtain ⟨s₁, hstep₁, hrun₁⟩ := (Reachable.nil linkedImage bootMachine).snoc hp (.create 1 2 3)
    trivial
  obtain ⟨s₂, -, hrun₂, hs₂⟩ := hrun₁.start hp (by obtain rfl := exec_create.mp hstep₁.2; rfl)
  obtain ⟨s₃, hstep₃, -⟩ := hrun₂.snoc hp .reschedule hs₂
  obtain ⟨a, h⟩ := hrun₂.onKernelHeap hp
  intro hevery
  have hright := hevery [.create 1 2 3, .start] .reschedule [] s₂ s₃ rfl hrun₂ hstep₃
  exact (h.idlesRightly_iff hstep₃).mp hright (yieldsAlone_of_create_start hp hrun₂)

end System

end Storm
