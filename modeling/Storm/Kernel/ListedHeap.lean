import Storm.Kernel.HeapList
import Storm.Kernel.Runs

/-! # The threads on the linked heap

The system of the scheduler is stated over any heap with the interface of `heap.h`. On the heap as
`heap.c` has it in memory, with the links and headers of `Storm.Kernel.HeapList`, it runs as on the
heap of `Storm.Kernel.Heap`: a run of the one is a run of the other, in which the heap represents
that of the other and all else is equal (`System.runs_on_list`).

The kernel looks at its heap only through `heap_malloc` and `heap_free`, so that nothing but the
allocation of a thread has to be compared (`System.exec_withHeap`). -/

namespace Storm

open ByteMemory I386 Transition

/-- The heap interface of the kernel on the list at `head`. There is no heap left when a loop has not
ended after `fuel` turns. -/
def listedHeap (head : Word) (fuel : ℕ) : Allocator (Option HeapMemory) where
  malloc size m :=
    match m.bind (HeapMemory.malloc head fuel size) with
    | none => (null, none)
    | some (ptr, m) => (ptr, some m)
  free ptr m := m.bind (HeapMemory.free head fuel ptr)

/-! ## Another heap for the kernel -/

section WithHeap

variable {H H' : Type} {im : Image} {heap : H'}

/-- The kernel with another heap. -/
def Kernel.withHeap (heap : H') (k : Kernel H) : Kernel H' := { k with heap }

/-- The system with another heap. -/
def System.withHeap (heap : H') (s : System H) : System H' :=
  { s with kernel := s.kernel.withHeap heap }

/-- The scheduler does not look at the heap. -/
theorem threadGetNext_withHeap (k : Kernel H) : threadGetNext im (k.withHeap heap) =
    (threadGetNext im k).map fun r => (r.1, r.2.withHeap heap) := by
  have hempty : threadRunQueueEmpty (k.withHeap heap) = threadRunQueueEmpty k := rfl
  rw [threadGetNext, threadGetNext, hempty]
  cases hq : threadRunQueueEmpty k with
  | true => rfl
  | false =>
      simp only [threadRunQueuePop, hempty, hq, Bool.not_false, assert_true, Bool.false_eq_true,
        if_false, bind, Except.bind, pure, Except.pure, Except.map]
      rfl

/-- What the scheduler computes, it computes on any heap. -/
theorem requeued_withHeap (current next : Word) (k : Kernel H) :
    requeued im current next (k.withHeap heap) = (requeued im current next k).withHeap heap := by
  have hcond : (!threadIsIdle current (threadSetCurrent next (k.withHeap heap)) &&
      ((threadSetCurrent next (k.withHeap heap)).threads current).ready) =
        (!threadIsIdle current (threadSetCurrent next k) &&
          ((threadSetCurrent next k).threads current).ready) := rfl
  unfold requeued
  dsimp only
  rw [hcond]
  split <;> rfl

theorem threadReschedule_withHeap (k : Kernel H) : threadReschedule im (k.withHeap heap) =
    (threadReschedule im k).map (Kernel.withHeap heap) := by
  cases h : threadGetNext im k with
  | error e => simp [threadReschedule, threadGetNext_withHeap, h, bind, Except.bind, Except.map]
  | ok r =>
      have hk : threadReschedule im k = .ok (threadContextSwitch im k.currentThread r.1
          (requeued im k.currentThread r.1 r.2)) :=
        threadReschedule_eq_ok.mpr ⟨r.1, r.2, h, rfl⟩
      rw [hk]
      refine threadReschedule_eq_ok.mpr ⟨r.1, r.2.withHeap heap, ?_, ?_⟩
      · rw [threadGetNext_withHeap, h]
        rfl
      · rw [requeued_withHeap]
        rfl

theorem threadStartScheduler_withHeap (k : Kernel H) : threadStartScheduler im (k.withHeap heap) =
    (threadStartScheduler im k).map (Kernel.withHeap heap) := by
  rw [threadStartScheduler, threadStartScheduler, threadGetNext_withHeap]
  cases threadGetNext im k with
  | error e => rfl
  | ok r => rfl

theorem arrive_withHeap (s : System H) :
    (s.withHeap heap).arrive im = (s.arrive im).withHeap heap := by
  have hmachine : (s.withHeap heap).kernel.machine = s.kernel.machine := rfl
  unfold System.arrive
  dsimp only
  rw [hmachine]
  split
  · rfl
  · split <;> rfl

/-- A call of the scheduler, and the arrival in the thread that it has dispatched. -/
theorem bind_withHeap {x : Except String (Kernel H)} {f : Kernel H → System H}
    {f' : Kernel H' → System H'} (hf : ∀ k, f' (k.withHeap heap) = (f k).withHeap heap) :
    (do let k ← x.map (Kernel.withHeap heap); return f' k) =
      (do let k ← x; return f k : Except String (System H)).map (System.withHeap heap) := by
  cases x with
  | error e => rfl
  | ok k => exact congrArg Except.ok (hf k)

namespace System

variable {al : Allocator H} {al' : Allocator H'} {s : System H}

/-- **Without an allocation** an action does the same on any heap. -/
theorem exec_withHeap {a : Action} (ha : a.creates = false) :
    (s.withHeap heap).exec im al' a = (s.exec im al a).map (System.withHeap heap) := by
  have hkernel : (s.withHeap heap).kernel = s.kernel.withHeap heap := rfl
  cases a with
  | create name fn arg => exact absurd ha (Bool.false_ne_true ∘ Eq.symm)
  | start =>
      rw [exec, exec, hkernel, threadStartScheduler_withHeap]
      exact bind_withHeap fun k => arrive_withHeap { s with kernel := k, started := true }
  | reschedule =>
      rw [exec, exec, hkernel, threadReschedule_withHeap]
      exact bind_withHeap fun k => arrive_withHeap { s with kernel := k }
  | exit =>
      have hleave (current : Word) : threadMainLeave im current (s.kernel.withHeap heap) =
          (threadMainLeave im current s.kernel).map (Kernel.withHeap heap) :=
        threadReschedule_withHeap (finished current s.kernel)
      rw [exec, exec, hkernel, hleave]
      exact bind_withHeap fun k => arrive_withHeap { s with kernel := k }
  | compute m => rfl

/-- **With an allocation** it does the same when both heaps give the same memory. -/
theorem exec_create_withHeap {name fn arg : Word} {r : Option (Word × Word)} {h : H} {heap' : H'}
    (halloc : threadAllocate al s.kernel.heap = (r, h))
    (halloc' : threadAllocate al' heap = (r, heap')) :
    (s.withHeap heap).exec im al' (.create name fn arg) =
      (s.exec im al (.create name fn arg)).map (System.withHeap heap') := by
  have hheap : (s.withHeap heap).kernel.heap = heap := rfl
  rw [exec, exec, hheap, threadCreate, threadCreate, hheap, halloc, halloc']
  cases r with
  | none => rfl
  | some r => rfl

/-- The heap afterwards. -/
theorem heap_exec {a : Action} {s' : System H} (h : s.exec im al a = .ok s') :
    s'.kernel.heap =
      if a.creates then (threadAllocate al s.kernel.heap).2 else s.kernel.heap := by
  -- the state is the one with its own heap
  cases hcreates : a.creates with
  | true =>
      obtain ⟨name, fn, arg, rfl⟩ : ∃ name fn arg, a = .create name fn arg := by
        cases a with
        | create name fn arg => exact ⟨name, fn, arg, rfl⟩
        | start | reschedule | exit | compute => exact absurd hcreates Bool.false_ne_true
      have hmap : s.exec im al (.create name fn arg) = (s.exec im al (.create name fn arg)).map
          (System.withHeap (threadAllocate al s.kernel.heap).2) := exec_create_withHeap rfl rfl
      rw [h, Except.map] at hmap
      have hheap := congrArg (fun t : System H => t.kernel.heap) (Except.ok.inj hmap)
      exact hheap
  | false =>
      have hmap : s.exec im al a = (s.exec im al a).map (System.withHeap s.kernel.heap) :=
        exec_withHeap hcreates
      rw [h, Except.map] at hmap
      have hheap := congrArg (fun t : System H => t.kernel.heap) (Except.ok.inj hmap)
      exact hheap

/-- After `thread_init`, when both heaps have given the same memory. -/
theorem boot_withHeap {machine : Machine} {r : Option (Word × Word)} {h₀ h : H} {heap' : H'}
    (halloc : threadAllocate al h₀ = (r, h)) (halloc' : threadAllocate al' heap = (r, heap')) :
    boot im al' heap machine = (boot im al h₀ machine).withHeap heap' := by
  have hinit (G : Type) (al : Allocator G) (h₀ h : G) (halloc : threadAllocate al h₀ = (r, h)) :
      threadAllocate al (Kernel.initial h₀ machine).heap = (r, h) := halloc
  rw [boot, boot, threadInit, threadInit, idleThreadCreate, idleThreadCreate, hinit _ _ _ _ halloc,
    hinit _ _ _ _ halloc', halloc, halloc']
  cases r with
  | none => rfl
  | some r => rfl

end System

end WithHeap

/-! ## The memory of a thread -/

section Allocate

variable {head : Word} {fuel : ℕ} {m : HeapMemory} {h : Heap}

/-- A call of `heap_malloc` that fails leaves the heap as it is. -/
theorem heapMalloc_null {size : Word} (hnull : (heapMalloc size h).1 = null) :
    (heapMalloc size h).2 = h := by
  obtain heq | ⟨before, blk, after, -, -, -, hptr, heq | ⟨-, heq⟩⟩ := heapMalloc_cases size h
  · rw [heq]
  · rw [heq] at hnull
    exact absurd hnull hptr
  · rw [heq] at hnull
    exact absurd hnull hptr

/-- `heap_malloc` on an empty list. -/
theorem malloc_listedHeap_nil (hr : HeapMemory.Represents head m h) (hfuel : 2 < fuel)
    (hs : h.freeList = []) (size : Word) :
    ∃ m', (listedHeap head fuel).malloc size (some m) = (null, some m') ∧
      HeapMemory.Represents head m' h := by
  obtain ⟨m', hm', hr'⟩ := HeapMemory.malloc_refines hr size (by simp [hs])
  rw [heapMalloc_of_nil hs] at hr'
  refine ⟨m', ?_, hr'⟩
  have hlength : h.freeList.length < fuel := by
    rw [hs, List.length_nil]
    omega
  simp only [listedHeap, Option.bind_some, hm' fuel hlength, heapMalloc_of_nil hs]

/-- `heap_malloc` on a list of one block. -/
theorem malloc_listedHeap_single (hr : HeapMemory.Represents head m h) (hfuel : 2 < fuel)
    {a z size rest : Word} (hs : h.Single a z) (halign : alignUp size sizeofPtr = size)
    (hrest : a + allocHeaderSz + size = rest) (hblk : rest ≠ a)
    (hhead : size.toNat + minAllocSz.toNat ≤ z.toNat → rest ≠ head) :
    ∃ m', (listedHeap head fuel).malloc size (some m) = ((heapMalloc size h).1, some m') ∧
      HeapMemory.Represents head m' (heapMalloc size h).2 := by
  obtain ⟨m', hm', hr'⟩ := HeapMemory.malloc_refines hr size fun blk hmem hle hsplit => by
    rw [hs.1, List.mem_singleton] at hmem
    rw [hmem, hs.2, halign] at hle hsplit
    rw [hmem, hs.1, halign, hrest, List.mem_cons, List.mem_singleton]
    rintro (heq | heq)
    · exact hhead (by bv_omega) heq
    · exact hblk heq
  refine ⟨m', ?_, hr'⟩
  have hlength : h.freeList.length < fuel := by
    rw [hs.1, List.length_singleton]
    omega
  simp only [listedHeap, Option.bind_some, hm' fuel hlength]

/-- `heap_free` on a list of one block, of another block. -/
theorem free_listedHeap_single (hr : HeapMemory.Represents head m h) (hfuel : 2 < fuel)
    {a z blk : Word} (hs : h.Single a z) (ha : a ≠ null) (hblk : blk ≠ null) (hhead : blk ≠ head)
    (hne : blk ≠ a) :
    ∃ m', (listedHeap head fuel).free (blk + allocHeaderSz) (some m) = some m' ∧
      HeapMemory.Represents head m' (heapFree (blk + allocHeaderSz) h) := by
  have hptr : blk + allocHeaderSz - allocHeaderSz = blk := add_sub_cancel_right blk allocHeaderSz
  have hmem : blk + allocHeaderSz - allocHeaderSz ∉ head :: h.freeList := by
    rw [hptr, hs.1]
    simp [hhead, hne]
  have hnull : null ∉ h.freeList := by
    rw [hs.1, List.mem_singleton]
    exact ha.symm
  obtain ⟨m', hm', hr'⟩ := HeapMemory.free_refines hr hmem hnull (by rwa [hptr])
  refine ⟨m', hm' fuel ?_, hr'⟩
  rw [hs.1, List.length_singleton]
  exact hfuel

/-- `heap_free(NULL)` does nothing. -/
@[simp] theorem free_null_listedHeap : (listedHeap head fuel).free null (some m) = some m := by
  simp [listedHeap, HeapMemory.free]

/-- There is no free block, or a single one, and the header of the list is not where a rest of it
begins when a thread is allocated. -/
def Heap.AwayFrom (head : Word) (h : Heap) : Prop :=
  h.freeList = [] ∨ ∃ a z, h.Single a z ∧ a ≠ null ∧ a.toNat + 52 < 2 ^ 32 ∧ 72 ≤ z.toNat ∧
    a + 40 ≠ head ∧ (4180 ≤ z.toNat → a + 4148 ≠ head)

/-- **The allocation of a thread on the list** gives what it gives on the sequence of blocks. -/
theorem threadAllocate_listedHeap (hr : HeapMemory.Represents head m h) (hfuel : 2 < fuel)
    (haway : h.AwayFrom head) :
    ∃ m', threadAllocate (listedHeap head fuel) (some m) =
        ((threadAllocate kernelHeap h).1, some m') ∧
      HeapMemory.Represents head m' (threadAllocate kernelHeap h).2 := by
  rcases haway with hnil | ⟨a, z, hs, hnull, ha, hz, hhead, hhead'⟩
  · obtain ⟨m', hm', hr'⟩ := malloc_listedHeap_nil hr hfuel hnil sizeofThread
    rw [threadAllocate_of_nil hnil]
    refine ⟨m', ?_, hr'⟩
    simp only [threadAllocate, hm', if_true, free_null_listedHeap]
  · obtain ⟨h₁, hmalloc, hs₁, -⟩ := heapMalloc_sizeofThread hs ha hz
    have hthread : a + 12 ≠ null := by simp only [null]; bv_omega
    have hrest : a + allocHeaderSz + sizeofThread = a + 40 := by
      simp only [allocHeaderSz, sizeofThread]
      bv_omega
    have hrest₁ : a + 40 + allocHeaderSz + threadDefaultStackSize = a + 4148 := by
      simp only [allocHeaderSz, threadDefaultStackSize]
      bv_omega
    -- the `struct thread`
    obtain ⟨m₁, hm₁, hr₁⟩ := malloc_listedHeap_single hr hfuel hs alignUp_sizeofThread hrest
      (by bv_omega) fun _ => hhead
    rw [hmalloc] at hm₁ hr₁
    -- the stack
    obtain ⟨m₂, hm₂, hr₂⟩ := malloc_listedHeap_single hr₁ hfuel hs₁ alignUp_threadDefaultStackSize
      hrest₁ (by bv_omega) fun hsplit => by
        simp only [threadDefaultStackSize, minAllocSz, allocHeaderSz] at hsplit
        exact hhead' (by bv_omega)
    by_cases hstack : (heapMalloc threadDefaultStackSize h₁).1 = null
    · -- the `struct thread` goes back in front of the free block
      rw [heapMalloc_null hstack] at hr₂
      have hmem : a ≠ head := by
        have hnd := hr.ring.nodup
        rw [hs.1] at hnd
        simpa [eq_comm] using hnd
      obtain ⟨m₃, hm₃, hr₃⟩ := free_listedHeap_single hr₂ hfuel hs₁
        (by simp only [null]; bv_omega) hnull hmem (by bv_omega)
      have hblocks : threadAllocate kernelHeap h = (none, heapFree (a + 12) h₁) := by
        simp only [threadAllocate, kernelHeap, hmalloc, if_neg hthread, hstack, if_true,
          heapMalloc_null hstack, heapFree_null]
      rw [hblocks]
      refine ⟨m₃, ?_, hr₃⟩
      rw [allocHeaderSz] at hm₃
      simp only [threadAllocate, hm₁, hm₂, hm₃, if_neg hthread, hstack, if_true,
        free_null_listedHeap]
    · have hblocks : threadAllocate kernelHeap h =
          (some (a + 12, (heapMalloc threadDefaultStackSize h₁).1),
            (heapMalloc threadDefaultStackSize h₁).2) := by
        simp only [threadAllocate, kernelHeap, hmalloc, if_neg hthread, if_neg hstack]
      rw [hblocks]
      refine ⟨m₂, ?_, hr₂⟩
      simp only [threadAllocate, hm₁, hm₂, if_neg hthread, if_neg hstack]

end Allocate

/-! ## The system -/

namespace System

variable {im : Image} {machine : Machine} {head : Word} {fuel : ℕ} {m : HeapMemory}

/-- A free block where a thread may be placed next. -/
theorem awayFrom_blockAt (hp : im.Placed) (hnull : im.heap ≠ null)
    (hhead : Extent.Apart ⟨head.toNat, 8⟩ ⟨im.heap.toNat, heapSize.toNat⟩) {h : Heap} {i : ℕ}
    {z : Word} (hi : i ≤ 1011) (hs : h.Single (blockAt im i) z) (hz : 72 ≤ z.toNat)
    (hlast : 4180 ≤ z.toNat → i < 1011) : h.AwayFrom head := by
  obtain ⟨hlo, hhi, -⟩ := hp.heapStart_bounds
  have hle := hp.heap_le
  have hblock := hp.toNat_blockAt hi
  simp only [Extent.Apart, Extent.hi, toNat_heapSize] at hhead
  rw [toNat_heapSize] at hle
  have hpos : im.heap.toNat ≠ 0 := fun hzero => hnull (BitVec.eq_of_toNat_eq hzero)
  -- an address inside of the heap is not that of the header
  have hne : ∀ b : Word, im.heap.toNat ≤ b.toNat → b.toNat < im.heap.toNat + 4194304 → b ≠ head := by
    rintro b hb hb' rfl
    omega
  have hfit : (blockAt im i).toNat + 40 < im.heap.toNat + 4194304 := by omega
  refine Or.inr ⟨blockAt im i, z, hs, ?_, by omega, hz, hne _ ?_ ?_, fun hlarge => ?_⟩
  · intro heq
    rw [heq] at hblock
    have hzero : null.toNat = 0 := rfl
    omega
  · bv_omega
  · bv_omega
  · have hlt := hlast hlarge
    have hnext := hp.toNat_blockAt (i := i + 1) hlt
    rw [← blockAt_succ]
    exact hne _ (by omega) (by omega)

/-- The heap after `heap_init`. -/
theorem awayFrom_heapInit (hp : im.Placed) (hnull : im.heap ≠ null)
    (hhead : Extent.Apart ⟨head.toNat, 8⟩ ⟨im.heap.toNat, heapSize.toNat⟩) :
    (heapInit im.heap Heap.initial).AwayFrom head := by
  obtain ⟨hlo, hhi, hroom⟩ := hp.heapStart_bounds
  have hle := hp.heap_le
  rw [toNat_heapSize] at hle
  refine awayFrom_blockAt hp hnull hhead (Nat.zero_le _) (heapInit_single hp) ?_ (by omega)
  rw [BitVec.toNat_ofNat, Nat.mod_eq_of_lt] <;> omega

/-- The heap after any number of calls of `thread_create`. -/
theorem awayFrom_heapAfter (hp : im.Placed) (hnull : im.heap ≠ null)
    (hhead : Extent.Apart ⟨head.toNat, 8⟩ ⟨im.heap.toNat, heapSize.toNat⟩) {h : Heap} {n live : ℕ}
    (ha : HeapAfter im n live h) : h.AwayFrom head := by
  obtain ⟨hlo, hhi, hroom⟩ := hp.heapStart_bounds
  have hle := hp.heap_le
  rw [toNat_heapSize] at hle
  cases ha with
  | filling hn hs =>
      have hsize : (BitVec.ofNat 32 (heapRoom im - 4148 * (n + 1))).toNat =
          heapRoom im - 4148 * (n + 1) := by
        rw [BitVec.toNat_ofNat, Nat.mod_eq_of_lt]
        omega
      exact awayFrom_blockAt hp hnull hhead (by omega) hs (by omega) (by omega)
  | growing hn hz hs =>
      have hsize : (BitVec.ofNat 32 (heapRoom im - 4193628 + 4 * (n - 1010))).toNat =
          heapRoom im - 4193628 + 4 * (n - 1010) := by
        rw [BitVec.toNat_ofNat, Nat.mod_eq_of_lt]
        omega
      exact awayFrom_blockAt hp hnull hhead le_rfl hs (by omega) (by omega)
  | full hn hs => exact Or.inl hs

variable {s s' : System Heap}

/-- **An action on the list** is the action on the sequence of blocks. -/
theorem exec_listedHeap (haway : s.kernel.heap.AwayFrom head) (hfuel : 2 < fuel)
    (hr : HeapMemory.Represents head m s.kernel.heap) (a : Action) :
    ∃ m', (s.withHeap (some m)).exec im (listedHeap head fuel) a =
        (s.exec im kernelHeap a).map (System.withHeap (some m')) ∧
      ∀ s', s.exec im kernelHeap a = .ok s' → HeapMemory.Represents head m' s'.kernel.heap := by
  cases hcreates : a.creates with
  | true =>
      obtain ⟨m', halloc, hr'⟩ := threadAllocate_listedHeap hr hfuel haway
      refine ⟨m', ?_, fun s' hs' => ?_⟩
      · cases a with
        | create name fn arg => exact exec_create_withHeap rfl halloc
        | start | reschedule | exit | compute => exact absurd hcreates Bool.false_ne_true
      · rw [heap_exec hs', if_pos hcreates]
        exact hr'
  | false =>
      refine ⟨m, exec_withHeap hcreates, fun s' hs' => ?_⟩
      rw [heap_exec hs', if_neg (by rw [hcreates]; exact Bool.false_ne_true)]
      exact hr

/-- When an action can happen does not depend on the heap. -/
theorem enabled_withHeap {H H' : Type} {s : System H} {heap : H'} {a : Action} :
    (s.withHeap heap).Enabled a ↔ s.Enabled a := by
  cases a <;> exact Iff.rfl

/-- The system on the list, after `heap_init` and `thread_init`. -/
def bootListed (im : Image) (head : Word) (fuel : ℕ) (links : Lists) (machine : Machine) :
    System (Option HeapMemory) :=
  boot im (listedHeap head fuel) (some (HeapMemory.initial head im.heap links)) machine

/-- After the same actions the system on the list is in the state `t` and that on the blocks in the
state `s`: the list holds the free blocks in their order, and all but the heap is equal. -/
structure OnList (im : Image) (machine : Machine) (head : Word) (acts : List Action)
    (t : System (Option HeapMemory)) (s : System Heap) : Prop where
  reachable : Reachable im machine acts s
  heap : ∃ m, HeapMemory.Represents head m s.kernel.heap ∧ t = s.withHeap (some m)

/-- After any run the heap is away from the header of the list. -/
theorem awayFrom_reachable (hp : im.Placed) (hnull : im.heap ≠ null)
    (hhead : Extent.Apart ⟨head.toNat, 8⟩ ⟨im.heap.toNat, heapSize.toNat⟩) {acts : List Action}
    (hs : Reachable im machine acts s) : s.kernel.heap.AwayFrom head := by
  obtain ⟨a, h⟩ := hs.onKernelHeap hp
  exact awayFrom_heapAfter hp hnull hhead h.heap

/-- Both give the idle thread the same memory. -/
theorem OnList.boot (hp : im.Placed) (hnull : im.heap ≠ null)
    (hhead : Extent.Apart ⟨head.toNat, 8⟩ ⟨im.heap.toNat, heapSize.toNat⟩) (hfuel : 2 < fuel)
    (links : Lists) (machine : Machine) :
    OnList im machine head [] (bootListed im head fuel links machine) (bootKernel im machine) := by
  have hinit := (HeapMemory.refines_initial links hp.heap_le hnull hhead).represents
  obtain ⟨m, halloc, hr⟩ := threadAllocate_listedHeap hinit hfuel
    (awayFrom_heapInit hp hnull hhead)
  refine ⟨.nil im machine, m, ?_, boot_withHeap rfl halloc⟩
  have hself : bootKernel im machine = (bootKernel im machine).withHeap
      (threadAllocate kernelHeap (heapInit im.heap Heap.initial)).2 := boot_withHeap rfl rfl
  rw [hself]
  exact hr

section Steps

variable {t t' : System (Option HeapMemory)} {acts : List Action} {a : Action}

/-- A step on the list is one on the blocks. -/
theorem OnList.step (hp : im.Placed) (hnull : im.heap ≠ null)
    (hhead : Extent.Apart ⟨head.toNat, 8⟩ ⟨im.heap.toNat, heapSize.toNat⟩) (hfuel : 2 < fuel)
    (h : OnList im machine head acts t s) (hstep : Step im (listedHeap head fuel) t a t') :
    ∃ s', Step im kernelHeap s a s' ∧ OnList im machine head (acts ++ [a]) t' s' := by
  obtain ⟨hs, m, hr, rfl⟩ := h
  obtain ⟨hen, hexec⟩ := hstep
  rw [enabled_withHeap] at hen
  obtain ⟨s', hexec'⟩ := hs.exec_ok hp hen
  obtain ⟨m', hsame, hkeep⟩ := exec_listedHeap (awayFrom_reachable hp hnull hhead hs) hfuel hr a
  rw [hsame, hexec'] at hexec
  obtain rfl := Except.ok.inj hexec
  exact ⟨s', ⟨hen, hexec'⟩, Run.snoc hs ⟨hen, hexec'⟩, m', hkeep s' hexec', rfl⟩

/-- A step on the blocks is one on the list. -/
theorem OnList.step_blocks (hp : im.Placed) (hnull : im.heap ≠ null)
    (hhead : Extent.Apart ⟨head.toNat, 8⟩ ⟨im.heap.toNat, heapSize.toNat⟩) (hfuel : 2 < fuel)
    (h : OnList im machine head acts t s) (hstep : Step im kernelHeap s a s') :
    ∃ t', Step im (listedHeap head fuel) t a t' ∧ OnList im machine head (acts ++ [a]) t' s' := by
  obtain ⟨hs, m, hr, rfl⟩ := h
  obtain ⟨m', hsame, hkeep⟩ := exec_listedHeap (awayFrom_reachable hp hnull hhead hs) hfuel hr a
  refine ⟨s'.withHeap (some m'), ⟨enabled_withHeap.mpr hstep.1, ?_⟩, Run.snoc hs hstep, m',
    hkeep s' hstep.2, rfl⟩
  rw [hsame, hstep.2]
  rfl

end Steps

/-- **The kernel runs on its linked heap** as on the sequence of blocks, in both directions. As long
as their loops may take three turns, they end. -/
theorem runs_on_list (hp : im.Placed) (hnull : im.heap ≠ null)
    (hhead : Extent.Apart ⟨head.toNat, 8⟩ ⟨im.heap.toNat, heapSize.toNat⟩) (hfuel : 2 < fuel)
    (links : Lists) (machine : Machine) (acts : List Action) :
    (∀ t, Run (Step im (listedHeap head fuel)) (bootListed im head fuel links machine) acts t →
      ∃ s, OnList im machine head acts t s) ∧
    ∀ s, Reachable im machine acts s →
      ∃ t, Run (Step im (listedHeap head fuel)) (bootListed im head fuel links machine) acts t ∧
        OnList im machine head acts t s := by
  have hboot := OnList.boot hp hnull hhead hfuel links machine
  constructor
  · intro t hrun
    obtain ⟨s, -, h⟩ := hrun.simulate (R := OnList im machine head) []
      (fun _ _ _ _ _ h hstep => h.step hp hnull hhead hfuel hstep) hboot
    exact ⟨s, h⟩
  · intro s hrun
    exact Run.simulate (R := fun acts s t => OnList im machine head acts t s) []
      (fun _ _ _ _ _ h hstep => h.step_blocks hp hnull hhead hfuel hstep) hboot hrun

/-- The header of `linkedImage`'s list is behind the boot stack. -/
theorem runs_on_list_linkedImage :
    (∀ t, Run (Step linkedImage (listedHeap 0x10e000 3))
        (bootListed linkedImage 0x10e000 3 (fun _ => ⟨0, 0⟩) bootMachine) [.create 1 2 3, .start] t →
      ∃ s, OnList linkedImage bootMachine 0x10e000 [.create 1 2 3, .start] t s) ∧
    ∀ s, Reachable linkedImage bootMachine [.create 1 2 3, .start] s →
      ∃ t, Run (Step linkedImage (listedHeap 0x10e000 3))
          (bootListed linkedImage 0x10e000 3 (fun _ => ⟨0, 0⟩) bootMachine)
          [.create 1 2 3, .start] t ∧
        OnList linkedImage bootMachine 0x10e000 [.create 1 2 3, .start] t s :=
  runs_on_list linkedImage_placed (by decide) (by decide) (by decide) (fun _ => ⟨0, 0⟩) bootMachine
    [.create 1 2 3, .start]

end System

end Storm
