import Storm.Kernel.Runs

/-! # The layout of the heap

Where the threads and the free memory of the kernel heap are. `HeapSeparated` says that the
allocated and the free blocks are apart and inside of the `heap` array. That is so exactly as long
as no call of `thread_create` has failed (`heapSeparated_iff`): a failing call gives the
`struct thread` back, and `heap_defrag_free_list` merges it with the free block behind it using
`sizeofAllocNode` in place of `allocHeaderSz`. The merged block is four bytes longer than the memory
it stands for. For the same reason a failed call leaves no trace only when it fails at once, for
lack of any free block (`leavesNoTrace_iff`). -/

namespace Storm

open ByteMemory I386 Transition

/-- The memory of a thread on the heap: its `struct thread` and its stack, each with the header of
its block. -/
def threadBlocks (thread stack : Word) : List Extent :=
  [⟨(thread - allocHeaderSz).toNat, allocHeaderSz.toNat + sizeofThread.toNat⟩,
    ⟨(stack - allocHeaderSz).toNat, allocHeaderSz.toNat + threadDefaultStackSize.toNat⟩]

/-- A free block, with its header and the size recorded in it. -/
def freeExtent (b : Word × Word) : Extent := ⟨b.1.toNat, allocHeaderSz.toNat + b.2.toNat⟩

namespace System

/-- The blocks of all threads and all free blocks. -/
def blocks (s : System Heap) : List Extent :=
  (s.threads.flatMap fun c => threadBlocks c.thread c.stack) ++
    s.kernel.heap.freeBlocks.map freeExtent

/-- The blocks do not overlap and do not leave the `heap` array. -/
def HeapSeparated (im : Image) (s : System Heap) : Prop :=
  s.blocks.Pairwise Extent.Apart ∧
    ∀ e ∈ s.blocks, e.Within im.heap.toNat (im.heap.toNat + heapSize.toNat)

variable {im : Image} {machine : Machine} {n : ℕ} {acts : List Action} {s : System Heap}
  {a : RoundRobin.State Word}

/-- The blocks of the thread at position `i`. -/
theorem threadBlocks_at (hp : im.Placed) {i : ℕ} (hi : i ≤ 1011) :
    threadBlocks (threadAt im i) (stackAt im i) =
      [⟨heapStart im + 4148 * i, 40⟩, ⟨heapStart im + 4148 * i + 40, 4108⟩] := by
  obtain ⟨hlo, hhi, -⟩ := hp.heapStart_bounds
  have hle := hp.heap_le
  rw [toNat_heapSize] at hle
  have hblock := hp.toNat_blockAt hi
  have hthread : (threadAt im i - allocHeaderSz).toNat = heapStart im + 4148 * i := by
    rw [threadAt_eq, allocHeaderSz, ← hblock]
    bv_omega
  have hroom : (blockAt im i).toNat + 52 < 2 ^ 32 := by omega
  have hstack : (stackAt im i - allocHeaderSz).toNat = heapStart im + 4148 * i + 40 := by
    rw [stackAt_eq, allocHeaderSz, ← hblock]
    bv_omega
  rw [threadBlocks, hthread, hstack]
  rfl

/-- The blocks of the first `n` threads are laid out one after the other. -/
theorem threadBlocks_separated (hp : im.Placed) (hn : n ≤ 1012) :
    ((List.range n).flatMap fun i => threadBlocks (threadAt im i) (stackAt im i)).Pairwise
        Extent.Apart ∧
      ∀ e ∈ (List.range n).flatMap fun i => threadBlocks (threadAt im i) (stackAt im i),
        e.Within (heapStart im) (heapStart im + 4148 * n) := by
  have hrow := Extent.pairwise_flatMap_range (b := fun i => heapStart im + 4148 * i) (n := n)
    (f := fun i => threadBlocks (threadAt im i) (stackAt im i)) (fun i _ => by omega)
    (fun i hi => ?_) (fun i hi => ?_)
  · exact hrow.2
  · rw [threadBlocks_at hp (by omega)]
    simp [Extent.Apart, Extent.hi]
  · rw [threadBlocks_at hp (by omega)]
    simp [Extent.Within, Extent.hi]
    omega

/-- The blocks of the threads, by position. -/
theorem OnKernelHeap.blocks_eq (h : s.OnKernelHeap im n a) :
    s.blocks = ((List.range s.threads.length).flatMap fun i =>
      threadBlocks (threadAt im i) (stackAt im i)) ++ s.kernel.heap.freeBlocks.map freeExtent := by
  have := congrArg (List.flatMap fun p => threadBlocks p.1 p.2) h.threads
  rw [List.flatMap_map, List.flatMap_map] at this
  rw [blocks, this]

/-- **Up to 1010 calls** of `thread_create` the blocks fill the heap without overlap. -/
theorem OnKernelHeap.separated (hp : im.Placed) (h : s.OnKernelHeap im n a) (hn : n ≤ 1010) :
    s.HeapSeparated im := by
  obtain ⟨hlo, hhi, hroom⟩ := hp.heapStart_bounds
  have hle := hp.heap_le
  rw [toNat_heapSize] at hle
  have hblocks := h.blocks_eq
  have hheap := h.heap
  generalize hlive : s.threads.length = live at hblocks hheap
  cases hheap with
  | filling _ hs =>
      obtain ⟨hpw, hin⟩ := threadBlocks_separated hp (n := n + 1) (by omega)
      -- the free block begins behind the last thread and ends with the heap
      have hfree : s.kernel.heap.freeBlocks.map freeExtent =
          [⟨heapStart im + 4148 * (n + 1), 12 + (heapRoom im - 4148 * (n + 1))⟩] := by
        have hsize : heapRoom im - 4148 * (n + 1) < 2 ^ 32 := by omega
        rw [hs.freeBlocks, List.map_singleton, freeExtent, hp.toNat_blockAt (by omega),
          BitVec.toNat_ofNat, Nat.mod_eq_of_lt hsize]
        rfl
      have hwithin : ∀ e ∈ [(⟨heapStart im + 4148 * (n + 1),
          12 + (heapRoom im - 4148 * (n + 1))⟩ : Extent)],
          e.Within (heapStart im + 4148 * (n + 1)) (im.heap.toNat + 4194304) := by
        simp only [List.mem_singleton, forall_eq, Extent.Within, Extent.hi]
        omega
      rw [HeapSeparated, hblocks, hfree, toNat_heapSize]
      refine ⟨Extent.pairwise_append_of_split hpw (List.pairwise_singleton _ _) hin hwithin, ?_⟩
      intro e he
      rcases List.mem_append.mp he with he | he
      · have hhi' : heapStart im + 4148 * (n + 1) ≤ im.heap.toNat + 4194304 := by
          clear hle
          omega
        exact (hin e he).mono hlo hhi'
      · exact (hwithin e he).mono (by omega) le_rfl
  | growing hn' => omega
  | full hn' => omega

/-- **From the 1011th call on** a block reaches beyond the end of the heap: the free block, or, when
that was large enough in the end, the stack of the last thread. -/
theorem OnKernelHeap.not_separated (hp : im.Placed) (h : s.OnKernelHeap im n a) (hn : 1010 < n) :
    ¬ s.HeapSeparated im := by
  obtain ⟨hlo, hhi, hroom⟩ := hp.heapStart_bounds
  have hle := hp.heap_le
  rw [toNat_heapSize] at hle
  have hblocks := h.blocks_eq
  have hheap := h.heap
  generalize hlive : s.threads.length = live at hblocks hheap
  rintro ⟨-, hin⟩
  rw [hblocks, toNat_heapSize] at hin
  cases hheap with
  | filling hn' => omega
  | growing _ hz hs =>
      -- each failed call has made the free block four bytes longer than the rest of the heap
      have hmem : freeExtent (blockAt im 1011,
          BitVec.ofNat 32 (heapRoom im - 4193628 + 4 * (n - 1010))) ∈
          s.kernel.heap.freeBlocks.map freeExtent := by
        rw [hs.freeBlocks]
        exact List.mem_singleton_self _
      have hend := (hin _ (List.mem_append_right _ hmem)).2
      rw [Extent.hi, freeExtent, hp.toNat_blockAt le_rfl, BitVec.toNat_ofNat,
        Nat.mod_eq_of_lt (by omega), show allocHeaderSz.toNat = 12 from rfl] at hend
      dsimp only at hend
      omega
  | full _ hs =>
      -- the last stack was taken from a block that is longer than the rest of the heap
      have hmem : (⟨heapStart im + 4148 * 1011 + 40, 4108⟩ : Extent) ∈
          (List.range 1012).flatMap fun i => threadBlocks (threadAt im i) (stackAt im i) := by
        refine List.mem_flatMap.mpr ⟨1011, by simp, ?_⟩
        rw [threadBlocks_at hp le_rfl]
        simp
      have hend := (hin _ (List.mem_append_left _ hmem)).2
      rw [Extent.hi] at hend
      dsimp only at hend
      omega

/-- **The heap stays separated exactly up to 1010 calls** of `thread_create`, in every run:
creations alone, or creations among all other steps. -/
theorem heapSeparated_iff (hp : im.Placed) (hrun : Reachable im machine acts s) :
    s.HeapSeparated im ↔ acts.countP Action.creates ≤ 1010 := by
  obtain ⟨a, h⟩ := hrun.onKernelHeap hp
  constructor
  · intro hsep
    by_contra hn
    exact h.not_separated hp (by omega) hsep
  · exact h.separated hp

/-- A run that creates a thread and starts the scheduler. -/
theorem exists_reachable_start :
    ∃ s, Reachable linkedImage bootMachine [.create 1 2 3, .start] s ∧ s.started = true := by
  obtain ⟨s₁, hstep, hrun⟩ := (Reachable.nil linkedImage bootMachine).snoc linkedImage_placed
    (.create 1 2 3) trivial
  obtain rfl := exec_create.mp hstep.2
  obtain ⟨s₂, -, hrun', hs⟩ := hrun.start linkedImage_placed rfl
  exact ⟨s₂, hrun', hs⟩

theorem heapSeparated_iff_linkedImage :
    ∃ s, Reachable linkedImage bootMachine [.create 1 2 3, .start] s ∧
      (s.HeapSeparated linkedImage ↔
        [Action.create 1 2 3, .start].countP Action.creates ≤ 1010) := by
  obtain ⟨s, hrun, -⟩ := exists_reachable_start
  exact ⟨s, hrun, heapSeparated_iff linkedImage_placed hrun⟩

/-- A run of `n` calls of `thread_create`. -/
theorem exists_reachable_creates (hp : im.Placed) (machine : Machine) (n : ℕ) :
    ∃ s, Reachable im machine (List.replicate n (.create 0 0 0)) s := by
  induction n with
  | zero => exact ⟨_, .nil im machine⟩
  | succ n ih =>
      obtain ⟨s, hrun⟩ := ih
      obtain ⟨s', -, hrun'⟩ := hrun.snoc hp (.create 0 0 0) trivial
      rw [← List.replicate_succ'] at hrun'
      exact ⟨s', hrun'⟩

/-- That many calls are counted. -/
theorem countP_replicate_create (n : ℕ) :
    (List.replicate n (Action.create 0 0 0)).countP Action.creates = n := by
  rw [List.countP_replicate, if_pos (show Action.creates (.create 0 0 0) = true from rfl)]

/-- **The failing run**: the 1011th call of `thread_create`. -/
theorem not_heapSeparated_linkedImage :
    ∃ s, Reachable linkedImage bootMachine (List.replicate 1011 (.create 0 0 0)) s ∧
      ¬ s.HeapSeparated linkedImage := by
  obtain ⟨s, hrun⟩ := exists_reachable_creates linkedImage_placed bootMachine 1011
  obtain ⟨a, h⟩ := hrun.onKernelHeap linkedImage_placed
  rw [countP_replicate_create] at h
  exact ⟨s, hrun, h.not_separated linkedImage_placed (by omega)⟩

/-! ## Failed calls of `thread_create` -/

/-- A failed call has changed neither `*threadp` nor the kernel, and the free list has the same
blocks with the same sizes in the same order. -/
def LeavesNoTrace (threadp : Word) (k : Kernel Heap) (r : CreateResult Heap) : Prop :=
  r.error ≠ 0 → r.threadp = threadp ∧ r.kernel = { k with heap := r.kernel.heap } ∧
    r.kernel.heap.freeBlocks = k.heap.freeBlocks

/-- A call that fails for lack of room for the stack leaves the free block four bytes larger. -/
theorem not_leavesNoTrace {k : Kernel Heap} {blk z : Word} (hs : k.heap.Single blk z)
    (hblk : blk.toNat + 52 < 2 ^ 32) (hz : 72 ≤ z.toNat) (hlt : z.toNat < 4136)
    (threadp name fn arg : Word) :
    ¬ LeavesNoTrace threadp k (threadCreate im kernelHeap threadp name fn arg k) := by
  obtain ⟨heap, halloc, hs'⟩ := threadAllocate_of_lt hs hblk hz hlt
  rw [threadCreate, halloc]
  simp [LeavesNoTrace, hs'.freeBlocks, hs.freeBlocks]

/-- A call with room for a thread succeeds. -/
theorem threadCreate_error_eq_zero {k : Kernel Heap} {blk z : Word} (hs : k.heap.Single blk z)
    (hblk : blk.toNat + 52 < 2 ^ 32) (hz : 4136 ≤ z.toNat) (threadp name fn arg : Word) :
    (threadCreate im kernelHeap threadp name fn arg k).error = 0 := by
  obtain ⟨heap, halloc⟩ : ∃ heap, threadAllocate kernelHeap k.heap =
      (some (blk + 12, blk + 52), heap) := by
    by_cases hsplit : 4180 ≤ z.toNat
    · obtain ⟨heap, halloc, -⟩ := threadAllocate_of_le hs hblk hsplit
      exact ⟨heap, halloc⟩
    · obtain ⟨heap, halloc, -⟩ := threadAllocate_of_between hs hblk hz (by omega)
      exact ⟨heap, halloc⟩
  rw [threadCreate, halloc]

/-- **A failed call leaves no trace** exactly when no free block is too small for a thread: 28
bytes, a header of 12 and a stack of 4096. Then it can only have failed because there is no free
block. -/
theorem leavesNoTrace_iff (hp : im.Placed) (hrun : Reachable im machine acts s)
    (threadp name fn arg : Word) :
    LeavesNoTrace threadp s.kernel (threadCreate im kernelHeap threadp name fn arg s.kernel) ↔
      ∀ b ∈ s.kernel.heap.freeBlocks, 4136 ≤ b.2.toNat := by
  obtain ⟨a, h⟩ := hrun.onKernelHeap hp
  rcases h.heap.free_cases hp with hnil | ⟨blk, z, hs, hblk, hz⟩
  · -- no free block: the first allocation fails
    have hfree : s.kernel.heap.freeBlocks = [] := by rw [Heap.freeBlocks, hnil, List.map_nil]
    rw [threadCreate, threadAllocate_of_nil hnil, hfree]
    simp [LeavesNoTrace]
  · rw [hs.freeBlocks]
    simp only [List.mem_singleton, forall_eq]
    by_cases hlarge : 4136 ≤ z.toNat
    · -- the call does not fail
      refine iff_of_true (fun herror => absurd ?_ herror) hlarge
      exact threadCreate_error_eq_zero hs hblk hlarge threadp name fn arg
    · exact iff_of_false (not_leavesNoTrace hs hblk hz (by omega) threadp name fn arg) hlarge

/-- After 1010 calls, what is left of the heap is too small for a stack. -/
theorem OnKernelHeap.not_leavesNoTrace (hp : im.Placed) (h : s.OnKernelHeap im 1010 a)
    (threadp name fn arg : Word) :
    ¬ LeavesNoTrace threadp s.kernel
      (threadCreate im kernelHeap threadp name fn arg s.kernel) := by
  obtain ⟨hlo, hhi, hroom⟩ := hp.heapStart_bounds
  have hle := hp.heap_le
  rw [toNat_heapSize] at hle
  have hheap := h.heap
  generalize s.threads.length = live at hheap
  cases hheap with
  | filling _ hs =>
      refine System.not_leavesNoTrace hs ?_ ?_ ?_ threadp name fn arg
      · rw [hp.toNat_blockAt (by omega)]
        omega
      · rw [BitVec.toNat_ofNat, Nat.mod_eq_of_lt] <;> omega
      · rw [BitVec.toNat_ofNat, Nat.mod_eq_of_lt] <;> omega
  | growing hn => omega
  | full hn => omega

/-- After 1880 calls, nothing is left of the heap. -/
theorem OnKernelHeap.freeList_eq_nil (hp : im.Placed) (h : s.OnKernelHeap im n a) (hn : 1880 ≤ n) :
    s.kernel.heap.freeList = [] := by
  obtain ⟨hlo, hhi, hroom⟩ := hp.heapStart_bounds
  have hheap := h.heap
  generalize s.threads.length = live at hheap
  cases hheap with
  | filling => omega
  | growing => omega
  | full _ hs => exact hs

/-- A call that fails for lack of room, and one that fails for lack of any free block. -/
theorem leavesNoTrace_iff_linkedImage :
    (∃ s, Reachable linkedImage bootMachine (List.replicate 1010 (.create 0 0 0)) s ∧
      (threadCreate linkedImage kernelHeap null 4 5 6 s.kernel).error ≠ 0 ∧
      (LeavesNoTrace null s.kernel (threadCreate linkedImage kernelHeap null 4 5 6 s.kernel) ↔
        ∀ b ∈ s.kernel.heap.freeBlocks, 4136 ≤ b.2.toNat)) ∧
    ∃ s, Reachable linkedImage bootMachine (List.replicate 1880 (.create 0 0 0)) s ∧
      (threadCreate linkedImage kernelHeap null 4 5 6 s.kernel).error ≠ 0 ∧
      s.kernel.heap.freeBlocks = [] ∧
      (LeavesNoTrace null s.kernel (threadCreate linkedImage kernelHeap null 4 5 6 s.kernel) ↔
        ∀ b ∈ s.kernel.heap.freeBlocks, 4136 ≤ b.2.toNat) := by
  have hp := linkedImage_placed
  constructor
  · obtain ⟨s, hrun⟩ := exists_reachable_creates hp bootMachine 1010
    obtain ⟨a, h⟩ := hrun.onKernelHeap hp
    rw [countP_replicate_create] at h
    -- a call that succeeds would leave no trace
    exact ⟨s, hrun, fun herror => h.not_leavesNoTrace hp null 4 5 6 fun hne => absurd herror hne,
      leavesNoTrace_iff hp hrun null 4 5 6⟩
  · obtain ⟨s, hrun⟩ := exists_reachable_creates hp bootMachine 1880
    obtain ⟨a, h⟩ := hrun.onKernelHeap hp
    rw [countP_replicate_create] at h
    have hnil := h.freeList_eq_nil hp le_rfl
    refine ⟨s, hrun, ?_, ?_, leavesNoTrace_iff hp hrun null 4 5 6⟩
    · rw [threadCreate, threadAllocate_of_nil hnil]
      exact one_ne_zero
    · rw [Heap.freeBlocks, hnil, List.map_nil]

/-- **The failing call**: the 1011th. -/
theorem not_leavesNoTrace_linkedImage :
    ∃ s, Reachable linkedImage bootMachine (List.replicate 1010 (.create 0 0 0)) s ∧
      ¬ LeavesNoTrace null s.kernel
        (threadCreate linkedImage kernelHeap null 0 0 0 s.kernel) := by
  have hp := linkedImage_placed
  obtain ⟨s, hrun⟩ := exists_reachable_creates hp bootMachine 1010
  obtain ⟨a, h⟩ := hrun.onKernelHeap hp
  rw [countP_replicate_create] at h
  exact ⟨s, hrun, h.not_leavesNoTrace hp null 0 0 0⟩

end System

end Storm
