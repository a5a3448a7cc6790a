import Storm.Kernel.Heap
import Storm.Kernel.System

/-! # The kernel heap as threads use it

Only threads are allocated from the kernel heap, so that its free list never has more than one
block. `threadAllocate` on such a heap either takes memory from the front of that block, or fails.

A failure is not without effect: `heap_malloc` splits off a header of `allocHeaderSz` bytes, but
`heap_defrag_free_list` adds `sizeofAllocNode` bytes when it merges, and the block comes back four
bytes larger than it was (`threadAllocate_of_lt`). -/

namespace Storm

open ByteMemory

/-- The heap interface of the kernel. -/
def kernelHeap : Allocator Heap := ⟨heapMalloc, heapFree⟩

/-- `sizeof(struct thread)` is a multiple of the alignment. -/
theorem alignUp_sizeofThread : alignUp sizeofThread sizeofPtr = sizeofThread := by decide

/-- The stack size is a multiple of the alignment. -/
theorem alignUp_threadDefaultStackSize :
    alignUp threadDefaultStackSize sizeofPtr = threadDefaultStackSize := by decide

variable {h : Heap} {a z : Word}

/-- The allocation of a `struct thread` splits the only block. -/
theorem heapMalloc_sizeofThread (hs : h.Single a z) (ha : a.toNat + 52 < 2 ^ 32)
    (hz : 72 ≤ z.toNat) :
    ∃ h', heapMalloc sizeofThread h = (a + 12, h') ∧ h'.Single (a + 40) (z - 40) ∧
      h'.size a = 28 := by
  obtain ⟨hptr, hsingle, hsize⟩ := heapMalloc_of_split hs sizeofThread (by decide)
    alignUp_sizeofThread (by simp only [sizeofThread]; bv_omega)
    (by simp only [sizeofThread, minAllocSz, allocHeaderSz]; bv_omega)
    (by simp only [allocHeaderSz, null]; bv_omega)
    (by simp only [sizeofThread, allocHeaderSz]; bv_omega)
  refine ⟨(heapMalloc sizeofThread h).2, Prod.ext hptr rfl, ?_, hsize⟩
  have hthread : a + 40 = a + allocHeaderSz + sizeofThread := by
    simp only [sizeofThread, allocHeaderSz]
    bv_omega
  have hrest : z - 40 = z - sizeofThread - allocHeaderSz := by
    simp only [sizeofThread, allocHeaderSz]
    bv_omega
  rw [hthread, hrest]
  exact hsingle

/-- Without free blocks there is no thread. -/
theorem threadAllocate_of_nil (hs : h.freeList = []) :
    threadAllocate kernelHeap h = (none, h) := by
  simp [threadAllocate, kernelHeap, heapMalloc_of_nil hs]

/-- **A large block** gives a thread its memory from the front, and what remains is the only
block. -/
theorem threadAllocate_of_le (hs : h.Single a z) (ha : a.toNat + 52 < 2 ^ 32)
    (hz : 4180 ≤ z.toNat) :
    ∃ h', threadAllocate kernelHeap h = (some (a + 12, a + 52), h') ∧
      h'.Single (a + 4148) (z - 4148) := by
  obtain ⟨h₁, hmalloc, hs₁, -⟩ := heapMalloc_sizeofThread hs ha (by omega)
  obtain ⟨hptr, hsingle, -⟩ := heapMalloc_of_split hs₁ threadDefaultStackSize (by decide)
    alignUp_threadDefaultStackSize (by simp only [threadDefaultStackSize]; bv_omega)
    (by simp only [threadDefaultStackSize, minAllocSz, allocHeaderSz]; bv_omega)
    (by simp only [allocHeaderSz, null]; bv_omega)
    (by simp only [threadDefaultStackSize, allocHeaderSz]; bv_omega)
  have hthread : a + 12 ≠ null := by simp only [null]; bv_omega
  have hstack : a + 40 + allocHeaderSz = a + 52 := by simp only [allocHeaderSz]; bv_omega
  have hnull : a + 52 ≠ null := by simp only [null]; bv_omega
  refine ⟨(heapMalloc threadDefaultStackSize h₁).2, ?_, ?_⟩
  · simp only [threadAllocate, kernelHeap, hmalloc, if_neg hthread, hptr, hstack, if_neg hnull]
  · rw [show a + 4148 = a + 40 + allocHeaderSz + threadDefaultStackSize by
        simp only [threadDefaultStackSize, allocHeaderSz]; bv_omega,
      show z - 4148 = z - 40 - threadDefaultStackSize - allocHeaderSz by
        simp only [threadDefaultStackSize, allocHeaderSz]; bv_omega]
    exact hsingle

/-- **A block that is just large enough** gives a thread its memory and is used up. -/
theorem threadAllocate_of_between (hs : h.Single a z) (ha : a.toNat + 52 < 2 ^ 32)
    (hz : 4136 ≤ z.toNat) (hz' : z.toNat < 4180) :
    ∃ h', threadAllocate kernelHeap h = (some (a + 12, a + 52), h') ∧ h'.freeList = [] := by
  obtain ⟨h₁, hmalloc, hs₁, -⟩ := heapMalloc_sizeofThread hs ha (by omega)
  obtain ⟨hptr, hnil⟩ := heapMalloc_of_take hs₁ threadDefaultStackSize (by decide)
    alignUp_threadDefaultStackSize (by simp only [threadDefaultStackSize]; bv_omega)
    (by simp only [threadDefaultStackSize, minAllocSz, allocHeaderSz]; bv_omega)
    (by simp only [allocHeaderSz, null]; bv_omega)
  have hthread : a + 12 ≠ null := by simp only [null]; bv_omega
  have hstack : a + 40 + allocHeaderSz = a + 52 := by simp only [allocHeaderSz]; bv_omega
  have hnull : a + 52 ≠ null := by simp only [null]; bv_omega
  refine ⟨(heapMalloc threadDefaultStackSize h₁).2, ?_, hnil⟩
  simp only [threadAllocate, kernelHeap, hmalloc, if_neg hthread, hptr, hstack, if_neg hnull]

/-- **A block too small for the stack** gives no thread, and is four bytes larger afterwards. -/
theorem threadAllocate_of_lt (hs : h.Single a z) (ha : a.toNat + 52 < 2 ^ 32)
    (hz : 72 ≤ z.toNat) (hz' : z.toNat < 4136) :
    ∃ h', threadAllocate kernelHeap h = (none, h') ∧ h'.Single a (z + 4) := by
  obtain ⟨h₁, hmalloc, hs₁, hsize⟩ := heapMalloc_sizeofThread hs ha hz
  have hfail : heapMalloc threadDefaultStackSize h₁ = (null, h₁) :=
    heapMalloc_of_lt hs₁ alignUp_threadDefaultStackSize
      (by simp only [threadDefaultStackSize]; bv_omega)
  -- the `struct thread` is given back and merged with the rest behind it
  have hfree := heapFree_of_adjacent (h := h₁) (a := a) hs₁ (by bv_omega)
    (by rw [hsize]; simp only [allocHeaderSz]; bv_omega)
    (by simp only [allocHeaderSz, null]; bv_omega)
  have hthread : a + 12 ≠ null := by simp only [null]; bv_omega
  refine ⟨heapFree (a + 12) h₁, ?_, ?_⟩
  · simp only [threadAllocate, kernelHeap, hmalloc, if_neg hthread, hfail, if_true, heapFree_null]
  · rw [hsize] at hfree
    rw [show z + 4 = 28 + (sizeofAllocNode + (z - 40)) by simp only [sizeofAllocNode]; bv_omega]
    exact hfree

/-! ## The heap after a number of calls -/

/-- `align_up` to a multiple of four adds at most three. -/
theorem alignUp_sizeofPtr {x : Word} (hx : x.toNat + 3 < 2 ^ 32) :
    x.toNat ≤ (alignUp x sizeofPtr).toNat ∧ (alignUp x sizeofPtr).toNat ≤ x.toNat + 3 := by
  -- a word is a multiple of four and its two low bits
  have hsplit : ∀ y : Word, (y &&& ~~~3) + (y &&& 3) = y := by
    intro y
    rw [BitVec.add_eq_or_of_and_eq_zero]
    · ext i hi
      simp only [BitVec.getElem_or, BitVec.getElem_and, BitVec.getElem_not]
      cases y[i] <;> cases (3#32)[i] <;> rfl
    · ext i hi
      simp only [BitVec.getElem_and, BitVec.getElem_not, BitVec.getElem_zero]
      cases y[i] <;> cases (3#32)[i] <;> rfl
  have hlow : ∀ y : Word, (y &&& 3).toNat ≤ 3 := fun y => by
    rw [BitVec.toNat_and]
    exact Nat.and_le_right
  have h := hsplit (x + 3)
  have h' := hlow (x + 3)
  rw [alignUp, show sizeofPtr - 1 = 3 from rfl]
  bv_omega

/-- What linking promises: the `heap` array is in the address space, and the run queue is not in
it. -/
structure Image.Placed (im : Image) : Prop where
  heap_le : im.heap.toNat + heapSize.toNat ≤ 2 ^ 32
  queue_apart : Extent.Apart ⟨im.threadRunQueue.toNat, sizeofRunQueue.toNat⟩
    ⟨im.heap.toNat, heapSize.toNat⟩

/-- The address of the first header in the heap. -/
def heapStart (im : Image) : ℕ := (alignUp im.heap sizeofPtr).toNat

/-- The size of the block that `heap_init` adds. -/
def heapRoom (im : Image) : ℕ := im.heap.toNat + heapSize.toNat - heapStart im - allocHeaderSz.toNat

/-- The header behind the memory of the first `i` threads: each takes `4148` bytes, for its `struct
thread`, its stack and their two headers. -/
def blockAt (im : Image) (i : ℕ) : Word := BitVec.ofNat 32 (heapStart im + 4148 * i)

/-- The `struct thread` of the thread at position `i`. -/
def threadAt (im : Image) (i : ℕ) : Word := BitVec.ofNat 32 (heapStart im + 4148 * i + 12)

/-- The stack of the thread at position `i`. -/
def stackAt (im : Image) (i : ℕ) : Word := BitVec.ofNat 32 (heapStart im + 4148 * i + 52)

/-- `HeapAfter im n live h`: the heap `h` is the one after `thread_init` and `n` calls of
`thread_create`, of which, counting `thread_init`, `live` succeeded. -/
inductive HeapAfter (im : Image) : ℕ → ℕ → Heap → Prop
  /-- Up to 1010 calls succeed. -/
  | filling {n : ℕ} {h : Heap} (hn : n ≤ 1010)
      (hs : h.Single (blockAt im (n + 1)) (BitVec.ofNat 32 (heapRoom im - 4148 * (n + 1)))) :
      HeapAfter im n (n + 1) h
  /-- Each further call fails, and the block grows by four bytes. -/
  | growing {n : ℕ} {h : Heap} (hn : 1010 < n) (hz : heapRoom im + 4 * (n - 1010) < 4197768)
      (hs : h.Single (blockAt im 1011) (BitVec.ofNat 32 (heapRoom im - 4193628 + 4 * (n - 1010)))) :
      HeapAfter im n 1011 h
  /-- Until it is large enough for one more thread. -/
  | full {n : ℕ} {h : Heap} (hn : 1010 < n) (hs : h.freeList = []) : HeapAfter im n 1012 h

/-- The heap has room for at most 1012 threads. -/
theorem HeapAfter.live_le {im : Image} {n live : ℕ} {h : Heap} (ha : HeapAfter im n live h) :
    live ≤ 1012 := by
  cases ha <;> omega

/-- Up to 1010 calls of `thread_create`, none has failed. -/
theorem HeapAfter.live_eq {im : Image} {n live : ℕ} {h : Heap} (ha : HeapAfter im n live h)
    (hn : n ≤ 1010) : live = n + 1 := by
  cases ha <;> omega

/-- The first header is at most three bytes behind the beginning of the heap. -/
theorem Image.Placed.heapStart_bounds {im : Image} (hp : im.Placed) :
    im.heap.toNat ≤ heapStart im ∧ heapStart im ≤ im.heap.toNat + 3 ∧
      heapRoom im + heapStart im = im.heap.toNat + 4194292 := by
  have hle := hp.heap_le
  have h := alignUp_sizeofPtr (x := im.heap) (by simp only [heapSize] at hle; bv_omega)
  rw [heapRoom, heapStart]
  simp only [heapSize, allocHeaderSz] at hle ⊢
  bv_omega

/-- The heap after `heap_init`: one block. -/
theorem heapInit_single {im : Image} (hp : im.Placed) :
    (heapInit im.heap Heap.initial).Single (blockAt im 0) (BitVec.ofNat 32 (heapRoom im)) := by
  obtain ⟨hlo, hhi, hroom⟩ := hp.heapStart_bounds
  have hblock : blockAt im 0 = alignUp im.heap sizeofPtr := by
    rw [blockAt, heapStart, Nat.mul_zero, Nat.add_zero, BitVec.ofNat_toNat, BitVec.setWidth_eq]
  have hsize : BitVec.ofNat 32 (heapRoom im) =
      im.heap + heapSize - alignUp im.heap sizeofPtr - allocHeaderSz := by
    rw [heapStart] at hlo hhi hroom
    rw [show heapSize = 4194304 from rfl, show allocHeaderSz = 12 from rfl]
    bv_omega
  rw [hblock, hsize]
  simp [heapInit, heapAddBlock, Heap.initial, Heap.Single]

section Threads

variable {im : Image} {i : ℕ}

/-- Addresses up to the last thread that the heap can hold do not wrap around. -/
theorem Image.Placed.toNat_blockAt (hp : im.Placed) (hi : i ≤ 1011) :
    (blockAt im i).toNat = heapStart im + 4148 * i := by
  obtain ⟨hlo, hhi, -⟩ := hp.heapStart_bounds
  have hle := hp.heap_le
  rw [toNat_heapSize] at hle
  rw [blockAt, BitVec.toNat_ofNat, Nat.mod_eq_of_lt]
  omega

/-- The memory of a thread is behind the header at its position. -/
theorem threadAt_eq (im : Image) (i : ℕ) : threadAt im i = blockAt im i + 12 := by
  rw [threadAt, blockAt, BitVec.ofNat_add]
  rfl

theorem stackAt_eq (im : Image) (i : ℕ) : stackAt im i = blockAt im i + 52 := by
  rw [stackAt, blockAt, BitVec.ofNat_add]
  rfl

theorem blockAt_succ (im : Image) (i : ℕ) : blockAt im (i + 1) = blockAt im i + 4148 := by
  rw [blockAt, blockAt, Nat.mul_succ, ← Nat.add_assoc, BitVec.ofNat_add]
  rfl

/-- The call of `threadAllocate` for the thread at position `i`, while there is plenty of memory. -/
theorem threadAllocate_at (hp : im.Placed) (hi : i ≤ 1010) {h : Heap}
    (hs : h.Single (blockAt im i) (BitVec.ofNat 32 (heapRoom im - 4148 * i))) :
    ∃ h', threadAllocate kernelHeap h = (some (threadAt im i, stackAt im i), h') ∧
      h'.Single (blockAt im (i + 1)) (BitVec.ofNat 32 (heapRoom im - 4148 * (i + 1))) := by
  obtain ⟨hlo, hhi, hroom⟩ := hp.heapStart_bounds
  have hblock := hp.toNat_blockAt (i := i) (by omega)
  have hle := hp.heap_le
  rw [toNat_heapSize] at hle
  obtain ⟨h', halloc, hs'⟩ := threadAllocate_of_le hs (by omega) (by
    rw [BitVec.toNat_ofNat, Nat.mod_eq_of_lt] <;> omega)
  refine ⟨h', ?_, ?_⟩
  · rw [halloc, threadAt_eq, stackAt_eq]
  · rw [blockAt_succ, show BitVec.ofNat 32 (heapRoom im - 4148 * (i + 1)) =
      BitVec.ofNat 32 (heapRoom im - 4148 * i) - 4148 by bv_omega]
    exact hs'

/-- The first call of `threadAllocate`, after `heap_init`, succeeds. -/
theorem HeapAfter.init (hp : im.Placed) :
    ∃ h, threadAllocate kernelHeap (heapInit im.heap Heap.initial) =
      (some (threadAt im 0, stackAt im 0), h) ∧ HeapAfter im 0 1 h := by
  obtain ⟨h, halloc, hs⟩ := threadAllocate_at hp (Nat.zero_le _) (heapInit_single hp)
  exact ⟨h, halloc, .filling (Nat.zero_le _) hs⟩

/-- The call of `threadAllocate` when 1011 threads are allocated and `g` calls have failed: it fails
too, or takes what is there. -/
theorem threadAllocate_growing (hp : im.Placed) {g : ℕ} {h : Heap}
    (hz : heapRoom im + 4 * g < 4197768)
    (hs : h.Single (blockAt im 1011) (BitVec.ofNat 32 (heapRoom im - 4193628 + 4 * g))) :
    (heapRoom im + 4 * g < 4197764 ∧ ∃ h', threadAllocate kernelHeap h = (none, h') ∧
      h'.Single (blockAt im 1011) (BitVec.ofNat 32 (heapRoom im - 4193628 + 4 * (g + 1)))) ∨
    (4197764 ≤ heapRoom im + 4 * g ∧
      ∃ h', threadAllocate kernelHeap h = (some (threadAt im 1011, stackAt im 1011), h') ∧
        h'.freeList = []) := by
  obtain ⟨hlo, hhi, hroom⟩ := hp.heapStart_bounds
  have hblock := hp.toNat_blockAt (i := 1011) (by omega)
  have hle := hp.heap_le
  rw [toNat_heapSize] at hle
  have hsize : (BitVec.ofNat 32 (heapRoom im - 4193628 + 4 * g)).toNat =
      heapRoom im - 4193628 + 4 * g := by
    rw [BitVec.toNat_ofNat, Nat.mod_eq_of_lt]
    omega
  by_cases hlt : heapRoom im + 4 * g < 4197764
  · obtain ⟨h', halloc, hs'⟩ := threadAllocate_of_lt hs (by omega) (by omega) (by omega)
    refine Or.inl ⟨hlt, h', halloc, ?_⟩
    rwa [Nat.mul_succ, ← Nat.add_assoc, BitVec.ofNat_add]
  · obtain ⟨h', halloc, hnil⟩ := threadAllocate_of_between hs (by omega) (by omega) (by omega)
    exact Or.inr ⟨by omega, h', by rw [halloc, threadAt_eq, stackAt_eq], hnil⟩

/-- **One more call** of `threadAllocate` on the kernel heap. -/
theorem HeapAfter.threadAllocate (hp : im.Placed) {n live : ℕ} {h : Heap}
    (ha : HeapAfter im n live h) :
    (∃ h', Storm.threadAllocate kernelHeap h = (some (threadAt im live, stackAt im live), h') ∧
      HeapAfter im (n + 1) (live + 1) h') ∨
    ∃ h', Storm.threadAllocate kernelHeap h = (none, h') ∧ HeapAfter im (n + 1) live h' := by
  obtain ⟨hlo, hhi, hroom⟩ := hp.heapStart_bounds
  cases ha with
  | filling hn hs =>
      by_cases hlast : n = 1010
      · -- the first call that fails
        have hs₀ : h.Single (blockAt im 1011)
            (BitVec.ofNat 32 (heapRoom im - 4193628 + 4 * 0)) := by
          subst hlast
          simpa using hs
        obtain ⟨-, h', halloc, hs'⟩ | ⟨hge, -⟩ := threadAllocate_growing hp (by omega) hs₀
        · have hgrow : HeapAfter im (n + 1) 1011 h' :=
            .growing (by omega) (by omega) (by rwa [show n + 1 - 1010 = 0 + 1 by omega])
          refine Or.inr ⟨h', halloc, ?_⟩
          rwa [show 1011 = n + 1 by omega] at hgrow
        · omega
      · obtain ⟨h', halloc, hs'⟩ := threadAllocate_at hp (by omega) hs
        exact Or.inl ⟨h', halloc, .filling (by omega) hs'⟩
  | growing hn hz hs =>
      obtain ⟨hlt, h', halloc, hs'⟩ | ⟨-, h', halloc, hnil⟩ := threadAllocate_growing hp hz hs
      · have hg : n + 1 - 1010 = n - 1010 + 1 := by omega
        refine Or.inr ⟨h', halloc, .growing (by omega) ?_ ?_⟩
        · rw [hg]
          omega
        · rw [hg]
          exact hs'
      · exact Or.inl ⟨h', halloc, .full (by omega) hnil⟩
  | full hn hs => exact Or.inr ⟨h, threadAllocate_of_nil hs, .full (by omega) hs⟩

/-- There is no free block, or a single one with room for at least a `struct thread`. -/
theorem HeapAfter.free_cases (hp : im.Placed) {n live : ℕ} {h : Heap} (ha : HeapAfter im n live h) :
    h.freeList = [] ∨ ∃ a z, h.Single a z ∧ a.toNat + 52 < 2 ^ 32 ∧ 72 ≤ z.toNat := by
  obtain ⟨hlo, hhi, hroom⟩ := hp.heapStart_bounds
  have hle := hp.heap_le
  rw [toNat_heapSize] at hle
  cases ha with
  | filling hn hs =>
      refine Or.inr ⟨_, _, hs, ?_, ?_⟩
      · rw [hp.toNat_blockAt (by omega)]
        omega
      · rw [BitVec.toNat_ofNat, Nat.mod_eq_of_lt] <;> omega
  | growing hn hz hs =>
      refine Or.inr ⟨_, _, hs, ?_, ?_⟩
      · rw [hp.toNat_blockAt le_rfl]
        omega
      · rw [BitVec.toNat_ofNat, Nat.mod_eq_of_lt] <;> omega
  | full hn hs => exact Or.inl hs

end Threads

end Storm
