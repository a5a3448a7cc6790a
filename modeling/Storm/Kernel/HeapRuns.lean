import Storm.Kernel.HeapBlocks

/-! # Runs of the kernel heap

Sequences of calls of `heap_malloc` and `heap_free` after `heap_init`. The blocks are apart in all
states if and only if no call frees a block next to a free one (`HeapUse.separated_iff`). Such a
sequence is a run of the abstract allocator of `Storm.Library.Allocation` (`HeapUse.allocation`),
unless a size is asked for that `align_up` wraps around to zero. -/

namespace Storm

open ByteMemory Transition

namespace HeapUse

variable {heap : Word} {s s' : HeapUse} {call : HeapCall} {calls : List HeapCall}

/-- Where the first header of the heap is. -/
theorem toNat_alignUp_heap (hheap : heap.toNat + heapSize.toNat ≤ 2 ^ 32) :
    (alignUp heap sizeofPtr).toNat = (heap.toNat + 3) / 4 * 4 := by
  rw [toNat_heapSize] at hheap
  rw [toNat_alignUp, Nat.mod_eq_of_lt (by omega)]

/-- **After `heap_init`** the heap is one free block. -/
theorem cut_initial (hheap : heap.toNat + heapSize.toNat ≤ 2 ^ 32) :
    (initial heap).Cut (alignUp heap sizeofPtr).toNat (heap.toNat + heapSize.toNat)
      [(alignUp heap sizeofPtr, true)] := by
  have hstart := toNat_alignUp_heap hheap
  have hdvd := dvd_alignUp heap
  generalize hb : alignUp heap sizeofPtr = b at hstart hdvd ⊢
  have hsize : ((initial heap).heap.size b).toNat = heap.toNat + 4194304 - b.toNat - 12 := by
    simp only [initial, heapInit, heapAddBlock, hb, Function.update_self]
    rw [heapSize, allocHeaderSz]
    rw [toNat_heapSize] at hheap
    bv_omega
  rw [toNat_heapSize] at hheap ⊢
  refine ⟨hheap, by omega, ⟨rfl, ?_⟩, ?_, .nil, .singleton _, ?_, ?_⟩
  · rw [List.map_nil, Extent.tiles_nil, Cut.extent_hi, hsize]
    dsimp only
    omega
  · simp [initial, heapInit, heapAddBlock, Heap.initial, hb]
  · simp only [List.map_singleton, List.mem_singleton, forall_eq, toNat_allocHeaderSz]
    omega
  · simpa using hdvd

/-- **A call that frees no block next to a free one** keeps the heap cut into blocks. -/
theorem Cut.step {lo hi : ℕ} (h : ∃ cells, s.Cut lo hi cells) (hstep : Step s call s')
    (hapart : ¬ s.FreesNextToFree call) : ∃ cells, s'.Cut lo hi cells := by
  obtain ⟨cells, h⟩ := h
  cases hstep with
  | malloc size =>
      obtain ⟨cells', h', -⟩ := h.malloc size
      exact ⟨cells', h'⟩
  | free hp =>
      obtain ⟨cells', h', -⟩ := h.free_apart hp hapart
      exact ⟨cells', h'⟩
  | freeNull =>
      rw [heapFree_null]
      exact ⟨cells, h⟩

/-- **A call that frees a block next to a free one** ends the separation. -/
theorem Cut.not_separated {lo hi : ℕ} (h : ∃ cells, s.Cut lo hi cells) (hstep : Step s call s')
    (hnext : s.FreesNextToFree call) (lo' : ℕ) : ¬ s'.Separated lo' hi := by
  obtain ⟨cells, h⟩ := h
  cases hstep with
  | malloc size => exact hnext.elim
  | free hp => exact h.free_next hp hnext lo'
  | freeNull => exact (hnext.1 rfl).elim

/-- **When the blocks of the heap are apart**: in all states that a sequence of calls reaches the
allocated and the free blocks are apart and inside of the `heap` array, if and only if no call frees
a block next to a free one. -/
theorem separated_iff (hheap : heap.toNat + heapSize.toNat ≤ 2 ^ 32) (calls : List HeapCall) :
    EveryState Step (Separated heap.toNat (heap.toNat + heapSize.toNat)) (initial heap) calls ↔
      EveryStep Step (fun s call _ => ¬ s.FreesNextToFree call) (initial heap) calls := by
  have hlo : heap.toNat ≤ (alignUp heap sizeofPtr).toNat := by
    rw [toNat_alignUp_heap hheap]
    omega
  refine everyState_iff_everyStep
    (I := fun s => ∃ cells, s.Cut (alignUp heap sizeofPtr).toNat (heap.toNat + heapSize.toNat) cells)
    ?_ ?_ ?_ ⟨_, cut_initial hheap⟩
  · rintro s ⟨cells, h⟩
    exact h.separated hlo
  · intro s call s' h hstep hapart
    exact Cut.step h hstep hapart
  · intro s call s' h hstep hnext
    exact Cut.not_separated h hstep (not_not.mp hnext) _

/-- The calls of one client of the heap of `linkedImage`, who frees the first of three blocks. -/
theorem separated_iff_linkedImage :
    EveryState Step (Separated linkedImage.heap.toNat (linkedImage.heap.toNat + heapSize.toNat))
        (initial linkedImage.heap)
        [.malloc 8 0x11000c, .malloc 8 0x110020, .free 0x11000c] ↔
      EveryStep Step (fun s call _ => ¬ s.FreesNextToFree call) (initial linkedImage.heap)
        [.malloc 8 0x11000c, .malloc 8 0x110020, .free 0x11000c] :=
  separated_iff (by decide) _

/-! ## What the callers rely on -/

/-- What is held, as extents of the sizes that were asked for. -/
def extents (s : HeapUse) : List Extent := s.live.map fun p => ⟨p.1.toNat, p.2.toNat⟩

/-- The blocks of the callers are at least as large as they asked for. -/
def Served (s : HeapUse) : Prop :=
  ∀ p ∈ s.live, p.2.toNat ≤ (s.heap.size (p.1 - allocHeaderSz)).toNat

/-- Below the sizes for which `align_up` wraps around, what is returned is large enough. -/
theorem le_alignUp {size : Word} (hsize : size.toNat ≤ 0xfffffffc) :
    size.toNat ≤ (alignUp size sizeofPtr).toNat := by
  rw [toNat_alignUp, Nat.mod_eq_of_lt (by omega)]
  omega

/-- **What `heap_malloc` returns is large enough.** -/
theorem heapMalloc_large {size : Word} (h : Heap) (hsize : size.toNat ≤ 0xfffffffc)
    (hptr : (heapMalloc size h).1 ≠ null) :
    size.toNat ≤ ((heapMalloc size h).2.size ((heapMalloc size h).1 - allocHeaderSz)).toNat := by
  have hle := le_alignUp hsize
  rcases heapMalloc_cases size h with hnull | ⟨_, b, _, _, -, hfit, -, hres | ⟨-, hres⟩⟩
  · rw [hnull] at hptr
    exact (hptr rfl).elim
  · rw [hres, BitVec.add_sub_cancel]
    exact hle.trans (BitVec.le_def.mp hfit)
  · rw [hres, BitVec.add_sub_cancel]
    dsimp only
    rw [Function.update_self]
    exact hle

namespace Cut

variable {lo hi : ℕ} {cells : List (Word × Bool)}

/-- What is held is behind the header of its block. -/
theorem toNat_ptr (h : s.Cut lo hi cells) {p : Word × Word} (hp : p ∈ s.live) :
    p.1.toNat = (p.1 - allocHeaderSz).toNat + 12 ∧
      (p.1 - allocHeaderSz, false) ∈ cells := by
  obtain ⟨pre, post, rfl⟩ := h.exists_of_live hp
  have hroom := h.room (p.1 - allocHeaderSz) (by simp)
  refine ⟨?_, by simp⟩
  rw [allocHeaderSz] at hroom ⊢
  bv_omega

/-- **What the callers hold is safe to use.** -/
theorem safe (h : s.Cut lo hi cells) (hserved : s.Served) :
    Allocation.Safe lo hi 4 s.extents := by
  have hin : ∀ p ∈ s.live, (p.1.toNat = (p.1 - allocHeaderSz).toNat + 12 ∧
      (p.1 - allocHeaderSz, false) ∈ cells) ∧
      p.2.toNat ≤ (s.heap.size (p.1 - allocHeaderSz)).toNat :=
    fun p hp => ⟨h.toNat_ptr hp, hserved p hp⟩
  refine ⟨?apart, ?within, ?aligned⟩
  case apart =>
    have hpw := (h.separated le_rfl).1
    rw [blocks, List.map_append, List.pairwise_append, headers, List.map_map,
      List.pairwise_map] at hpw
    rw [extents, List.pairwise_map]
    refine hpw.1.imp_of_mem fun {p q} hp hq happart => ?_
    obtain ⟨⟨hpptr, -⟩, hpsize⟩ := hin p hp
    obtain ⟨⟨hqptr, -⟩, hqsize⟩ := hin q hq
    simp only [Function.comp, Extent.Apart, extent_hi] at happart
    simp only [Extent.Apart, Extent.hi]
    simp only [Heap.extent] at happart
    omega
  case within =>
    intro e he
    obtain ⟨p, hp, rfl⟩ := List.mem_map.mp he
    obtain ⟨⟨hptr, hmem⟩, hsize⟩ := hin p hp
    have hbounds := h.bounds hmem
    simp only [Extent.Within, Extent.hi] at hbounds ⊢
    omega
  case aligned =>
    intro e he
    obtain ⟨p, hp, rfl⟩ := List.mem_map.mp he
    obtain ⟨⟨hptr, hmem⟩, -⟩ := hin p hp
    have hdvd := h.aligned _ (List.mem_map_of_mem hmem)
    dsimp only at hdvd ⊢
    omega

end Cut

/-- The call asks for a size that `align_up` can round up. -/
def Alignable : HeapCall → Prop
  | .malloc size _ => size.toNat ≤ 0xfffffffc
  | .free _ => True

/-- Addresses and sizes are told apart by the extents. -/
theorem injective_extent :
    Function.Injective fun p : Word × Word => Extent.mk p.1.toNat p.2.toNat := by
  rintro ⟨p₁, p₂⟩ ⟨q₁, q₂⟩ heq
  obtain ⟨h₁, h₂⟩ := Extent.mk.inj heq
  exact Prod.ext (BitVec.eq_of_toNat_eq h₁) (BitVec.eq_of_toNat_eq h₂)

namespace Cut

variable {lo hi : ℕ} {cells : List (Word × Bool)}

/-- **`heap_malloc`** grants an extent, or refuses. -/
theorem allocates_malloc (h : s.Cut lo hi cells) (hserved : s.Served) {size : Word}
    (halign : size.toNat ≤ 0xfffffffc) :
    (∃ cells', (s.malloc size).Cut lo hi cells') ∧ (s.malloc size).Served ∧
      Run (Allocation.Step lo hi 4) s.extents
        (HeapCall.malloc size (heapMalloc size s.heap).1).events (s.malloc size).extents := by
  obtain ⟨cells', h', hsizes⟩ := h.malloc size
  by_cases hnull : (heapMalloc size s.heap).1 = null
  · -- refused: nothing changes for the callers
    have hlive : (s.malloc size).live = s.live := by
      rw [HeapUse.malloc]
      exact if_pos hnull
    refine ⟨⟨cells', h'⟩, fun p hp => ?_, ?_⟩
    · rw [hlive] at hp
      rw [hsizes _ (List.mem_map_of_mem hp)]
      exact hserved p hp
    · rw [HeapCall.events, if_pos hnull, extents, extents, hlive]
      exact .single (.refuse _)
  · have hlive : (s.malloc size).live = ((heapMalloc size s.heap).1, size) :: s.live := by
      rw [HeapUse.malloc]
      exact if_neg hnull
    have hserved' : (s.malloc size).Served := fun p hp => by
      rw [hlive] at hp
      rcases List.mem_cons.mp hp with rfl | hp
      · exact heapMalloc_large s.heap halign hnull
      · rw [hsizes _ (List.mem_map_of_mem hp)]
        exact hserved p hp
    -- the state after the call is safe, so the new extent is apart from the others
    obtain ⟨hpw, hwithin, haligned⟩ := h'.safe hserved'
    rw [extents, hlive, List.map_cons] at hpw hwithin haligned
    refine ⟨⟨cells', h'⟩, hserved', ?_⟩
    rw [HeapCall.events, if_neg hnull, extents, extents, hlive, List.map_cons]
    exact .single (.grant (e := ⟨_, size.toNat⟩) (hwithin _ List.mem_cons_self)
      (haligned _ List.mem_cons_self) (List.pairwise_cons.mp hpw).1)

/-- **`heap_free`** releases an extent. -/
theorem allocates_free (h : s.Cut lo hi cells) (hserved : s.Served) {p : Word × Word}
    (hp : p ∈ s.live) (hapart : ¬ s.FreesNextToFree (.free p.1)) :
    (∃ cells', (s.free p).Cut lo hi cells') ∧ (s.free p).Served ∧
      Run (Allocation.Step lo hi 4) s.extents (HeapCall.free p.1).events (s.free p).extents := by
  obtain ⟨cells', h', hsize⟩ := h.free_apart hp hapart
  have hnull : p.1 ≠ null := by
    have hptr := (h.toNat_ptr hp).1
    rintro heq
    rw [heq] at hptr
    simp only [null] at hptr
    bv_omega
  refine ⟨⟨cells', h'⟩, fun q hq => ?_, ?_⟩
  · rw [hsize]
    exact hserved q (List.mem_of_mem_erase hq)
  · rw [HeapCall.events, if_neg hnull, extents, extents, HeapUse.free,
      List.map_erase injective_extent]
    exact .single (.release (e := ⟨p.1.toNat, p.2.toNat⟩) (List.mem_map_of_mem hp))

end Cut

/-- **One call is what an allocator may do**, and the heap stays ready for the next. -/
theorem Cut.allocates {lo hi : ℕ} {cells : List (Word × Bool)} (h : s.Cut lo hi cells)
    (hserved : s.Served) (hstep : Step s call s') (hapart : ¬ s.FreesNextToFree call)
    (halign : Alignable call) :
    (∃ cells', s'.Cut lo hi cells') ∧ s'.Served ∧
      Run (Allocation.Step lo hi 4) s.extents call.events s'.extents := by
  cases hstep with
  | malloc size => exact h.allocates_malloc hserved halign
  | free hp => exact h.allocates_free hserved hp hapart
  | freeNull =>
      rw [heapFree_null]
      exact ⟨⟨cells, h⟩, hserved, .nil _⟩

/-- Any sequence of calls of which none frees a block next to a free one, and none asks for one of
the three largest sizes, is a run of an allocator for the memory of the `heap` array that returns
addresses divisible by four. -/
theorem run_allocation (hheap : heap.toNat + heapSize.toNat ≤ 2 ^ 32)
    (hrun : Run Step (initial heap) calls s)
    (hapart : EveryStep Step (fun s call _ => ¬ s.FreesNextToFree call) (initial heap) calls)
    (halign : ∀ call ∈ calls, Alignable call) :
    Run (Allocation.Step (alignUp heap sizeofPtr).toNat (heap.toNat + heapSize.toNat) 4) []
      (calls.flatMap HeapCall.events) s.extents := by
  have hcut := cut_initial hheap
  have hserved : (initial heap).Served := by simp [Served, initial]
  rw [show ([] : List Extent) = (initial heap).extents from rfl]
  generalize (alignUp heap sizeofPtr).toNat = lo, heap.toNat + heapSize.toNat = hi,
    [(alignUp heap sizeofPtr, true)] = cells at hcut ⊢
  clear hheap
  generalize initial heap = s₀ at hrun hapart hcut hserved ⊢
  induction hrun generalizing cells with
  | nil s => exact .nil _
  | cons hstep _ ih =>
      obtain ⟨hno, hrest⟩ := everyStep_cons.mp hapart _ hstep
      obtain ⟨⟨cells', hcut'⟩, hserved', hfirst⟩ :=
        hcut.allocates hserved hstep hno (halign _ List.mem_cons_self)
      rw [List.flatMap_cons]
      exact hfirst.append (ih (fun c hc => halign c (List.mem_cons_of_mem _ hc)) cells' hrest
        hcut' hserved')

/-- **The heap is an allocator** to all its callers together, so that what they hold is apart, aligned
and inside of the `heap` array. -/
theorem allocation (hheap : heap.toNat + heapSize.toNat ≤ 2 ^ 32)
    (hrun : Run Step (initial heap) calls s)
    (hapart : EveryStep Step (fun s call _ => ¬ s.FreesNextToFree call) (initial heap) calls)
    (halign : ∀ call ∈ calls, Alignable call) :
    Run (Allocation.Step (alignUp heap sizeofPtr).toNat (heap.toNat + heapSize.toNat) 4) []
        (calls.flatMap HeapCall.events) s.extents ∧
      Allocation.Safe (alignUp heap sizeofPtr).toNat (heap.toNat + heapSize.toNat) 4 s.extents := by
  have hrun' := run_allocation hheap hrun hapart halign
  exact ⟨hrun', Allocation.safe_nil.run hrun'⟩

/-- The calls of one client of the heap of `linkedImage`, who frees the first of two blocks: it is
not next to the free memory behind the second. -/
theorem apart_of_client : EveryStep Step (fun s call _ => ¬ s.FreesNextToFree call)
    (initial linkedImage.heap) [.malloc 8 0x11000c, .malloc 8 0x110020, .free 0x11000c] := by
  have hfar : ¬ (((initial linkedImage.heap).malloc 8).malloc 8).FreesNextToFree
      (.free 0x11000c) := by
    have hlist : (((initial linkedImage.heap).malloc 8).malloc 8).heap.freeList = [0x110028] := rfl
    rintro ⟨-, f, hf, htouch⟩
    rw [hlist, List.mem_singleton] at hf
    subst hf
    revert htouch
    decide +kernel
  refine everyStep_cons.mpr fun s₁ hs₁ => ⟨id, everyStep_cons.mpr fun s₂ hs₂ => ⟨id, ?_⟩⟩
  cases hs₁
  cases hs₂
  refine everyStep_cons.mpr fun s₃ _ => ⟨hfar, ?_⟩
  rintro before a after t u has
  simp at has

theorem allocation_linkedImage :
    Run (Allocation.Step (alignUp linkedImage.heap sizeofPtr).toNat
          (linkedImage.heap.toNat + heapSize.toNat) 4) []
        ([.malloc 8 0x11000c, .malloc 8 0x110020, .free 0x11000c].flatMap HeapCall.events)
        ((((initial linkedImage.heap).malloc 8).malloc 8).free (0x11000c, 8)).extents ∧
      Allocation.Safe (alignUp linkedImage.heap sizeofPtr).toNat
        (linkedImage.heap.toNat + heapSize.toNat) 4
        ((((initial linkedImage.heap).malloc 8).malloc 8).free (0x11000c, 8)).extents := by
  have h₁ : Step (initial linkedImage.heap) (.malloc 8 0x11000c)
      ((initial linkedImage.heap).malloc 8) := .malloc 8
  have h₂ : Step ((initial linkedImage.heap).malloc 8) (.malloc 8 0x110020)
      (((initial linkedImage.heap).malloc 8).malloc 8) := .malloc 8
  have hmem : ((0x11000c, 8) : Word × Word) ∈
      (((initial linkedImage.heap).malloc 8).malloc 8).live := by decide
  have hheap : linkedImage.heap.toNat + heapSize.toNat ≤ 2 ^ 32 := by decide
  exact allocation hheap (.cons h₁ (.cons h₂ (.single (.free hmem)))) apart_of_client
    (by simp [Alignable])

end HeapUse

end Storm
