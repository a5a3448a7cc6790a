import Storm.Lib.List

/-! # `kernel/heap.c`: the kernel heap

A block of the heap is an `alloc_node_t` header followed by memory. The header holds the links of
the free list and the size of the memory behind it; `block`, its last member, is where that memory
begins. The state is the free list, as the sequence of headers that `list_for_each_entry` visits,
and the `size` member of every header, of free and of allocated blocks alike.

`list_insert` before or behind a block, `list_del` and `list_add_tail` act on this sequence as they
do on the circle of links (`Storm.Lib.List`). -/

namespace Storm

open ByteMemory

/-- `offsetof(alloc_node_t, block)`: two links and the size, four bytes each. -/
def allocHeaderSz : Word := 12

/-- `sizeof(alloc_node_t)`: the header and the pointer-sized `block` member. -/
def sizeofAllocNode : Word := 16

/-- `MIN_ALLOC_SZ`: what must remain of a block for it to be split. -/
def minAllocSz : Word := allocHeaderSz + 32

/-- `HEAP_SIZE`: the size of the `heap` array, 4 MiB. -/
def heapSize : Word := 4 * 1024 * 1024

theorem toNat_heapSize : heapSize.toNat = 4194304 := rfl

/-- `sizeof(void *)`. -/
def sizeofPtr : Word := 4

/-- `align_up`. -/
def alignUp (num align : Word) : Word := (num + (align - 1)) &&& ~~~(align - 1)

/-- The state of the heap. -/
structure Heap where
  /-- The addresses of the free blocks' headers, in list order. -/
  freeList : List Word
  /-- The `size` member of the header at each address. -/
  size : Word → Word

/-- The state before `heap_init`: `LIST_INIT(free_list)` and a zeroed `heap` array. -/
def Heap.initial : Heap := ⟨[], fun _ => 0⟩

/-- The free blocks with their recorded sizes, in list order. -/
def Heap.freeBlocks (h : Heap) : List (Word × Word) := h.freeList.map fun a => (a, h.size a)

/-- The loop of `heap_defrag_free_list`: `lb` is the last block that was kept, if any. The result is
the list from `lb` on and the sizes. A block right behind `lb` is merged into it and deleted. -/
def heapDefragLoop (size : Word → Word) : Option Word → List Word → List Word × (Word → Word)
  | none, [] => ([], size)
  | some lb, [] => ([lb], size)
  | none, b :: rest => heapDefragLoop size (some b) rest
  | some lb, b :: rest =>
      if lb + allocHeaderSz + size lb = b then
        heapDefragLoop (Function.update size lb (size lb + (sizeofAllocNode + size b))) (some lb) rest
      else
        let (kept, size') := heapDefragLoop size (some b) rest
        (lb :: kept, size')

/-- `heap_defrag_free_list`. -/
def heapDefragFreeList (h : Heap) : Heap :=
  let (freeList, size) := heapDefragLoop h.size none h.freeList
  { freeList, size }

/-- `heap_add_block`. -/
def heapAddBlock (addr size : Word) (h : Heap) : Heap :=
  let blk := alignUp addr sizeofPtr
  { freeList := blk :: h.freeList
    size := Function.update h.size blk (addr + size - blk - allocHeaderSz) }

/-- `heap_init`, for the `heap` array at a given address. -/
def heapInit (heap : Word) (h : Heap) : Heap := heapAddBlock heap heapSize h

/-- `heap_malloc`: first fit. A large enough remainder of the block becomes a free block in its
place. -/
def heapMalloc (size : Word) (h : Heap) : Word × Heap :=
  if size > 0 then
    let size := alignUp size sizeofPtr
    -- the loop passes over the blocks with `blk->size < size`
    let before := h.freeList.takeWhile fun blk => h.size blk < size
    match h.freeList.dropWhile fun blk => h.size blk < size with
    | [] => (null, h)
    | blk :: after =>
        let ptr := blk + allocHeaderSz
        if ptr ≠ null then
          if h.size blk - size ≥ minAllocSz then
            let newBlk := ptr + size
            let sizes := Function.update h.size newBlk (h.size blk - size - allocHeaderSz)
            (ptr, { freeList := before ++ newBlk :: after, size := Function.update sizes blk size })
          else (ptr, { h with freeList := before ++ after })
        else (ptr, h)
  else (null, h)

/-- `heap_free`: back into the list in address order, then merge neighbours. -/
def heapFree (ptr : Word) (h : Heap) : Heap :=
  if ptr ≠ null then
    let blk := ptr - allocHeaderSz
    -- in front of the first block with `free_blk > blk`, or at the tail
    let before := h.freeList.takeWhile fun freeBlk => ¬ freeBlk > blk
    let after := h.freeList.dropWhile fun freeBlk => ¬ freeBlk > blk
    heapDefragFreeList { h with freeList := before ++ blk :: after }
  else h

/-- `heap_free(NULL)` does nothing. -/
@[simp] theorem heapFree_null (h : Heap) : heapFree null h = h := by simp [heapFree]

/-! ## A free list of one block

While nothing but threads is allocated, the free list has at most one block. -/

/-- The free list consists of the block at `a`, of size `z`. -/
def Heap.Single (h : Heap) (a z : Word) : Prop := h.freeList = [a] ∧ h.size a = z

/-- The blocks of a one-block free list. -/
theorem Heap.Single.freeBlocks {h : Heap} {a z : Word} (hs : h.Single a z) :
    h.freeBlocks = [(a, z)] := by
  rw [Heap.freeBlocks, hs.1, List.map_singleton, hs.2]

/-- `heap_malloc` from an empty free list fails. -/
theorem heapMalloc_of_nil {h : Heap} (hs : h.freeList = []) (size : Word) :
    heapMalloc size h = (null, h) := by
  simp [heapMalloc, hs]

/-- `heap_malloc` of more than the only block has fails. -/
theorem heapMalloc_of_lt {h : Heap} {a z size : Word} (hs : h.Single a z)
    (halign : alignUp size sizeofPtr = size) (hlt : z < size) :
    heapMalloc size h = (null, h) := by
  by_cases hpos : size > 0
  · rw [heapMalloc, if_pos hpos]
    simp [halign, hs.1, hs.2, hlt]
  · rw [heapMalloc, if_neg hpos]

/-- `heap_malloc` from the only block, split: the block's memory is returned, and what is behind it
is the only free block. -/
theorem heapMalloc_of_split {h : Heap} {a z : Word} (hs : h.Single a z) (size : Word)
    (hpos : size > 0)
    (halign : alignUp size sizeofPtr = size) (hle : size ≤ z) (hsplit : z - size ≥ minAllocSz)
    (hptr : a + allocHeaderSz ≠ null) (hne : a + allocHeaderSz + size ≠ a) :
    (heapMalloc size h).1 = a + allocHeaderSz ∧
      (heapMalloc size h).2.Single (a + allocHeaderSz + size) (z - size - allocHeaderSz) ∧
      (heapMalloc size h).2.size a = size := by
  have hnlt : ¬ z < size := BitVec.not_lt.mpr hle
  rw [heapMalloc, if_pos hpos]
  simp [halign, hs.1, hs.2, hnlt, hptr, hsplit, hne, Heap.Single]

/-- `heap_malloc` from the only block, too small to split: the list becomes empty. -/
theorem heapMalloc_of_take {h : Heap} {a z : Word} (hs : h.Single a z) (size : Word)
    (hpos : size > 0)
    (halign : alignUp size sizeofPtr = size) (hle : size ≤ z) (hsplit : z - size < minAllocSz)
    (hptr : a + allocHeaderSz ≠ null) :
    (heapMalloc size h).1 = a + allocHeaderSz ∧ (heapMalloc size h).2.freeList = [] := by
  have hnlt : ¬ z < size := BitVec.not_lt.mpr hle
  have hnle : ¬ minAllocSz ≤ z - size := BitVec.not_le.mpr hsplit
  rw [heapMalloc, if_pos hpos]
  simp [halign, hs.1, hs.2, hnlt, hptr, hnle]

/-- `heap_free` of a block that ends where the only free block begins: one block, with
`sizeof(alloc_node_t)` bytes more than the two sizes. -/
theorem heapFree_of_adjacent {h : Heap} {a b z : Word} (hs : h.Single b z) (hlt : a < b)
    (hadj : a + allocHeaderSz + h.size a = b) (hptr : a + allocHeaderSz ≠ null) :
    (heapFree (a + allocHeaderSz) h).Single a (h.size a + (sizeofAllocNode + z)) := by
  have hblk : a + allocHeaderSz - allocHeaderSz = a := by bv_omega
  simp [heapFree, hptr, hblk, hs.1, hlt, heapDefragFreeList,
    heapDefragLoop, hadj, hs.2, Heap.Single]

end Storm
