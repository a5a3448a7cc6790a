import Storm.Kernel.ThreadHeap
import Storm.Library.Allocation

/-! # The blocks of the kernel heap

Calls of `heap_malloc` and `heap_free`, whoever makes them. `HeapUse` pairs the heap with what its
callers hold; they may free any pointer that they hold, and `NULL`.

`Cut` says that the blocks, allocated and free, cut the heap into pieces without a gap, and that no
two free pieces are neighbours. `heap_malloc` keeps it (`Cut.malloc`), and so does `heap_free` of a
block that is not next to a free one (`Cut.free_apart`): `heap_defrag_free_list` then finds nothing to
merge. A block that is freed next to a free one is merged with it using `sizeofAllocNode` in place of
`allocHeaderSz`: the result reaches four bytes into the next block or beyond the end
(`Cut.free_next`). -/

namespace Storm

open ByteMemory Transition

theorem toNat_allocHeaderSz : allocHeaderSz.toNat = 12 := rfl

/-- A block with its header. -/
def Heap.extent (h : Heap) (b : Word) : Extent := ⟨b.toNat, allocHeaderSz.toNat + (h.size b).toNat⟩

/-! ## What the functions do to a free list -/

/-- Clearing the two low bits of a word. -/
theorem toNat_and_not_three (y : Word) : (y &&& ~~~3).toNat = y.toNat / 4 * 4 := by
  have hsplit : (y &&& ~~~3) + (y &&& 3) = y := by
    rw [BitVec.add_eq_or_of_and_eq_zero]
    · ext i hi
      simp only [BitVec.getElem_or, BitVec.getElem_and, BitVec.getElem_not]
      cases y[i] <;> cases (3#32)[i] <;> rfl
    · ext i hi
      simp only [BitVec.getElem_and, BitVec.getElem_not, BitVec.getElem_zero]
      cases y[i] <;> cases (3#32)[i] <;> rfl
  have hlow : (y &&& 3).toNat = y.toNat % 4 := by
    rw [BitVec.toNat_and]
    exact Nat.and_two_pow_sub_one_eq_mod y.toNat 2
  bv_omega

/-- `align_up` to the size of a pointer. The sum wraps around for the three largest arguments. -/
theorem toNat_alignUp (x : Word) :
    (alignUp x sizeofPtr).toNat = (x.toNat + 3) % 2 ^ 32 / 4 * 4 := by
  rw [alignUp, show sizeofPtr - 1 = 3 from rfl, toNat_and_not_three, BitVec.toNat_add]
  rfl

/-- What `align_up` returns is a multiple of four. -/
theorem dvd_alignUp (x : Word) : 4 ∣ (alignUp x sizeofPtr).toNat := by
  rw [toNat_alignUp]
  exact Nat.dvd_mul_left 4 _

/-- **What `heap_malloc` does**: nothing, or it takes a block that is large enough out of the list,
of which it may leave the rest. -/
theorem heapMalloc_cases (size : Word) (h : Heap) :
    heapMalloc size h = (null, h) ∨ ∃ before blk after, h.freeList = before ++ blk :: after ∧
      size > 0 ∧ alignUp size sizeofPtr ≤ h.size blk ∧ blk + allocHeaderSz ≠ null ∧
      (heapMalloc size h = (blk + allocHeaderSz, { h with freeList := before ++ after }) ∨
        minAllocSz ≤ h.size blk - alignUp size sizeofPtr ∧
        heapMalloc size h = (blk + allocHeaderSz,
          { freeList := before ++ (blk + allocHeaderSz + alignUp size sizeofPtr) :: after
            size := Function.update (Function.update h.size
              (blk + allocHeaderSz + alignUp size sizeofPtr)
              (h.size blk - alignUp size sizeofPtr - allocHeaderSz)) blk
                (alignUp size sizeofPtr) })) := by
  by_cases hpos : size > 0
  · cases hdrop : h.freeList.dropWhile fun blk => h.size blk < alignUp size sizeofPtr with
    | nil =>
        refine Or.inl ?_
        rw [heapMalloc, if_pos hpos]
        simp only [hdrop]
    | cons blk after =>
        have hlist : h.freeList = (h.freeList.takeWhile fun blk =>
            h.size blk < alignUp size sizeofPtr) ++ blk :: after := by
          rw [← hdrop, List.takeWhile_append_dropWhile]
        have hfit : alignUp size sizeofPtr ≤ h.size blk := by
          have := List.head_dropWhile_not (fun blk => h.size blk < alignUp size sizeofPtr)
            (l := h.freeList) (by rw [hdrop]; exact List.cons_ne_nil _ _)
          simpa [hdrop] using this
        by_cases hptr : blk + allocHeaderSz ≠ null
        · refine Or.inr ⟨_, blk, after, hlist, hpos, hfit, hptr, ?_⟩
          by_cases hsplit : h.size blk - alignUp size sizeofPtr ≥ minAllocSz
          · refine Or.inr ⟨hsplit, ?_⟩
            rw [heapMalloc, if_pos hpos]
            simp only [hdrop]
            rw [if_pos hptr, if_pos hsplit]
          · refine Or.inl ?_
            rw [heapMalloc, if_pos hpos]
            simp only [hdrop]
            rw [if_pos hptr, if_neg hsplit]
        · refine Or.inl ?_
          rw [heapMalloc, if_pos hpos]
          simp only [hdrop]
          rw [if_neg hptr, not_not.mp hptr]
  · refine Or.inl ?_
    rw [heapMalloc, if_neg hpos]

section Defrag

variable {size : Word → Word} {a b blk : Word} {pre rest : List Word}

/-- The block `b` does not begin where the block `a` ends. -/
def Gap (size : Word → Word) (a b : Word) : Prop := a + allocHeaderSz + size a ≠ b

/-- The loop keeps the blocks between which there are gaps. -/
theorem heapDefragLoop_append {lb : Word} (h : (lb :: (pre ++ [a])).IsChain (Gap size)) :
    heapDefragLoop size (some lb) (pre ++ a :: rest) =
      (lb :: (pre ++ (heapDefragLoop size (some a) rest).1),
        (heapDefragLoop size (some a) rest).2) := by
  induction pre generalizing lb with
  | nil =>
      rw [List.nil_append, List.isChain_cons_cons] at h
      rw [List.nil_append, heapDefragLoop, if_neg h.1]
      rfl
  | cons b pre ih =>
      rw [List.cons_append, List.isChain_cons_cons] at h
      rw [List.cons_append, heapDefragLoop, if_neg h.1, ih h.2]
      rfl

/-- The same from the beginning of the list. -/
theorem heapDefragLoop_none (h : (pre ++ [a]).IsChain (Gap size)) :
    heapDefragLoop size none (pre ++ a :: rest) =
      (pre ++ (heapDefragLoop size (some a) rest).1, (heapDefragLoop size (some a) rest).2) := by
  cases pre with
  | nil => rfl
  | cons b pre =>
      rw [List.cons_append, heapDefragLoop, heapDefragLoop_append h]
      rfl

/-- Where there are gaps only, the loop changes nothing. -/
theorem heapDefragLoop_of_isChain (h : (a :: rest).IsChain (Gap size)) :
    heapDefragLoop size (some a) rest = (a :: rest, size) := by
  induction rest generalizing a with
  | nil => rfl
  | cons b rest ih =>
      rw [List.isChain_cons_cons] at h
      rw [heapDefragLoop, if_neg h.1, ih h.2]

/-- **Nothing to merge**: a free list with gaps stays as it is. -/
theorem heapDefragFreeList_of_isChain {h : Heap} (hgap : h.freeList.IsChain (Gap h.size)) :
    heapDefragFreeList h = h := by
  obtain ⟨freeList, size⟩ := h
  cases freeList with
  | nil => rfl
  | cons a rest =>
      rw [heapDefragFreeList]
      dsimp only at hgap ⊢
      rw [heapDefragLoop, heapDefragLoop_of_isChain hgap]

/-- **One merge**: of two blocks without a gap the second is deleted, and the first becomes
`sizeofAllocNode` bytes larger than the two sizes. -/
theorem heapDefragFreeList_of_merge {h : Heap} (hlist : h.freeList = pre ++ a :: b :: rest)
    (hbefore : (pre ++ [a]).IsChain (Gap h.size)) (hadj : a + allocHeaderSz + h.size a = b)
    (hbehind : (a :: rest).IsChain
      (Gap (Function.update h.size a (h.size a + (sizeofAllocNode + h.size b))))) :
    heapDefragFreeList h =
      { freeList := pre ++ a :: rest
        size := Function.update h.size a (h.size a + (sizeofAllocNode + h.size b)) } := by
  rw [heapDefragFreeList, hlist, heapDefragLoop_none hbefore, heapDefragLoop, if_pos hadj,
    heapDefragLoop_of_isChain hbehind]

/-- **Where `heap_free` puts a block**: between the free blocks below and above it. -/
theorem heapFree_of_between {h : Heap} (hlist : h.freeList = pre ++ rest)
    (hpre : ∀ b ∈ pre, b < blk) (hrest : ∀ b ∈ rest, blk < b)
    (hptr : blk + allocHeaderSz ≠ null) :
    heapFree (blk + allocHeaderSz) h =
      heapDefragFreeList { h with freeList := pre ++ blk :: rest } := by
  have hblk : blk + allocHeaderSz - allocHeaderSz = blk := BitVec.add_sub_cancel _ _
  have hle : ∀ b ∈ pre, (decide ¬ b > blk) = true := fun b hb =>
    decide_eq_true (BitVec.not_lt.mpr (BitVec.le_of_lt (hpre b hb)))
  have htake : (h.freeList.takeWhile fun b => ¬ b > blk) = pre := by
    rw [hlist, List.takeWhile_append_of_pos hle]
    cases rest with
    | nil => simp
    | cons b rest => simp [hrest b List.mem_cons_self]
  have hdrop : (h.freeList.dropWhile fun b => ¬ b > blk) = rest := by
    rw [hlist, List.dropWhile_append_of_pos hle]
    cases rest with
    | nil => simp
    | cons b rest => simp [hrest b List.mem_cons_self]
  rw [heapFree, if_pos hptr, hblk]
  simp only [htake, hdrop]

end Defrag

/-! ## Callers -/

/-- The heap and what its callers hold of it: pointers, each with the size that was asked for. -/
structure HeapUse where
  heap : Heap
  live : List (Word × Word)

/-- The calls of the heap's two functions. -/
inductive HeapCall
  /-- `heap_malloc(size)`, and what it returns. -/
  | malloc (size ptr : Word)
  /-- `heap_free(ptr)`. -/
  | free (ptr : Word)

/-- What a call is to the callers. -/
def HeapCall.events : HeapCall → List Allocation.Event
  | .malloc size ptr => [.alloc size.toNat (if ptr = null then none else some ptr.toNat)]
  | .free ptr => if ptr = null then [] else [.release ptr.toNat]

namespace HeapUse

/-- After `heap_init`, for the `heap` array at a given address. -/
def initial (heap : Word) : HeapUse := ⟨heapInit heap Heap.initial, []⟩

/-- The headers of the allocated blocks. -/
def headers (s : HeapUse) : List Word := s.live.map fun p => p.1 - allocHeaderSz

/-- `heap_malloc(size)` by some caller, who holds the result unless it is `NULL`. -/
def malloc (size : Word) (s : HeapUse) : HeapUse :=
  let (ptr, heap) := heapMalloc size s.heap
  ⟨heap, if ptr = null then s.live else (ptr, size) :: s.live⟩

/-- `heap_free` of a pointer that some caller holds. -/
def free (p : Word × Word) (s : HeapUse) : HeapUse := ⟨heapFree p.1 s.heap, s.live.erase p⟩

/-- A call: any size may be asked for, and what is held may be given back, or `NULL`. -/
inductive Step : HeapUse → HeapCall → HeapUse → Prop
  | malloc {s : HeapUse} (size : Word) :
      Step s (.malloc size (heapMalloc size s.heap).1) (s.malloc size)
  | free {s : HeapUse} {p : Word × Word} (hp : p ∈ s.live) : Step s (.free p.1) (s.free p)
  | freeNull {s : HeapUse} : Step s (.free null) ⟨heapFree null s.heap, s.live⟩

/-- All blocks, allocated and free, with their headers. -/
def blocks (s : HeapUse) : List Extent := (s.headers ++ s.heap.freeList).map s.heap.extent

/-- The blocks do not overlap and do not leave the memory from `lo` to `hi`. -/
def Separated (lo hi : ℕ) (s : HeapUse) : Prop :=
  s.blocks.Pairwise Extent.Apart ∧ ∀ e ∈ s.blocks, e.Within lo hi

/-- The call frees a block that a free block touches, at its beginning or at its end. -/
def FreesNextToFree (s : HeapUse) : HeapCall → Prop
  | .malloc _ _ => False
  | .free ptr => ptr ≠ null ∧ ∃ f ∈ s.heap.freeList,
      f + allocHeaderSz + s.heap.size f = ptr - allocHeaderSz ∨
        ptr + s.heap.size (ptr - allocHeaderSz) = f

end HeapUse

/-! ## The heap cut into blocks -/

/-- The free ones of some blocks; each block is marked as free or not. -/
def freeOf (cells : List (Word × Bool)) : List Word := (cells.filter (·.2)).map Prod.fst

/-- The allocated ones of some blocks. -/
def liveOf (cells : List (Word × Bool)) : List Word := (cells.filter (! ·.2)).map Prod.fst

section Cells

variable {pre post cells : List (Word × Bool)} {b : Word}

@[simp] theorem freeOf_nil : freeOf [] = [] := rfl

@[simp] theorem freeOf_append : freeOf (pre ++ post) = freeOf pre ++ freeOf post := by
  simp [freeOf]

@[simp] theorem liveOf_append : liveOf (pre ++ post) = liveOf pre ++ liveOf post := by
  simp [liveOf]

@[simp] theorem freeOf_cons_true : freeOf ((b, true) :: cells) = b :: freeOf cells := rfl

@[simp] theorem freeOf_cons_false : freeOf ((b, false) :: cells) = freeOf cells := rfl

@[simp] theorem liveOf_cons_true : liveOf ((b, true) :: cells) = liveOf cells := rfl

@[simp] theorem liveOf_cons_false : liveOf ((b, false) :: cells) = b :: liveOf cells := rfl

theorem mem_freeOf : b ∈ freeOf cells ↔ (b, true) ∈ cells := by simp [freeOf]

theorem mem_liveOf : b ∈ liveOf cells ↔ (b, false) ∈ cells := by simp [liveOf]

/-- Every block is either allocated or free. -/
theorem perm_cells : (liveOf cells ++ freeOf cells).Perm (cells.map Prod.fst) := by
  induction cells with
  | nil => exact .nil
  | cons c cells ih =>
      obtain ⟨b, free⟩ := c
      cases free with
      | false => exact ih.cons b
      | true => exact List.perm_middle.trans (ih.cons b)

/-- A position in the list of the free blocks is one in the list of all blocks. -/
theorem exists_of_freeOf_eq {before after : List Word} (h : freeOf cells = before ++ b :: after) :
    ∃ pre post, cells = pre ++ (b, true) :: post ∧ freeOf pre = before ∧ freeOf post = after := by
  rw [freeOf, List.map_eq_append_iff] at h
  obtain ⟨l₁, l₂, hfilter, hbefore, hcons⟩ := h
  rw [List.map_eq_cons_iff] at hcons
  obtain ⟨c, l₃, rfl, hb, hafter⟩ := hcons
  rw [List.filter_eq_append_iff] at hfilter
  obtain ⟨m₁, m₂, rfl, hm₁, hm₂⟩ := hfilter
  rw [List.filter_eq_cons_iff] at hm₂
  obtain ⟨m₃, m₄, rfl, hm₃, hfree, hm₄⟩ := hm₂
  obtain ⟨b', free⟩ := c
  obtain rfl : b' = b := hb
  obtain rfl : free = true := hfree
  refine ⟨m₁ ++ m₃, m₄, by simp, ?_, ?_⟩
  · have hnone : m₃.filter (·.2) = [] := List.filter_eq_nil_iff.mpr hm₃
    rw [freeOf, List.filter_append, hnone, List.append_nil, hm₁, hbefore]
  · rw [freeOf, hm₄, hafter]

end Cells

/-- **The heap is cut into blocks**, from `lo` to `hi` without a gap, of which some are in the free
list and the callers hold the others; no two neighbours are free. -/
structure HeapUse.Cut (lo hi : ℕ) (s : HeapUse) (cells : List (Word × Bool)) : Prop where
  hi_le : hi ≤ 2 ^ 32
  span : hi < lo + 2 ^ 32
  tiles : Extent.Tiles lo hi (cells.map fun c => s.heap.extent c.1)
  free : s.heap.freeList = freeOf cells
  live : s.headers.Perm (liveOf cells)
  gaps : cells.IsChain fun c d => ¬ (c.2 ∧ d.2)
  room : ∀ b ∈ cells.map Prod.fst, b.toNat + allocHeaderSz.toNat < 2 ^ 32
  aligned : ∀ b ∈ cells.map Prod.fst, 4 ∣ b.toNat

namespace HeapUse.Cut

variable {lo hi : ℕ} {s : HeapUse} {cells pre post : List (Word × Bool)} {c d : Word × Bool}
  {b f : Word} {m : Bool}

/-- The end of a block is behind its header and its memory. -/
theorem extent_hi (h : Heap) (b : Word) :
    (h.extent b).hi = b.toNat + 12 + (h.size b).toNat := by
  rw [Extent.hi, Heap.extent, toNat_allocHeaderSz, Nat.add_assoc]

/-- The blocks are in the order of their addresses. -/
theorem sorted (h : s.Cut lo hi cells) :
    cells.Pairwise fun c d => c.1.toNat + 12 + (s.heap.size c.1).toNat ≤ d.1.toNat := by
  have := h.tiles.sorted
  rw [List.pairwise_map] at this
  exact this.imp fun hle => by rwa [extent_hi] at hle

/-- A block is inside of the heap. -/
theorem bounds (h : s.Cut lo hi cells) (hc : c ∈ cells) :
    lo ≤ c.1.toNat ∧ c.1.toNat + 12 + (s.heap.size c.1).toNat ≤ hi := by
  have hin := h.tiles.within (List.mem_map_of_mem hc)
  rw [Extent.Within, extent_hi] at hin
  exact hin

/-- The parts of the heap below a block and above it. -/
theorem parts (h : s.Cut lo hi (pre ++ (b, m) :: post)) :
    Extent.Tiles lo b.toNat (pre.map fun c => s.heap.extent c.1) ∧
      Extent.Tiles (b.toNat + 12 + (s.heap.size b).toNat) hi
        (post.map fun c => s.heap.extent c.1) := by
  have htiles := h.tiles
  rw [List.map_append, List.map_cons, Extent.tiles_append] at htiles
  obtain ⟨mid, hpre, hb, hpost⟩ := htiles
  rw [extent_hi] at hpost
  obtain rfl : b.toNat = mid := hb
  exact ⟨hpre, hpost⟩

/-- Where the blocks below and above a block are. -/
theorem around (h : s.Cut lo hi (pre ++ (b, m) :: post)) :
    (∀ c ∈ pre, c.1.toNat + 12 + (s.heap.size c.1).toNat ≤ b.toNat) ∧
      ∀ c ∈ post, b.toNat + 12 + (s.heap.size b).toNat ≤ c.1.toNat := by
  obtain ⟨-, hpost, hmid⟩ := List.pairwise_append.mp h.sorted
  exact ⟨fun c hc => hmid c hc (b, m) List.mem_cons_self, (List.pairwise_cons.mp hpost).1⟩

/-- No other block begins inside of a block. -/
theorem eq_of_inside (h : s.Cut lo hi cells) (hc : c ∈ cells) (hd : d ∈ cells)
    (hlo : c.1.toNat ≤ d.1.toNat)
    (hhi : d.1.toNat < c.1.toNat + 12 + (s.heap.size c.1).toNat) : d = c := by
  obtain ⟨pre, post, rfl⟩ := List.append_of_mem hc
  obtain ⟨hpre, hpost⟩ := h.around
  rcases List.mem_append.mp hd with hd | hd
  · have hle := hpre d hd
    omega
  · rcases List.mem_cons.mp hd with hd | hd
    · exact hd
    · have hle := hpost d hd
      omega

/-- Two blocks touch when the end of one is the address of the other: the end of a block does not
wrap around to another one. -/
theorem touch_iff (h : s.Cut lo hi cells) (hc : c ∈ cells) (hd : d ∈ cells) :
    c.1 + allocHeaderSz + s.heap.size c.1 = d.1 ↔
      c.1.toNat + 12 + (s.heap.size c.1).toNat = d.1.toNat := by
  obtain ⟨hclo, hchi⟩ := h.bounds hc
  obtain ⟨hdlo, hdhi⟩ := h.bounds hd
  have hle := h.hi_le
  have hspan := h.span
  rw [allocHeaderSz]
  constructor
  · intro heq
    rw [← heq] at hdlo ⊢
    bv_omega
  · intro heq
    bv_omega

/-- No block fits between two places that are the same. -/
theorem eq_nil_of_tiles {n : ℕ} {h : Heap}
    (htiles : Extent.Tiles n n (cells.map fun c => h.extent c.1)) : cells = [] := by
  refine List.map_eq_nil_iff.mp (htiles.eq_nil fun e he => ?_)
  obtain ⟨c, -, rfl⟩ := List.mem_map.mp he
  exact Nat.lt_of_lt_of_le (by decide) (Nat.le_add_right allocHeaderSz.toNat _)

/-- A free block that ends where another block begins is right below it. -/
theorem touch_below (h : s.Cut lo hi (pre ++ (b, m) :: post))
    (hf : (f, true) ∈ pre ++ (b, m) :: post)
    (htouch : f.toNat + 12 + (s.heap.size f).toNat = b.toNat) : ∃ A, pre = A ++ [(f, true)] := by
  obtain ⟨hpre, hpost⟩ := h.around
  have hmem : (f, true) ∈ pre := by
    rcases List.mem_append.mp hf with hf | hf
    · exact hf
    · rcases List.mem_cons.mp hf with hf | hf
      · obtain ⟨rfl, -⟩ := Prod.mk.inj hf
        omega
      · have hle := hpost _ hf
        dsimp only at hle
        omega
  obtain ⟨A, B, rfl⟩ := List.append_of_mem hmem
  have hbetween := h.parts.1
  rw [List.map_append, List.map_cons, Extent.tiles_append] at hbetween
  obtain ⟨mid, -, -, hB⟩ := hbetween
  rw [extent_hi, htouch] at hB
  obtain rfl : B = [] := eq_nil_of_tiles hB
  exact ⟨A, rfl⟩

/-- A free block that begins where another block ends is right above it. -/
theorem touch_above (h : s.Cut lo hi (pre ++ (b, m) :: post))
    (hf : (f, true) ∈ pre ++ (b, m) :: post)
    (htouch : b.toNat + 12 + (s.heap.size b).toNat = f.toNat) : ∃ C, post = (f, true) :: C := by
  obtain ⟨hpre, hpost⟩ := h.around
  have hmem : (f, true) ∈ post := by
    rcases List.mem_append.mp hf with hf | hf
    · have hle := hpre _ hf
      dsimp only at hle
      omega
    · rcases List.mem_cons.mp hf with hf | hf
      · obtain ⟨rfl, -⟩ := Prod.mk.inj hf
        omega
      · exact hf
  obtain ⟨B, C, rfl⟩ := List.append_of_mem hmem
  have hbetween := h.parts.2
  rw [List.map_append, List.map_cons, Extent.tiles_append] at hbetween
  obtain ⟨mid, hB, hmid, -⟩ := hbetween
  rw [htouch, ← hmid] at hB
  obtain rfl : B = [] := eq_nil_of_tiles hB
  exact ⟨C, rfl⟩

/-- Free blocks do not touch each other. -/
theorem not_touch (h : s.Cut lo hi cells) (hc : (b, true) ∈ cells) (hf : (f, true) ∈ cells) :
    b.toNat + 12 + (s.heap.size b).toNat ≠ f.toNat := by
  intro htouch
  obtain ⟨A, B, rfl⟩ := List.append_of_mem hc
  obtain ⟨C, rfl⟩ := h.touch_above hf htouch
  have hgaps := h.gaps
  rw [List.isChain_append, List.isChain_cons_cons] at hgaps
  exact hgaps.2.1.1 ⟨rfl, rfl⟩

/-- **Between free blocks there are gaps.** -/
theorem gap_of_free (h : s.Cut lo hi cells) (hc : (b, true) ∈ cells) (hf : (f, true) ∈ cells) :
    Gap s.heap.size b f := fun hgap => h.not_touch hc hf ((h.touch_iff hc hf).mp hgap)

/-- `heap_defrag_free_list` finds nothing to merge in some of the free blocks. -/
theorem isChain_gap (h : s.Cut lo hi cells) {l : List Word} (hl : l.Sublist (freeOf cells)) :
    l.IsChain (Gap s.heap.size) := by
  have hpairwise : (freeOf cells).Pairwise (Gap s.heap.size) :=
    List.pairwise_of_forall_mem_list fun b hb f hf =>
      h.gap_of_free (mem_freeOf.mp hb) (mem_freeOf.mp hf)
  exact (hpairwise.sublist hl).isChain

/-- What is allocated is one of the blocks. -/
theorem exists_of_live (h : s.Cut lo hi cells) {p : Word × Word} (hp : p ∈ s.live) :
    ∃ pre post, cells = pre ++ (p.1 - allocHeaderSz, false) :: post := by
  have hmem : p.1 - allocHeaderSz ∈ liveOf cells :=
    h.live.mem_iff.mp (List.mem_map_of_mem hp)
  exact List.append_of_mem (mem_liveOf.mp hmem)

/-- What remains allocated when a block is freed. -/
theorem live_erase (h : s.Cut lo hi (pre ++ (b, false) :: post)) {p : Word × Word}
    (hp : p ∈ s.live) (hb : p.1 - allocHeaderSz = b) :
    (s.free p).headers.Perm (liveOf pre ++ liveOf post) := by
  have hall : (b :: (s.free p).headers).Perm (b :: (liveOf pre ++ liveOf post)) := by
    have hlive := h.live
    rw [liveOf_append, liveOf_cons_false] at hlive
    refine List.Perm.trans ?_ (hlive.trans List.perm_middle)
    rw [← hb]
    exact ((List.perm_cons_erase hp).map fun q => q.1 - allocHeaderSz).symm
  exact hall.cons_inv

/-- A member of a chain may be replaced by one that its neighbours accept. -/
theorem isChain_replace {α : Type*} {R : α → α → Prop} {pre post : List α} {x y : α}
    (h : (pre ++ x :: post).IsChain R) (hpre : ∀ a ∈ pre.getLast?, R a x → R a y)
    (hpost : ∀ c ∈ post.head?, R x c → R y c) : (pre ++ y :: post).IsChain R := by
  rw [List.isChain_append, List.isChain_cons] at h ⊢
  obtain ⟨h₁, ⟨h₂, h₃⟩, h₄⟩ := h
  refine ⟨h₁, ⟨fun c hc => hpost c hc (h₂ c hc), h₃⟩, fun a ha c hc => ?_⟩
  obtain rfl : y = c := by simpa using hc
  exact hpre a ha (h₄ a ha x (by simp))

/-- The callers hold one block more when a free block is allocated. -/
theorem live_take (h : s.Cut lo hi (pre ++ (b, true) :: post)) {headers : List Word}
    (hlive : headers = b :: s.headers) : headers.Perm (liveOf (pre ++ (b, false) :: post)) := by
  have hperm := h.live
  rw [liveOf_append, liveOf_cons_true] at hperm
  rw [hlive, liveOf_append, liveOf_cons_false]
  exact (hperm.cons b).trans List.perm_middle.symm

/-- **A whole block is allocated.** -/
theorem take {s' : HeapUse} (h : s.Cut lo hi (pre ++ (b, true) :: post))
    (hsize : s'.heap.size = s.heap.size) (hfree : s'.heap.freeList = freeOf pre ++ freeOf post)
    (hlive : s'.headers = b :: s.headers) : s'.Cut lo hi (pre ++ (b, false) :: post) where
  hi_le := h.hi_le
  span := h.span
  tiles := by
    have hextent : s'.heap.extent = s.heap.extent := by
      funext a
      rw [Heap.extent, Heap.extent, hsize]
    rw [hextent]
    simpa only [List.map_append, List.map_cons] using h.tiles
  free := by rw [hfree, freeOf_append, freeOf_cons_false]
  live := h.live_take hlive
  gaps := isChain_replace h.gaps (fun _ _ _ => by simp) (fun _ _ _ => by simp)
  room := by
    have hroom := h.room
    rwa [List.map_append, List.map_cons] at hroom ⊢
  aligned := by
    have haligned := h.aligned
    rwa [List.map_append, List.map_cons] at haligned ⊢

/-- The places of blocks depend on their sizes only. -/
theorem map_extent_congr {h h' : Heap} {l : List (Word × Bool)}
    (hsize : ∀ c ∈ l, h'.size c.1 = h.size c.1) :
    (l.map fun c => h'.extent c.1) = l.map fun c => h.extent c.1 :=
  List.map_congr_left fun c hc => by rw [Heap.extent, Heap.extent, hsize c hc]

/-- Where the rest of a block begins, and its size, when `n` bytes of the block are allocated. -/
theorem toNat_rest {n : Word} (h : s.Cut lo hi cells) (hc : (b, m) ∈ cells)
    (hn : n.toNat + 44 ≤ (s.heap.size b).toNat) :
    (b + allocHeaderSz + n).toNat = b.toNat + 12 + n.toNat ∧
      (s.heap.size b - n - allocHeaderSz).toNat = (s.heap.size b).toNat - n.toNat - 12 := by
  have hle := h.hi_le
  have hbounds := (h.bounds hc).2
  dsimp only at hbounds
  rw [allocHeaderSz]
  constructor
  · bv_omega
  · bv_omega

/-- The other blocks keep their sizes when the front of a block is allocated. -/
theorem size_takeFront {n : Word} (h : s.Cut lo hi (pre ++ (b, m) :: post))
    (hn : n.toNat + 44 ≤ (s.heap.size b).toNat) (v w : Word) (hc : c ∈ pre ++ post) :
    Function.update (Function.update s.heap.size (b + allocHeaderSz + n) v) b w c.1 =
      s.heap.size c.1 := by
  obtain ⟨hpre, hpost⟩ := h.around
  have hrnat := (h.toNat_rest (b := b) (m := m) (by simp) hn).1
  have hne : c.1 ≠ b ∧ c.1 ≠ b + allocHeaderSz + n := by
    rcases List.mem_append.mp hc with hc | hc
    · have hle := hpre c hc
      exact ⟨fun heq => by rw [heq] at hle; omega, fun heq => by rw [heq] at hle; omega⟩
    · have hle := hpost c hc
      exact ⟨fun heq => by rw [heq] at hle; omega, fun heq => by rw [heq] at hle; omega⟩
  rw [Function.update_of_ne hne.1, Function.update_of_ne hne.2]

/-- **The front of a block is allocated**, and the rest becomes a free block. -/
theorem takeFront {s' : HeapUse} {n : Word} (h : s.Cut lo hi (pre ++ (b, true) :: post))
    (hn : n.toNat + 44 ≤ (s.heap.size b).toNat) (hdvd : 4 ∣ n.toNat)
    (hsize : s'.heap.size = Function.update (Function.update s.heap.size
      (b + allocHeaderSz + n) (s.heap.size b - n - allocHeaderSz)) b n)
    (hfree : s'.heap.freeList = freeOf pre ++ (b + allocHeaderSz + n) :: freeOf post)
    (hlive : s'.headers = b :: s.headers) :
    s'.Cut lo hi (pre ++ (b, false) :: (b + allocHeaderSz + n, true) :: post) := by
  have hb : (b, true) ∈ pre ++ (b, true) :: post := by simp
  obtain ⟨htpre, htpost⟩ := h.parts
  obtain ⟨hrnat, hrest⟩ := h.toNat_rest hb hn
  have hother : ∀ c ∈ pre ++ post, s'.heap.size c.1 = s.heap.size c.1 := fun c hc => by
    rw [hsize, h.size_takeFront hn _ _ hc]
  generalize b + allocHeaderSz + n = r at hsize hfree hrnat ⊢
  have hne : r ≠ b := fun heq => by
    rw [heq] at hrnat
    omega
  have hbsize : s'.heap.size b = n := by rw [hsize, Function.update_self]
  have hrsize : s'.heap.size r = s.heap.size b - n - allocHeaderSz := by
    rw [hsize, Function.update_of_ne hne, Function.update_self]
  refine ⟨h.hi_le, h.span, ?tiles, ?free, ?live, ?gaps, ?room, ?aligned⟩
  case tiles =>
    rw [List.map_append, List.map_cons, List.map_cons,
      map_extent_congr fun c hc => hother c (List.mem_append_left _ hc),
      map_extent_congr fun c hc => hother c (List.mem_append_right _ hc), Extent.tiles_append]
    refine ⟨b.toNat, htpre, rfl, ?_, ?_⟩
    · rw [extent_hi, hbsize]
      exact hrnat
    · rw [extent_hi, hrsize, hrest, hrnat]
      convert htpost using 1
      omega
  case free => rw [hfree, freeOf_append, freeOf_cons_false, freeOf_cons_true]
  case live =>
    have hperm := h.live_take hlive
    rwa [liveOf_append, liveOf_cons_false] at hperm ⊢
  case gaps =>
    -- the free rest has the neighbour above that the block had
    have hgaps := h.gaps
    rw [List.isChain_append, List.isChain_cons] at hgaps
    obtain ⟨hcpre, ⟨hhead, hcpost⟩, -⟩ := hgaps
    refine List.isChain_append.mpr ⟨hcpre, List.isChain_cons_cons.mpr ⟨by simp, ?_⟩, ?_⟩
    · exact List.isChain_cons.mpr ⟨hhead, hcpost⟩
    · simp
  case room =>
    have hroom := h.room
    simp only [List.map_append, List.map_cons, List.forall_mem_append, List.forall_mem_cons]
      at hroom ⊢
    refine ⟨hroom.1, hroom.2.1, ?_, hroom.2.2⟩
    have hbounds := (h.bounds hb).2
    have hle := h.hi_le
    dsimp only at hbounds
    rw [hrnat, toNat_allocHeaderSz]
    omega
  case aligned =>
    have haligned := h.aligned
    simp only [List.map_append, List.map_cons, List.forall_mem_append, List.forall_mem_cons]
      at haligned ⊢
    refine ⟨haligned.1, haligned.2.1, ?_, haligned.2.2⟩
    rw [hrnat]
    exact Nat.dvd_add (Nat.dvd_add haligned.2.1 (by decide)) hdvd

/-- **`heap_malloc` keeps the heap cut into blocks**, and the sizes of the allocated ones. -/
theorem malloc (h : s.Cut lo hi cells) (size : Word) :
    ∃ cells', (s.malloc size).Cut lo hi cells' ∧
      ∀ a ∈ s.headers, (s.malloc size).heap.size a = s.heap.size a := by
  rcases heapMalloc_cases size s.heap with hnull |
    ⟨before, b, after, hlist, hpos, hfit, hptr, hres | ⟨hmin, hres⟩⟩
  · refine ⟨cells, ?_, fun a _ => ?_⟩
    · rw [HeapUse.malloc, hnull]
      exact h
    · rw [HeapUse.malloc, hnull]
  · rw [h.free] at hlist
    obtain ⟨pre, post, rfl, rfl, rfl⟩ := exists_of_freeOf_eq hlist
    refine ⟨pre ++ (b, false) :: post, h.take ?_ ?_ ?_, fun a _ => ?_⟩
    · rw [HeapUse.malloc, hres]
    · rw [HeapUse.malloc, hres]
    · rw [HeapUse.malloc, hres, headers]
      dsimp only
      rw [if_neg hptr, List.map_cons, BitVec.add_sub_cancel]
      rfl
    · rw [HeapUse.malloc, hres]
  · rw [h.free] at hlist
    obtain ⟨pre, post, rfl, rfl, rfl⟩ := exists_of_freeOf_eq hlist
    have hn : (alignUp size sizeofPtr).toNat + 44 ≤ (s.heap.size b).toNat := by
      rw [minAllocSz, allocHeaderSz] at hmin
      bv_omega
    refine ⟨_, h.takeFront hn (dvd_alignUp size) ?_ ?_ ?_, fun a ha => ?_⟩
    · rw [HeapUse.malloc, hres]
    · rw [HeapUse.malloc, hres]
    · rw [HeapUse.malloc, hres, headers]
      dsimp only
      rw [if_neg hptr, List.map_cons, BitVec.add_sub_cancel]
      rfl
    · have hmem : (a, false) ∈ pre ++ post := by
        have hlive := mem_liveOf.mp (h.live.mem_iff.mp ha)
        simpa using hlive
      rw [HeapUse.malloc, hres]
      exact h.size_takeFront hn _ _ hmem

/-- The block right below ends where the block begins. -/
theorem end_below (h : s.Cut lo hi (pre ++ (b, m) :: post)) (hc : c ∈ pre.getLast?) :
    c.1.toNat + 12 + (s.heap.size c.1).toNat = b.toNat := by
  obtain ⟨A, rfl⟩ := List.getLast?_eq_some_iff.mp hc
  have hbelow := h.parts.1
  rw [List.map_append, List.map_singleton, Extent.tiles_append] at hbelow
  obtain ⟨mid, -, -, hend⟩ := hbelow
  rw [Extent.tiles_nil, extent_hi] at hend
  exact hend

/-- The block right above begins where the block ends. -/
theorem begin_above (h : s.Cut lo hi (pre ++ (b, m) :: post)) (hc : c ∈ post.head?) :
    b.toNat + 12 + (s.heap.size b).toNat = c.1.toNat := by
  obtain ⟨C, rfl⟩ := List.head?_eq_some_iff.mp hc
  exact h.parts.2.1.symm

/-- **A block is given back**, and no free block is next to it. -/
theorem release {s' : HeapUse} (h : s.Cut lo hi (pre ++ (b, false) :: post))
    (hsize : s'.heap.size = s.heap.size)
    (hfree : s'.heap.freeList = freeOf pre ++ b :: freeOf post)
    (hlive : s'.headers.Perm (liveOf pre ++ liveOf post))
    (hbelow : ∀ c ∈ pre.getLast?, c.2 = false) (habove : ∀ c ∈ post.head?, c.2 = false) :
    s'.Cut lo hi (pre ++ (b, true) :: post) where
  hi_le := h.hi_le
  span := h.span
  tiles := by
    have hmap (l : List (Word × Bool)) :
        (l.map fun c => s'.heap.extent c.1) = l.map fun c => s.heap.extent c.1 :=
      map_extent_congr fun c _ => by rw [hsize]
    rw [hmap]
    simpa only [List.map_append, List.map_cons] using h.tiles
  free := by rw [hfree, freeOf_append, freeOf_cons_true]
  live := by rwa [liveOf_append, liveOf_cons_true]
  gaps := isChain_replace h.gaps (fun c hc _ => by simp [hbelow c hc])
    (fun c hc _ => by simp [habove c hc])
  room := by
    have hroom := h.room
    rwa [List.map_append, List.map_cons] at hroom ⊢
  aligned := by
    have haligned := h.aligned
    rwa [List.map_append, List.map_cons] at haligned ⊢

section Free

variable {p : Word × Word}

/-- What is freed is not `NULL`, and its header is that of the block. -/
theorem ptr_eq (h : s.Cut lo hi (pre ++ (b, m) :: post)) (hb : p.1 - allocHeaderSz = b) :
    p.1 = b + allocHeaderSz ∧ p.1 ≠ null := by
  have hroom := h.room b (by simp)
  have hptr : p.1 = b + allocHeaderSz := by rw [← hb, BitVec.sub_add_cancel]
  refine ⟨hptr, ?_⟩
  rw [toNat_allocHeaderSz] at hroom
  rw [hptr, allocHeaderSz, null]
  bv_omega

/-- **What `heap_free` does first**: the block goes between the free blocks below and above it. -/
theorem heapFree_eq (h : s.Cut lo hi (pre ++ (b, false) :: post))
    (hb : p.1 - allocHeaderSz = b) : heapFree p.1 s.heap =
      heapDefragFreeList { s.heap with freeList := freeOf pre ++ b :: freeOf post } := by
  obtain ⟨hpre, hpost⟩ := h.around
  obtain ⟨hptr, hnull⟩ := h.ptr_eq hb
  have hlist : s.heap.freeList = freeOf pre ++ freeOf post := by
    rw [h.free, freeOf_append, freeOf_cons_false]
  rw [hptr] at hnull ⊢
  refine heapFree_of_between hlist (fun f hf => ?_) (fun f hf => ?_) hnull
  · have hle := hpre _ (mem_freeOf.mp hf)
    dsimp only at hle
    bv_omega
  · have hle := hpost _ (mem_freeOf.mp hf)
    dsimp only at hle
    bv_omega

/-- What it means that a block is freed next to a free one. -/
theorem freesNextToFree_iff (h : s.Cut lo hi (pre ++ (b, false) :: post))
    (hb : p.1 - allocHeaderSz = b) : s.FreesNextToFree (.free p.1) ↔
      (∃ c ∈ pre.getLast?, c.2 = true) ∨ ∃ c ∈ post.head?, c.2 = true := by
  obtain ⟨hptr, hnull⟩ := h.ptr_eq hb
  have hmem : (b, false) ∈ pre ++ (b, false) :: post := by simp
  constructor
  · rintro ⟨-, f, hf, htouch⟩
    rw [h.free, mem_freeOf] at hf
    rw [hb, hptr] at htouch
    rcases htouch with htouch | htouch
    · obtain ⟨A, rfl⟩ := h.touch_below hf ((h.touch_iff hf hmem).mp htouch)
      exact Or.inl ⟨(f, true), by simp, rfl⟩
    · obtain ⟨C, rfl⟩ := h.touch_above hf ((h.touch_iff hmem hf).mp htouch)
      exact Or.inr ⟨(f, true), by simp, rfl⟩
  · rintro (⟨⟨f, fm⟩, hc, rfl⟩ | ⟨⟨f, fm⟩, hc, rfl⟩)
    · have hf : (f, true) ∈ pre ++ (b, false) :: post :=
        List.mem_append_left _ (List.mem_of_mem_getLast? hc)
      refine ⟨hnull, f, h.free ▸ mem_freeOf.mpr hf, Or.inl ?_⟩
      rw [hb]
      exact (h.touch_iff hf hmem).mpr (h.end_below hc)
    · have hf : (f, true) ∈ pre ++ (b, false) :: post :=
        List.mem_append_right _ (List.mem_cons_of_mem _ (List.mem_of_mem_head? hc))
      refine ⟨hnull, f, h.free ▸ mem_freeOf.mpr hf, Or.inr ?_⟩
      rw [hb, hptr]
      exact (h.touch_iff hmem hf).mpr (h.begin_above hc)

/-- **`heap_free` away from free blocks** keeps the heap cut into blocks of the same sizes. -/
theorem free_apart (h : s.Cut lo hi cells) (hp : p ∈ s.live)
    (hapart : ¬ s.FreesNextToFree (.free p.1)) :
    ∃ cells', (s.free p).Cut lo hi cells' ∧ (s.free p).heap.size = s.heap.size := by
  obtain ⟨pre, post, rfl⟩ := h.exists_of_live hp
  rw [h.freesNextToFree_iff rfl, not_or] at hapart
  have hbelow : ∀ c ∈ pre.getLast?, c.2 = false := fun c hc =>
    Bool.eq_false_iff.mpr fun hfree => hapart.1 ⟨c, hc, hfree⟩
  have habove : ∀ c ∈ post.head?, c.2 = false := fun c hc =>
    Bool.eq_false_iff.mpr fun hfree => hapart.2 ⟨c, hc, hfree⟩
  -- the block in its place, before neighbours are merged
  let s' : HeapUse :=
    ⟨{ s.heap with freeList := freeOf pre ++ (p.1 - allocHeaderSz) :: freeOf post },
      s.live.erase p⟩
  have hput : s'.Cut lo hi (pre ++ (p.1 - allocHeaderSz, true) :: post) :=
    h.release rfl rfl (h.live_erase hp rfl) hbelow habove
  have hfree : s.free p = s' := by
    rw [HeapUse.free, h.heapFree_eq rfl, heapDefragFreeList_of_isChain]
    exact hput.isChain_gap (by rw [freeOf_append, freeOf_cons_true])
  rw [hfree]
  exact ⟨_, hput, rfl⟩

/-- The size of a merged block: its end is four bytes behind that of the second block. -/
theorem toNat_merged {a : Word} {n : Bool} (h : s.Cut lo hi (pre ++ (a, m) :: (b, n) :: post)) :
    a.toNat + 12 + (s.heap.size a + (sizeofAllocNode + s.heap.size b)).toNat =
      b.toNat + 12 + (s.heap.size b).toNat + 4 := by
  have hadj : a.toNat + 12 + (s.heap.size a).toNat = b.toNat := h.begin_above (c := (b, n)) rfl
  have hbounds := (h.bounds (c := (b, n)) (by simp)).2
  have hle := h.hi_le
  dsimp only at hbounds
  rw [sizeofAllocNode]
  bv_omega

/-- The blocks behind a merged block keep their sizes. -/
theorem size_merged {a : Word} {n : Bool} (h : s.Cut lo hi (pre ++ (a, m) :: (b, n) :: post))
    (v : Word) (hc : c ∈ post) : Function.update s.heap.size a v c.1 = s.heap.size c.1 := by
  have habove := h.around.2 c (List.mem_cons_of_mem _ hc)
  refine Function.update_of_ne (fun heq => ?_) _ _
  rw [heq] at habove
  omega

/-- A block further up begins right behind this one, or at least a header behind its end. -/
theorem behind (h : s.Cut lo hi (pre ++ (b, m) :: post)) (hc : c ∈ post) :
    c.1.toNat = b.toNat + 12 + (s.heap.size b).toNat ∨
      b.toNat + 12 + (s.heap.size b).toNat + 12 ≤ c.1.toNat := by
  cases post with
  | nil => simp at hc
  | cons d post =>
      have hd := h.begin_above (c := d) rfl
      rcases List.mem_cons.mp hc with rfl | hc
      · exact Or.inl hd.symm
      · rw [List.append_cons] at h
        have hle := h.around.2 _ hc
        omega

/-- **Merging two neighbours**: the loop merges these two and nothing else, since the result does
not end where a block begins. -/
theorem defrag_merge {a : Word} {n : Bool} (h : s.Cut lo hi (pre ++ (a, m) :: (b, n) :: post))
    (heap : Heap) (hsize : heap.size = s.heap.size)
    (hlist : heap.freeList = freeOf pre ++ a :: b :: freeOf post)
    (hbefore : (freeOf pre ++ [a]).IsChain (Gap s.heap.size)) :
    heapDefragFreeList heap =
      { freeList := freeOf pre ++ a :: freeOf post
        size := Function.update s.heap.size a
          (s.heap.size a + (sizeofAllocNode + s.heap.size b)) } := by
  have ha : (a, m) ∈ pre ++ (a, m) :: (b, n) :: post := by simp
  have hb : (b, n) ∈ pre ++ (a, m) :: (b, n) :: post := by simp
  have hadj := (h.touch_iff ha hb).mpr (h.begin_above rfl)
  rw [← hsize] at hadj hbefore ⊢
  refine heapDefragFreeList_of_merge hlist hbefore hadj ?_
  rw [hsize, List.isChain_cons]
  constructor
  · intro f hf hgap
    have hmem : (f, true) ∈ post := mem_freeOf.mp (List.mem_of_mem_head? hf)
    have hbehind : f.toNat = b.toNat + 12 + (s.heap.size b).toNat ∨
        b.toNat + 12 + (s.heap.size b).toNat + 12 ≤ f.toNat := by
      rw [List.append_cons] at h
      exact h.behind hmem
    have hmerged := h.toNat_merged
    have hend := (h.bounds (c := (f, true)) (by simp [hmem])).2
    have hle := h.hi_le
    rw [Function.update_self, allocHeaderSz] at hgap
    dsimp only at hend
    generalize s.heap.size a + (sizeofAllocNode + s.heap.size b) = v at hmerged hgap
    bv_omega
  · have hsub : (freeOf post).Sublist (freeOf (pre ++ (a, m) :: (b, n) :: post)) := by
      refine List.Sublist.map _ (List.Sublist.filter _ ?_)
      exact List.sublist_append_of_sublist_right
        (List.sublist_cons_of_sublist _ (List.sublist_cons_self _ _))
    refine List.IsChain.imp_of_mem_imp (fun f g hf _ hgap => ?_) (h.isChain_gap hsub)
    have hsame := h.size_merged (s.heap.size a + (sizeofAllocNode + s.heap.size b))
      (mem_freeOf.mp hf)
    rwa [Gap, hsame]

/-- **A merged block overlaps** the block behind it, or reaches beyond the end of the heap. -/
theorem not_separated_of_merge {a : Word} {n : Bool}
    (h : s.Cut lo hi (pre ++ (a, m) :: (b, n) :: post)) (s' : HeapUse)
    (hheap : s'.heap =
      { freeList := freeOf pre ++ a :: freeOf post
        size := Function.update s.heap.size a
          (s.heap.size a + (sizeofAllocNode + s.heap.size b)) })
    (hlive : ∀ c ∈ post, c.2 = false → c.1 ∈ s'.headers) (lo' : ℕ) :
    ¬ s'.Separated lo' hi := by
  rintro ⟨hpw, hin⟩
  have hsize := congrArg Heap.size hheap
  have hlist := congrArg Heap.freeList hheap
  dsimp only at hsize hlist
  have ha : a ∈ s'.headers ++ s'.heap.freeList := by
    rw [hlist]
    simp
  have hpost : ∀ c ∈ post, c.1 ∈ s'.headers ++ s'.heap.freeList := fun c hc => by
    rw [hlist, List.mem_append]
    cases hm : c.2 with
    | false => exact Or.inl (hlive c hc hm)
    | true =>
        have hfree : c.1 ∈ freeOf post := mem_freeOf.mpr (hm ▸ hc)
        simp [hfree]
  have hmerged := h.toNat_merged
  have hadj : a.toNat + 12 + (s.heap.size a).toNat = b.toNat := h.begin_above (c := (b, n)) rfl
  have hend : (s'.heap.extent a).hi = b.toNat + 12 + (s.heap.size b).toNat + 4 := by
    rw [extent_hi, hsize, Function.update_self, hmerged]
  have hmem : s'.heap.extent a ∈ s'.blocks := List.mem_map_of_mem ha
  have hbehind := h
  rw [List.append_cons] at hbehind
  cases post with
  | nil =>
      have hlast := hbehind.parts.2
      rw [List.map_nil, Extent.tiles_nil] at hlast
      have hle := (hin _ hmem).2
      omega
  | cons c C =>
      have hc := hbehind.begin_above (c := c) rfl
      have hcsize : s'.heap.size c.1 = s.heap.size c.1 := by
        rw [hsize, h.size_merged _ List.mem_cons_self]
      have hcmem : s'.heap.extent c.1 ∈ s'.blocks :=
        List.mem_map_of_mem (hpost c List.mem_cons_self)
      have hne : s'.heap.extent a ≠ s'.heap.extent c.1 := fun heq => by
        have hlo : a.toNat = c.1.toNat := congrArg Extent.lo heq
        omega
      rcases hpw.forall hmem hcmem hne with hle | hle
      · rw [hend] at hle
        have hlo : (s'.heap.extent c.1).lo = c.1.toNat := rfl
        omega
      · rw [extent_hi, hcsize] at hle
        have hlo : (s'.heap.extent a).lo = a.toNat := rfl
        omega

/-- **`heap_free` next to a free block** leaves blocks that overlap or reach beyond the end. -/
theorem free_next (h : s.Cut lo hi cells) (hp : p ∈ s.live)
    (hnext : s.FreesNextToFree (.free p.1)) (lo' : ℕ) : ¬ (s.free p).Separated lo' hi := by
  obtain ⟨pre, post, rfl⟩ := h.exists_of_live hp
  have hfree := h.heapFree_eq (p := p) rfl
  have hlive := h.live_erase hp rfl
  rw [h.freesNextToFree_iff rfl] at hnext
  generalize p.1 - allocHeaderSz = b at h hfree hlive hnext
  have hmem : ∀ c ∈ pre ++ post, c.2 = false → c.1 ∈ (s.free p).headers := fun c hc hfalse => by
    rw [hlive.mem_iff, ← liveOf_append, mem_liveOf, ← hfalse]
    exact hc
  by_cases hbelow : ∃ c ∈ pre.getLast?, c.2 = true
  · -- the block is merged into the one below it
    obtain ⟨⟨f, fm⟩, hc, rfl⟩ := hbelow
    obtain ⟨A, rfl⟩ := List.getLast?_eq_some_iff.mp hc
    rw [← List.append_cons] at h
    have hmerge := h.defrag_merge { s.heap with
      freeList := freeOf (A ++ [(f, true)]) ++ b :: freeOf post } rfl (by simp)
      (h.isChain_gap (by simp))
    refine h.not_separated_of_merge (s.free p) ?_ (fun c hc => hmem c (by simp [hc])) lo'
    rw [HeapUse.free, hfree, hmerge]
  · -- the block above is merged into this one
    obtain ⟨⟨f, fm⟩, hc, rfl⟩ := hnext.resolve_left hbelow
    obtain ⟨C, rfl⟩ := List.head?_eq_some_iff.mp hc
    have hbefore : (freeOf pre ++ [b]).IsChain (Gap s.heap.size) := by
      rw [List.isChain_append]
      refine ⟨h.isChain_gap (by simp), .singleton b, fun g hg c hc hgap => ?_⟩
      obtain rfl : b = c := by simpa using hc
      have hgpre : (g, true) ∈ pre := mem_freeOf.mp (List.mem_of_mem_getLast? hg)
      have hgmem : (g, true) ∈ pre ++ (b, false) :: (f, true) :: C :=
        List.mem_append_left _ hgpre
      obtain ⟨A, rfl⟩ := h.touch_below hgmem
        ((h.touch_iff hgmem (d := (b, false)) (by simp)).mp hgap)
      exact hbelow ⟨(g, true), by simp, rfl⟩
    have hmerge := h.defrag_merge { s.heap with
      freeList := freeOf pre ++ b :: freeOf ((f, true) :: C) } rfl (by simp) hbefore
    refine h.not_separated_of_merge (s.free p) ?_ (fun c hc => hmem c (by simp [hc])) lo'
    rw [HeapUse.free, hfree, hmerge]

end Free

/-- **The blocks of the heap are apart** and inside of it. -/
theorem separated (h : s.Cut lo hi cells) {lo' : ℕ} (hlo : lo' ≤ lo) : s.Separated lo' hi := by
  have hperm : s.blocks.Perm (cells.map fun c => s.heap.extent c.1) := by
    have := ((h.live.append_right s.heap.freeList).trans
      (h.free ▸ perm_cells)).map s.heap.extent
    rwa [List.map_map] at this
  refine ⟨(hperm.pairwise_iff Extent.Apart.symm).mpr h.tiles.pairwise, fun e he => ?_⟩
  exact (h.tiles.within (hperm.mem_iff.mp he)).mono hlo le_rfl

end HeapUse.Cut

end Storm
