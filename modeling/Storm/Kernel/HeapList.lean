import Mathlib.Data.List.TakeWhile
import Storm.Kernel.HeapRuns

/-! # The kernel heap on its linked list

The functions of `heap.c` on the memory that they work on: the links of the list `free_list` and the
`size` members of the headers. The loops follow the links. `node` is the first member of an
`alloc_node_t`, so a block and its list node have the same address.

`Represents` says that the list holds the free blocks of a `Heap` in their order. Each function then
does on the memory what the function of the same name of `Storm.Kernel.Heap` does on the heap, and
its loops end. `HeapMemory.refines` is this for sequences of calls. -/

namespace Storm

open ByteMemory DoublyLinked Transition

/-- The memory of the heap: the links and the `size` members. -/
structure HeapMemory where
  links : Lists
  size : Word → Word

namespace HeapMemory

variable {head : Word}

/-- `heap_add_block`. -/
def addBlock (head addr size : Word) (m : HeapMemory) : HeapMemory :=
  let blk := alignUp addr sizeofPtr
  { size := Function.update m.size blk (addr + size - blk - allocHeaderSz)
    links := listAdd blk head m.links }

/-- `heap_init`, for the `heap` array at a given address. -/
def init (head heap : Word) (m : HeapMemory) : HeapMemory := addBlock head heap heapSize m

/-- The loop of `heap_defrag_free_list` from the block `b` on, of which `t` is the following one:
`list_for_each_entry_safe` reads the link of `t` before it turns to it. It does not end, as far as
`fuel` tells, when it returns `none`. -/
def defragLoop (head : Word) : ℕ → (b t lb : Word) → HeapMemory → Option HeapMemory
  | 0, _, _, _, _ => none
  | fuel + 1, b, t, lb, m =>
      if b ≠ head then
        if lb ≠ null ∧ lb + allocHeaderSz + m.size lb = b then
          let m :=
            { size := Function.update m.size lb (m.size lb + (sizeofAllocNode + m.size b))
              links := listDel b m.links }
          defragLoop head fuel t (m.links t).next lb m
        else defragLoop head fuel t (m.links t).next b m
      else some m

/-- `heap_defrag_free_list`. -/
def defragFreeList (head : Word) (fuel : ℕ) (m : HeapMemory) : Option HeapMemory :=
  let b := (m.links head).next
  defragLoop head fuel b (m.links b).next null m

/-- `heap_malloc`. -/
def malloc (head : Word) (fuel : ℕ) (size : Word) (m : HeapMemory) : Option (Word × HeapMemory) :=
  if size > 0 then do
    let size := alignUp size sizeofPtr
    let found ← listForEachEntry head (fun blk => m.size blk ≥ size) m.links fuel (m.links head).next
    match found with
    | none => some (null, m)
    | some blk =>
        let ptr := blk + allocHeaderSz
        if ptr ≠ null then
          let m :=
            if m.size blk - size ≥ minAllocSz then
              let newBlk := ptr + size
              let sizes := Function.update m.size newBlk (m.size blk - size - allocHeaderSz)
              { size := Function.update sizes blk size
                links := listInsert newBlk blk (m.links blk).next m.links }
            else m
          some (ptr, { m with links := listDel blk m.links })
        else some (ptr, m)
  else some (null, m)

/-- `heap_free`. -/
def free (head : Word) (fuel : ℕ) (ptr : Word) (m : HeapMemory) : Option HeapMemory :=
  if ptr ≠ null then do
    let blk := ptr - allocHeaderSz
    let found ← listForEachEntry head (fun freeBlk => freeBlk > blk) m.links fuel (m.links head).next
    let links :=
      match found with
      | some freeBlk => listInsert blk (m.links freeBlk).prev freeBlk m.links
      | none => listAddTail blk head m.links
    defragFreeList head fuel { m with links }
  else some m

/-- The list at `head` holds the free blocks of the heap `h`, and the headers their sizes. -/
structure Represents (head : Word) (m : HeapMemory) (h : Heap) : Prop where
  ring : Ring m.links head h.freeList
  size : m.size = h.size

/-- The first member of a circle, or the header of an empty one. -/
theorem next_first {m : Lists} {xs : List Word} (hr : Ring m head xs) :
    (m head).next ∈ (xs ++ [head]).head? := by
  obtain ⟨s, hs⟩ : ∃ s, s ∈ (xs ++ [head]).head? := by
    cases xs with
    | nil => exact ⟨head, by simp⟩
    | cons y ys => exact ⟨y, by simp⟩
  have hlink := Ring.linked_at [] xs hr (p := head) (by simp) hs
  rw [hlink.1]
  exact hs

/-- **The loop of `heap_defrag_free_list`** on the list is the loop on the sequence of blocks. -/
theorem defragLoop_refines {rest : List Word} (pre : List Word) (o : Option Word) {b t : Word}
    {m : HeapMemory} (hr : Ring m.links head (pre ++ o.toList ++ rest))
    (hb : b ∈ (rest ++ [head]).head?) (ht : t = (m.links b).next) (hnull : null ∉ o.toList ++ rest) :
    ∃ m', (∀ fuel, rest.length < fuel → defragLoop head fuel b t (o.getD null) m = some m') ∧
      Ring m'.links head (pre ++ (heapDefragLoop m.size o rest).1) ∧
      m'.size = (heapDefragLoop m.size o rest).2 := by
  induction rest generalizing pre o b t m with
  | nil =>
      obtain rfl : head = b := by simpa using hb
      refine ⟨m, fun fuel hfuel => ?_, ?_, ?_⟩
      · obtain ⟨fuel, rfl⟩ := Nat.exists_eq_add_one.mpr hfuel
        rw [defragLoop, if_neg (not_not.mpr rfl)]
      · cases o <;> simpa [heapDefragLoop] using hr
      · cases o <;> rfl
  | cons x rest ih =>
      obtain rfl : x = b := by simpa using hb
      have hx : x ≠ head := by
        rintro rfl
        have hnd := hr.nodup
        simp at hnd
      have htmem : t ∈ (rest ++ [head]).head? := ht ▸ next_member hr
      -- a turn that only moves on
      have hkeep : ∀ pre, Ring m.links head (pre ++ (some x).toList ++ rest) →
          ∃ m', (∀ fuel, rest.length < fuel →
              defragLoop head fuel t (m.links t).next x m = some m') ∧
            Ring m'.links head (pre ++ (heapDefragLoop m.size (some x) rest).1) ∧
            m'.size = (heapDefragLoop m.size (some x) rest).2 := fun pre hr' => by
        refine ih pre (some x) hr' htmem rfl ?_
        simp only [Option.toList_some, List.singleton_append]
        exact fun h => hnull (List.mem_append_right _ h)
      cases o with
      | none =>
          obtain ⟨m', hm', hring, hsize⟩ := hkeep pre (by simpa using hr)
          refine ⟨m', fun fuel hfuel => ?_, ?_, ?_⟩
          · obtain ⟨fuel, rfl⟩ := Nat.exists_eq_add_one.mpr (Nat.zero_lt_of_lt hfuel)
            rw [defragLoop, if_pos hx, if_neg (by simp)]
            exact hm' fuel (Nat.lt_of_succ_lt_succ hfuel)
          · rwa [heapDefragLoop]
          · rwa [heapDefragLoop]
      | some lb =>
          have hlb : lb ≠ null := by
            rintro rfl
            simp at hnull
          rw [heapDefragLoop]
          by_cases hadj : lb + allocHeaderSz + m.size lb = x
          · -- `x` is merged into `lb` and deleted
            obtain ⟨m', hm', hring, hsize⟩ := ih pre (some lb)
              (m := ⟨listDel x m.links,
                Function.update m.size lb (m.size lb + (sizeofAllocNode + m.size x))⟩)
              (ring_listDel hr) htmem rfl (by
                simp only [Option.toList_some, List.singleton_append, List.mem_cons, not_or]
                  at hnull ⊢
                exact ⟨hnull.1, hnull.2.2⟩)
            rw [if_pos hadj]
            refine ⟨m', fun fuel hfuel => ?_, hring, hsize⟩
            obtain ⟨fuel, rfl⟩ := Nat.exists_eq_add_one.mpr (Nat.zero_lt_of_lt hfuel)
            rw [defragLoop, if_pos hx, if_pos ⟨hlb, hadj⟩]
            exact hm' fuel (Nat.lt_of_succ_lt_succ hfuel)
          · obtain ⟨m', hm', hring, hsize⟩ := hkeep (pre ++ [lb]) (by simpa using hr)
            rw [if_neg hadj]
            refine ⟨m', fun fuel hfuel => ?_, by simpa using hring, hsize⟩
            obtain ⟨fuel, rfl⟩ := Nat.exists_eq_add_one.mpr (Nat.zero_lt_of_lt hfuel)
            rw [defragLoop, if_pos hx, if_neg fun h => hadj h.2]
            exact hm' fuel (Nat.lt_of_succ_lt_succ hfuel)

section Refinement

variable {m : HeapMemory} {h : Heap}

/-- **`heap_defrag_free_list`** on the list. -/
theorem defragFreeList_refines (hr : Represents head m h) (hnull : null ∉ h.freeList) :
    ∃ m', (∀ fuel, h.freeList.length < fuel → defragFreeList head fuel m = some m') ∧
      Represents head m' (heapDefragFreeList h) := by
  obtain ⟨m', hm', hring, hsize⟩ := defragLoop_refines [] none
    (by simpa using hr.ring) (next_first hr.ring) rfl (by simpa using hnull)
  refine ⟨m', hm', ?_, ?_⟩
  · rw [heapDefragFreeList, ← hr.size]
    exact hring
  · rw [heapDefragFreeList, ← hr.size]
    exact hsize

/-- The search for the first member with a property finds the head of the list that is left when
the members without it are passed. -/
theorem search_ring {links : Lists} {xs : List Word} (hr : Ring links head xs)
    (found passed : Word → Bool) (hnot : ∀ a, found a = !passed a) {fuel : ℕ}
    (hfuel : xs.length < fuel) :
    listForEachEntry head found links fuel (links head).next = some (xs.dropWhile passed).head? := by
  obtain rfl : found = fun a => !passed a := funext hnot
  rw [← List.find?_not_eq_head?_dropWhile]
  exact listForEachEntry_ring [] hr (next_first hr) hfuel

/-- The rest of a block is put behind it, and the block is taken out. -/
theorem ring_split {links : Lists} {before after : List Word} {blk rest : Word}
    (hr : Ring links head (before ++ blk :: after))
    (hrest : rest ∉ head :: (before ++ blk :: after)) :
    Ring (listDel blk (listInsert rest blk (links blk).next links)) head
      (before ++ rest :: after) := by
  have hnext := next_member hr
  rw [List.append_cons] at hr hrest
  have hinsert := ring_listInsert hr hrest (p := blk) (by simp [List.getLast?_cons]) hnext
  rw [← List.append_cons] at hinsert
  exact ring_listDel hinsert

/-- A block is put in front of the member that was found, or at the end of the list. -/
theorem ring_place {links : Lists} {before after : List Word} {blk : Word}
    (hr : Ring links head (before ++ after)) (hblk : blk ∉ head :: (before ++ after)) :
    Ring (match after.head? with
      | some freeBlk => listInsert blk (links freeBlk).prev freeBlk links
      | none => listAddTail blk head links) head (before ++ blk :: after) := by
  cases after with
  | nil =>
      rw [List.append_nil] at hr hblk
      exact ring_listAddTail hr hblk
  | cons freeBlk after =>
      obtain ⟨p, hp⟩ : ∃ p, p ∈ (head :: before).getLast? := by simp [List.getLast?_cons]
      have hprev : (links freeBlk).prev = p :=
        (hr.linked_at before (freeBlk :: after) hp (s := freeBlk) (by simp)).2
      rw [List.head?_cons]
      dsimp only
      rw [hprev]
      exact ring_listInsert hr hblk hp (by simp)

/-- **`heap_malloc`** on the list. The rest of the block that is taken must not be in the list. -/
theorem malloc_refines (hr : Represents head m h) (size : Word)
    (hfresh : ∀ blk ∈ h.freeList, alignUp size sizeofPtr ≤ h.size blk →
      minAllocSz ≤ h.size blk - alignUp size sizeofPtr →
        blk + allocHeaderSz + alignUp size sizeofPtr ∉ head :: h.freeList) :
    ∃ m', (∀ fuel, h.freeList.length < fuel →
        malloc head fuel size m = some ((heapMalloc size h).1, m')) ∧
      Represents head m' (heapMalloc size h).2 := by
  by_cases hpos : size > 0
  · have hsearch (fuel : ℕ) := @search_ring head _ _ hr.ring
      (fun blk => m.size blk ≥ alignUp size sizeofPtr)
      (fun blk => h.size blk < alignUp size sizeofPtr) (fun blk => by
        rw [hr.size, Bool.eq_iff_iff]
        simp) fuel
    have hlist := List.takeWhile_append_dropWhile (l := h.freeList)
      (p := fun blk => h.size blk < alignUp size sizeofPtr)
    have hhead := List.head_dropWhile_not (fun blk => h.size blk < alignUp size sizeofPtr)
      (l := h.freeList)
    simp only [malloc, heapMalloc, if_pos hpos, Option.bind_eq_bind]
    generalize (h.freeList.takeWhile fun blk => h.size blk < alignUp size sizeofPtr) = before
      at hlist ⊢
    generalize hdrop : (h.freeList.dropWhile fun blk => h.size blk < alignUp size sizeofPtr) = rest
      at hlist hsearch hhead ⊢
    cases rest with
    | nil => exact ⟨m, fun fuel hfuel => by rw [hsearch fuel hfuel]; rfl, hr⟩
    | cons blk after =>
        have hring : Ring m.links head (before ++ blk :: after) := hlist ▸ hr.ring
        have hmem : blk ∈ h.freeList := hlist ▸ by simp
        have hfit : alignUp size sizeofPtr ≤ h.size blk :=
          BitVec.not_lt.mp (of_decide_eq_false (hhead (List.cons_ne_nil _ _)))
        by_cases hptr : blk + allocHeaderSz ≠ null
        · by_cases hsplit : h.size blk - alignUp size sizeofPtr ≥ minAllocSz
          · refine ⟨⟨listDel blk (listInsert (blk + allocHeaderSz + alignUp size sizeofPtr) blk
                (m.links blk).next m.links),
              Function.update (Function.update h.size (blk + allocHeaderSz + alignUp size sizeofPtr)
                (h.size blk - alignUp size sizeofPtr - allocHeaderSz)) blk
                (alignUp size sizeofPtr)⟩, fun fuel hfuel => ?_, ?_⟩
            · rw [hsearch fuel hfuel, List.head?_cons, Option.bind_some]
              dsimp only
              rw [if_pos hptr, if_pos hptr, hr.size, if_pos hsplit, if_pos hsplit]
            · have hnew := hfresh blk hmem hfit hsplit
              rw [← hlist] at hnew
              dsimp only
              rw [if_pos hptr, if_pos hsplit]
              exact ⟨ring_split hring hnew, rfl⟩
          · refine ⟨⟨listDel blk m.links, h.size⟩, fun fuel hfuel => ?_, ?_⟩
            · rw [hsearch fuel hfuel, List.head?_cons, Option.bind_some]
              dsimp only
              rw [if_pos hptr, if_pos hptr, hr.size, if_neg hsplit, if_neg hsplit, hr.size]
            · dsimp only
              rw [if_pos hptr, if_neg hsplit]
              exact ⟨ring_listDel hring, rfl⟩
        · refine ⟨m, fun fuel hfuel => ?_, ?_⟩
          · rw [hsearch fuel hfuel, List.head?_cons, Option.bind_some]
            dsimp only
            rw [if_neg hptr, if_neg hptr]
          · dsimp only
            rw [if_neg hptr]
            exact hr
  · rw [heapMalloc, if_neg hpos]
    exact ⟨m, fun fuel _ => by rw [malloc, if_neg hpos], hr⟩

/-- **`heap_free`** on the list. The block must not be in it. -/
theorem free_refines (hr : Represents head m h) {ptr : Word}
    (hblk : ptr - allocHeaderSz ∉ head :: h.freeList) (hnull : null ∉ h.freeList)
    (hblknull : ptr - allocHeaderSz ≠ null) :
    ∃ m', (∀ fuel, h.freeList.length + 1 < fuel → free head fuel ptr m = some m') ∧
      Represents head m' (heapFree ptr h) := by
  by_cases hptr : ptr ≠ null
  · have hsearch (fuel : ℕ) := @search_ring head _ _ hr.ring
      (fun freeBlk => freeBlk > ptr - allocHeaderSz)
      (fun freeBlk => ¬ freeBlk > ptr - allocHeaderSz) (fun freeBlk => by
        rw [Bool.eq_iff_iff]
        simp) fuel
    have hlist := List.takeWhile_append_dropWhile (l := h.freeList)
      (p := fun freeBlk => ¬ freeBlk > ptr - allocHeaderSz)
    simp only [free, heapFree, if_pos hptr, Option.bind_eq_bind]
    generalize (h.freeList.takeWhile fun freeBlk => ¬ freeBlk > ptr - allocHeaderSz) = before
      at hlist ⊢
    generalize (h.freeList.dropWhile fun freeBlk => ¬ freeBlk > ptr - allocHeaderSz) = after
      at hlist hsearch ⊢
    generalize ptr - allocHeaderSz = blk at hblk hblknull hsearch ⊢
    have hring := ring_place (hlist ▸ hr.ring) (hlist ▸ hblk)
    have hnull' : null ∉ before ++ blk :: after := by
      rw [← hlist, List.mem_append] at hnull
      rw [List.mem_append, List.mem_cons]
      rintro (h₁ | h₁ | h₁)
      · exact hnull (Or.inl h₁)
      · exact hblknull h₁.symm
      · exact hnull (Or.inr h₁)
    obtain ⟨m', hm', hr'⟩ := defragFreeList_refines (m := { m with links := _ })
      (h := { h with freeList := before ++ blk :: after }) ⟨hring, hr.size⟩ hnull'
    refine ⟨m', fun fuel hfuel => ?_, hr'⟩
    rw [hsearch fuel (Nat.lt_of_succ_lt hfuel), Option.bind_some]
    refine hm' fuel ?_
    rw [← hlist, List.length_append] at hfuel
    simp only [List.length_append, List.length_cons]
    omega
  · rw [heapFree, if_neg hptr]
    exact ⟨m, fun fuel _ => by rw [free, if_neg hptr], hr⟩

end Refinement

/-! ## Sequences of calls -/

/-- A call on the list, with what the callers hold; its loops end, however many turns more they are
allowed. -/
inductive Step (head : Word) : HeapMemory × List (Word × Word) → HeapCall →
    HeapMemory × List (Word × Word) → Prop
  | malloc {m m' : HeapMemory} {live : List (Word × Word)} {size ptr : Word} (n : ℕ)
      (h : ∀ fuel, n < fuel → malloc head fuel size m = some (ptr, m')) :
      Step head (m, live) (.malloc size ptr)
        (m', if ptr = null then live else (ptr, size) :: live)
  | free {m m' : HeapMemory} {live : List (Word × Word)} {p : Word × Word} (hp : p ∈ live) (n : ℕ)
      (h : ∀ fuel, n < fuel → free head fuel p.1 m = some m') :
      Step head (m, live) (.free p.1) (m', live.erase p)
  | freeNull {m m' : HeapMemory} {live : List (Word × Word)} (n : ℕ)
      (h : ∀ fuel, n < fuel → free head fuel null m = some m') :
      Step head (m, live) (.free null) (m', live)

/-- The memory after `heap_init`: the array is zeroed, and `free_list` was an empty list. -/
def initial (head heap : Word) (links : Lists) : HeapMemory :=
  init head heap ⟨listInit head links, Heap.initial.size⟩

/-- The list and the callers are those of `s`, whose heap is cut into blocks away from the list's
header and from `NULL`. -/
structure Refines (lo hi : ℕ) (head : Word) (t : HeapMemory × List (Word × Word)) (s : HeapUse) :
    Prop where
  represents : Represents head t.1 s.heap
  live : t.2 = s.live
  cut : ∃ cells, s.Cut lo hi cells
  head_apart : head.toNat < lo ∨ hi ≤ head.toNat
  lo_pos : 0 < lo

section Runs

variable {lo hi : ℕ} {t t' : HeapMemory × List (Word × Word)} {s : HeapUse} {call : HeapCall}

/-- Only addresses outside of the heap can be the header of the list. -/
theorem Refines.ne_head (hr : Refines lo hi head t s) {a : Word} (hlo : lo ≤ a.toNat)
    (hhi : a.toNat < hi) : a ≠ head := by
  rintro rfl
  have := hr.head_apart
  omega

/-- **`heap_malloc` answers as it does on the sequence of blocks.** -/
theorem Refines.malloc (hr : Refines lo hi head t s) (size : Word) :
    ∃ m', (∀ fuel, s.heap.freeList.length < fuel →
        HeapMemory.malloc head fuel size t.1 = some ((heapMalloc size s.heap).1, m')) ∧
      Refines lo hi head
        (m', if (heapMalloc size s.heap).1 = null then t.2
          else ((heapMalloc size s.heap).1, size) :: t.2) (s.malloc size) := by
  obtain ⟨cells, hcut⟩ := hr.cut
  obtain ⟨m', hm', hrep⟩ := malloc_refines hr.represents size fun blk hblk hfit hsplit => by
    rw [hcut.free] at hblk ⊢
    have hmem := mem_freeOf.mp hblk
    have hn : (alignUp size sizeofPtr).toNat + 44 ≤ (s.heap.size blk).toNat := by
      rw [minAllocSz, allocHeaderSz] at hsplit
      bv_omega
    obtain ⟨hlo, hhi⟩ := hcut.bounds hmem
    have hrest := (hcut.toNat_rest hmem hn).1
    generalize blk + allocHeaderSz + alignUp size sizeofPtr = r at hrest
    dsimp only at hlo hhi
    -- the rest begins inside of the block
    rw [List.mem_cons, not_or]
    refine ⟨hr.ne_head (by omega) (by omega), fun hfree => ?_⟩
    have hsame := hcut.eq_of_inside hmem (mem_freeOf.mp hfree) (by dsimp only; omega)
      (by dsimp only; omega)
    obtain ⟨rfl, -⟩ := Prod.mk.inj hsame
    omega
  obtain ⟨cells', hcut', -⟩ := hcut.malloc size
  refine ⟨m', hm', hrep, ?_, ⟨cells', hcut'⟩, hr.head_apart, hr.lo_pos⟩
  rw [hr.live]
  rfl

/-- What is freed is neither `NULL` nor in the list. -/
theorem Refines.free_ready (hr : Refines lo hi head t s) {p : Word × Word} (hp : p ∈ s.live) :
    p.1 - allocHeaderSz ∉ head :: s.heap.freeList ∧ null ∉ s.heap.freeList ∧
      p.1 - allocHeaderSz ≠ null := by
  obtain ⟨cells, hcut⟩ := hr.cut
  have hpos := hr.lo_pos
  have hbounds : ∀ c ∈ cells, lo ≤ c.1.toNat ∧ c.1.toNat < hi := fun c hc => by
    have := hcut.bounds hc
    omega
  have hne : ∀ c ∈ cells, c.1 ≠ null := fun c hc heq => by
    have hlo := (hbounds c hc).1
    have hzero : null.toNat = 0 := rfl
    rw [heq] at hlo
    omega
  have hblk := (hcut.toNat_ptr hp).2
  obtain ⟨hlo, hhi⟩ := hbounds _ hblk
  refine ⟨?_, ?_, hne _ hblk⟩
  · rw [List.mem_cons, not_or]
    refine ⟨hr.ne_head hlo hhi, fun hfree => ?_⟩
    rw [hcut.free, mem_freeOf] at hfree
    have hsame := hcut.eq_of_inside hblk hfree le_rfl (by dsimp only; omega)
    simp at hsame
  · rw [hcut.free, mem_freeOf]
    exact fun hmem => hne _ hmem rfl

/-- **`heap_free` does what it does on the sequence of blocks.** -/
theorem Refines.free (hr : Refines lo hi head t s) {p : Word × Word} (hp : p ∈ s.live) :
    ∃ m', (∀ fuel, s.heap.freeList.length + 1 < fuel →
        HeapMemory.free head fuel p.1 t.1 = some m') ∧
      (¬ s.FreesNextToFree (.free p.1) → Refines lo hi head (m', t.2.erase p) (s.free p)) := by
  obtain ⟨hblk, hnull, hblknull⟩ := hr.free_ready hp
  obtain ⟨m', hm', hrep⟩ := free_refines hr.represents hblk hnull hblknull
  refine ⟨m', hm', fun hapart => ?_⟩
  obtain ⟨cells, hcut⟩ := hr.cut
  obtain ⟨cells', hcut', -⟩ := hcut.free_apart hp hapart
  refine ⟨hrep, ?_, ⟨cells', hcut'⟩, hr.head_apart, hr.lo_pos⟩
  rw [hr.live]
  rfl

/-- What loops return when they end does not depend on the number of turns they are allowed. -/
theorem eq_of_forall_lt {α : Type*} {f : ℕ → Option α} {x y : α} {n k : ℕ}
    (hx : ∀ fuel, n < fuel → f fuel = some x) (hy : ∀ fuel, k < fuel → f fuel = some y) :
    x = y := by
  have h := hx (n + k + 1) (by omega)
  rw [hy (n + k + 1) (by omega)] at h
  exact (Option.some.inj h).symm

/-- **One call on the list** is the same call on the sequence of blocks. -/
theorem Refines.step (hr : Refines lo hi head t s) (hstep : Step head t call t')
    (hapart : ∀ s', HeapUse.Step s call s' → ¬ s.FreesNextToFree call) :
    ∃ s', HeapUse.Step s call s' ∧ Refines lo hi head t' s' := by
  cases hstep with
  | @malloc m m' live size ptr n h =>
      obtain ⟨m'', hm'', hr'⟩ := hr.malloc size
      obtain ⟨rfl, rfl⟩ := Prod.mk.inj (eq_of_forall_lt h hm'')
      exact ⟨_, .malloc size, hr'⟩
  | @free m m' live p hp n h =>
      have hp' : p ∈ s.live := hr.live ▸ hp
      obtain ⟨m'', hm'', hr'⟩ := hr.free hp'
      obtain rfl := eq_of_forall_lt h hm''
      exact ⟨_, .free hp', hr' (hapart _ (.free hp'))⟩
  | @freeNull m m' live n h =>
      obtain rfl : m' = m := eq_of_forall_lt h fun fuel (_ : 0 < fuel) => by
        rw [HeapMemory.free, if_neg (not_not.mpr rfl)]
      refine ⟨_, .freeNull, ?_⟩
      rw [heapFree_null]
      exact hr

/-- **After `heap_init`** the list holds the one block. -/
theorem refines_initial {heap : Word} (links : Lists)
    (hheap : heap.toNat + heapSize.toNat ≤ 2 ^ 32) (hnull : heap ≠ null)
    (hhead : Extent.Apart ⟨head.toNat, 8⟩ ⟨heap.toNat, heapSize.toNat⟩) :
    Refines (alignUp heap sizeofPtr).toNat (heap.toNat + heapSize.toNat) head
      (initial head heap links, []) (HeapUse.initial heap) := by
  have hstart := HeapUse.toNat_alignUp_heap hheap
  have hpos : 0 < heap.toNat := Nat.pos_of_ne_zero fun hzero =>
    hnull (BitVec.eq_of_toNat_eq hzero)
  rw [toNat_heapSize] at hheap
  simp only [Extent.Apart, Extent.hi, toNat_heapSize] at hhead
  have hne : alignUp heap sizeofPtr ≠ head := by
    rintro rfl
    omega
  refine ⟨⟨?_, rfl⟩, rfl, ⟨_, HeapUse.cut_initial ?_⟩, ?_, ?_⟩
  · have hinit : Ring (listInit head links) head ([] ++ []) := ring_listInit
    exact ring_listInsert hinit (by simpa using hne) (by simp) (by simp [listInit])
  · rwa [toNat_heapSize]
  · rw [toNat_heapSize]
    omega
  · omega

end Runs

/-- **The heap on its linked list**: a sequence of calls after `heap_init`, of which none frees a
block next to a free one, is a sequence of the same calls, with the same results, on the sequence of
blocks; the list then holds the free blocks in their order, and the loops of any further call end. -/
theorem refines {heap : Word} (links : Lists) {calls : List HeapCall}
    {t : HeapMemory × List (Word × Word)} (hheap : heap.toNat + heapSize.toNat ≤ 2 ^ 32)
    (hnull : heap ≠ null)
    (hhead : Extent.Apart ⟨head.toNat, 8⟩ ⟨heap.toNat, heapSize.toNat⟩)
    (hrun : Run (Step head) (initial head heap links, []) calls t)
    (hapart : EveryStep HeapUse.Step (fun s call _ => ¬ s.FreesNextToFree call)
      (HeapUse.initial heap) calls) :
    ∃ s, Run HeapUse.Step (HeapUse.initial heap) calls s ∧ Represents head t.1 s.heap ∧
      t.2 = s.live ∧ (∀ size, ∃ t', Step head t (.malloc size (heapMalloc size s.heap).1) t') ∧
      ∀ p ∈ t.2, ∃ t', Step head t (.free p.1) t' := by
  obtain ⟨s, hrun', hr⟩ : ∃ s, Run HeapUse.Step (HeapUse.initial heap) calls s ∧
      Refines (alignUp heap sizeofPtr).toNat (heap.toNat + heapSize.toNat) head t s := by
    have hr := refines_initial links hheap hnull hhead
    generalize HeapUse.initial heap = s₀ at hr hapart ⊢
    generalize (initial head heap links, ([] : List (Word × Word))) = t₀ at hrun hr
    induction hrun generalizing s₀ with
    | nil t => exact ⟨s₀, .nil s₀, hr⟩
    | cons hstep _ ih =>
        rw [everyStep_cons] at hapart
        obtain ⟨s₁, hs₁, hr₁⟩ := hr.step hstep fun s' hs' => (hapart s' hs').1
        obtain ⟨s, hs, hr'⟩ := ih s₁ (hapart s₁ hs₁).2 hr₁
        exact ⟨s, .cons hs₁ hs, hr'⟩
  refine ⟨s, hrun', hr.represents, hr.live, fun size => ?_, fun p hp => ?_⟩
  · obtain ⟨m', hm', -⟩ := hr.malloc size
    exact ⟨_, .malloc _ hm'⟩
  · obtain ⟨m', hm', -⟩ := hr.free (hr.live ▸ hp)
    exact ⟨_, .free hp _ hm'⟩

/-- The client frees the first of its two blocks on the list, too. -/
theorem refines_linkedImage : ∃ t s,
    Run (Step 0x10e000) (initial 0x10e000 linkedImage.heap fun _ => ⟨0, 0⟩, [])
      [.malloc 8 0x11000c, .malloc 8 0x110020, .free 0x11000c] t ∧
    Run HeapUse.Step (HeapUse.initial linkedImage.heap)
      [.malloc 8 0x11000c, .malloc 8 0x110020, .free 0x11000c] s ∧
    Represents 0x10e000 t.1 s.heap ∧ t.2 = s.live ∧ t.2 = [(0x110020, 8)] := by
  have hhead : Extent.Apart ⟨(0x10e000 : Word).toNat, 8⟩
      ⟨linkedImage.heap.toNat, heapSize.toNat⟩ := by decide
  have hr := refines_initial (fun _ => ⟨0, 0⟩) (by decide) (by decide) hhead
  obtain ⟨m₁, hm₁, hr₁⟩ := hr.malloc 8
  obtain ⟨m₂, hm₂, hr₂⟩ := hr₁.malloc 8
  have hmem : ((0x11000c, 8) : Word × Word) ∈
      (((HeapUse.initial linkedImage.heap).malloc 8).malloc 8).live := by decide
  obtain ⟨m₃, hm₃, -⟩ := hr₂.free hmem
  have h₁ : Step 0x10e000 (initial 0x10e000 linkedImage.heap fun _ => ⟨0, 0⟩, [])
      (.malloc 8 0x11000c) (m₁, [(0x11000c, 8)]) := .malloc _ hm₁
  have h₂ : Step 0x10e000 (m₁, [(0x11000c, 8)]) (.malloc 8 0x110020)
      (m₂, [(0x110020, 8), (0x11000c, 8)]) := .malloc _ hm₂
  have h₃ : Step 0x10e000 (m₂, [(0x110020, 8), (0x11000c, 8)]) (.free 0x11000c)
      (m₃, [(0x110020, 8)]) := .free (p := (0x11000c, 8)) (by decide) _ hm₃
  have hrun := Run.cons h₁ (.cons h₂ (.single h₃))
  obtain ⟨s, hs, hrep, hlive, -⟩ :=
    refines (fun _ => ⟨0, 0⟩) (by decide) (by decide) hhead hrun HeapUse.apart_of_client
  exact ⟨_, s, hrun, hs, hrep, hlive, rfl⟩

end HeapMemory

end Storm
