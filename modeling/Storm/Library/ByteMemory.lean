import Mathlib.Data.BitVec
import Mathlib.Data.List.GetD
import Mathlib.Data.Set.Lattice
import Mathlib.Logic.Function.Basic
import Mathlib.Order.CompletePartialOrder

/-! # Byte-addressed memory with 32-bit little-endian words

A memory of a 32-bit machine is a byte at each of the `2³²` addresses. `load32` and `store32` read
and write a word at any address, aligned or not, the least significant byte first; addresses wrap
around. The file has the three facts a proof about machine code needs:

* `load32_store32` — a word reads back as it was written;
* `load32_store32_of_apart` and `store32_of_notMem` — a write leaves all other bytes alone;
* `load32_congr` — a read depends only on the four bytes it covers. -/

namespace ByteMemory

/-- A 32-bit machine word; also an address. -/
abbrev Word := BitVec 32

/-- A byte. -/
abbrev Byte := BitVec 8

/-- A memory: one byte at each address. -/
abbrev Memory := Word → Byte

/-- The addresses from `lo` up to, but not including, `hi`. -/
def Range (lo hi : ℕ) : Set Word := {a | lo ≤ a.toNat ∧ a.toNat < hi}

@[simp] theorem mem_range {lo hi : ℕ} {a : Word} :
    a ∈ Range lo hi ↔ lo ≤ a.toNat ∧ a.toNat < hi := Iff.rfl

/-- The four addresses that a word at `a` covers (wrapping around at the end of memory). -/
def WordAt (a : Word) : Set Word := {b | (b - a).toNat < 4}

@[simp] theorem mem_wordAt {a b : Word} : b ∈ WordAt a ↔ (b - a).toNat < 4 := Iff.rfl

/-- Two word addresses whose words share no byte. -/
def Apart (a b : Word) : Prop := 4 ≤ (b - a).toNat ∧ 4 ≤ (a - b).toNat

theorem Apart.symm {a b : Word} (h : Apart a b) : Apart b a := ⟨h.2, h.1⟩

/-! For words at constant offsets from one address, `simp` decides whether they are apart. -/

@[simp] theorem apart_sub_sub (x a b : Word) :
    Apart (x - a) (x - b) ↔ 4 ≤ (a - b).toNat ∧ 4 ≤ (b - a).toNat := by
  rw [Apart, sub_sub_sub_cancel_left, sub_sub_sub_cancel_left]

@[simp] theorem apart_add_add (x a b : Word) :
    Apart (x + a) (x + b) ↔ 4 ≤ (b - a).toNat ∧ 4 ≤ (a - b).toNat := by
  rw [Apart, add_sub_add_left_eq_sub, add_sub_add_left_eq_sub]

@[simp] theorem apart_self_add (x b : Word) :
    Apart x (x + b) ↔ 4 ≤ b.toNat ∧ 4 ≤ (-b).toNat := by
  rw [Apart, add_sub_cancel_left, sub_add_cancel_left]

@[simp] theorem apart_add_self (x a : Word) :
    Apart (x + a) x ↔ 4 ≤ (-a).toNat ∧ 4 ≤ a.toNat := by
  rw [Apart, add_sub_cancel_left, sub_add_cancel_left]

/-- Words are apart exactly when they share no byte. -/
theorem apart_iff_disjoint {a b : Word} : Apart a b ↔ Disjoint (WordAt a) (WordAt b) := by
  rw [Set.disjoint_left]
  constructor
  · rintro ⟨hab, hba⟩ c hc hc'
    simp only [mem_wordAt] at hc hc'
    bv_omega
  · intro h
    have ha : a ∉ WordAt b := h (by simp)
    have hb : b ∉ WordAt a := fun hb => h hb (by simp)
    simp only [mem_wordAt, not_lt] at ha hb
    exact ⟨hb, ha⟩

/-- The word at address `a`: four bytes, the least significant one first. -/
def load32 (m : Memory) (a : Word) : Word := m (a + 3) ++ m (a + 2) ++ m (a + 1) ++ m a

/-- Write the word `v` at address `a`. -/
def store32 (m : Memory) (a v : Word) : Memory := fun b =>
  if (b - a).toNat < 4 then (v >>> (8 * (b - a).toNat)).setWidth 8 else m b

variable {m m' : Memory} {a b v : Word}

/-- A write changes only the four bytes it covers. -/
theorem store32_of_notMem (h : b ∉ WordAt a) : store32 m a v b = m b := if_neg h

/-- The byte at offset `i` of a word just written. -/
theorem store32_add (i : ℕ) (hi : i < 4) :
    store32 m a v (a + BitVec.ofNat 32 i) = (v >>> (8 * i)).setWidth 8 := by
  have h : (a + BitVec.ofNat 32 i - a).toNat = i := by bv_omega
  rw [store32, h, if_pos hi]

/-- The four bytes of a word make up the word. -/
theorem append_bytes (v : Word) :
    (v >>> (8 * 3)).setWidth 8 ++ (v >>> (8 * 2)).setWidth 8 ++ (v >>> (8 * 1)).setWidth 8 ++
      (v >>> (8 * 0)).setWidth 8 = v := by
  apply BitVec.eq_of_getLsbD_eq
  intro i hi
  simp only [BitVec.getLsbD_append, BitVec.getLsbD_setWidth, BitVec.getLsbD_ushiftRight]
  by_cases h₀ : i < 8
  · simp [h₀]
  · by_cases h₁ : i - 8 < 8
    · simp [h₀, h₁, show 8 + (i - 8) = i by omega]
    · by_cases h₂ : i - 8 - 8 < 8
      · simp [h₀, h₁, h₂, show 16 + (i - 8 - 8) = i by omega]
      · simp [h₀, h₁, h₂, show i - 8 - 8 - 8 < 8 by omega,
          show 24 + (i - 8 - 8 - 8) = i by omega]

/-- **A word reads back as it was written.** -/
@[simp] theorem load32_store32 : load32 (store32 m a v) a = v := by
  rw [load32, show a + 3 = a + BitVec.ofNat 32 3 from rfl,
    show a + 2 = a + BitVec.ofNat 32 2 from rfl,
    show a + 1 = a + BitVec.ofNat 32 1 from rfl, store32_add 3 (by omega), store32_add 2 (by omega),
    store32_add 1 (by omega)]
  have h := store32_add (m := m) (a := a) (v := v) 0 (by omega)
  rw [show a + BitVec.ofNat 32 0 = a by simp] at h
  rw [h]
  exact append_bytes v

/-- A read depends only on the four bytes it covers. -/
theorem load32_congr (h : ∀ b ∈ WordAt a, m b = m' b) : load32 m a = load32 m' a := by
  have h₃ := h (a + 3) (by simp only [mem_wordAt]; bv_omega)
  have h₂ := h (a + 2) (by simp only [mem_wordAt]; bv_omega)
  have h₁ := h (a + 1) (by simp only [mem_wordAt]; bv_omega)
  have h₀ := h a (by simp only [mem_wordAt]; bv_omega)
  rw [load32, load32, h₃, h₂, h₁, h₀]

/-- **A write leaves words that are apart alone.** -/
theorem load32_store32_of_apart (h : Apart a b) : load32 (store32 m a v) b = load32 m b := by
  refine load32_congr fun c hc => store32_of_notMem ?_
  obtain ⟨h₁, h₂⟩ := h
  simp only [mem_wordAt] at hc ⊢
  bv_omega

/-- A word inside a range covers only addresses of the range. -/
theorem wordAt_subset_range {lo hi : ℕ} (hlo : lo ≤ a.toNat) (hhi : a.toNat + 4 ≤ hi)
    (hmax : hi ≤ 2 ^ 32) : WordAt a ⊆ Range lo hi := by
  intro b hb
  simp only [mem_wordAt, mem_range] at hb ⊢
  bv_omega

/-- Two memories that agree on a set of addresses. -/
def Agree (s : Set Word) (m m' : Memory) : Prop := ∀ a ∈ s, m a = m' a

theorem Agree.refl (s : Set Word) (m : Memory) : Agree s m m := fun _ _ => rfl

theorem Agree.symm {s : Set Word} (h : Agree s m m') : Agree s m' m := fun a ha => (h a ha).symm

theorem Agree.trans {s : Set Word} {m'' : Memory} (h : Agree s m m') (h' : Agree s m' m'') :
    Agree s m m'' := fun a ha => (h a ha).trans (h' a ha)

theorem Agree.mono {s t : Set Word} (h : Agree t m m') (hst : s ⊆ t) : Agree s m m' :=
  fun a ha => h a (hst ha)

/-- Memories that agree on the bytes of a word read the same word. -/
theorem Agree.load32 {s : Set Word} (h : Agree s m m') (hs : WordAt a ⊆ s) :
    load32 m a = load32 m' a := load32_congr fun b hb => h b (hs hb)

/-- A write agrees with the old memory away from the word written. -/
theorem agree_store32 {s : Set Word} (hs : ∀ b ∈ s, b ∉ WordAt a) : Agree s (store32 m a v) m :=
  fun b hb => store32_of_notMem (hs b hb)

/-- The `n` bytes below the address `sp`. -/
def Below (sp : Word) (n : ℕ) : Set Word := {b | (sp - 1 - b).toNat < n}

@[simp] theorem mem_below {sp b : Word} {n : ℕ} : b ∈ Below sp n ↔ (sp - 1 - b).toNat < n := Iff.rfl

/-- Below an address is first a word, then what is below the word. -/
theorem below_subset {sp : Word} {n : ℕ} :
    Below sp (n + 4) ⊆ WordAt (sp - 4) ∪ Below (sp - 4) n := by
  intro b hb
  simp only [Set.mem_union, mem_below, mem_wordAt] at hb ⊢
  bv_omega

/-- Fewer bytes below an address. -/
theorem below_mono {sp : Word} {k n : ℕ} (h : k ≤ n) : Below sp k ⊆ Below sp n :=
  fun _ hb => lt_of_lt_of_le hb h

/-- What is below an address, down to the beginning of a range. -/
theorem below_eq_range {sp : Word} {n : ℕ} (h : n ≤ sp.toNat) :
    Below sp n = Range (sp.toNat - n) sp.toNat := by
  ext b
  simp only [mem_below, mem_range]
  bv_omega

/-- The `n` bytes at and above the address `sp`. -/
def Above (sp : Word) (n : ℕ) : Set Word := {b | (b - sp).toNat < n}

@[simp] theorem mem_above {sp b : Word} {n : ℕ} : b ∈ Above sp n ↔ (b - sp).toNat < n := Iff.rfl

/-- What is below an address is not above it, as long as the two do not meet on the other side. -/
theorem notMem_below_of_mem_above {sp : Word} {k n : ℕ} (h : n + k ≤ 2 ^ 32) :
    ∀ b ∈ Above sp n, b ∉ Below sp k := by
  intro b hb hb'
  simp only [mem_above, mem_below] at hb hb'
  bv_omega

/-- A word pushed below `sp` agrees with the old memory elsewhere. -/
theorem agree_store32_below {s : Set Word} {sp d : Word} {n : ℕ} (hs : ∀ b ∈ s, b ∉ Below sp n)
    (hd : 4 ≤ d.toNat) (hn : d.toNat ≤ n) : Agree s (store32 m (sp - d) v) m := by
  refine agree_store32 fun b hb hw => hs b hb ?_
  simp only [mem_wordAt, mem_below] at hw ⊢
  bv_omega

/-- Words written at distances below `sp`, one after the other. -/
def storesBelow (sp : Word) (ws : List (Word × Word)) (m : Memory) : Memory :=
  ws.foldl (fun m w => store32 m (sp - w.1) w.2) m

/-- **Words pushed below `sp`** agree with the old memory elsewhere. -/
theorem agree_storesBelow {s : Set Word} {sp : Word} {n : ℕ} {ws : List (Word × Word)}
    (hs : ∀ b ∈ s, b ∉ Below sp n) (hws : ∀ w ∈ ws, 4 ≤ w.1.toNat ∧ w.1.toNat ≤ n) :
    Agree s (storesBelow sp ws m) m := by
  induction ws generalizing m with
  | nil => exact .refl s m
  | cons w ws ih =>
      obtain ⟨hd, hn⟩ := hws w List.mem_cons_self
      have htail := ih (m := store32 m (sp - w.1) w.2) fun w' hw' =>
        hws w' (List.mem_cons_of_mem w hw')
      exact htail.trans (agree_store32_below hs hd hn)

/-- The same write in two memories makes them agree on the word as well. -/
theorem Agree.store32 {s : Set Word} (h : Agree s m m') (a v : Word) :
    Agree (s ∪ WordAt a) (store32 m a v) (store32 m' a v) := by
  intro b hb
  rw [ByteMemory.store32, ByteMemory.store32]
  split
  · rfl
  · exact h b (hb.resolve_right ‹_›)

/-- A word inside a range above an address. -/
theorem wordAt_subset_above {p d : Word} {n : ℕ} (h : d.toNat + 4 ≤ n) (hn : n ≤ 2 ^ 32) :
    WordAt (p + d) ⊆ Above p n := by
  intro b hb
  simp only [mem_wordAt, mem_above] at hb ⊢
  bv_omega

/-- What is above an address, up to the end of a range. -/
theorem above_eq_range {sp : Word} {hi : ℕ} (hsp : sp.toNat ≤ hi) (hhi : hi ≤ 2 ^ 32) :
    Above sp (hi - sp.toNat) = Range sp.toNat hi := by
  ext b
  simp only [mem_above, mem_range]
  bv_omega

/-! ## Strings of bytes -/

/-- The memory after the bytes `bs` are stored from `a` on. -/
def storeBytes (a : Word) (bs : List Byte) (m : Memory) : Memory := fun b =>
  bs.getD (b - a).toNat (m b)

/-- Bytes behind the stored ones stay as they are. -/
theorem storeBytes_of_le {bs : List Byte} (h : bs.length ≤ (b - a).toNat) :
    storeBytes a bs m b = m b := List.getD_eq_default _ _ h

/-- The last byte is stored last. -/
theorem storeBytes_concat {bs : List Byte} (hbs : bs.length < 2 ^ 32) (c : Byte) :
    storeBytes a (bs ++ [c]) m =
      Function.update (storeBytes a bs m) (a + BitVec.ofNat 32 bs.length) c := by
  funext b
  by_cases hb : b = a + BitVec.ofNat 32 bs.length
  · have hoff : (b - a).toNat = bs.length := by
      rw [hb]
      bv_omega
    rw [hb, Function.update_self, ← hb, storeBytes, hoff, List.getD_append_right _ _ _ _ le_rfl,
      Nat.sub_self]
    rfl
  · have hoff : (b - a).toNat ≠ bs.length := fun h => hb (by bv_omega)
    rw [Function.update_of_ne hb, storeBytes, storeBytes]
    rcases Nat.lt_or_gt_of_ne hoff with h | h
    · rw [List.getD_append _ _ _ _ h]
    · rw [List.getD_eq_default _ _ (by rw [List.length_append, List.length_singleton]; omega),
        List.getD_eq_default _ _ h.le]

@[simp] theorem storeBytes_nil : storeBytes a [] m = m := by
  funext b
  exact storeBytes_of_le (Nat.zero_le _)

end ByteMemory
