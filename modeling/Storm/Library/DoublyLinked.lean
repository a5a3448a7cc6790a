import Mathlib.Data.List.Chain
import Mathlib.Data.List.Iterate
import Mathlib.Data.List.Nodup

/-! # Circular doubly linked lists

A *store* gives every address a node with a `next` and a `prev` link. `Ring m h xs` says that the
links of the store `m` form one circle through the header `h` and the members `xs`, in this order:
consecutive addresses of `h :: xs ++ [h]` point at each other, and no address occurs twice.

The two local edits are `Ring.insert` (put a node between two neighbours) and `Ring.erase` (take one
out). They are stated by the link values that the edited store has, so that any sequence of writes
with this effect can use them. `Ring.iterate_next` and `Ring.iterate_prev` say what a traversal
visits in either direction. -/

namespace DoublyLinked

variable {α : Type*}

/-- A list node: the two links. -/
structure Node (α : Type*) where
  /-- The following node. -/
  next : α
  /-- The preceding node. -/
  prev : α
  deriving DecidableEq, Repr

/-- A store of nodes, one at every address. -/
abbrev Store (α : Type*) := α → Node α

namespace Store

/-- A node is given by its two links. -/
theorem eq_mk {m : Store α} {a x y : α} (h₁ : (m a).next = x) (h₂ : (m a).prev = y) :
    m a = ⟨x, y⟩ := by
  rw [← h₁, ← h₂]

/-- Nodes with the same links are the same. -/
theorem ext_links {m m' : Store α} {a : α} (h₁ : (m a).next = (m' a).next)
    (h₂ : (m a).prev = (m' a).prev) : m a = m' a := eq_mk h₁ h₂

variable [DecidableEq α]

/-- Write the `next` link of the node at `a`. -/
def setNext (a v : α) (m : Store α) : Store α := Function.update m a { m a with next := v }

/-- Write the `prev` link of the node at `a`. -/
def setPrev (a v : α) (m : Store α) : Store α := Function.update m a { m a with prev := v }

@[simp] theorem setNext_next (a v b : α) (m : Store α) :
    (m.setNext a v b).next = if b = a then v else (m b).next := by
  by_cases h : b = a
  · simp [setNext, h]
  · simp [setNext, h]

@[simp] theorem setNext_prev (a v b : α) (m : Store α) : (m.setNext a v b).prev = (m b).prev := by
  by_cases h : b = a
  · simp [setNext, h]
  · simp [setNext, h]

@[simp] theorem setPrev_prev (a v b : α) (m : Store α) :
    (m.setPrev a v b).prev = if b = a then v else (m b).prev := by
  by_cases h : b = a
  · simp [setPrev, h]
  · simp [setPrev, h]

@[simp] theorem setPrev_next (a v b : α) (m : Store α) : (m.setPrev a v b).next = (m b).next := by
  by_cases h : b = a
  · simp [setPrev, h]
  · simp [setPrev, h]

end Store

/-- The addresses `a` and `b` are linked, in this order, by both of their links. -/
def Linked (m : Store α) (a b : α) : Prop := (m a).next = b ∧ (m b).prev = a

/-- The links of `m` form a circle through the header `h` and then `xs`. -/
structure Ring (m : Store α) (h : α) (xs : List α) : Prop where
  /-- No address occurs twice, and the header is not a member. -/
  nodup : (h :: xs).Nodup
  /-- Neighbours point at each other, around the circle. -/
  links : List.IsChain (Linked m) ((h :: xs) ++ [h])

/-- Links survive in a store that keeps `next` of all but the last address and `prev` of all but the
first. -/
theorem isChain_transport {m m' : Store α} {l : List α} (hl : List.IsChain (Linked m) l)
    (hnext : ∀ a ∈ l.dropLast, (m' a).next = (m a).next)
    (hprev : ∀ a ∈ l.tail, (m' a).prev = (m a).prev) : List.IsChain (Linked m') l := by
  induction l with
  | nil => exact .nil
  | cons a l ih =>
      cases l with
      | nil => exact .singleton a
      | cons b l =>
          rw [List.isChain_cons_cons] at hl ⊢
          obtain ⟨⟨h₁, h₂⟩, hl⟩ := hl
          refine ⟨⟨?_, ?_⟩, ?_⟩
          · rw [hnext a (by simp), h₁]
          · rw [hprev b (by simp), h₂]
          · refine ih hl (fun c hc => hnext c ?_) (fun c hc => hprev c ?_)
            · rw [List.dropLast_cons_cons]
              exact List.mem_cons_of_mem _ hc
            · exact List.mem_of_mem_tail hc

namespace Ring

variable {m m' : Store α} {h n x p s : α} {xs pre post : List α}

/-- The empty circle: the header points at itself. -/
theorem nil_iff : Ring m h [] ↔ (m h).next = h ∧ (m h).prev = h := by
  constructor
  · rintro ⟨-, hl⟩
    simpa [Linked] using hl
  · rintro ⟨h₁, h₂⟩
    exact ⟨by simp, by simp [Linked, h₁, h₂]⟩

/-- A circle splits, at any member position, into two chains and the pair of links between them. -/
theorem links_split (hr : Ring m h (pre ++ post)) :
    List.IsChain (Linked m) (h :: pre) ∧ List.IsChain (Linked m) (post ++ [h]) ∧
      ∀ a ∈ (h :: pre).getLast?, ∀ b ∈ (post ++ [h]).head?, Linked m a b := by
  have hl := hr.links
  rw [show (h :: (pre ++ post)) ++ [h] = (h :: pre) ++ (post ++ [h]) by simp] at hl
  exact List.isChain_append.mp hl

/-- Two chains and the links between them make a circle. -/
theorem of_split (hnd : (h :: (pre ++ post)).Nodup) (h₁ : List.IsChain (Linked m) (h :: pre))
    (h₂ : List.IsChain (Linked m) (post ++ [h]))
    (h₃ : ∀ a ∈ (h :: pre).getLast?, ∀ b ∈ (post ++ [h]).head?, Linked m a b) :
    Ring m h (pre ++ post) := by
  refine ⟨hnd, ?_⟩
  rw [show (h :: (pre ++ post)) ++ [h] = (h :: pre) ++ (post ++ [h]) by simp]
  exact h₁.append h₂ h₃

/-- The links across a position of the circle: `p` before it and `s` after it point at each
other. -/
theorem linked_at (pre post : List α) (hr : Ring m h (pre ++ post)) (hp : p ∈ (h :: pre).getLast?)
    (hs : s ∈ (post ++ [h]).head?) : Linked m p s := hr.links_split.2.2 p hp s hs

/-- The last address of a duplicate-free list is not among the earlier ones. -/
theorem ne_of_mem_dropLast {l : List α} (hnd : l.Nodup) (hp : p ∈ l.getLast?) {a : α}
    (ha : a ∈ l.dropLast) : a ≠ p := by
  rintro rfl
  obtain ⟨l', rfl⟩ : ∃ l', l = l' ++ [a] := List.getLast?_eq_some_iff.mp hp
  rw [List.dropLast_concat] at ha
  exact (List.nodup_append.mp hnd).2.2 a ha a (by simp) rfl

/-- The addresses after the first of a tail of the circle differ from that first one. -/
theorem ne_of_mem_tail (hnd : (h :: (pre ++ post)).Nodup) (hs : s ∈ (post ++ [h]).head?) {a : α}
    (ha : a ∈ (post ++ [h]).tail) : a ≠ s := by
  rintro rfl
  cases post with
  | nil => simp at ha
  | cons b post =>
      obtain rfl : b = a := by simpa using hs
      simp only [List.nodup_cons, List.nodup_append, List.mem_append, List.mem_cons,
        List.cons_append, List.tail_cons, List.not_mem_nil, or_false] at hnd ha
      rcases ha with ha | rfl
      · exact hnd.2.2.1.1 ha
      · exact hnd.1 (Or.inr (Or.inl rfl))

/-- The two parts of the circle at a position: the header and the addresses before it are distinct,
and no address before the position is one after it. -/
theorem nodup_split (hnd : (h :: (pre ++ post)).Nodup) :
    (h :: pre).Nodup ∧ (∀ a ∈ pre, ∀ b ∈ post ++ [h], a ≠ b) ∧
      ∀ a ∈ post, ∀ b ∈ h :: pre, a ≠ b := by
  rw [← List.cons_append, List.nodup_append] at hnd
  obtain ⟨h₁, -, h₂⟩ := hnd
  refine ⟨h₁, fun a ha b hb => ?_, fun a ha b hb => (h₂ b hb a ha).symm⟩
  rcases List.mem_append.mp hb with hb | hb
  · exact h₂ a (List.mem_cons_of_mem _ ha) b hb
  · rintro rfl
    rw [List.mem_singleton.mp hb] at ha
    exact (List.nodup_cons.mp h₁).1 ha

/-- **The two parts of the circle keep their links** in a store that changes, apart from those of an
address `x` outside of the circle, only `next` of the last address `p` before a position and `prev`
of the first address `s` behind it. -/
theorem isChain_parts (hnd : (h :: (pre ++ post)).Nodup) (hx : x ∉ h :: (pre ++ post))
    (h₁ : List.IsChain (Linked m) (h :: pre)) (h₂ : List.IsChain (Linked m) (post ++ [h]))
    (hp : p ∈ (h :: pre).getLast?) (hs : s ∈ (post ++ [h]).head?)
    (hnext : ∀ a, a ≠ p → a ≠ x → (m' a).next = (m a).next)
    (hprev : ∀ a, a ≠ s → a ≠ x → (m' a).prev = (m a).prev) :
    List.IsChain (Linked m') (h :: pre) ∧ List.IsChain (Linked m') (post ++ [h]) := by
  obtain ⟨hnd', hpre, hpost⟩ := nodup_split hnd
  have hold : ∀ a ∈ h :: (pre ++ post), a ≠ x := fun a ha hax => hx (hax ▸ ha)
  constructor
  · -- `p` is the last address of the part before the position, `s` is not in it
    refine isChain_transport h₁ (fun a ha => hnext a ?_ ?_) (fun a ha => hprev a ?_ ?_)
    · exact ne_of_mem_dropLast hnd' hp ha
    · exact hold a (List.mem_append_left post (List.dropLast_subset _ ha))
    · exact hpre a ha s (List.mem_of_mem_head? hs)
    · exact hold a (List.mem_cons_of_mem _ (List.mem_append_left _ ha))
  · -- `s` is the first address of the part behind it, `p` is not in it
    refine isChain_transport h₂ (fun a ha => hnext a ?_ ?_) (fun a ha => hprev a ?_ ?_)
    · rw [List.dropLast_concat] at ha
      exact hpost a ha p (List.mem_of_mem_getLast? hp)
    · rw [List.dropLast_concat] at ha
      exact hold a (List.mem_cons_of_mem _ (List.mem_append_right _ ha))
    · exact ne_of_mem_tail hnd hs ha
    · refine hold a ?_
      rcases List.mem_append.mp (List.mem_of_mem_tail ha) with ha | ha
      · exact List.mem_cons_of_mem _ (List.mem_append_right _ ha)
      · rw [List.mem_singleton.mp ha]
        exact List.mem_cons_self

/-- **Insertion.** A store in which the new node `n` is linked between the neighbours `p` and `s` of
a position of the circle, and all other links are kept, holds the circle with `n` at that
position. -/
theorem insert (hr : Ring m h (pre ++ post)) (hn : n ∉ h :: (pre ++ post))
    (hp : p ∈ (h :: pre).getLast?) (hs : s ∈ (post ++ [h]).head?)
    (hpn : Linked m' p n) (hns : Linked m' n s)
    (hnext : ∀ a, a ≠ p → a ≠ n → (m' a).next = (m a).next)
    (hprev : ∀ a, a ≠ s → a ≠ n → (m' a).prev = (m a).prev) : Ring m' h (pre ++ n :: post) := by
  obtain ⟨h₁, h₂, -⟩ := hr.links_split
  obtain ⟨hbefore, hbehind⟩ := isChain_parts hr.nodup hn h₁ h₂ hp hs hnext hprev
  refine of_split ?_ hbefore ?_ ?_
  · rw [← List.cons_append]
    refine List.nodup_middle.mpr (List.nodup_cons.mpr ⟨?_, ?_⟩)
    · rwa [List.cons_append]
    · rw [List.cons_append]
      exact hr.nodup
  · rw [List.cons_append, List.isChain_cons]
    refine ⟨fun b hb => ?_, hbehind⟩
    obtain rfl : s = b := Option.some.inj (hs.symm.trans hb)
    exact hns
  · intro a ha b hb
    obtain rfl : p = a := Option.some.inj (hp.symm.trans ha)
    obtain rfl : n = b := by simpa using hb
    exact hpn

/-- **Removal.** A store in which the neighbours `p` and `s` of the member `x` are linked to each
other, and all other links are kept, holds the circle without `x`. -/
theorem erase (pre post : List α) (hr : Ring m h (pre ++ x :: post))
    (hp : p ∈ (h :: pre).getLast?) (hs : s ∈ (post ++ [h]).head?) (hps : Linked m' p s)
    (hnext : ∀ a, a ≠ p → a ≠ x → (m' a).next = (m a).next)
    (hprev : ∀ a, a ≠ s → a ≠ x → (m' a).prev = (m a).prev) : Ring m' h (pre ++ post) := by
  obtain ⟨h₁, h₂, -⟩ := hr.links_split
  obtain ⟨hx, hnd⟩ : x ∉ h :: (pre ++ post) ∧ (h :: (pre ++ post)).Nodup := by
    have := hr.nodup
    rwa [← List.cons_append, List.nodup_middle, List.nodup_cons, List.cons_append] at this
  -- the part behind `x` begins after the link from it
  rw [List.cons_append, List.isChain_cons] at h₂
  obtain ⟨hbefore, hbehind⟩ := isChain_parts hnd hx h₁ h₂.2 hp hs hnext hprev
  refine of_split hnd hbefore hbehind fun a ha b hb => ?_
  obtain rfl : p = a := Option.some.inj (hp.symm.trans ha)
  obtain rfl : s = b := Option.some.inj (hs.symm.trans hb)
  exact hps

/-- A circle depends only on the links of the header and the members. -/
theorem congr (hr : Ring m h xs) (hm : ∀ a ∈ h :: xs, m' a = m a) : Ring m' h xs := by
  refine ⟨hr.nodup, isChain_transport hr.links (fun a ha => ?_) (fun a ha => ?_)⟩
  · rw [List.dropLast_concat] at ha
    rw [hm a ha]
  · rw [List.cons_append, List.tail_cons, List.mem_append, List.mem_singleton] at ha
    rw [hm a (by grind)]

/-- Following `next` along a chain visits its addresses in order. -/
theorem iterate_next_of_isChain {l : List α} {a : α} (hl : List.IsChain (Linked m) (a :: l)) :
    List.iterate (fun b => (m b).next) (m a).next l.length = l := by
  induction l generalizing a with
  | nil => rfl
  | cons b l ih =>
      rw [List.isChain_cons_cons] at hl
      rw [List.length_cons, List.iterate, hl.1.1, ih hl.2]

/-- Following `prev` back along a chain visits its addresses in reverse order. -/
theorem iterate_prev_of_isChain {l : List α} {z : α} (hl : List.IsChain (Linked m) (l ++ [z])) :
    List.iterate (fun b => (m b).prev) (m z).prev l.length = l.reverse := by
  induction l using List.reverseRecOn generalizing z with
  | nil => rfl
  | append_singleton l b ih =>
      rw [List.append_assoc, List.singleton_append, List.isChain_append_cons_cons] at hl
      rw [List.length_append, List.length_singleton, List.iterate, hl.2.1.2, ih hl.1,
        List.reverse_append, List.reverse_singleton, List.singleton_append]

/-- **Forward traversal**: from the header, `next` visits exactly the members in order and then the
header again. -/
theorem iterate_next (hr : Ring m h xs) :
    List.iterate (fun a => (m a).next) (m h).next (xs.length + 1) = xs ++ [h] := by
  have := iterate_next_of_isChain (l := xs ++ [h]) hr.links
  rwa [List.length_append, List.length_singleton] at this

/-- **Backward traversal**: from the header, `prev` visits exactly the members in reverse order and
then the header again. -/
theorem iterate_prev (hr : Ring m h xs) :
    List.iterate (fun a => (m a).prev) (m h).prev (xs.length + 1) = xs.reverse ++ [h] := by
  have := iterate_prev_of_isChain (l := h :: xs) hr.links
  rwa [List.length_cons, List.reverse_cons] at this

end Ring

end DoublyLinked
