import Storm.Lib.Basic
import Storm.Library.DoublyLinked

/-! # `lib/list.h`: the intrusive linked list

The functions of `list.h` on a store of `struct list` objects. Each assignment of the C code is one
`setNext` or `setPrev`, in the order of the source; arguments are read before the first write.

Below them is what the two list operations of the kernel do to a well-formed circle: `list_add_tail`
appends (`ring_listAddTail`), `list_del` of the first member removes it (`ring_listDel_head`), and
both leave the nodes outside of the circle alone. -/

namespace Storm

open ByteMemory DoublyLinked

/-- The memory of all `struct list` objects, by address. -/
abbrev Lists := Store Word

/-- `list_init`. -/
def listInit (n : Word) (m : Lists) : Lists := m |>.setNext n n |>.setPrev n n

/-- `list_node_init`. -/
def listNodeInit (n : Word) (m : Lists) : Lists := m |>.setNext n null |>.setPrev n null

/-- `list_insert`: put `n` between `prev` and `next`. -/
def listInsert (n prev next : Word) (m : Lists) : Lists :=
  m |>.setPrev next n |>.setNext n next |>.setPrev n prev |>.setNext prev n

/-- `list_add`. -/
def listAdd (n head : Word) (m : Lists) : Lists := listInsert n head (m head).next m

/-- `list_add_tail`. -/
def listAddTail (n head : Word) (m : Lists) : Lists := listInsert n (m head).prev head m

/-- `list_del_`: link two nodes to each other. -/
def listDelBetween (prev next : Word) (m : Lists) : Lists :=
  m |>.setPrev next prev |>.setNext prev next

/-- `list_del`. -/
def listDel (entry : Word) (m : Lists) : Lists :=
  listDelBetween (m entry).prev (m entry).next m |>.setNext entry null |>.setPrev entry null

variable {m : Lists} {head n x a : Word} {xs : List Word}

/-- `list_init` makes an empty circle. -/
theorem ring_listInit : Ring (listInit head m) head [] := by
  rw [Ring.nil_iff]
  simp [listInit]

/-- `list_init` touches one node. -/
theorem listInit_of_ne (h : a ≠ head) : listInit head m a = m a :=
  Store.ext_links (by simp [listInit, h]) (by simp [listInit, h])

/-- `list_node_init` clears both links. -/
theorem listNodeInit_self : listNodeInit n m n = ⟨null, null⟩ :=
  Store.eq_mk (by simp [listNodeInit]) (by simp [listNodeInit])

/-- `list_node_init` touches one node. -/
theorem listNodeInit_of_ne (h : a ≠ n) : listNodeInit n m a = m a :=
  Store.ext_links (by simp [listNodeInit, h]) (by simp [listNodeInit, h])

/-- **`list_add_tail` appends**: a new node becomes the last member of the circle. -/
theorem ring_listAddTail (hr : Ring m head xs) (hn : n ∉ head :: xs) :
    Ring (listAddTail n head m) head (xs ++ [n]) := by
  have hr' : Ring m head (xs ++ []) := by rwa [List.append_nil]
  have hn' : n ∉ head :: (xs ++ []) := by rwa [List.append_nil]
  have hhead : n ≠ head := fun h => hn (h ▸ List.mem_cons_self)
  obtain ⟨p, hp⟩ : ∃ p, p ∈ (head :: xs).getLast? := by simp [List.getLast?_cons]
  have hprev : (m head).prev = p := (hr'.linked_at xs [] hp (s := head) (by simp)).2
  have hpn : p ≠ n := fun h => hn (h ▸ List.mem_of_mem_getLast? hp)
  rw [listAddTail, hprev]
  refine hr'.insert (p := p) (s := head) hn' hp (by simp) ⟨?_, ?_⟩ ⟨?_, ?_⟩ ?_ ?_
  · simp [listInsert]
  · simp [listInsert]
  · simp [listInsert, hpn.symm]
  · simp [listInsert, hhead.symm]
  · intro b hb hbn
    simp [listInsert, hb, hbn]
  · intro b hb hbn
    simp [listInsert, hb, hbn]

/-- `list_add_tail` touches only the new node and nodes of the circle. -/
theorem listAddTail_of_notMem (hr : Ring m head xs) (h : a ∉ head :: xs) (han : a ≠ n) :
    listAddTail n head m a = m a := by
  have hr' : Ring m head (xs ++ []) := by rwa [List.append_nil]
  obtain ⟨p, hp⟩ : ∃ p, p ∈ (head :: xs).getLast? := by simp [List.getLast?_cons]
  have hprev : (m head).prev = p := (hr'.linked_at xs [] hp (s := head) (by simp)).2
  have hap : a ≠ p := fun hap => h (hap ▸ List.mem_of_mem_getLast? hp)
  have hah : a ≠ head := fun hah => h (hah ▸ List.mem_cons_self)
  rw [listAddTail, hprev]
  exact Store.ext_links (by simp [listInsert, hap, han]) (by simp [listInsert, hah, han])

/-- The first member of a circle is what the header's `next` link points to. -/
theorem next_head (hr : Ring m head (x :: xs)) : (m head).next = x :=
  (hr.linked_at [] (x :: xs) (p := head) (s := x) (by simp) (by simp)).1

/-- **`list_del` of the first member** leaves the circle of the others. -/
theorem ring_listDel_head (hr : Ring m head (x :: xs)) : Ring (listDel x m) head xs := by
  have hnd := hr.nodup
  simp only [List.nodup_cons, List.mem_cons, not_or] at hnd
  obtain ⟨⟨hhx, hh⟩, hx, -⟩ := hnd
  obtain ⟨s, hs⟩ : ∃ s, s ∈ (xs ++ [head]).head? := by
    cases xs with
    | nil => exact ⟨head, by simp⟩
    | cons y ys => exact ⟨y, by simp⟩
  have hxs : s ≠ x := by
    rintro rfl
    rcases List.mem_append.mp (List.mem_of_mem_head? hs) with h | h
    · exact hx h
    · exact hhx (List.mem_singleton.mp h).symm
  have hprev : (m x).prev = head :=
    (hr.linked_at [] (x :: xs) (p := head) (s := x) (by simp) (by simp)).2
  have hnext : (m x).next = s :=
    (Ring.linked_at [x] xs hr (p := x) (s := s) (by simp) hs).1
  rw [listDel, hprev, hnext]
  refine Ring.erase [] xs hr (p := head) (s := s) (by simp) hs ⟨?_, ?_⟩ ?_ ?_
  · simp [listDelBetween, hhx]
  · simp [listDelBetween, hxs]
  · intro b hb hbx
    simp [listDelBetween, hb, hbx]
  · intro b hb hbx
    simp [listDelBetween, hb, hbx]

/-- `list_del` clears both links of the node. -/
theorem listDel_self : listDel x m x = ⟨null, null⟩ :=
  Store.eq_mk (by simp [listDel]) (by simp [listDel])

/-- `list_del` of the first member touches only nodes of the circle. -/
theorem listDel_of_notMem (hr : Ring m head (x :: xs)) (h : a ∉ head :: x :: xs) :
    listDel x m a = m a := by
  obtain ⟨s, hs⟩ : ∃ s, s ∈ (xs ++ [head]).head? := by
    cases xs with
    | nil => exact ⟨head, by simp⟩
    | cons y ys => exact ⟨y, by simp⟩
  have hprev : (m x).prev = head :=
    (hr.linked_at [] (x :: xs) (p := head) (s := x) (by simp) (by simp)).2
  have hnext : (m x).next = s :=
    (Ring.linked_at [x] xs hr (p := x) (s := s) (by simp) hs).1
  simp only [List.mem_cons, not_or] at h
  have has : a ≠ s := by
    rintro rfl
    rcases List.mem_append.mp (List.mem_of_mem_head? hs) with h' | h'
    · exact h.2.2 h'
    · exact h.1 (List.mem_singleton.mp h')
  rw [listDel, hprev, hnext]
  exact Store.ext_links (by simp [listDelBetween, h.1, h.2.1])
    (by simp [listDelBetween, has, h.2.1])

/-! ## Any position of the circle -/

section Position

variable {p s : Word} {pre post : List Word}

/-- **`list_insert` between neighbours**: a new node becomes a member at this position. -/
theorem ring_listInsert (hr : Ring m head (pre ++ post)) (hn : n ∉ head :: (pre ++ post))
    (hp : p ∈ (head :: pre).getLast?) (hs : s ∈ (post ++ [head]).head?) :
    Ring (listInsert n p s m) head (pre ++ n :: post) := by
  have hpn : p ≠ n := by
    rintro rfl
    have := List.mem_of_mem_getLast? hp
    simp only [List.mem_cons, List.mem_append] at hn this
    grind
  have hsn : s ≠ n := by
    rintro rfl
    have := List.mem_of_mem_head? hs
    simp only [List.mem_cons, List.mem_append, List.not_mem_nil, or_false] at hn this
    grind
  refine hr.insert hn hp hs ⟨?_, ?_⟩ ⟨?_, ?_⟩ ?_ ?_
  · simp [listInsert]
  · simp [listInsert]
  · simp [listInsert, hpn.symm]
  · simp [listInsert, hsn]
  · intro b hb hbn
    simp [listInsert, hb, hbn]
  · intro b hb hbn
    simp [listInsert, hb, hbn]

/-- **`list_del` of any member** leaves the circle of the others. -/
theorem ring_listDel (hr : Ring m head (pre ++ x :: post)) :
    Ring (listDel x m) head (pre ++ post) := by
  obtain ⟨p, hp⟩ : ∃ p, p ∈ (head :: pre).getLast? := by simp [List.getLast?_cons]
  obtain ⟨s, hs⟩ : ∃ s, s ∈ (post ++ [head]).head? := by
    cases post with
    | nil => exact ⟨head, by simp⟩
    | cons y ys => exact ⟨y, by simp⟩
  have hx : x ∉ head :: (pre ++ post) := by
    have hnd := hr.nodup
    rw [← List.cons_append, List.nodup_middle, List.nodup_cons, List.cons_append] at hnd
    exact hnd.1
  have hpx : p ≠ x := by
    rintro rfl
    have := List.mem_of_mem_getLast? hp
    simp only [List.mem_cons, List.mem_append] at hx this
    grind
  have hsx : s ≠ x := by
    rintro rfl
    have := List.mem_of_mem_head? hs
    simp only [List.mem_cons, List.mem_append, List.not_mem_nil, or_false] at hx this
    grind
  have hprev : (m x).prev = p := (hr.linked_at pre (x :: post) hp (s := x) (by simp)).2
  have hnext : (m x).next = s := by
    have hr' : Ring m head ((pre ++ [x]) ++ post) := by rwa [← List.append_cons]
    exact (hr'.linked_at (pre ++ [x]) post (p := x) (by simp [List.getLast?_cons]) hs).1
  rw [listDel, hprev, hnext]
  refine Ring.erase pre post hr hp hs ⟨?_, ?_⟩ ?_ ?_
  · simp [listDelBetween, hpx]
  · simp [listDelBetween, hsx]
  · intro b hb hbx
    simp [listDelBetween, hb, hbx]
  · intro b hb hbx
    simp [listDelBetween, hb, hbx]

end Position

/-! ## Traversal -/

/-- `list_for_each_entry`, with a body that leaves the loop at the first member with a property and
does nothing else. `fuel` bounds the number of turns: the loop does not end, as far as it tells, when
it returns `none`; `some none` when it passed all members. -/
def listForEachEntry (head : Word) (found : Word → Bool) (m : Lists) :
    ℕ → Word → Option (Option Word)
  | 0, _ => none
  | fuel + 1, pos =>
      if pos ≠ head then
        if found pos then some (some pos) else listForEachEntry head found m fuel (m pos).next
      else some none

/-- The next member of a circle, or the header behind the last one. -/
theorem next_member {pre post : List Word} (hr : Ring m head (pre ++ x :: post)) :
    (m x).next ∈ (post ++ [head]).head? := by
  obtain ⟨s, hs⟩ : ∃ s, s ∈ (post ++ [head]).head? := by
    cases post with
    | nil => exact ⟨head, by simp⟩
    | cons y ys => exact ⟨y, by simp⟩
  have hr' : Ring m head ((pre ++ [x]) ++ post) := by rwa [← List.append_cons]
  have hlink := hr'.linked_at (pre ++ [x]) post (p := x) (by simp [List.getLast?_cons]) hs
  rw [hlink.1]
  exact hs

/-- **A traversal finds the first member** with the property, in as many turns as there are members
and one more. -/
theorem listForEachEntry_ring {found : Word → Bool} (pre : List Word) {post : List Word}
    {pos : Word} {fuel : ℕ} (hr : Ring m head (pre ++ post)) (hpos : pos ∈ (post ++ [head]).head?)
    (hfuel : post.length < fuel) :
    listForEachEntry head found m fuel pos = some (post.find? found) := by
  induction post generalizing pre pos fuel with
  | nil =>
      obtain ⟨fuel, rfl⟩ := Nat.exists_eq_add_one.mpr hfuel
      obtain rfl : head = pos := by simpa using hpos
      rw [listForEachEntry, if_neg (not_not.mpr rfl), List.find?_nil]
  | cons b post ih =>
      obtain ⟨fuel, rfl⟩ := Nat.exists_eq_add_one.mpr (Nat.zero_lt_of_lt hfuel)
      obtain rfl : b = pos := by simpa using hpos
      have hb : b ≠ head := by
        rintro rfl
        have hnd := hr.nodup
        simp at hnd
      rw [listForEachEntry, if_pos hb]
      by_cases hfound : found b
      · rw [if_pos hfound, List.find?_cons_of_pos hfound]
      · rw [if_neg hfound, List.find?_cons_of_neg hfound]
        rw [List.append_cons] at hr
        have hring : Ring m head (pre ++ b :: post) := by rwa [List.append_cons]
        refine ih _ hr (next_member hring) ?_
        rw [List.length_cons] at hfuel
        omega

end Storm
