import Storm.Library.Transition
import Mathlib.Data.List.Nodup
import Mathlib.Data.List.Count

/-! # A round-robin dispatcher

The purpose of a cooperative scheduler, without its implementation: threads wait in a FIFO queue,
one thread runs, and an idle thread runs when nobody waits. A thread is created at the end of the
queue, the first dispatch takes the head, a thread that yields goes back to the end, a thread that
exits never comes back.

* `Run.valid` — the queue, the running thread and the exited threads never overlap;
* `Run.exited_subset` — who has exited stays so;
* `dispatched_take` — bounded waiting: the waiting threads are dispatched next, in order, whatever
  is created, yields or exits meanwhile. -/

namespace RoundRobin

variable {τ : Type*}

/-- A dispatcher over threads of type `τ`. -/
structure State (τ : Type*) where
  /-- The thread that runs when nobody waits. -/
  idle : τ
  /-- The waiting threads, first to be dispatched first. -/
  queue : List τ
  /-- The running thread; none before the first dispatch. -/
  current : Option τ
  /-- The threads that have exited. -/
  exited : List τ

/-- What can happen. -/
inductive Label (τ : Type*) where
  /-- A new thread. -/
  | create (t : τ)
  /-- The first dispatch. -/
  | start
  /-- The running thread gives way but wants to run again. -/
  | yield
  /-- The running thread is done. -/
  | exit

/-- The labels that dispatch a thread. -/
def Label.dispatches : Label τ → Bool
  | .create _ => false
  | .start | .yield | .exit => true

namespace State

/-- The thread to run next. -/
def next (s : State τ) : τ := s.queue.headD s.idle

/-- Take the next thread from the queue and run it. -/
def dispatch (s : State τ) : State τ := { s with queue := s.queue.tail, current := some s.next }

/-- Put a thread, unless it is the idle one, at the end of the queue. -/
def requeue [DecidableEq τ] (t : τ) (s : State τ) : State τ :=
  { s with queue := s.queue ++ if t = s.idle then [] else [t] }

/-- All threads the dispatcher knows. -/
def Known (s : State τ) (t : τ) : Prop :=
  t = s.idle ∨ t ∈ s.queue ∨ s.current = some t ∨ t ∈ s.exited

/-- The queue, the running thread and the exited threads do not overlap, and the idle thread is
neither queued nor exited. -/
structure Valid (s : State τ) : Prop where
  nodup : s.queue.Nodup
  idle_queue : s.idle ∉ s.queue
  idle_exited : s.idle ∉ s.exited
  exited_queue : ∀ t ∈ s.exited, t ∉ s.queue
  current_queue : ∀ t, s.current = some t → t ∉ s.queue
  current_exited : ∀ t, s.current = some t → t ∉ s.exited

end State

/-- The steps of the dispatcher. -/
inductive Step [DecidableEq τ] : State τ → Label τ → State τ → Prop
  /-- A thread not known before is created at the end of the queue. -/
  | create {s : State τ} {t : τ} (h : ¬ s.Known t) :
      Step s (.create t) { s with queue := s.queue ++ [t] }
  /-- The first dispatch. -/
  | start {s : State τ} (h : s.current = none) : Step s .start s.dispatch
  /-- The running thread is queued again after the next one was taken. -/
  | yield {s : State τ} {c : τ} (h : s.current = some c) : Step s .yield (s.dispatch.requeue c)
  /-- The running thread, not the idle one, leaves for good. -/
  | exit {s : State τ} {c : τ} (h : s.current = some c) (hc : c ≠ s.idle) :
      Step s .exit { s.dispatch with exited := c :: s.exited }

section Invariants

variable {s s' : State τ} {a : Label τ} {as : List (Label τ)} {t : τ} {q : List τ}

/-- The next thread is the idle one or the head of the queue. -/
theorem State.next_cases (s : State τ) :
    (s.queue = [] ∧ s.next = s.idle) ∨ ∃ q, s.queue = s.next :: q := by
  cases h : s.queue with
  | nil => exact Or.inl ⟨rfl, by rw [State.next, h, List.headD_nil]⟩
  | cons t q => exact Or.inr ⟨q, by rw [State.next, h, List.headD_cons]⟩

/-- Dispatching keeps the dispatcher valid when the previous thread is not taken into account. -/
theorem State.Valid.dispatch (hv : s.Valid) : s.dispatch.Valid := by
  have htail : ∀ t ∈ s.queue.tail, t ∈ s.queue := fun t ht => List.mem_of_mem_tail ht
  refine ⟨hv.nodup.tail, fun h => hv.idle_queue (htail _ h), hv.idle_exited,
    fun t ht h => hv.exited_queue t ht (htail _ h), ?_, ?_⟩
  · intro t ht h
    obtain rfl : s.next = t := Option.some.inj ht
    rcases s.next_cases with ⟨hq, -⟩ | ⟨q, hq⟩
    · rw [State.dispatch, hq] at h
      simp at h
    · have hnd := hv.nodup
      rw [hq] at hnd
      rw [State.dispatch, hq] at h
      exact (List.nodup_cons.mp hnd).1 h
  · intro t ht h
    obtain rfl : s.next = t := Option.some.inj ht
    rcases s.next_cases with ⟨-, hn⟩ | ⟨q, hq⟩
    · rw [hn] at h
      exact hv.idle_exited h
    · exact hv.exited_queue _ h (by rw [hq]; exact List.mem_cons_self)

/-- The running thread is not the one dispatched next, unless it is the idle thread. -/
theorem State.Valid.next_ne (hv : s.Valid) (h : s.current = some t) (ht : t ≠ s.idle) :
    s.next ≠ t := by
  rintro rfl
  rcases s.next_cases with ⟨-, hn⟩ | ⟨q, hq⟩
  · exact ht hn
  · exact hv.current_queue _ h (by rw [hq]; exact List.mem_cons_self)

/-- The idle thread is dispatched next exactly when nobody waits. -/
theorem State.Valid.next_eq_idle_iff (hv : s.Valid) : s.next = s.idle ↔ s.queue = [] := by
  rcases s.next_cases with ⟨hq, hn⟩ | ⟨q, hq⟩
  · exact iff_of_true hn hq
  · refine iff_of_false (fun hn => hv.idle_queue ?_) (by rw [hq]; exact List.cons_ne_nil _ _)
    rw [hq, ← hn]
    exact List.mem_cons_self

/-- The dispatcher forgets nobody but the previous thread when it takes the next one. -/
theorem State.known_dispatch : s.dispatch.Known t ↔ t = s.idle ∨ t ∈ s.queue ∨ t ∈ s.exited := by
  cases hq : s.queue with
  | nil => simp [State.Known, State.dispatch, State.next, hq, eq_comm]
  | cons u q =>
      simp only [State.Known, State.dispatch, State.next, hq, List.tail_cons, List.headD_cons,
        Option.some.injEq, List.mem_cons]
      tauto

variable [DecidableEq τ]

/-- The next thread, unless it is the idle one, is the head of the queue. -/
theorem State.Valid.queue_eq (hv : s.Valid) :
    s.queue = [s.next].filter (· ≠ s.idle) ++ s.queue.tail := by
  rcases s.next_cases with ⟨hq, hn⟩ | ⟨q, hq⟩
  · simp [hq, hn]
  · have hne : s.next ≠ s.idle := fun hn => by
      rw [hv.next_eq_idle_iff, hq] at hn
      cases hn
    rw [show s.queue.tail = q by rw [hq, List.tail_cons]]
    nth_rewrite 1 [hq]
    simp [hne]

/-- Queueing a thread makes it known. -/
theorem State.known_requeue {c : τ} : (s.requeue c).Known t ↔ s.Known t ∨ t = c := by
  by_cases hc : c = s.idle
  · simp only [State.Known, State.requeue, hc, if_true, List.append_nil]
    tauto
  · simp only [State.Known, State.requeue, hc, if_false, List.mem_append, List.mem_singleton]
    tauto

/-- Every step keeps the dispatcher valid. -/
theorem Step.valid (h : Step s a s') (hv : s.Valid) : s'.Valid := by
  cases h with
  | @create t hk =>
      simp only [State.Known, not_or] at hk
      obtain ⟨hidle, hq, hcur, hex⟩ := hk
      refine ⟨?_, ?_, hv.idle_exited, ?_, ?_, hv.current_exited⟩
      · exact List.nodup_append.mpr ⟨hv.nodup, by simp, by
          rintro u hu v hv' rfl
          exact hq (List.mem_singleton.mp hv' ▸ hu)⟩
      · simpa [hv.idle_queue] using Ne.symm hidle
      · intro u hu
        simp only [List.mem_append, List.mem_singleton, not_or]
        exact ⟨hv.exited_queue u hu, fun hut => hex (hut ▸ hu)⟩
      · intro u hu
        simp only [List.mem_append, List.mem_singleton, not_or]
        exact ⟨hv.current_queue u hu, fun hut => hcur (hut ▸ hu)⟩
  | start => exact hv.dispatch
  | @yield c hc =>
      have hd := hv.dispatch
      by_cases hci : c = s.idle
      · have hrq : s.dispatch.requeue c = s.dispatch := by
          simp [State.requeue, State.dispatch, hci]
        rwa [hrq]
      · have hq : (s.dispatch.requeue c).queue = s.queue.tail ++ [c] := by
          simp [State.requeue, State.dispatch, hci]
        have hcq : c ∉ s.queue := hv.current_queue c hc
        -- the running thread was not queued, so that it may go to the end of the queue
        refine ⟨?_, ?_, hv.idle_exited, ?_, ?_, hd.current_exited⟩
        · rw [hq]
          refine List.nodup_append.mpr ⟨hv.nodup.tail, by simp, ?_⟩
          rintro u hu v hv' rfl
          exact hcq (List.mem_singleton.mp hv' ▸ List.mem_of_mem_tail hu)
        · rw [hq]
          simp only [List.mem_append, List.mem_singleton, not_or]
          exact ⟨hd.idle_queue, Ne.symm hci⟩
        · intro u hu
          rw [hq]
          simp only [List.mem_append, List.mem_singleton, not_or]
          exact ⟨hd.exited_queue u hu, fun huc => hv.current_exited c hc (huc ▸ hu)⟩
        · intro u hu
          rw [hq]
          simp only [List.mem_append, List.mem_singleton, not_or]
          refine ⟨hd.current_queue u hu, ?_⟩
          rintro rfl
          exact hv.next_ne hc hci (Option.some.inj hu)
  | @exit c hc hci =>
      have hd := hv.dispatch
      refine ⟨hd.nodup, hd.idle_queue, ?_, ?_, hd.current_queue, ?_⟩
      · simpa [State.dispatch, Ne.symm hci] using hv.idle_exited
      · intro u hu
        rcases List.mem_cons.mp hu with rfl | hu
        · exact fun h => hv.current_queue u hc (List.mem_of_mem_tail h)
        · exact hd.exited_queue u hu
      · intro u hu h
        rcases List.mem_cons.mp h with rfl | h
        · exact hv.next_ne hc hci (Option.some.inj hu)
        · exact hd.current_exited u hu h

/-- A step adds the created thread to the known ones. -/
theorem Step.known_iff (h : Step s a s') : s'.Known t ↔ s.Known t ∨ a = .create t := by
  cases h with
  | @create u =>
      simp only [State.Known, List.mem_append, List.mem_singleton, Label.create.injEq]
      tauto
  | start hc =>
      rw [State.known_dispatch]
      simp [State.Known, hc]
  | @yield c hc =>
      rw [State.known_requeue, State.known_dispatch]
      simp only [State.Known, hc, Option.some.injEq, reduceCtorEq, or_false]
      tauto
  | @exit c hc =>
      have hd := State.known_dispatch (s := s) (t := t)
      simp only [State.Known, hc, Option.some.injEq, reduceCtorEq, or_false, List.mem_cons] at hd ⊢
      tauto

/-- No step changes the idle thread. -/
theorem Step.idle_eq (h : Step s a s') : s'.idle = s.idle := by
  cases h <;> rfl

/-- No step takes back an exit. -/
theorem Step.exited_subset (h : Step s a s') : s.exited ⊆ s'.exited := by
  cases h with
  | exit => exact List.subset_cons_self _ _
  | _ => exact List.Subset.refl _

/-- **Validity** is kept by every run. -/
theorem Run.valid (h : Transition.Run Step s as s') (hv : s.Valid) : s'.Valid :=
  h.invariant (fun _ _ _ hv hstep => hstep.valid hv) hv

/-- **Exits are final** in every run. -/
theorem Run.exited_subset (h : Transition.Run Step s as s') : s.exited ⊆ s'.exited :=
  h.invariant (I := fun r => s.exited ⊆ r.exited)
    (fun _ _ _ hr hstep => List.Subset.trans hr hstep.exited_subset) (List.Subset.refl _)

/-- One step and the running thread: a dispatch runs the next thread, nothing else changes it. -/
theorem Step.current_eq (h : Step s a s') :
    s'.current = if a.dispatches then some s.next else s.current := by
  cases h <;> rfl

/-- The first dispatch and an exit take the next thread, and the running thread, if there is one,
never comes back. -/
theorem Step.leaves (h : Step s a s') (ha : a = .start ∨ a = .exit) :
    s'.queue = s.queue.tail ∧ s'.current = some s.next ∧
      s'.exited.reverse = s.exited.reverse ++ s.current.toList := by
  cases h with
  | create => simp at ha
  | start hc =>
      refine ⟨rfl, rfl, ?_⟩
      rw [hc, Option.toList_none, List.append_nil]
      rfl
  | yield => simp at ha
  | exit hc =>
      refine ⟨rfl, rfl, ?_⟩
      rw [hc, List.reverse_cons]
      rfl

/-- Once a thread runs, some thread always runs. -/
theorem Run.current_isSome (h : Transition.Run Step s as s') (hs : s.current.isSome) :
    s'.current.isSome := by
  refine h.invariant (I := fun r => r.current.isSome) (fun r b r' hr hstep => ?_) hs
  rw [hstep.current_eq]
  split
  · rfl
  · exact hr

/-- What is observed of a step: the thread it dispatches. -/
def dispatched (a : Label τ) (s : State τ) : List τ :=
  if a.dispatches then s.current.toList else []

/-- A step that dispatches the head of the queue, if it dispatches; new entries come only at the
end. -/
theorem Step.queue_eq (h : Step s a s') (hs : s.queue = t :: q) :
    ∃ new, s'.queue = (if a.dispatches then q else t :: q) ++ new ∧
      dispatched a s' = if a.dispatches then [t] else [] := by
  cases h with
  | @create u => exact ⟨[u], by simp [hs, Label.dispatches], rfl⟩
  | start =>
      refine ⟨[], ?_, ?_⟩
      · simp [State.dispatch, Label.dispatches, hs]
      · simp [dispatched, Label.dispatches, State.dispatch, State.next, hs]
  | @yield c =>
      refine ⟨if c = s.idle then [] else [c], ?_, ?_⟩
      · simp [State.requeue, State.dispatch, Label.dispatches, hs]
      · simp [dispatched, Label.dispatches, State.requeue, State.dispatch, State.next, hs]
  | exit =>
      refine ⟨[], ?_, ?_⟩
      · simp [State.dispatch, Label.dispatches, hs]
      · simp [dispatched, Label.dispatches, State.dispatch, State.next, hs]

/-- **Bounded waiting.** As long as threads wait that were waiting at the beginning of a run, they
are the ones that are dispatched, in their order. -/
theorem dispatched_take {ts : List τ} (h : Transition.Observed Step dispatched s as ts s') :
    ts.take s.queue.length = s.queue.take ts.length := by
  induction h with
  | nil => rw [List.take_nil, List.length_nil, List.take_zero]
  | @cons s s₁ s' a as ts hstep _ ih =>
      cases hq : s.queue with
      | nil => rw [List.length_nil, List.take_zero, List.take_nil]
      | cons t q =>
          obtain ⟨new, hq₁, hd⟩ := hstep.queue_eq hq
          rw [hq₁] at ih
          rw [hd]
          cases ha : a.dispatches with
          | false =>
              -- the head stays where it is
              simp only [ha, Bool.false_eq_true, if_false, List.nil_append] at ih ⊢
              rw [List.length_append] at ih
              have := congrArg (List.take (t :: q).length) ih
              rwa [List.take_take, List.take_take, Nat.min_eq_left (Nat.le_add_right _ _),
                Nat.min_comm, ← List.take_take, List.take_left'] at this
              rfl
          | true =>
              -- the head is the first one that is dispatched, the rest follows by induction
              simp only [ha, if_true, List.cons_append, List.nil_append, List.length_cons,
                List.take_succ_cons] at ih ⊢
              rw [List.length_append] at ih
              have := congrArg (List.take q.length) ih
              rw [List.take_take, List.take_take, Nat.min_eq_left (Nat.le_add_right _ _),
                Nat.min_comm, ← List.take_take, List.take_left' rfl] at this
              rw [this]

/-- The dispatches begin with the threads that were waiting, as far as they go. -/
theorem dispatched_eq_append {ts : List τ} (h : Transition.Observed Step dispatched s as ts s') :
    ts = s.queue.take ts.length ++ ts.drop s.queue.length := by
  rw [← dispatched_take h, List.take_append_drop]

/-- **The `k`-th waiting thread is dispatched `k`-th**, counting from zero: not earlier, and not
later. -/
theorem idxOf_dispatched {ts : List τ} (h : Transition.Observed Step dispatched s as ts s')
    (hnd : s.queue.Nodup) {k : ℕ} (hk : s.queue[k]? = some t) :
    (k < ts.length → ts.idxOf t = k) ∧ (ts.length ≤ k → t ∉ ts) := by
  obtain ⟨hlt, rfl⟩ := List.getElem?_eq_some_iff.mp hk
  have hidx : s.queue.idxOf s.queue[k] = k := hnd.idxOf_getElem k hlt
  have hmem : ∀ n, s.queue[k] ∈ s.queue.take n ↔ k < n := fun n => by
    rw [List.mem_take_iff_idxOf_lt (List.getElem_mem hlt), hidx]
  constructor
  · intro hlen
    rw [dispatched_eq_append h, List.idxOf_append_of_mem ((hmem _).mpr hlen)]
    calc (s.queue.take ts.length).idxOf s.queue[k]
        = (s.queue.take ts.length ++ s.queue.drop ts.length).idxOf s.queue[k] :=
          (List.idxOf_append_of_mem ((hmem _).mpr hlen)).symm
      _ = k := by rw [List.take_append_drop, hidx]
  · intro hle hts
    have htake := dispatched_take h
    rw [List.take_of_length_le (by omega)] at htake
    rw [htake, hmem] at hts
    omega

/-- **First come, first dispatched**: of two waiting threads, the one in front is dispatched
first. -/
theorem dispatched_before {ts : List τ} (h : Transition.Observed Step dispatched s as ts s')
    (hnd : s.queue.Nodup) {i j : ℕ} {u v : τ} (hij : i < j) (hi : s.queue[i]? = some u)
    (hj : s.queue[j]? = some v) (hv : v ∈ ts) : u ∈ ts ∧ ts.idxOf u < ts.idxOf v := by
  have hlt : j < ts.length := by
    by_contra hge
    exact (idxOf_dispatched h hnd hj).2 (by omega) hv
  have hu := (idxOf_dispatched h hnd hi).1 (by omega)
  have hv' := (idxOf_dispatched h hnd hj).1 hlt
  refine ⟨List.idxOf_lt_length_iff.mp ?_, ?_⟩
  · omega
  · omega

/-- **One round.** A thread `c` yields, and `es` are the dispatches up to its next one. Each thread
that was waiting when it yielded is among them exactly once. -/
theorem count_dispatched_between {c : τ} {ts es : List τ} (hv : s.Valid) (hc : s.current = some c)
    (hidle : c ≠ s.idle)
    (h : Transition.Observed Step dispatched (s.dispatch.requeue c) as ts s')
    (hes : s.next :: ts = es ++ [c]) (hnew : c ∉ es) (ht : t ∈ s.queue) : es.count t = 1 := by
  cases hq : s.queue with
  | nil => simp [hq] at ht
  | cons u q =>
      have hnext : s.next = u := by rw [State.next, hq, List.headD_cons]
      have hcq : c ∉ u :: q := hq ▸ hv.current_queue c hc
      have hqueue : (s.dispatch.requeue c).queue = q ++ [c] := by
        simp [State.requeue, State.dispatch, hq, hidle]
      have htake := dispatched_take h
      rw [hqueue, List.length_append, List.length_singleton] at htake
      rw [hnext] at hes
      cases es with
      | nil =>
          obtain ⟨huc, -⟩ := List.cons.inj hes
          exact absurd (huc ▸ List.mem_cons_self) hcq
      | cons e es =>
          rw [List.cons_append] at hes
          obtain ⟨rfl, rfl⟩ := List.cons.inj hes
          -- `c` is behind `q` in the new queue, so that its dispatch is number `q.length` from now
          have hnd : (s.dispatch.requeue c).queue.Nodup := (Step.valid (.yield hc) hv).nodup
          have hlast : (s.dispatch.requeue c).queue[q.length]? = some c := by
            rw [hqueue, List.getElem?_concat_length]
          obtain ⟨hidx, hnot⟩ := idxOf_dispatched h hnd hlast
          have hlt : q.length < (es ++ [c]).length := by
            by_contra hge
            exact hnot (by omega) (by simp)
          have hlen : es.length = q.length := by
            rw [← hidx hlt, List.idxOf_append_of_notMem (List.not_mem_of_not_mem_cons hnew)]
            simp
          rw [List.length_append, hlen, List.length_singleton,
            List.take_of_length_le (by simp [hlen]), List.take_of_length_le (by simp)] at htake
          obtain rfl : es = q := List.append_cancel_right htake
          rw [hq] at ht
          exact List.count_eq_one_of_mem (hq ▸ hv.nodup) ht

end Invariants

end RoundRobin
