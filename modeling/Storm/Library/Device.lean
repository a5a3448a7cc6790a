import Mathlib.Data.List.Basic

/-! # Devices on a bus

A device is driven by events, of which it ignores those that are meant for other devices. What
becomes of it depends on its own events only, whatever is interleaved with them. -/

namespace Device

variable {σ E : Type*} {step : σ → E → σ} {mine : E → Bool}

/-- Events that are not `mine` are ignored. -/
def IgnoresOthers (step : σ → E → σ) (mine : E → Bool) : Prop :=
  ∀ s e, mine e = false → step s e = s

/-- Events of other devices change nothing. -/
theorem foldl_of_others (h : IgnoresOthers step mine) {events : List E}
    (hothers : ∀ e ∈ events, mine e = false) (s : σ) : events.foldl step s = s := by
  induction events with
  | nil => rfl
  | cons e events ih =>
      rw [List.foldl_cons, h s e (hothers e List.mem_cons_self)]
      exact ih fun e' he' => hothers e' (List.mem_cons_of_mem _ he')

/-- **Only the events of a device matter to it.** -/
theorem foldl_filter (h : IgnoresOthers step mine) (events : List E) (s : σ) :
    events.foldl step s = (events.filter mine).foldl step s := by
  induction events generalizing s with
  | nil => rfl
  | cons e events ih =>
      rw [List.foldl_cons, ih]
      cases he : mine e with
      | true => rw [List.filter_cons_of_pos he, List.foldl_cons]
      | false => rw [List.filter_cons_of_neg (Bool.eq_false_iff.mp he), h s e he]

end Device
