import Storm.Library.Extent
import Storm.Library.Transition

/-! # Memory allocation as its clients see it

The clients of an allocator ask for numbers of bytes and get extents, or are refused, and release
what they got. What they rely on is said by `Step`: an extent is as long as asked for, aligned,
inside of the memory, and apart from all other extents that are in use. Nothing is said of where the
allocator keeps its records, or of when it refuses.

`Safe.run` is the safety of every such allocator: at any time the extents in use are apart. -/

namespace Allocation

open Transition

/-- What happens between a client and the allocator. -/
inductive Event
  /-- A request for `n` bytes, answered with an address or refused. -/
  | alloc (n : ℕ) (answer : Option ℕ)
  /-- The extent at an address is given back. -/
  | release (p : ℕ)
  deriving DecidableEq, Repr

/-- The steps of an allocator for the memory from `lo` to `hi` with a given alignment; the state is
the list of the extents in use. -/
inductive Step (lo hi align : ℕ) : List Extent → Event → List Extent → Prop
  /-- A request is granted. -/
  | grant {live : List Extent} {e : Extent} (hin : e.Within lo hi) (halign : align ∣ e.lo)
      (hfresh : ∀ f ∈ live, Extent.Apart e f) :
      Step lo hi align live (.alloc e.len (some e.lo)) (e :: live)
  /-- A request is refused. -/
  | refuse {live : List Extent} (n : ℕ) : Step lo hi align live (.alloc n none) live
  /-- An extent in use is released. -/
  | release {live : List Extent} {e : Extent} (he : e ∈ live) :
      Step lo hi align live (.release e.lo) (live.erase e)

/-- The extents in use are apart, inside of the memory, and aligned. -/
structure Safe (lo hi align : ℕ) (live : List Extent) : Prop where
  apart : live.Pairwise Extent.Apart
  within : ∀ e ∈ live, e.Within lo hi
  aligned : ∀ e ∈ live, align ∣ e.lo

variable {lo hi align : ℕ} {live live' : List Extent}

/-- One step keeps the extents in use safe. -/
theorem Safe.step {ev : Event} (h : Safe lo hi align live) (hstep : Step lo hi align live ev live') :
    Safe lo hi align live' := by
  cases hstep with
  | grant hin halign hfresh =>
      refine ⟨List.pairwise_cons.mpr ⟨hfresh, h.apart⟩, ?_, ?_⟩
      · exact List.forall_mem_cons.mpr ⟨hin, h.within⟩
      · exact List.forall_mem_cons.mpr ⟨halign, h.aligned⟩
  | refuse n => exact h
  | release he =>
      refine ⟨h.apart.sublist List.erase_sublist, fun f hf => ?_, fun f hf => ?_⟩
      · exact h.within f (List.mem_of_mem_erase hf)
      · exact h.aligned f (List.mem_of_mem_erase hf)

/-- **Safety of allocation**: in every run the extents in use are apart. -/
theorem Safe.run {evs : List Event} (h : Safe lo hi align live)
    (hrun : Run (Step lo hi align) live evs live') : Safe lo hi align live' :=
  hrun.invariant (fun _ _ _ => Safe.step) h

/-- Nothing is in use. -/
theorem safe_nil : Safe lo hi align [] := ⟨.nil, by simp, by simp⟩

end Allocation
