import Storm.Arch.InterruptDelivery
import Storm.Kernel.SetupStack
import Storm.Library.Transition
import Mathlib.Tactic.IntervalCases

/-! # Context switches with interrupts

Any number of threads with a stack each, on one processor, instruction by instruction. While a
thread runs it may do what it likes to the registers and to its own stack. To switch it calls
`thread_context_switch_asm`, and between any two instructions of that there may be an interrupt,
which pushes its frame on the stack that the stack pointer happens to point to.

A suspended thread is described by its *context*, the machine that it expects to find when it goes
on. `Suspended` says how the stack of the thread and its `stack_ptr` hold the context. In the middle
of a switch the processor is compared with one that is never interrupted (`Midway`). The two agree
on what is alive: on the part of every stack that is above its stack pointer.

The main result, `context_preserved`, says that a thread finds its context when it is switched back
in. -/

namespace Storm

open ByteMemory I386 Transition

variable {τ : Type*}

/-- The stacks of the threads and the addresses of their `stack_ptr`. -/
structure Stacks (τ : Type*) where
  /-- The stack of a thread is between the addresses `lo` and `hi`. -/
  lo : τ → ℕ
  hi : τ → ℕ
  /-- `&thread->stack_ptr`. -/
  slot : τ → Word
  hi_le : ∀ t, hi t ≤ 2 ^ 32
  /-- The stacks do not overlap. -/
  disjoint : ∀ t u, t ≠ u → Disjoint (Range (lo t) (hi t)) (Range (lo u) (hi u))
  /-- The stack pointers are not on a stack. -/
  slot_outside : ∀ t u, Disjoint (WordAt (slot t)) (Range (lo u) (hi u))
  /-- Each thread has its own. -/
  slot_apart : ∀ t u, t ≠ u → Apart (slot t) (slot u)

namespace Stacks

variable (R : Stacks τ)

/-- The addresses of a stack. -/
def region (t : τ) : Set Word := Range (R.lo t) (R.hi t)

/-- What the code that runs on the stack of `t` leaves alone: the other stacks, and the stack
pointers. -/
def kept (t : τ) : Set Word := {b | (∃ u, b ∈ WordAt (R.slot u)) ∨ ∃ u, u ≠ t ∧ b ∈ R.region u}

/-- The thread `t` is suspended: its stack and its `stack_ptr` hold the context `x`. -/
structure Suspended (t : τ) (x : Machine) (mem : Memory) : Prop where
  lo_le : R.lo t + 20 ≤ (x.gpr .esp).toNat
  le_hi : (x.gpr .esp).toNat ≤ R.hi t
  /-- The stack pointer is below the return address and four saved registers. -/
  slot : load32 mem (R.slot t) = x.gpr .esp - 20
  esi : load32 mem (x.gpr .esp - 20) = x.gpr .esi
  edi : load32 mem (x.gpr .esp - 16) = x.gpr .edi
  ebx : load32 mem (x.gpr .esp - 12) = x.gpr .ebx
  ebp : load32 mem (x.gpr .esp - 8) = x.gpr .ebp
  eip : load32 mem (x.gpr .esp - 4) = x.eip
  /-- The stack above is as it was. -/
  stack : Agree (Range (x.gpr .esp).toNat (R.hi t)) mem x.mem

end Stacks

/-- The processor and its threads. -/
structure SwitchState (τ : Type*) where
  machine : Machine
  /-- The thread that runs, or that has called `thread_context_switch_asm`. -/
  running : τ
  /-- The thread that is switched to, and how many instructions have been executed. -/
  switching : Option (τ × ℕ)
  /-- The contexts of the threads that have been set up and do not run. -/
  context : τ → Option Machine

/-- What may happen next. -/
inductive SwitchAction (τ : Type*) where
  /-- The running thread computes. -/
  | compute (machine : Machine)
  /-- The running thread calls `thread_setup_stack` for another one. -/
  | setUp (t : τ) (fn arg : Word)
  /-- The running thread executes `call thread_context_switch_asm`, which is followed by the
  instruction at `ret`. -/
  | call (next : τ) (ret : Word)
  /-- The next instruction of `thread_context_switch_asm`. -/
  | instr
  /-- An interrupt through a gate and its stub. `isr_main` returns with the machine `ret`. -/
  | interrupt (gate : Gate) (stub : Byte × IsrKind) (error : Word) (ret : Machine)

namespace SwitchState

/-- The thread whose stack is in use. From `mov %ecx, %esp` on, the eighth instruction, it is the
one that is switched to. -/
def owner (s : SwitchState τ) : τ :=
  match s.switching with
  | some (next, k) => if 8 ≤ k then next else s.running
  | none => s.running

/-- The context of a thread that is about to enter `thread_main(fn, arg)`, with the stack in the
memory `mem`. -/
def freshContext (im : Image) (top : Word) (mem : Memory) (m : Machine) : Machine where
  gpr r := if r = .esp then top - 12 else 0
  eip := im.threadMain
  cs := m.cs
  eflags := m.eflags
  mem

/-- The context of a thread that goes on at `ret`. -/
def contextAt (ret : Word) (m : Machine) : Machine := m.setEip ret

/-- The machine behind the `call` of a thread with the context `x`. -/
def switchStart (l : Linked threadAsm) (x : Machine) : Machine :=
  (x.push x.eip).setEip (l.addr 2)

variable [DecidableEq τ] (R : Stacks τ) (im : Image) {isrMain : Word}
  (isrs : Linked (interruptsAsm isrMain))

/-- The steps of the system. Nobody pushes words below the own stack. -/
def Step (s : SwitchState τ) : SwitchAction τ → SwitchState τ → Prop
  | .compute m, s' =>
      s.switching = none ∧ Agree (R.kept s.running) m.mem s.machine.mem ∧
        s' = { s with machine := m }
  | .setUp t fn arg, s' =>
      let base := BitVec.ofNat 32 (R.lo t)
      let size := BitVec.ofNat 32 (R.hi t - R.lo t)
      let r := threadSetupStack im base size fn arg s.machine.mem
      let mem := store32 r.1 (R.slot t) r.2
      s.switching = none ∧ t ≠ s.running ∧ s.context t = none ∧ R.lo t + 32 ≤ R.hi t ∧
        s' = { s with
          machine := { s.machine with mem }
          context := Function.update s.context t
            (some (freshContext im (base + size) mem s.machine)) }
  | .call next ret, s' =>
      let m := s.machine
      s.switching = none ∧ next ≠ s.running ∧ s.context next ≠ none ∧
        -- the arguments
        load32 m.mem (m.gpr .esp) = R.slot s.running ∧
        load32 m.mem (m.gpr .esp + 4) = load32 m.mem (R.slot next) ∧
        -- there is room for the return address and four registers
        R.lo s.running + 20 ≤ (m.gpr .esp).toNat ∧ (m.gpr .esp).toNat + 8 ≤ R.hi s.running ∧
        s' = { s with
          machine := switchStart im.threadAsm (contextAt ret m)
          switching := some (next, 0)
          context := Function.update s.context s.running (some (contextAt ret m)) }
  | .instr, s' => ∃ next k m, s.switching = some (next, k) ∧
      im.threadAsm.step s.machine = some m ∧
        s' = if k < 12 then { s with machine := m, switching := some (next, k + 1) }
          else { s with
            machine := m
            running := next
            switching := none
            context := Function.update s.context next none }
  | .interrupt gate stub error ret, s' =>
      let m := s.machine
      let call := callIsrMain isrs gate stub error m
      stub ∈ isrStubs ∧ gate.offset = isr isrs stub.1 ∧
        R.lo s.owner + 60 ≤ (m.gpr .esp).toNat ∧ (m.gpr .esp).toNat ≤ R.hi s.owner ∧
        IsrMainReturns (R.hi s.owner - (m.gpr .esp).toNat) call ret ∧
        Agree (R.kept s.owner) ret.mem call.mem ∧
        s' = { s with machine := returnIsrMain isrs ret }

/-- The machine `m` goes on where the context `x` says, on a stack that reaches up to `hi`. -/
structure Continues (hi : ℕ) (x m : Machine) : Prop where
  eip : m.eip = x.eip
  esp : m.gpr .esp = x.gpr .esp
  ebp : m.gpr .ebp = x.gpr .ebp
  ebx : m.gpr .ebx = x.gpr .ebx
  edi : m.gpr .edi = x.gpr .edi
  esi : m.gpr .esi = x.gpr .esi
  stack : Agree (Range (x.gpr .esp).toNat hi) m.mem x.mem

/-- A thread that is switched back in, by the thirteenth instruction of `thread_context_switch_asm`,
finds its context. -/
def FindsContext (s : SwitchState τ) (a : SwitchAction τ) (s' : SwitchState τ) : Prop :=
  ∀ next, a = .instr → s.switching = some (next, 12) →
    s'.running = next ∧ ∃ x, s.context next = some x ∧ Continues (R.hi next) x s'.machine

end SwitchState

/-! ## Suspended threads -/

namespace Stacks

variable {R : Stacks τ} {t u : τ} {x : Machine} {mem mem' : Memory}

/-- A suspended thread depends on its `stack_ptr` and on its stack, from the stack pointer on. -/
theorem Suspended.congr (h : R.Suspended t x mem) (hslot : Agree (WordAt (R.slot t)) mem' mem)
    (hstack : Agree (Range ((x.gpr .esp).toNat - 20) (R.hi t)) mem' mem) :
    R.Suspended t x mem' := by
  have hlo := h.lo_le
  have hword : ∀ d : Word, 4 ≤ d.toNat → d.toNat ≤ 20 →
      load32 mem' (x.gpr .esp - d) = load32 mem (x.gpr .esp - d) := by
    intro d hd hd'
    refine hstack.load32 (wordAt_subset_range ?_ ?_ (R.hi_le t))
    · bv_omega
    · have := h.le_hi
      bv_omega
  refine ⟨h.lo_le, h.le_hi, (hslot.load32 subset_rfl).trans h.slot,
    (hword _ (by decide) (by decide)).trans h.esi, (hword _ (by decide) (by decide)).trans h.edi,
    (hword _ (by decide) (by decide)).trans h.ebx, (hword _ (by decide) (by decide)).trans h.ebp,
    (hword _ (by decide) (by decide)).trans h.eip, ?_⟩
  refine (hstack.mono fun b hb => ?_).trans h.stack
  exact ⟨le_trans (Nat.sub_le _ _) hb.1, hb.2⟩

/-- What is alive on the stack of a suspended thread is on its stack. -/
theorem Suspended.subset_region (h : R.Suspended t x mem) :
    Range ((x.gpr .esp).toNat - 20) (R.hi t) ⊆ R.region t := by
  intro b hb
  have hlo := h.lo_le
  exact ⟨by have := hb.1; omega, hb.2⟩

/-- A thread stays suspended when the code on another stack keeps to its own. -/
theorem Suspended.of_kept (h : R.Suspended t x mem) (htu : t ≠ u)
    (hmem : Agree (R.kept u) mem' mem) : R.Suspended t x mem' :=
  h.congr (hmem.mono fun _ hb => Or.inl ⟨t, hb⟩)
    (hmem.mono fun _ hb => Or.inr ⟨t, htu, h.subset_region hb⟩)

/-- The code on a stack does not write to what it leaves alone as long as it writes to the stack. -/
theorem disjoint_kept (R : Stacks τ) (t : τ) : Disjoint (R.kept t) (R.region t) := by
  rw [Set.disjoint_left]
  rintro b (⟨u, hb⟩ | ⟨u, hut, hb⟩) hb'
  · exact Set.disjoint_left.mp (R.slot_outside u t) hb hb'
  · exact Set.disjoint_left.mp (R.disjoint u t hut) hb hb'

/-- Below a stack pointer there is the stack, as far as there is room. -/
theorem below_subset_region {sp : Word} {n : ℕ} (hlo : R.lo t + n ≤ sp.toNat)
    (hhi : sp.toNat ≤ R.hi t) : Below sp n ⊆ R.region t := by
  intro b hb
  simp only [mem_below, region, mem_range] at hb ⊢
  bv_omega

/-- The saved words of a suspended thread are not its stack pointer. -/
theorem slot_apart_word (R : Stacks τ) (t u : τ) {a : Word} (hlo : R.lo u ≤ a.toNat)
    (hhi : a.toNat + 4 ≤ R.hi u) : Apart (R.slot t) a :=
  apart_iff_disjoint.mpr ((R.slot_outside t u).mono_right
    (wordAt_subset_range hlo hhi (R.hi_le u)))

/-- **A saved context**: the return address and four registers below the stack pointer, and the
stack pointer in its slot. -/
theorem suspended_of_saved (hlo : R.lo t + 20 ≤ (x.gpr .esp).toNat)
    (hhi : (x.gpr .esp).toNat ≤ R.hi t) :
    R.Suspended t x (store32 (storesBelow (x.gpr .esp)
      [(4, x.eip), (8, x.gpr .ebp), (12, x.gpr .ebx), (16, x.gpr .edi), (20, x.gpr .esi)] x.mem)
        (R.slot t) (x.gpr .esp - 20)) := by
  -- the store into the slot leaves the saved words alone
  have hslot : ∀ d : Word, 4 ≤ d.toNat → d.toNat ≤ 20 → Apart (R.slot t) (x.gpr .esp - d) := by
    intro d hd hd'
    refine R.slot_apart_word t t ?_ ?_ <;> bv_omega
  have hout : ∀ b ∈ Range (x.gpr .esp).toNat (R.hi t), b ∉ WordAt (R.slot t) := fun b hb hb' =>
    Set.disjoint_left.mp (R.slot_outside t t) hb' ⟨by have := hb.1; omega, hb.2⟩
  have hbelow : ∀ b ∈ Range (x.gpr .esp).toNat (R.hi t), b ∉ Below (x.gpr .esp) 20 := by
    intro b hb hb'
    simp only [mem_range, mem_below] at hb hb'
    bv_omega
  refine ⟨hlo, hhi, load32_store32, ?_, ?_, ?_, ?_, ?_,
    (agree_store32 hout).trans (agree_storesBelow hbelow (by simp))⟩
  all_goals
    rw [load32_store32_of_apart (hslot _ (by decide) (by decide))]
    simp [storesBelow, load32_store32_of_apart]

/-- The other threads are not affected. -/
theorem Suspended.saved {z : Machine} (h : R.Suspended u z mem) (hut : u ≠ t) {sp : Word}
    (hlo : R.lo t + 20 ≤ sp.toNat) (hhi : sp.toNat ≤ R.hi t) {ws : List (Word × Word)}
    (hws : ∀ w ∈ ws, 4 ≤ w.1.toNat ∧ w.1.toNat ≤ 20) {v : Word} :
    R.Suspended u z (store32 (storesBelow sp ws mem) (R.slot t) v) := by
  have hbelow := R.below_subset_region hlo hhi
  refine h.congr ((agree_store32 fun b hb hb' => ?_).trans
    (agree_storesBelow (fun b hb hb' => ?_) hws))
    ((agree_store32 fun b hb hb' => ?_).trans (agree_storesBelow (fun b hb hb' => ?_) hws))
  · exact Set.disjoint_left.mp (apart_iff_disjoint.mp (R.slot_apart u t hut)) hb hb'
  · exact Set.disjoint_left.mp (R.slot_outside u t) hb (hbelow hb')
  · exact Set.disjoint_left.mp (R.slot_outside t u) hb' (h.subset_region hb)
  · exact Set.disjoint_left.mp (R.disjoint u t hut) (h.subset_region hb) (hbelow hb')

section SetUp

variable {im : Image} {fn arg : Word} {m : Machine} (h : R.lo t + 32 ≤ R.hi t)
include h

/-- The end of the stack of a new thread. -/
theorem toNat_top (d : Word) (hd : 0 < d.toNat) (hd' : d.toNat ≤ 32) :
    (BitVec.ofNat 32 (R.lo t) + BitVec.ofNat 32 (R.hi t - R.lo t) - d).toNat =
      R.hi t - d.toNat := by
  have hhi := R.hi_le t
  have htop : BitVec.ofNat 32 (R.lo t) + BitVec.ofNat 32 (R.hi t - R.lo t) =
      BitVec.ofNat 32 (R.hi t) := by
    rw [← BitVec.ofNat_add, Nat.add_sub_cancel' (by omega)]
  rw [htop]
  bv_omega

/-- **A new thread** is suspended right before it enters `thread_main`. -/
theorem suspended_of_setUp (mem : Memory) :
    let base := BitVec.ofNat 32 (R.lo t)
    let size := BitVec.ofNat 32 (R.hi t - R.lo t)
    let r := threadSetupStack im base size fn arg mem
    R.Suspended t (SwitchState.freshContext im (base + size) (store32 r.1 (R.slot t) r.2) m)
      (store32 r.1 (R.slot t) r.2) := by
  intro base size r
  -- above the context there are the arguments of `thread_main` and its return address
  let x := SwitchState.freshContext im (base + size)
    (storesBelow (base + size) [(4, arg), (8, fn), (12, 0)] mem) m
  have hesp : (x.gpr .esp).toNat = R.hi t - 12 := toNat_top h 12 (by decide) (by decide)
  have hsaved := R.suspended_of_saved (x := x) (t := t) (by omega) (by omega)
  have hmem : store32 r.1 (R.slot t) r.2 = store32 (storesBelow (x.gpr .esp)
      [(4, x.eip), (8, x.gpr .ebp), (12, x.gpr .ebx), (16, x.gpr .edi), (20, x.gpr .esi)] x.mem)
        (R.slot t) (x.gpr .esp - 20) := by
    simp [r, x, threadSetupStack, storesBelow, SwitchState.freshContext, sub_sub]
  rw [← hmem] at hsaved
  exact ⟨hsaved.lo_le, hsaved.le_hi, hsaved.slot, hsaved.esi, hsaved.edi, hsaved.ebx, hsaved.ebp,
    hsaved.eip, .refl _ _⟩

/-- The other threads are not affected. -/
theorem Suspended.setUp (hu : R.Suspended u x mem) (hut : u ≠ t) :
    let r := threadSetupStack im (BitVec.ofNat 32 (R.lo t))
      (BitVec.ofNat 32 (R.hi t - R.lo t)) fn arg mem
    R.Suspended u x (store32 r.1 (R.slot t) r.2) := by
  intro r
  have hbelow : Below (BitVec.ofNat 32 (R.lo t) + BitVec.ofNat 32 (R.hi t - R.lo t)) 32 ⊆
      R.region t := by
    intro b hb
    have hhi := R.hi_le t
    have htop := toNat_top h 1 (by decide) (by decide)
    simp only [mem_below, region, mem_range] at hb ⊢
    bv_omega
  refine hu.congr ?_ ?_
  · refine (agree_store32 fun b hb hb' => ?_).trans (agree_threadSetupStack fun b hb hb' => ?_)
    · exact Set.disjoint_left.mp (apart_iff_disjoint.mp (R.slot_apart u t hut)) hb hb'
    · exact Set.disjoint_left.mp (R.slot_outside u t) hb (hbelow hb')
  · refine (agree_store32 fun b hb hb' => ?_).trans (agree_threadSetupStack fun b hb hb' => ?_)
    · exact Set.disjoint_left.mp (R.slot_outside t u) hb' (hu.subset_region hb)
    · exact Set.disjoint_left.mp (R.disjoint u t hut) (hu.subset_region hb) (hbelow hb')

end SetUp

/-! ## What is alive -/

/-- The addresses that matter when the code on the stack of `t` has the stack pointer `sp`: the
stack pointers of the threads, and each stack from its stack pointer on. -/
def live (R : Stacks τ) (context : τ → Option Machine) (t : τ) (sp : ℕ) : Set Word :=
  {b | (∃ u, b ∈ WordAt (R.slot u)) ∨ b ∈ Range sp (R.hi t) ∨
    ∃ u x, u ≠ t ∧ context u = some x ∧ b ∈ Range ((x.gpr .esp).toNat - 20) (R.hi u)}

variable {context : τ → Option Machine}

/-- The stack of the running code, from its stack pointer on, is alive. -/
theorem range_subset_live {sp : ℕ} : Range sp (R.hi t) ⊆ R.live context t sp :=
  fun _ hb => Or.inr (Or.inl hb)

/-- The rest is left alone by the code. -/
theorem live_subset (hcontext : ∀ u x, context u = some x → u ≠ t →
    R.lo u + 20 ≤ (x.gpr .esp).toNat) {sp : ℕ} :
    R.live context t sp ⊆ R.kept t ∪ Range sp (R.hi t) := by
  rintro b (hslot | hown | ⟨u, x, hut, hx, hb⟩)
  · exact Or.inl (Or.inl hslot)
  · exact Or.inr hown
  · refine Or.inl (Or.inr ⟨u, hut, ?_, hb.2⟩)
    have hlo := hcontext u x hx hut
    have := hb.1
    omega

/-- Less is alive after a pop. -/
theorem live_mono {sp sp' : ℕ} (h : sp ≤ sp') :
    R.live context t sp' ⊆ R.live context t sp := by
  rintro b (hslot | hown | hother)
  · exact Or.inl hslot
  · exact Or.inr (Or.inl ⟨h.trans hown.1, hown.2⟩)
  · exact Or.inr (Or.inr hother)

/-- After a push the word that was pushed is alive as well. -/
theorem live_push {sp : Word} (h : 4 ≤ sp.toNat) :
    R.live context t (sp - 4).toNat ⊆ R.live context t sp.toNat ∪ WordAt (sp - 4) := by
  rintro b (hslot | hown | hother)
  · exact Or.inl (Or.inl hslot)
  · by_cases hb : b ∈ WordAt (sp - 4)
    · exact Or.inr hb
    · refine Or.inl (Or.inr (Or.inl ?_))
      simp only [mem_wordAt, mem_range] at hb hown ⊢
      bv_omega
  · exact Or.inl (Or.inr (Or.inr hother))

/-- **The change of stacks**: nothing more is alive on the stack of `u` than on that of a suspended
thread, and `t` is suspended from now on. -/
theorem live_switch {y : Machine} (hut : u ≠ t) (hx : context t = some x)
    (hy : context u = some y) :
    R.live context u ((y.gpr .esp).toNat - 20) ⊆ R.live context t ((x.gpr .esp).toNat - 20) := by
  rintro b (hslot | hown | ⟨v, z, hvu, hz, hb⟩)
  · exact Or.inl hslot
  · exact Or.inr (Or.inr ⟨u, y, hut, hy, hown⟩)
  · by_cases hvt : v = t
    · subst hvt
      obtain rfl := Option.some.inj (hx.symm.trans hz)
      exact Or.inr (Or.inl hb)
    · exact Or.inr (Or.inr ⟨v, z, hvt, hz, hb⟩)

end Stacks

/-! ## The uninterrupted switch -/

namespace SwitchState

variable {l : Linked threadAsm} {x : Machine}

/-- The instructions of `thread_context_switch_asm` before its `ret`. -/
theorem straight_threadContextSwitch : ∀ j < 12, ∀ h : 2 + j < threadAsm.length,
    (threadAsm.get ⟨2 + j, h⟩).straight := by decide

/-- The stack pointer after the first `k` instructions of a switch. The one of the thread that has
called is `saved`, before the `call`; the one that is loaded is `restored`. -/
def switchSp (saved restored : Word) : ℕ → Word
  | 0 | 1 | 2 => saved - 4
  | 3 => saved - 8
  | 4 => saved - 12
  | 5 => saved - 16
  | 6 | 7 => saved - 20
  | 8 => restored
  | 9 => restored + 4
  | 10 => restored + 8
  | 11 => restored + 12
  | _ => restored + 16

/-- **The first `k` instructions of a switch** from the context `x`. -/
theorem run_switchStart {restored : Word} {k : ℕ}
    (hsp : load32 x.mem (x.gpr .esp + 4) = restored) (hk : k ≤ 12) :
    (l.run k (switchStart l x)).eip = l.addr (2 + k) ∧
      (l.run k (switchStart l x)).gpr .esp = switchSp (x.gpr .esp) restored k := by
  have hlength : threadAsm.length = 15 := rfl
  have harg : load32 (switchStart l x).mem (x.gpr .esp - 4#32 + 8#32) = restored := by
    rw [← hsp, show x.gpr .esp - 4#32 + 8#32 = x.gpr .esp + 4 by bv_omega]
    exact load32_store32_of_apart ⟨by bv_omega, by bv_omega⟩
  have hesp : (switchStart l x).gpr .esp = x.gpr .esp - 4 := by simp [switchStart]
  rw [l.run_straight (i := 2) (by omega) rfl fun j hj =>
    straight_threadContextSwitch j (by omega) _]
  refine ⟨rfl, ?_⟩
  interval_cases k <;>
    simp [Linked.effects, threadAsm, Instr.effect, Machine.popReg, hesp, harg, sub_sub,
      BitVec.add_assoc, switchSp]

/-! ## In the middle of a switch -/

/-- **After `k` instructions of a switch**, to the thread `next` with the context `y`, the processor
is where it would be without interrupts, as far as anything is alive. -/
structure Midway (R : Stacks τ) (im : Image) (s : SwitchState τ) (next : τ) (k : ℕ)
    (x y : Machine) : Prop where
  switching : s.switching = some (next, k)
  le : k ≤ 12
  ne : next ≠ s.running
  /-- The context of the thread that has called. -/
  left : s.context s.running = some x
  entered : s.context next = some y
  slotArg : load32 x.mem (x.gpr .esp) = R.slot s.running
  nextArg : load32 x.mem (x.gpr .esp + 4) = y.gpr .esp - 20
  lo_le : R.lo s.running + 20 ≤ (x.gpr .esp).toNat
  le_hi : (x.gpr .esp).toNat + 8 ≤ R.hi s.running
  /-- The others were suspended when the switch began. -/
  suspended : ∀ t z, t ≠ s.running → s.context t = some z → R.Suspended t z x.mem
  same : Machine.Same
    (R.live s.context s.owner (switchSp (x.gpr .esp) (y.gpr .esp - 20) k).toNat) s.machine
    (im.threadAsm.run k (switchStart im.threadAsm x))

variable {R : Stacks τ} {im : Image} {s : SwitchState τ} {next : τ} {k : ℕ} {y m : Machine}

/-- The stack in use in the middle of a switch. -/
theorem Midway.owner_eq (h : Midway R im s next k x y) :
    s.owner = if 8 ≤ k then next else s.running := by
  unfold owner
  rw [h.switching]

/-- The registers in the middle of a switch. -/
theorem Midway.machine_eq (h : Midway R im s next k x y) :
    s.machine.eip = im.threadAsm.addr (2 + k) ∧
      s.machine.gpr .esp = switchSp (x.gpr .esp) (y.gpr .esp - 20) k := by
  obtain ⟨heip, hesp⟩ := run_switchStart (l := im.threadAsm) h.nextArg h.le
  exact ⟨h.same.eip.trans heip, (congrFun h.same.gpr .esp).trans hesp⟩

/-- In the middle of a switch the next instruction can be executed. -/
theorem Midway.exists_step (h : Midway R im s next k x y) :
    ∃ m, im.threadAsm.step s.machine = some m := by
  have hle := h.le
  have hlength : threadAsm.length = 15 := rfl
  exact ⟨_, im.threadAsm.step_of_eip (by omega) h.machine_eq.1⟩

/-- **What one instruction of a switch needs**, on the stack of `t` before it and on that of `u`
behind it: it reads only what is alive, and what is alive behind it was alive before or is written.
-/
def InstrSafe (R : Stacks τ) (s : SwitchState τ) (k : ℕ) (t u : τ) (sp sp' : Word) : Prop :=
  ∃ c, threadAsm[2 + k]? = some c ∧ c.reads s.machine ⊆ R.live s.context t sp.toNat ∧
    R.live s.context u sp'.toNat ⊆ R.live s.context t sp.toNat ∪ c.writes s.machine

section InstrSafe

variable {t : τ} {sp : Word} {r : Reg} (hesp : s.machine.gpr .esp = sp)
include hesp

/-- A load of an argument. -/
theorem instrSafe_load {d : Word} (hc : threadAsm[2 + k]? = some (.load d .esp r))
    (hlo : sp.toNat ≤ (sp + d).toNat) (hhi : (sp + d).toNat + 4 ≤ R.hi t) :
    InstrSafe R s k t t sp sp := by
  refine ⟨_, hc, ?_, Set.subset_union_left⟩
  show WordAt (s.machine.gpr .esp + d) ⊆ _
  rw [hesp]
  exact Set.Subset.trans (wordAt_subset_range hlo hhi (R.hi_le t)) R.range_subset_live

/-- A push. -/
theorem instrSafe_push (hc : threadAsm[2 + k]? = some (.push r)) (hsp : 4 ≤ sp.toNat) :
    InstrSafe R s k t t sp (sp - 4) := by
  refine ⟨_, hc, Set.empty_subset _, ?_⟩
  show _ ⊆ _ ∪ WordAt (s.machine.gpr .esp - 4)
  rw [hesp]
  exact R.live_push hsp

/-- A pop. -/
theorem instrSafe_pop (hc : threadAsm[2 + k]? = some (.pop r)) (hhi : sp.toNat + 4 ≤ R.hi t)
    (hsp : sp.toNat ≤ (sp + 4).toNat) : InstrSafe R s k t t sp (sp + 4) := by
  refine ⟨_, hc, ?_, Set.Subset.trans (R.live_mono hsp) Set.subset_union_left⟩
  show WordAt (s.machine.gpr .esp) ⊆ _
  rw [hesp]
  exact Set.Subset.trans (wordAt_subset_range le_rfl hhi (R.hi_le t)) R.range_subset_live

end InstrSafe

/-- **The context is saved**: two loads of arguments, four pushes and a store. -/
theorem Midway.instr_saving (h : Midway R im s next k x y) (hk : k < 7) :
    InstrSafe R s k s.running s.running (switchSp (x.gpr .esp) (y.gpr .esp - 20) k)
      (switchSp (x.gpr .esp) (y.gpr .esp - 20) (k + 1)) := by
  have hlo := h.lo_le
  have hhi := h.le_hi
  have hmax := R.hi_le s.running
  have hesp := h.machine_eq.2
  have hsub : ∀ d : Word, x.gpr .esp - d - 4 = x.gpr .esp - (d + 4) := fun d => sub_sub _ _ _
  interval_cases k <;> simp only [switchSp] at hesp ⊢
  -- the two arguments
  · exact instrSafe_load hesp (d := 8) rfl (by bv_omega) (by bv_omega)
  · exact instrSafe_load hesp (d := 4) rfl (by bv_omega) (by bv_omega)
  -- `ebp`, `ebx`, `edi` and `esi`
  · exact hsub 4 ▸ instrSafe_push hesp rfl (by bv_omega)
  · exact hsub 8 ▸ instrSafe_push hesp rfl (by bv_omega)
  · exact hsub 12 ▸ instrSafe_push hesp rfl (by bv_omega)
  · exact hsub 16 ▸ instrSafe_push hesp rfl (by bv_omega)
  -- the stack pointer goes into its slot
  · exact ⟨.store .esp .eax, rfl, Set.empty_subset _, Set.subset_union_left⟩

/-- **The stacks change**: what is alive stays the same. -/
theorem Midway.instr_changing (h : Midway R im s next 7 x y) :
    InstrSafe R s 7 s.running next (switchSp (x.gpr .esp) (y.gpr .esp - 20) 7)
      (switchSp (x.gpr .esp) (y.gpr .esp - 20) 8) := by
  have hlo := h.lo_le
  have hylo := (h.suspended next y h.ne h.entered).lo_le
  have hsaved : (x.gpr .esp - 20).toNat = (x.gpr .esp).toNat - 20 := by bv_omega
  have hrestored : (y.gpr .esp - 20).toNat = (y.gpr .esp).toNat - 20 := by bv_omega
  refine ⟨.mov .ecx .esp, rfl, Set.empty_subset _, ?_⟩
  simp only [switchSp]
  rw [hsaved, hrestored]
  exact Set.Subset.trans (R.live_switch h.ne h.left h.entered) Set.subset_union_left

/-- **The context is restored**: four pops. -/
theorem Midway.instr_restoring (h : Midway R im s next k x y) (hk : 8 ≤ k) (hk' : k < 12) :
    InstrSafe R s k next next (switchSp (x.gpr .esp) (y.gpr .esp - 20) k)
      (switchSp (x.gpr .esp) (y.gpr .esp - 20) (k + 1)) := by
  have hnext := h.suspended next y h.ne h.entered
  have hylo := hnext.lo_le
  have hyhi := hnext.le_hi
  have hesp := h.machine_eq.2
  have hadd : ∀ d : Word, y.gpr .esp - 20 + d + 4 = y.gpr .esp - 20 + (d + 4) := fun d =>
    add_assoc _ _ _
  interval_cases k <;> simp only [switchSp] at hesp ⊢
  · exact instrSafe_pop hesp rfl (by bv_omega) (by bv_omega)
  · exact hadd 4 ▸ instrSafe_pop hesp rfl (by bv_omega) (by bv_omega)
  · exact hadd 8 ▸ instrSafe_pop hesp rfl (by bv_omega) (by bv_omega)
  · exact hadd 12 ▸ instrSafe_pop hesp rfl (by bv_omega) (by bv_omega)

/-- **The instruction after `k` others**. -/
theorem Midway.instrSafe (h : Midway R im s next k x y) (hk : k < 12) :
    InstrSafe R s k s.owner (if 8 ≤ k + 1 then next else s.running)
      (switchSp (x.gpr .esp) (y.gpr .esp - 20) k)
      (switchSp (x.gpr .esp) (y.gpr .esp - 20) (k + 1)) := by
  rw [h.owner_eq]
  rcases Nat.lt_trichotomy k 7 with hlt | rfl | hgt
  · rw [if_neg (by omega), if_neg (by omega)]
    exact h.instr_saving hlt
  · exact h.instr_changing
  · rw [if_pos (by omega), if_pos (by omega)]
    exact h.instr_restoring hgt hk

/-- **One instruction of a switch**, but for the last. -/
theorem Midway.advance (h : Midway R im s next k x y) (hk : k < 12)
    (hstep : im.threadAsm.step s.machine = some m) :
    Midway R im { s with machine := m, switching := some (next, k + 1) } next (k + 1) x y := by
  obtain ⟨c, hc, hreads, hlive⟩ := h.instrSafe hk
  -- both processors execute the same instruction, on words on which they agree
  obtain ⟨u, hu, hsame⟩ := h.same.step im.threadAsm hc h.machine_eq.1 hreads
  obtain rfl := Option.some.inj (hu.symm.trans hstep)
  refine ⟨rfl, hk, h.ne, h.left, h.entered, h.slotArg, h.nextArg, h.lo_le, h.le_hi, h.suspended, ?_⟩
  rw [im.threadAsm.run_add]
  exact hsame.mono hlive

/-! ## The end of a switch -/

/-- The memory that a switch leaves. -/
theorem savedMem_switchStart (l : Linked threadAsm) (x : Machine) (slot : Word) :
    savedMem (switchStart l x) slot = store32 (storesBelow (x.gpr .esp)
      [(4, x.eip), (8, x.gpr .ebp), (12, x.gpr .ebx), (16, x.gpr .edi), (20, x.gpr .esi)] x.mem)
        slot (x.gpr .esp - 20) := by
  simp [savedMem, switchStart, storesBelow, sub_sub]

/-- The threads in the memory that the switch leaves: all of them are suspended. -/
theorem Midway.suspended_saved (h : Midway R im s next k x y) {t : τ} {z : Machine}
    (hz : s.context t = some z) :
    R.Suspended t z (savedMem (switchStart im.threadAsm x) (R.slot s.running)) := by
  have hhi := h.le_hi
  rw [savedMem_switchStart]
  by_cases ht : t = s.running
  · subst ht
    obtain rfl := Option.some.inj (h.left.symm.trans hz)
    exact R.suspended_of_saved h.lo_le (by omega)
  · exact (h.suspended t z ht hz).saved ht h.lo_le (by omega) (by simp)

/-- **The uninterrupted switch** ends in the context of the other thread. -/
theorem Midway.run_eq (h : Midway R im s next k x y) :
    let ideal := im.threadAsm.run 13 (switchStart im.threadAsm x)
    ideal.mem = savedMem (switchStart im.threadAsm x) (R.slot s.running) ∧
      Continues (R.hi next) y ideal := by
  intro ideal
  let l := im.threadAsm
  let start := switchStart l x
  have hesp : start.gpr .esp = x.gpr .esp - 4 := by simp [start, switchStart]
  have hargs : ∀ d : Word, d.toNat ≤ 4 →
      load32 start.mem (start.gpr .esp + (4 + d)) = load32 x.mem (x.gpr .esp + d) := by
    intro d hd
    rw [hesp, show x.gpr .esp - 4 + (4 + d) = x.gpr .esp + d by bv_omega]
    exact load32_store32_of_apart ⟨by bv_omega, by bv_omega⟩
  -- the first eight instructions save the context and load the stack pointer of the other thread
  obtain ⟨hsp, hmem, heip⟩ := switchRestoring_spec l (m := start) rfl
  rw [show (8 : Word) = 4 + 4 from rfl, hargs 4 (by decide), h.nextArg] at hsp
  have hslot := hargs 0 (by decide)
  rw [add_zero, add_zero, h.slotArg] at hslot
  rw [hslot] at hmem
  obtain ⟨hesi, hedi, hebx, hebp, heip', hesp', hmem'⟩ := run_threadRestore l heip
  have hideal : ideal = l.run 5 (switchRestoring l start) := l.run_add 8 5 start
  rw [← hideal] at hesi hedi hebx hebp heip' hesp' hmem'
  rw [hsp, hmem] at hesi hedi hebx hebp heip'
  rw [hsp] at hesp'
  rw [hmem] at hmem'
  -- the other five take the context from its stack
  have hnext := h.suspended_saved h.entered
  have hword : ∀ d : Word, y.gpr .esp - 20 + d = y.gpr .esp - (20 - d) := fun d => by
    rw [sub_add]
  rw [hword] at hedi hebx hebp heip'
  refine ⟨hmem', heip'.trans hnext.eip, hesp'.trans (sub_add_cancel _ _), hebp.trans hnext.ebp,
    hebx.trans hnext.ebx, hedi.trans hnext.edi, hesi.trans hnext.esi, ?_⟩
  rw [hmem']
  exact hnext.stack

/-- **The last instruction of a switch**: the thread that is switched to finds its context, and the
others are suspended. -/
theorem Midway.finish (h : Midway R im s next 12 x y)
    (hstep : im.threadAsm.step s.machine = some m) :
    Continues (R.hi next) y m ∧
      ∀ t z, t ≠ next → s.context t = some z → R.Suspended t z m.mem := by
  have hnext := h.suspended next y h.ne h.entered
  have hylo := hnext.lo_le
  have hyhi := hnext.le_hi
  obtain ⟨heip, hesp⟩ := h.machine_eq
  have howner : s.owner = next := h.owner_eq
  have hsame := h.same
  rw [howner] at hsame
  simp only [switchSp] at hesp hsame
  -- the return address is alive
  have hreads : Instr.ret.reads s.machine ⊆
      R.live s.context next (y.gpr .esp - 20 + 16).toNat := by
    show WordAt (s.machine.gpr .esp) ⊆ _
    rw [hesp]
    exact Set.Subset.trans (wordAt_subset_range le_rfl (by bv_omega) (R.hi_le next))
      R.range_subset_live
  obtain ⟨u, hu, hsame'⟩ := hsame.step im.threadAsm (c := .ret) rfl heip hreads
  obtain rfl := Option.some.inj (hu.symm.trans hstep)
  rw [← im.threadAsm.run_add] at hsame'
  obtain ⟨hmem, hcontinues⟩ := h.run_eq
  have hagree : Agree (R.live s.context next (y.gpr .esp - 20 + 16).toNat) u.mem
      (savedMem (switchStart im.threadAsm x) (R.slot s.running)) := by
    rw [← hmem]
    exact hsame'.mem.mono Set.subset_union_left
  have hgpr := hsame'.gpr
  refine ⟨⟨hsame'.eip.trans hcontinues.eip, (congrFun hgpr _).trans hcontinues.esp,
    (congrFun hgpr _).trans hcontinues.ebp, (congrFun hgpr _).trans hcontinues.ebx,
    (congrFun hgpr _).trans hcontinues.edi, (congrFun hgpr _).trans hcontinues.esi, ?_⟩,
    fun t z ht hz => (h.suspended_saved hz).congr ?_ ?_⟩
  · refine (hagree.mono fun b hb => R.range_subset_live ⟨?_, hb.2⟩).trans
      (hmem ▸ hcontinues.stack)
    have := hb.1
    bv_omega
  · exact hagree.mono fun b hb => Or.inl ⟨t, hb⟩
  · exact hagree.mono fun b hb => Or.inr (Or.inr ⟨t, z, ht, hz, hb⟩)

/-! ## Interrupts -/

/-- **An interrupt** on the stack of `t` leaves the registers alone, the stack from the stack
pointer on and what is not on the stack. -/
theorem interrupt_spec {isrMain : Word} (isrs : Linked (interruptsAsm isrMain)) {t : τ}
    {gate : Gate} {stub : Byte × IsrKind} {error : Word} {ret : Machine} (hstub : stub ∈ isrStubs)
    (hgate : gate.offset = isr isrs stub.1) (hlo : R.lo t + 60 ≤ (m.gpr .esp).toNat)
    (hhi : (m.gpr .esp).toNat ≤ R.hi t)
    (hret : IsrMainReturns (R.hi t - (m.gpr .esp).toNat) (callIsrMain isrs gate stub error m) ret)
    (hkept : Agree (R.kept t) ret.mem (callIsrMain isrs gate stub error m).mem) :
    Machine.Same (R.kept t ∪ Range (m.gpr .esp).toNat (R.hi t)) (returnIsrMain isrs ret) m := by
  have hmax := R.hi_le t
  obtain ⟨hgpr, heip, hcs, heflags, hmem⟩ := returnIsrMain_spec isrs (by omega) hstub hgate hret
  rw [above_eq_range hhi hmax] at hmem
  -- the frame is pushed on the stack
  have hbelow : ∀ b ∈ R.kept t, b ∉ Below (m.gpr .esp) 60 := fun b hb hb' =>
    Set.disjoint_left.mp (R.disjoint_kept t) hb (R.below_subset_region hlo hhi hb')
  have hcall : Agree (R.kept t) (callIsrMain isrs gate stub error m).mem m.mem := by
    rw [(callIsrMain_spec isrs error m hstub hgate).2.2]
    exact agree_interruptMem hbelow
  refine ⟨funext hgpr, heip, hcs, heflags, ?_⟩
  rintro b (hb | hb)
  · rw [returnIsrMain_mem isrs hstub hgate hret]
    exact (hkept.trans hcall) b hb
  · exact hmem b hb

/-- **An interrupt in the middle of a switch** cannot be noticed. -/
theorem Midway.interrupt (h : Midway R im s next k x y)
    (hsame : Machine.Same (R.kept s.owner ∪ Range (s.machine.gpr .esp).toNat (R.hi s.owner)) m
      s.machine) : Midway R im { s with machine := m } next k x y := by
  refine ⟨h.switching, h.le, h.ne, h.left, h.entered, h.slotArg, h.nextArg, h.lo_le, h.le_hi,
    h.suspended, ?_⟩
  refine (hsame.mono ?_).trans h.same
  -- the interrupt keeps what is alive: the stack in use from the stack pointer on, and the rest
  rw [← h.machine_eq.2]
  refine R.live_subset fun u z hz _ => ?_
  by_cases hu : u = s.running
  · subst hu
    obtain rfl := Option.some.inj (h.left.symm.trans hz)
    exact h.lo_le
  · exact (h.suspended u z hu hz).lo_le

/-! ## Runs -/

/-- **The invariant**: the threads with a context are suspended, or there is a switch. -/
structure Consistent (R : Stacks τ) (im : Image) (s : SwitchState τ) : Prop where
  still : s.switching = none →
    ∀ t x, s.context t = some x → t ≠ s.running ∧ R.Suspended t x s.machine.mem
  midway : ∀ next k, s.switching = some (next, k) → ∃ x y, Midway R im s next k x y

variable [DecidableEq τ] {isrMain : Word} {isrs : Linked (interruptsAsm isrMain)}
  {s' : SwitchState τ} {a : SwitchAction τ}

/-- **A call** of `thread_context_switch_asm` begins a switch. -/
theorem Consistent.call {ret : Word} (h : Consistent R im s)
    (hstep : Step R im isrs s (.call next ret) s') : Consistent R im s' := by
  obtain ⟨hnone, hne, hcontext, hslot, hnext, hlo, hhi, rfl⟩ := hstep
  obtain ⟨y, hy⟩ := Option.ne_none_iff_exists'.mp hcontext
  have hsuspended := h.still hnone
  refine ⟨fun hstill => (by cases hstill), fun next' k hswitching => ?_⟩
  obtain ⟨rfl, rfl⟩ := Prod.mk.inj (Option.some.inj hswitching)
  refine ⟨contextAt ret s.machine, y, rfl, Nat.zero_le _, hne, ?_, ?_, hslot, ?_, hlo, hhi,
    fun t z ht hz => ?_, .refl _ _⟩
  · exact Function.update_self ..
  · dsimp only
    rwa [Function.update_of_ne hne]
  · exact hnext.trans (hsuspended next y hy).2.slot
  · dsimp only at hz
    rw [Function.update_of_ne ht] at hz
    exact (hsuspended t z hz).2

/-- **A new thread** is suspended like the others. -/
theorem Consistent.setUp {t : τ} {fn arg : Word} (h : Consistent R im s)
    (hstep : Step R im isrs s (.setUp t fn arg) s') : Consistent R im s' := by
  obtain ⟨hnone, hne, -, hroom, rfl⟩ := hstep
  refine ⟨fun _ u z hz => ?_, fun next k hswitching => ?_⟩
  · dsimp only at hz
    by_cases hu : u = t
    · subst hu
      rw [Function.update_self] at hz
      obtain rfl := Option.some.inj hz
      exact ⟨hne, R.suspended_of_setUp hroom _⟩
    · rw [Function.update_of_ne hu] at hz
      obtain ⟨hrunning, hsuspended⟩ := h.still hnone u z hz
      exact ⟨hrunning, hsuspended.setUp hroom hu⟩
  · rw [hnone] at hswitching
    cases hswitching

/-- **An instruction** of `thread_context_switch_asm`. -/
theorem Consistent.instr (h : Consistent R im s) (hstep : Step R im isrs s .instr s') :
    Consistent R im s' := by
  obtain ⟨next, k, m, hswitching, hm, rfl⟩ := hstep
  obtain ⟨x, y, hmidway⟩ := h.midway next k hswitching
  -- after the thirteenth instruction the switch is over
  by_cases hk : k < 12
  · rw [if_pos hk]
    refine ⟨fun hstill => (by cases hstill), fun next' k' hswitching' => ?_⟩
    obtain ⟨rfl, rfl⟩ := Prod.mk.inj (Option.some.inj hswitching')
    exact ⟨x, y, hmidway.advance hk hm⟩
  · rw [if_neg hk]
    obtain rfl : k = 12 := le_antisymm hmidway.le (Nat.not_lt.mp hk)
    refine ⟨fun _ t z hz => ?_, fun next' k' hswitching' => by cases hswitching'⟩
    dsimp only at hz
    by_cases ht : t = next
    · subst ht
      rw [Function.update_self] at hz
      cases hz
    · rw [Function.update_of_ne ht] at hz
      exact ⟨ht, (hmidway.finish hm).2 t z ht hz⟩

/-- **Every step** keeps the invariant. -/
theorem Consistent.step (h : Consistent R im s) (hstep : Step R im isrs s a s') :
    Consistent R im s' := by
  cases a with
  | compute m =>
      obtain ⟨hnone, hkept, rfl⟩ := hstep
      refine ⟨fun _ t z hz => ?_, fun next k hswitching => ?_⟩
      · obtain ⟨hne, hsuspended⟩ := h.still hnone t z hz
        exact ⟨hne, hsuspended.of_kept hne hkept⟩
      · rw [hnone] at hswitching
        cases hswitching
  | setUp t fn arg => exact h.setUp hstep
  | call next ret => exact h.call hstep
  | instr => exact h.instr hstep
  | interrupt gate stub error ret =>
      obtain ⟨hstub, hgate, hlo, hhi, hret, hkept, rfl⟩ := hstep
      have hsame := interrupt_spec isrs hstub hgate hlo hhi hret hkept
      refine ⟨fun hnone t z hz => ?_, fun next k hswitching => ?_⟩
      -- the running thread is interrupted
      · have howner : s.owner = s.running := by
          unfold owner
          rw [show s.switching = none from hnone]
        obtain ⟨hne, hsuspended⟩ := h.still hnone t z hz
        rw [howner] at hsame
        exact ⟨hne, hsuspended.of_kept hne (hsame.mem.mono Set.subset_union_left)⟩
      -- a switch is interrupted
      · obtain ⟨x, y, hmidway⟩ := h.midway next k hswitching
        exact ⟨x, y, hmidway.interrupt hsame⟩

/-- **Context switches preserve every thread's context**, in every run with any number of threads,
with interrupts at any instruction: a thread that is switched back in goes on where it called, with
its registers, its stack pointer and its stack. -/
theorem context_preserved (hs : s.switching = none)
    (hcontext : ∀ t x, s.context t = some x → t ≠ s.running ∧ R.Suspended t x s.machine.mem)
    (acts : List (SwitchAction τ)) : EveryStep (Step R im isrs) (FindsContext R) s acts := by
  have hconsistent : Consistent R im s := by
    refine ⟨fun _ => hcontext, fun next k hswitching => ?_⟩
    rw [hs] at hswitching
    cases hswitching
  intro before a after t u _ hrun hstep next ha hswitching
  subst ha
  have ht := hrun.invariant (I := Consistent R im) (fun _ _ _ h hstep => h.step hstep) hconsistent
  obtain ⟨x, y, hmidway⟩ := ht.midway next 12 hswitching
  obtain ⟨next', k, m, hswitching', hm, rfl⟩ := hstep
  obtain ⟨rfl, rfl⟩ := Prod.mk.inj (Option.some.inj (hswitching.symm.trans hswitching'))
  exact ⟨rfl, y, hmidway.entered, (hmidway.finish hm).1⟩

/-- Where two stacks of 4096 bytes begin. -/
def twoBases (t : Bool) : ℕ := if t then 0x300000 else 0x200000

/-- The addresses of the stack pointers. -/
def twoSlots (t : Bool) : Word := if t then 0x100010 else 0x100000

theorem disjoint_twoBases : ∀ t u : Bool, t ≠ u →
    Disjoint (Range (twoBases t) (twoBases t + 4096)) (Range (twoBases u) (twoBases u + 4096)) := by
  intro t u htu
  rw [Set.disjoint_left]
  intro b hb hb'
  cases t <;> cases u <;> simp [twoBases] at htu hb hb' <;> omega

theorem twoSlots_outside (t u : Bool) :
    Disjoint (WordAt (twoSlots t)) (Range (twoBases u) (twoBases u + 4096)) := by
  rw [Set.disjoint_left]
  intro b hb hb'
  cases t <;> cases u <;> simp [twoBases, twoSlots] at hb hb' <;> bv_omega

theorem apart_twoSlots : ∀ t u : Bool, t ≠ u → Apart (twoSlots t) (twoSlots u) := by
  unfold Apart
  decide

/-- Two threads. -/
def twoStacks : Stacks Bool where
  lo := twoBases
  hi t := twoBases t + 4096
  slot := twoSlots
  hi_le := by decide
  disjoint := disjoint_twoBases
  slot_outside := twoSlots_outside
  slot_apart := apart_twoSlots

/-- The first thread has just set up the second one. -/
def oneSetUp (m : Machine) : SwitchState Bool :=
  let base := BitVec.ofNat 32 (twoStacks.lo true)
  let size := BitVec.ofNat 32 (twoStacks.hi true - twoStacks.lo true)
  let r := threadSetupStack linkedImage base size 0x100900 7 m.mem
  let mem := store32 r.1 (twoStacks.slot true) r.2
  { machine := { m with mem }
    running := false
    switching := none
    context := fun t => if t then some (freshContext linkedImage (base + size) mem m) else none }

/-- **A switch comes to its end** as soon as there are no more interrupts. -/
theorem Consistent.completes (h : Consistent R im s) (hk : k ≤ 12)
    (hswitching : s.switching = some (next, 12 - k)) :
    ∃ s', Run (Step R im isrs) s (List.replicate (k + 1) .instr) s' ∧ s'.switching = none ∧
      s'.running = next := by
  induction k generalizing s with
  | zero =>
      obtain ⟨x, y, hmidway⟩ := h.midway next 12 hswitching
      obtain ⟨m, hm⟩ := hmidway.exists_step
      exact ⟨_, .single ⟨next, 12, m, hswitching, hm, (if_neg (lt_irrefl 12)).symm⟩, rfl, rfl⟩
  | succ k ih =>
      obtain ⟨x, y, hmidway⟩ := h.midway next (12 - (k + 1)) hswitching
      obtain ⟨m, hm⟩ := hmidway.exists_step
      have hstep : Step R im isrs s .instr
          { s with machine := m, switching := some (next, 12 - (k + 1) + 1) } :=
        ⟨next, 12 - (k + 1), m, hswitching, hm, (if_pos (by omega)).symm⟩
      obtain ⟨s', hrun, hend⟩ := ih (h.step hstep) (by omega)
        (congrArg (fun j => some (next, j)) (by omega))
      exact ⟨s', .cons hstep hrun, hend⟩

/-- The first thread has pushed the arguments of a call of `thread_context_switch_asm`. -/
def argumentsPushed : Machine where
  gpr _ := 0x200800
  eip := 0x100300
  cs := 8
  eflags := 0x202
  mem := store32 (store32 (fun _ => 0) 0x200800 0x100000) 0x200804 0x300fe0

/-- In this run the second thread is entered. -/
theorem context_preserved_oneSetUp :
    (∃ s, Run (Step twoStacks linkedImage linkedInterrupts) (oneSetUp argumentsPushed)
      (.call true 0x100310 :: List.replicate 13 .instr) s ∧ s.running = true) ∧
    EveryStep (Step twoStacks linkedImage linkedInterrupts) (FindsContext twoStacks)
      (oneSetUp argumentsPushed) (.call true 0x100310 :: List.replicate 13 .instr) := by
  have hcontext : ∀ t x, (oneSetUp argumentsPushed).context t = some x →
      t ≠ false ∧ twoStacks.Suspended t x (oneSetUp argumentsPushed).machine.mem := by
    intro t x hx
    cases t with
    | false => cases hx
    | true =>
        obtain rfl := Option.some.inj hx
        exact ⟨Bool.noConfusion, twoStacks.suspended_of_setUp (by decide) _⟩
  refine ⟨?_, context_preserved rfl hcontext _⟩
  have hcall : Step twoStacks linkedImage linkedInterrupts (oneSetUp argumentsPushed)
      (.call true 0x100310) _ :=
    ⟨rfl, Bool.noConfusion, Option.some_ne_none _, by decide, by decide, by decide, by decide, rfl⟩
  have hstart : Consistent twoStacks linkedImage (oneSetUp argumentsPushed) :=
    ⟨fun _ => hcontext, fun _ _ h => by cases h⟩
  obtain ⟨s, hrun, -, hrunning⟩ : ∃ s, Run (Step twoStacks linkedImage linkedInterrupts) _
      (List.replicate 13 .instr) s ∧ s.switching = none ∧ s.running = true :=
    (hstart.call hcall).completes le_rfl rfl
  exact ⟨s, .cons hcall hrun, hrunning⟩

end SwitchState

end Storm
