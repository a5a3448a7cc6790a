import Storm.Library.I386

/-! # Machines that agree on part of the memory

`Machine.Same s m m'` says that two machines have the same registers and the same memory on the
addresses in `s`. As long as an instruction reads only there, the two machines stay the same, also
on the addresses that it writes (`Machine.Same.effect`). What happens to the rest of the memory
cannot be noticed. -/

namespace I386

open ByteMemory

/-- The same registers, and the same memory on a set of addresses. -/
structure Machine.Same (s : Set Word) (m m' : Machine) : Prop where
  gpr : m.gpr = m'.gpr
  eip : m.eip = m'.eip
  cs : m.cs = m'.cs
  eflags : m.eflags = m'.eflags
  mem : Agree s m.mem m'.mem

/-- The addresses that an instruction reads. -/
def Instr.reads (m : Machine) : Instr → Set Word
  | .load disp base _ => WordAt (m.gpr base + disp)
  | .pop _ | .ret => WordAt (m.gpr .esp)
  | .popal => Above (m.gpr .esp) 32
  | .iret => Above (m.gpr .esp) 12
  | .store .. | .mov .. | .push .. | .pushImm .. | .addImm .. | .pushal | .jmp .. | .call .. => ∅

/-- The addresses that an instruction writes. -/
def Instr.writes (m : Machine) : Instr → Set Word
  | .store _ base => WordAt (m.gpr base)
  | .push .. | .pushImm .. | .call .. => WordAt (m.gpr .esp - 4)
  | .pushal => Below (m.gpr .esp) 32
  | .load .. | .mov .. | .pop .. | .addImm .. | .popal | .jmp .. | .ret | .iret => ∅

namespace Machine.Same

variable {s t : Set Word} {m m' m'' : Machine}

theorem refl (s : Set Word) (m : Machine) : Same s m m := ⟨rfl, rfl, rfl, rfl, .refl s m.mem⟩

theorem symm (h : Same s m m') : Same s m' m :=
  ⟨h.gpr.symm, h.eip.symm, h.cs.symm, h.eflags.symm, h.mem.symm⟩

theorem trans (h : Same s m m') (h' : Same s m' m'') : Same s m m'' :=
  ⟨h.gpr.trans h'.gpr, h.eip.trans h'.eip, h.cs.trans h'.cs, h.eflags.trans h'.eflags,
    h.mem.trans h'.mem⟩

theorem mono (h : Same t m m') (hst : s ⊆ t) : Same s m m' :=
  ⟨h.gpr, h.eip, h.cs, h.eflags, h.mem.mono hst⟩

/-- Both machines continue at the same address. -/
theorem setEip (h : Same s m m') (pc : Word) : Same s (m.setEip pc) (m'.setEip pc) :=
  ⟨h.gpr, rfl, h.cs, h.eflags, h.mem⟩

/-- Both machines write the same value into a register. -/
theorem setReg (h : Same s m m') (r : Reg) (v : Word) : Same s (m.setReg r v) (m'.setReg r v) :=
  ⟨by rw [Machine.setReg, Machine.setReg, h.gpr], h.eip, h.cs, h.eflags, h.mem⟩

/-- Both machines push the same word. -/
theorem push (h : Same s m m') (v : Word) :
    Same (s ∪ WordAt (m.gpr .esp - 4)) (m.push v) (m'.push v) := by
  refine ⟨?_, h.eip, h.cs, h.eflags, ?_⟩
  · rw [Machine.push, Machine.push, h.gpr]
  · rw [Machine.push, Machine.push, ← h.gpr]
    exact h.mem.store32 _ v

/-- Both machines push the same words. -/
theorem pushes (h : Same s m m') (ws : List Word) :
    Same (s ∪ Below (m.gpr .esp) (4 * ws.length)) (ws.foldl (fun m w => m.push w) m)
      (ws.foldl (fun m w => m.push w) m') := by
  induction ws generalizing s m m' with
  | nil => exact h.mono (Set.union_subset subset_rfl fun b hb => absurd hb (Nat.not_lt_zero _))
  | cons w ws ih =>
      rw [List.length_cons, Nat.mul_succ]
      refine (ih (h.push w)).mono ?_
      rw [Machine.push_gpr, if_pos rfl, Set.union_assoc]
      exact Set.union_subset_union_right s below_subset

/-- Both machines move the stack pointer. -/
theorem drop (h : Same s m m') (n : Word) : Same s (m.drop n) (m'.drop n) := by
  rw [Machine.drop, Machine.drop, h.gpr]
  exact h.setReg _ _

/-- Both machines have the same word at the top of the stack. -/
theorem top_eq (h : Same s m m') (hs : WordAt (m.gpr .esp) ⊆ s) : m.top = m'.top := by
  rw [top, top, ← h.gpr]
  exact h.mem.load32 hs

/-- Both machines pop the same word. -/
theorem popReg (h : Same s m m') (hs : WordAt (m.gpr .esp) ⊆ s) (r : Reg) :
    Same s (m.popReg r) (m'.popReg r) := by
  rw [Machine.popReg, Machine.popReg, h.top_eq hs]
  exact (h.drop 4).setReg r _

end Machine.Same

/-- **The same instruction** on both machines: what it reads is the same, and so is what it
writes. -/
theorem Machine.Same.effect {s : Set Word} {m m' : Machine} {i : Instr} {next : Word}
    (h : Same s m m') (hi : i.reads m ⊆ s) :
    Same (s ∪ i.writes m) (i.effect next m) (i.effect next m') := by
  cases i with
  | load disp base dst =>
      rw [Instr.effect, Instr.effect, ← h.gpr, h.mem.load32 hi]
      exact (h.setReg dst _).mono (Set.union_empty s).subset
  | store src base =>
      rw [Instr.effect, Instr.effect, ← h.gpr]
      exact ⟨rfl, h.eip, h.cs, h.eflags, h.mem.store32 _ _⟩
  | mov src dst =>
      rw [Instr.effect, Instr.effect, ← h.gpr]
      exact (h.setReg dst _).mono (Set.union_empty s).subset
  | push src =>
      rw [Instr.effect, Instr.effect, ← h.gpr]
      exact h.push _
  | pushImm v => exact h.push v
  | pop dst => exact (h.popReg hi dst).mono (Set.union_empty s).subset
  | addImm v dst =>
      have hset := h.setReg dst (m.gpr dst + v)
      rw [Instr.effect, Instr.effect, ← h.gpr, ← h.eflags]
      exact ⟨hset.gpr, hset.eip, hset.cs, rfl, hset.mem.mono (Set.union_empty s).subset⟩
  | pushal =>
      rw [Instr.effect, Instr.effect, ← h.gpr]
      exact h.pushes [m.gpr .eax, m.gpr .ecx, m.gpr .edx, m.gpr .ebx, m.gpr .esp, m.gpr .ebp,
        m.gpr .esi, m.gpr .edi]
  | popal =>
      have hword : ∀ d : Word, d.toNat + 4 ≤ 32 → WordAt (m.gpr .esp + d) ⊆ s := fun d hd =>
        Set.Subset.trans (wordAt_subset_above hd (by decide)) hi
      have hfirst := hword 0 (by decide)
      rw [add_zero] at hfirst
      refine ((((((((h.popReg hfirst .edi).popReg ?_ .esi).popReg ?_ .ebp).drop 4).popReg ?_
        .ebx).popReg ?_ .edx).popReg ?_ .ecx).popReg ?_ .eax).mono (Set.union_empty s).subset
      all_goals simp [Machine.popReg, BitVec.add_assoc, hword]
  | jmp target => exact h.mono (Set.union_empty s).subset
  | call target => exact h.push next
  | ret => exact (h.drop 4).mono (Set.union_empty s).subset
  | iret =>
      have hword : ∀ d : Word, d.toNat + 4 ≤ 12 → WordAt (m.gpr .esp + d) ⊆ s := fun d hd =>
        Set.Subset.trans (wordAt_subset_above hd (by decide)) hi
      have hdrop := (h.drop 12).mono (Set.union_empty s).subset
      rw [Instr.effect, Instr.effect, ← h.gpr, h.mem.load32 (hword 4 (by decide)),
        h.mem.load32 (hword 8 (by decide))]
      exact ⟨hdrop.gpr, hdrop.eip, rfl, rfl, hdrop.mem⟩

/-- Both machines continue at the same address. -/
theorem Machine.Same.continueAt_eq {s : Set Word} {m m' : Machine} {i : Instr} {label : ℕ → Word}
    {next : Word} (h : Same s m m') (hi : i.reads m ⊆ s) :
    i.continueAt label next m = i.continueAt label next m' := by
  cases i with
  | ret => exact h.top_eq hi
  | iret =>
      refine h.top_eq (Set.Subset.trans ?_ hi)
      have hword := wordAt_subset_above (p := m.gpr .esp) (d := 0) (n := 12) (by decide) (by decide)
      rwa [add_zero] at hword
  | load | store | mov | push | pushImm | pop | addImm | pushal | popal | jmp | call => rfl

/-- **One step of both machines** from the same position of the code. -/
theorem Machine.Same.step {code : List Instr} (l : Linked code) {s : Set Word} {m m' : Machine}
    {i : ℕ} {c : Instr} (h : Same s m m') (hi : code[i]? = some c) (heip : m.eip = l.addr i)
    (hreads : c.reads m ⊆ s) :
    ∃ u, l.step m = some u ∧ Same (s ∪ c.writes m) u (l.run 1 m') := by
  obtain ⟨hlt, rfl⟩ := List.getElem?_eq_some_iff.mp hi
  refine ⟨_, l.step_of_eip hlt heip, ?_⟩
  rw [l.run_of_eip hlt (h.eip.symm.trans heip), Linked.run, Instr.exec, Instr.exec,
    h.continueAt_eq hreads]
  exact (h.effect hreads).setEip _

/-- The first `n` instructions of a run read only what is in `s`. -/
def Linked.ReadsWithin {code : List Instr} (l : Linked code) (s : Set Word) : ℕ → Machine → Prop
  | 0, _ => True
  | n + 1, m => ∀ i c, l.fetch m.eip = some i → code[i]? = some c →
      c.reads m ⊆ s ∧ l.ReadsWithin s n (c.exec l.addr (l.addr (i + 1)) m)

/-- The reads of a run from position `i` of the code are those of the instruction there, and those
of the run that continues. -/
theorem Linked.readsWithin_of_getElem? {code : List Instr} (l : Linked code) {s : Set Word}
    {m : Machine} {i n : ℕ} {c : Instr} (hi : code[i]? = some c) (h : m.eip = l.addr i)
    (hreads : c.reads m ⊆ s) (hnext : l.ReadsWithin s n (c.exec l.addr (l.addr (i + 1)) m)) :
    l.ReadsWithin s (n + 1) m := by
  intro j d hj hd
  obtain ⟨hlt, -⟩ := List.getElem?_eq_some_iff.mp hi
  rw [h, l.fetch_addr hlt] at hj
  obtain rfl := Option.some.inj hj
  obtain rfl := Option.some.inj (hi.symm.trans hd)
  exact ⟨hreads, hnext⟩

end I386
