import Storm.Library.Interrupt

/-! # `arch/i386/cpu/interrupts_asm.S`: interrupt stubs

One stub for each vector in use, which makes the stack look the same for exceptions with and without
an error code and pushes the vector, and `isr_common`, which saves the general registers, calls
`isr_main` and goes back. -/

namespace Storm

open ByteMemory I386

/-- `isr_common`, for the address of `isr_main`. -/
def isrCommon (isrMain : Word) : List Instr := [
  .pushal,
  -- `isr_main` takes a pointer to the frame
  .push .esp,
  .call isrMain,
  .addImm 4 .esp,
  .popal,
  -- clean up the error code and the interrupt number
  .addImm 8 .esp,
  .iret]

/-- `ISR_WITH_ERROR(n)`. -/
def isrWithError (n : Word) : List Instr := [.pushImm n, .jmp 0]

/-- `ISR_NO_ERROR(n)`. -/
def isrNoError (n : Word) : List Instr := [.pushImm 0, .pushImm n, .jmp 0]

/-- The two macros. -/
inductive IsrKind where
  | withError
  | noError
  deriving DecidableEq, Repr

/-- The code of a stub. -/
def IsrKind.code (n : Byte) : IsrKind → List Instr
  | .withError => isrWithError (n.setWidth 32)
  | .noError => isrNoError (n.setWidth 32)

/-- The stubs, in the order of the file. -/
def isrStubs : List (Byte × IsrKind) := [
  -- exceptions
  (0, .noError), (1, .noError), (2, .noError), (3, .noError), (4, .noError), (5, .noError),
  (6, .noError), (7, .noError), (8, .withError), (9, .noError), (10, .withError),
  (11, .withError), (12, .withError), (13, .withError), (14, .withError), (15, .noError),
  (16, .noError), (17, .withError), (18, .noError), (19, .noError), (20, .noError),
  (21, .withError),
  -- user defined interrupts
  (32, .noError), (33, .noError), (34, .noError), (35, .noError), (36, .noError), (37, .noError),
  (38, .noError), (39, .noError), (40, .noError), (41, .noError), (42, .noError), (43, .noError),
  (44, .noError), (45, .noError), (46, .noError), (47, .noError)]

/-- The code of all stubs. -/
def stubsAsm : List Instr := isrStubs.flatMap fun s => s.2.code s.1

/-- `interrupts_asm.S`. -/
def interruptsAsm (isrMain : Word) : List Instr := isrCommon isrMain ++ stubsAsm

/-- The position of the label `isr_n` among the stubs. -/
def stubOffset (n : Byte) : ℕ :=
  ((isrStubs.takeWhile fun s => s.1 ≠ n).flatMap fun s => s.2.code s.1).length

/-- The position of the label `isr_n` in the file: the stubs are behind `isr_common`. -/
def isrLabel (n : Byte) : ℕ := 7 + stubOffset n

/-- Each vector has at most one stub. -/
theorem nodup_isrStubs : (isrStubs.map Prod.fst).Nodup := by decide

/-- An entry of a list with different keys comes right behind the ones with other keys. -/
theorem eq_takeWhile_append {α β : Type} [DecidableEq α] {l : List (α × β)} {p : α × β}
    (hl : (l.map Prod.fst).Nodup) (hp : p ∈ l) :
    ∃ rest, l = (l.takeWhile fun s => s.1 ≠ p.1) ++ p :: rest := by
  induction l with
  | nil => simp at hp
  | cons q l ih =>
      rw [List.map_cons, List.nodup_cons] at hl
      rcases List.mem_cons.mp hp with rfl | hp
      · exact ⟨l, by simp⟩
      · obtain ⟨rest, hrest⟩ := ih hl.2 hp
        have hne : q.1 ≠ p.1 := fun heq => hl.1 (heq ▸ List.mem_map_of_mem hp)
        refine ⟨rest, ?_⟩
        rw [List.takeWhile_cons_of_pos (by simpa using hne), List.cons_append, ← hrest]

/-- **The stub of a vector is at its label.** -/
theorem interruptsAsm_stub {isrMain : Word} {s : Byte × IsrKind} (hs : s ∈ isrStubs) {k : ℕ}
    (hk : k < (s.2.code s.1).length) :
    (interruptsAsm isrMain)[isrLabel s.1 + k]? = (s.2.code s.1)[k]? := by
  obtain ⟨rest, hrest⟩ := eq_takeWhile_append nodup_isrStubs hs
  have hstubs : stubsAsm = ((isrStubs.takeWhile fun t => t.1 ≠ s.1).flatMap fun t => t.2.code t.1) ++
      (s.2.code s.1 ++ rest.flatMap fun t => t.2.code t.1) := by
    rw [stubsAsm]
    nth_rewrite 1 [hrest]
    rw [List.flatMap_append, List.flatMap_cons]
  rw [interruptsAsm, List.getElem?_append_right (by simp [isrLabel, isrCommon]; omega), hstubs,
    List.getElem?_append_right (by simp [isrLabel, isrCommon, stubOffset]; omega),
    List.getElem?_append_left]
  · congr 1
    simp [isrLabel, isrCommon, stubOffset]
    omega
  · simp [isrLabel, isrCommon, stubOffset]
    omega

/-- A stub pushes a dummy error code exactly for the vectors without one. -/
theorem isrKind_eq : ∀ s ∈ isrStubs, s.2 = if pushesError s.1 then .withError else .noError := by
  decide

section Run

variable {isrMain : Word} (l : Linked (interruptsAsm isrMain)) {gate : Gate} {s : Byte × IsrKind}
  {error v : Word} {m : Machine}

/-- The address of `isr_n`. -/
def isr (n : Byte) : Word := l.addr (isrLabel n)

/-- The machine at the first instruction of `isr_common`: five words have been pushed. -/
def atIsrCommon (gate : Gate) (error v : Word) (m : Machine) : Machine :=
  { ((((m.push m.eflags).push m.cs).push m.eip).push error).push v with
    eip := l.addr 0
    cs := gate.selector.setWidth 32
    eflags := m.eflags &&& ~~~clearedFlags }

/-- **The stubs** make the stack look the same for all vectors. -/
theorem run_stub (hs : s ∈ isrStubs) (hgate : gate.offset = isr l s.1) :
    l.run (s.2.code s.1).length
        (m.interrupt gate (if pushesError s.1 then some error else none)) =
      atIsrCommon l gate (if pushesError s.1 then error else 0) (s.1.setWidth 32) m := by
  have hkind := isrKind_eq s hs
  rw [isr] at hgate
  obtain ⟨n, kind⟩ := s
  dsimp only at hkind hgate ⊢
  cases herr : pushesError n with
  | true =>
      obtain rfl : kind = .withError := by rw [hkind, herr, if_pos rfl]
      have h₀ : (interruptsAsm isrMain)[isrLabel n]? = some (.pushImm (n.setWidth 32)) :=
        interruptsAsm_stub hs (k := 0) Nat.zero_lt_two
      have h₁ : (interruptsAsm isrMain)[isrLabel n + 1]? = some (.jmp 0) :=
        interruptsAsm_stub hs (k := 1) Nat.one_lt_two
      show l.run 2 _ = _
      rw [l.run_of_getElem? h₀ hgate, l.run_of_getElem? h₁ rfl]
      rfl
  | false =>
      obtain rfl : kind = .noError := by rw [hkind, herr, if_neg Bool.false_ne_true]
      have h₀ : (interruptsAsm isrMain)[isrLabel n]? = some (.pushImm 0) :=
        interruptsAsm_stub hs (k := 0) (Nat.succ_pos 2)
      have h₁ : (interruptsAsm isrMain)[isrLabel n + 1]? = some (.pushImm (n.setWidth 32)) :=
        interruptsAsm_stub hs (k := 1) (Nat.one_lt_succ_succ 1)
      have h₂ : (interruptsAsm isrMain)[isrLabel n + 2]? = some (.jmp 0) :=
        interruptsAsm_stub hs (k := 2) (Nat.lt_succ_self 2)
      show l.run 3 _ = _
      rw [l.run_of_getElem? h₀ hgate, l.run_of_getElem? h₁ rfl, l.run_of_getElem? h₂ rfl]
      rfl

end Run

end Storm
