import Storm.Lib.PrintfFormat

/-! # String conversions

`%s` writes the characters of a string up to its terminator or the precision, in a field of the
given width. A precision does not spare the string its terminator, though: the code reads one
character more than it prints, and with the precision zero it reads the whole string
(`convertString_eq`). -/

namespace Storm

open ByteMemory

/-- What is printed of a string. -/
def printed (flags : Flags) (precision : Word) (p : List Byte) : List Byte :=
  let t := p.takeWhile (· ≠ 0)
  if flags.precision then t.take precision.toNat else t

/-- The text of `%s`. -/
def stringText (flags : Flags) (width precision : Word) (p : List Byte) : List Byte :=
  let t := printed flags precision p
  let spaces := List.replicate (width.toNat - t.length) (ascii ' ')
  if flags.left then t ++ spaces else spaces ++ t

/-- **What may be read suffices**: there is a terminator, or one character more than the precision,
unless the precision is zero, which `_strnlen_s` takes for none. -/
def Suffices (precision : Word) (p : List Byte) : Prop :=
  0 ∈ p ∨ precision ≠ 0 ∧ precision.toNat < p.length

instance (precision : Word) (p : List Byte) : Decidable (Suffices precision p) :=
  inferInstanceAs (Decidable (_ ∨ _))

theorem takeWhile_cons_ne {c : Byte} (hc : c ≠ 0) (p : List Byte) :
    (c :: p).takeWhile (· ≠ 0) = c :: p.takeWhile (· ≠ 0) :=
  List.takeWhile_cons_of_pos (p := fun x => decide (x ≠ 0)) (decide_eq_true hc)

theorem takeWhile_cons_zero (p : List Byte) : ((0 : Byte) :: p).takeWhile (· ≠ 0) = [] := rfl

/-- **`_strnlen_s`** needs a terminator, or one character more than it counts. -/
theorem strnlen_eq (p : List Byte) (maxsize : Word) :
    strnlen p maxsize =
      if 0 ∈ p ∨ maxsize.toNat < p.length then
        .ok (BitVec.ofNat 32 (min (p.takeWhile (· ≠ 0)).length maxsize.toNat))
      else .error .string := by
  induction p generalizing maxsize with
  | nil => rfl
  | cons c p ih =>
      rw [strnlen]
      by_cases hc : c = 0
      · rw [if_neg (by simp [hc]), if_pos (by simp [hc])]
        simp [hc, pure, Except.pure]
      · by_cases hmax : maxsize = 0
        · rw [if_neg (by simp [hmax]), if_pos (by simp [hmax])]
          simp [hmax, pure, Except.pure]
        · have hpred : maxsize.toNat = (maxsize - 1).toNat + 1 := by bv_omega
          have hmem : (0 ∈ c :: p ∨ maxsize.toNat < (c :: p).length) ↔
              (0 ∈ p ∨ (maxsize - 1).toNat < p.length) := by
            rw [List.mem_cons, List.length_cons, hpred, Nat.add_lt_add_iff_right,
              or_iff_right (Ne.symm hc)]
          rw [if_pos ⟨hc, hmax⟩, ih]
          by_cases hread : 0 ∈ p ∨ (maxsize - 1).toNat < p.length
          · rw [if_pos hread, if_pos (hmem.mpr hread), takeWhile_cons_ne hc,
              List.length_cons, hpred, Nat.add_min_add_right, BitVec.ofNat_add]
            rfl
          · rw [if_neg hread, if_neg (fun h => hread (hmem.mp h))]
            rfl

section Write

variable {σ : Type} (out : Out σ) {flags : Flags} {width precision : Word}

/-- **The string output** prints up to the terminator or the precision. -/
theorem outString_eq (p : List Byte) (o : σ × Word) :
    outString out flags p precision o =
      if 0 ∈ p ∨ flags.precision = true ∧ precision.toNat < p.length then
        .ok (emitAll out (printed flags precision p) o)
      else .error .string := by
  induction p generalizing precision o with
  | nil => simp [outString]
  | cons c p ih =>
      rw [outString, printed]
      by_cases hc : c = 0
      · subst hc
        rw [if_neg (by simp), if_pos (Or.inl List.mem_cons_self), takeWhile_cons_zero]
        cases flags.precision with
        | true => rw [List.take_nil]; rfl
        | false => rfl
      · have hmem : 0 ∈ c :: p ↔ 0 ∈ p := by rw [List.mem_cons, or_iff_right (Ne.symm hc)]
        rw [takeWhile_cons_ne hc]
        simp only [hmem]
        cases hprec : flags.precision with
        | false =>
            rw [if_pos ⟨hc, by simp⟩, ih, printed, hprec]
            simp only [Bool.false_eq_true, false_and, or_false, if_false, emitAll_cons]
        | true =>
            by_cases hzero : precision = 0
            · rw [if_neg (by simp [hzero]), if_pos (Or.inr ⟨rfl, by simp [hzero]⟩)]
              simp [hzero, pure, Except.pure]
            · have hpred : precision.toNat = (precision - 1).toNat + 1 := by bv_omega
              rw [if_pos ⟨hc, Or.inr hzero⟩, ih, printed, hprec]
              simp only [true_and, if_true, List.length_cons, hpred, Nat.add_lt_add_iff_right,
                List.take_succ_cons, emitAll_cons]

/-- The length of what is printed, as the code computes it. -/
theorem toNat_printed {p : List Byte} (hp : p.length < 2 ^ 32)
    (hprec : flags.precision = false → precision = 0) :
    let maxsize : Word := if precision ≠ 0 then precision else -1
    let l := BitVec.ofNat 32 (min (p.takeWhile (· ≠ 0)).length maxsize.toNat)
    (if flags.precision then if l < precision then l else precision else l).toNat =
      (printed flags precision p).length := by
  intro maxsize l
  have hlen : (p.takeWhile (· ≠ 0)).length < 2 ^ 32 :=
    (List.takeWhile_sublist _).length_le.trans_lt hp
  have hall : ((-1 : Word)).toNat = 2 ^ 32 - 1 := rfl
  have hl : l.toNat = min (p.takeWhile (· ≠ 0)).length maxsize.toNat := by
    rw [BitVec.toNat_ofNat, Nat.mod_eq_of_lt (by omega)]
  rw [printed]
  cases hflag : flags.precision with
  | false =>
      have hmax : maxsize = -1 := if_neg (not_not.mpr (hprec hflag))
      simp only [Bool.false_eq_true, if_false, hl, hmax, hall]
      omega
  | true =>
      simp only [if_true, List.length_take, apply_ite BitVec.toNat, BitVec.lt_def, hl]
      by_cases hzero : precision = 0
      · simp [hzero]
      · have hmax : maxsize = precision := if_pos hzero
        rw [hmax]
        split <;> omega

/-- **`%s`** writes its text, if what may be read suffices. -/
theorem convertString_eq {p : List Byte} (hp : p.length < 2 ^ 32)
    (hprec : flags.precision = false → precision = 0) (va : List Arg) (o : σ × Word) :
    convertString out flags width precision (.string p :: va) o =
      if Suffices precision p then .ok (emitAll out (stringText flags width precision p) o, va)
      else .error .string := by
  have hall : ((-1 : Word)).toNat = 2 ^ 32 - 1 := rfl
  have hread : (0 ∈ p ∨ (if precision ≠ 0 then precision else -1).toNat < p.length) ↔
      Suffices precision p := by
    rw [Suffices]
    by_cases hzero : precision = 0
    · rw [if_neg (not_not.mpr hzero), hall, or_iff_left (by omega),
        or_iff_left (fun h => h.1 hzero)]
    · rw [if_pos hzero]
      simp only [hzero, ne_eq, not_false_eq_true, true_and]
  rw [convertString]
  simp only [vaString, bind, Except.bind, pure, Except.pure, strnlen_eq, hread]
  by_cases hsuffices : Suffices precision p
  · have hout : 0 ∈ p ∨ flags.precision = true ∧ precision.toNat < p.length := by
      rcases hsuffices with h | ⟨hzero, hlt⟩
      · exact Or.inl h
      · exact Or.inr ⟨by simpa using mt hprec hzero, hlt⟩
    simp only [if_pos hsuffices, toNat_printed hp hprec, outString_eq, if_pos hout, stringText]
    cases flags.left with
    | true => simp [emitAll_append]
    | false => simp [emitAll_append]
  · simp only [if_neg hsuffices]

end Write

/-! ## The precision of a format -/

/-- Without a precision field the precision is zero. -/
theorem parsePrecision_eq_zero {format : List Byte} {va : List Arg} {flags : Flags}
    {p : Word × Flags × List Byte × List Arg} (h : parsePrecision format va flags = .ok p) :
    p.2.1.precision = true ∨ p.1 = 0 := by
  obtain ⟨c, -, h⟩ := bind_eq_ok h
  split at h
  · left
    obtain ⟨c, -, h⟩ := bind_eq_ok h
    split at h
    · obtain ⟨q, -, h⟩ := bind_eq_ok h
      cases h
      rfl
    · split at h
      · obtain ⟨q, -, h⟩ := bind_eq_ok h
        cases h
        rfl
      · cases h
        rfl
  · cases h
    exact Or.inr rfl

/-- The length field does not concern the precision. -/
theorem parseLength_precision {format : List Byte} {flags : Flags} {p : Flags × List Byte}
    (h : parseLength format flags = .ok p) : p.1.precision = flags.precision := by
  obtain ⟨c, -, h⟩ := bind_eq_ok h
  split at h
  · obtain ⟨c, -, h⟩ := bind_eq_ok h
    split at h
    · cases h
      rfl
    · cases h
      rfl
  · split at h
    · obtain ⟨c, -, h⟩ := bind_eq_ok h
      split at h
      · cases h
        rfl
      · cases h
        rfl
    · split_ifs at h
      all_goals
        cases h
        rfl

/-- **A directive without a precision** has the precision zero. -/
theorem parseDirective_precision {format : List Byte} {va : List Arg}
    {p : Directive × List Byte × List Arg} (h : parseDirective format va = .ok p)
    (hflag : p.1.flags.precision = false) : p.1.precision = 0 := by
  obtain ⟨flags, -, h⟩ := bind_eq_ok h
  obtain ⟨width, -, h⟩ := bind_eq_ok h
  obtain ⟨precision, hprecision, h⟩ := bind_eq_ok h
  obtain ⟨length, hlength, h⟩ := bind_eq_ok h
  cases h
  rw [parseLength_precision hlength] at hflag
  exact (parsePrecision_eq_zero hprecision).resolve_left (by simp [hflag])

/-- **`%s` in a format** writes its text if the string has a terminator, or one character more than
the precision, unless that is zero; otherwise it reads what it must not. -/
theorem convert_string [FloatText] {σ : Type} (out : Out σ) {format rest : List Byte}
    {va va' : List Arg} {d : Directive} {p : List Byte}
    (hformat : parseDirective format va = .ok (d, ascii 's' :: rest, .string p :: va'))
    (hp : p.length < 2 ^ 32) (o : σ × Word) :
    convert out d (ascii 's') (.string p :: va') o =
      if Suffices d.precision p then
        .ok (emitAll out (stringText d.flags d.width d.precision p) o, va')
      else .error .string :=
  convertString_eq out hp (parseDirective_precision hformat) va' o

attribute [local instance] noFloats in
/-- Two characters of a string without a terminator need a third one, and none of them needs the
terminator. -/
theorem convert_string_two :
    convert collect ⟨{ precision := true }, 3, 2⟩ (ascii 's')
        [.string [ascii 'a', ascii 'b', ascii 'c']] ([], 0) =
          .ok (([ascii ' ', ascii 'a', ascii 'b'], 3), []) ∧
      convert collect ⟨{ precision := true }, 3, 2⟩ (ascii 's')
        [.string [ascii 'a', ascii 'b']] ([], 0) = .error .string ∧
      convert collect ⟨{ precision := true }, 3, 0⟩ (ascii 's')
        [.string [ascii 'a', ascii 'b']] ([], 0) = .error .string :=
  have hformat (va : List Arg) : parseDirective [ascii '3', ascii '.', ascii '2', ascii 's'] va =
      .ok (⟨{ precision := true }, 3, 2⟩, [ascii 's'], va) := rfl
  have hzero (va : List Arg) : parseDirective [ascii '3', ascii '.', ascii '0', ascii 's'] va =
      .ok (⟨{ precision := true }, 3, 0⟩, [ascii 's'], va) := rfl
  ⟨(convert_string collect (hformat _) (by decide) ([], 0)).trans (by decide),
    (convert_string collect (hformat _) (by decide) ([], 0)).trans (by decide),
    (convert_string collect (hzero _) (by decide) ([], 0)).trans (by decide)⟩

end Storm
