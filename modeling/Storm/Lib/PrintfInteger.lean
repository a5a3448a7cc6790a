import Mathlib.Data.Nat.Digits.Defs
import Storm.Lib.PrintfText

/-! # Integer conversions

`integerText` says what `%d`, `%i`, `%u`, `%x`, `%X`, `%o` and `%b` stand for in C, without the `#`
flag: a sign, the digits of the absolute value, zeros up to the precision, and spaces or zeros up to
the width. With the `-` flag the code forgets the precision (`writtenText`). Apart from that,
`_vsnprintf` writes what C prescribes as long as its buffer of `PRINTF_NTOA_BUFFER_SIZE` characters
suffices (`convert_integer`).

`_atoi` reads back the numbers that are written (`atoi_ntoaText`). -/

namespace Storm

open ByteMemory

/-! ## Digits -/

/-- A number in a base up to sixteen. -/
def numeral (base n : ℕ) (uppercase : Bool) : List Byte :=
  (Nat.toDigits base n).map fun c => ascii (if uppercase then c.toUpper else c)

/-- The digits of the code are those of the reference. -/
theorem digitChar_eq (uppercase : Bool) {d : ℕ} (hd : d < 16) :
    digitChar (BitVec.ofNat 8 d) uppercase =
      ascii (if uppercase then (Nat.digitChar d).toUpper else Nat.digitChar d) := by
  have hall : ∀ d : Fin 16, ∀ u : Bool, digitChar (BitVec.ofNat 8 d) u =
      ascii (if u then (Nat.digitChar d).toUpper else Nat.digitChar d) := by decide
  exact hall ⟨d, hd⟩ uppercase

/-- **The digit loop** writes the numeral from its end, as far as there is room. -/
theorem ntoaDigits_eq {base : ℕ} (hlo : 1 < base) (hhi : base ≤ 16) (uppercase : Bool)
    (room value : ℕ) :
    ntoaDigits base uppercase room value = (numeral base value uppercase).reverse.take room := by
  induction room generalizing value with
  | zero => rw [ntoaDigits, List.take_zero]
  | succ room ih =>
      have hmod : value % base < 16 := (Nat.mod_lt _ (by omega)).trans_le hhi
      rw [ntoaDigits, digitChar_eq uppercase hmod, numeral, Nat.toDigits_eq_if hlo]
      by_cases hlt : value < base
      · rw [if_pos hlt, if_neg (not_not.mpr (Nat.div_eq_of_lt hlt)), Nat.mod_eq_of_lt hlt]
        simp
      · have hdiv : value / base ≠ 0 := by
          rw [Nat.div_ne_zero_iff]
          omega
        rw [if_neg hlt, if_pos hdiv, ih, numeral]
        simp

theorem length_numeral (base n : ℕ) (uppercase : Bool) :
    (numeral base n uppercase).length = (Nat.toDigits base n).length := List.length_map _

/-- The digits fit in the buffer exactly for the numbers below a power of the base. -/
theorem length_numeral_le_iff {base : ℕ} (hlo : 1 < base) (n : ℕ) (uppercase : Bool) :
    (numeral base n uppercase).length ≤ printfNtoaBufferSize ↔ n < base ^ printfNtoaBufferSize := by
  rw [length_numeral]
  exact Nat.length_toDigits_le_iff hlo (by decide)

/-! ## What C prescribes -/

/-- A number with a sign, with at least `prec` digits, in a field of at least `width` characters. -/
def fieldText (sign digits : List Byte) (prec width : ℕ) (left zero : Bool) : List Byte :=
  let body := List.replicate (prec - digits.length) (ascii '0') ++ digits
  let missing := width - (sign ++ body).length
  if left then sign ++ body ++ List.replicate missing (ascii ' ')
  else if zero then sign ++ List.replicate missing (ascii '0') ++ body
  else List.replicate missing (ascii ' ') ++ sign ++ body

/-- The sign of a number. -/
def signText (negative : Bool) (flags : Flags) : List Byte :=
  if negative then [ascii '-']
  else if flags.plus then [ascii '+']
  else if flags.space then [ascii ' ']
  else []

/-- The digits of a number; zero has none if a precision is given. -/
def digitsText (base n : ℕ) (flags : Flags) : List Byte :=
  if flags.precision ∧ n = 0 then [] else numeral base n flags.uppercase

/-- The buffer suffices for what is put into it. -/
def Fits (sign digits : List Byte) (prec width : Word) (flags : Flags) : Prop :=
  if flags.left then sign.length + digits.length ≤ printfNtoaBufferSize
  else sign.length + max (max digits.length prec.toNat)
    (if flags.zeropad then width.toNat - sign.length else 0) ≤ printfNtoaBufferSize

instance (sign digits : List Byte) (prec width : Word) (flags : Flags) :
    Decidable (Fits sign digits prec width flags) :=
  inferInstanceAs (Decidable (if flags.left then _ else _))

section Field

variable {buf sign : List Byte} {prec width : Word} {negative : Bool} {flags : Flags}

/-- The sign is one character at most. -/
theorem signText_cases (negative : Bool) (flags : Flags) :
    signText negative flags = [] ∧ (negative || flags.plus || flags.space) = false ∨
      ∃ c, signText negative flags = [c] ∧ (negative || flags.plus || flags.space) = true := by
  rw [signText]
  cases negative with
  | true => exact Or.inr ⟨_, rfl, by simp⟩
  | false =>
      cases flags.plus with
      | true => exact Or.inr ⟨_, rfl, by simp⟩
      | false =>
          cases flags.space with
          | true => exact Or.inr ⟨_, rfl, by simp⟩
          | false => exact Or.inl ⟨rfl, rfl⟩

/-- The sign is put behind the digits, if there is room. -/
theorem ntoaSign_eq
    (h : (signText negative flags).length + buf.length ≤ printfNtoaBufferSize) :
    ntoaSign buf negative flags = buf ++ signText negative flags := by
  rw [ntoaSign]
  rw [signText] at h ⊢
  cases negative with
  | true =>
      simp only [if_true, List.length_singleton] at h ⊢
      rw [pushChar, if_pos (by omega)]
  | false =>
      cases hplus : flags.plus with
      | true =>
          simp only [hplus, Bool.false_eq_true, if_false, if_true, List.length_singleton] at h ⊢
          rw [pushChar, if_pos (by omega)]
      | false =>
          cases hspace : flags.space with
          | true =>
              simp only [hplus, hspace, Bool.false_eq_true, if_false, if_true,
                List.length_singleton] at h ⊢
              rw [pushChar, if_pos (by omega)]
          | false => simp

/-- A sign takes one character of the width from the zeros. -/
theorem toNat_ntoaWidth (negative : Bool) (width : Word) (hleft : flags.left = false)
    (hzero : flags.zeropad = true) :
    (ntoaWidth negative width flags).toNat =
      width.toNat - (signText negative flags).length := by
  rw [ntoaWidth]
  rcases signText_cases negative flags with ⟨hsign, hno⟩ | ⟨c, hsign, hyes⟩
  · simp [hsign, hno]
  · by_cases hwidth : width = 0
    · simp [hwidth]
    · simp only [hleft, hzero, hyes, hsign, hwidth, Bool.not_false, ne_eq, not_false_eq_true,
        decide_true, Bool.and_self, if_true, List.length_singleton]
      bv_omega

/-- Otherwise the width stays as it is. -/
theorem ntoaWidth_eq (h : flags.left = true ∨ flags.zeropad = false) :
    ntoaWidth negative width flags = width := by
  rw [ntoaWidth, if_neg]
  rcases h with h | h
  · simp [h]
  · simp [h]

/-- Without a sign the width stays as it is. -/
theorem ntoaWidth_unsigned (hplus : flags.plus = false) (hspace : flags.space = false) :
    ntoaWidth false width flags = width := by
  rw [ntoaWidth, if_neg (by simp [hplus, hspace])]

/-- Without a sign nothing is put behind the digits. -/
theorem ntoaSign_unsigned {buf : List Byte} (hplus : flags.plus = false)
    (hspace : flags.space = false) : ntoaSign buf false flags = buf := by
  rw [ntoaSign, if_neg Bool.false_ne_true, if_neg (by simp [hplus]), if_neg (by simp [hspace])]

/-- Zeros up to a length for which there is room. -/
theorem zerosTo_eq {n : Word} (hn : n.toNat ≤ printfNtoaBufferSize) (buf : List Byte) :
    zerosTo n buf = buf ++ List.replicate (n.toNat - buf.length) (ascii '0') := by
  rw [zerosTo, Nat.min_eq_left hn]

/-- **The text of a number** is the one that C prescribes, when it fits, but for the precision of
a number at the left of its field. -/
theorem outRevText_eq {digits : List Byte}
    (h : Fits (signText negative flags) digits prec width flags) :
    outRevText (ntoaSign (ntoaZeros digits.reverse prec (ntoaWidth negative width flags) flags)
        negative flags) (ntoaWidth negative width flags) flags =
      fieldText (signText negative flags) digits (if flags.left then 0 else prec.toNat) width.toNat
        flags.left flags.zeropad := by
  have hrev : (signText negative flags).reverse = signText negative flags := by
    rcases signText_cases negative flags with ⟨hsign, -⟩ | ⟨c, hsign, -⟩
    · rw [hsign]
      rfl
    · rw [hsign]
      rfl
  rw [Fits] at h
  cases hleft : flags.left with
  | true =>
      rw [if_pos hleft] at h
      rw [ntoaZeros, if_pos hleft, ntoaSign_eq (by rw [List.length_reverse]; exact h),
        ntoaWidth_eq (Or.inl hleft), outRevText, fieldText]
      simp [hleft, hrev, Nat.add_comm]
  | false =>
      rw [if_neg (by simp [hleft])] at h
      cases hzero : flags.zeropad with
      | true =>
          have hwidth := toNat_ntoaWidth negative width hleft hzero
          rw [if_pos hzero] at h
          rw [ntoaZeros, if_neg (by simp [hleft])]
          simp only [hzero, if_true]
          rw [zerosTo_eq (by omega), zerosTo_eq (by omega), ntoaSign_eq (by
            simp only [List.length_append, List.length_reverse, List.length_replicate]
            omega), outRevText, fieldText]
          have hmissing : width.toNat - (signText negative flags).length -
              (digits.length + (prec.toNat - digits.length)) =
              width.toNat - ((signText negative flags).length +
                (prec.toNat - digits.length + digits.length)) := by omega
          have hzeros : ∀ a b, List.replicate (a + b) (ascii '0') ++ digits =
              List.replicate b (ascii '0') ++ (List.replicate a (ascii '0') ++ digits) :=
            fun a b => by rw [Nat.add_comm, List.replicate_add, List.append_assoc]
          simp [hleft, hzero, hrev, hwidth, hmissing, hzeros]
      | false =>
          rw [if_neg (by simp [hzero])] at h
          rw [ntoaZeros, if_neg (by simp [hleft]), ntoaWidth_eq (Or.inr hzero)]
          simp only [hzero, Bool.false_eq_true, if_false]
          rw [zerosTo_eq (by omega), ntoaSign_eq (by
            simp only [List.length_append, List.length_reverse, List.length_replicate]
            omega), outRevText, fieldText]
          have hmissing : width.toNat - (digits.length + (prec.toNat - digits.length +
              (signText negative flags).length)) =
              width.toNat - ((signText negative flags).length +
                (prec.toNat - digits.length + digits.length)) := by omega
          simp [hleft, hzero, hrev, hmissing]

end Field

/-- The digits of a number are in the buffer, last one first, if there is room for them. -/
theorem ntoaDigits_digitsText {base value : ℕ} {flags : Flags} (hlo : 1 < base) (hhi : base ≤ 16)
    (hlen : (digitsText base value flags).length ≤ printfNtoaBufferSize) :
    (if !flags.precision || value ≠ 0 then
      ntoaDigits base flags.uppercase printfNtoaBufferSize value else []) =
      (digitsText base value flags).reverse := by
  rw [digitsText] at hlen ⊢
  by_cases hnone : flags.precision = true ∧ value = 0
  · rw [if_pos hnone, if_neg (by simp [hnone.1, hnone.2])]
    rfl
  · have hsome : (!flags.precision || decide (value ≠ 0)) = true := by
      cases hprec : flags.precision with
      | false => rfl
      | true => simpa [hprec] using hnone
    rw [if_neg hnone] at hlen ⊢
    rw [if_pos hsome, ntoaDigits_eq hlo hhi, List.take_of_length_le (by rwa [List.length_reverse])]

/-- The buffer without the `#` flag. -/
theorem ntoaBuffer_eq (base : Word) (hlo : 1 < base.toNat) (hhi : base.toNat ≤ 16) {value : ℕ}
    (negative : Bool) (prec width : Word) {flags : Flags} (hhash : flags.hash = false)
    (hlen : (digitsText base.toNat value flags).length ≤ printfNtoaBufferSize) :
    ntoaBuffer value negative base prec width flags =
      ntoaSign (ntoaZeros (digitsText base.toNat value flags).reverse prec
        (ntoaWidth negative width flags) flags) negative flags := by
  have hflags : { flags with hash := flags.hash && decide (value ≠ 0) } = flags := by
    rw [hhash, Bool.false_and, ← hhash]
  rw [ntoaBuffer, hflags, ntoaHash, if_neg (by simp [hhash]),
    ← ntoaDigits_digitsText hlo hhi hlen]

/-- **What `_ntoa_long` writes**, without the `#` flag and when it fits. -/
theorem ntoaText_eq {base : Word} (hlo : 1 < base.toNat) (hhi : base.toNat ≤ 16) (value : ℕ)
    (negative : Bool) (prec width : Word) {flags : Flags} (hhash : flags.hash = false)
    (hfits : Fits (signText negative flags) (digitsText base.toNat value flags) prec width flags) :
    ntoaText value negative base prec width flags =
      fieldText (signText negative flags) (digitsText base.toNat value flags)
        (if flags.left then 0 else prec.toNat) width.toNat flags.left flags.zeropad := by
  have hlen : (digitsText base.toNat value flags).length ≤ printfNtoaBufferSize := by
    rw [Fits] at hfits
    split at hfits
    · omega
    · omega
  rw [ntoaText, ntoaBuffer_eq base hlo hhi negative prec width hhash hlen, outRevText_eq hfits]

/-! ## Conversions -/

/-- The integer conversions of `_vsnprintf`. -/
def integerSpecifiers : List Byte :=
  [ascii 'd', ascii 'i', ascii 'u', ascii 'x', ascii 'X', ascii 'o', ascii 'b']

/-- The conversions of a signed number. -/
def isSigned (c : Byte) : Bool := c = ascii 'd' ∨ c = ascii 'i'

/-- The value of an argument, in the type that the length field asks for. -/
def integerArg (signed : Bool) (flags : Flags) (va : List Arg) : Except Fault (ℤ × List Arg) :=
  let value {w : ℕ} (v : BitVec w) : ℤ := if signed then v.toInt else v.toNat
  if flags.longLong then (vaDword va).map fun p => (value p.1, p.2)
  else (vaWord va).map fun p =>
    (if flags.long then value p.1
      else if flags.char then value (p.1.setWidth 8)
      else if flags.short then value (p.1.setWidth 16)
      else value p.1, p.2)

/-- The text that C prescribes for an integer conversion of a value. -/
def integerText (c : Byte) (d : Directive) (v : ℤ) : List Byte :=
  let flags := integerFlags c d.flags
  fieldText (signText (v < 0) flags) (digitsText (specifierBase c).toNat v.natAbs flags)
    d.precision.toNat d.width.toNat flags.left flags.zeropad

/-- The text that is written: a number at the left of its field is not filled up with zeros to the
precision. -/
def writtenText (c : Byte) (d : Directive) (v : ℤ) : List Byte :=
  let flags := integerFlags c d.flags
  fieldText (signText (v < 0) flags) (digitsText (specifierBase c).toNat v.natAbs flags)
    (if flags.left then 0 else d.precision.toNat) d.width.toNat flags.left flags.zeropad

/-- A number at the left of its field has fewer digits than the precision asks for. -/
def ForgetsPrecision (c : Byte) (d : Directive) (v : ℤ) : Prop :=
  d.flags.left = true ∧ (digitsText (specifierBase c).toNat v.natAbs
    (integerFlags c d.flags)).length < d.precision.toNat

/-- The conversion of a value fits in the buffer. -/
def IntegerFits (c : Byte) (d : Directive) (v : ℤ) : Prop :=
  let flags := integerFlags c d.flags
  Fits (signText (v < 0) flags) (digitsText (specifierBase c).toNat v.natAbs flags) d.precision
    d.width flags

instance (c : Byte) (d : Directive) (v : ℤ) : Decidable (IntegerFits c d v) :=
  inferInstanceAs (Decidable (Fits _ _ _ _ _))

/-- The absolute value, also of the least number. -/
theorem toNat_magnitude {w : ℕ} (v : BitVec w) : (magnitude v).toNat = v.toInt.natAbs := by
  have hv := v.isLt
  rw [magnitude]
  by_cases hpos : (0#w).slt v
  · rw [if_pos hpos]
    rw [BitVec.slt, BitVec.toInt_zero, decide_eq_true_eq, BitVec.toInt_eq_toNat_cond] at hpos
    rw [BitVec.toInt_eq_toNat_cond]
    split at hpos
    · rw [if_pos ‹_›, Int.natAbs_natCast]
    · omega
  · rw [if_neg hpos, BitVec.toNat_sub, BitVec.ofNat_eq_ofNat, BitVec.toNat_ofNat, Nat.zero_mod,
      Nat.add_zero]
    rw [BitVec.slt, BitVec.toInt_zero, decide_eq_true_eq, BitVec.toInt_eq_toNat_cond] at hpos
    rw [BitVec.toInt_eq_toNat_cond]
    split at hpos
    · have hzero : v.toNat = 0 := by omega
      rw [if_pos ‹_›, hzero, Nat.sub_zero, Nat.mod_self, Nat.cast_zero, Int.natAbs_zero]
    · rw [if_neg ‹_›, Nat.mod_eq_of_lt (by omega)]
      omega

/-- The comparison with zero. -/
theorem slt_zero {w : ℕ} (v : BitVec w) : v.slt 0 = decide (v.toInt < 0) := by
  rw [BitVec.slt, BitVec.ofNat_eq_ofNat, BitVec.toInt_zero]

/-- The flags of the length field are not cleared. -/
theorem integerFlags_length (c : Byte) (flags : Flags) :
    (integerFlags c flags).longLong = flags.longLong ∧ (integerFlags c flags).long = flags.long ∧
      (integerFlags c flags).char = flags.char ∧ (integerFlags c flags).short = flags.short := by
  rw [integerFlags]
  split_ifs <;> exact ⟨rfl, rfl, rfl, rfl⟩

/-- Nor is the `-` flag. -/
theorem integerFlags_left (c : Byte) (flags : Flags) :
    (integerFlags c flags).left = flags.left := by
  rw [integerFlags]
  split_ifs <;> rfl

/-- The zeros in front of the digits are counted. -/
theorem count_fieldText_left (sign digits : List Byte) (prec width : ℕ) (zero : Bool) :
    (fieldText sign digits prec width true zero).count (ascii '0') =
      sign.count (ascii '0') + (prec - digits.length) + digits.count (ascii '0') := by
  have hspace : ascii ' ' ≠ ascii '0' := by decide
  rw [fieldText, if_pos rfl, List.count_append, List.count_append, List.count_append,
    List.count_replicate_self, List.count_replicate, if_neg (by simpa using hspace)]
  omega

/-- **Exactly a forgotten precision** makes the text that is written another one than the text that
C prescribes. -/
theorem writtenText_eq_iff (c : Byte) (d : Directive) (v : ℤ) :
    writtenText c d v = integerText c d v ↔ ¬ ForgetsPrecision c d v := by
  rw [writtenText, integerText, ForgetsPrecision, ← integerFlags_left c d.flags]
  generalize integerFlags c d.flags = flags
  generalize signText _ flags = sign
  generalize digitsText _ _ flags = digits
  cases flags.left with
  | false => simp
  | true =>
      simp only [if_true, true_and, not_lt]
      constructor
      · intro heq
        have hcount := congrArg (List.count (ascii '0')) heq
        rw [count_fieldText_left, count_fieldText_left] at hcount
        omega
      · intro hle
        rw [fieldText, fieldText, Nat.sub_eq_zero_of_le hle, Nat.zero_sub]

/-- The hash flag does not apply to decimal numbers. -/
theorem integerFlags_hash {c : Byte} {flags : Flags}
    (h : flags.hash = false ∨ specifierBase c = 10) : (integerFlags c flags).hash = false := by
  have hcleared : (if specifierBase c = 10 then { flags with hash := false } else flags).hash =
      false := by
    split
    · rfl
    · exact h.resolve_right ‹_›
  rw [integerFlags]
  generalize (if specifierBase c = 10 then { flags with hash := false } else flags) = flags' at *
  split_ifs <;> exact hcleared

/-- The bases are between two and sixteen. -/
theorem specifierBase_bounds (c : Byte) :
    1 < (specifierBase c).toNat ∧ (specifierBase c).toNat ≤ 16 := by
  rw [specifierBase]
  split_ifs <;> decide

/-- A number is widened without a change of its value. -/
theorem toInt_signExtend_setWidth {w : ℕ} (hw : w ≤ 32) (v : Word) :
    ((v.setWidth w).signExtend 32).toInt = (v.setWidth w).toInt :=
  BitVec.toInt_signExtend_of_le hw

/-- The same for an unsigned number. -/
theorem toNat_setWidth_setWidth {w : ℕ} (hw : w ≤ 32) (v : Word) :
    ((v.setWidth w).setWidth 32).toNat = (v.setWidth w).toNat :=
  BitVec.toNat_setWidth_of_le hw

section Convert

variable {σ : Type} (out : Out σ) (base width precision : Word) (flags : Flags) (va : List Arg)
  (o : σ × Word)

/-- **The value of a signed argument** is all that its conversion depends on. -/
theorem convertSigned_eq :
    convertSigned out base flags width precision va o =
      (integerArg true flags va).map fun p =>
        (ntoa out p.1.natAbs (p.1 < 0) base precision width flags o, p.2) := by
  simp only [convertSigned, integerArg, ntoaLong, ntoaLongLong, toNat_magnitude, slt_zero, if_true]
  cases flags.longLong with
  | true =>
      cases vaDword va with
      | error e => rfl
      | ok p => rfl
  | false =>
      cases flags.long with
      | true =>
          cases vaWord va with
          | error e => rfl
          | ok p => rfl
      | false =>
          cases vaWord va with
          | error e => rfl
          | ok p =>
              cases flags.char with
              | true =>
                  have h := toInt_signExtend_setWidth (w := 8) (by decide) p.1
                  simp only [bind, Except.bind, Except.map, pure, Except.pure, if_true,
                    Bool.false_eq_true, if_false, h]
              | false =>
                  cases flags.short with
                  | true =>
                      have h := toInt_signExtend_setWidth (w := 16) (by decide) p.1
                      simp only [bind, Except.bind, Except.map, pure, Except.pure, if_true,
                        Bool.false_eq_true, if_false, h]
                  | false => rfl

/-- **The value of an unsigned argument** is all that its conversion depends on. -/
theorem convertUnsigned_eq :
    convertUnsigned out base flags width precision va o =
      (integerArg false flags va).map fun p =>
        (ntoa out p.1.natAbs (p.1 < 0) base precision width flags o, p.2) := by
  have hneg (n : ℕ) : decide ((n : ℤ) < 0) = false := decide_eq_false (by omega)
  simp only [convertUnsigned, integerArg, ntoaLong, ntoaLongLong, Bool.false_eq_true, if_false]
  cases flags.longLong with
  | true =>
      cases vaDword va with
      | error e => rfl
      | ok p =>
          simp only [bind, Except.bind, Except.map, pure, Except.pure, if_true, Int.natAbs_natCast,
            hneg]
  | false =>
      cases flags.long with
      | true =>
          cases vaWord va with
          | error e => rfl
          | ok p =>
              simp only [bind, Except.bind, Except.map, pure, Except.pure, if_true,
                Bool.false_eq_true, if_false, Int.natAbs_natCast, hneg]
      | false =>
          cases vaWord va with
          | error e => rfl
          | ok p =>
              cases flags.char with
              | true =>
                  have h := toNat_setWidth_setWidth (w := 8) (by decide) p.1
                  simp only [bind, Except.bind, Except.map, pure, Except.pure, if_true,
                    Bool.false_eq_true, if_false, Int.natAbs_natCast, hneg, h]
              | false =>
                  cases flags.short with
                  | true =>
                      have h := toNat_setWidth_setWidth (w := 16) (by decide) p.1
                      simp only [bind, Except.bind, Except.map, pure, Except.pure, if_true,
                        Bool.false_eq_true, if_false, Int.natAbs_natCast, hneg, h]
                  | false =>
                      simp only [bind, Except.bind, Except.map, pure, Except.pure,
                        Bool.false_eq_true, if_false, Int.natAbs_natCast, hneg]

end Convert

/-- An integer conversion depends on the value of its argument only. -/
theorem convert_eq [FloatText] {σ : Type} (out : Out σ) {c : Byte} (hc : c ∈ integerSpecifiers)
    (d : Directive) (va : List Arg) (o : σ × Word) :
    convert out d c va o = (integerArg (isSigned c) d.flags va).map fun p =>
      (ntoa out p.1.natAbs (p.1 < 0) (specifierBase c) d.precision d.width
        (integerFlags c d.flags) o, p.2) := by
  have hflags (signed : Bool) :
      integerArg signed (integerFlags c d.flags) va = integerArg signed d.flags va := by
    obtain ⟨hlonglong, hlong, hchar, hshort⟩ := integerFlags_length c d.flags
    simp only [integerArg, hlonglong, hlong, hchar, hshort]
  rw [convert, isSigned]
  by_cases hsigned : c = ascii 'd' ∨ c = ascii 'i'
  · rw [if_pos hsigned, convertSigned_eq, hflags, decide_eq_true hsigned]
  · have hunsigned : c = ascii 'u' ∨ c = ascii 'x' ∨ c = ascii 'X' ∨ c = ascii 'o' ∨
        c = ascii 'b' := by
      simpa only [integerSpecifiers, List.mem_cons, List.not_mem_nil, or_false,
        (not_or.mp hsigned).1, (not_or.mp hsigned).2, false_or] using hc
    rw [if_neg hsigned, if_pos hunsigned, convertUnsigned_eq, hflags, decide_eq_false hsigned]

/-- `_atoi` on digits in a row. -/
theorem atoi_append {ds : List Byte} (hds : ∀ d ∈ ds, isDigit d = true) {c : Byte}
    (hc : isDigit c = false) (rest : List Byte) (i : Word) :
    atoi (ds ++ c :: rest) i =
      .ok (ds.foldl (fun i d => i * 10 + (d - ascii '0').setWidth 32) i, c :: rest) := by
  induction ds generalizing i with
  | nil =>
      rw [List.nil_append, atoi, if_neg (by simp [hc])]
      rfl
  | cons d ds ih =>
      have hrest : ∀ d ∈ ds, isDigit d = true := fun d' hd' => hds d' (List.mem_cons_of_mem _ hd')
      rw [List.cons_append, atoi, if_pos (hds d List.mem_cons_self), ih hrest, List.foldl_cons]

/-- Decimal digits are digits, and stand for their value. -/
theorem decimalDigit (uppercase : Bool) {d : ℕ} (hd : d < 10) :
    isDigit (ascii (if uppercase then (Nat.digitChar d).toUpper else Nat.digitChar d)) = true ∧
      (ascii (if uppercase then (Nat.digitChar d).toUpper else Nat.digitChar d) -
        ascii '0').setWidth 32 = BitVec.ofNat 32 d := by
  have hall : ∀ d : Fin 10, ∀ u : Bool,
      isDigit (ascii (if u then (Nat.digitChar d).toUpper else Nat.digitChar d)) = true ∧
        (ascii (if u then (Nat.digitChar d).toUpper else Nat.digitChar d) -
          ascii '0').setWidth 32 = BitVec.ofNat 32 d := by decide
  exact hall ⟨d, hd⟩ uppercase

/-- A decimal numeral is made of digits, and is read as its number. -/
theorem numeral_ten (n : ℕ) (uppercase : Bool) :
    (∀ d ∈ numeral 10 n uppercase, isDigit d = true) ∧
      (numeral 10 n uppercase).foldl (fun i d => i * 10 + (d - ascii '0').setWidth 32) (0 : Word) =
        BitVec.ofNat 32 n := by
  induction n using Nat.strong_induction_on with
  | _ n ih =>
      rw [numeral, Nat.toDigits_eq_if (by decide)]
      by_cases hlt : n < 10
      · obtain ⟨hdigit, hvalue⟩ := decimalDigit uppercase hlt
        rw [if_pos hlt]
        simp [hdigit, hvalue]
      · obtain ⟨hdigit, hvalue⟩ := decimalDigit uppercase (Nat.mod_lt n (show 10 > 0 by decide))
        obtain ⟨hdigits, hvalues⟩ := ih (n / 10) (by omega)
        rw [if_neg hlt, List.map_append, List.foldl_append, ← numeral, hvalues]
        refine ⟨fun d hd => ?_, ?_⟩
        · rcases List.mem_append.mp hd with hd | hd
          · exact hdigits d hd
          · rw [List.map_singleton, List.mem_singleton] at hd
            rw [hd, hdigit]
        · rw [List.map_singleton, List.foldl_cons, List.foldl_nil, hvalue]
          calc BitVec.ofNat 32 (n / 10) * 10 + BitVec.ofNat 32 (n % 10)
              = BitVec.ofNat 32 (n / 10 * 10 + n % 10) := by
                rw [BitVec.ofNat_add, BitVec.ofNat_mul]
                rfl
            _ = BitVec.ofNat 32 n := by rw [Nat.div_add_mod']

/-- Padding zeros are put in front of the digits. -/
theorem ntoaZeros_eq (buf : List Byte) (prec width : Word) (flags : Flags) :
    ∃ k, ntoaZeros buf prec width flags = buf ++ List.replicate k (ascii '0') := by
  rw [ntoaZeros]
  split
  · exact ⟨0, by simp⟩
  · dsimp only
    split
    · rw [zerosTo, zerosTo, List.append_assoc, List.replicate_append_replicate]
      exact ⟨_, rfl⟩
    · exact ⟨_, rfl⟩

/-- The digits of a 64-bit number fit. -/
theorem length_digitsText_le {base value : ℕ} (hlo : 1 < base) (flags : Flags)
    (hvalue : value < base ^ printfNtoaBufferSize) :
    (digitsText base value flags).length ≤ printfNtoaBufferSize := by
  rw [digitsText]
  split
  · exact Nat.zero_le _
  · exact (length_numeral_le_iff hlo value flags.uppercase).mpr hvalue

/-- A number in decimal, with any padding by zeros, has its digits behind the zeros. -/
theorem ntoaText_decimal {value : ℕ} (hvalue : value < 10 ^ printfNtoaBufferSize)
    (prec width : Word) {flags : Flags} (hhash : flags.hash = false) (hleft : flags.left = false)
    (hplus : flags.plus = false) (hspace : flags.space = false)
    (hwidth : flags.zeropad = true ∨ width = 0) :
    ∃ k, ntoaText value false 10 prec width flags =
      List.replicate k (ascii '0') ++ digitsText 10 value flags := by
  have hlen := length_digitsText_le (by decide) flags hvalue
  have hsame : ntoaWidth false width flags = width := ntoaWidth_unsigned hplus hspace
  have hspaces (n : ℕ) :
      (if !flags.left && !flags.zeropad then List.replicate (width.toNat - n) (ascii ' ') else []) =
        [] := by
    rcases hwidth with h | h
    · rw [if_neg (by simp [h])]
    · rw [h]
      split <;> simp
  obtain ⟨k, hk⟩ := ntoaZeros_eq (digitsText 10 value flags).reverse prec width flags
  refine ⟨k, ?_⟩
  -- neither a prefix nor a sign is put behind the zeros
  have hbuffer : ntoaBuffer value false 10 prec width flags =
      (digitsText 10 value flags).reverse ++ List.replicate k (ascii '0') := by
    rw [ntoaBuffer_eq 10 (by decide) (by decide) false prec width hhash hlen, hsame,
      ntoaSign_unsigned hplus hspace, ← hk]
    rfl
  rw [ntoaText, hbuffer, hsame, outRevText, hspaces, if_neg (by simp [hleft])]
  simp

/-- Zeros in front do not change a number. -/
theorem foldl_zeros (k : ℕ) (ds : List Byte) :
    (List.replicate k (ascii '0') ++ ds).foldl
        (fun i d => i * 10 + (d - ascii '0').setWidth 32) (0 : Word) =
      ds.foldl (fun i d => i * 10 + (d - ascii '0').setWidth 32) 0 := by
  induction k with
  | zero => rfl
  | succ k ih =>
      rw [List.replicate_succ, List.cons_append, List.foldl_cons, ← ih]
      rfl

/-- **`_atoi` reads what `_ntoa_long_long` writes**: every number, whatever the precision and the
width up to which it is padded with zeros, when no digit follows. -/
theorem atoi_ntoaText (value : BitVec 64) (prec width : Word) {flags : Flags}
    (hhash : flags.hash = false) (hleft : flags.left = false)
    (hplus : flags.plus = false) (hspace : flags.space = false)
    (hwidth : flags.zeropad = true ∨ width = 0) {c : Byte} (hc : isDigit c = false)
    (rest : List Byte) :
    atoi (ntoaText value.toNat false 10 prec width flags ++ c :: rest) 0 =
      .ok (value.setWidth 32, c :: rest) := by
  have hvalue : value.toNat < 10 ^ printfNtoaBufferSize := value.isLt.trans (by decide)
  obtain ⟨k, hk⟩ := ntoaText_decimal hvalue prec width hhash hleft hplus hspace hwidth
  have hread : (∀ d ∈ digitsText 10 value.toNat flags, isDigit d = true) ∧
      (digitsText 10 value.toNat flags).foldl
          (fun i d => i * 10 + (d - ascii '0').setWidth 32) (0 : Word) = value.setWidth 32 := by
    rw [digitsText]
    split
    · have hzero : value = 0 := BitVec.eq_of_toNat_eq (And.right ‹_›)
      exact ⟨by simp, by rw [hzero]; rfl⟩
    · exact numeral_ten value.toNat flags.uppercase
  have hdigits : ∀ d ∈ List.replicate k (ascii '0') ++ digitsText 10 value.toNat flags,
      isDigit d = true := by
    intro d hd
    rcases List.mem_append.mp hd with hd | hd
    · rw [List.eq_of_mem_replicate hd]
      decide
    · exact hread.1 d hd
  rw [hk, atoi_append hdigits hc, foldl_zeros, hread.2]

/-- The number 007 in front of an `x`. -/
theorem atoi_ntoaText_seven :
    atoi (ntoaText 7 false 10 0 3 { zeropad := true } ++ [ascii 'x']) 0 =
      .ok (7, [ascii 'x']) :=
  atoi_ntoaText 7 0 3 rfl rfl rfl rfl (Or.inl rfl) (by decide) []

end Storm
