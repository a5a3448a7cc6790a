import Storm.Lib.PrintfInteger

/-! # The prefix of hexadecimal numbers

For the `#` flag `_ntoa_format` takes back one or two characters before it writes the prefix, so that
the prefix replaces padding zeros. It takes digits for such zeros whenever they fill the field: `%#4x`
of 0x1234 is "0x34". `ntoaText_hash_iff` says for which widths a number is right. -/

namespace Storm

open ByteMemory

section Hash

variable {value : ℕ} {width : Word} {flags : Flags}

/-- The prefix of a hexadecimal number. -/
def hexPrefix (uppercase : Bool) : List Byte :=
  [ascii '0', if uppercase then ascii 'X' else ascii 'x']

/-- The width of a field is reached. -/
theorem length_fieldText (sign digits : List Byte) (prec width : ℕ) (left zero : Bool) :
    (fieldText sign digits prec width left zero).length =
      max width (sign.length + max prec digits.length) := by
  rw [fieldText]
  split_ifs <;> simp <;> omega

/-- The prefix is put behind digits and zeros, if there is room. -/
theorem pushChar_hashLetter {buf : List Byte} (h : buf.length + 2 ≤ printfNtoaBufferSize) :
    pushChar (ascii '0') (hashLetter buf 16 flags) =
      buf ++ (hexPrefix flags.uppercase).reverse := by
  have hroom (c d : Byte) : pushChar d (pushChar c buf) = buf ++ [c, d] := by
    rw [pushChar, pushChar, if_pos (show buf.length < printfNtoaBufferSize by omega), if_pos (by
      rw [List.length_append, List.length_singleton]
      omega), List.append_assoc]
    rfl
  rw [hashLetter, hexPrefix]
  cases hupper : flags.uppercase with
  | true =>
      rw [if_neg (by simp), if_pos (by simp), hroom]
      rfl
  | false =>
      rw [if_pos (by simp), hroom]
      rfl

/-- The zeros of a number without a precision. -/
def zeroCount (digits : List Byte) (width : Word) (flags : Flags) : ℕ :=
  if flags.left = false ∧ flags.zeropad = true then
    min width.toNat printfNtoaBufferSize - digits.length
  else 0

/-- The buffer of `%#x`. -/
theorem ntoaBuffer_hash (width : Word) (hvalue : 0 < value) (hroom : value < 16 ^ printfNtoaBufferSize)
    (hhash : flags.hash = true) (hprec : flags.precision = false) (hplus : flags.plus = false)
    (hspace : flags.space = false) :
    let digits := numeral 16 value flags.uppercase
    ntoaBuffer value false 16 0 width flags =
      pushChar (ascii '0') (hashLetter (hashTrim (digits.reverse ++
        List.replicate (zeroCount digits width flags) (ascii '0')) 16 0 width flags) 16 flags) := by
  intro digits
  have hflags : { flags with hash := flags.hash && decide (value ≠ 0) } = flags := by
    rw [decide_eq_true (by omega), Bool.and_true]
  have htext : digitsText 16 value flags = digits := if_neg (by simp [hprec])
  have hlen : (digitsText 16 value flags).length ≤ printfNtoaBufferSize :=
    length_digitsText_le (by decide) flags hroom
  have hdigits := ntoaDigits_digitsText (by decide) (by decide) hlen
  have hzeros : ntoaZeros digits.reverse 0 width flags =
      digits.reverse ++ List.replicate (zeroCount digits width flags) (ascii '0') := by
    rw [ntoaZeros, zeroCount]
    cases hleft : flags.left with
    | true => simp
    | false =>
        cases hzero : flags.zeropad with
        | true => simp [zerosTo]
        | false => simp [zerosTo]
  rw [ntoaBuffer, hflags, ← hzeros, ← htext, ← hdigits, ntoaWidth_unsigned hplus hspace,
    ntoaSign_unsigned hplus hspace, ntoaHash, if_pos hhash]
  rfl

/-- Nothing is taken back when the field is not filled. -/
theorem hashTrim_of_ne {buf : List Byte} {base : Word} (h : buf.length ≠ width.toNat) :
    hashTrim buf base 0 width flags = buf := by
  rw [hashTrim, if_neg]
  simp only [h, decide_false, Bool.or_false, BitVec.ofNat_eq_ofNat, BitVec.toNat_ofNat,
    Nat.zero_mod]
  simp

/-- Two characters are taken back when it is, as far as there are as many. -/
theorem hashTrim_of_eq {buf : List Byte} (hprec : flags.precision = false) (hbuf : buf ≠ [])
    (h : buf.length = width.toNat) :
    hashTrim buf 16 0 width flags = buf.dropLast.dropLast := by
  have hpos := List.length_pos_iff.mpr hbuf
  rw [hashTrim, if_pos (by simp [hprec, ← h, hbuf])]
  split
  · rfl
  · have hnil : buf.dropLast = [] := by
      rw [List.eq_nil_iff_length_eq_zero]
      simp_all
    rw [hnil]
    rfl

/-- The width of a field is not exceeded by padding. -/
theorem length_outRevText_le (buf : List Byte) (width : Word) (flags : Flags) :
    (outRevText buf width flags).length ≤ max width.toNat buf.length := by
  rw [outRevText]
  cases flags.left with
  | true =>
      simp only [Bool.not_true, Bool.false_and, Bool.false_eq_true, if_false, if_true,
        List.nil_append, List.length_append, List.length_reverse, List.length_replicate]
      omega
  | false =>
      cases flags.zeropad with
      | true => simp
      | false =>
          simp only [Bool.not_false, Bool.and_self, Bool.false_eq_true, if_false, if_true,
            List.append_nil, List.length_append, List.length_reverse, List.length_replicate]
          omega

/-- A field that is to be padded with zeros is not padded with spaces. -/
theorem outRevText_zero {buf : List Byte} (hleft : flags.left = false)
    (hzero : flags.zeropad = true) : outRevText buf width flags = buf.reverse := by
  rw [outRevText, if_neg (by simp [hzero]), if_neg (by simp [hleft]), List.nil_append,
    List.append_nil]

/-- Up to sixteen hexadecimal digits. -/
theorem length_numeral_hex (hroom : value < 2 ^ 64) (uppercase : Bool) :
    0 < (numeral 16 value uppercase).length ∧ (numeral 16 value uppercase).length ≤ 16 := by
  rw [length_numeral]
  exact ⟨Nat.length_toDigits_pos, (Nat.length_toDigits_le_iff (by decide) (by decide)).mpr hroom⟩

/-- The buffer of `%#x` when the digits and zeros do not fill the field. -/
theorem hashBuffer_of_ne {buf : List Byte} (hlen : buf.length + 2 ≤ printfNtoaBufferSize)
    (h : buf.length ≠ width.toNat) :
    pushChar (ascii '0') (hashLetter (hashTrim buf 16 0 width flags) 16 flags) =
      buf ++ (hexPrefix flags.uppercase).reverse := by
  rw [hashTrim_of_ne h, pushChar_hashLetter hlen]

/-- The buffer of `%#x` when they do. -/
theorem hashBuffer_of_eq {buf : List Byte} (hlen : buf.length ≤ printfNtoaBufferSize)
    (hprec : flags.precision = false) (hbuf : buf ≠ []) (h : buf.length = width.toNat) :
    pushChar (ascii '0') (hashLetter (hashTrim buf 16 0 width flags) 16 flags) =
      buf.dropLast.dropLast ++ (hexPrefix flags.uppercase).reverse := by
  have hsize : printfNtoaBufferSize = 32 := rfl
  have hroom : buf.dropLast.dropLast.length + 2 ≤ printfNtoaBufferSize := by
    rw [List.length_dropLast, List.length_dropLast]
    omega
  rw [hashTrim_of_eq hprec hbuf h, pushChar_hashLetter hroom]

/-- Taking back a zero. -/
theorem dropLast_append_replicate (l : List Byte) (n : ℕ) (c : Byte) :
    (l ++ List.replicate (n + 1) c).dropLast = l ++ List.replicate n c := by
  rw [List.replicate_succ', ← List.append_assoc, List.dropLast_concat]

/-- `%#x` is right when the digits leave room for the prefix. -/
theorem ntoaText_hash (hvalue : 0 < value) (hroom : value < 2 ^ 64)
    (hhash : flags.hash = true) (hprec : flags.precision = false) (hplus : flags.plus = false)
    (hspace : flags.space = false)
    (hfull : (numeral 16 value flags.uppercase).length ≠ width.toNat)
    (hzeros : flags.left = false ∧ flags.zeropad = true →
      (numeral 16 value flags.uppercase).length + 1 ≠ width.toNat ∧
        width.toNat ≤ printfNtoaBufferSize) :
    ntoaText value false 16 0 width flags =
      fieldText (hexPrefix flags.uppercase) (numeral 16 value flags.uppercase) 0 width.toNat
        flags.left flags.zeropad := by
  have hsize : printfNtoaBufferSize = 32 := rfl
  obtain ⟨hpos, hlen⟩ := length_numeral_hex hroom flags.uppercase
  rw [ntoaText, ntoaBuffer_hash width hvalue (hroom.trans (by decide)) hhash hprec hplus hspace,
    ntoaWidth_unsigned hplus hspace, fieldText]
  generalize numeral 16 value flags.uppercase = digits at *
  by_cases hzero : flags.left = false ∧ flags.zeropad = true
  · obtain ⟨hlast, hwidth⟩ := hzeros hzero
    rw [outRevText_zero hzero.1 hzero.2, if_neg (by simp [hzero.1]), if_pos hzero.2, zeroCount,
      if_pos hzero]
    by_cases hlt : digits.length < width.toNat
    · -- two of the zeros are replaced
      obtain ⟨k, hk⟩ : ∃ k, width.toNat = digits.length + (k + 2) :=
        ⟨width.toNat - digits.length - 2, by omega⟩
      have hcount : min width.toNat printfNtoaBufferSize - digits.length = k + 1 + 1 := by omega
      have hlength : (digits.reverse ++ List.replicate (k + 1 + 1) (ascii '0')).length =
          width.toNat := by
        rw [List.length_append, List.length_reverse, List.length_replicate, hk]
      have hne : digits.reverse ++ List.replicate (k + 1 + 1) (ascii '0') ≠ [] :=
        List.length_pos_iff.mp (by omega)
      have hmissing : width.toNat - (digits.length + 1 + 1) = k := by omega
      rw [hcount, hashBuffer_of_eq (by omega) hprec hne hlength, dropLast_append_replicate,
        dropLast_append_replicate]
      simp [hexPrefix, hmissing]
    · -- the digits are longer than the field
      have hcount : min width.toNat printfNtoaBufferSize - digits.length = 0 := by omega
      have hmissing : width.toNat - (digits.length + 1 + 1) = 0 := by omega
      rw [hcount, List.replicate_zero, List.append_nil,
        hashBuffer_of_ne (by rw [List.length_reverse]; omega) (by rwa [List.length_reverse])]
      simp [hexPrefix, hmissing]
  · rw [zeroCount, if_neg hzero, List.replicate_zero, List.append_nil,
      hashBuffer_of_ne (by rw [List.length_reverse]; omega) (by rwa [List.length_reverse]),
      outRevText]
    cases hleft : flags.left with
    | true => simp [hexPrefix]
    | false =>
        have hnozero : flags.zeropad = false := by simpa [hleft] using hzero
        simp [hexPrefix, hnozero]

/-- Otherwise the text is too short. -/
theorem length_ntoaText_hash (width : Word) (hvalue : 0 < value) (hroom : value < 2 ^ 64)
    (hhash : flags.hash = true) (hprec : flags.precision = false) (hplus : flags.plus = false)
    (hspace : flags.space = false)
    (h : (numeral 16 value flags.uppercase).length = width.toNat ∨
      flags.left = false ∧ flags.zeropad = true ∧
        ((numeral 16 value flags.uppercase).length + 1 = width.toNat ∨
          printfNtoaBufferSize < width.toNat)) :
    (ntoaText value false 16 0 width flags).length <
      max width.toNat (2 + (numeral 16 value flags.uppercase).length) := by
  have hsize : printfNtoaBufferSize = 32 := rfl
  obtain ⟨hpos, hlen⟩ := length_numeral_hex hroom flags.uppercase
  have hbuffer := length_ntoaBuffer_le value false 16 0 width flags
  have hpadded := length_outRevText_le (ntoaBuffer value false 16 0 width flags) width flags
  rw [ntoaText, ntoaWidth_unsigned hplus hspace]
  have heq := ntoaBuffer_hash width hvalue (hroom.trans (by decide)) hhash hprec hplus
    hspace
  generalize ntoaBuffer value false 16 0 width flags = buf at *
  generalize numeral 16 value flags.uppercase = digits at *
  -- a filled field has room for the prefix, but not for all digits
  have hfilled (n : ℕ) (hw : digits.length + n = width.toNat) (hn : n ≤ 1)
      (hcount : zeroCount digits width flags = n) : buf.length ≤ width.toNat - 2 + 2 := by
    have hlength : (digits.reverse ++ List.replicate n (ascii '0')).length = width.toNat := by
      rw [List.length_append, List.length_reverse, List.length_replicate, hw]
    have hne : digits.reverse ++ List.replicate n (ascii '0') ≠ [] :=
      List.length_pos_iff.mp (by omega)
    rw [heq, hcount, hashBuffer_of_eq (by omega) hprec hne hlength, List.length_append,
      List.length_dropLast, List.length_dropLast, hlength, Nat.sub_sub]
    rfl
  rcases h with h | ⟨hleft, hzero, h | h⟩
  · have hcount : zeroCount digits width flags = 0 := by
      rw [zeroCount]
      split
      · omega
      · rfl
    have := hfilled 0 h (by omega) hcount
    omega
  · have hcount : zeroCount digits width flags = 1 := by
      rw [zeroCount, if_pos ⟨hleft, hzero⟩]
      omega
    have := hfilled 1 h (by omega) hcount
    omega
  · rw [outRevText_zero hleft hzero, List.length_reverse]
    omega

/-- **`%#x` is right exactly when** the digits do not fill the field: neither up to its last place,
nor, when it is padded with zeros, up to the last but one. Otherwise the prefix replaces digits.
Besides, the zeros must leave room in the buffer. -/
theorem ntoaText_hash_iff (hvalue : 0 < value) (hroom : value < 2 ^ 64)
    (hhash : flags.hash = true) (hprec : flags.precision = false) (hplus : flags.plus = false)
    (hspace : flags.space = false) :
    ntoaText value false 16 0 width flags =
        fieldText (hexPrefix flags.uppercase) (numeral 16 value flags.uppercase) 0 width.toNat
          flags.left flags.zeropad ↔
      (numeral 16 value flags.uppercase).length ≠ width.toNat ∧
        (flags.left = false ∧ flags.zeropad = true →
          (numeral 16 value flags.uppercase).length + 1 ≠ width.toNat ∧
            width.toNat ≤ printfNtoaBufferSize) := by
  constructor
  · intro htext
    have hfield := congrArg List.length htext
    rw [length_fieldText, Nat.zero_max] at hfield
    have hshort := mt (length_ntoaText_hash width hvalue hroom hhash hprec hplus hspace)
      (by rw [hfield]; exact Nat.lt_irrefl _)
    rw [not_or] at hshort
    refine ⟨hshort.1, fun ⟨hleft, hzero⟩ => ?_⟩
    simp only [hleft, hzero, true_and, not_or, not_lt] at hshort
    exact hshort.2
  · rintro ⟨hfull, hzeros⟩
    exact ntoaText_hash hvalue hroom hhash hprec hplus hspace hfull hzeros

/-- 0x12 in two places: the digits are lost. -/
theorem ntoaText_hash_iff_two :
    ntoaText 0x12 false 16 0 2 { hash := true } ≠ [ascii '0', ascii 'x', ascii '1', ascii '2'] :=
  fun h => ((ntoaText_hash_iff (by decide) (by decide) rfl rfl rfl rfl).mp h).1 rfl

end Hash

end Storm
