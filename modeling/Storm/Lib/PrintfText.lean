import Storm.Lib.Printf

/-! # The text of a call of `printf`

What the functions of `printf.c` write does not depend on the output function: each of them emits a
text, character by character, whatever the output function does with it (`Writes`). For `_vsnprintf`
this gives one text for all functions of `printf.h` (`vsnprintf_eq`): `printf_` and `fctprintf` hand
it on, `sprintf_` stores it, and `snprintf_` stores as much of it as fits in front of a terminator
(`snprintf_eq`). -/

namespace Storm

open ByteMemory

section Emit

variable {σ : Type} {out : Out σ} {o : σ × Word}

@[simp] theorem emitAll_nil : emitAll out [] o = o := rfl

@[simp] theorem emitAll_cons (c : Byte) (cs : List Byte) :
    emitAll out (c :: cs) o = emitAll out cs (emit out c o) := rfl

theorem emitAll_append (cs ds : List Byte) :
    emitAll out (cs ++ ds) o = emitAll out ds (emitAll out cs o) := List.foldl_append

theorem emitAll_singleton (c : Byte) : emitAll out [c] o = emit out c o := rfl

/-- `idx` counts the characters. -/
theorem emitAll_snd (cs : List Byte) :
    (emitAll out cs o).2 = o.2 + BitVec.ofNat 32 cs.length := by
  induction cs generalizing o with
  | nil => simp
  | cons c cs ih =>
      rw [emitAll_cons, ih, emit, List.length_cons, BitVec.ofNat_add]
      bv_omega

/-- The loop of `_out_rev` that pads behind the text adds what is missing to `width`. -/
theorem padBehind_eq {startIdx width : Word} {n : ℕ}
    (hn : width.toNat - (o.2 - startIdx).toNat ≤ n) :
    padBehind out startIdx width n o =
      emitAll out (List.replicate (width.toNat - (o.2 - startIdx).toNat) (ascii ' ')) o := by
  induction n generalizing o with
  | zero =>
      rw [Nat.le_zero.mp hn]
      rfl
  | succ n ih =>
      rw [padBehind]
      by_cases hlt : o.2 - startIdx < width
      · have hnext : ((emit out (ascii ' ') o).2 - startIdx).toNat = (o.2 - startIdx).toNat + 1 := by
          rw [emit]
          bv_omega
        have hsucc : width.toNat - (o.2 - startIdx).toNat =
            (width.toNat - ((emit out (ascii ' ') o).2 - startIdx).toNat) + 1 := by
          rw [hnext]
          bv_omega
        rw [if_pos hlt, ih (by omega), hsucc, List.replicate_succ, emitAll_cons]
      · have hzero : width.toNat - (o.2 - startIdx).toNat = 0 := by bv_omega
        rw [if_neg hlt, hzero, List.replicate_zero, emitAll_nil]

end Emit

/-! ## The text of a number -/

/-- What `_out_rev` writes. -/
def outRevText (buf : List Byte) (width : Word) (flags : Flags) : List Byte :=
  let spaces := List.replicate (width.toNat - buf.length) (ascii ' ')
  (if !flags.left && !flags.zeropad then spaces else []) ++ buf.reverse ++
    if flags.left then spaces else []

/-- **`_out_rev`** writes its text. -/
theorem outRev_eq {σ : Type} (out : Out σ) {buf : List Byte} (hbuf : buf.length < 2 ^ 32)
    (width : Word) (flags : Flags) (o : σ × Word) :
    outRev out buf width flags o = emitAll out (outRevText buf width flags) o := by
  rw [outRev, outRevText]
  cases hleft : flags.left with
  | false =>
      cases hzero : flags.zeropad with
      | false => simp [emitAll_append]
      | true => simp
  | true =>
      -- `idx - start_idx` is the number of characters of `buf`
      have hidx : ((emitAll out buf.reverse o).2 - o.2).toNat = buf.length := by
        rw [emitAll_snd, List.length_reverse]
        bv_omega
      simp only [Bool.not_true, Bool.false_and, Bool.false_eq_true, if_false, if_true,
        List.nil_append, emitAll_append]
      rw [padBehind_eq (by omega), hidx]

/-- The digits of a number. -/
theorem length_ntoaDigits_le (base : ℕ) (uppercase : Bool) (room value : ℕ) :
    (ntoaDigits base uppercase room value).length ≤ room := by
  induction room generalizing value with
  | zero => rfl
  | succ room ih =>
      rw [ntoaDigits, List.length_cons]
      split
      · exact Nat.succ_le_succ (ih _)
      · simp

/-- Zeros are added as far as there is room. -/
theorem length_zerosTo (n : Word) (buf : List Byte) :
    (zerosTo n buf).length = max buf.length (min n.toNat printfNtoaBufferSize) := by
  rw [zerosTo, List.length_append, List.length_replicate]
  omega

theorem length_pushChar_le {buf : List Byte} (c : Byte) (h : buf.length ≤ printfNtoaBufferSize) :
    (pushChar c buf).length ≤ printfNtoaBufferSize := by
  rw [pushChar]
  split
  · rw [List.length_append, List.length_singleton]
    omega
  · exact h

section Buffer

variable {buf : List Byte} {base prec width : Word} {flags : Flags} {negative : Bool}

theorem length_ntoaZeros_le (h : buf.length ≤ printfNtoaBufferSize) :
    (ntoaZeros buf prec width flags).length ≤ printfNtoaBufferSize := by
  rw [ntoaZeros]
  split
  · exact h
  · dsimp only
    split
    · rw [length_zerosTo, length_zerosTo]
      omega
    · rw [length_zerosTo]
      omega

theorem length_hashTrim_le : (hashTrim buf base prec width flags).length ≤ buf.length := by
  rw [hashTrim]
  split
  · split
    · rw [List.length_dropLast, List.length_dropLast]
      omega
    · rw [List.length_dropLast]
      omega
  · exact le_rfl

theorem length_hashLetter_le (h : buf.length ≤ printfNtoaBufferSize) :
    (hashLetter buf base flags).length ≤ printfNtoaBufferSize := by
  rw [hashLetter]
  split
  · exact length_pushChar_le _ h
  · split
    · exact length_pushChar_le _ h
    · split
      · exact length_pushChar_le _ h
      · exact h

theorem length_ntoaHash_le (h : buf.length ≤ printfNtoaBufferSize) :
    (ntoaHash buf base prec width flags).length ≤ printfNtoaBufferSize := by
  rw [ntoaHash]
  split
  · exact length_pushChar_le _ (length_hashLetter_le (length_hashTrim_le.trans h))
  · exact h

theorem length_ntoaSign_le (h : buf.length ≤ printfNtoaBufferSize) :
    (ntoaSign buf negative flags).length ≤ printfNtoaBufferSize := by
  rw [ntoaSign]
  split
  · exact length_pushChar_le _ h
  · split
    · exact length_pushChar_le _ h
    · split
      · exact length_pushChar_le _ h
      · exact h

end Buffer

/-- The buffer of `_ntoa_long`, when `_out_rev` is called. -/
def ntoaBuffer (value : ℕ) (negative : Bool) (base prec width : Word) (flags : Flags) :
    List Byte :=
  let flags := { flags with hash := flags.hash && value ≠ 0 }
  let digits :=
    if !flags.precision || value ≠ 0 then
      ntoaDigits base.toNat flags.uppercase printfNtoaBufferSize value
    else []
  let width := ntoaWidth negative width flags
  ntoaSign (ntoaHash (ntoaZeros digits prec width flags) base prec width flags) negative flags

/-- **The conversion buffer does not overflow.** -/
theorem length_ntoaBuffer_le (value : ℕ) (negative : Bool) (base prec width : Word)
    (flags : Flags) :
    (ntoaBuffer value negative base prec width flags).length ≤ printfNtoaBufferSize := by
  rw [ntoaBuffer]
  refine length_ntoaSign_le (length_ntoaHash_le (length_ntoaZeros_le ?_))
  split
  · exact length_ntoaDigits_le _ _ _ _
  · exact Nat.zero_le _

/-- What `_ntoa_long` writes. -/
def ntoaText (value : ℕ) (negative : Bool) (base prec width : Word) (flags : Flags) : List Byte :=
  outRevText (ntoaBuffer value negative base prec width flags) (ntoaWidth negative width flags) flags

/-- **`_ntoa_long`** writes its text. -/
theorem ntoa_eq {σ : Type} (out : Out σ) (value : ℕ) (negative : Bool) (base prec width : Word)
    (flags : Flags) (o : σ × Word) :
    ntoa out value negative base prec width flags o =
      emitAll out (ntoaText value negative base prec width flags) o := by
  have hlen : (ntoaBuffer value negative base prec width flags).length < 2 ^ 32 :=
    Nat.lt_of_le_of_lt (length_ntoaBuffer_le ..) (by decide)
  rw [ntoaText, ← outRev_eq out hlen]
  rfl

/-! ## The text of a conversion -/

/-- **A function that writes** emits the same text through every output function, or fails with every
one in the same way. Besides, it may return something. -/
def Writes {α : Type} (f : (σ : Type) → Out σ → σ × Word → Except Fault ((σ × Word) × α)) : Prop :=
  ∃ r : Except Fault (List Byte × α), ∀ (σ : Type) (out : Out σ) (o : σ × Word),
    f σ out o = r.map fun p => (emitAll out p.1 o, p.2)

namespace Writes

variable {α β : Type}

/-- A function that fails. -/
theorem error (e : Fault) : Writes (α := α) fun _ _ _ => .error e := ⟨.error e, fun _ _ _ => rfl⟩

/-- A function that emits a text. -/
theorem text (t : List Byte) (a : α) : Writes fun _ out o => .ok (emitAll out t o, a) :=
  ⟨.ok (t, a), fun _ _ _ => rfl⟩

/-- What happens before anything is written. -/
theorem bind {x : Except Fault β}
    {f : β → (σ : Type) → Out σ → σ × Word → Except Fault ((σ × Word) × α)}
    (h : ∀ b, Writes (f b)) : Writes fun σ out o => x >>= fun b => f b σ out o := by
  cases x with
  | error e => exact error e
  | ok b => exact h b

/-- One function after the other. -/
theorem seq {f : (σ : Type) → Out σ → σ × Word → Except Fault ((σ × Word) × β)}
    {g : β → (σ : Type) → Out σ → σ × Word → Except Fault ((σ × Word) × α)}
    (hf : Writes f) (hg : ∀ b, Writes (g b)) :
    Writes fun σ out o => f σ out o >>= fun p => g p.2 σ out p.1 := by
  obtain ⟨r, hr⟩ := hf
  cases r with
  | error e =>
      refine ⟨.error e, fun σ out o => ?_⟩
      simp only [hr]
      rfl
  | ok p =>
      obtain ⟨r', hr'⟩ := hg p.2
      refine ⟨r'.map fun q => (p.1 ++ q.1, q.2), fun σ out o => ?_⟩
      simp only [hr]
      refine (hr' σ out (emitAll out p.1 o)).trans ?_
      cases r' with
      | error e => rfl
      | ok q =>
          simp only [Except.map, emitAll_append]

end Writes

/-- The output function that collects a text. -/
def collect : Out (List Byte) := fun c _ s => s ++ [c]

/-- What is collected is what is emitted. -/
theorem emitAll_collect (t s : List Byte) (idx : Word) : (emitAll collect t (s, idx)).1 = s ++ t := by
  induction t generalizing s idx with
  | nil => simp
  | cons c t ih =>
      rw [emitAll_cons, emit, ih, collect, List.append_assoc]
      rfl

/-- The text that a function writes, and what it returns. -/
def textOf {α : Type} (f : (σ : Type) → Out σ → σ × Word → Except Fault ((σ × Word) × α)) :
    Except Fault (List Byte × α) :=
  (f (List Byte) collect ([], 0)).map fun p => (p.1.1, p.2)

/-- A function that writes does what its text says. -/
theorem Writes.eq_textOf {α : Type}
    {f : (σ : Type) → Out σ → σ × Word → Except Fault ((σ × Word) × α)} (h : Writes f) {σ : Type}
    (out : Out σ) (o : σ × Word) :
    f σ out o = (textOf f).map fun p => (emitAll out p.1 o, p.2) := by
  obtain ⟨r, hr⟩ := h
  rw [textOf, hr, hr]
  cases r with
  | error e => rfl
  | ok p => simp only [Except.map, emitAll_collect, List.nil_append]

section Conversions

variable (base width precision : Word) (flags : Flags) (va : List Arg)

theorem writes_convertSigned :
    Writes fun _ out o => convertSigned out base flags width precision va o := by
  simp only [convertSigned, ntoaLong, ntoaLongLong, ntoa_eq]
  cases flags.longLong with
  | true => exact .bind fun _ => .text _ _
  | false =>
      cases flags.long with
      | true => exact .bind fun _ => .text _ _
      | false => exact .bind fun _ => .text _ _

theorem writes_convertUnsigned :
    Writes fun _ out o => convertUnsigned out base flags width precision va o := by
  simp only [convertUnsigned, ntoaLong, ntoaLongLong, ntoa_eq]
  cases flags.longLong with
  | true => exact .bind fun _ => .text _ _
  | false =>
      cases flags.long with
      | true => exact .bind fun _ => .text _ _
      | false => exact .bind fun _ => .text _ _

theorem writes_convertPointer : Writes fun _ out o => convertPointer out flags precision va o := by
  simp only [convertPointer, ntoaLong, ntoa_eq]
  exact .bind fun _ => .text _ _

theorem writes_convertChar : Writes fun _ out o => convertChar out flags width va o := by
  simp only [convertChar, ← emitAll_singleton]
  cases flags.left with
  | true =>
      simp only [Bool.not_true, Bool.false_eq_true, if_false, if_true, ← emitAll_append]
      exact .bind fun _ => .text _ _
  | false =>
      simp only [Bool.not_false, Bool.false_eq_true, if_false, if_true, ← emitAll_append]
      exact .bind fun _ => .text _ _

/-- What `%s` writes of a string. -/
theorem writes_outString (p : List Byte) :
    Writes fun _ out o => (outString out flags p precision o).map fun o => (o, ()) := by
  induction p generalizing precision with
  | nil => exact .error .string
  | cons c p ih =>
      by_cases hc : c ≠ 0 ∧ (!flags.precision ∨ precision ≠ 0)
      · simp only [outString, if_pos hc, ← emitAll_singleton]
        obtain ⟨r, hr⟩ := ih (precision - 1)
        refine ⟨r.map fun q => (c :: q.1, q.2), fun σ out o => (hr σ out _).trans ?_⟩
        cases r with
        | error e => rfl
        | ok q => rfl
      · simp only [outString, if_neg hc]
        exact .text [] ()

theorem writes_convertString :
    Writes fun _ out o => convertString out flags width precision va o := by
  simp only [convertString]
  refine .bind fun p => .bind fun l => ?_
  generalize (if flags.precision = true then if l < precision then l else precision else l) = l
  generalize List.replicate (width.toNat - l.toNat) (ascii ' ') = spaces
  have hpre : Writes fun _ out o =>
      .ok (if !flags.left then emitAll out spaces o else o, ()) := by
    cases flags.left with
    | true => exact .text [] ()
    | false => exact .text spaces ()
  have hpost : Writes fun _ out o =>
      .ok (if flags.left then emitAll out spaces o else o, p.2) := by
    cases flags.left with
    | true => exact .text spaces p.2
    | false => exact .text [] p.2
  obtain ⟨r, hr⟩ := (hpre.seq fun _ => writes_outString precision flags p.1).seq fun _ => hpost
  refine ⟨r, fun σ out o => Eq.trans ?_ (hr σ out o)⟩
  simp only [Except.map, bind, Except.bind]
  cases outString out flags p.1 precision (if !flags.left then emitAll out spaces o else o) with
  | error e => rfl
  | ok o => rfl

end Conversions

section Call

variable [FloatText]

theorem writes_convertFloat (c : Byte) (flags : Flags) (width precision : Word) (va : List Arg) :
    Writes fun _ out o => convertFloat out c flags width precision va o := by
  simp only [convertFloat]
  refine .bind fun p => ?_
  generalize (if c = ascii 'f' ∨ c = ascii 'F' then FloatText.ftoa p.1 precision width flags
    else FloatText.etoa p.1 precision width flags) = text
  cases text with
  | none => exact .error .float
  | some t => exact .text t p.2

/-- **A conversion** writes a text. -/
theorem writes_convert (d : Directive) (c : Byte) (va : List Arg) :
    Writes fun _ out o => convert out d c va o := by
  simp only [convert]
  split_ifs
  · exact writes_convertSigned ..
  · exact writes_convertUnsigned ..
  · exact writes_convertFloat ..
  · exact writes_convertChar ..
  · exact writes_convertString ..
  · exact writes_convertPointer ..
  · exact .text [ascii '%'] va
  · exact .text [c] va

/-! ## The text of a call -/

/-- One turn of the loop of `_vsnprintf`. -/
theorem vsnprintfLoop_cons {σ : Type} (out : Out σ) (n : ℕ) (c : Byte) (format : List Byte)
    (va : List Arg) (o : σ × Word) :
    vsnprintfLoop out (n + 1) (c :: format) va o =
      if c = 0 then .ok o
      else if c ≠ ascii '%' then vsnprintfLoop out n format va (emit out c o)
      else parseDirective format va >>= fun p => current p.2.1 >>= fun c' =>
        convert out p.1 c' p.2.2 o >>= fun q => vsnprintfLoop out n p.2.1.tail q.2 q.1 := rfl

/-- **The loop of `_vsnprintf`** writes a text. -/
theorem writes_vsnprintfLoop (n : ℕ) (format : List Byte) (va : List Arg) :
    Writes fun _ out o => (vsnprintfLoop out n format va o).map fun o => (o, ()) := by
  induction n generalizing format va with
  | zero => exact .error .format
  | succ n ih =>
      -- the turns that follow, after a turn that has written a text
      have hnext : ∀ (f : (σ : Type) → Out σ → σ × Word → Except Fault ((σ × Word) × List Arg))
          (rest : List Byte), Writes f → Writes fun σ out o =>
            (f σ out o >>= fun p => vsnprintfLoop out n rest p.2 p.1).map fun o => (o, ()) := by
        intro f rest hf
        obtain ⟨r, hr⟩ := hf.seq fun va' => ih rest va'
        refine ⟨r, fun σ out o => Eq.trans ?_ (hr σ out o)⟩
        simp only [bind, Except.bind]
        cases f σ out o with
        | error e => rfl
        | ok p => rfl
      cases format with
      | nil => exact .error .format
      | cons c format =>
          simp only [vsnprintfLoop_cons]
          by_cases hzero : c = 0
          · simp only [if_pos hzero]
            exact .text [] ()
          · by_cases hpercent : c ≠ ascii '%'
            · simp only [if_neg hzero, if_pos hpercent]
              exact hnext _ format (.text [c] va)
            · simp only [if_neg hzero, if_neg hpercent]
              cases parseDirective format va with
              | error e => exact .error e
              | ok p =>
                  cases hcur : current p.2.1 with
                  | error e =>
                      refine ⟨.error e, fun σ out o => ?_⟩
                      simp only [bind, Except.bind, hcur]
                      rfl
                  | ok c' =>
                      obtain ⟨r, hr⟩ := hnext _ p.2.1.tail (writes_convert p.1 c' p.2.2)
                      refine ⟨r, fun σ out o => Eq.trans ?_ (hr σ out o)⟩
                      simp only [bind, Except.bind, hcur]

/-- The text that a format and its arguments stand for. -/
def formatText (format : List Byte) (va : List Arg) : Except Fault (List Byte) :=
  (vsnprintfLoop collect format.length format va ([], 0)).map fun o => o.1

/-- The end of `_vsnprintf`: the terminator, behind the text or at the last place of the buffer. -/
def terminate {σ : Type} (out : Out σ) (maxlen : Word) (o : σ × Word) : σ × Word :=
  (out 0 (if o.2 < maxlen then o.2 else maxlen - 1) o.1, o.2)

/-- **`_vsnprintf` writes one text**, whatever the output function, and terminates it. -/
theorem vsnprintf_eq {σ : Type} (out : Out σ) (maxlen : Word) (format : List Byte) (va : List Arg)
    (s : σ) :
    vsnprintf out maxlen format va s =
      (formatText format va).map fun t => terminate out maxlen (emitAll out t (s, 0)) := by
  have hloop := (writes_vsnprintfLoop format.length format va).eq_textOf out (s, 0)
  rw [textOf] at hloop
  rw [vsnprintf, formatText]
  cases hcollect : vsnprintfLoop collect format.length format va ([], 0) with
  | error e =>
      rw [hcollect] at hloop
      cases hout : vsnprintfLoop out format.length format va (s, 0) with
      | error e' =>
          rw [hout] at hloop
          obtain rfl : e' = e := Except.error.inj hloop
          rfl
      | ok o =>
          rw [hout] at hloop
          cases hloop
  | ok t =>
      rw [hcollect] at hloop
      cases hout : vsnprintfLoop out format.length format va (s, 0) with
      | error e' =>
          rw [hout] at hloop
          cases hloop
      | ok o =>
          rw [hout] at hloop
          obtain rfl : o = emitAll out t.1 (s, 0) := (Prod.mk.inj (Except.ok.inj hloop)).1
          rfl

end Call

/-! ## The functions of `printf.h` -/

/-- `_out_char` and `_out_fct` hand on the characters other than NUL. -/
theorem emitAll_outChar {σ : Type} (putchar : Byte → σ → σ) (t : List Byte) (o : σ × Word) :
    (emitAll (outChar putchar) t o).1 =
      (t.filter (· ≠ 0)).foldl (fun s c => putchar c s) o.1 := by
  induction t generalizing o with
  | nil => rfl
  | cons c t ih =>
      rw [emitAll_cons, ih, emit, outChar]
      by_cases hc : c = 0
      · rw [List.filter_cons_of_neg (by simpa using hc), if_neg (not_not.mpr hc)]
      · rw [List.filter_cons_of_pos (by simpa using hc), if_pos hc, List.foldl_cons]

/-- `_out_null` leaves nothing behind. -/
theorem emitAll_outNull {σ : Type} (t : List Byte) (o : σ × Word) :
    (emitAll outNull t o).1 = o.1 := by
  induction t generalizing o with
  | nil => rfl
  | cons c t ih => rw [emitAll_cons, ih, emit, outNull]

/-- `_out_buffer` stores the characters for which there is room. -/
theorem emitAll_outBuffer (buffer maxlen : Word) {t : List Byte} (ht : t.length < 2 ^ 32)
    (m : Memory) :
    (emitAll (outBuffer buffer maxlen) t (m, 0)).1 =
      storeBytes buffer (t.take maxlen.toNat) m := by
  induction t using List.reverseRecOn with
  | nil => simp
  | append_singleton t c ih =>
      rw [List.length_append, List.length_singleton] at ht
      rw [emitAll_append, emitAll_singleton, emit, ih (by omega), emitAll_snd, outBuffer]
      have hidx : ((0 : Word) + BitVec.ofNat 32 t.length).toNat = t.length := by bv_omega
      dsimp only
      by_cases hroom : t.length < maxlen.toNat
      · rw [if_pos (by rw [BitVec.lt_def, hidx]; exact hroom), List.take_of_length_le (by omega),
          List.take_of_length_le (by rw [List.length_append, List.length_singleton]; omega),
          storeBytes_concat (by omega)]
        congr 1
        bv_omega
      · rw [if_neg (by rw [BitVec.lt_def, hidx]; exact hroom),
          List.take_append_of_le_length (by omega)]

/-- **`snprintf_` truncates**: as much of the text as fits is stored, and a terminator behind it;
nothing else in the memory changes. -/
theorem terminate_outBuffer (buffer : Word) {maxlen : Word} (hpos : maxlen ≠ 0) {t : List Byte}
    (ht : t.length < 2 ^ 32) (m : Memory) :
    (terminate (outBuffer buffer maxlen) maxlen (emitAll (outBuffer buffer maxlen) t (m, 0))).1 =
      storeBytes buffer (t.take (maxlen.toNat - 1) ++ [0]) m := by
  have hidx : (emitAll (outBuffer buffer maxlen) t (m, 0)).2.toNat = t.length := by
    rw [emitAll_snd]
    bv_omega
  have hmax : 0 < maxlen.toNat := Nat.pos_of_ne_zero fun h => hpos (BitVec.eq_of_toNat_eq h)
  have hlen : (t.take (maxlen.toNat - 1)).length < 2 ^ 32 :=
    Nat.lt_of_le_of_lt (List.length_take_le' _ _) ht
  rw [terminate, emitAll_outBuffer buffer maxlen ht, storeBytes_concat hlen]
  generalize (emitAll (outBuffer buffer maxlen) t (m, 0)).2 = idx at hidx
  by_cases hroom : t.length < maxlen.toNat
  · -- the whole text, and the terminator behind it
    have hlt : idx < maxlen := by rw [BitVec.lt_def, hidx]; exact hroom
    rw [if_pos hlt, outBuffer, if_pos hlt, List.take_of_length_le (by omega),
      List.take_of_length_le (by omega), ← hidx, BitVec.ofNat_toNat, BitVec.setWidth_eq]
  · -- the last character that was stored is replaced by the terminator
    have hlt : ¬ idx < maxlen := by rw [BitVec.lt_def, hidx]; exact hroom
    have hlast : maxlen - 1 < maxlen := by bv_omega
    rw [if_neg hlt, outBuffer, if_pos hlast]
    obtain ⟨c, hc⟩ : ∃ c, t.take maxlen.toNat = t.take (maxlen.toNat - 1) ++ [c] := by
      obtain ⟨k, hk⟩ := Nat.exists_eq_add_one.mpr hmax
      rw [hk, Nat.add_sub_cancel]
      exact ⟨t[k], List.take_succ_eq_append_getElem (by omega)⟩
    have hplace : BitVec.ofNat 32 (t.take (maxlen.toNat - 1)).length = maxlen - 1 := by
      rw [List.length_take]
      bv_omega
    rw [hc, storeBytes_concat hlen, hplace, Function.update_idem]

/-- The number of characters is returned. -/
theorem terminate_snd {σ : Type} (out : Out σ) (maxlen : Word) (t : List Byte) (s : σ) :
    (terminate out maxlen (emitAll out t (s, 0))).2 = BitVec.ofNat 32 t.length := by
  rw [terminate, emitAll_snd]
  bv_omega

/-- **`printf_`** puts the characters of the text other than NUL. -/
theorem printf_eq [FloatText] {σ : Type} (put : Byte → σ → σ) (format : List Byte) (va : List Arg)
    (s : σ) :
    printf put format va s = (formatText format va).map fun t =>
      ((t.filter (· ≠ 0)).foldl (fun s c => put c s) s, BitVec.ofNat 32 t.length) := by
  rw [printf, vsnprintf_eq]
  cases formatText format va with
  | error e => rfl
  | ok t =>
      refine congrArg Except.ok (Prod.ext ?_ (terminate_snd ..))
      dsimp only
      rw [terminate, ← emitAll_outChar put t (s, 0)]
      rfl

/-- **One text for all functions of `printf.h`.** For any format and arguments, whatever the texts
of floating point numbers are, either all of them fail, or there is one text: `printf_` puts and
`fctprintf` hands on its characters other than NUL, `snprintf_` stores what fits of it in front of
a terminator, and nothing for a `NULL` buffer or a buffer without room; and all of them return its
length. -/
theorem printf_one_text [FloatText] (format : List Byte) (va : List Arg) :
    (∃ e, (∀ (σ : Type) (put : Byte → σ → σ) (s : σ), printf put format va s = .error e ∧
        fctprintf put format va s = .error e) ∧
      ∀ buffer count m, snprintf buffer count format va m = .error e) ∨
    ∃ t : List Byte,
      (∀ (σ : Type) (put : Byte → σ → σ) (s : σ),
        printf put format va s = .ok ((t.filter (· ≠ 0)).foldl (fun s c => put c s) s,
          BitVec.ofNat 32 t.length) ∧
        fctprintf put format va s = .ok ((t.filter (· ≠ 0)).foldl (fun s c => put c s) s,
          BitVec.ofNat 32 t.length)) ∧
      (t.length < 2 ^ 32 → ∀ buffer count m,
        snprintf buffer count format va m =
          .ok (if buffer = null ∨ count = 0 then m
            else storeBytes buffer (t.take (count.toNat - 1) ++ [0]) m,
            BitVec.ofNat 32 t.length)) := by
  have hfct : ∀ (σ : Type) (put : Byte → σ → σ) (s : σ),
      fctprintf put format va s = printf put format va s := fun _ _ _ => rfl
  cases htext : formatText format va with
  | error e =>
      refine Or.inl ⟨e, fun σ put s => ?_, fun buffer count m => ?_⟩
      · rw [hfct, printf_eq, htext]
        exact ⟨rfl, rfl⟩
      · rw [snprintf, vsnprintf_eq, htext]
        rfl
  | ok t =>
      refine Or.inr ⟨t, fun σ put s => ?_, fun ht buffer count m => ?_⟩
      · rw [hfct, printf_eq, htext]
        exact ⟨rfl, rfl⟩
      · rw [snprintf, vsnprintf_eq, htext]
        refine congrArg Except.ok (Prod.ext ?_ (terminate_snd ..))
        dsimp only
        by_cases hnull : buffer = null
        · rw [if_pos hnull, if_pos (Or.inl hnull), terminate, outNull]
          exact emitAll_outNull t (m, 0)
        · by_cases hcount : count = 0
          · rw [if_neg hnull, if_pos (Or.inr hcount), hcount, terminate,
              emitAll_outBuffer _ _ ht]
            simp [outBuffer]
          · rw [if_neg hnull, if_neg (not_or.mpr ⟨hnull, hcount⟩)]
            exact terminate_outBuffer buffer hcount ht m

end Storm
