import Storm.Lib.PrintfInteger

/-! # The language of formats

A format is a sequence of characters and conversions, `%[flags][width][.precision][length]specifier`
(`Piece`). `_vsnprintf` reads each of them as it is written and does its part of the output
(`vsnprintfLoop_bytes`).

Every format is of this kind, or is cut off within a conversion. Then the terminator is taken for the
specifier, and the code goes on behind it (`complete_or_cutOff`). -/

namespace Storm

open ByteMemory

/-! ## Syntax -/

/-- A flag character. -/
inductive Flag where
  | zeropad | left | plus | space | hash
  deriving DecidableEq, Repr

namespace Flag

/-- The character. -/
def byte : Flag → Byte
  | zeropad => ascii '0'
  | left => ascii '-'
  | plus => ascii '+'
  | space => ascii ' '
  | hash => ascii '#'

/-- What the character stands for. -/
def set (flags : Flags) : Flag → Flags
  | zeropad => { flags with zeropad := true }
  | left => { flags with left := true }
  | plus => { flags with plus := true }
  | space => { flags with space := true }
  | hash => { flags with hash := true }

/-- `c` is a flag character. -/
def Is (c : Byte) : Prop := ∃ f : Flag, f.byte = c

end Flag

/-- A width, or what follows the point of a precision. -/
inductive Amount where
  | none
  | number (digits : List Byte)
  | star
  deriving DecidableEq, Repr

/-- The value of decimal digits. -/
def decimal (digits : List Byte) : ℕ := digits.foldl (fun n d => n * 10 + (d - ascii '0').toNat) 0

namespace Amount

/-- How an amount is written. -/
def bytes : Amount → List Byte
  | none => []
  | number digits => digits
  | star => [ascii '*']

/-- An amount is written properly, and ends in front of `c`. -/
def EndsAt (c : Byte) : Amount → Prop
  | none => isDigit c = false ∧ c ≠ ascii '*'
  | number digits => digits ≠ [] ∧ (∀ d ∈ digits, isDigit d = true) ∧ isDigit c = false
  | star => True

/-- An amount as a width: a negative argument sets the `-` flag. -/
def width (flags : Flags) (va : List Arg) : Amount → Except Fault (Word × Flags × List Arg)
  | none => .ok (0, flags, va)
  | number digits => .ok (BitVec.ofNat 32 (decimal digits), flags, va)
  | star => (vaWord va).map fun p =>
      if p.1.slt 0 then (-p.1, { flags with left := true }, p.2) else (p.1, flags, p.2)

/-- An amount as a precision: a negative argument counts as zero. -/
def precision (va : List Arg) : Amount → Except Fault (Word × List Arg)
  | none => .ok (0, va)
  | number digits => .ok (BitVec.ofNat 32 (decimal digits), va)
  | star => (vaWord va).map fun p => (if (0 : Word).slt p.1 then p.1 else 0, p.2)

end Amount

/-- The length field. -/
inductive Length where
  | none | l | ll | h | hh | t | j | z
  deriving DecidableEq, Repr

namespace Length

/-- How a length field is written. -/
def bytes : Length → List Byte
  | none => []
  | l => [ascii 'l']
  | ll => [ascii 'l', ascii 'l']
  | h => [ascii 'h']
  | hh => [ascii 'h', ascii 'h']
  | t => [ascii 't']
  | j => [ascii 'j']
  | z => [ascii 'z']

/-- A length field ends in front of `c`. -/
def EndsAt (c : Byte) : Length → Prop
  | none => c ≠ ascii 'l' ∧ c ≠ ascii 'h' ∧ c ≠ ascii 't' ∧ c ≠ ascii 'j' ∧ c ≠ ascii 'z'
  | l => c ≠ ascii 'l'
  | h => c ≠ ascii 'h'
  | ll | hh | t | j | z => True

/-- What a length field stands for. -/
def set (flags : Flags) : Length → Flags
  | none => flags
  | l | t | z => { flags with long := true }
  | ll => { flags with long := true, longLong := true }
  | h => { flags with short := true }
  | hh => { flags with short := true, char := true }
  | j => { flags with longLong := true }

end Length

/-- The precision field: what follows the point, if there is one. -/
abbrev Precision := Option Amount

namespace Precision

/-- How a precision is written. -/
def bytes : Precision → List Byte
  | none => []
  | some a => ascii '.' :: a.bytes

/-- A precision is written properly, and ends in front of `c`. -/
def EndsAt (c : Byte) : Precision → Prop
  | none => c ≠ ascii '.'
  | some a => a.EndsAt c

/-- What a precision stands for. -/
def value (flags : Flags) (va : List Arg) : Precision → Except Fault (Word × Flags × List Arg)
  | none => .ok (0, flags, va)
  | some a => (a.precision va).map fun p => (p.1, { flags with precision := true }, p.2)

end Precision

/-- The first of some characters that are followed by `c`. -/
def first (cs : List Byte) (c : Byte) : Byte := cs.headD c

/-- **A conversion**: the fields, each of which ends where the next one begins, and the specifier. -/
structure Conversion where
  flags : List Flag
  width : Amount
  precision : Precision
  length : Length
  specifier : Byte
  flags_end : ¬ Flag.Is (first (width.bytes ++ (precision.bytes ++ length.bytes)) specifier)
  width_end : width.EndsAt (first (precision.bytes ++ length.bytes) specifier)
  precision_end : precision.EndsAt (first length.bytes specifier)
  length_end : length.EndsAt specifier

namespace Conversion

/-- How a conversion is written, behind the `%`. -/
def bytes (k : Conversion) : List Byte :=
  k.flags.map Flag.byte ++
    (k.width.bytes ++ (k.precision.bytes ++ (k.length.bytes ++ [k.specifier])))

/-- What the fields of a conversion stand for. -/
def directive (k : Conversion) (va : List Arg) : Except Fault (Directive × List Arg) := do
  let (width, flags, va) ← k.width.width (k.flags.foldl Flag.set {}) va
  let (precision, flags, va) ← k.precision.value flags va
  return (⟨k.length.set flags, width, precision⟩, va)

end Conversion

/-- A piece of a format. -/
inductive Piece where
  | literal (c : Byte) (h : c ≠ 0 ∧ c ≠ ascii '%')
  | conversion (k : Conversion)

/-- How a piece is written. -/
def Piece.bytes : Piece → List Byte
  | literal c _ => [c]
  | conversion k => ascii '%' :: k.bytes

/-- How a format is written. -/
def formatBytes (ps : List Piece) : List Byte := ps.flatMap Piece.bytes

/-- **The part of a piece in the output.** -/
def Piece.write [FloatText] {σ : Type} (out : Out σ) (va : List Arg) (o : σ × Word) :
    Piece → Except Fault ((σ × Word) × List Arg)
  | literal c _ => .ok (emit out c o, va)
  | conversion k => k.directive va >>= fun p => convert out p.1 k.specifier p.2 o

/-- The output of several pieces. -/
def writePieces [FloatText] {σ : Type} (out : Out σ) :
    List Piece → List Arg → σ × Word → Except Fault ((σ × Word) × List Arg)
  | [], va, o => .ok (o, va)
  | p :: ps, va, o => p.write out va o >>= fun q => writePieces out ps q.2 q.1

/-! ## Reading the fields -/

/-- The first character of a list, with the others behind it. -/
theorem exists_first_append (cs : List Byte) (c : Byte) (rest : List Byte) :
    ∃ rest', cs ++ c :: rest = first cs c :: rest' := by
  cases cs with
  | nil => exact ⟨rest, rfl⟩
  | cons b cs => exact ⟨cs ++ c :: rest, rfl⟩

/-- A character that is no flag character ends the flags. -/
theorem parseFlags_of_not {c : Byte} (hc : ¬ Flag.Is c) (rest : List Byte) (flags : Flags) :
    parseFlags (c :: rest) flags = .ok (flags, c :: rest) := by
  have hne (f : Flag) : c ≠ f.byte := fun h => hc ⟨f, h.symm⟩
  rw [parseFlags, if_neg (show c ≠ ascii '0' from hne .zeropad),
    if_neg (show c ≠ ascii '-' from hne .left), if_neg (show c ≠ ascii '+' from hne .plus),
    if_neg (show c ≠ ascii ' ' from hne .space), if_neg (show c ≠ ascii '#' from hne .hash)]
  rfl

/-- The flags are read. -/
theorem parseFlags_append (fs : List Flag) {c : Byte} (hc : ¬ Flag.Is c) (rest : List Byte)
    (flags : Flags) :
    parseFlags (fs.map Flag.byte ++ c :: rest) flags = .ok (fs.foldl Flag.set flags, c :: rest) := by
  induction fs generalizing flags with
  | nil => exact parseFlags_of_not hc rest flags
  | cons f fs ih =>
      rw [List.map_cons, List.cons_append, parseFlags, List.foldl_cons, ← ih]
      cases f with
      | zeropad => rfl
      | left => rfl
      | plus => rfl
      | space => rfl
      | hash => rfl

/-- The value of digits, as `_atoi` computes it. -/
theorem foldl_atoi (ds : List Byte) (n : ℕ) :
    ds.foldl (fun i d => i * 10 + (d - ascii '0').setWidth 32) (BitVec.ofNat 32 n) =
      BitVec.ofNat 32 (ds.foldl (fun n d => n * 10 + (d - ascii '0').toNat) n) := by
  induction ds generalizing n with
  | nil => rfl
  | cons d ds ih =>
      rw [List.foldl_cons, List.foldl_cons, ← ih, BitVec.ofNat_add, BitVec.ofNat_mul,
        BitVec.ofNat_toNat]
      rfl

/-- `_atoi` reads a number. -/
theorem atoi_number {ds : List Byte} (hds : ∀ d ∈ ds, isDigit d = true) {c : Byte}
    (hc : isDigit c = false) (rest : List Byte) :
    atoi (ds ++ c :: rest) 0 = .ok (BitVec.ofNat 32 (decimal ds), c :: rest) := by
  rw [atoi_append hds hc, decimal, ← foldl_atoi]
  rfl

/-- The width is read. -/
theorem parseWidth_append {a : Amount} {c : Byte} (h : a.EndsAt c) (rest : List Byte)
    (va : List Arg) (flags : Flags) :
    parseWidth (a.bytes ++ c :: rest) va flags =
      (a.width flags va).map fun p => (p.1, p.2.1, c :: rest, p.2.2) := by
  cases a with
  | none =>
      simp only [parseWidth, Amount.bytes, List.nil_append, current, bind, Except.bind, pure,
        Except.pure, h.1, if_neg h.2]
      rfl
  | number digits =>
      obtain ⟨hne, hds, hc⟩ := h
      obtain ⟨d, ds, rfl⟩ := List.exists_cons_of_ne_nil hne
      have hd := hds d List.mem_cons_self
      have hatoi := atoi_number hds hc rest
      rw [List.cons_append] at hatoi
      simp only [parseWidth, Amount.bytes, List.cons_append, current, bind, Except.bind, pure,
        Except.pure, hd, if_true, hatoi]
      rfl
  | star =>
      have hdigit : isDigit (ascii '*') = false := by decide
      simp only [parseWidth, Amount.bytes, List.singleton_append, current, bind, Except.bind, pure,
        Except.pure, hdigit, Bool.false_eq_true, if_false, if_true, List.tail_cons, Amount.width]
      cases vaWord va with
      | error e => rfl
      | ok p =>
          simp only [Except.map]
          split <;> rfl

/-- The precision is read. -/
theorem parsePrecision_append {a : Precision} {c : Byte} (h : a.EndsAt c) (rest : List Byte)
    (va : List Arg) (flags : Flags) :
    parsePrecision (a.bytes ++ c :: rest) va flags =
      (a.value flags va).map fun p => (p.1, p.2.1, c :: rest, p.2.2) := by
  cases a with
  | none =>
      have hc : c ≠ ascii '.' := h
      simp only [parsePrecision, Precision.bytes, List.nil_append, current, bind, Except.bind, pure,
        Except.pure, if_neg hc]
      rfl
  | some a =>
      simp only [parsePrecision, Precision.bytes, List.cons_append, current, bind, Except.bind,
        pure, Except.pure, if_true, List.tail_cons, Precision.value]
      cases a with
      | none =>
          simp only [Amount.bytes, List.nil_append, h.1, if_neg h.2]
          rfl
      | number digits =>
          obtain ⟨hne, hds, hc⟩ := h
          obtain ⟨d, ds, rfl⟩ := List.exists_cons_of_ne_nil hne
          have hd := hds d List.mem_cons_self
          have hatoi := atoi_number hds hc rest
          rw [List.cons_append] at hatoi
          simp only [Amount.bytes, List.cons_append, hd, if_true, hatoi]
          rfl
      | star =>
          have hdigit : isDigit (ascii '*') = false := by decide
          simp only [Amount.bytes, List.singleton_append, hdigit, Bool.false_eq_true, if_false,
            if_true, List.tail_cons, Amount.precision]
          cases vaWord va with
          | error e => rfl
          | ok p => rfl

/-- The length is read. -/
theorem parseLength_append {a : Length} {c : Byte} (h : a.EndsAt c) (rest : List Byte)
    (flags : Flags) :
    parseLength (a.bytes ++ c :: rest) flags = .ok (a.set flags, c :: rest) := by
  cases a with
  | none =>
      obtain ⟨hl, hh, ht, hj, hz⟩ := h
      simp only [parseLength, Length.bytes, List.nil_append, current, bind, Except.bind, pure,
        Except.pure, if_neg hl, if_neg hh, if_neg ht, if_neg hj, if_neg hz]
      rfl
  | l =>
      have hl : c ≠ ascii 'l' := h
      simp only [parseLength, Length.bytes, List.singleton_append, current, bind, Except.bind, pure,
        Except.pure, if_true, List.tail_cons, if_neg hl]
      rfl
  | h =>
      have hh : c ≠ ascii 'h' := h
      have hne : ascii 'h' ≠ ascii 'l' := by decide
      simp only [parseLength, Length.bytes, List.singleton_append, current, bind, Except.bind, pure,
        Except.pure, if_true, List.tail_cons, if_neg hh, if_neg hne]
      rfl
  | ll => rfl
  | hh => rfl
  | t => rfl
  | j => rfl
  | z => rfl

/-- **A conversion is read** as it is written. -/
theorem parseDirective_append (k : Conversion) (rest : List Byte) (va : List Arg) :
    parseDirective (k.bytes ++ rest) va =
      (k.directive va).map fun p => (p.1, k.specifier :: rest, p.2) := by
  -- the fields one after the other, each in front of the first character of the next
  have hbytes : k.bytes ++ rest = k.flags.map Flag.byte ++
      (k.width.bytes ++ (k.precision.bytes ++ (k.length.bytes ++ k.specifier :: rest))) := by
    simp [Conversion.bytes]
  obtain ⟨r₁, h₁⟩ := exists_first_append (k.width.bytes ++ (k.precision.bytes ++ k.length.bytes))
    k.specifier rest
  obtain ⟨r₂, h₂⟩ := exists_first_append (k.precision.bytes ++ k.length.bytes) k.specifier rest
  obtain ⟨r₃, h₃⟩ := exists_first_append k.length.bytes k.specifier rest
  simp only [List.append_assoc] at h₁ h₂
  have hflags := parseFlags_append k.flags k.flags_end r₁ {}
  have hwidth := parseWidth_append k.width_end r₂
  have hprecision := parsePrecision_append k.precision_end r₃
  have hlength := parseLength_append k.length_end rest
  rw [← h₁] at hflags
  rw [← h₂] at hwidth
  rw [← h₃] at hprecision
  rw [hbytes, parseDirective, hflags]
  simp only [bind, Except.bind, hwidth, Conversion.directive]
  cases k.width.width (k.flags.foldl Flag.set {}) va with
  | error e => rfl
  | ok p =>
      simp only [Except.map, hprecision]
      cases k.precision.value p.2.1 p.2.2 with
      | error e => rfl
      | ok q =>
          simp only [hlength]
          rfl

/-! ## The loop -/

/-- Reading the flags does not lengthen the format. -/
theorem parseFlags_length {format : List Byte} {flags : Flags} {p : Flags × List Byte}
    (h : parseFlags format flags = .ok p) : p.2.length ≤ format.length := by
  induction format generalizing flags with
  | nil => cases h
  | cons c format ih =>
      rw [parseFlags] at h
      split_ifs at h
      all_goals first
        | exact (ih h).trans (Nat.le_succ _)
        | cases h; rfl

/-- Nor does reading a number. -/
theorem atoi_length {format : List Byte} {i : Word} {p : Word × List Byte}
    (h : atoi format i = .ok p) : p.2.length ≤ format.length := by
  induction format generalizing i with
  | nil => cases h
  | cons c format ih =>
      rw [atoi] at h
      split_ifs at h
      · exact (ih h).trans (Nat.le_succ _)
      · cases h
        rfl

/-- What succeeds in two parts. -/
theorem bind_eq_ok {α β : Type} {x : Except Fault α} {f : α → Except Fault β} {b : β}
    (h : x >>= f = .ok b) : ∃ a, x = .ok a ∧ f a = .ok b := by
  cases x with
  | error e => cases h
  | ok a => exact ⟨a, rfl, h⟩

theorem length_tail_le (format : List Byte) : format.tail.length ≤ format.length := by
  rw [List.length_tail]
  exact Nat.sub_le ..

/-- Nor a width. -/
theorem parseWidth_length {format : List Byte} {va : List Arg} {flags : Flags}
    {p : Word × Flags × List Byte × List Arg} (h : parseWidth format va flags = .ok p) :
    p.2.2.1.length ≤ format.length := by
  obtain ⟨c, -, h⟩ := bind_eq_ok h
  split at h
  · obtain ⟨q, hq, h⟩ := bind_eq_ok h
    cases h
    exact atoi_length hq
  · split at h
    · obtain ⟨⟨w, va⟩, -, h⟩ := bind_eq_ok h
      dsimp only at h
      split at h
      · cases h
        exact length_tail_le format
      · cases h
        exact length_tail_le format
    · cases h
      exact le_rfl

/-- Nor a precision. -/
theorem parsePrecision_length {format : List Byte} {va : List Arg} {flags : Flags}
    {p : Word × Flags × List Byte × List Arg} (h : parsePrecision format va flags = .ok p) :
    p.2.2.1.length ≤ format.length := by
  obtain ⟨c, -, h⟩ := bind_eq_ok h
  split at h
  · obtain ⟨c, -, h⟩ := bind_eq_ok h
    split at h
    · obtain ⟨q, hq, h⟩ := bind_eq_ok h
      cases h
      exact (atoi_length hq).trans (length_tail_le format)
    · split at h
      · obtain ⟨q, -, h⟩ := bind_eq_ok h
        cases h
        exact (length_tail_le _).trans (length_tail_le format)
      · cases h
        exact length_tail_le format
  · cases h
    exact le_rfl

/-- Nor a length. -/
theorem parseLength_length {format : List Byte} {flags : Flags} {p : Flags × List Byte}
    (h : parseLength format flags = .ok p) : p.2.length ≤ format.length := by
  have htail := length_tail_le format
  have htails := (length_tail_le format.tail).trans htail
  obtain ⟨c, -, h⟩ := bind_eq_ok h
  split at h
  · obtain ⟨c, -, h⟩ := bind_eq_ok h
    split at h
    · cases h
      exact htails
    · cases h
      exact htail
  · split at h
    · obtain ⟨c, -, h⟩ := bind_eq_ok h
      split at h
      · cases h
        exact htails
      · cases h
        exact htail
    · split_ifs at h
      all_goals
        cases h
        first | exact htail | exact le_rfl

/-- **The fields of a conversion** do not lengthen the format. -/
theorem parseDirective_length {format : List Byte} {va : List Arg}
    {p : Directive × List Byte × List Arg} (h : parseDirective format va = .ok p) :
    p.2.1.length ≤ format.length := by
  obtain ⟨flags, hflags, h⟩ := bind_eq_ok h
  obtain ⟨width, hwidth, h⟩ := bind_eq_ok h
  obtain ⟨precision, hprecision, h⟩ := bind_eq_ok h
  obtain ⟨length, hlength, h⟩ := bind_eq_ok h
  cases h
  exact (parseLength_length hlength).trans ((parsePrecision_length hprecision).trans
    ((parseWidth_length hwidth).trans (parseFlags_length hflags)))

section Loop

variable [FloatText] {σ : Type} (out : Out σ)

/-- **No more turns than bytes** are needed. -/
theorem vsnprintfLoop_of_le {n : ℕ} {format : List Byte} (h : format.length ≤ n) (va : List Arg)
    (o : σ × Word) :
    vsnprintfLoop out n format va o = vsnprintfLoop out format.length format va o := by
  induction n using Nat.strong_induction_on generalizing format va o with
  | _ n ih =>
      cases format with
      | nil =>
          cases n with
          | zero => rfl
          | succ n => rfl
      | cons c format =>
          rw [List.length_cons] at h
          obtain ⟨n, rfl⟩ := Nat.exists_eq_add_of_lt (show 0 < n by omega)
          rw [Nat.zero_add, List.length_cons, vsnprintfLoop_cons, vsnprintfLoop_cons]
          split
          · rfl
          · split
            · rw [ih n (by omega) (by omega)]
            · cases hparse : parseDirective format va with
              | error e => rfl
              | ok p =>
                  have hlen := (length_tail_le _).trans (parseDirective_length hparse)
                  have hn (va : List Arg) (o : σ × Word) :
                      vsnprintfLoop out n p.2.1.tail va o =
                        vsnprintfLoop out format.length p.2.1.tail va o :=
                    (ih n (by omega) (by omega) va o).trans (ih _ (by omega) hlen va o).symm
                  simp only [bind, Except.bind, hn]

/-- **A piece** does its part of the output. -/
theorem vsnprintfLoop_piece (p : Piece) (n : ℕ) (rest : List Byte) (va : List Arg)
    (o : σ × Word) :
    vsnprintfLoop out (n + 1) (p.bytes ++ rest) va o =
      p.write out va o >>= fun q => vsnprintfLoop out n rest q.2 q.1 := by
  cases p with
  | literal c hc =>
      rw [Piece.bytes, List.singleton_append, vsnprintfLoop_cons, if_neg hc.1, if_pos hc.2]
      rfl
  | conversion k =>
      have hpercent : ascii '%' ≠ 0 := by decide
      rw [Piece.bytes, List.cons_append, vsnprintfLoop_cons, if_neg hpercent, if_neg (not_not.mpr rfl),
        parseDirective_append, Piece.write]
      cases k.directive va with
      | error e => rfl
      | ok q => rfl

/-- **The loop of `_vsnprintf`** goes through the pieces of its format. -/
theorem vsnprintfLoop_bytes (ps : List Piece) (n : ℕ) (rest : List Byte) (va : List Arg)
    (o : σ × Word) :
    vsnprintfLoop out (n + ps.length) (formatBytes ps ++ rest) va o =
      writePieces out ps va o >>= fun q => vsnprintfLoop out n rest q.2 q.1 := by
  induction ps generalizing va o with
  | nil => rfl
  | cons p ps ih =>
      rw [formatBytes, List.flatMap_cons, List.append_assoc, List.length_cons, ← Nat.add_assoc,
        vsnprintfLoop_piece, writePieces]
      cases p.write out va o with
      | error e => rfl
      | ok q => exact ih q.2 q.1

end Loop

/-! ## Every format -/

/-- A list of characters up to its terminator. -/
def Terminated (t : List Byte) : Prop := ∃ s : List Byte, t = s ++ [0] ∧ (0 : Byte) ∉ s

namespace Terminated

variable {c : Byte} {t : List Byte}

theorem ne_nil (h : Terminated t) : t ≠ [] := by
  obtain ⟨s, rfl, -⟩ := h
  exact List.append_ne_nil_of_right_ne_nil s (List.cons_ne_nil 0 [])

/-- Only the terminator is at the end. -/
theorem cons_zero (h : Terminated (0 :: t)) : t = [] := by
  obtain ⟨s, hs, hzero⟩ := h
  cases s with
  | nil => exact (List.cons.inj hs).2
  | cons d s => exact absurd (List.mem_cons.mpr (Or.inl (List.cons.inj hs).1)) hzero

/-- Any other character has the terminator behind it. -/
theorem of_cons (h : Terminated (c :: t)) (hc : c ≠ 0) : Terminated t := by
  obtain ⟨s, hs, hzero⟩ := h
  cases s with
  | nil => exact absurd (List.cons.inj hs).1 hc
  | cons d s => exact ⟨s, (List.cons.inj hs).2, fun h => hzero (List.mem_cons_of_mem _ h)⟩

/-- It begins with some character. -/
theorem exists_cons (h : Terminated t) : ∃ c rest, t = c :: rest :=
  List.exists_cons_of_ne_nil h.ne_nil

/-- The first characters of a kind that excludes the terminator. -/
theorem exists_split {p : Byte → Prop} (hp : ¬ p 0) (h : Terminated t) :
    ∃ cs c rest, t = cs ++ c :: rest ∧ Terminated (c :: rest) ∧ (∀ d ∈ cs, p d) ∧ ¬ p c := by
  induction t with
  | nil => exact absurd rfl h.ne_nil
  | cons c t ih =>
      by_cases hc : p c
      · have hne : c ≠ 0 := fun h => hp (h ▸ hc)
        obtain ⟨cs, d, rest, rfl, hrest, hcs, hd⟩ := ih (h.of_cons hne)
        exact ⟨c :: cs, d, rest, rfl, hrest, List.forall_mem_cons.mpr ⟨hc, hcs⟩, hd⟩
      · exact ⟨[], c, t, rfl, h, by simp, hc⟩

/-- Flags in front. -/
theorem exists_flags (h : Terminated t) :
    ∃ (fs : List Flag) (c : Byte) (rest : List Byte), t = fs.map Flag.byte ++ c :: rest ∧
      Terminated (c :: rest) ∧ ¬ Flag.Is c := by
  have hzero : ¬ Flag.Is 0 := by
    rintro ⟨f, hf⟩
    cases f <;> exact absurd hf (by decide)
  obtain ⟨cs, c, rest, rfl, hrest, hcs, hc⟩ := h.exists_split hzero
  have : Nonempty Flag := ⟨.zeropad⟩
  choose! f hf using hcs
  refine ⟨cs.map f, c, rest, ?_, hrest, hc⟩
  have hbytes : (cs.map f).map Flag.byte = cs := by
    rw [List.map_map]
    exact (List.map_congr_left fun d hd => hf d hd).trans (List.map_id cs)
  rw [hbytes]

/-- An amount in front. -/
theorem exists_amount (h : Terminated t) :
    ∃ (a : Amount) (c : Byte) (rest : List Byte), t = a.bytes ++ c :: rest ∧
      Terminated (c :: rest) ∧ a.EndsAt c := by
  obtain ⟨c, t, rfl⟩ := h.exists_cons
  cases hdigit : isDigit c with
  | true =>
      obtain ⟨ds, d, rest, hsplit, hrest, hds, hd⟩ := h.exists_split (p := (isDigit · = true))
        (by decide)
      have hne : ds ≠ [] := by
        rintro rfl
        rw [(List.cons.inj hsplit).1] at hdigit
        exact hd hdigit
      exact ⟨.number ds, d, rest, hsplit, hrest, hne, hds, by simpa using hd⟩
  | false =>
      by_cases hstar : c = ascii '*'
      · have hrest := h.of_cons (by rw [hstar]; decide)
        obtain ⟨d, rest, rfl⟩ := hrest.exists_cons
        exact ⟨.star, d, rest, by rw [hstar]; rfl, hrest, trivial⟩
      · exact ⟨.none, c, t, rfl, h, hdigit, hstar⟩

/-- A precision in front. -/
theorem exists_precision (h : Terminated t) :
    ∃ (a : Precision) (c : Byte) (rest : List Byte), t = a.bytes ++ c :: rest ∧
      Terminated (c :: rest) ∧ a.EndsAt c := by
  obtain ⟨c, t, rfl⟩ := h.exists_cons
  by_cases hpoint : c = ascii '.'
  · obtain ⟨a, d, rest, rfl, hrest, ha⟩ := (h.of_cons (by rw [hpoint]; decide)).exists_amount
    exact ⟨some a, d, rest, by rw [hpoint]; rfl, hrest, ha⟩
  · exact ⟨none, c, t, rfl, h, hpoint⟩

/-- A length in front. -/
theorem exists_length (h : Terminated t) :
    ∃ (a : Length) (c : Byte) (rest : List Byte), t = a.bytes ++ c :: rest ∧
      Terminated (c :: rest) ∧ a.EndsAt c := by
  obtain ⟨c, t, rfl⟩ := h.exists_cons
  -- a character that may be doubled
  have hdouble (x : Byte) (hx : x ≠ 0) (a b : Length) (ha : a.bytes = [x]) (hb : b.bytes = [x, x])
      (hend : ∀ d, d ≠ x → a.EndsAt d) (hend' : ∀ d, b.EndsAt d) (hc : c = x) :
      ∃ (a : Length) (d : Byte) (rest : List Byte), c :: t = a.bytes ++ d :: rest ∧
        Terminated (d :: rest) ∧ a.EndsAt d := by
    have hrest := h.of_cons (hc ▸ hx)
    obtain ⟨d, rest, rfl⟩ := hrest.exists_cons
    by_cases hd : d = x
    · have hrest' := hrest.of_cons (hd ▸ hx)
      obtain ⟨e, rest, rfl⟩ := hrest'.exists_cons
      exact ⟨b, e, rest, by rw [hb, hc, hd]; rfl, hrest', hend' e⟩
    · exact ⟨a, d, rest, by rw [ha, hc]; rfl, hrest, hend d hd⟩
  -- one that stands alone
  have hsingle (x : Byte) (hx : x ≠ 0) (a : Length) (ha : a.bytes = [x]) (hend : ∀ d, a.EndsAt d)
      (hc : c = x) : ∃ (a : Length) (d : Byte) (rest : List Byte), c :: t = a.bytes ++ d :: rest ∧
        Terminated (d :: rest) ∧ a.EndsAt d := by
    have hrest := h.of_cons (hc ▸ hx)
    obtain ⟨d, rest, rfl⟩ := hrest.exists_cons
    exact ⟨a, d, rest, by rw [ha, hc]; rfl, hrest, hend d⟩
  by_cases hl : c = ascii 'l'
  · exact hdouble _ (by decide) .l .ll rfl rfl (fun d hd => hd) (fun _ => trivial) hl
  by_cases hh : c = ascii 'h'
  · exact hdouble _ (by decide) .h .hh rfl rfl (fun d hd => hd) (fun _ => trivial) hh
  by_cases ht : c = ascii 't'
  · exact hsingle _ (by decide) .t rfl (fun _ => trivial) ht
  by_cases hj : c = ascii 'j'
  · exact hsingle _ (by decide) .j rfl (fun _ => trivial) hj
  by_cases hz : c = ascii 'z'
  · exact hsingle _ (by decide) .z rfl (fun _ => trivial) hz
  exact ⟨.none, c, t, rfl, h, hl, hh, ht, hj, hz⟩

/-- **A conversion in front**, whatever follows the `%`. -/
theorem exists_conversion (h : Terminated t) :
    ∃ (k : Conversion) (rest : List Byte), t = k.bytes ++ rest ∧
      Terminated (k.specifier :: rest) := by
  obtain ⟨fs, c₁, r₁, rfl, h₁, hflags⟩ := h.exists_flags
  obtain ⟨w, c₂, r₂, e₁, h₂, hwidth⟩ := h₁.exists_amount
  obtain ⟨p, c₃, r₃, e₂, h₃, hprecision⟩ := h₂.exists_precision
  obtain ⟨len, c, rest, e₃, hrest, hlength⟩ := h₃.exists_length
  rw [e₃] at e₂
  rw [e₂] at e₁
  obtain ⟨s₁, f₁⟩ := exists_first_append (w.bytes ++ (p.bytes ++ len.bytes)) c rest
  obtain ⟨s₂, f₂⟩ := exists_first_append (p.bytes ++ len.bytes) c rest
  obtain ⟨s₃, f₃⟩ := exists_first_append len.bytes c rest
  simp only [List.append_assoc] at f₁ f₂
  have g₁ : c₁ = first (w.bytes ++ (p.bytes ++ len.bytes)) c := (List.cons.inj (e₁.trans f₁)).1
  have g₂ : c₂ = first (p.bytes ++ len.bytes) c := (List.cons.inj (e₂.trans f₂)).1
  have g₃ : c₃ = first len.bytes c := (List.cons.inj (e₃.trans f₃)).1
  refine ⟨⟨fs, w, p, len, c, g₁ ▸ hflags, g₂ ▸ hwidth, g₃ ▸ hprecision, hlength⟩, rest, ?_, hrest⟩
  rw [e₁, Conversion.bytes]
  simp

/-- **Every format** is complete, or is cut off within a conversion. -/
theorem exists_pieces (h : Terminated t) :
    (∃ ps, t = formatBytes ps ++ [0]) ∨
      ∃ ps, ∃ k : Conversion, k.specifier = 0 ∧ t = formatBytes ps ++ ascii '%' :: k.bytes := by
  induction hn : t.length using Nat.strong_induction_on generalizing t with
  | _ n ih =>
      -- a piece in front of a format that is shorter
      have hpiece (p : Piece) (rest : List Byte) (ht : t = p.bytes ++ rest)
          (hlen : rest.length < n) (hrest : Terminated rest) :
          (∃ ps, t = formatBytes ps ++ [0]) ∨
            ∃ ps, ∃ k : Conversion, k.specifier = 0 ∧
              t = formatBytes ps ++ ascii '%' :: k.bytes := by
        rcases ih _ hlen hrest rfl with ⟨ps, rfl⟩ | ⟨ps, k, hk, rfl⟩
        · refine Or.inl ⟨p :: ps, ?_⟩
          rw [ht, formatBytes, formatBytes, List.flatMap_cons, List.append_assoc]
        · refine Or.inr ⟨p :: ps, k, hk, ?_⟩
          rw [ht, formatBytes, formatBytes, List.flatMap_cons, List.append_assoc]
      obtain ⟨c, t, rfl⟩ := h.exists_cons
      rw [List.length_cons] at hn
      by_cases hzero : c = 0
      · subst hzero
        exact Or.inl ⟨[], by rw [h.cons_zero]; rfl⟩
      · by_cases hpercent : c = ascii '%'
        · obtain ⟨k, rest, rfl, hrest⟩ := (h.of_cons hzero).exists_conversion
          by_cases hk : k.specifier = 0
          · rw [hk] at hrest
            exact Or.inr ⟨[], k, hk, by rw [hrest.cons_zero, hpercent, List.append_nil]; rfl⟩
          · refine hpiece (.conversion k) rest (by rw [hpercent]; rfl) ?_ (hrest.of_cons hk)
            rw [List.length_append] at hn
            omega
        · exact hpiece (.literal c ⟨hzero, hpercent⟩) t rfl (by omega) (h.of_cons hzero)

end Terminated

section Call

variable [FloatText]

/-- The terminator is a specifier like any character that is none: it is printed. -/
theorem convert_zero {σ : Type} (out : Out σ) (d : Directive) (va : List Arg) (o : σ × Word) :
    convert out d 0 va o = .ok (emit out 0 o, va) := rfl

/-- `_vsnprintf` is its loop, with the terminator behind. -/
theorem vsnprintf_eq_map {σ : Type} (out : Out σ) (maxlen : Word) (format : List Byte)
    (va : List Arg) (a : σ) :
    vsnprintf out maxlen format va a =
      (vsnprintfLoop out format.length format va (a, 0)).map (terminate out maxlen) := by
  rw [vsnprintf]
  cases vsnprintfLoop out format.length format va (a, 0) with
  | error e => rfl
  | ok o => rfl

/-- A format of which `_vsnprintf` writes the pieces, whatever is behind the terminator. -/
def Complete (s : List Byte) : Prop :=
  ∃ ps, formatBytes ps = s ∧
    ∀ (σ : Type) (out : Out σ) (maxlen : Word) (rest : List Byte) (va : List Arg) (a : σ),
      vsnprintf out maxlen (s ++ 0 :: rest) va a =
        (writePieces out ps va (a, 0)).map fun q => terminate out maxlen q.1

/-- A format that ends within a conversion: `_vsnprintf` prints the terminator in place of it, and
goes on with what is behind. -/
def CutOff (s : List Byte) : Prop :=
  ∃ ps, ∃ k : Conversion, k.specifier = 0 ∧ formatBytes ps ++ ascii '%' :: k.bytes = s ++ [0] ∧
    ∀ (σ : Type) (out : Out σ) (maxlen : Word) (rest : List Byte) (va : List Arg) (a : σ),
      vsnprintf out maxlen (s ++ 0 :: rest) va a = do
        let (o, va) ← writePieces out ps va (a, 0)
        let (_, va) ← k.directive va
        let o ← vsnprintfLoop out rest.length rest va (emit out 0 o)
        return terminate out maxlen o

/-- **Every format is complete or cut off.** -/
theorem complete_or_cutOff {s : List Byte} (hs : (0 : Byte) ∉ s) : Complete s ∨ CutOff s := by
  rcases Terminated.exists_pieces ⟨s, rfl, hs⟩ with ⟨ps, hps⟩ | ⟨ps, k, hk, hps⟩
  · obtain rfl := List.append_cancel_right hps
    refine Or.inl ⟨ps, rfl, fun σ out maxlen rest va a => ?_⟩
    rw [vsnprintf_eq_map, ← vsnprintfLoop_of_le out (Nat.le_add_right _ ps.length),
      vsnprintfLoop_bytes]
    cases writePieces out ps va (a, 0) with
    | error e => rfl
    | ok q =>
        have hend (n : ℕ) : vsnprintfLoop out (n + 1) (0 :: rest) q.2 q.1 = .ok q.1 := by
          rw [vsnprintfLoop_cons, if_pos rfl]
        obtain ⟨n, hn⟩ : ∃ n, (formatBytes ps ++ 0 :: rest).length = n + 1 :=
          ⟨(formatBytes ps).length + rest.length, by rw [List.length_append, List.length_cons]; rfl⟩
        rw [hn]
        exact congrArg (Except.map (terminate out maxlen)) (hend n)
  · refine Or.inr ⟨ps, k, hk, hps.symm, fun σ out maxlen rest va a => ?_⟩
    have hformat : s ++ 0 :: rest = formatBytes ps ++ ((Piece.conversion k).bytes ++ rest) := by
      rw [← List.append_assoc, Piece.bytes, ← hps, List.append_assoc]
      rfl
    have hlen : (s ++ 0 :: rest).length = s.length + rest.length + 1 := by
      rw [List.length_append, List.length_cons]
      rfl
    rw [vsnprintf_eq_map, ← vsnprintfLoop_of_le out (Nat.le_add_right _ ps.length), hlen, hformat,
      vsnprintfLoop_bytes]
    cases writePieces out ps va (a, 0) with
    | error e => rfl
    | ok q =>
        have hpiece := vsnprintfLoop_piece out (.conversion k) (s.length + rest.length) rest q.2 q.1
        rw [Piece.write, hk] at hpiece
        refine (congrArg (Except.map (terminate out maxlen)) hpiece).trans ?_
        simp only [bind, Except.bind]
        cases k.directive q.2 with
        | error e => rfl
        | ok d =>
            simp only [convert_zero, vsnprintfLoop_of_le out (Nat.le_add_left rest.length s.length)]
            cases vsnprintfLoop out rest.length rest d.2 (emit out 0 q.1) with
            | error e => rfl
            | ok o => rfl

end Call

attribute [local instance] noFloats in
/-- The formats `%5ld` and `%5l`. -/
theorem complete_or_cutOff_long :
    Complete [ascii '%', ascii '5', ascii 'l', ascii 'd'] ∧
      CutOff [ascii '%', ascii '5', ascii 'l'] := by
  constructor
  · refine (complete_or_cutOff (by decide)).resolve_right ?_
    -- behind the terminator of a format that is cut off, nothing may be missing
    rintro ⟨ps, k, -, -, hcut⟩
    have hcall := hcut (List Byte) collect 0 [] [.word 7] []
    have hok : vsnprintf collect 0 [ascii '%', ascii '5', ascii 'l', ascii 'd', 0] [.word 7] [] =
        .ok ([ascii ' ', ascii ' ', ascii ' ', ascii ' ', ascii '7', 0], 5) := by decide
    rw [List.cons_append, List.cons_append, List.cons_append, List.cons_append, List.nil_append,
      hok] at hcall
    cases hpieces : writePieces collect ps [.word 7] ([], 0) with
    | error e =>
        rw [hpieces] at hcall
        cases hcall
    | ok q =>
        rw [hpieces] at hcall
        simp only [bind, Except.bind] at hcall
        cases hdirective : k.directive q.2 with
        | error e =>
            rw [hdirective] at hcall
            cases hcall
        | ok d =>
            rw [hdirective] at hcall
            cases hcall
  · refine (complete_or_cutOff (by decide)).resolve_left ?_
    -- what is behind the terminator of a complete format makes no difference
    rintro ⟨ps, -, hcomplete⟩
    have hcall := (hcomplete (List Byte) collect 0 [0] [] []).trans
      (hcomplete (List Byte) collect 0 [ascii 'a', 0] [] []).symm
    revert hcall
    decide

end Storm
