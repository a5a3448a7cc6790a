import Storm.Lib.Basic

/-! # `lib/printf.c`: formatted output

The functions of `printf.c` for a 32-bit target. An output function takes a character and an index;
its other two arguments, the buffer and its length, are fixed during a call, so that an output
function is an `Out σ` on some state `σ`, and all functions that write are defined for any of them.

Memory that is only read is a list of the bytes from a pointer on, as far as they may be read: the
format, and the strings of `%s`. Reading behind the end of such a list is a `Fault`. So is a
conversion for which there is no argument of its kind.

Floating point arithmetic is not modelled. What `_ftoa` and `_etoa` make of a number is a parameter
(`FloatText`); all that is said here holds for any. -/

namespace Storm

open ByteMemory

/-- A character constant. -/
def ascii (c : Char) : Byte := BitVec.ofNat 8 c.toNat

/-- What ends a call that reads what it must not. -/
inductive Fault
  /-- The format is read behind the bytes that may be read. -/
  | format
  /-- A string is read behind the bytes that may be read. -/
  | string
  /-- There is no argument of the kind that `va_arg` asks for. -/
  | argument
  /-- The powers of ten of `_ftoa` are read behind the end of their table. -/
  | float
  deriving DecidableEq, Repr

/-- A variable argument. -/
inductive Arg
  /-- Four bytes: an `int`, a `long`, their unsigned variants, or the address of a `%p`. -/
  | word (v : Word)
  /-- Eight bytes: a `long long` or its unsigned variant. -/
  | dword (v : BitVec 64)
  /-- A `double`, by its 64 bits. -/
  | double (v : BitVec 64)
  /-- A `char *`, with the bytes that may be read from there on. -/
  | string (s : List Byte)
  deriving DecidableEq, Repr

/-- The flags of a conversion, one for each bit of `flags`. -/
structure Flags where
  zeropad : Bool := false
  left : Bool := false
  plus : Bool := false
  space : Bool := false
  hash : Bool := false
  uppercase : Bool := false
  char : Bool := false
  short : Bool := false
  long : Bool := false
  longLong : Bool := false
  precision : Bool := false
  adaptExp : Bool := false
  deriving DecidableEq, Repr

/-- What `_ftoa` and `_etoa` make of a `double`, given by its bits, for a precision, a width and
flags: the characters that they pass to the output function, one after the other. There are none
when a precision of more than 41 makes them read behind their table of the powers of ten. -/
class FloatText where
  ftoa (value : BitVec 64) (prec width : Word) (flags : Flags) : Option (List Byte)
  etoa (value : BitVec 64) (prec width : Word) (flags : Flags) : Option (List Byte)

/-- No texts, for calls that convert no floating point number. -/
@[reducible] def noFloats : FloatText := ⟨fun _ _ _ _ => none, fun _ _ _ _ => none⟩

/-- `PRINTF_NTOA_BUFFER_SIZE`. -/
def printfNtoaBufferSize : ℕ := 32

/-! ## Output -/

/-- `out_fct_type`, for a given buffer of a given length: what a character at an index does. -/
abbrev Out (σ : Type) := Byte → Word → σ → σ

section Write

variable {σ : Type} (out : Out σ)

/-- `out(character, buffer, idx++, maxlen)`, on the output so far and its `idx`. -/
def emit (character : Byte) (o : σ × Word) : σ × Word := (out character o.2 o.1, o.2 + 1)

/-- Several characters in a row. -/
def emitAll (characters : List Byte) (o : σ × Word) : σ × Word :=
  characters.foldl (fun o c => emit out c o) o

/-- The loop `while (idx - start_idx < width)` of `_out_rev`; `n` bounds its turns, of which there
are at most `width`. -/
def padBehind (startIdx width : Word) : ℕ → σ × Word → σ × Word
  | 0, o => o
  | n + 1, o =>
      if o.2 - startIdx < width then padBehind startIdx width n (emit out (ascii ' ') o) else o

/-- `_out_rev`: the characters of `buf`, last one first, padded with spaces to `width`. -/
def outRev (buf : List Byte) (width : Word) (flags : Flags) (o : σ × Word) : σ × Word :=
  let startIdx := o.2
  let o :=
    if !flags.left && !flags.zeropad then
      emitAll out (List.replicate (width.toNat - buf.length) (ascii ' ')) o
    else o
  let o := emitAll out buf.reverse o
  if flags.left then padBehind out startIdx width width.toNat o else o

end Write

/-! ## Integers -/

/-- `digit < 10 ? '0' + digit : (flags & FLAGS_UPPERCASE ? 'A' : 'a') + digit - 10`. -/
def digitChar (digit : Byte) (uppercase : Bool) : Byte :=
  if digit < 10 then ascii '0' + digit
  else (if uppercase then ascii 'A' else ascii 'a') + digit - 10

/-- The digit loop of `_ntoa_long` and `_ntoa_long_long`, last digit first. `room` is what is left of
the buffer. -/
def ntoaDigits (base : ℕ) (uppercase : Bool) : ℕ → ℕ → List Byte
  | 0, _ => []
  | room + 1, value =>
      digitChar (BitVec.ofNat 8 (value % base)) uppercase ::
        if value / base ≠ 0 then ntoaDigits base uppercase room (value / base) else []

/-- `while (len < n && len < PRINTF_NTOA_BUFFER_SIZE) buf[len++] = '0'`. -/
def zerosTo (n : Word) (buf : List Byte) : List Byte :=
  buf ++ List.replicate (min n.toNat printfNtoaBufferSize - buf.length) (ascii '0')

/-- `buf[len++] = character`, if there is room. -/
def pushChar (character : Byte) (buf : List Byte) : List Byte :=
  if buf.length < printfNtoaBufferSize then buf ++ [character] else buf

/-- The first lines of `_ntoa_format`: the width that a sign leaves for zeros. -/
def ntoaWidth (negative : Bool) (width : Word) (flags : Flags) : Word :=
  if !flags.left && (width ≠ 0 && flags.zeropad && (negative || flags.plus || flags.space)) then
    width - 1
  else width

/-- "Pad leading zeros" of `_ntoa_format`. -/
def ntoaZeros (buf : List Byte) (prec width : Word) (flags : Flags) : List Byte :=
  if flags.left then buf
  else
    let buf := zerosTo prec buf
    if flags.zeropad then zerosTo width buf else buf

/-- "Handle hash" of `_ntoa_format`, first part: characters are taken back when the number fills the
precision or the width, so that the prefix replaces padding zeros. -/
def hashTrim (buf : List Byte) (base prec width : Word) (flags : Flags) : List Byte :=
  if !flags.precision && buf.length ≠ 0 &&
      (buf.length = prec.toNat || buf.length = width.toNat) then
    if buf.dropLast.length ≠ 0 && base = 16 then buf.dropLast.dropLast else buf.dropLast
  else buf

/-- "Handle hash", second part: the letter of the prefix. -/
def hashLetter (buf : List Byte) (base : Word) (flags : Flags) : List Byte :=
  if base = 16 && !flags.uppercase then pushChar (ascii 'x') buf
  else if base = 16 && flags.uppercase then pushChar (ascii 'X') buf
  else if base = 2 then pushChar (ascii 'b') buf
  else buf

/-- "Handle hash" of `_ntoa_format`. -/
def ntoaHash (buf : List Byte) (base prec width : Word) (flags : Flags) : List Byte :=
  if flags.hash then
    pushChar (ascii '0') (hashLetter (hashTrim buf base prec width flags) base flags)
  else buf

/-- The sign of `_ntoa_format`. -/
def ntoaSign (buf : List Byte) (negative : Bool) (flags : Flags) : List Byte :=
  if negative then pushChar (ascii '-') buf
  else if flags.plus then pushChar (ascii '+') buf
  else if flags.space then pushChar (ascii ' ') buf
  else buf

section Write

variable {σ : Type} (out : Out σ)

/-- `_ntoa_format`. -/
def ntoaFormat (buf : List Byte) (negative : Bool) (base prec width : Word) (flags : Flags)
    (o : σ × Word) : σ × Word :=
  let width := ntoaWidth negative width flags
  let buf := ntoaZeros buf prec width flags
  let buf := ntoaHash buf base prec width flags
  let buf := ntoaSign buf negative flags
  outRev out buf width flags o

/-- `_ntoa_long` and `_ntoa_long_long`, which differ in the type of `value` only. -/
def ntoa (value : ℕ) (negative : Bool) (base prec width : Word) (flags : Flags) (o : σ × Word) :
    σ × Word :=
  -- no hash for 0 values
  let flags := { flags with hash := flags.hash && value ≠ 0 }
  let buf :=
    if !flags.precision || value ≠ 0 then
      ntoaDigits base.toNat flags.uppercase printfNtoaBufferSize value
    else []
  ntoaFormat out buf negative base prec width flags o

/-- `_ntoa_long`. -/
def ntoaLong (value : Word) (negative : Bool) (base prec width : Word) (flags : Flags)
    (o : σ × Word) : σ × Word := ntoa out value.toNat negative base prec width flags o

/-- `_ntoa_long_long`. -/
def ntoaLongLong (value : BitVec 64) (negative : Bool) (base prec width : Word) (flags : Flags)
    (o : σ × Word) : σ × Word := ntoa out value.toNat negative base prec width flags o

end Write

/-! ## Strings -/

/-- `_strnlen_s`. -/
def strnlen : List Byte → Word → Except Fault Word
  | [], _ => .error .string
  | c :: rest, maxsize =>
      if c ≠ 0 ∧ maxsize ≠ 0 then do
        let n ← strnlen rest (maxsize - 1)
        return n + 1
      else return 0

/-- `_is_digit`. -/
def isDigit (ch : Byte) : Bool := ascii '0' ≤ ch && ch ≤ ascii '9'

/-- `_atoi`: the number, and the format behind it. -/
def atoi : List Byte → Word → Except Fault (Word × List Byte)
  | [], _ => .error .format
  | c :: rest, i =>
      if isDigit c then atoi rest (i * 10 + (c - ascii '0').setWidth 32) else return (i, c :: rest)

section Write

variable {σ : Type} (out : Out σ)

/-- "String output" of `%s`: `while ((*p != 0) && (!(flags & FLAGS_PRECISION) || precision--))`. -/
def outString (flags : Flags) : List Byte → Word → σ × Word → Except Fault (σ × Word)
  | [], _, _ => .error .string
  | c :: rest, precision, o =>
      if c ≠ 0 ∧ (!flags.precision ∨ precision ≠ 0) then
        outString flags rest (precision - 1) (emit out c o)
      else return o

end Write

/-! ## The format -/

/-- `va_arg` for a type of four bytes. -/
def vaWord : List Arg → Except Fault (Word × List Arg)
  | .word v :: va => return (v, va)
  | _ => .error .argument

/-- `va_arg` for a type of eight bytes. -/
def vaDword : List Arg → Except Fault (BitVec 64 × List Arg)
  | .dword v :: va => return (v, va)
  | _ => .error .argument

/-- `va_arg(va, double)`. -/
def vaDouble : List Arg → Except Fault (BitVec 64 × List Arg)
  | .double v :: va => return (v, va)
  | _ => .error .argument

/-- `va_arg(va, char *)`. -/
def vaString : List Arg → Except Fault (List Byte × List Arg)
  | .string s :: va => return (s, va)
  | _ => .error .argument

/-- `*format`. -/
def current : List Byte → Except Fault Byte
  | [] => .error .format
  | c :: _ => return c

/-- "Evaluate flags". -/
def parseFlags : List Byte → Flags → Except Fault (Flags × List Byte)
  | [], _ => .error .format
  | c :: format, flags =>
      if c = ascii '0' then parseFlags format { flags with zeropad := true }
      else if c = ascii '-' then parseFlags format { flags with left := true }
      else if c = ascii '+' then parseFlags format { flags with plus := true }
      else if c = ascii ' ' then parseFlags format { flags with space := true }
      else if c = ascii '#' then parseFlags format { flags with hash := true }
      else return (flags, c :: format)

/-- "Evaluate width field". -/
def parseWidth (format : List Byte) (va : List Arg) (flags : Flags) :
    Except Fault (Word × Flags × List Byte × List Arg) := do
  let c ← current format
  if isDigit c then
    let (width, format) ← atoi format 0
    return (width, flags, format, va)
  else if c = ascii '*' then
    let (w, va) ← vaWord va
    if w.slt 0 then return (-w, { flags with left := true }, format.tail, va)
    else return (w, flags, format.tail, va)
  else return (0, flags, format, va)

/-- "Evaluate precision field". -/
def parsePrecision (format : List Byte) (va : List Arg) (flags : Flags) :
    Except Fault (Word × Flags × List Byte × List Arg) := do
  let c ← current format
  if c = ascii '.' then
    let flags := { flags with precision := true }
    let format := format.tail
    let c ← current format
    if isDigit c then
      let (precision, format) ← atoi format 0
      return (precision, flags, format, va)
    else if c = ascii '*' then
      let (prec, va) ← vaWord va
      return (if (0 : Word).slt prec then prec else 0, flags, format.tail, va)
    else return (0, flags, format, va)
  else return (0, flags, format, va)

/-- "Evaluate length field", where `long`, `size_t` and `ptrdiff_t` have four bytes, and `intmax_t`
has eight. -/
def parseLength (format : List Byte) (flags : Flags) : Except Fault (Flags × List Byte) := do
  let c ← current format
  if c = ascii 'l' then
    let flags := { flags with long := true }
    let format := format.tail
    let c ← current format
    if c = ascii 'l' then return ({ flags with longLong := true }, format.tail)
    else return (flags, format)
  else if c = ascii 'h' then
    let flags := { flags with short := true }
    let format := format.tail
    let c ← current format
    if c = ascii 'h' then return ({ flags with char := true }, format.tail)
    else return (flags, format)
  else if c = ascii 't' then return ({ flags with long := true }, format.tail)
  else if c = ascii 'j' then return ({ flags with longLong := true }, format.tail)
  else if c = ascii 'z' then return ({ flags with long := true }, format.tail)
  else return (flags, format)

/-- What stands between `%` and the specifier. -/
structure Directive where
  flags : Flags
  width : Word
  precision : Word
  deriving DecidableEq, Repr

/-- The four fields in their order; what is left begins with the specifier. -/
def parseDirective (format : List Byte) (va : List Arg) :
    Except Fault (Directive × List Byte × List Arg) := do
  let (flags, format) ← parseFlags format {}
  let (width, flags, format, va) ← parseWidth format va flags
  let (precision, flags, format, va) ← parsePrecision format va flags
  let (flags, format) ← parseLength format flags
  return (⟨flags, width, precision⟩, format, va)

/-! ## Conversions -/

/-- The base of an integer conversion. -/
def specifierBase (c : Byte) : Word :=
  if c = ascii 'x' ∨ c = ascii 'X' then 16
  else if c = ascii 'o' then 8
  else if c = ascii 'b' then 2
  else 10

/-- The flags of an integer conversion, after those are cleared that do not apply. -/
def integerFlags (c : Byte) (flags : Flags) : Flags :=
  -- no hash for dec format
  let flags := if specifierBase c = 10 then { flags with hash := false } else flags
  let flags := if c = ascii 'X' then { flags with uppercase := true } else flags
  -- no plus or space flag for u, x, X, o, b
  let flags :=
    if c ≠ ascii 'i' ∧ c ≠ ascii 'd' then { flags with plus := false, space := false } else flags
  -- ignore '0' flag when precision is given
  if flags.precision then { flags with zeropad := false } else flags

/-- The flags of a floating point conversion. -/
def floatFlags (c : Byte) (flags : Flags) : Flags :=
  let flags := if c = ascii 'g' ∨ c = ascii 'G' then { flags with adaptExp := true } else flags
  if c = ascii 'F' ∨ c = ascii 'E' ∨ c = ascii 'G' then { flags with uppercase := true } else flags

section Write

variable {σ : Type} (out : Out σ)

/-- `value > 0 ? value : 0 - value`. -/
def magnitude {w : ℕ} (value : BitVec w) : BitVec w := if (0#w).slt value then value else 0 - value

/-- "Signed": `%d` and `%i`. -/
def convertSigned (base : Word) (flags : Flags) (width precision : Word) (va : List Arg)
    (o : σ × Word) : Except Fault ((σ × Word) × List Arg) :=
  if flags.longLong then do
    let (value, va) ← vaDword va
    return (ntoaLongLong out (magnitude value) (value.slt 0) base precision width flags o, va)
  else if flags.long then do
    let (value, va) ← vaWord va
    return (ntoaLong out (magnitude value) (value.slt 0) base precision width flags o, va)
  else do
    let (v, va) ← vaWord va
    let value : Word :=
      if flags.char then (v.setWidth 8).signExtend 32
      else if flags.short then (v.setWidth 16).signExtend 32
      else v
    return (ntoaLong out (magnitude value) (value.slt 0) base precision width flags o, va)

/-- "Unsigned": `%u`, `%x`, `%X`, `%o` and `%b`. -/
def convertUnsigned (base : Word) (flags : Flags) (width precision : Word) (va : List Arg)
    (o : σ × Word) : Except Fault ((σ × Word) × List Arg) :=
  if flags.longLong then do
    let (value, va) ← vaDword va
    return (ntoaLongLong out value false base precision width flags o, va)
  else if flags.long then do
    let (value, va) ← vaWord va
    return (ntoaLong out value false base precision width flags o, va)
  else do
    let (v, va) ← vaWord va
    let value : Word :=
      if flags.char then (v.setWidth 8).setWidth 32
      else if flags.short then (v.setWidth 16).setWidth 32
      else v
    return (ntoaLong out value false base precision width flags o, va)

/-- `%c`. -/
def convertChar (flags : Flags) (width : Word) (va : List Arg) (o : σ × Word) :
    Except Fault ((σ × Word) × List Arg) := do
  -- `l` counts from one, and the loops compare it before they increment it
  let spaces := List.replicate (width.toNat - 1) (ascii ' ')
  let o := if !flags.left then emitAll out spaces o else o
  let (v, va) ← vaWord va
  let o := emit out (v.setWidth 8) o
  let o := if flags.left then emitAll out spaces o else o
  return (o, va)

/-- `%s`. -/
def convertString (flags : Flags) (width precision : Word) (va : List Arg) (o : σ × Word) :
    Except Fault ((σ × Word) × List Arg) := do
  let (p, va) ← vaString va
  let l ← strnlen p (if precision ≠ 0 then precision else -1)
  let l := if flags.precision then (if l < precision then l else precision) else l
  let spaces := List.replicate (width.toNat - l.toNat) (ascii ' ')
  let o := if !flags.left then emitAll out spaces o else o
  let o ← outString out flags p precision o
  let o := if flags.left then emitAll out spaces o else o
  return (o, va)

/-- `%p`, where a pointer has four bytes. -/
def convertPointer (flags : Flags) (precision : Word) (va : List Arg) (o : σ × Word) :
    Except Fault ((σ × Word) × List Arg) := do
  let flags := { flags with zeropad := true, uppercase := true }
  let (v, va) ← vaWord va
  return (ntoaLong out v false 16 precision 8 flags o, va)

variable [FloatText]

/-- `%f`, `%F`, `%e`, `%E`, `%g` and `%G`. -/
def convertFloat (c : Byte) (flags : Flags) (width precision : Word) (va : List Arg)
    (o : σ × Word) : Except Fault ((σ × Word) × List Arg) := do
  let (value, va) ← vaDouble va
  let text :=
    if c = ascii 'f' ∨ c = ascii 'F' then FloatText.ftoa value precision width flags
    else FloatText.etoa value precision width flags
  match text with
  | none => .error .float
  | some text => return (emitAll out text o, va)

/-- "Evaluate specifier". -/
def convert (d : Directive) (c : Byte) (va : List Arg) (o : σ × Word) :
    Except Fault ((σ × Word) × List Arg) :=
  if c = ascii 'd' ∨ c = ascii 'i' then
    convertSigned out (specifierBase c) (integerFlags c d.flags) d.width d.precision va o
  else if c = ascii 'u' ∨ c = ascii 'x' ∨ c = ascii 'X' ∨ c = ascii 'o' ∨ c = ascii 'b' then
    convertUnsigned out (specifierBase c) (integerFlags c d.flags) d.width d.precision va o
  else if c = ascii 'f' ∨ c = ascii 'F' ∨ c = ascii 'e' ∨ c = ascii 'E' ∨ c = ascii 'g' ∨
      c = ascii 'G' then
    convertFloat out c (floatFlags c d.flags) d.width d.precision va o
  else if c = ascii 'c' then convertChar out d.flags d.width va o
  else if c = ascii 's' then convertString out d.flags d.width d.precision va o
  else if c = ascii 'p' then convertPointer out d.flags d.precision va o
  else if c = ascii '%' then return (emit out (ascii '%') o, va)
  else return (emit out c o, va)

/-- The loop of `_vsnprintf`. It takes at least one byte of the format in each turn, so that there
are no more turns than bytes that may be read. -/
def vsnprintfLoop : ℕ → List Byte → List Arg → σ × Word → Except Fault (σ × Word)
  | 0, _, _, _ => .error .format
  | n + 1, format, va, o => do
      let c ← current format
      if c = 0 then return o
      else if c ≠ ascii '%' then vsnprintfLoop n format.tail va (emit out c o)
      else
        let (d, format, va) ← parseDirective format.tail va
        let c ← current format
        let (o, va) ← convert out d c va o
        vsnprintfLoop n format.tail va o

end Write

section Call

variable [FloatText]

/-- `_vsnprintf`, for an output function that is not replaced by `_out_null`: what the output
function leaves behind, and the number of characters. -/
def vsnprintf {σ : Type} (out : Out σ) (maxlen : Word) (format : List Byte) (va : List Arg) (s : σ) :
    Except Fault (σ × Word) := do
  let (s, idx) ← vsnprintfLoop out format.length format va (s, 0)
  return (out 0 (if idx < maxlen then idx else maxlen - 1) s, idx)

/-! ## The output functions and the functions of `printf.h` -/

/-- `_out_buffer`, on the memory that the buffer is in. -/
def outBuffer (buffer maxlen : Word) : Out Memory := fun character idx m =>
  if idx < maxlen then Function.update m (buffer + idx) character else m

/-- `_out_null`. -/
def outNull {σ : Type} : Out σ := fun _ _ s => s

/-- `_out_char`, where `putchar` is what `_putchar` does. -/
def outChar {σ : Type} (putchar : Byte → σ → σ) : Out σ := fun character _ s =>
  if character ≠ 0 then putchar character s else s

/-- `_out_fct`, where `fct` is the function of the caller with its argument. -/
def outFct {σ : Type} (fct : Byte → σ → σ) : Out σ := fun character _ s =>
  if character ≠ 0 then fct character s else s

/-- `printf_` and `vprintf_`. -/
def printf {σ : Type} (putchar : Byte → σ → σ) (format : List Byte) (va : List Arg) (s : σ) :
    Except Fault (σ × Word) := vsnprintf (outChar putchar) (-1) format va s

/-- `snprintf_` and `vsnprintf_`. -/
def snprintf (buffer count : Word) (format : List Byte) (va : List Arg) (m : Memory) :
    Except Fault (Memory × Word) :=
  vsnprintf (if buffer = null then outNull else outBuffer buffer count) count format va m

/-- `sprintf_`. -/
def sprintf (buffer : Word) (format : List Byte) (va : List Arg) (m : Memory) :
    Except Fault (Memory × Word) := snprintf buffer (-1) format va m

/-- `fctprintf`. -/
def fctprintf {σ : Type} (fct : Byte → σ → σ) (format : List Byte) (va : List Arg) (s : σ) :
    Except Fault (σ × Word) := vsnprintf (outFct fct) (-1) format va s

end Call

end Storm
