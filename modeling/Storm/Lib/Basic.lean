import Storm.Library.ByteMemory

/-! # Null pointers and assertions

What all C files use: `NULL`, and `assert` of `lib/assert.h`. Code that may panic returns an
`Except String`: the error is the text of the panic, after which nothing else happens. -/

namespace Storm

open ByteMemory

/-- The null pointer. -/
def null : Word := 0

/-- `assert`: `panic` with the text of the expression. -/
def assert (expression : Bool) (text : String) : Except String Unit :=
  if expression then .ok () else .error ("Assertion failed: " ++ text)

/-- An assertion that holds has no effect. -/
@[simp] theorem assert_true (text : String) : assert true text = .ok () := rfl

end Storm
