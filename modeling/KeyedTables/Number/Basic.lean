import KeyedTables.Number.Binary64

/-!
# Numbers

A number is a 64-bit integer or a binary64 number. Integer arithmetic stays among the integers and
wraps around; as soon as one operand is floating the operation is floating.
-/
namespace KeyedTables

inductive Number
  | integer (value : Int64)
  | float (value : Binary64)
  deriving DecidableEq, Repr

namespace Number

def toBinary64 : Number → Binary64
  | integer i => .ofInt64 i
  | float x => x

/-- Applies the integer operation to two integers, and otherwise the floating one to both. -/
def combine (onIntegers : Int64 → Int64 → Int64) (onFloats : Binary64 → Binary64 → Binary64) :
    Number → Number → Number
  | integer i, integer j => integer (onIntegers i j)
  | a, b => float (onFloats a.toBinary64 b.toBinary64)

instance : Add Number := ⟨combine (· + ·) (· + ·)⟩
instance : Sub Number := ⟨combine (· - ·) (· - ·)⟩
instance : Mul Number := ⟨combine (· * ·) (· * ·)⟩

instance : Neg Number where
  neg
    | integer i => integer (-i)
    | float x => float (-x)

@[simp] theorem integer_add (i j : Int64) : integer i + integer j = integer (i + j) := rfl
@[simp] theorem integer_sub (i j : Int64) : integer i - integer j = integer (i - j) := rfl
@[simp] theorem integer_mul (i j : Int64) : integer i * integer j = integer (i * j) := rfl

end Number

end KeyedTables
