/-!
# Binary64 numbers

A floating number is known by its 64 bits: two of them are the same when their bits are, so that
equality agrees with hashing. Arithmetic and numeric order are those of the format, where the two
zeros are equal in order and a number that is not a number is unequal to itself.
-/
namespace KeyedTables

structure Binary64 where
  bits : UInt64
  deriving DecidableEq, Repr

namespace Binary64

def ofFloat (x : Float) : Binary64 := ⟨x.toBits⟩

def toFloat (x : Binary64) : Float := Float.ofBits x.bits

/-- The nearest number to an integer, a tie going to the even significand. -/
def ofInt64 (i : Int64) : Binary64 := ofFloat (Float.ofInt i.toInt)

instance : Add Binary64 := ⟨fun x y => ofFloat (x.toFloat + y.toFloat)⟩
instance : Sub Binary64 := ⟨fun x y => ofFloat (x.toFloat - y.toFloat)⟩
instance : Mul Binary64 := ⟨fun x y => ofFloat (x.toFloat * y.toFloat)⟩
instance : Div Binary64 := ⟨fun x y => ofFloat (x.toFloat / y.toFloat)⟩

/-- Negation turns the sign bit over, whatever the other bits are. -/
instance : Neg Binary64 := ⟨fun x => ⟨x.bits ^^^ 0x8000000000000000⟩⟩

/-- Numeric equality. -/
def eqv (x y : Binary64) : Bool := x.toFloat == y.toFloat

/-- Numeric order. -/
def lt (x y : Binary64) : Bool := decide (x.toFloat < y.toFloat)

def le (x y : Binary64) : Bool := decide (x.toFloat ≤ y.toFloat)

/-- Whether the number is one of the two zeros. -/
def isZero (x : Binary64) : Bool := x.bits <<< 1 == 0

def one : Binary64 := ⟨0x3FF0000000000000⟩

def isNegative (x : Binary64) : Bool := x.bits >>> 63 == 1

def exponentField (x : Binary64) : Nat := ((x.bits >>> 52) &&& 0x7FF).toNat

def fractionField (x : Binary64) : Nat := (x.bits &&& 0xFFFFFFFFFFFFF).toNat

def isFinite (x : Binary64) : Bool := x.exponentField != 0x7FF

def isNaN (x : Binary64) : Bool := !x.isFinite && x.fractionField != 0

/-- The significand `m` of a finite number of magnitude `m * 2 ^ q`. -/
def significand (x : Binary64) : Nat :=
  if x.exponentField = 0 then x.fractionField else x.fractionField + 0x10000000000000

/-- The exponent `q` of a finite number of magnitude `m * 2 ^ q`. -/
def exponent (x : Binary64) : Int :=
  if x.exponentField = 0 then -1074 else (x.exponentField : Int) - 1075

/-- The integer part of the magnitude of a finite number. -/
def integerPart (x : Binary64) : Nat :=
  if 0 ≤ x.exponent then x.significand <<< x.exponent.toNat
  else x.significand >>> (-x.exponent).toNat

/-- Whether a finite number has no fractional part: the significand loses nothing when its
fractional binary digits are cut off. -/
def isIntegral (x : Binary64) : Bool :=
  0 ≤ x.exponent || x.integerPart <<< (-x.exponent).toNat == x.significand

end Binary64

end KeyedTables
