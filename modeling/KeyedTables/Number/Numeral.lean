import KeyedTables.Number.Basic
import KeyedTables.Text.Digits

/-!
# Numerals

Which words denote numbers. After at most one sign a numeral starts with a digit or a point. Digits
alone denote an integer if it fits into 64 bits; every other numeral denotes the nearest binary64
number: digits with at most one point among or around them, then possibly an exponent. A word that
fits neither form is no numeral.
-/
namespace KeyedTables

open Text

/-- A word less its sign, and whether that sign was a minus. -/
def splitSign : List Char → Bool × List Char
  | '+' :: cs => (false, cs)
  | '-' :: cs => (true, cs)
  | cs => (false, cs)

/-- A decimal read from text: the sign, all digits of the mantissa as one number, and the power of
ten it is scaled by. -/
structure Numeral where
  negative : Bool
  mantissa : Nat
  power : Int
  deriving DecidableEq, Repr

namespace Numeral

/-- The exponent of a numeral: nothing, or an `e` with a signed run of digits up to the end. -/
def exponent? : List Char → Option Int
  | [] => some 0
  | c :: cs =>
    if c = 'e' ∨ c = 'E' then
      match splitSign cs with
      | (_, []) => none
      | (negative, ds) =>
        if ds.all isDigit then some (if negative then -(ofDigits ds : Int) else ofDigits ds)
        else none
    else none

/-- Reads digits, a point, more digits and an exponent; at least one digit stands before the
exponent. -/
def ofChars? (word : List Char) : Option Numeral :=
  let (negative, body) := splitSign word
  let whole := body.takeWhile isDigit
  let (fraction, rest) :=
    match body.dropWhile isDigit with
    | '.' :: cs => (cs.takeWhile isDigit, cs.dropWhile isDigit)
    | cs => ([], cs)
  if whole.isEmpty && fraction.isEmpty then none
  else (exponent? rest).map fun e => ⟨negative, ofDigits (whole ++ fraction), e - fraction.length⟩

/-- The nearest binary64 number. A mantissa of `n` digits with a power of ten beyond `310 - n` is
past the largest finite number, and below `-330 - n` it is nearer to zero than to anything else. -/
def toBinary64 (x : Numeral) : Binary64 :=
  let size := (digits x.mantissa).length + x.power
  let magnitude : Binary64 :=
    if x.mantissa = 0 then ⟨0⟩
    else if 310 < size then ⟨0x7FF0000000000000⟩
    else if size < -330 then ⟨0⟩
    else .ofFloat (Float.ofScientific x.mantissa (decide (x.power < 0)) x.power.natAbs)
  if x.negative then -magnitude else magnitude

end Numeral

namespace Number

/-- A signed run of digits in the range of 64-bit integers. -/
def integer? (word : List Char) : Option Int64 :=
  let (negative, body) := splitSign word
  if body ≠ [] ∧ body.all isDigit then
    let value : Int := if negative then -(ofDigits body : Int) else ofDigits body
    if Int64.minValue.toInt ≤ value ∧ value ≤ Int64.maxValue.toInt then some (Int64.ofInt value)
    else none
  else none

/-- Whether a word begins like a numeral. -/
def startsNumeral (word : List Char) : Bool :=
  match (splitSign word).2 with
  | [] => false
  | c :: _ => isDigit c || c == '.'

/-- The number a word denotes. -/
def ofChars? (word : List Char) : Option Number :=
  if startsNumeral word then
    match integer? word with
    | some i => some (integer i)
    | none => (Numeral.ofChars? word).map fun x => float x.toBinary64
  else none

end Number

end KeyedTables
