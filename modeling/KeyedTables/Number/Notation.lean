import KeyedTables.Number.Shortest
import KeyedTables.Text.Digits

/-!
# Positional notation

Floating numbers as text: always positional, never with an exponent. A number without fractional
part is written exactly, with all its digits and one zero after the point; any other finite number
is written with the fewest digits that read back.
-/
namespace KeyedTables

open Text

/-- A decimal in positional notation; a point appears only for a negative scale. -/
def Decimal.chars (d : Decimal) : List Char :=
  if 0 ≤ d.scale then digits (d.coefficient * Nat.pow 10 d.scale.toNat)
  else
    let places := (-d.scale).toNat
    let unit := Nat.pow 10 places
    let fraction := digits (d.coefficient % unit)
    digits (d.coefficient / unit) ++ '.' :: (List.replicate (places - fraction.length) '0' ++ fraction)

/-- The magnitude of a finite number. -/
def Binary64.magnitudeChars (x : Binary64) : List Char :=
  if x.isIntegral then digits x.integerPart ++ ['.', '0'] else (Decimal.shortest x).chars

def Binary64.chars (x : Binary64) : List Char :=
  if x.isNaN then ['N', 'a', 'N']
  else
    let magnitude := if x.isFinite then x.magnitudeChars else ['i', 'n', 'f']
    if x.isNegative then '-' :: magnitude else magnitude

end KeyedTables
