/-!
# Decimal digits

Natural numbers in decimal notation and back.
-/
namespace KeyedTables.Text

/-- The decimal digits of a number, most significant first and at least one. -/
def digits (n : Nat) : List Char := Nat.toDigits 10 n

/-- Whether a character is one of the ten decimal digits. -/
def isDigit (c : Char) : Bool := '0' ≤ c ∧ c ≤ '9'

def digitValue (c : Char) : Nat := c.toNat - '0'.toNat

/-- The number a list of digits denotes; the empty list denotes zero. -/
def ofDigits (cs : List Char) : Nat := cs.foldl (fun n c => 10 * n + digitValue c) 0

/-- An integer in decimal notation, with a sign only below zero. -/
def intChars (i : Int) : List Char :=
  if i < 0 then '-' :: digits i.natAbs else digits i.natAbs

@[simp] theorem ofDigits_nil : ofDigits [] = 0 := rfl

end KeyedTables.Text
