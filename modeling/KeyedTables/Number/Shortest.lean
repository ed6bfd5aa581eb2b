import KeyedTables.Number.Binary64

/-!
# Shortest decimals

The decimal of fewest digits that reads back as a given binary64 number, and of those the nearest.
The reals that round to `m * 2 ^ q` form an interval around it; the search goes through the decimal
grids from coarse to fine and stops at the first one with a point inside. Both neighbours of the
number are tried, since a grid has a point inside only if one of the two neighbours is.
-/
namespace KeyedTables

/-- The decimal `coefficient * 10 ^ scale`. -/
structure Decimal where
  coefficient : Nat
  scale : Int
  deriving DecidableEq, Repr

namespace Decimal

/-- The interval of reals that round to a finite number, in units of `2 ^ unit`. -/
structure Interval where
  low : Nat
  mid : Nat
  high : Nat
  unit : Int
  /-- Whether the two ends round to the number, as they do when its significand is even. -/
  closed : Bool

/-- The gap below a power of two is half the gap above it, except at the least exponent. -/
def Interval.of (x : Binary64) : Interval where
  low := if x.significand = 0x10000000000000 ∧ 1 < x.exponentField then 4 * x.significand - 1
    else 4 * x.significand - 2
  mid := 4 * x.significand
  high := 4 * x.significand + 2
  unit := x.exponent - 2
  closed := x.significand % 2 = 0

/-- `a / b` is the ratio of `10 ^ scale` to `2 ^ unit`, in lowest terms but for a common power of
two. -/
def gridRatio (scale unit : Int) : Nat × Nat :=
  (Nat.pow 10 scale.toNat <<< (-unit).toNat, Nat.pow 10 (-scale).toNat <<< unit.toNat)

/-- Whether `n * 10 ^ scale` lies in the interval. -/
def Interval.contains (i : Interval) (scale : Int) (n : Nat) : Bool :=
  let (a, b) := gridRatio scale i.unit
  if i.closed then i.low * b ≤ n * a && n * a ≤ i.high * b
  else i.low * b < n * a && n * a < i.high * b

/-- The point of one grid inside the interval nearest to its middle; a tie goes up. -/
def Interval.nearest? (i : Interval) (scale : Int) : Option Nat :=
  let (a, b) := gridRatio scale i.unit
  let below := i.mid * b / a
  let above := below + 1
  match i.contains scale below, i.contains scale above with
  | true, true => some (if i.mid * b - below * a < above * a - i.mid * b then below else above)
  | true, false => some below
  | false, true => some above
  | false, false => none

/-- Goes from the grid at `scale` to finer ones until one has a point in the interval. -/
def Interval.search (i : Interval) : Nat → Int → Decimal
  | 0, scale => ⟨i.mid, scale⟩
  | fuel + 1, scale =>
    match i.nearest? scale with
    | some n => ⟨n, scale⟩
    | none => i.search fuel (scale - 1)

/-- Moves final zeros of the coefficient into the scale. -/
def stripZeros : Nat → Decimal → Decimal
  | 0, d => d
  | fuel + 1, d =>
    if d.coefficient ≠ 0 ∧ d.coefficient % 10 = 0 then stripZeros fuel ⟨d.coefficient / 10, d.scale + 1⟩ else d

/-- The shortest decimal that reads back as a finite non-zero number. The first grid lies above the
number: `30103 / 100000` is just above the decimal logarithm of two. -/
def shortest (x : Binary64) : Decimal :=
  let top := ((x.significand.log2 + 1 : Int) + x.exponent) * 30103
  stripZeros 30 ((Interval.of x).search 800 (top.fdiv 100000 + 2))

end Decimal

end KeyedTables
