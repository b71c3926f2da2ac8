/-!
# Shortest decimals

Among the decimals inside an interval around a value, one with the fewest digits is chosen, and of those the
one nearest to the value.  The grids of multiples of powers of ten are searched from coarse to fine.  If a
grid has a point in the interval, then it has one next to the value, so only the two neighbours of the value
are tested.
-/

namespace ExprLang

-- Powers mean the same here whatever else is imported.
attribute [local instance (high)] instPowNat

/-- A value and an interval around it, as numerators over one denominator. -/
structure Neighbourhood where
  low : Nat
  value : Nat
  high : Nat
  denominator : Nat
  /-- Whether the ends belong to the interval. -/
  closed : Bool
  deriving DecidableEq, Repr

/-- The number `digits` times a power of ten. -/
structure ShortDecimal where
  digits : Nat
  exponent : Int
  deriving DecidableEq, Repr

namespace Neighbourhood

/-- The same interval with the power of ten `10 ^ exponent` as its unit. -/
def rescale (n : Neighbourhood) (exponent : Int) : Neighbourhood :=
  let up := 10 ^ (-exponent).toNat
  { n with
    low := n.low * up
    value := n.value * up
    high := n.high * up
    denominator := n.denominator * 10 ^ exponent.toNat }

/-- Whether a whole number lies in the interval. -/
def contains (n : Neighbourhood) (point : Nat) : Bool :=
  if n.closed then n.low ≤ point * n.denominator && point * n.denominator ≤ n.high
  else n.low < point * n.denominator && point * n.denominator < n.high

/-- The whole number in the interval that is nearest to the value.  Of two that are equally near it is the
upper. -/
def nearest? (n : Neighbourhood) : Option Nat :=
  let below := n.value / n.denominator
  match n.contains below, n.contains (below + 1) with
  | true, true => some (if 2 * n.value < (2 * below + 1) * n.denominator then below else below + 1)
  | true, false => some below
  | false, true => some (below + 1)
  | false, false => none

/-- Searches `count` grids from that of `10 ^ exponent` on. -/
def search (n : Neighbourhood) : Nat → Int → Option ShortDecimal
  | 0, _ => none
  | count + 1, exponent =>
    match (n.rescale exponent).nearest? with
    | some digits => some { digits, exponent }
    | none => n.search count (exponent - 1)

/-- A power of ten above the value. -/
def orderBound (n : Neighbourhood) : Int :=
  if n.denominator ≤ n.value then (Nat.toDigits 10 (n.value / n.denominator)).length
  else 2 - ((Nat.toDigits 10 (n.denominator / n.value)).length : Int)

/-- The shortest decimal in the interval.  A grid as fine as the value itself is never missed. -/
def shortest? (n : Neighbourhood) : Option ShortDecimal :=
  n.search ((Nat.toDigits 10 n.value).length + 3) n.orderBound

end Neighbourhood

end ExprLang
