import ExprLang.Decimal.Significand

/-!
# Changing the base

A number times a power of one base is written as a number times a power of another.  A positive power is
multiplied out.  A negative power is divided out one factor after the other: exactly while that is possible;
otherwise the number is first scaled up by factors of the new base until it has `precisionBits` binary digits,
and only then is a remainder rounded away from zero.  At last the factors of the new base are taken out of the
number.
-/

namespace ExprLang

-- Powers mean the same here whatever else is imported.
attribute [local instance (high)] instPowNat

/-- The binary digits that a number has before a division rounds. -/
def precisionBits : Nat := 64

/-- A negative power that is being divided out of a number. -/
structure Division where
  value : Nat
  /-- The factors that are left to divide out. -/
  left : Nat
  /-- The factors of the new base that the number has been scaled up by. -/
  scaled : Nat
  deriving DecidableEq, Repr

namespace Division

/-- Whether nothing is left to do. -/
def isFinished (division : Division) : Bool :=
  division.left = 0 || division.value = 0

/-- Whether a division may round: the number has `precisionBits` binary digits. -/
def isPrecise (division : Division) : Bool :=
  2 ^ (precisionBits - 1) ≤ division.value

/-- Takes out one factor of the old base, or scales up by the new base. -/
def step (source target : Nat) (division : Division) : Division :=
  let remainder := division.value % source
  if remainder = 0 then
    { division with value := division.value / source, left := division.left - 1 }
  else if !division.isPrecise then
    { division with value := division.value * target, scaled := division.scaled + 1 }
  else
    { division with value := (division.value + (source - remainder)) / source, left := division.left - 1 }

/-- Takes at most the given number of steps. -/
def run (source target : Nat) : Nat → Division → Division
  | 0, division => division
  | steps + 1, division =>
    if division.isFinished then division else run source target steps (division.step source target)

/-- The steps that suffice: between two divisions the number is scaled up fewer than `precisionBits` times. -/
def stepLimit (division : Division) : Nat :=
  division.left * (precisionBits + 1)

end Division

/-- A number times a power, which need not be worked out for zero. -/
def multiplyPower (value base exponent : Nat) : Nat :=
  if value = 0 then 0 else value * base ^ exponent

/-- Takes factors out of a number, at most `limit` of them, and counts them. -/
def removeFactors (factor : Nat) : (limit value count : Nat) → Nat × Nat
  | 0, value, count => (value, count)
  | limit + 1, value, count =>
    if value ≠ 0 ∧ value % factor = 0 then removeFactors factor limit (value / factor) (count + 1)
    else (value, count)

/-- A number without the factors of a base, and how many those were.  Factors of two are moved out at once. -/
def trimFactors (base value : Nat) : Significand × Nat :=
  if base = 2 then
    let s := Significand.ofNat value
    (s.shiftRight s.trailingZeroBits, s.trailingZeroBits)
  else
    let (kept, removed) := removeFactors base (value.log2 + 1) value 0
    (.ofNat kept, removed)

/-- The significand and exponent of the base `target` for `s` times `source` to the power `exponent`. -/
def Significand.rebase (s : Significand) (exponent : Int) (source target : Nat) :
    Except Fault (Significand × Int) := do
  let start : Division := {
    value := multiplyPower s.toNat source exponent.toNat
    left := (-exponent).toNat
    scaled := 0 }
  if source = 0 && !start.isFinished then
    throw .divisionByZero
  let division := start.run source target start.stepLimit
  if target = 0 && division.value ≠ 0 then
    throw .divisionByZero
  let (trimmed, removed) := trimFactors target division.value
  return (trimmed, removed - division.scaled)

end ExprLang
