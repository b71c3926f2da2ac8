import ExprLang.Decimal.Rebase

/-!
# Numbers

A number is a significand times a power of two, with its sign kept apart.  Magnitudes that are too large, too
small or too long to be worked out carry a flag instead; it is up to the reader of the number to complain.
-/

namespace ExprLang

/-- Whether a number has a value, or why it has none. -/
inductive NumberFlag where
  | normal
  /-- The magnitude is below everything that can be represented. -/
  | zero
  /-- The magnitude is above everything that can be represented. -/
  | infinite
  /-- There are too many digits. -/
  | tooPrecise
  deriving DecidableEq, Repr

/-- The significand times two to the power of the exponent. -/
structure Number where
  significand : Significand
  exponent : Int
  negative : Bool
  flag : NumberFlag
  deriving DecidableEq, Repr

namespace Number

/-- A natural number. -/
def ofNat (n : Nat) : Number where
  significand := .ofNat n
  exponent := 0
  negative := false
  flag := .normal

/-- A number with the significand zero. -/
def flagged (flag : NumberFlag) (negative : Bool) : Number where
  significand := .zero
  exponent := 0
  negative := negative
  flag := flag

/-- Whether the number is whole.  One without a value is not. -/
def isInteger (number : Number) : Bool :=
  number.flag = .normal && 0 ≤ number.exponent

/-- The number with the other sign. -/
def negate (number : Number) : Number :=
  { number with negative := !number.negative }

/-- The exponent of the place just above the highest binary digit. -/
def top (number : Number) : Int :=
  number.significand.bitLength + number.exponent

/-- Compares the magnitudes of two numbers of one top, by writing both over the smaller exponent. -/
def compareAligned (a b : Number) : Ordering :=
  (a.significand.shiftLeft (a.exponent - b.exponent).toNat).compare
    (b.significand.shiftLeft (b.exponent - a.exponent).toNat)

/-- Compares the magnitudes of two numbers. -/
def compareMagnitude (a b : Number) : Ordering :=
  match a.significand.isZero, b.significand.isZero with
  | true, true => .eq
  | true, false => .lt
  | false, true => .gt
  | false, false => if a.top = b.top then a.compareAligned b else compare a.top b.top

end Number

end ExprLang
