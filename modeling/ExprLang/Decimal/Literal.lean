import ExprLang.Decimal.Number

/-!
# Literals

A literal has a sign, decimal digits and an exponent that says which power of ten the last digit counts.  Its
text may hold underscores between digits, a point, and an exponent after `e` or `E`.  A literal whose value
lies outside the range of all types is not worked out but flagged.
-/

namespace ExprLang

-- Powers mean the same here whatever else is imported.
attribute [local instance (high)] instPowNat

/-- The most digits a literal may have before its exponent. -/
def digitLimit : Nat := 65536

/-- The largest magnitude of the exponent of a literal. -/
def exponentLimit : Nat := 65536

/-- The largest power of ten that a float type reaches. -/
def maxOrder : Int := 308

/-- The powers of ten below this one are out of reach of all float types. -/
def minOrder : Int := -400

/-- Larger exponents are not told apart. -/
def exponentCap : Nat := 2 ^ (63 : Nat) - 1

/-- What a literal says: its digits from the most significant one on, times a power of ten. -/
structure Literal where
  negative : Bool
  digits : List Nat
  exponent : Int
  deriving DecidableEq, Repr

/-- Whether a character introduces an exponent. -/
def isExponentMark (c : Char) : Bool :=
  c = 'e' || c = 'E'

/-- The values of the digits of a text. -/
def digitValues (text : List Char) : List Nat :=
  (text.filter Char.isDigit).map fun c => c.toNat - '0'.toNat

/-- The number written by decimal digits. -/
def digitsValue (digits : List Nat) : Nat :=
  digits.foldl (fun value digit => 10 * value + digit) 0

/-- The number written by decimal digits, or `exponentCap` if that is smaller. -/
def cappedValue (digits : List Nat) : Nat :=
  digits.foldl (fun value digit => min (10 * value + digit) exponentCap) 0

private theorem foldl_min_cap (digits : List Nat) (value : Nat) :
    digits.foldl (fun value digit => min (10 * value + digit) exponentCap) (min value exponentCap)
      = min (digits.foldl (fun value digit => 10 * value + digit) value) exponentCap := by
  induction digits generalizing value with
  | nil => rfl
  | cons digit digits ih =>
    rw [List.foldl_cons, List.foldl_cons, ← ih]
    congr 1
    omega

theorem cappedValue_eq_min (digits : List Nat) :
    cappedValue digits = min (digitsValue digits) exponentCap :=
  foldl_min_cap digits 0

namespace Literal

/-- The part of a text before its exponent. -/
def mantissa (text : List Char) : List Char :=
  text.takeWhile (!isExponentMark ·)

/-- The value of an exponent, whose text follows the `e`. -/
def readExponent (text : List Char) : Except Fault Int :=
  match text.find? fun c => !(c.isDigit || c = '_' || c = '+' || c = '-') with
  | some c => .error (.exponentExpected c text)
  | none =>
    let value : Int := cappedValue (digitValues text)
    .ok (if '-' ∈ text then -value else value)

/-- The literal written by a text. -/
def read (text : List Char) : Except Fault Literal := do
  let front := mantissa text
  if let some c := front.find? fun c => !(c.isDigit || c = '_' || c = '+' || c = '-' || c = '.') then
    throw (.digitExpected c text)
  let fraction := digitValues (front.dropWhile (· ≠ '.'))
  let power ← match text.dropWhile (!isExponentMark ·) with
    | [] => pure 0
    | _ :: exponent => readExponent exponent
  return { negative := '-' ∈ front, digits := digitValues front, exponent := power - fraction.length }

/-- The digits from the first that is not zero on. -/
def significantDigits (literal : Literal) : List Nat :=
  literal.digits.dropWhile (· = 0)

/-- The power of ten that the first significant digit counts. -/
def order (literal : Literal) : Int :=
  literal.exponent + literal.significantDigits.length - 1

/-- The digits as a significand. -/
def significand (literal : Literal) : Significand :=
  .ofNat (digitsValue literal.significantDigits)

/-- The flag of a literal: whether its value is in range. -/
def flag (literal : Literal) : NumberFlag :=
  if literal.significantDigits.isEmpty then .normal
  else if exponentLimit < literal.exponent then .infinite
  else if literal.exponent < -exponentLimit then .zero
  else if maxOrder < literal.order then .infinite
  else if literal.order < minOrder then .zero
  else .normal

/-- The number that a literal stands for. -/
def toNumber (literal : Literal) : Except Fault Number := do
  if literal.flag ≠ .normal then
    return .flagged literal.flag literal.negative
  if literal.significantDigits.isEmpty then
    return .flagged .normal literal.negative
  let (significand, exponent) ← literal.significand.rebase literal.exponent 10 2
  return { significand, exponent, negative := literal.negative, flag := .normal }

end Literal

/-- The number written by a text. -/
def Number.ofText (text : List Char) : Except Fault Number := do
  let front := Literal.mantissa text
  if digitLimit < front.countP Char.isDigit then
    return .flagged .tooPrecise (front.head? = some '-')
  (← Literal.read text).toNumber

end ExprLang
