import ExprLang.Decimal.Number
import ExprLang.Decimal.FloatFormat

/-!
# Values of a type

A number is turned into a value of a type of numbers, or there is a cause why it has none.  Integers must be
whole and in range.  Floats are rounded to the nearest representable value, a half away from zero; a value too
small for the normal range of its type is refused.
-/

namespace ExprLang

-- Powers mean the same here whatever else is imported.
attribute [local instance (high)] instPowNat

/-- A value of a type of numbers.  Floats are kept as their bits. -/
inductive Value where
  | signed (value : Int)
  | unsigned (value : Nat)
  | single (bits : UInt32)
  | double (bits : UInt64)
  deriving DecidableEq, Repr

/-- Why a number has no value of a type. -/
inductive ConversionError where
  | tooPrecise
  | infinite (target : FloatType)
  | subnormal (target : FloatType)
  | outOfBounds (target : IntegerType)
  | notInteger (target : IntegerType)
  | notUnsigned (target : IntegerType)
  deriving DecidableEq, Repr

/-- What is said about a literal without a value. -/
def ConversionError.message : ConversionError → String
  | tooPrecise => "the literal has more digits than can be read"
  | infinite target => s!"the literal is too large for `{target.name}`"
  | subnormal target => s!"the literal is too small for `{target.name}` without losing precision"
  | outOfBounds target => s!"the literal is out of bounds for `{target.name}`"
  | notInteger target => s!"the literal is not an integer, as `{target.name}` requires"
  | notUnsigned target => s!"the literal is negative, but `{target.name}` is unsigned"

/-- The `width` binary digits below the leading one, whose weight is `top`; those below the point are zero. -/
def Significand.digitsBelow (s : Significand) (top width : Nat) : Nat :=
  (List.range width).foldl
    (fun mantissa i => 2 * mantissa + if i < top && s.bit (top - 1 - i) then 1 else 0) 0

/-- The mantissa below the leading digit, rounded, and whether rounding has carried into the leading digit. -/
def Significand.roundedMantissa (s : Significand) (top width : Nat) : Nat × Bool :=
  let mantissa := s.digitsBelow top width
  if width < top && s.bit (top - width - 1) then
    if mantissa + 1 = 2 ^ width then (0, true) else (mantissa + 1, false)
  else
    (mantissa, false)

namespace Number

/-- The whole number below `2 ^ 64` that a number stands for. -/
def toInteger (number : Number) : Option Nat :=
  if !number.isInteger then none
  else if number.significand.bitLength = 0 then some 0
  else if 64 < number.significand.bitLength + number.exponent then none
  else some (number.significand.toNat * 2 ^ number.exponent.toNat)

/-- The bits of a number with a value that is not zero. -/
def encodeNonzero (number : Number) (target : FloatType) : Except ConversionError Nat :=
  let format := target.format
  let top := number.significand.bitLength - 1
  let (mantissa, carried) := number.significand.roundedMantissa top format.mantissaWidth
  let biased := top + number.exponent + (if carried then 1 else 0) + format.bias
  if format.maxBiased < biased then .error (.infinite target)
  else if biased ≤ 0 then .error (.subnormal target)
  else .ok (format.assemble number.negative biased.toNat mantissa)

/-- The bits of the float nearest to a number. -/
def encode (number : Number) (target : FloatType) : Except ConversionError Nat :=
  match number.flag with
  | .zero => .ok (target.format.assemble number.negative 0 0)
  | .infinite => .error (.infinite target)
  | .tooPrecise => .error .tooPrecise
  | .normal =>
    if number.significand.isZero then .ok (target.format.assemble number.negative 0 0)
    else number.encodeNonzero target

/-- The float nearest to a number. -/
def toFloat (number : Number) (target : FloatType) : Except ConversionError Value := do
  let bits ← number.encode target
  match target with
  | .f32 => return .single (.ofNat bits)
  | .f64 => return .double (.ofNat bits)

/-- The unsigned value of a whole number. -/
def toUnsigned (number : Number) (target : IntegerType) : Except ConversionError Value :=
  if number.negative && !number.significand.isZero then .error (.notUnsigned target)
  else if number.compareMagnitude (.ofNat target.maximum) = .gt then .error (.outOfBounds target)
  else match number.toInteger with
    | some magnitude => .ok (.unsigned magnitude)
    | none => .error (.outOfBounds target)

/-- The signed value of a whole number.  One magnitude more is allowed below zero than above. -/
def toSigned (number : Number) (target : IntegerType) : Except ConversionError Value :=
  match number.compareMagnitude (.ofNat (target.maximum + 1)), number.negative with
  | .gt, _ => .error (.outOfBounds target)
  | .eq, false => .error (.outOfBounds target)
  | _, negative =>
    match number.toInteger with
    | some magnitude => .ok (.signed (if negative then -magnitude else magnitude))
    | none => .error (.outOfBounds target)

/-- The integer that a number is. -/
def toIntegerType (number : Number) (target : IntegerType) : Except ConversionError Value :=
  match number.flag with
  | .tooPrecise => .error .tooPrecise
  | .infinite => .error (.outOfBounds target)
  | .zero => .error (.notInteger target)
  | .normal =>
    if !number.isInteger then .error (.notInteger target)
    else if target.isUnsigned then number.toUnsigned target
    else number.toSigned target

/-- The value of a number in a type. -/
def convert (number : Number) : ArithmeticType → Except ConversionError Value
  | .integer target => number.toIntegerType target
  | .float target => number.toFloat target

end Number

end ExprLang
