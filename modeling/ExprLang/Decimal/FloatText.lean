import ExprLang.Decimal.Conversion
import ExprLang.Decimal.Shortest

/-!
# Float text

A float is written with the fewest decimal digits that read back to it.  Magnitudes from `10 ^ -4` up to but
not including `10 ^ 16` are written positionally and always with a fraction; all others are written with one
digit before the point and a power of ten, without padding.
-/

namespace ExprLang

-- Powers mean the same here whatever else is imported.
attribute [local instance (high)] instPowNat

/-- How decimals are laid out. -/
structure FloatLayout where
  /-- The least power of ten of a leading digit that is written positionally. -/
  positionalFrom : Int
  /-- The greatest one. -/
  positionalTo : Int
  deriving DecidableEq, Repr

/-- Constants are written positionally between `0.0001` and `1e16`. -/
def constantLayout : FloatLayout where
  positionalFrom := -4
  positionalTo := 15

/-- The digits without zeros at the end, and how many zeros those were. -/
def splitTrailingZeros (digits : List Char) : List Char × Nat :=
  let zeros := digits.reverse.takeWhile (· = '0')
  (digits.take (digits.length - zeros.length), zeros.length)

/-- Digits with the point behind the first `places` of them, filled up with zeros. -/
def positional (digits : List Char) (places : Int) : List Char :=
  if places ≤ 0 then
    ['0', '.'] ++ List.replicate (-places).toNat '0' ++ digits
  else
    let whole := digits.take places.toNat
    let fraction := digits.drop places.toNat
    whole ++ List.replicate (places.toNat - whole.length) '0'
      ++ '.' :: (if fraction = [] then ['0'] else fraction)

/-- Digits with the point behind the first and a power of ten. -/
def scientific (digits : List Char) (order : Int) : List Char :=
  let fraction := digits.drop 1
  digits.take 1 ++ (if fraction = [] then [] else '.' :: fraction) ++ 'e' :: (toString order).toList

/-- A decimal as it is written. -/
def FloatLayout.render (layout : FloatLayout) (decimal : ShortDecimal) : List Char :=
  let (digits, zeros) := splitTrailingZeros (Nat.toDigits 10 decimal.digits)
  let order := decimal.exponent + zeros + digits.length - 1
  if layout.positionalFrom ≤ order ∧ order ≤ layout.positionalTo then positional digits (order + 1)
  else scientific digits order

namespace FloatFormat

/-- The reals that round to a float that is not zero. -/
def neighbourhood (format : FloatFormat) (biased mantissa : Nat) : Neighbourhood :=
  let significand := if biased = 0 then mantissa else 2 ^ format.mantissaWidth + mantissa
  let exponent : Int := max biased 1 - format.bias - format.mantissaWidth - 2
  let up := 2 ^ exponent.toNat
  { low := (4 * significand - if mantissa = 0 ∧ 1 < biased then 1 else 2) * up
    value := 4 * significand * up
    high := (4 * significand + 2) * up
    denominator := 2 ^ (-exponent).toNat
    closed := significand % 2 = 0 }

/-- The magnitude of a finite float as text. -/
def renderMagnitude (format : FloatFormat) (biased mantissa : Nat) : List Char :=
  if biased = 0 ∧ mantissa = 0 then ['0', '.', '0']
  else match (format.neighbourhood biased mantissa).shortest? with
    | some decimal => constantLayout.render decimal
    | none => []

/-- A finite float as text. -/
def renderBits (format : FloatFormat) (bits : Nat) : String :=
  let magnitude := format.renderMagnitude (format.biasedOf bits) (format.mantissaOf bits)
  String.ofList (if format.signOf bits then '-' :: magnitude else magnitude)

end FloatFormat

/-- A value as text. -/
def Value.render : Value → String
  | signed value => toString value
  | unsigned value => toString value
  | single bits => FloatType.f32.format.renderBits bits.toNat
  | double bits => FloatType.f64.format.renderBits bits.toNat

end ExprLang
