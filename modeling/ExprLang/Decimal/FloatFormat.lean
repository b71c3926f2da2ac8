import ExprLang.Typing.Ty

/-!
# Binary float formats

A float is written as a sign bit, a biased exponent and the binary digits below the leading one.  Exponent
fields of all zeros and of all ones are set apart for zeros, subnormals, infinities and the like; no such
value but zero is ever written.
-/

namespace ExprLang

-- Powers mean the same here whatever else is imported.
attribute [local instance (high)] instPowNat

/-- The widths of the fields of a float. -/
structure FloatFormat where
  mantissaWidth : Nat
  exponentWidth : Nat
  deriving DecidableEq, Repr

/-- The format of a float type. -/
def FloatType.format : FloatType → FloatFormat
  | f32 => { mantissaWidth := 23, exponentWidth := 8 }
  | f64 => { mantissaWidth := 52, exponentWidth := 11 }

namespace FloatFormat

/-- What is added to an exponent before it is written. -/
def bias (format : FloatFormat) : Int :=
  2 ^ (format.exponentWidth - 1) - 1

/-- The largest exponent field of a finite value. -/
def maxBiased (format : FloatFormat) : Int :=
  2 ^ format.exponentWidth - 2

/-- The bits of a float. -/
def assemble (format : FloatFormat) (negative : Bool) (biased mantissa : Nat) : Nat :=
  (if negative then 2 ^ (format.mantissaWidth + format.exponentWidth) else 0)
    + biased * 2 ^ format.mantissaWidth + mantissa

/-- The sign bit of a float. -/
def signOf (format : FloatFormat) (bits : Nat) : Bool :=
  bits.testBit (format.mantissaWidth + format.exponentWidth)

/-- The exponent field of a float. -/
def biasedOf (format : FloatFormat) (bits : Nat) : Nat :=
  bits / 2 ^ format.mantissaWidth % 2 ^ format.exponentWidth

/-- The mantissa field of a float. -/
def mantissaOf (format : FloatFormat) (bits : Nat) : Nat :=
  bits % 2 ^ format.mantissaWidth

end FloatFormat

end ExprLang
