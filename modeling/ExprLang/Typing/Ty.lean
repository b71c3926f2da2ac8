/-!
# Types

The types of the language: eight integer types, two float types and the truth values.
-/

namespace ExprLang

-- Powers mean the same here whatever else is imported.
attribute [local instance (high)] instPowNat

/-- The integer types. -/
inductive IntegerType where
  | i8
  | i16
  | i32
  | i64
  | u8
  | u16
  | u32
  | u64
  deriving DecidableEq, Repr

/-- The float types. -/
inductive FloatType where
  | f32
  | f64
  deriving DecidableEq, Repr

/-- The types of numbers. -/
inductive ArithmeticType where
  | integer (kind : IntegerType)
  | float (kind : FloatType)
  deriving DecidableEq, Repr

/-- The types. -/
inductive Ty where
  | arithmetic (kind : ArithmeticType)
  | bool
  deriving DecidableEq, Repr

namespace IntegerType

/-- All integer types. -/
def all : List IntegerType := [i8, i16, i32, i64, u8, u16, u32, u64]

/-- The spelling of an integer type. -/
def name : IntegerType → String
  | i8 => "i8"
  | i16 => "i16"
  | i32 => "i32"
  | i64 => "i64"
  | u8 => "u8"
  | u16 => "u16"
  | u32 => "u32"
  | u64 => "u64"

/-- The number of bits of a value. -/
def width : IntegerType → Nat
  | i8 | u8 => 8
  | i16 | u16 => 16
  | i32 | u32 => 32
  | i64 | u64 => 64

/-- Whether no value is negative. -/
def isUnsigned : IntegerType → Bool
  | u8 | u16 | u32 | u64 => true
  | i8 | i16 | i32 | i64 => false

/-- The largest value. -/
def maximum (kind : IntegerType) : Nat :=
  if kind.isUnsigned then 2 ^ kind.width - 1 else 2 ^ (kind.width - 1) - 1

/-- The smallest value. -/
def minimum (kind : IntegerType) : Int :=
  if kind.isUnsigned then 0 else -2 ^ (kind.width - 1)

end IntegerType

namespace FloatType

/-- All float types. -/
def all : List FloatType := [f32, f64]

/-- The spelling of a float type. -/
def name : FloatType → String
  | f32 => "f32"
  | f64 => "f64"

end FloatType

namespace ArithmeticType

/-- All types of numbers, the integer types first. -/
def all : List ArithmeticType := IntegerType.all.map integer ++ FloatType.all.map float

/-- The spelling of a type of numbers. -/
def name : ArithmeticType → String
  | integer kind => kind.name
  | float kind => kind.name

/-- Whether this is an unsigned integer type. -/
def isUnsigned : ArithmeticType → Bool
  | integer kind => kind.isUnsigned
  | float _ => false

end ArithmeticType

namespace Ty

/-- All types, the truth values last. -/
def all : List Ty := ArithmeticType.all.map arithmetic ++ [bool]

/-- The spelling of a type. -/
def name : Ty → String
  | arithmetic kind => kind.name
  | bool => "bool"

/-- The type with a spelling. -/
def ofName? (name : List Char) : Option Ty :=
  all.find? fun ty => ty.name.toList == name

/-- The type of numbers that this is. -/
def arithmetic? : Ty → Option ArithmeticType
  | arithmetic kind => some kind
  | bool => none

/-- Whether this is a type of numbers. -/
def isArithmetic (ty : Ty) : Bool :=
  ty.arithmetic?.isSome

/-- Whether this is an integer type. -/
def isInteger : Ty → Bool
  | arithmetic (.integer _) => true
  | _ => false

/-- Whether this is an unsigned integer type. -/
def isUnsigned (ty : Ty) : Bool :=
  ty.arithmetic?.any ArithmeticType.isUnsigned

end Ty

end ExprLang
