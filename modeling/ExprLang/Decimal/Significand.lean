import ExprLang.Fault

/-!
# Significands

A significand is a natural number of any size, written in base 256 with the least significant byte first.  It
is canonical when its most significant byte is not zero, so zero has no bytes.  `toNat` is the number it
stands for, and each operation is described by what it does to that number.
-/

namespace ExprLang

-- Powers mean the same here whatever else is imported.
attribute [local instance (high)] instPowNat

/-- A natural number in base 256, least significant byte first. -/
structure Significand where
  bytes : List UInt8
  deriving DecidableEq, Repr

/-! ### Arithmetic on bytes -/

/-- The number written by some bytes. -/
def bytesValue : List UInt8 → Nat
  | [] => 0
  | b :: bytes => b.toNat + 256 * bytesValue bytes

/-- The bytes of a number. -/
def bytesOf (n : Nat) : List UInt8 :=
  if n = 0 then [] else UInt8.ofNat n :: bytesOf (n / 256)
termination_by n

/-- The bytes without most significant zeros. -/
def trimBytes : List UInt8 → List UInt8
  | [] => []
  | b :: bytes =>
    match trimBytes bytes with
    | [] => if b = 0 then [] else [b]
    | kept => b :: kept

/-- Adds a number to bytes. -/
def absorb : List UInt8 → Nat → List UInt8
  | [], carry => bytesOf carry
  | b :: bytes, carry =>
    if carry = 0 then b :: bytes
    else UInt8.ofNat (b.toNat + carry) :: absorb bytes ((b.toNat + carry) / 256)

/-- Adds bytes and a carry to bytes. -/
def addBytes : List UInt8 → List UInt8 → Nat → List UInt8
  | [], bs, carry => absorb bs carry
  | as, [], carry => absorb as carry
  | a :: as, b :: bs, carry =>
    UInt8.ofNat (a.toNat + b.toNat + carry) :: addBytes as bs ((a.toNat + b.toNat + carry) / 256)

/-- Multiplies bytes by a number and adds a carry. -/
def scaleBytes (factor : Nat) : List UInt8 → Nat → List UInt8
  | [], carry => bytesOf carry
  | b :: bytes, carry =>
    UInt8.ofNat (b.toNat * factor + carry) :: scaleBytes factor bytes ((b.toNat * factor + carry) / 256)

/-- The product of bytes, one byte of the first factor after the other. -/
def multiplyBytes : List UInt8 → List UInt8 → List UInt8
  | [], _ => []
  | a :: as, bs => addBytes (scaleBytes a.toNat bs 0) (0 :: multiplyBytes as bs) 0

/-- Divides bytes by a number, from the most significant byte down. -/
def divideBytes (divisor : Nat) : List UInt8 → List UInt8 × Nat
  | [] => ([], 0)
  | b :: bytes =>
    let (quotient, remainder) := divideBytes divisor bytes
    let cell := remainder * 256 + b.toNat
    (UInt8.ofNat (cell / divisor) :: quotient, cell % divisor)

/-- Moves the bits of bytes down by fewer than eight places. -/
def lowerBytes (places : Nat) : List UInt8 → List UInt8
  | [] => []
  | [b] => [UInt8.ofNat (b.toNat / 2 ^ places)]
  | b :: next :: bytes =>
    UInt8.ofNat ((b.toNat + 256 * next.toNat) / 2 ^ places) :: lowerBytes places (next :: bytes)

/-- Compares byte lists of one length; the most significant difference decides. -/
def compareBytes : List UInt8 → List UInt8 → Ordering
  | a :: as, b :: bs => (compareBytes as bs).then (compare a.toNat b.toNat)
  | _, _ => .eq

namespace Significand

/-- The number that a significand stands for. -/
def toNat (s : Significand) : Nat :=
  bytesValue s.bytes

/-- The significand of a number. -/
def ofNat (n : Nat) : Significand :=
  ⟨bytesOf n⟩

/-- Zero has no bytes. -/
def zero : Significand :=
  ⟨[]⟩

/-- Whether there is no most significant zero. -/
def IsCanonical (s : Significand) : Prop :=
  s.bytes.getLast? ≠ some 0

instance (s : Significand) : Decidable s.IsCanonical :=
  inferInstanceAs (Decidable (_ ≠ _))

/-- Whether a canonical significand is zero. -/
def isZero (s : Significand) : Bool :=
  s.bytes.isEmpty

/-! ### Arithmetic -/

/-- The sum of two significands. -/
def add (a b : Significand) : Significand :=
  ⟨addBytes a.bytes b.bytes 0⟩

/-- The sum of a significand and a number. -/
def addSmall (s : Significand) (addend : Nat) : Significand :=
  ⟨absorb s.bytes addend⟩

/-- The product of two significands. -/
def multiply (a b : Significand) : Significand :=
  ⟨trimBytes (multiplyBytes a.bytes b.bytes)⟩

/-- The product of a significand and a number. -/
def multiplySmall (s : Significand) (factor : Nat) : Significand :=
  ⟨trimBytes (scaleBytes factor s.bytes 0)⟩

/-- The quotient and the remainder of a division by a number. -/
def divideSmall (s : Significand) (divisor : Nat) : Except Fault (Significand × Nat) :=
  if divisor = 0 then .error .divisionByZero
  else
    let (quotient, remainder) := divideBytes divisor s.bytes
    .ok (⟨trimBytes quotient⟩, remainder)

/-- The remainder of a division by a number. -/
def modulusSmall (s : Significand) (divisor : Nat) : Except Fault Nat :=
  if divisor = 0 then .error .divisionByZero
  else .ok (s.bytes.foldr (fun b remainder => (remainder * 256 + b.toNat) % divisor) 0)

/-! ### Bits -/

/-- The number of binary digits. -/
def bitLength (s : Significand) : Nat :=
  match s.bytes.getLast? with
  | some top => (s.bytes.length - 1) * 8 + if top = 0 then 0 else top.toNat.log2 + 1
  | none => 0

/-- The binary digit with a given weight. -/
def bit (s : Significand) (index : Nat) : Bool :=
  s.bytes[index / 8]?.any fun b => b.toNat.testBit (index % 8)

/-- The number of binary zeros below the lowest one. -/
def trailingZeroBits (s : Significand) : Nat :=
  let whole := (s.bytes.takeWhile (· = 0)).length
  match s.bytes[whole]? with
  | some b => whole * 8 + ((List.range 8).takeWhile (!b.toNat.testBit ·)).length
  | none => 0

/-- Moves the bits up; below them come zeros. -/
def shiftLeft (s : Significand) (places : Nat) : Significand :=
  if s.isZero then s
  else ⟨List.replicate (places / 8) 0 ++ scaleBytes (2 ^ (places % 8)) s.bytes 0⟩

/-- Moves the bits down; those that pass the lowest place are lost. -/
def shiftRight (s : Significand) (places : Nat) : Significand :=
  ⟨trimBytes (lowerBytes (places % 8) (s.bytes.drop (places / 8)))⟩

/-! ### Order -/

/-- Compares canonical significands: more bytes are a larger number. -/
def compare (a b : Significand) : Ordering :=
  (Ord.compare a.bytes.length b.bytes.length).then (compareBytes a.bytes b.bytes)

end Significand

/-! ### Values of the byte operations -/

private theorem toNat_ofNat_add (n : Nat) : (UInt8.ofNat n).toNat + 256 * (n / 256) = n := by
  rw [UInt8.toNat_ofNat']
  omega

@[simp] theorem bytesValue_bytesOf (n : Nat) : bytesValue (bytesOf n) = n := by
  fun_induction bytesOf n with
  | case1 => rfl
  | case2 n _ ih => rw [bytesValue, ih, toNat_ofNat_add]

@[simp] theorem bytesValue_absorb (bytes : List UInt8) (carry : Nat) :
    bytesValue (absorb bytes carry) = bytesValue bytes + carry := by
  fun_induction absorb bytes carry with
  | case1 => simp [bytesValue]
  | case2 => rfl
  | case3 b bytes carry _ ih =>
    have := toNat_ofNat_add (b.toNat + carry)
    simp only [bytesValue, ih]
    omega

@[simp] theorem bytesValue_addBytes (as bs : List UInt8) (carry : Nat) :
    bytesValue (addBytes as bs carry) = bytesValue as + bytesValue bs + carry := by
  fun_induction addBytes as bs carry with
  | case1 => simp [bytesValue]
  | case2 => simp [bytesValue]
  | case3 a as b bs carry ih =>
    have := toNat_ofNat_add (a.toNat + b.toNat + carry)
    simp only [bytesValue, ih]
    omega

@[simp] theorem bytesValue_scaleBytes (factor : Nat) (bytes : List UInt8) (carry : Nat) :
    bytesValue (scaleBytes factor bytes carry) = bytesValue bytes * factor + carry := by
  fun_induction scaleBytes factor bytes carry with
  | case1 => simp [bytesValue]
  | case2 b bytes carry ih =>
    have := toNat_ofNat_add (b.toNat * factor + carry)
    simp only [bytesValue, ih, Nat.add_mul, Nat.mul_assoc]
    omega

@[simp] theorem bytesValue_trimBytes (bytes : List UInt8) :
    bytesValue (trimBytes bytes) = bytesValue bytes := by
  fun_induction trimBytes bytes with
  | case1 => rfl
  | case2 bytes h ih => simp [bytesValue, ← ih, h]
  | case3 b bytes h _ ih => simp [bytesValue, ← ih, h]
  | case4 b bytes kept ih => simp [bytesValue, ih]

@[simp] theorem bytesValue_multiplyBytes (as bs : List UInt8) :
    bytesValue (multiplyBytes as bs) = bytesValue as * bytesValue bs := by
  induction as with
  | nil => simp [multiplyBytes, bytesValue]
  | cons a as ih =>
    simp only [multiplyBytes, bytesValue_addBytes, bytesValue_scaleBytes, bytesValue, ih, UInt8.toNat_zero,
      Nat.add_mul, Nat.mul_assoc, Nat.mul_comm (bytesValue bs)]
    omega

end ExprLang
