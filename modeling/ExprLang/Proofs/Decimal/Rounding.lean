import ExprLang.Decimal.Conversion
import ExprLang.Proofs.Decimal.Rebasing
import Mathlib.Data.Int.Log
import Mathlib.Data.Rat.Floor
import Mathlib.Tactic.NormNum

/-!
# Rounding to a float

A positive number is rounded to a number of binary digits, to the nearest and a half up (`roundTo`).  The bits
of a float are decoded again (`FloatFormat.decode?`).  A number is turned into the float that decodes to the
rounded number; if that is outside the normal range, the number is refused (`encodeNonzero_cases`).
-/

namespace ExprLang

/-! ### Rounding -/

/-- The unit of the last of `digits` binary digits of a positive number. -/
def lastPlace (digits : Nat) (x : ℚ) : ℚ :=
  2 ^ (Int.log 2 x - digits + 1)

/-- A positive number rounded to `digits` binary digits: to the nearest, and to the larger one of two. -/
def roundTo (digits : Nat) (x : ℚ) : ℚ :=
  ⌊x / lastPlace digits x + 1 / 2⌋ * lastPlace digits x

/-- Half the denominator is added before dividing. -/
private theorem floor_div_add_half (a : Nat) {b : Nat} (hb : 0 < b) :
    ⌊(a : ℚ) / b + 1 / 2⌋ = ((2 * a + b) / (2 * b) : ℕ) := by
  have hb' : (b : ℚ) ≠ 0 := by exact_mod_cast hb.ne'
  have hsum : (a : ℚ) / b + 1 / 2 = ((2 * a + b : ℕ) : ℚ) / ((2 * b : ℕ) : ℚ) := by
    push_cast
    field_simp
  rw [hsum, Rat.floor_natCast_div_natCast]
  rfl

private theorem lastPlace_pos (digits : Nat) (x : ℚ) : 0 < lastPlace digits x := by
  rw [lastPlace]
  positivity

/-- Rounding does not leave the powers of two that a number lies between. -/
theorem zpow_log_le_roundTo {digits : Nat} (hdigits : 0 < digits) {x : ℚ} (hx : 0 < x) :
    2 ^ Int.log 2 x ≤ roundTo digits x := by
  have hplace := lastPlace_pos digits x
  have hlow : (2 : ℚ) ^ Int.log 2 x = (2 ^ (digits - 1) : ℤ) * lastPlace digits x := by
    push_cast
    rw [lastPlace, ← zpow_natCast, ← zpow_add₀ two_ne_zero]
    congr 1
    omega
  have hself : (2 : ℚ) ^ Int.log 2 x ≤ x := by exact_mod_cast Int.zpow_log_le_self (b := 2) (by norm_num) hx
  rw [roundTo, hlow]
  refine mul_le_mul_of_nonneg_right (Int.cast_le.2 (Int.le_floor.2 ?_)) hplace.le
  have : ((2 ^ (digits - 1) : ℤ) : ℚ) ≤ x / lastPlace digits x := by
    rw [le_div_iff₀ hplace, ← hlow]
    exact hself
  linarith

theorem roundTo_le_zpow_log (digits : Nat) (x : ℚ) :
    roundTo digits x ≤ 2 ^ (Int.log 2 x + 1) := by
  have hplace := lastPlace_pos digits x
  have hhigh : (2 : ℚ) ^ (Int.log 2 x + 1) = (2 ^ digits : ℤ) * lastPlace digits x := by
    push_cast
    rw [lastPlace, ← zpow_natCast, ← zpow_add₀ two_ne_zero]
    congr 1
    omega
  have hself : x < (2 : ℚ) ^ (Int.log 2 x + 1) := by exact_mod_cast Int.lt_zpow_succ_log_self (b := 2) (by norm_num) x
  rw [roundTo, hhigh]
  refine mul_le_mul_of_nonneg_right (Int.cast_le.2 (Int.lt_add_one_iff.1 (Int.floor_lt.2 ?_))) hplace.le
  have : x / lastPlace digits x < ((2 ^ digits : ℤ) : ℚ) := by
    rw [div_lt_iff₀ hplace, ← hhigh]
    exact hself
  push_cast at this ⊢
  linarith

theorem roundTo_le_roundTo {digits : Nat} (hdigits : 0 < digits) {x y : ℚ} (hx : 0 < x) (h : x ≤ y) :
    roundTo digits x ≤ roundTo digits y := by
  rcases (Int.log_mono_right (b := 2) hx h).eq_or_lt with hlog | hlog
  · have hplace : lastPlace digits x = lastPlace digits y := by rw [lastPlace, lastPlace, hlog]
    have hpos := lastPlace_pos digits y
    rw [roundTo, roundTo, hplace]
    refine mul_le_mul_of_nonneg_right (Int.cast_le.2 (Int.floor_le_floor ?_)) hpos.le
    have := (div_le_div_iff_of_pos_right hpos).2 h
    linarith
  · calc roundTo digits x ≤ 2 ^ (Int.log 2 x + 1) := roundTo_le_zpow_log digits x
      _ ≤ 2 ^ Int.log 2 y := zpow_le_zpow_right₀ (by norm_num) hlog
      _ ≤ roundTo digits y := zpow_log_le_roundTo hdigits (hx.trans_le h)

private theorem div_two_pow_eq (n k : Nat) : n / 2 ^ k = 2 * (n / 2 ^ (k + 1)) + (n.testBit k).toNat := by
  rw [Nat.testBit_eq_decide_div_mod_eq, Nat.pow_succ, ← Nat.div_div_eq_div_mul]
  by_cases h : n / 2 ^ k % 2 = 1
  · simp only [h, decide_true, Bool.toNat_true]
    omega
  · simp only [h, decide_false, Bool.toNat_false]
    omega

/-- A quotient by a power of two is rounded up if the first digit that is cut off is one. -/
private theorem div_add_half_two_pow (n k : Nat) :
    (2 * n + 2 ^ (k + 1)) / (2 * 2 ^ (k + 1)) = n / 2 ^ (k + 1) + (n.testBit k).toNat := by
  have hk : 0 < 2 ^ k := Nat.pow_pos (by decide)
  have hquotient := div_two_pow_eq n k
  have hbit := Bool.toNat_le (n.testBit k)
  calc (2 * n + 2 ^ (k + 1)) / (2 * 2 ^ (k + 1)) = 2 * (n + 2 ^ k) / (2 * (2 ^ k * 2)) := by
        rw [Nat.pow_succ, Nat.mul_add, Nat.mul_comm (2 ^ k) 2]
    _ = (n + 2 ^ k) / 2 ^ k / 2 := by rw [Nat.mul_div_mul_left _ _ (by decide), Nat.div_div_eq_div_mul]
    _ = (n / 2 ^ k + 1) / 2 := by rw [Nat.add_div_right _ hk]
    _ = n / 2 ^ (k + 1) + (n.testBit k).toNat := by omega

/-- The binary digits of a number below the one with the weight `top`, and that one, rounded. -/
def roundedDigits (n top width : Nat) : Nat :=
  n * 2 ^ width / 2 ^ top + if width < top then (n.testBit (top - width - 1)).toNat else 0

private theorem floor_eq_roundedDigits (n top width : Nat) :
    ⌊((n * 2 ^ width : ℕ) : ℚ) / (2 ^ top : ℕ) + 1 / 2⌋ = roundedDigits n top width := by
  rw [floor_div_add_half _ (Nat.pow_pos (by decide)), roundedDigits]
  congr 1
  rcases Nat.lt_or_ge width top with hlt | hge
  · obtain ⟨k, rfl⟩ : ∃ k, top = k + 1 + width := ⟨top - width - 1, by omega⟩
    have hwidth : 0 < 2 ^ width := Nat.pow_pos (by decide)
    rw [if_pos hlt, show k + 1 + width - width - 1 = k by omega, Nat.pow_add 2 (k + 1),
      Nat.mul_div_mul_right _ _ hwidth, ← div_add_half_two_pow, ← Nat.mul_assoc, ← Nat.mul_assoc,
      ← Nat.add_mul, Nat.mul_div_mul_right _ _ hwidth]
  · obtain ⟨k, rfl⟩ : ∃ k, width = k + top := ⟨width - top, by omega⟩
    have htop : 0 < 2 ^ top := Nat.pow_pos (by decide)
    rw [if_neg (Nat.not_lt.2 hge), Nat.pow_add, ← Nat.mul_assoc n, Nat.mul_div_cancel _ htop]
    generalize n * 2 ^ k = whole
    calc (2 * (whole * 2 ^ top) + 2 ^ top) / (2 * 2 ^ top) = (2 * whole + 1) * 2 ^ top / (2 * 2 ^ top) := by
          rw [Nat.add_mul, Nat.one_mul, Nat.mul_assoc]
      _ = whole + 0 := by
          rw [Nat.mul_div_mul_right _ _ htop]
          omega

/-- The digits that are kept, and whether they have become one more. -/
private theorem two_pow_mul_le_roundedDigits {n top : Nat} (hlow : 2 ^ top ≤ n) (hhigh : n < 2 ^ (top + 1))
    (width : Nat) :
    2 ^ width ≤ n * 2 ^ width / 2 ^ top ∧ n * 2 ^ width / 2 ^ top < 2 ^ (width + 1) := by
  have htop : 0 < 2 ^ top := Nat.pow_pos (by decide)
  constructor
  · rw [Nat.le_div_iff_mul_le htop, Nat.mul_comm]
    exact Nat.mul_le_mul_right _ hlow
  · rw [Nat.div_lt_iff_lt_mul htop, ← Nat.pow_add, show width + 1 + top = (top + 1) + width by omega, Nat.pow_add]
    exact Nat.mul_lt_mul_of_pos_right hhigh (Nat.pow_pos (by decide))

/-- A significand times a power of two, rounded. -/
private theorem roundTo_eq {n top : Nat} (hlow : 2 ^ top ≤ n) (hhigh : n < 2 ^ (top + 1)) (exponent : Int)
    (width : Nat) :
    roundTo (width + 1) (n * 2 ^ exponent)
      = roundedDigits n top width * (2 : ℚ) ^ (top + exponent - width : Int) := by
  have hn : (0 : ℚ) < n := by exact_mod_cast lt_of_lt_of_le (Nat.pow_pos (by decide)) hlow
  have hpower : (0 : ℚ) < 2 ^ exponent := by positivity
  have hlog : Int.log 2 ((n : ℚ) * 2 ^ exponent) = top + exponent := by
    have hle : (2 : ℚ) ^ (top + exponent : Int) ≤ n * 2 ^ exponent := by
      rw [zpow_add₀ two_ne_zero, zpow_natCast]
      exact mul_le_mul_of_nonneg_right (by exact_mod_cast hlow) hpower.le
    have hlt : (n : ℚ) * 2 ^ exponent < 2 ^ (top + exponent + 1 : Int) := by
      rw [show (top + exponent + 1 : Int) = ((top + 1 : ℕ) : Int) + exponent by push_cast; ring,
        zpow_add₀ two_ne_zero, zpow_natCast]
      exact mul_lt_mul_of_pos_right (by exact_mod_cast hhigh) hpower
    have hle' := (Int.zpow_le_iff_le_log (b := 2) (by norm_num) (mul_pos hn hpower)).1 (by exact_mod_cast hle)
    have hlt' := (Int.lt_zpow_iff_log_lt (b := 2) (by norm_num) (mul_pos hn hpower)).1 (by exact_mod_cast hlt)
    omega
  have hplace : lastPlace (width + 1) (n * 2 ^ exponent) = 2 ^ (top + exponent - width : Int) := by
    rw [lastPlace, hlog]
    congr 1
    push_cast
    ring
  have hquotient : (n : ℚ) * 2 ^ exponent / 2 ^ (top + exponent - width : Int)
      = ((n * 2 ^ width : ℕ) : ℚ) / (2 ^ top : ℕ) := by
    push_cast
    rw [zpow_sub₀ two_ne_zero, zpow_add₀ two_ne_zero, zpow_natCast, zpow_natCast]
    field_simp
  rw [roundTo, hplace, hquotient, floor_eq_roundedDigits]
  rfl

/-! ### The digits of a mantissa -/

/-- One digit more is kept; those below the point are zero. -/
private theorem mul_two_pow_succ_div (n top width : Nat) :
    n * 2 ^ (width + 1) / 2 ^ top
      = 2 * (n * 2 ^ width / 2 ^ top) + if width < top then (n.testBit (top - 1 - width)).toNat else 0 := by
  rcases Nat.lt_or_ge width top with hlt | hge
  · obtain ⟨k, rfl⟩ : ∃ k, top = k + (width + 1) := ⟨top - width - 1, by omega⟩
    have hwidth : 0 < 2 ^ width := Nat.pow_pos (by decide)
    have hmore : n * 2 ^ (width + 1) / 2 ^ (k + (width + 1)) = n / 2 ^ k := by
      rw [Nat.pow_add 2 k, Nat.mul_div_mul_right _ _ (Nat.pow_pos (by decide))]
    have hfewer : n * 2 ^ width / 2 ^ (k + (width + 1)) = n / 2 ^ (k + 1) := by
      rw [show k + (width + 1) = k + 1 + width by omega, Nat.pow_add 2 (k + 1), Nat.mul_div_mul_right _ _ hwidth]
    rw [hmore, hfewer, if_pos hlt, show k + (width + 1) - 1 - width = k by omega, div_two_pow_eq]
  · obtain ⟨k, rfl⟩ : ∃ k, width = k + top := ⟨width - top, by omega⟩
    have htop : 0 < 2 ^ top := Nat.pow_pos (by decide)
    have hmore : n * 2 ^ (k + top + 1) / 2 ^ top = n * 2 ^ (k + 1) := by
      rw [show k + top + 1 = k + 1 + top by omega, Nat.pow_add 2 (k + 1), ← Nat.mul_assoc,
        Nat.mul_div_cancel _ htop]
    have hfewer : n * 2 ^ (k + top) / 2 ^ top = n * 2 ^ k := by
      rw [Nat.pow_add, ← Nat.mul_assoc, Nat.mul_div_cancel _ htop]
    rw [hmore, hfewer, if_neg (Nat.not_lt.2 hge), Nat.pow_succ]
    ring

/-- The digits below the leading one are the number without it. -/
private theorem two_pow_add_digitsBelow {s : Significand} {top : Nat} (hlow : 2 ^ top ≤ s.toNat)
    (hhigh : s.toNat < 2 ^ (top + 1)) (width : Nat) :
    2 ^ width + s.digitsBelow top width = s.toNat * 2 ^ width / 2 ^ top := by
  induction width with
  | zero =>
    rw [Nat.pow_zero, Nat.mul_one]
    refine (Nat.div_eq_of_lt_le ?_ ?_).symm
    · exact (Nat.one_mul _).trans_le hlow
    · exact hhigh.trans_eq (Nat.pow_succ' (m := 2))
  | succ width ih =>
    have hstep : s.digitsBelow top (width + 1)
        = 2 * s.digitsBelow top width + if width < top && s.bit (top - 1 - width) then 1 else 0 := by
      rw [Significand.digitsBelow, List.range_succ, List.foldl_append]
      rfl
    rw [hstep, mul_two_pow_succ_div, ← ih, Significand.bit_eq_testBit, Nat.pow_succ]
    by_cases hlt : width < top
    · cases s.toNat.testBit (top - 1 - width) <;> simp [hlt] <;> ring
    · simp [hlt]
      ring

/-- The rounded mantissa with the leading digit, which moves up by one place if rounding has carried. -/
private theorem roundedMantissa_spec {s : Significand} {top : Nat} (hlow : 2 ^ top ≤ s.toNat)
    (hhigh : s.toNat < 2 ^ (top + 1)) (width : Nat) :
    (s.roundedMantissa top width).1 < 2 ^ width ∧
      (2 ^ width + (s.roundedMantissa top width).1) * 2 ^ (s.roundedMantissa top width).2.toNat
        = roundedDigits s.toNat top width := by
  have hdigits := two_pow_add_digitsBelow hlow hhigh width
  have hrange := two_pow_mul_le_roundedDigits hlow hhigh width
  rw [← hdigits, Nat.pow_succ] at hrange
  rw [roundedDigits, ← hdigits, ← Significand.bit_eq_testBit, Significand.roundedMantissa]
  by_cases hlt : width < top
  · cases hbit : s.bit (top - width - 1)
    · simp [hlt]
      omega
    · by_cases hcarry : s.digitsBelow top width + 1 = 2 ^ width
      · simp [hlt, hcarry]
        omega
      · simp [hlt, hcarry]
        omega
  · simp [hlt]
    omega

/-! ### Bits -/

namespace FloatFormat

variable (format : FloatFormat)

/-- The smallest positive number whose leading digit is not written. -/
def smallestNormal : ℚ :=
  2 ^ (1 - format.bias)

/-- The largest finite number. -/
def largest : ℚ :=
  (2 ^ (format.mantissaWidth + 1) - 1) * 2 ^ (format.maxBiased - format.bias - format.mantissaWidth)

/-- The number with a mantissa after a leading one, times its power of two. -/
def normalMagnitude (biased : Int) (mantissa : Nat) : ℚ :=
  (2 ^ format.mantissaWidth + mantissa) * 2 ^ (biased - format.bias - format.mantissaWidth)

/-- The number that the bits of a finite float stand for, without its sign. -/
def decodeMagnitude (bits : Nat) : ℚ :=
  if format.biasedOf bits = 0 then format.mantissaOf bits * 2 ^ (1 - format.bias - format.mantissaWidth)
  else format.normalMagnitude (format.biasedOf bits) (format.mantissaOf bits)

/-- The number that the bits of a float stand for, if it is finite. -/
def decode? (bits : Nat) : Option ℚ :=
  if format.maxBiased < format.biasedOf bits then none
  else some (if format.signOf bits then -format.decodeMagnitude bits else format.decodeMagnitude bits)

variable {format} {negative : Bool} {biased mantissa : Nat}

private theorem assemble_eq (format : FloatFormat) (negative : Bool) (biased mantissa : Nat) :
    format.assemble negative biased mantissa
      = (negative.toNat * 2 ^ format.exponentWidth + biased) * 2 ^ format.mantissaWidth + mantissa := by
  cases negative
  · simp [assemble]
  · rw [assemble, if_pos rfl, Bool.toNat_true, Nat.pow_add]
    ring

theorem mantissaOf_assemble (hmantissa : mantissa < 2 ^ format.mantissaWidth) :
    format.mantissaOf (format.assemble negative biased mantissa) = mantissa := by
  rw [mantissaOf, assemble_eq, Nat.mul_comm, Nat.mul_add_mod, Nat.mod_eq_of_lt hmantissa]

private theorem assemble_div (hmantissa : mantissa < 2 ^ format.mantissaWidth) :
    format.assemble negative biased mantissa / 2 ^ format.mantissaWidth
      = negative.toNat * 2 ^ format.exponentWidth + biased := by
  rw [assemble_eq, Nat.mul_comm, Nat.mul_add_div (Nat.pow_pos (by decide)), Nat.div_eq_of_lt hmantissa,
    Nat.add_zero]

theorem biasedOf_assemble (hmantissa : mantissa < 2 ^ format.mantissaWidth)
    (hbiased : biased < 2 ^ format.exponentWidth) :
    format.biasedOf (format.assemble negative biased mantissa) = biased := by
  rw [biasedOf, assemble_div hmantissa, Nat.mul_comm, Nat.mul_add_mod, Nat.mod_eq_of_lt hbiased]

theorem signOf_assemble (hmantissa : mantissa < 2 ^ format.mantissaWidth)
    (hbiased : biased < 2 ^ format.exponentWidth) :
    format.signOf (format.assemble negative biased mantissa) = negative := by
  rw [signOf, Nat.testBit_eq_decide_div_mod_eq, Nat.pow_add, ← Nat.div_div_eq_div_mul, assemble_div hmantissa,
    Nat.mul_comm, Nat.mul_add_div (Nat.pow_pos (by decide)), Nat.div_eq_of_lt hbiased]
  cases negative <;> rfl

theorem assemble_lt (hmantissa : mantissa < 2 ^ format.mantissaWidth)
    (hbiased : biased < 2 ^ format.exponentWidth) :
    format.assemble negative biased mantissa < 2 ^ (format.mantissaWidth + format.exponentWidth + 1) := by
  have hhigh : negative.toNat * 2 ^ format.exponentWidth + biased < 2 ^ (format.exponentWidth + 1) := by
    rw [Nat.pow_succ]
    cases negative <;> simp <;> omega
  rw [show format.mantissaWidth + format.exponentWidth + 1 = format.exponentWidth + 1 + format.mantissaWidth by omega,
    Nat.pow_add, ← Nat.div_lt_iff_lt_mul (Nat.pow_pos (by decide)), assemble_div hmantissa]
  exact hhigh

private theorem lt_of_le_maxBiased (hbiased : (biased : Int) ≤ format.maxBiased) :
    biased < 2 ^ format.exponentWidth := by
  rw [maxBiased] at hbiased
  have : (biased : Int) < (2 ^ format.exponentWidth : ℕ) := by
    push_cast
    omega
  exact_mod_cast this

/-- The bits of a normal float stand for its mantissa, with the leading digit, times its power of two. -/
theorem decode?_assemble (hmantissa : mantissa < 2 ^ format.mantissaWidth) (hpos : 0 < biased)
    (hbiased : (biased : Int) ≤ format.maxBiased) :
    format.decode? (format.assemble negative biased mantissa)
      = some (if negative then -format.normalMagnitude biased mantissa else format.normalMagnitude biased mantissa) := by
  have hlt := lt_of_le_maxBiased hbiased
  rw [decode?, decodeMagnitude, biasedOf_assemble hmantissa hlt, signOf_assemble hmantissa hlt,
    mantissaOf_assemble hmantissa, if_neg (not_lt.2 hbiased), if_neg hpos.ne']

variable {exponent : Int}

theorem normalMagnitude_le_largest (hmantissa : mantissa < 2 ^ format.mantissaWidth)
    (hexponent : exponent ≤ format.maxBiased) : format.normalMagnitude exponent mantissa ≤ format.largest := by
  have hone : (mantissa : ℚ) + 1 ≤ 2 ^ format.mantissaWidth := by exact_mod_cast hmantissa
  have hdigits : (0 : ℚ) ≤ 2 ^ format.mantissaWidth + mantissa := by positivity
  rw [normalMagnitude, largest, pow_succ]
  refine mul_le_mul (by linarith) (zpow_le_zpow_right₀ (by norm_num) (by omega)) (by positivity) (by linarith)

theorem le_normalMagnitude {least : Int} (hexponent : least ≤ exponent) (mantissa : Nat) :
    (2 : ℚ) ^ (least - format.bias) ≤ format.normalMagnitude exponent mantissa := by
  calc (2 : ℚ) ^ (least - format.bias)
      = 2 ^ format.mantissaWidth * 2 ^ (least - format.bias - format.mantissaWidth) := by
        rw [← zpow_natCast, ← zpow_add₀ two_ne_zero]
        congr 1
        omega
    _ ≤ format.normalMagnitude exponent mantissa := by
        rw [normalMagnitude]
        refine mul_le_mul ?_ (zpow_le_zpow_right₀ (by norm_num) (by omega)) (by positivity) (by positivity)
        exact le_add_of_nonneg_right (Nat.cast_nonneg _)

private theorem normalMagnitude_lt (hmantissa : mantissa < 2 ^ format.mantissaWidth) (exponent : Int) :
    format.normalMagnitude exponent mantissa < 2 ^ (exponent + 1 - format.bias) := by
  have hlt : (2 : ℚ) ^ format.mantissaWidth + mantissa < 2 ^ (format.mantissaWidth + 1) := by
    have : 2 ^ format.mantissaWidth + mantissa < 2 ^ (format.mantissaWidth + 1) := by
      rw [Nat.pow_succ]
      omega
    exact_mod_cast this
  calc format.normalMagnitude exponent mantissa
      < 2 ^ (format.mantissaWidth + 1) * 2 ^ (exponent - format.bias - format.mantissaWidth) :=
        mul_lt_mul_of_pos_right hlt (by positivity)
    _ = 2 ^ (exponent + 1 - format.bias) := by
        rw [← zpow_natCast, ← zpow_add₀ two_ne_zero]
        congr 1
        push_cast
        ring

theorem largest_lt : format.largest < 2 ^ (format.maxBiased + 1 - format.bias) := by
  rw [largest, show format.maxBiased + 1 - format.bias
      = ((format.mantissaWidth + 1 : ℕ) : Int) + (format.maxBiased - format.bias - format.mantissaWidth) by
        push_cast; ring,
    zpow_add₀ two_ne_zero, zpow_natCast]
  exact mul_lt_mul_of_pos_right (by linarith) (by positivity)

end FloatFormat

/-! ### Encoding -/

namespace Number

variable {number : Number}

/-- A number is refused if it is outside the normal range when it is rounded; otherwise its bits stand for the
rounded number. -/
theorem encodeNonzero_cases (hcanonical : number.significand.IsCanonical) (hne : number.significand.toNat ≠ 0)
    (target : FloatType) :
    (target.format.largest < roundTo (target.format.mantissaWidth + 1) number.magnitude ∧
      number.encodeNonzero target = .error (.infinite target)) ∨
    (roundTo (target.format.mantissaWidth + 1) number.magnitude < target.format.smallestNormal ∧
      number.encodeNonzero target = .error (.subnormal target)) ∨
    (target.format.smallestNormal ≤ roundTo (target.format.mantissaWidth + 1) number.magnitude ∧
      roundTo (target.format.mantissaWidth + 1) number.magnitude ≤ target.format.largest ∧
      ∃ bits, number.encodeNonzero target = .ok bits ∧
        bits < 2 ^ (target.format.mantissaWidth + target.format.exponentWidth + 1) ∧
        target.format.signOf bits = number.negative ∧
        target.format.decode? bits = some
          (if number.negative then -roundTo (target.format.mantissaWidth + 1) number.magnitude
            else roundTo (target.format.mantissaWidth + 1) number.magnitude)) := by
  obtain ⟨top, htop⟩ : ∃ top, top = number.significand.bitLength - 1 := ⟨_, rfl⟩
  have hlength : number.significand.bitLength = top + 1 := by
    have := Nat.size_pos.2 (Nat.pos_of_ne_zero hne)
    rw [← Significand.bitLength_eq_size hcanonical] at this
    omega
  have hlow : 2 ^ top ≤ number.significand.toNat := by
    rw [htop]
    exact Significand.two_pow_le_toNat hcanonical hne
  have hhigh : number.significand.toNat < 2 ^ (top + 1) := by
    rw [← hlength]
    exact Significand.toNat_lt_two_pow hcanonical
  obtain ⟨hmantissa, hdigits⟩ := roundedMantissa_spec hlow hhigh target.format.mantissaWidth
  have hround := roundTo_eq hlow hhigh number.exponent target.format.mantissaWidth
  obtain ⟨mantissa, carried, hrounded⟩ : ∃ mantissa carried,
      number.significand.roundedMantissa top target.format.mantissaWidth = (mantissa, carried) := ⟨_, _, rfl⟩
  rw [hrounded] at hmantissa hdigits
  -- in all three cases the rounded number has this exponent field, which may not fit
  obtain ⟨exponent, hexponent⟩ : ∃ exponent : Int, exponent = top + number.exponent + carried.toNat
      + target.format.bias := ⟨_, rfl⟩
  have hvalue : roundTo (target.format.mantissaWidth + 1) number.magnitude
      = target.format.normalMagnitude exponent mantissa := by
    rw [magnitude, hround, ← hdigits, FloatFormat.normalMagnitude, hexponent,
      show (top + number.exponent + carried.toNat + target.format.bias - target.format.bias
        - target.format.mantissaWidth : Int)
        = carried.toNat + (top + number.exponent - target.format.mantissaWidth) by ring,
      zpow_add₀ two_ne_zero, zpow_natCast]
    push_cast
    ring
  have hencode : number.encodeNonzero target
      = if target.format.maxBiased < exponent then .error (.infinite target)
        else if exponent ≤ 0 then .error (.subnormal target)
        else .ok (target.format.assemble number.negative exponent.toNat mantissa) := by
    rw [encodeNonzero, ← htop, hrounded, hexponent]
    cases carried <;> rfl
  rw [hvalue, hencode]
  by_cases hlarge : target.format.maxBiased < exponent
  · left
    rw [if_pos hlarge]
    exact ⟨FloatFormat.largest_lt.trans_le (FloatFormat.le_normalMagnitude hlarge _), rfl⟩
  · by_cases hsmall : exponent ≤ 0
    · right
      left
      rw [if_neg hlarge, if_pos hsmall]
      refine ⟨(FloatFormat.normalMagnitude_lt hmantissa _).trans_le ?_, rfl⟩
      rw [FloatFormat.smallestNormal]
      exact zpow_le_zpow_right₀ (by norm_num) (by omega)
    · right
      right
      rw [if_neg hlarge, if_neg hsmall]
      obtain ⟨biased, rfl⟩ : ∃ biased : ℕ, exponent = biased := ⟨exponent.toNat, by omega⟩
      have hfits := FloatFormat.lt_of_le_maxBiased (not_lt.1 hlarge)
      refine ⟨FloatFormat.le_normalMagnitude (by omega) _,
        FloatFormat.normalMagnitude_le_largest hmantissa (not_lt.1 hlarge), _, rfl,
        FloatFormat.assemble_lt hmantissa hfits, FloatFormat.signOf_assemble hmantissa hfits, ?_⟩
      exact FloatFormat.decode?_assemble hmantissa (by omega) (not_lt.1 hlarge)

end Number

/-- The bits of a value of a float type. -/
def Value.floatBits? (target : FloatType) : Value → Option Nat
  | single bits => if target = .f32 then some bits.toNat else none
  | double bits => if target = .f64 then some bits.toNat else none
  | signed _ | unsigned _ => none

namespace Number

variable {number : Number}

theorem exists_toFloat {target : FloatType} {bits : Nat} (hencode : number.encode target = .ok bits)
    (hlt : bits < 2 ^ (target.format.mantissaWidth + target.format.exponentWidth + 1)) :
    ∃ value : Value, number.toFloat target = .ok value ∧ value.floatBits? target = some bits := by
  rw [toFloat, hencode]
  cases target
  · have hlt : bits < 2 ^ 32 := hlt
    exact ⟨.single (.ofNat bits), rfl, by simpa [Value.floatBits?] using hlt⟩
  · have hlt : bits < 2 ^ 64 := hlt
    exact ⟨.double (.ofNat bits), rfl, by simpa [Value.floatBits?] using hlt⟩

theorem encode_of_normal (hcanonical : number.significand.IsCanonical) (hflag : number.flag = .normal)
    (hne : number.significand.toNat ≠ 0) (target : FloatType) :
    number.encode target = number.encodeNonzero target := by
  have hzero : ¬number.significand.isZero = true := fun h => hne ((Significand.isZero_iff hcanonical).1 h)
  simp [encode, hflag, hzero]

end Number

end ExprLang
