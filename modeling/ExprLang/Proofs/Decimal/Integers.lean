import ExprLang.Decimal.Conversion
import ExprLang.Proofs.Decimal.Rebasing
import Mathlib.Data.Rat.Cast.Order
import Mathlib.Tactic.Linarith
import Mathlib.Tactic.NormNum
import Mathlib.Tactic.Positivity

/-!
# Numbers as integers

Comparing two numbers compares their magnitudes (`compareMagnitude_eq_compare`).  A whole number is converted
to an integer type exactly if it lies in the range of that type (`IsReduced.toIntegerType_eq_ok_iff`).
-/

namespace ExprLang

namespace Number

/-! ### Order -/

theorem magnitude_eq_zero_iff {number : Number} : number.magnitude = 0 ↔ number.significand.toNat = 0 := by
  have hpower : (2 : ℚ) ^ number.exponent ≠ 0 := zpow_ne_zero _ two_ne_zero
  rw [magnitude, mul_eq_zero_iff_right hpower, Nat.cast_eq_zero]

theorem magnitude_pos {number : Number} (h : number.significand.toNat ≠ 0) : 0 < number.magnitude := by
  have : (0 : ℚ) < number.significand.toNat := by exact_mod_cast Nat.pos_of_ne_zero h
  rw [magnitude]
  positivity

private theorem zpow_top_le_magnitude {number : Number} (hcanonical : number.significand.IsCanonical)
    (h : number.significand.toNat ≠ 0) : 2 ^ (number.top - 1) ≤ number.magnitude := by
  have hlow := Significand.two_pow_le_toNat hcanonical h
  have hlength : 0 < number.significand.bitLength := by
    rw [Significand.bitLength_eq_size hcanonical]
    exact Nat.size_pos.2 (Nat.pos_of_ne_zero h)
  rw [magnitude, top, show (number.significand.bitLength + number.exponent - 1 : Int)
      = ((number.significand.bitLength - 1 : ℕ) : Int) + number.exponent by omega,
    zpow_add₀ two_ne_zero, zpow_natCast]
  exact mul_le_mul_of_nonneg_right (by exact_mod_cast hlow) (by positivity)

private theorem magnitude_lt_zpow_top {number : Number} (hcanonical : number.significand.IsCanonical) :
    number.magnitude < 2 ^ number.top := by
  have hhigh := Significand.toNat_lt_two_pow hcanonical
  rw [magnitude, top, zpow_add₀ two_ne_zero, zpow_natCast]
  exact mul_lt_mul_of_pos_right (by exact_mod_cast hhigh) (by positivity)

private theorem magnitude_lt_of_top_lt {a b : Number} (ha : a.significand.IsCanonical)
    (hb : b.significand.IsCanonical) (hne : b.significand.toNat ≠ 0) (h : a.top < b.top) :
    a.magnitude < b.magnitude := by
  calc a.magnitude < 2 ^ a.top := magnitude_lt_zpow_top ha
    _ ≤ 2 ^ (b.top - 1) := zpow_le_zpow_right₀ (by norm_num) (by omega)
    _ ≤ b.magnitude := zpow_top_le_magnitude hb hne

/-- The significand of a number over a smaller exponent. -/
private theorem magnitude_eq_shifted (number : Number) {least : Int} (h : least ≤ number.exponent) :
    number.magnitude
      = ((number.significand.shiftLeft (number.exponent - least).toNat).toNat : ℚ) * 2 ^ least := by
  rw [magnitude, Significand.toNat_shiftLeft]
  push_cast
  rw [mul_assoc, ← zpow_natCast, ← zpow_add₀ two_ne_zero]
  congr 2
  omega

private theorem compareAligned_eq_compare {a b : Number} (ha : a.significand.IsCanonical)
    (hb : b.significand.IsCanonical) : a.compareAligned b = compare a.magnitude b.magnitude := by
  have hleast : (0 : ℚ) < 2 ^ min a.exponent b.exponent := by positivity
  have hleft : (a.exponent - b.exponent).toNat = (a.exponent - min a.exponent b.exponent).toNat := by omega
  have hright : (b.exponent - a.exponent).toNat = (b.exponent - min a.exponent b.exponent).toNat := by omega
  rw [compareAligned, Significand.compare_eq_compare (Significand.isCanonical_shiftLeft ha _)
      (Significand.isCanonical_shiftLeft hb _), hleft, hright,
    magnitude_eq_shifted a (min_le_left _ _), magnitude_eq_shifted b (min_le_right _ _)]
  generalize (a.significand.shiftLeft _).toNat = m
  generalize (b.significand.shiftLeft _).toNat = n
  rcases Nat.lt_trichotomy m n with hlt | rfl | hgt
  · rw [Nat.compare_eq_lt.2 hlt, compare_lt_iff_lt.2 (mul_lt_mul_of_pos_right (by exact_mod_cast hlt) hleast)]
  · rw [Nat.compare_eq_eq.2 rfl, compare_eq_iff_eq.2 rfl]
  · rw [Nat.compare_eq_gt.2 hgt, compare_gt_iff_gt.2 (mul_lt_mul_of_pos_right (by exact_mod_cast hgt) hleast)]

/-- Comparing numbers compares their magnitudes. -/
theorem compareMagnitude_eq_compare {a b : Number} (ha : a.significand.IsCanonical)
    (hb : b.significand.IsCanonical) : a.compareMagnitude b = compare a.magnitude b.magnitude := by
  have hzero : ∀ {number : Number}, number.significand.IsCanonical →
      (number.significand.isZero = true → number.magnitude = 0) ∧
      (number.significand.isZero = false → number.significand.toNat ≠ 0) := by
    intro number hcanonical
    constructor
    · intro h
      exact magnitude_eq_zero_iff.2 ((Significand.isZero_iff hcanonical).1 h)
    · intro h hnat
      rw [(Significand.isZero_iff hcanonical).2 hnat] at h
      exact absurd h (by decide)
  rw [compareMagnitude]
  cases hza : a.significand.isZero <;> cases hzb : b.significand.isZero
  · have hane := (hzero ha).2 hza
    have hbne := (hzero hb).2 hzb
    show (if a.top = b.top then _ else _) = _
    split
    · exact compareAligned_eq_compare ha hb
    · rename_i htop
      rcases lt_or_gt_of_ne htop with hlt | hgt
      · rw [compare_lt_iff_lt.2 hlt, compare_lt_iff_lt.2 (magnitude_lt_of_top_lt ha hb hbne hlt)]
      · rw [compare_gt_iff_gt.2 hgt, compare_gt_iff_gt.2 (magnitude_lt_of_top_lt hb ha hane hgt)]
  · rw [(hzero hb).1 hzb, compare_gt_iff_gt.2 (magnitude_pos ((hzero ha).2 hza))]
  · rw [(hzero ha).1 hza, compare_lt_iff_lt.2 (magnitude_pos ((hzero hb).2 hzb))]
  · rw [(hzero ha).1 hza, (hzero hb).1 hzb, compare_eq_iff_eq.2 rfl]

end Number

/-! ### Ranges -/

namespace IntegerType

/-- Whether a whole number is in the range of an integer type. -/
def Contains (target : IntegerType) (z : ℤ) : Prop :=
  target.minimum ≤ z ∧ z ≤ target.maximum

instance (target : IntegerType) (z : ℤ) : Decidable (target.Contains z) :=
  inferInstanceAs (Decidable (_ ∧ _))

/-- A whole number as a value of an integer type. -/
def valueOf (target : IntegerType) (z : ℤ) : Value :=
  if target.isUnsigned then .unsigned z.toNat else .signed z

theorem minimum_of_isUnsigned {target : IntegerType} (h : target.isUnsigned = true) : target.minimum = 0 := by
  rw [minimum, if_pos h]

private theorem minimum_of_not_isUnsigned {target : IntegerType} (h : target.isUnsigned = false) :
    target.minimum = -(target.maximum + 1 : ℕ) := by
  cases target <;> first | rfl | exact absurd h (by decide)

theorem maximum_lt (target : IntegerType) : target.maximum < 2 ^ 64 := by
  cases target <;> decide

theorem maximum_succ_lt {target : IntegerType} (h : target.isUnsigned = false) : target.maximum + 1 < 2 ^ 64 := by
  cases target <;> first | decide | exact absurd h (by decide)

end IntegerType

namespace Number

/-! ### Whole numbers -/

/-- The magnitude of a number without binary places. -/
def wholeMagnitude (number : Number) : ℕ :=
  number.significand.toNat * 2 ^ number.exponent.toNat

/-- A number without binary places. -/
def wholeValue (number : Number) : ℤ :=
  if number.negative then -number.wholeMagnitude else number.wholeMagnitude

variable {number : Number} {target : IntegerType}

theorem isInteger_iff : number.isInteger = true ↔ number.flag = .normal ∧ 0 ≤ number.exponent := by
  simp [isInteger]

theorem magnitude_eq_wholeMagnitude (h : 0 ≤ number.exponent) : number.magnitude = number.wholeMagnitude := by
  obtain ⟨e, he⟩ := Int.eq_ofNat_of_zero_le h
  rw [magnitude, wholeMagnitude, he, Int.toNat_natCast]
  push_cast
  rw [zpow_natCast]

private theorem wholeMagnitude_eq_zero_iff : number.wholeMagnitude = 0 ↔ number.significand.toNat = 0 := by
  simp [wholeMagnitude]

/-- A number with a reduced significand is whole only if it has no binary places. -/
private theorem IsReduced.exponent_nonneg (h : number.IsReduced) {z : ℤ} (hz : number.magnitude = z) :
    0 ≤ number.exponent := by
  by_contra hneg
  obtain ⟨k, hk⟩ : ∃ k : ℕ, number.exponent = -(k + 1 : ℕ) := ⟨(-number.exponent).toNat - 1, by omega⟩
  have hne : number.significand.toNat ≠ 0 := by
    intro hzero
    have := h.zero hzero
    omega
  have hodd := h.odd hne
  rw [magnitude, hk, zpow_neg, zpow_natCast, ← div_eq_mul_inv, div_eq_iff (by positivity)] at hz
  have hcast : (number.significand.toNat : ℤ) = z * 2 ^ (k + 1) := by exact_mod_cast hz
  rw [pow_succ, ← mul_assoc] at hcast
  omega

theorem toInteger_eq (hcanonical : number.significand.IsCanonical) (hinteger : number.isInteger = true) :
    number.toInteger = if number.wholeMagnitude < 2 ^ 64 then some number.wholeMagnitude else none := by
  have hexponent := (isInteger_iff.1 hinteger).2
  rw [toInteger, if_neg (by simp [hinteger])]
  by_cases hzero : number.significand.toNat = 0
  · have hlength : number.significand.bitLength = 0 := by
      rw [Significand.bitLength_eq_size hcanonical, hzero]
      rfl
    rw [if_pos hlength, wholeMagnitude_eq_zero_iff.2 hzero]
    rfl
  · have hlength : number.significand.bitLength ≠ 0 := by
      rw [Significand.bitLength_eq_size hcanonical]
      exact (Nat.size_pos.2 (Nat.pos_of_ne_zero hzero)).ne'
    rw [if_neg hlength]
    have hlow := Nat.mul_le_mul_right (2 ^ number.exponent.toNat) (Significand.two_pow_le_toNat hcanonical hzero)
    have hhigh := Nat.mul_lt_mul_of_pos_right (Significand.toNat_lt_two_pow hcanonical)
      (Nat.two_pow_pos number.exponent.toNat)
    rw [← Nat.pow_add, ← wholeMagnitude] at hlow hhigh
    by_cases hlong : (64 : Int) < number.significand.bitLength + number.exponent
    · have := Nat.pow_le_pow_right (n := 2) (by decide)
        (show 64 ≤ number.significand.bitLength - 1 + number.exponent.toNat by omega)
      rw [if_pos hlong, if_neg (not_lt.2 (this.trans hlow))]
    · have := Nat.pow_le_pow_right (n := 2) (by decide)
        (show number.significand.bitLength + number.exponent.toNat ≤ 64 by omega)
      rw [if_neg hlong, if_pos (hhigh.trans_le this)]
      rfl

theorem compareMagnitude_ofNat (hcanonical : number.significand.IsCanonical) (h : 0 ≤ number.exponent) (n : ℕ) :
    number.compareMagnitude (.ofNat n) = compare number.wholeMagnitude n := by
  have hn : (Number.ofNat n).magnitude = n := by
    rw [magnitude_eq_wholeMagnitude (le_refl (0 : Int)), wholeMagnitude]
    simp [Number.ofNat]
  rw [compareMagnitude_eq_compare hcanonical (Significand.isCanonical_ofNat n), hn, magnitude_eq_wholeMagnitude h]
  rcases Nat.lt_trichotomy number.wholeMagnitude n with hlt | heq | hgt
  · rw [Nat.compare_eq_lt.2 hlt, compare_lt_iff_lt.2 (by exact_mod_cast hlt)]
  · rw [Nat.compare_eq_eq.2 heq, compare_eq_iff_eq.2 (by exact_mod_cast heq)]
  · rw [Nat.compare_eq_gt.2 hgt, compare_gt_iff_gt.2 (by exact_mod_cast hgt)]

private theorem toUnsigned_eq (hcanonical : number.significand.IsCanonical) (hinteger : number.isInteger = true)
    (hunsigned : target.isUnsigned = true) :
    number.toUnsigned target =
      if number.wholeValue < 0 then .error (.notUnsigned target)
      else if target.Contains number.wholeValue then .ok (target.valueOf number.wholeValue)
      else .error (.outOfBounds target) := by
  have hexponent := (isInteger_iff.1 hinteger).2
  have hmaximum := target.maximum_lt
  have hnegative : number.wholeValue < 0 ↔ (number.negative && !number.significand.isZero) = true := by
    rw [Bool.and_eq_true, Bool.not_eq_true', ← Bool.not_eq_true, Significand.isZero_iff hcanonical,
      ← wholeMagnitude_eq_zero_iff, wholeValue]
    cases number.negative
    · simp
    · simp
      omega
  rw [toUnsigned, compareMagnitude_ofNat hcanonical hexponent, toInteger_eq hcanonical hinteger]
  by_cases hneg : number.wholeValue < 0
  · rw [if_pos (hnegative.1 hneg), if_pos hneg]
  · have hvalue : number.wholeValue = number.wholeMagnitude := by
      rw [wholeValue] at hneg ⊢
      split at hneg
      · rw [if_pos ‹_›]
        omega
      · rw [if_neg ‹_›]
    rw [if_neg fun h => hneg (hnegative.2 h), if_neg hneg, hvalue]
    by_cases hgt : target.maximum < number.wholeMagnitude
    · have hout : ¬target.Contains number.wholeMagnitude := fun h => by
        have := h.2
        omega
      rw [if_pos (Nat.compare_eq_gt.2 hgt), if_neg hout]
    · have hin : target.Contains number.wholeMagnitude := by
        rw [IntegerType.Contains, IntegerType.minimum_of_isUnsigned hunsigned]
        omega
      rw [if_neg fun h => hgt (Nat.compare_eq_gt.1 h), if_pos hin, if_pos (by omega), IntegerType.valueOf,
        if_pos hunsigned, Int.toNat_natCast]

private theorem toSigned_eq (hcanonical : number.significand.IsCanonical) (hinteger : number.isInteger = true)
    (hsigned : target.isUnsigned = false) :
    number.toSigned target =
      if target.Contains number.wholeValue then .ok (target.valueOf number.wholeValue)
      else .error (.outOfBounds target) := by
  have hexponent := (isInteger_iff.1 hinteger).2
  have hmaximum := IntegerType.maximum_succ_lt hsigned
  have hminimum := IntegerType.minimum_of_not_isUnsigned hsigned
  rw [toSigned, compareMagnitude_ofNat hcanonical hexponent, toInteger_eq hcanonical hinteger]
  rcases Nat.lt_trichotomy number.wholeMagnitude (target.maximum + 1) with hlt | heq | hgt
  · have hin : target.Contains number.wholeValue := by
      rw [IntegerType.Contains, hminimum, wholeValue]
      split <;> omega
    rw [Nat.compare_eq_lt.2 hlt, if_pos (hlt.trans hmaximum), if_pos hin, IntegerType.valueOf, hsigned]
    rfl
  · rw [Nat.compare_eq_eq.2 heq, if_pos (heq.trans_lt hmaximum)]
    cases hnegative : number.negative
    · have hout : ¬target.Contains number.wholeValue := by
        rw [IntegerType.Contains, hminimum, wholeValue, hnegative, if_neg (by decide)]
        omega
      rw [if_neg hout]
    · have hin : target.Contains number.wholeValue := by
        rw [IntegerType.Contains, hminimum, wholeValue, hnegative, if_pos rfl]
        omega
      rw [if_pos hin, IntegerType.valueOf, hsigned, wholeValue, hnegative]
      rfl
  · have hout : ¬target.Contains number.wholeValue := by
      rw [IntegerType.Contains, hminimum, wholeValue]
      split <;> omega
    rw [Nat.compare_eq_gt.2 hgt, if_neg hout]

/-- A number with a value is whole, not below zero if its type is unsigned, and in range, or the first of these that
fails is why it is refused. -/
theorem toIntegerType_eq (hcanonical : number.significand.IsCanonical) (hflag : number.flag = .normal) :
    number.toIntegerType target =
      if 0 ≤ number.exponent then
        if target.isUnsigned = true ∧ number.wholeValue < 0 then .error (.notUnsigned target)
        else if target.Contains number.wholeValue then .ok (target.valueOf number.wholeValue)
        else .error (.outOfBounds target)
      else .error (.notInteger target) := by
  rw [toIntegerType, hflag]
  by_cases hexponent : 0 ≤ number.exponent
  · have hinteger := isInteger_iff.2 ⟨hflag, hexponent⟩
    rw [if_pos hexponent]
    simp only [hinteger, Bool.not_true, Bool.false_eq_true, if_false]
    cases hsign : target.isUnsigned
    · rw [if_neg (by decide), if_neg (by simp), toSigned_eq hcanonical hinteger hsign]
    · rw [if_pos rfl, toUnsigned_eq hcanonical hinteger hsign]
      simp only [true_and]
  · have hinteger : number.isInteger = false := by simp [isInteger, hexponent]
    rw [if_neg hexponent]
    simp only [hinteger, Bool.not_false, if_true]

/-- A number is accepted by an integer type if it has no binary places and is in range. -/
theorem toIntegerType_eq_ok_iff (hcanonical : number.significand.IsCanonical) (hflag : number.flag = .normal)
    {value : Value} : number.toIntegerType target = .ok value ↔
      0 ≤ number.exponent ∧ target.Contains number.wholeValue ∧ value = target.valueOf number.wholeValue := by
  rw [toIntegerType_eq hcanonical hflag]
  by_cases hexponent : 0 ≤ number.exponent
  · rw [if_pos hexponent]
    by_cases hneg : target.isUnsigned = true ∧ number.wholeValue < 0
    · have hout : ¬target.Contains number.wholeValue := fun h => by
        have := h.1
        rw [IntegerType.minimum_of_isUnsigned hneg.1] at this
        omega
      simp [hneg, hout]
    · by_cases hin : target.Contains number.wholeValue
      · rw [if_neg hneg, if_pos hin, Except.ok.injEq, eq_comm]
        simp only [hexponent, hin, true_and]
      · simp [hneg, hin]
  · simp [hexponent]

/-- The value of a number. -/
def value (number : Number) : ℚ :=
  if number.negative then -number.magnitude else number.magnitude

theorem value_eq_wholeValue (h : 0 ≤ number.exponent) : number.value = number.wholeValue := by
  rw [value, wholeValue, magnitude_eq_wholeMagnitude h]
  split <;> push_cast <;> rfl

/-- A whole number with a reduced significand has no binary places. -/
theorem IsReduced.exponent_nonneg_of_value (h : number.IsReduced) {z : ℤ} (hz : (z : ℚ) = number.value) :
    0 ≤ number.exponent := by
  rw [value] at hz
  split at hz
  · exact h.exponent_nonneg (z := -z) (by push_cast; linarith)
  · exact h.exponent_nonneg hz.symm

/-- A reduced number is accepted by an integer type if it is whole and in range, and then as it is. -/
theorem IsReduced.toIntegerType_eq_ok_iff (h : number.IsReduced) (hflag : number.flag = .normal) {accepted : Value} :
    number.toIntegerType target = .ok accepted ↔
      ∃ z : ℤ, (z : ℚ) = number.value ∧ target.Contains z ∧ accepted = target.valueOf z := by
  rw [Number.toIntegerType_eq_ok_iff h.canonical hflag]
  constructor
  · rintro ⟨hexponent, hin, haccepted⟩
    exact ⟨_, (value_eq_wholeValue hexponent).symm, hin, haccepted⟩
  · rintro ⟨z, hz, hin, haccepted⟩
    have hexponent := h.exponent_nonneg_of_value hz
    rw [value_eq_wholeValue hexponent, Int.cast_inj] at hz
    rw [← hz]
    exact ⟨hexponent, hin, haccepted⟩

end Number

end ExprLang
