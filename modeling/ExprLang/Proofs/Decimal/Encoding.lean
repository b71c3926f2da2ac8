import ExprLang.Proofs.Decimal.FloatLiterals
import ExprLang.Proofs.Decimal.Values
import Mathlib

/-!
# Floats of numbers

The float of a number is the nearest one with the digits of its format, and of two the one farther from zero
(`Number.toFloat_rounds_to_nearest`).  Nearest is said here without the way in which it is found (`IsNearest`).
-/

namespace ExprLang

/-! ### Nearest numbers -/

/-- Whether a number can be written with a number of binary digits, at any place. -/
def HasDigits (digits : Nat) (x : ℚ) : Prop :=
  ∃ whole place : Int, whole.natAbs < 2 ^ digits ∧ x = whole * 2 ^ place

/-- Whether a number is the nearest with so many digits to a positive number, and the larger one if two are nearest. -/
structure IsNearest (digits : Nat) (x nearest : ℚ) : Prop where
  hasDigits : HasDigits digits nearest
  closest : ∀ other, HasDigits digits other → |x - nearest| ≤ |x - other|
  larger : ∀ other, HasDigits digits other → |x - other| = |x - nearest| → other ≤ nearest

private theorem IsNearest.unique {digits : Nat} {x a b : ℚ} (ha : IsNearest digits x a) (hb : IsNearest digits x b) :
    a = b := by
  have hsame : |x - a| = |x - b| := le_antisymm (ha.closest b hb.hasDigits) (hb.closest a ha.hasDigits)
  exact le_antisymm (hb.larger a ha.hasDigits hsame) (ha.larger b hb.hasDigits hsame.symm)

/-- From the leading digit of a positive number on, numbers with as many digits are whole numbers of its last places. -/
private theorem HasDigits.exists_eq_mul_lastPlace {digits : Nat} {x other : ℚ} (h : HasDigits digits other)
    (hle : 2 ^ Int.log 2 x ≤ other) : ∃ n : ℤ, other = n * lastPlace digits x := by
  obtain ⟨whole, place, hwhole, rfl⟩ := h
  have habove : (2 : ℚ) ^ Int.log 2 x < 2 ^ (digits + place) := by
    have hlt : (whole : ℚ) < 2 ^ digits := by
      have : whole < (2 ^ digits : ℕ) := Int.le_natAbs.trans_lt (by exact_mod_cast hwhole)
      exact_mod_cast this
    calc (2 : ℚ) ^ Int.log 2 x ≤ whole * 2 ^ place := hle
      _ < 2 ^ digits * 2 ^ place := mul_lt_mul_of_pos_right hlt (by positivity)
      _ = 2 ^ (digits + place) := by rw [zpow_add₀ two_ne_zero, zpow_natCast]
  have hlog := (zpow_lt_zpow_iff_right₀ (by norm_num : (1 : ℚ) < 2)).1 habove
  obtain ⟨k, hk⟩ : ∃ k : ℕ, place = k + (Int.log 2 x - digits + 1) :=
    ⟨(place - (Int.log 2 x - digits + 1)).toNat, by omega⟩
  refine ⟨whole * 2 ^ k, ?_⟩
  rw [lastPlace, hk, zpow_add₀ two_ne_zero, zpow_natCast]
  push_cast
  ring

private theorem hasDigits_roundTo {digits : Nat} (hdigits : 0 < digits) {x : ℚ} (hx : 0 < x) :
    HasDigits digits (roundTo digits x) := by
  have hplace : 0 < lastPlace digits x := zpow_pos (by norm_num) _
  have hpower : (2 : ℚ) ^ (Int.log 2 x + 1) = 2 ^ digits * lastPlace digits x := by
    rw [lastPlace, ← zpow_natCast, ← zpow_add₀ two_ne_zero]
    congr 1
    omega
  have hlow : (0 : ℚ) < roundTo digits x := lt_of_lt_of_le (by positivity) (zpow_log_le_roundTo hdigits hx)
  have hhigh := roundTo_le_zpow_log digits x
  rcases hhigh.eq_or_lt with heq | hlt
  · -- rounding has carried into one more digit
    refine ⟨1, Int.log 2 x + 1, ?_, by rw [heq, Int.cast_one, one_mul]⟩
    exact Nat.one_lt_two_pow hdigits.ne'
  · refine ⟨⌊x / lastPlace digits x + 1 / 2⌋, _, ?_, rfl⟩
    rw [hpower, roundTo] at hlt
    rw [roundTo] at hlow
    have hpos : (0 : ℚ) < ⌊x / lastPlace digits x + 1 / 2⌋ := pos_of_mul_pos_left hlow hplace.le
    have hless : (⌊x / lastPlace digits x + 1 / 2⌋ : ℚ) < 2 ^ digits := lt_of_mul_lt_mul_right hlt hplace.le
    have hpos : 0 < ⌊x / lastPlace digits x + 1 / 2⌋ := by exact_mod_cast hpos
    have hless : ⌊x / lastPlace digits x + 1 / 2⌋ < (2 ^ digits : ℕ) := by exact_mod_cast hless
    omega

/-- No whole number of last places is nearer than the rounded number, and none that is as near is larger. -/
private theorem abs_sub_roundTo_le (digits : Nat) (x : ℚ) (n : ℤ) :
    |x - roundTo digits x| ≤ |x - n * lastPlace digits x| ∧
      (|x - n * lastPlace digits x| = |x - roundTo digits x| → n * lastPlace digits x ≤ roundTo digits x) := by
  have hplace : 0 < lastPlace digits x := zpow_pos (by norm_num) _
  have hscale : ∀ m : ℤ, |x - m * lastPlace digits x| = |x / lastPlace digits x - m| * lastPlace digits x := by
    intro m
    rw [← abs_of_pos hplace, ← abs_mul, abs_of_pos hplace, sub_mul, div_mul_cancel₀ _ hplace.ne']
  have hround : roundTo digits x = round (x / lastPlace digits x) * lastPlace digits x := by rw [roundTo, round_eq]
  rw [hround, hscale, hscale]
  constructor
  · exact mul_le_mul_of_nonneg_right (round_le _ _) hplace.le
  · intro hsame
    have hsame := mul_right_cancel₀ hplace.ne' hsame
    have hhalf := abs_sub_round (x / lastPlace digits x)
    refine mul_le_mul_of_nonneg_right (Int.cast_le.2 ?_) hplace.le
    rw [round_eq, Int.le_floor]
    have := (abs_le.1 (hsame.trans_le hhalf)).1
    linarith

private theorem isNearest_roundTo {digits : Nat} (hdigits : 0 < digits) {x : ℚ} (hx : 0 < x) :
    IsNearest digits x (roundTo digits x) := by
  have hself : (2 : ℚ) ^ Int.log 2 x ≤ x := by exact_mod_cast Int.zpow_log_le_self (b := 2) (by norm_num) hx
  have hpower : HasDigits digits ((2 : ℚ) ^ Int.log 2 x) :=
    ⟨1, Int.log 2 x, Nat.one_lt_two_pow hdigits.ne', by rw [Int.cast_one, one_mul]⟩
  obtain ⟨leading, hleading⟩ := hpower.exists_eq_mul_lastPlace le_rfl
  have hle : |x - roundTo digits x| ≤ x - 2 ^ Int.log 2 x := by
    rw [← abs_of_nonneg (sub_nonneg.2 hself), hleading]
    exact (abs_sub_roundTo_le digits x leading).1
  -- what is below the leading digit is farther away than that digit alone
  have hbelow : ∀ other : ℚ, other < 2 ^ Int.log 2 x → |x - roundTo digits x| < |x - other| := by
    intro other hother
    rw [abs_of_pos (show 0 < x - other by linarith)]
    linarith
  refine ⟨hasDigits_roundTo hdigits hx, fun other hother => ?_, fun other hother hsame => ?_⟩
  · rcases lt_or_ge other (2 ^ Int.log 2 x) with hlt | hge
    · exact (hbelow other hlt).le
    · obtain ⟨n, rfl⟩ := hother.exists_eq_mul_lastPlace hge
      exact (abs_sub_roundTo_le digits x n).1
  · rcases lt_or_ge other (2 ^ Int.log 2 x) with hlt | hge
    · exact absurd hsame (hbelow other hlt).ne'
    · obtain ⟨n, rfl⟩ := hother.exists_eq_mul_lastPlace hge
      exact (abs_sub_roundTo_le digits x n).2 hsame

/-! ### Encoding -/

/-- The range of a format is not empty, so no number is both too large and too small. -/
private theorem FloatType.smallestNormal_le_largest (target : FloatType) :
    target.format.smallestNormal ≤ target.format.largest := by
  have hnormal : target.format.normalMagnitude 1 0 ≤ target.format.largest :=
    FloatFormat.normalMagnitude_le_largest (Nat.two_pow_pos _) (by cases target <;> decide)
  exact (FloatFormat.le_normalMagnitude le_rfl 0).trans hnormal

namespace Number

variable {number : Number} {target : FloatType}

/-- The float of a number with a value, or the reason that there is none: too large or too small once rounded. -/
private theorem toFloat_cases (hcanonical : number.significand.IsCanonical) (hflag : number.flag = .normal)
    (hne : number.significand.toNat ≠ 0) (target : FloatType) :
    (target.format.largest < target.format.roundFor number.magnitude ∧
      number.toFloat target = .error (.infinite target)) ∨
    (target.format.roundFor number.magnitude < target.format.smallestNormal ∧
      number.toFloat target = .error (.subnormal target)) ∨
    (target.format.IsNormal (target.format.roundFor number.magnitude) ∧
      ∃ value, number.toFloat target = .ok value) := by
  rcases encodeNonzero_cases hcanonical hne target with ⟨hlarge, herror⟩ | ⟨hsmall, herror⟩ | ⟨hlow, hhigh, -⟩
  · rw [← encode_of_normal hcanonical hflag hne] at herror
    exact .inl ⟨hlarge, by rw [toFloat, herror]; rfl⟩
  · rw [← encode_of_normal hcanonical hflag hne] at herror
    exact .inr (.inl ⟨hsmall, by rw [toFloat, herror]; rfl⟩)
  · obtain ⟨value, -, hvalue, -⟩ := encodesAs_of_isNormal hcanonical hflag hne ⟨hlow, hhigh⟩
    exact .inr (.inr ⟨⟨hlow, hhigh⟩, value, hvalue⟩)

/-- A number without digits, or below everything that can be represented, is turned into a zero with its sign. -/
private theorem encodesAs_zero (hcanonical : number.significand.IsCanonical)
    (h : number.flag = .zero ∨ number.flag = .normal ∧ number.significand.toNat = 0) (target : FloatType) :
    number.EncodesAs target number.negative 0 := by
  have hencode : number.encode target = .ok (target.format.assemble number.negative 0 0) := by
    rcases h with hflag | ⟨hflag, hzero⟩
    · rw [encode, hflag]
    · rw [encode, hflag]
      exact if_pos ((Significand.isZero_iff hcanonical).2 hzero)
  have hmantissa : 0 < 2 ^ target.format.mantissaWidth := Nat.two_pow_pos _
  have hexponent : 0 < 2 ^ target.format.exponentWidth := Nat.two_pow_pos _
  have hfinite : ¬target.format.maxBiased < (0 : ℕ) := by cases target <;> decide
  obtain ⟨value, hvalue, hbits⟩ := exists_toFloat hencode (FloatFormat.assemble_lt hmantissa hexponent)
  refine ⟨value, _, hvalue, hbits, FloatFormat.signOf_assemble hmantissa hexponent, ?_⟩
  rw [FloatFormat.decode?, FloatFormat.decodeMagnitude, FloatFormat.biasedOf_assemble hmantissa hexponent,
    FloatFormat.signOf_assemble hmantissa hexponent, FloatFormat.mantissaOf_assemble hmantissa, if_neg hfinite,
    if_pos rfl, Nat.cast_zero, zero_mul]

/-- The float of a number stands for the nearest number with the digits of its format, with the sign of the number.
It is refused if and only if that is outside the normal range, and there is no other way to leave that range: what is
neither normal nor a zero is never written. -/
theorem toFloat_rounds_to_nearest (hcanonical : number.significand.IsCanonical) (target : FloatType) :
    (number.flag = .normal → number.significand.toNat ≠ 0 →
      (∃ nearest, IsNearest (target.format.mantissaWidth + 1) number.magnitude nearest) ∧
      ∀ nearest, IsNearest (target.format.mantissaWidth + 1) number.magnitude nearest →
        (target.format.IsNormal nearest → number.EncodesAs target number.negative nearest) ∧
        ((∃ value, number.toFloat target = .ok value) ↔ target.format.IsNormal nearest) ∧
        (number.toFloat target = .error (.infinite target) ↔ target.format.largest < nearest) ∧
        (number.toFloat target = .error (.subnormal target) ↔ nearest < target.format.smallestNormal)) ∧
    (number.flag = .zero ∨ number.flag = .normal ∧ number.significand.toNat = 0 →
      number.EncodesAs target number.negative 0) ∧
    ∀ value, number.toFloat target = .ok value → value.IsOf (.float target) := by
  have hisOf : ∀ value, number.toFloat target = .ok value → value.IsOf (.float target) := by
    intro value hvalue
    have hconvert : number.convert (.float target) = .ok value := hvalue
    exact isOf_of_convert hcanonical hconvert
  refine ⟨fun hflag hne => ?_, fun hzero => encodesAs_zero hcanonical hzero target, hisOf⟩
  have hrounded : IsNearest (target.format.mantissaWidth + 1) number.magnitude
      (target.format.roundFor number.magnitude) := isNearest_roundTo (Nat.succ_pos _) (magnitude_pos hne)
  refine ⟨⟨_, hrounded⟩, fun nearest hnearest => ?_⟩
  rw [hnearest.unique hrounded]
  refine ⟨encodesAs_of_isNormal hcanonical hflag hne, ?_⟩
  have hrange := target.smallestNormal_le_largest
  rcases toFloat_cases hcanonical hflag hne target with ⟨hlarge, htoFloat⟩ | ⟨hsmall, htoFloat⟩ |
    ⟨hnormal, value, htoFloat⟩ <;> rw [htoFloat]
  · have hnotNormal : ¬target.format.IsNormal (target.format.roundFor number.magnitude) :=
      fun h => absurd h.2 (not_le.2 hlarge)
    simp [hlarge, hnotNormal, (hrange.trans_lt hlarge).le]
  · have hnotNormal : ¬target.format.IsNormal (target.format.roundFor number.magnitude) :=
      fun h => absurd h.1 (not_le.2 hsmall)
    simp [hsmall, hnotNormal, (hsmall.trans_le hrange).le]
  · simp [hnormal, hnormal.1, hnormal.2]

/-- One more than the number of all single mantissas lies halfway, and goes up. -/
theorem toFloat_rounds_to_nearest_halfway :
    let number : Number := ⟨⟨[1, 0, 0, 1]⟩, 0, false, .normal⟩
    number.significand.IsCanonical ∧ number.flag = .normal ∧ number.significand.toNat ≠ 0 ∧
      IsNearest 24 16777217 16777218 ∧ number.EncodesAs .f32 false 16777218 := by
  intro number
  have hcanonical : number.significand.IsCanonical := by decide
  have hne : number.significand.toNat ≠ 0 := by decide
  refine ⟨hcanonical, rfl, hne, ?_⟩
  obtain ⟨⟨nearest, hnearest⟩, hrounds⟩ := (toFloat_rounds_to_nearest hcanonical .f32).1 rfl hne
  obtain ⟨hencodes, hnormal, -⟩ := hrounds nearest hnearest
  have hfloat : number.toFloat .f32 = .ok (.single 0x4b800001) := by cbv
  have hbits := hencodes (hnormal.1 ⟨_, hfloat⟩)
  have hvalue : nearest = 16777218 := by
    obtain ⟨value, bits, hvalue, hbits, -, hdecode⟩ := hbits
    rw [hfloat, Except.ok.injEq] at hvalue
    subst hvalue
    have hassemble : bits = FloatType.f32.format.assemble false 151 1 := (Option.some.inj hbits).symm
    rw [hassemble, FloatFormat.decode?_assemble (by decide) (by decide) (by decide)] at hdecode
    have hdecode : FloatType.f32.format.normalMagnitude 151 1 = nearest := Option.some.inj hdecode
    rw [← hdecode]
    show ((2 : ℚ) ^ 23 + (1 : ℕ)) * 2 ^ (151 - 127 - 23 : Int) = 16777218
    norm_num
  have hmagnitude : number.magnitude = 16777217 := by
    have hnat : number.significand.toNat = 16777217 := by decide
    rw [magnitude, hnat]
    norm_num [number]
  rw [hvalue] at hnearest hbits
  rw [hmagnitude] at hnearest
  exact ⟨hnearest, hbits⟩

end Number

end ExprLang
