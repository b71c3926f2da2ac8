import ExprLang.Proofs.Decimal.Evaluation
import ExprLang.Proofs.Decimal.Rounding
import Mathlib

/-!
# Decimals as floats

The float of a decimal is a rounded number, but a number that may be a little larger than the decimal, because
the divisions that change the base round up.  So the float is the one nearest to the decimal unless there is a
place between the two where rounding changes (`exists_toFloat_spelling`), and there may be one
(`not_forall_encodesAs_roundFor`).
-/

namespace ExprLang

namespace FloatFormat

/-- A positive number rounded to the digits of a format. -/
def roundFor (format : FloatFormat) (x : ℚ) : ℚ :=
  roundTo (format.mantissaWidth + 1) x

/-- Whether a positive number is in the normal range of a format. -/
def IsNormal (format : FloatFormat) (x : ℚ) : Prop :=
  format.smallestNormal ≤ x ∧ x ≤ format.largest

end FloatFormat

/-- Whether the float of a number stands for a magnitude with a sign. -/
def Number.EncodesAs (number : Number) (target : FloatType) (negative : Bool) (x : ℚ) : Prop :=
  ∃ value bits, number.toFloat target = .ok value ∧ Value.floatBits? target value = some bits ∧
    target.format.signOf bits = negative ∧ target.format.decode? bits = some (if negative then -x else x)

namespace Number

variable {number : Number}

theorem encodesAs_of_isNormal (hcanonical : number.significand.IsCanonical) (hflag : number.flag = .normal)
    (hne : number.significand.toNat ≠ 0) {target : FloatType}
    (hnormal : target.format.IsNormal (target.format.roundFor number.magnitude)) :
    number.EncodesAs target number.negative (target.format.roundFor number.magnitude) := by
  rcases encodeNonzero_cases hcanonical hne target with ⟨hlarge, -⟩ | ⟨hsmall, -⟩ |
    ⟨-, -, bits, hbits, hlt, hsign, hdecode⟩
  · exact absurd hnormal.2 (not_le.2 hlarge)
  · exact absurd hnormal.1 (not_le.2 hsmall)
  · rw [← encode_of_normal hcanonical hflag hne] at hbits
    obtain ⟨value, hvalue, hfloat⟩ := exists_toFloat hbits hlt
    exact ⟨value, bits, hvalue, hfloat, hsign, hdecode⟩

/-- The float of a number that has a value, and that of its negative. -/
private theorem encodesAs_and_negate (hcanonical : number.significand.IsCanonical) (hflag : number.flag = .normal)
    (hne : number.significand.toNat ≠ 0) {target : FloatType}
    (hnormal : target.format.IsNormal (target.format.roundFor number.magnitude)) :
    number.EncodesAs target number.negative (target.format.roundFor number.magnitude) ∧
      number.negate.EncodesAs target (!number.negative) (target.format.roundFor number.magnitude) := by
  refine ⟨encodesAs_of_isNormal hcanonical hflag hne hnormal, ?_⟩
  have hnegated : number.negate.EncodesAs target number.negate.negative
      (target.format.roundFor number.negate.magnitude) :=
    @encodesAs_of_isNormal number.negate hcanonical hflag hne target hnormal
  exact hnegated

end Number

/-! ### Out of reach -/

/-- What is too large for a literal is too large for all formats. -/
private theorem not_isNormal_of_le (target : FloatType) {x : ℚ} (h : 10 ^ 309 ≤ x) :
    ¬target.format.IsNormal (target.format.roundFor x) := by
  intro hnormal
  have hx : (0 : ℚ) < x := lt_of_lt_of_le (by positivity) h
  have hlog : (1024 : Int) ≤ Int.log 2 x := by
    have hpowers : 2 ^ 1024 ≤ 10 ^ 309 := by decide +kernel
    refine (Int.zpow_le_iff_le_log (b := 2) (by norm_num) hx).1 (le_trans ?_ h)
    exact_mod_cast hpowers
  have hround := zpow_log_le_roundTo (Nat.succ_pos target.format.mantissaWidth) hx
  have hlarge : target.format.largest < 2 ^ (1024 : Int) := by
    refine FloatFormat.largest_lt.trans_le (zpow_le_zpow_right₀ (by norm_num) ?_)
    cases target <;> decide
  have hpower : (2 : ℚ) ^ (1024 : Int) ≤ 2 ^ Int.log 2 x := zpow_le_zpow_right₀ (by norm_num) hlog
  exact absurd (hpower.trans (hround.trans hnormal.2)) (not_le.2 hlarge)

/-- What is too small for a literal is too small for all formats. -/
private theorem not_isNormal_of_lt (target : FloatType) {x : ℚ} (hx : 0 < x) (h : x < 10 ^ (-400 : ℤ)) :
    ¬target.format.IsNormal (target.format.roundFor x) := by
  intro hnormal
  have hlog : Int.log 2 x < -1100 := by
    have hpowers : 2 ^ 1100 ≤ 10 ^ 400 := by decide +kernel
    have hinverse : ((10 : ℚ) ^ 400)⁻¹ ≤ (2 ^ 1100)⁻¹ :=
      inv_anti₀ (by positivity) (by exact_mod_cast hpowers)
    refine (Int.lt_zpow_iff_log_lt (b := 2) (by norm_num) hx).1 (h.trans_le ?_)
    rw [zpow_neg, zpow_neg]
    exact_mod_cast hinverse
  have hround := roundTo_le_zpow_log (target.format.mantissaWidth + 1) x
  have hpower : (2 : ℚ) ^ (Int.log 2 x + 1) < target.format.smallestNormal := by
    refine zpow_lt_zpow_right₀ (by norm_num) (lt_of_lt_of_le (show Int.log 2 x + 1 < -1099 by omega) ?_)
    cases target <;> decide
  exact absurd hnormal.1 (not_le.2 (hround.trans_lt hpower))

/-! ### Decimals -/

private theorem DecimalText.one_le_slack (text : DecimalText) : 1 ≤ text.slack :=
  one_le_pow₀ (by norm_num)

private theorem roundFor_eq_of_le (format : FloatFormat) {x y z : ℚ} (hx : 0 < x) (hxy : x ≤ y) (hyz : y ≤ z)
    (h : format.roundFor x = format.roundFor z) : format.roundFor y = format.roundFor x := by
  refine le_antisymm ?_ (roundTo_le_roundTo (Nat.succ_pos _) hx hxy)
  rw [h]
  exact roundTo_le_roundTo (Nat.succ_pos _) (hx.trans_le hxy) hyz

/-- The float of a decimal within the limits is a rounded number that is the decimal or a little larger: by no
more than the divisions add, and not past the next whole number.  It is the rounded decimal whenever that does
not change up to there. -/
theorem exists_toFloat_spelling (text : DecimalText) (h : text.IsWithinLimits) (hne : text.magnitude ≠ 0) :
    ∃ number w, Number.ofText text.spelling = .ok number ∧
      text.magnitude ≤ w ∧ w ≤ text.magnitude * text.slack ∧ ⌈w⌉ = ⌈text.magnitude⌉ ∧
      (∀ target : FloatType, target.format.IsNormal (target.format.roundFor w) →
        number.EncodesAs target text.isNegative (target.format.roundFor w) ∧
        number.negate.EncodesAs target (!text.isNegative) (target.format.roundFor w)) ∧
      (∀ target : FloatType,
        target.format.roundFor text.magnitude = target.format.roundFor (text.magnitude * text.slack) →
        target.format.IsNormal (target.format.roundFor text.magnitude) →
        number.EncodesAs target text.isNegative (target.format.roundFor text.magnitude) ∧
        number.negate.EncodesAs target (!text.isNegative) (target.format.roundFor text.magnitude)) := by
  have hpos : 0 < text.magnitude := lt_of_le_of_ne text.magnitude_nonneg (Ne.symm hne)
  have hslack := le_mul_of_one_le_right hpos.le text.one_le_slack
  rcases h.number_cases with ⟨hnumber, hlarge⟩ | ⟨hnumber, -, hsmall⟩ | ⟨number, hnumber, happrox⟩
  · exact ⟨_, text.magnitude, hnumber, le_rfl, hslack, rfl,
      fun target hnormal => absurd hnormal (not_isNormal_of_le target hlarge),
      fun target _ hnormal => absurd hnormal (not_isNormal_of_le target hlarge)⟩
  · exact ⟨_, text.magnitude, hnumber, le_rfl, hslack, rfl,
      fun target hnormal => absurd hnormal (not_isNormal_of_lt target hpos hsmall),
      fun target _ hnormal => absurd hnormal (not_isNormal_of_lt target hpos hsmall)⟩
  · have hsignificand : number.significand.toNat ≠ 0 := by
      intro hzero
      have := happrox.le_magnitude
      rw [Number.magnitude, hzero, Nat.cast_zero, zero_mul] at this
      exact absurd this (not_le.2 hpos)
    have hfloat : ∀ target : FloatType, target.format.IsNormal (target.format.roundFor number.magnitude) →
        number.EncodesAs target text.isNegative (target.format.roundFor number.magnitude) ∧
        number.negate.EncodesAs target (!text.isNegative) (target.format.roundFor number.magnitude) := by
      intro target hnormal
      rw [← happrox.negative]
      exact Number.encodesAs_and_negate happrox.reduced.canonical happrox.flag hsignificand hnormal
    refine ⟨number, number.magnitude, hnumber, happrox.le_magnitude, happrox.magnitude_le, happrox.ceil_magnitude,
      hfloat, ?_⟩
    intro target hsame hnormal
    rw [← roundFor_eq_of_le target.format hpos happrox.le_magnitude happrox.magnitude_le hsame] at hnormal ⊢
    exact hfloat target hnormal

/-- The decimal 0.043. -/
def fortyThreeThousandths : DecimalText where
  sign := none
  whole := .zero
  fraction := some ⟨'0', ['4', '3'], DigitRun.zero.first_isDigit, List.all_eq_true.1 rfl⟩
  exponent := none

private theorem fortyThreeThousandths_isWithinLimits : fortyThreeThousandths.IsWithinLimits :=
  ⟨by decide, by decide⟩

private theorem magnitude_fortyThreeThousandths : fortyThreeThousandths.magnitude = 43 / 1000 := by
  have hdigits : digitsValue fortyThreeThousandths.digits = 43 := by decide
  have hexponent : fortyThreeThousandths.netExponent = -3 := by decide
  rw [DecimalText.magnitude_eq, hdigits, hexponent]
  norm_num

theorem exists_toFloat_spelling_fortyThreeThousandths :
    fortyThreeThousandths.IsWithinLimits ∧ fortyThreeThousandths.magnitude ≠ 0 ∧
      ∃ number w, Number.ofText ['0', '.', '0', '4', '3'] = .ok number ∧ 43 / 1000 ≤ w ∧
        w ≤ 43 / 1000 * (1 + 9 / 2 ^ 63) ^ 3 ∧
        (FloatType.f64.format.IsNormal (FloatType.f64.format.roundFor w) →
          number.EncodesAs .f64 false (FloatType.f64.format.roundFor w)) := by
  have hmagnitude := magnitude_fortyThreeThousandths
  have hne : fortyThreeThousandths.magnitude ≠ 0 := by
    rw [hmagnitude]
    norm_num
  refine ⟨fortyThreeThousandths_isWithinLimits, hne, ?_⟩
  obtain ⟨number, w, hnumber, hle, hslack, -, hfloat, -⟩ :=
    exists_toFloat_spelling fortyThreeThousandths fortyThreeThousandths_isWithinLimits hne
  have hroundings : fortyThreeThousandths.roundings ≤ 3 := Nat.min_le_left _ _
  have hbound : fortyThreeThousandths.slack ≤ (1 + 9 / 2 ^ 63) ^ 3 := pow_le_pow_right₀ (by norm_num) hroundings
  rw [hmagnitude] at hle hslack
  refine ⟨number, w, hnumber, hle, hslack.trans ?_, fun hnormal => (hfloat .f64 hnormal).1⟩
  exact mul_le_mul_of_nonneg_left hbound (by norm_num)

/-- The double nearest to 0.043. -/
private theorem roundFor_fortyThreeThousandths :
    FloatType.f64.format.roundFor (43 / 1000) = FloatType.f64.format.normalMagnitude 1018 0x604189374bc6a := by
  have hlog : Int.log 2 (43 / 1000 : ℚ) = -5 := by
    have hle := (Int.zpow_le_iff_le_log (R := ℚ) (b := 2) (x := -5) (r := 43 / 1000) (by norm_num) (by norm_num)).1
      (by norm_num)
    have hlt := (Int.lt_zpow_iff_log_lt (R := ℚ) (b := 2) (x := -4) (r := 43 / 1000) (by norm_num) (by norm_num)).1
      (by norm_num)
    omega
  have hplace : lastPlace 53 (43 / 1000) = 2 ^ (-57 : Int) := by
    rw [lastPlace, hlog]
    rfl
  have hfloor : ⌊(43 / 1000 : ℚ) / 2 ^ (-57 : Int) + 1 / 2⌋ = 6196953087261802 := by
    rw [Int.floor_eq_iff]
    norm_num
  show roundTo 53 (43 / 1000) = (2 ^ 52 + (0x604189374bc6a : ℕ)) * 2 ^ (1018 - 1023 - 52 : Int)
  rw [roundTo, hplace, hfloor]
  norm_num

/-- Not every decimal is turned into the nearest float: 0.043 is turned into the one after it. -/
theorem not_forall_encodesAs_roundFor :
    ¬∀ text : DecimalText, text.IsWithinLimits → text.magnitude ≠ 0 → ∀ target : FloatType,
      target.format.IsNormal (target.format.roundFor text.magnitude) →
      ∃ number, Number.ofText text.spelling = .ok number ∧
        number.EncodesAs target text.isNegative (target.format.roundFor text.magnitude) ∧
        number.negate.EncodesAs target (!text.isNegative) (target.format.roundFor text.magnitude) := by
  intro h
  have hspecial := h fortyThreeThousandths fortyThreeThousandths_isWithinLimits
  rw [magnitude_fortyThreeThousandths] at hspecial
  have hspecial := hspecial (by norm_num) .f64
  rw [roundFor_fortyThreeThousandths] at hspecial
  obtain ⟨number, hnumber, ⟨value, bits, hvalue, hbits, -, hdecode⟩, -⟩ := hspecial
    ⟨FloatFormat.le_normalMagnitude (by decide) _, FloatFormat.normalMagnitude_le_largest (by decide) (by decide)⟩
  have hread : Number.ofText fortyThreeThousandths.spelling
      = .ok ⟨⟨[213, 120, 233, 38, 49, 8, 44]⟩, -58, false, .normal⟩ := by cbv
  rw [hread, Except.ok.injEq] at hnumber
  subst hnumber
  have hfloat : (⟨⟨[213, 120, 233, 38, 49, 8, 44]⟩, -58, false, .normal⟩ : Number).toFloat .f64
      = .ok (.double 0x3fa604189374bc6b) := by cbv
  rw [hfloat, Except.ok.injEq] at hvalue
  subst hvalue
  have hassemble : bits = FloatType.f64.format.assemble false 1018 0x604189374bc6b :=
    (Option.some.inj hbits).symm
  rw [hassemble, FloatFormat.decode?_assemble (by decide) (by decide) (by decide)] at hdecode
  have hsame := Option.some.inj hdecode
  rw [if_neg (by decide), if_neg (by decide), FloatFormat.normalMagnitude, FloatFormat.normalMagnitude] at hsame
  have hscale : (2 : ℚ) ^ ((1018 : ℕ) - FloatType.f64.format.bias - FloatType.f64.format.mantissaWidth : Int) ≠ 0 :=
    zpow_ne_zero _ two_ne_zero
  have := mul_right_cancel₀ hscale hsame
  norm_num at this

end ExprLang
