import ExprLang.Proofs.Decimal.Rebasing
import ExprLang.Proofs.Decimal.Spelling
import Mathlib.Data.Int.Log
import Mathlib.Data.Rat.Floor

/-!
# The number of a decimal

Every decimal has a number (`exists_ofText_spelling`).  Within the limits on digits and exponents the number is
flagged only if the value is out of reach of all types; otherwise its magnitude is that of the decimal, made
larger by a few divisions that round, but not past the next whole number (`Number.Approximates`).
-/

namespace ExprLang

/-! ### Literals -/

namespace Literal

variable {literal : Literal}

theorem toNat_significand (literal : Literal) : literal.significand.toNat = digitsValue literal.digits := by
  rw [significand, Significand.toNat_ofNat, significantDigits, digitsValue_dropWhile]

theorem toNat_significand_ne_zero (h : literal.significantDigits ≠ []) : literal.significand.toNat ≠ 0 := by
  rw [toNat_significand]
  have := le_digitsValue_dropWhile h
  have := Nat.pow_pos (n := (literal.digits.dropWhile (· = 0)).length - 1) (show 0 < 10 by decide)
  omega

private theorem digitsValue_of_significantDigits_eq_nil (h : literal.significantDigits = []) :
    digitsValue literal.digits = 0 := by
  rw [← digitsValue_dropWhile]
  exact congrArg digitsValue h

/-- The number of a literal in range that is not zero. -/
theorem toNumber_of_rebase {kept : Significand} {power : Int} (hflag : literal.flag = .normal)
    (hdigits : literal.significantDigits ≠ [])
    (hrebase : literal.significand.rebase literal.exponent 10 2 = .ok (kept, power)) :
    literal.toNumber = .ok
      { significand := kept, exponent := power, negative := literal.negative, flag := .normal } := by
  have hempty : literal.significantDigits.isEmpty = false := by simpa using hdigits
  simp only [toNumber, hflag, hempty, hrebase]
  rfl

theorem toNumber_of_flag (hflag : literal.flag ≠ .normal) :
    literal.toNumber = .ok (.flagged literal.flag literal.negative) := by
  simp [toNumber, hflag]
  rfl

theorem toNumber_of_eq_nil (hdigits : literal.significantDigits = []) :
    literal.toNumber = .ok (.flagged .normal literal.negative) := by
  have hflag : literal.flag = .normal := by simp [flag, hdigits]
  simp [toNumber, hflag, hdigits]
  rfl

theorem exists_toNumber (literal : Literal) : ∃ number, literal.toNumber = .ok number := by
  by_cases hflag : literal.flag = .normal
  · by_cases hdigits : literal.significantDigits = []
    · exact ⟨_, toNumber_of_eq_nil hdigits⟩
    · obtain ⟨kept, power, hrebase, -⟩ := Significand.exists_rebase (show 0 < 10 by decide) le_rfl
        (toNat_significand_ne_zero hdigits) literal.exponent
      exact ⟨_, toNumber_of_rebase hflag hdigits hrebase⟩
  · exact ⟨_, toNumber_of_flag hflag⟩

end Literal

namespace DecimalText

variable {text : DecimalText}

theorem exists_ofText_spelling (text : DecimalText) : ∃ number, Number.ofText text.spelling = .ok number := by
  simp only [Number.ofText, read_spelling]
  split
  · exact ⟨_, rfl⟩
  · exact text.literal.exists_toNumber

/-! ### Within the limits -/

private theorem countP_isDigit (characters : List Char) :
    characters.countP Char.isDigit = (digitValues characters).length := by
  rw [digitValues, List.length_map, List.countP_eq_length_filter]

/-- A decimal without too many digits is read and evaluated. -/
theorem ofText_spelling (h : text.digits.length ≤ digitLimit) :
    Number.ofText text.spelling = text.literal.toNumber := by
  have hdigits : ¬digitLimit < text.front.countP Char.isDigit := by
    rw [countP_isDigit, digitValues_front]
    exact Nat.not_lt.2 h
  simp only [Number.ofText, mantissa_spelling, read_spelling, if_neg hdigits]
  rfl

private theorem natAbs_capped (exponent : ExponentText)
    (h : exponent.capped ≠ exponent.value) : exponentCap < exponent.value.natAbs := by
  rw [ExponentText.capped, ExponentText.value, cappedValue_eq_min] at h
  rw [ExponentText.value]
  split at h <;> split <;> first | contradiction | omega

/-- An exponent that is told apart from no other is out of the limits. -/
theorem IsWithinLimits.exponent_literal (h : text.IsWithinLimits) :
    text.literal.exponent = text.netExponent := by
  have hexponent := h.exponent
  have hdigits := h.digits
  rw [DecimalText.digits, List.length_append] at hdigits
  rw [netExponent, power] at hexponent
  simp only [literal, netExponent, power]
  cases hcase : text.exponent with
  | none => rfl
  | some exponent =>
    simp only [hcase] at hexponent
    show exponent.capped - _ = exponent.value - _
    congr 1
    by_contra hne
    have := natAbs_capped exponent hne
    simp only [exponentLimit, digitLimit, exponentCap] at *
    omega

theorem magnitude_ne_zero_iff : text.magnitude ≠ 0 ↔ text.literal.significantDigits ≠ [] := by
  rw [magnitude_eq]
  constructor
  · intro h hnil
    have : digitsValue text.digits = 0 := Literal.digitsValue_of_significantDigits_eq_nil hnil
    rw [this] at h
    simp at h
  · intro h
    have : text.literal.significand.toNat ≠ 0 := Literal.toNat_significand_ne_zero h
    rw [Literal.toNat_significand] at this
    have : (digitsValue text.digits : ℚ) ≠ 0 := by exact_mod_cast this
    positivity

/-- The power of ten of the first digit that counts is that of the value. -/
private theorem IsWithinLimits.log_magnitude (h : text.IsWithinLimits) (hne : text.magnitude ≠ 0) :
    Int.log 10 text.magnitude = text.literal.order := by
  have hdigits := magnitude_ne_zero_iff.1 hne
  have hlow : 10 ^ (text.literal.significantDigits.length - 1) ≤ digitsValue text.digits :=
    le_digitsValue_dropWhile hdigits
  have hhigh : digitsValue text.digits < 10 ^ text.literal.significantDigits.length := by
    rw [← digitsValue_dropWhile]
    refine digitsValue_lt fun digit hdigit => ?_
    have hmem : digit ∈ text.digits := (List.dropWhile_sublist _).mem hdigit
    rw [← digitValues_front] at hmem
    exact digitValues_lt hmem
  have hpos : 0 < text.magnitude := lt_of_le_of_ne text.magnitude_nonneg hne.symm
  have hlength := List.length_pos_iff.2 hdigits
  have hten : (0 : ℚ) < 10 ^ text.netExponent := by positivity
  have hlow' : (10 : ℚ) ^ text.literal.order ≤ text.magnitude := by
    rw [magnitude_eq, Literal.order, h.exponent_literal,
      show text.netExponent + text.literal.significantDigits.length - 1
        = ((text.literal.significantDigits.length - 1 : ℕ) : ℤ) + text.netExponent by omega,
      zpow_add₀ (by norm_num), zpow_natCast]
    exact mul_le_mul_of_nonneg_right (by exact_mod_cast hlow) hten.le
  have hhigh' : text.magnitude < (10 : ℚ) ^ (text.literal.order + 1) := by
    rw [magnitude_eq, Literal.order, h.exponent_literal,
      show text.netExponent + text.literal.significantDigits.length - 1 + 1
        = (text.literal.significantDigits.length : ℤ) + text.netExponent by omega,
      zpow_add₀ (by norm_num), zpow_natCast]
    exact mul_lt_mul_of_pos_right (by exact_mod_cast hhigh) hten
  have hle := (Int.zpow_le_iff_le_log (b := 10) (by norm_num) hpos).1 (by exact_mod_cast hlow')
  have hlt := (Int.lt_zpow_iff_log_lt (b := 10) (by norm_num) hpos).1 (by exact_mod_cast hhigh')
  omega

/-- The flag of a decimal that is not zero: whether the power of ten of its first digit is in reach. -/
theorem IsWithinLimits.flag_literal (h : text.IsWithinLimits) (hne : text.magnitude ≠ 0) :
    text.literal.flag = if maxOrder < Int.log 10 text.magnitude then .infinite
      else if Int.log 10 text.magnitude < minOrder then .zero else .normal := by
  have hempty : text.literal.significantDigits.isEmpty = false := by
    simpa using magnitude_ne_zero_iff.1 hne
  have hexponent := h.exponent
  rw [Literal.flag, hempty, h.exponent_literal, if_neg (by decide), if_neg (by omega), if_neg (by omega),
    h.log_magnitude hne]

/-- How many divisions can matter: one for each negative power of ten, but those of numbers with more than
twenty digits count as one together. -/
def roundings (text : DecimalText) : Nat :=
  min (-text.netExponent).toNat (max 1 (20 - Int.log 10 text.magnitude)).toNat

/-- The factor by which the divisions can make the value larger. -/
def slack (text : DecimalText) : ℚ :=
  (1 + 9 / 2 ^ 63) ^ text.roundings

end DecimalText

/-- A number that stands for a decimal, up to the rounding of its divisions. -/
structure Number.Approximates (number : Number) (text : DecimalText) : Prop where
  flag : number.flag = .normal
  reduced : number.IsReduced
  negative : number.negative = text.isNegative
  le_magnitude : text.magnitude ≤ number.magnitude
  magnitude_le : number.magnitude ≤ text.magnitude * text.slack
  ceil_magnitude : ⌈number.magnitude⌉ = ⌈text.magnitude⌉

namespace DecimalText

variable {text : DecimalText}

private theorem roundingError_ten : Division.roundingError 10 = 9 / 2 ^ 63 := by
  rw [Division.roundingError]
  norm_num

/-- The growth in the divisions of a decimal. -/
private theorem IsWithinLimits.exists_growth_le_slack (h : text.IsWithinLimits) (hne : text.magnitude ≠ 0) :
    ∃ level, (level = 0 ∨ 2 ^ 63 * 10 ^ level ≤
        (text.literal.significand.division text.netExponent 10).value) ∧
      Division.growth 10 (-text.netExponent).toNat level ≤ text.slack := by
  rcases Nat.eq_zero_or_pos (-text.netExponent).toNat with hleft | hleft
  · refine ⟨0, .inl rfl, ?_⟩
    simp [Division.growth, slack, roundings, hleft]
  · have hdigits := magnitude_ne_zero_iff.1 hne
    have hlength := List.length_pos_iff.2 hdigits
    have horder := h.log_magnitude hne
    rw [Literal.order, h.exponent_literal] at horder
    refine ⟨text.literal.significantDigits.length - 20, ?_, ?_⟩
    · rcases Nat.lt_or_ge text.literal.significantDigits.length 20 with hshort | hlong
      · exact .inl (by omega)
      · right
        have hvalue : (text.literal.significand.division text.netExponent 10).value = digitsValue text.digits := by
          rw [Significand.division, multiplyPower_eq, Literal.toNat_significand,
            show text.netExponent.toNat = 0 by omega]
          exact Nat.mul_one _
        rw [hvalue]
        calc 2 ^ 63 * 10 ^ (text.literal.significantDigits.length - 20)
            ≤ 10 ^ 19 * 10 ^ (text.literal.significantDigits.length - 20) :=
              Nat.mul_le_mul_right _ (by decide)
          _ = 10 ^ (text.literal.significantDigits.length - 1) := by
              rw [← Nat.pow_add]
              congr 1
              omega
          _ ≤ digitsValue text.digits := le_digitsValue_dropWhile hdigits
    · have hgrowth := Division.growth_le (show 3 ≤ 10 by decide) (by rw [roundingError_ten]; norm_num) hleft
        (text.literal.significantDigits.length - 20)
      rw [roundingError_ten] at hgrowth
      refine hgrowth.trans (le_of_eq ?_)
      rw [slack, roundings, horder]
      congr 1
      omega

/-- A decimal in range is changed to base two. -/
private theorem IsWithinLimits.exists_approximates (h : text.IsWithinLimits) (hne : text.magnitude ≠ 0)
    (hflag : text.literal.flag = .normal) :
    ∃ number : Number, text.literal.toNumber = .ok number ∧ number.Approximates text := by
  have hdigits := magnitude_ne_zero_iff.1 hne
  have hsignificand := Literal.toNat_significand_ne_zero hdigits
  obtain ⟨kept, power, hrebase, hcanonical, hkept, hmagnitude⟩ :=
    Significand.exists_rebase (show 0 < 10 by decide) le_rfl hsignificand text.literal.exponent
  have hodd : kept.toNat % 2 = 1 := by omega
  refine ⟨_, Literal.toNumber_of_rebase hflag hdigits hrebase, ?_⟩
  have hstart : (text.literal.significand.division text.netExponent 10).magnitude 10 2 = text.magnitude := by
    rw [Significand.magnitude_division (by decide), magnitude_eq, Literal.toNat_significand]
    rfl
  rw [h.exponent_literal, Significand.divided, Nat.cast_ofNat] at hmagnitude
  obtain ⟨level, hlevel, hgrowth⟩ := h.exists_growth_le_slack hne
  refine ⟨rfl, ⟨hcanonical, fun _ => hodd, fun hzero => ?_⟩, rfl, ?_, ?_, ?_⟩
  · rw [show kept.toNat = 0 from hzero] at hodd
    exact absurd hodd (by decide)
  · rw [Number.magnitude, hmagnitude, ← hstart]
    exact Division.le_magnitude_run (by decide) (by decide) _ _
  · rw [Number.magnitude, hmagnitude]
    refine (Division.magnitude_run_le_growth (by decide) (by decide) _ hlevel).trans ?_
    rw [hstart]
    exact mul_le_mul_of_nonneg_left hgrowth text.magnitude_nonneg
  · rw [Number.magnitude, hmagnitude, Division.ceil_magnitude_run (by decide) (by decide), hstart]

private theorem magnitude_flagged (flag : NumberFlag) (negative : Bool) :
    (Number.flagged flag negative).magnitude = 0 := by
  have hzero : Significand.zero.toNat = 0 := rfl
  simp [Number.magnitude, Number.flagged, hzero]

private theorem approximates_zero (h : text.magnitude = 0) :
    (Number.flagged .normal text.isNegative).Approximates text where
  flag := rfl
  reduced := ⟨show Significand.zero.IsCanonical by decide, fun h => absurd rfl h, fun _ => rfl⟩
  negative := rfl
  le_magnitude := by rw [h, magnitude_flagged]
  magnitude_le := by rw [h, magnitude_flagged, zero_mul]
  ceil_magnitude := by rw [h, magnitude_flagged]

/-- The number of a decimal within the limits: too large for all types, too small for all, or a little larger
than the decimal. -/
theorem IsWithinLimits.number_cases (h : text.IsWithinLimits) :
    (Number.ofText text.spelling = .ok (.flagged .infinite text.isNegative) ∧ 10 ^ 309 ≤ text.magnitude) ∨
    (Number.ofText text.spelling = .ok (.flagged .zero text.isNegative) ∧ 0 < text.magnitude ∧
      text.magnitude < 10 ^ (-400 : ℤ)) ∨
    ∃ number, Number.ofText text.spelling = .ok number ∧ number.Approximates text := by
  rw [ofText_spelling h.digits]
  by_cases hne : text.magnitude = 0
  · have hnil : text.literal.significantDigits = [] := by
      by_contra hdigits
      exact magnitude_ne_zero_iff.2 hdigits hne
    exact .inr (.inr ⟨_, Literal.toNumber_of_eq_nil hnil, approximates_zero hne⟩)
  · have hpos : 0 < text.magnitude := lt_of_le_of_ne text.magnitude_nonneg (Ne.symm hne)
    have hflag := h.flag_literal hne
    by_cases hlarge : maxOrder < Int.log 10 text.magnitude
    · left
      rw [if_pos hlarge] at hflag
      refine ⟨by rw [Literal.toNumber_of_flag (by rw [hflag]; decide), hflag]; rfl, ?_⟩
      rw [maxOrder] at hlarge
      exact_mod_cast (Int.zpow_le_iff_le_log (b := 10) (x := 309) (by norm_num) hpos).2 (by omega)
    · rw [if_neg hlarge] at hflag
      by_cases hsmall : Int.log 10 text.magnitude < minOrder
      · right
        left
        rw [if_pos hsmall] at hflag
        refine ⟨by rw [Literal.toNumber_of_flag (by rw [hflag]; decide), hflag]; rfl, hpos, ?_⟩
        rw [minOrder] at hsmall
        exact_mod_cast (Int.lt_zpow_iff_log_lt (b := 10) (x := -400) (by norm_num) hpos).2 hsmall
      · rw [if_neg hsmall] at hflag
        exact .inr (.inr (h.exists_approximates hne hflag))

end DecimalText

end ExprLang
