import ExprLang.Proofs.Decimal.Evaluation

/-!
# Decimals of one value

The number of a decimal depends on its value alone: gaps between the digits, zeros at either end, the place of the
point and the power of ten that is written make no difference (`ofText_spelling_of_magnitude_eq`).  The digits and
exponents of two decimals of one value differ by factors of ten, which a change of the base divides out before it
rounds.
-/

namespace ExprLang

/-- But for its sign, the number of a literal is a matter of its flag, of whether it has digits that count, and of what
the change of its base gives. -/
private theorem Literal.toNumber_congr {a b : Literal} {number : Number} (hnumber : a.toNumber = .ok number)
    (hflag : a.flag = b.flag) (hdigits : a.significantDigits = [] ↔ b.significantDigits = [])
    (hrebase : a.significand.rebase a.exponent 10 2 = b.significand.rebase b.exponent 10 2) :
    b.toNumber = .ok { number with negative := b.negative } := by
  by_cases hnormal : a.flag = .normal
  · by_cases hnil : a.significantDigits = []
    · rw [toNumber_of_eq_nil hnil] at hnumber
      rw [toNumber_of_eq_nil (hdigits.1 hnil), ← Except.ok.inj hnumber]
      rfl
    · obtain ⟨kept, power, hkept, -⟩ := Significand.exists_rebase (show 0 < 10 by decide) le_rfl
        (toNat_significand_ne_zero hnil) a.exponent
      rw [toNumber_of_rebase hnormal hnil hkept] at hnumber
      rw [toNumber_of_rebase (hflag ▸ hnormal) (fun h => hnil (hdigits.2 h)) (hrebase ▸ hkept),
        ← Except.ok.inj hnumber]
  · rw [toNumber_of_flag hnormal] at hnumber
    rw [toNumber_of_flag (hflag ▸ hnormal), ← hflag, ← Except.ok.inj hnumber]
    rfl

/-- The digit one. -/
def DigitRun.one : DigitRun :=
  ⟨'1', [], rfl, DigitRun.zero.rest_isDigitOrGap⟩

namespace DecimalText

variable {a b text : DecimalText}

/-- The number of zero, whatever its exponent. -/
private theorem ofText_spelling_zero (hlength : text.digits.length ≤ digitLimit) (h : text.magnitude = 0) :
    Number.ofText text.spelling = .ok (.flagged .normal text.isNegative) := by
  have hnil : text.literal.significantDigits = [] := by
    by_contra hdigits
    exact magnitude_ne_zero_iff.2 hdigits h
  rw [ofText_spelling hlength, Literal.toNumber_of_eq_nil hnil]
  rfl

private theorem IsWithinLimits.flag_literal_congr (ha : a.IsWithinLimits) (hb : b.IsWithinLimits)
    (h : a.magnitude = b.magnitude) (hne : a.magnitude ≠ 0) : a.literal.flag = b.literal.flag := by
  rw [ha.flag_literal hne, hb.flag_literal (h ▸ hne), h]

private theorem IsWithinLimits.rebase_literal_congr (ha : a.IsWithinLimits) (hb : b.IsWithinLimits)
    (h : a.magnitude = b.magnitude) :
    a.literal.significand.rebase a.literal.exponent 10 2 = b.literal.significand.rebase b.literal.exponent 10 2 := by
  refine Significand.rebase_eq_rebase (by decide) le_rfl ?_
  rw [ha.exponent_literal, hb.exponent_literal, Literal.toNat_significand, Literal.toNat_significand, Nat.cast_ofNat]
  show (digitsValue a.digits : ℚ) * 10 ^ a.netExponent = digitsValue b.digits * 10 ^ b.netExponent
  rw [← magnitude_eq, ← magnitude_eq, h]

/-- Decimals within the limits that have one value have one flag, one significand and one exponent.  Zero is the number
without digits, even beyond the limits of exponents. -/
theorem ofText_spelling_of_magnitude_eq :
    (∀ a b : DecimalText, a.IsWithinLimits → b.IsWithinLimits → a.magnitude = b.magnitude →
      ∃ first second, Number.ofText a.spelling = .ok first ∧ Number.ofText b.spelling = .ok second ∧
        first.flag = second.flag ∧ first.significand = second.significand ∧ first.exponent = second.exponent) ∧
    ∀ text : DecimalText, text.digits.length ≤ digitLimit → text.magnitude = 0 →
      Number.ofText text.spelling
        = .ok { significand := .zero, exponent := 0, negative := text.isNegative, flag := .normal } := by
  refine ⟨fun a b ha hb h => ?_, fun text hlength h => ofText_spelling_zero hlength h⟩
  by_cases hzero : a.magnitude = 0
  · exact ⟨_, _, ofText_spelling_zero ha.digits hzero, ofText_spelling_zero hb.digits (h ▸ hzero), rfl, rfl, rfl⟩
  · obtain ⟨first, hfirst⟩ := a.literal.exists_toNumber
    have hdigits : a.literal.significantDigits = [] ↔ b.literal.significantDigits = [] :=
      iff_of_false (magnitude_ne_zero_iff.1 hzero) (magnitude_ne_zero_iff.1 (h ▸ hzero))
    have hsecond := Literal.toNumber_congr hfirst (ha.flag_literal_congr hb h hzero) hdigits
      (ha.rebase_literal_congr hb h)
    rw [ofText_spelling ha.digits, ofText_spelling hb.digits]
    exact ⟨_, _, hfirst, hsecond, rfl, rfl, rfl⟩

/-- The decimal `0_0.10`. -/
def tenth : DecimalText where
  sign := none
  whole := ⟨'0', ['_', '0'], DigitRun.zero.first_isDigit, List.all_eq_true.1 rfl⟩
  fraction := some ⟨'1', ['0'], DigitRun.one.first_isDigit, List.all_eq_true.1 rfl⟩
  exponent := none

/-- The decimal `1e-1`. -/
def tenthByExponent : DecimalText where
  sign := none
  whole := .one
  fraction := none
  exponent := some ⟨'e', some .minus, .one, rfl⟩

/-- The decimal `0.0e100000`. -/
def zeroBeyondLimits : DecimalText where
  sign := none
  whole := .zero
  fraction := some .zero
  exponent := some ⟨'e', none, ⟨'1', List.replicate 5 '0', DigitRun.one.first_isDigit, List.all_eq_true.1 rfl⟩, rfl⟩

private theorem magnitude_of_digits (text : DecimalText) (value : Nat) (exponent : Int)
    (hdigits : digitsValue text.digits = value) (hexponent : text.netExponent = exponent) :
    text.magnitude = value * 10 ^ exponent := by
  rw [magnitude_eq, hdigits, hexponent]

/-- Two ways to write one tenth, and a zero with an exponent that is too large for other numbers. -/
theorem ofText_spelling_of_magnitude_eq_tenth :
    tenth.IsWithinLimits ∧ tenthByExponent.IsWithinLimits ∧ tenth.magnitude = tenthByExponent.magnitude ∧
      (∃ first second, Number.ofText "0_0.10".toList = .ok first ∧ Number.ofText "1e-1".toList = .ok second ∧
        first.flag = second.flag ∧ first.significand = second.significand ∧ first.exponent = second.exponent) ∧
      zeroBeyondLimits.digits.length ≤ digitLimit ∧ zeroBeyondLimits.magnitude = 0 ∧
      Number.ofText "0.0e100000".toList
        = .ok { significand := .zero, exponent := 0, negative := false, flag := .normal } := by
  have htenth : tenth.IsWithinLimits := ⟨by decide, by decide⟩
  have hother : tenthByExponent.IsWithinLimits := ⟨by decide, by decide⟩
  have hvalue : tenth.magnitude = tenthByExponent.magnitude := by
    rw [magnitude_of_digits tenth 10 (-2) (by decide) (by decide),
      magnitude_of_digits tenthByExponent 1 (-1) (by decide) (by decide)]
    norm_num
  have hlength : zeroBeyondLimits.digits.length ≤ digitLimit := by decide
  have hzero : zeroBeyondLimits.magnitude = 0 := by
    rw [magnitude_eq, show digitsValue zeroBeyondLimits.digits = 0 by decide, Nat.cast_zero, zero_mul]
  obtain ⟨hsame, hnone⟩ := ofText_spelling_of_magnitude_eq
  exact ⟨htenth, hother, hvalue, hsame tenth tenthByExponent htenth hother hvalue, hlength, hzero,
    hnone zeroBeyondLimits hlength hzero⟩

end DecimalText

end ExprLang
