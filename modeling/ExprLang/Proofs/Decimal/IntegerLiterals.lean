import ExprLang.Proofs.Decimal.Evaluation
import ExprLang.Proofs.Decimal.Integers
import Mathlib

/-!
# Decimals as integers

An integer type accepts the decimals that are one of its values, and those that are kept as one because the
divisions that change the base have rounded them up to it (`toIntegerType_spelling`).
-/

namespace ExprLang

/-- Whether a decimal that is not whole is kept as the next whole number. -/
def Number.IsRoundedUp (number : Number) (text : DecimalText) : Prop :=
  number.flag = .normal ∧ text.magnitude < ⌈text.magnitude⌉ ∧ number.magnitude = ⌈text.magnitude⌉

/-- The number, negated if this is asked for. -/
def Number.negateIf (number : Number) (negated : Bool) : Number :=
  if negated then number.negate else number

/-- The value of a decimal, negated if this is asked for. -/
def DecimalText.valueIf (text : DecimalText) (negated : Bool) : ℚ :=
  if negated then -text.value else text.value

namespace Number

variable {number : Number} {text : DecimalText}

private theorem IsReduced.negateIf (h : number.IsReduced) (negated : Bool) : (number.negateIf negated).IsReduced := by
  cases negated
  · exact h
  · exact ⟨h.canonical, h.odd, h.zero⟩

private theorem flag_negateIf (number : Number) (negated : Bool) : (number.negateIf negated).flag = number.flag := by
  cases negated <;> rfl

private theorem value_negateIf (number : Number) (negated : Bool) :
    (number.negateIf negated).value = if negated then -number.value else number.value := by
  cases negated
  · rfl
  · show Number.value number.negate = -number.value
    have hnegative : number.negate.negative = !number.negative := rfl
    have hmagnitude : number.negate.magnitude = number.magnitude := rfl
    rw [value, value, hnegative, hmagnitude]
    cases number.negative <;> simp

/-- A number that stands for a decimal is its value if that is whole, or else if it is not rounded up. -/
private theorem Approximates.magnitude_eq_of_whole (h : number.Approximates text) {z : ℤ} (hz : text.magnitude = z) :
    number.magnitude = text.magnitude := by
  refine le_antisymm ?_ h.le_magnitude
  calc number.magnitude ≤ ⌈number.magnitude⌉ := Int.le_ceil _
    _ = text.magnitude := by rw [h.ceil_magnitude, hz, Int.ceil_intCast]

/-- A number that is whole is the next whole number from its decimal. -/
private theorem Approximates.magnitude_eq_ceil (h : number.Approximates text) {z : ℤ} (hz : number.magnitude = z) :
    number.magnitude = ⌈text.magnitude⌉ := by
  rw [← h.ceil_magnitude, hz, Int.ceil_intCast]

/-- Unless it is rounded up, a number is whole if its decimal is, and then they are the same. -/
private theorem Approximates.eq_value_iff (h : number.Approximates text) (hup : ¬number.IsRoundedUp text) (z : ℤ) :
    (z : ℚ) = number.value ↔ (z : ℚ) = text.value := by
  have hmagnitude : ∀ w : ℤ, number.magnitude = w ↔ text.magnitude = w := by
    intro w
    constructor
    · intro hw
      have hceil := h.magnitude_eq_ceil hw
      have hnot : ¬text.magnitude < ⌈text.magnitude⌉ := fun hlt => hup ⟨h.flag, hlt, hceil⟩
      rw [← hw, hceil]
      exact le_antisymm (Int.le_ceil _) (not_lt.1 hnot)
    · intro hw
      rw [h.magnitude_eq_of_whole hw, hw]
  rw [value, DecimalText.value, h.negative]
  cases text.isNegative
  · exact ⟨fun hz => ((hmagnitude z).1 hz.symm).symm, fun hz => ((hmagnitude z).2 hz.symm).symm⟩
  · have hneg : ∀ x : ℚ, (z : ℚ) = -x ↔ x = (-z : ℤ) := by
      intro x
      push_cast
      constructor <;> intro hx <;> linarith
    show (z : ℚ) = -number.magnitude ↔ (z : ℚ) = -text.magnitude
    rw [hneg, hneg, hmagnitude]

end Number

/-- What lies out of reach of all types is in range of no integer type. -/
private theorem natAbs_lt_of_contains {target : IntegerType} {z : ℤ} (h : target.Contains z) :
    |(z : ℚ)| < 10 ^ 309 := by
  have hrange : |z| < 10 ^ 20 := by
    have hlow := h.1
    have hhigh := h.2
    have hminimum : -10 ^ 20 < target.minimum := by cases target <;> decide
    have hmaximum : (target.maximum : ℤ) < 10 ^ 20 := by cases target <;> decide
    rw [abs_lt]
    omega
  calc |(z : ℚ)| < 10 ^ 20 := by exact_mod_cast hrange
    _ ≤ 10 ^ 309 := pow_le_pow_right₀ (by norm_num) (by norm_num)

private theorem abs_valueIf (text : DecimalText) (negated : Bool) : |text.valueIf negated| = text.magnitude := by
  have hmagnitude := abs_of_nonneg text.magnitude_nonneg
  rw [DecimalText.valueIf, DecimalText.value]
  cases negated <;> cases text.isNegative <;> simp [hmagnitude]

/-- Which integers a decimal within the limits is accepted as, with its sign or the other one.  If it is whole
that is its value, and if it is not, that is none, unless the divisions have rounded it up to the next whole
number, which must then be near. -/
theorem toIntegerType_spelling (text : DecimalText) (h : text.IsWithinLimits) :
    ∃ number, Number.ofText text.spelling = .ok number ∧
      (¬number.IsRoundedUp text → ∀ (negated : Bool) (target : IntegerType) (accepted : Value),
        (number.negateIf negated).convert (.integer target) = .ok accepted ↔
          ∃ z : ℤ, (z : ℚ) = text.valueIf negated ∧ target.Contains z ∧ accepted = target.valueOf z) ∧
      (number.IsRoundedUp text → ⌈text.magnitude⌉ ≤ text.magnitude * text.slack ∧
        ∀ (negated : Bool) (target : IntegerType) (accepted : Value),
          (number.negateIf negated).convert (.integer target) = .ok accepted ↔
            ∃ z : ℤ, z = (if text.isNegative ^^ negated then -⌈text.magnitude⌉ else ⌈text.magnitude⌉) ∧
              target.Contains z ∧ accepted = target.valueOf z) := by
  rcases h.number_cases with ⟨hnumber, hlarge⟩ | ⟨hnumber, hpos, hsmall⟩ | ⟨number, hnumber, happrox⟩
  · refine ⟨_, hnumber, fun _ negated target accepted => ?_, fun hup => nomatch hup.1⟩
    constructor
    · intro haccepted
      cases negated <;> cases haccepted
    · rintro ⟨z, hz, hin, -⟩
      have := natAbs_lt_of_contains hin
      rw [hz, abs_valueIf] at this
      exact absurd hlarge (not_le.2 this)
  · refine ⟨_, hnumber, fun _ negated target accepted => ?_, fun hup => nomatch hup.1⟩
    constructor
    · intro haccepted
      cases negated <;> cases haccepted
    · rintro ⟨z, hz, -, -⟩
      have hone : (10 : ℚ) ^ (-400 : ℤ) ≤ 1 := zpow_le_one_of_nonpos₀ (by norm_num) (by norm_num)
      rw [← abs_valueIf text negated, ← hz] at hpos hsmall
      have hlow : 0 < |z| := by exact_mod_cast hpos
      have hhigh : |z| < 1 := by exact_mod_cast hsmall.trans_le hone
      omega
  · have haccepts : ∀ (negated : Bool) (target : IntegerType) (accepted : Value),
        (number.negateIf negated).convert (.integer target) = .ok accepted ↔
          ∃ z : ℤ, (z : ℚ) = (if negated then -number.value else number.value) ∧ target.Contains z ∧
            accepted = target.valueOf z := by
      intro negated target accepted
      rw [← number.value_negateIf negated]
      exact (happrox.reduced.negateIf negated).toIntegerType_eq_ok_iff
        ((number.flag_negateIf negated).trans happrox.flag)
    refine ⟨number, hnumber, fun hup negated target accepted => ?_, fun hup => ⟨?_, fun negated target accepted => ?_⟩⟩
    · rw [haccepts]
      refine exists_congr fun z => and_congr_left fun _ => ?_
      cases negated
      · exact happrox.eq_value_iff hup z
      · have hneg : ∀ x : ℚ, (z : ℚ) = -x ↔ ((-z : ℤ) : ℚ) = x := by
          intro x
          push_cast
          constructor <;> intro hx <;> linarith
        show (z : ℚ) = -number.value ↔ (z : ℚ) = -text.value
        rw [hneg, hneg, happrox.eq_value_iff hup]
    · rw [← hup.2.2]
      exact happrox.magnitude_le
    · rw [haccepts]
      refine exists_congr fun z => and_congr_left fun _ => ?_
      rw [Number.value, happrox.negative, hup.2.2]
      cases negated <;> cases text.isNegative <;> simp <;> exact_mod_cast Iff.rfl

/-- The decimal 0.999999999999999999. -/
def almostOne : DecimalText where
  sign := none
  whole := .zero
  fraction := some ⟨'9', List.replicate 17 '9', rfl, List.all_eq_true.1 rfl⟩
  exponent := none

private theorem magnitude_almostOne : almostOne.magnitude = 999999999999999999 / 10 ^ 18 := by
  have hdigits : digitsValue almostOne.digits = 999999999999999999 := by decide
  have hexponent : almostOne.netExponent = -18 := by decide
  rw [DecimalText.magnitude_eq, hdigits, hexponent]
  norm_num

/-- A decimal that is not whole, and is accepted as the integer one. -/
theorem toIntegerType_spelling_almostOne :
    almostOne.IsWithinLimits ∧ ∃ number, Number.ofText almostOne.spelling = .ok number ∧
      number.IsRoundedUp almostOne ∧ number.convert (.integer .i32) = .ok (.signed 1) := by
  have hlimits : almostOne.IsWithinLimits := ⟨by decide, by decide⟩
  obtain ⟨number, hnumber, -, hup⟩ := toIntegerType_spelling almostOne hlimits
  have hread : Number.ofText almostOne.spelling = .ok ⟨⟨[1]⟩, 0, false, .normal⟩ := by cbv
  have hceil : ⌈almostOne.magnitude⌉ = 1 := by
    rw [magnitude_almostOne, Int.ceil_eq_iff]
    norm_num
  have hrounded : number.IsRoundedUp almostOne := by
    rw [hnumber, Except.ok.injEq] at hread
    refine ⟨by rw [hread], ?_, ?_⟩
    · rw [hceil, magnitude_almostOne]
      norm_num
    · have hone : Significand.toNat ⟨[1]⟩ = 1 := by decide
      rw [hread, hceil, Number.magnitude, hone]
      norm_num
  refine ⟨hlimits, number, hnumber, hrounded, ?_⟩
  refine ((hup hrounded).2 false .i32 (.signed 1)).2 ⟨1, ?_, by decide, rfl⟩
  rw [hceil]
  rfl

end ExprLang
