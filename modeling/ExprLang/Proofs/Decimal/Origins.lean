import ExprLang.Proofs.Decimal.Evaluation
import ExprLang.Proofs.Decimal.Integers

/-!
# Where numbers come from

Numbers are read from texts or made of words of 64 bits, and may be negated (`Number.IsObtained`).  All of them have a
canonical significand, no factor of two is left in one with binary places (`IsObtained.exponent_nonneg_iff`), and their
lengths and exponents are far below what a word can hold (`IsObtained.fitsWords`).
-/

namespace ExprLang

namespace Division

variable {source target : Nat}

/-- A step makes the number larger by one factor of the new base at most. -/
private theorem step_le (hs : 0 < source) (ht : 2 ≤ target) {division : Division} (h : division.isFinished = false) :
    (division.step source target).value ≤ division.value * target ∧
      (division.step source target).scaled ≤ division.scaled + 1 := by
  have hpos := (not_isFinished_iff.1 h).2
  have hgrow : division.value * 2 ≤ division.value * target := Nat.mul_le_mul_left _ ht
  have hdiv := Nat.div_le_self division.value source
  rcases step_cases hs target division with ⟨-, hnext⟩ | ⟨-, -, hnext⟩ | ⟨-, -, hnext⟩ <;> rw [hnext]
  · exact ⟨show division.value / source ≤ _ by omega, Nat.le_succ _⟩
  · exact ⟨Nat.le_refl _, Nat.le_refl _⟩
  · exact ⟨show division.value / source + 1 ≤ _ by omega, Nat.le_succ _⟩

/-- Each step counts for one factor of the new base at most. -/
private theorem run_le (hs : 0 < source) (ht : 2 ≤ target) (steps : Nat) (division : Division) :
    (division.run source target steps).value ≤ division.value * target ^ steps ∧
      (division.run source target steps).scaled ≤ division.scaled + steps := by
  induction steps generalizing division with
  | zero => exact ⟨(Nat.mul_one _).ge, Nat.le_refl _⟩
  | succ steps ih =>
    rw [run]
    by_cases hfinished : division.isFinished = true
    · rw [if_pos hfinished]
      exact ⟨Nat.le_mul_of_pos_right _ (Nat.pow_pos (by omega)), Nat.le_add_right _ _⟩
    · rw [if_neg hfinished]
      obtain ⟨hvalue, hscaled⟩ := step_le hs ht (by simpa using hfinished)
      obtain ⟨hvalues, hscaleds⟩ := ih (division.step source target)
      constructor
      · calc ((division.step source target).run source target steps).value
            ≤ (division.step source target).value * target ^ steps := hvalues
          _ ≤ division.value * target * target ^ steps := Nat.mul_le_mul_right _ hvalue
          _ = division.value * target ^ (steps + 1) := by rw [pow_succ', mul_assoc]
      · omega

end Division

/-- The sizes after a change to base two: the binary digits that there are at first, and one more for each step. -/
private theorem Significand.bitLength_rebase_le {source : Nat} (hs : 0 < source) {s kept : Significand}
    {exponent power : Int} (hne : s.toNat ≠ 0) (h : s.rebase exponent source 2 = .ok (kept, power)) {length : Nat}
    (hlength : s.toNat * source ^ exponent.toNat < 2 ^ length) :
    kept.bitLength ≤ length + (-exponent).toNat * 65 ∧ power.natAbs ≤ length + (-exponent).toNat * 65 := by
  have hrun := Division.run_le hs le_rfl (s.division exponent source).stepLimit (s.division exponent source)
  have hpos : 0 < (s.divided exponent source 2).value :=
    Division.value_run_pos hs (by decide) _ (value_division_pos hs hne exponent)
  obtain ⟨trimmed, removed, htrim, hcanonical, hvalue, -⟩ := exists_trimFactors le_rfl hpos
  rw [rebase_eq hs (by decide), htrim, Except.ok.injEq, Prod.mk.injEq] at h
  obtain ⟨rfl, rfl⟩ := h
  have hlimit : (s.division exponent source).stepLimit = (-exponent).toNat * 65 := rfl
  have hstart : (s.division exponent source).value = s.toNat * source ^ exponent.toNat := multiplyPower_eq _ _ _
  have hscaled : (s.divided exponent source 2).scaled ≤ 0 + (-exponent).toNat * 65 := hrun.2
  have hless : (s.divided exponent source 2).value < 2 ^ (length + (-exponent).toNat * 65) := by
    calc (s.divided exponent source 2).value
        ≤ s.toNat * source ^ exponent.toNat * 2 ^ ((-exponent).toNat * 65) := by
          rw [← hstart, ← hlimit]
          exact hrun.1
      _ < 2 ^ length * 2 ^ ((-exponent).toNat * 65) := Nat.mul_lt_mul_of_pos_right hlength (Nat.two_pow_pos _)
      _ = 2 ^ (length + (-exponent).toNat * 65) := (Nat.pow_add _ _ _).symm
  have hfactors : trimmed.toNat ≠ 0 := by
    intro hzero
    rw [hzero, Nat.zero_mul] at hvalue
    omega
  constructor
  · rw [bitLength_eq_size hcanonical, Nat.size_le]
    refine lt_of_le_of_lt ?_ hless
    rw [← hvalue]
    exact Nat.le_mul_of_pos_right _ (Nat.two_pow_pos _)
  · have hremoved : 2 ^ removed < 2 ^ (length + (-exponent).toNat * 65) := by
      refine lt_of_le_of_lt ?_ hless
      rw [← hvalue]
      exact Nat.le_mul_of_pos_left _ (Nat.pos_of_ne_zero hfactors)
    have := (Nat.pow_lt_pow_iff_right (show 1 < 2 by decide)).1 hremoved
    omega

namespace Number

/-- The numbers that are read from texts or made of words, and their negatives. -/
inductive IsObtained : Number → Prop
  | ofText {text number} (h : ofText text = .ok number) : IsObtained number
  | ofWord (word : UInt64) : IsObtained (.ofNat word.toNat)
  | negate {number} (h : IsObtained number) : IsObtained number.negate

/-- Whether the length and the exponent of a number, and sums and differences of two of them, are words. -/
structure FitsWords (number : Number) : Prop where
  length_lt : number.significand.bitLength < 2 ^ 62
  exponent_lt : number.exponent.natAbs < 2 ^ 62

variable {number : Number}

/-! ### Numbers of texts -/

private theorem isReduced_flagged (flag : NumberFlag) (negative : Bool) : (flagged flag negative).IsReduced :=
  ⟨show Significand.zero.IsCanonical by decide, fun h => absurd rfl h, fun _ => rfl⟩

private theorem fitsWords_flagged (flag : NumberFlag) (negative : Bool) : (flagged flag negative).FitsWords :=
  ⟨show Significand.zero.bitLength < 2 ^ 62 by decide, show (0 : Int).natAbs < 2 ^ 62 by decide⟩

end Number

/-! ### Literals -/

namespace Literal

variable {text : List Char} {literal : Literal}

/-- The digits of a literal that is read are decimal digits. -/
private theorem lt_ten_of_read (h : read text = .ok literal) : ∀ digit ∈ literal.digits, digit < 10 := by
  have hdigits : literal.digits = digitValues (mantissa text) := by
    rw [read] at h
    simp only at h
    split at h
    · cases h
    · split at h
      · rw [← Except.ok.inj h]
      · rename_i exponent _
        cases hpower : readExponent exponent with
        | error =>
          rw [hpower] at h
          cases h
        | ok power =>
          rw [hpower] at h
          rw [← Except.ok.inj h]
  rw [hdigits]
  exact fun digit hmem => digitValues_lt hmem

/-- A literal whose number has a value has few digits and a small exponent. -/
private theorem le_of_flag_eq_normal (hflag : literal.flag = .normal) (hdigits : literal.significantDigits ≠ []) :
    literal.significantDigits.length + literal.exponent.toNat ≤ 65845 ∧ (-literal.exponent).toNat ≤ 65536 := by
  have hempty : literal.significantDigits.isEmpty = false := by simpa using hdigits
  rw [flag, hempty, if_neg (by decide)] at hflag
  have hlarge : ¬(exponentLimit : Int) < literal.exponent := fun h => by
    rw [if_pos h] at hflag
    cases hflag
  rw [if_neg hlarge] at hflag
  have hsmall : ¬literal.exponent < -exponentLimit := fun h => by
    rw [if_pos h] at hflag
    cases hflag
  rw [if_neg hsmall] at hflag
  have horder : ¬maxOrder < literal.order := fun h => by
    rw [if_pos h] at hflag
    cases hflag
  rw [order] at horder
  simp only [exponentLimit, maxOrder] at hlarge hsmall horder
  omega

/-- A literal stands for fewer than four binary digits for each of its digits and each power of ten. -/
private theorem toNat_significand_mul_lt (hten : ∀ digit ∈ literal.digits, digit < 10) :
    literal.significand.toNat * 10 ^ literal.exponent.toNat
      < 2 ^ (4 * (literal.significantDigits.length + literal.exponent.toNat)) := by
  have hdigits : literal.significand.toNat < 10 ^ literal.significantDigits.length := by
    rw [significand, Significand.toNat_ofNat]
    exact digitsValue_lt fun digit hmem => hten digit ((List.dropWhile_sublist _).mem hmem)
  calc literal.significand.toNat * 10 ^ literal.exponent.toNat
      < 10 ^ literal.significantDigits.length * 10 ^ literal.exponent.toNat :=
        Nat.mul_lt_mul_of_pos_right hdigits (Nat.pow_pos (by decide))
    _ = 10 ^ (literal.significantDigits.length + literal.exponent.toNat) := (Nat.pow_add _ _ _).symm
    _ ≤ (2 ^ 4) ^ (literal.significantDigits.length + literal.exponent.toNat) := Nat.pow_le_pow_left (by decide) _
    _ = 2 ^ (4 * (literal.significantDigits.length + literal.exponent.toNat)) := (Nat.pow_mul _ _ _).symm

/-- The number of a literal with decimal digits is reduced, and it fits into words. -/
private theorem isReduced_of_toNumber {number : Number} (hten : ∀ digit ∈ literal.digits, digit < 10)
    (h : literal.toNumber = .ok number) : number.IsReduced ∧ number.FitsWords := by
  by_cases hflag : literal.flag = .normal
  · by_cases hdigits : literal.significantDigits = []
    · rw [toNumber_of_eq_nil hdigits] at h
      rw [← Except.ok.inj h]
      exact ⟨Number.isReduced_flagged _ _, Number.fitsWords_flagged _ _⟩
    · have hne := toNat_significand_ne_zero hdigits
      obtain ⟨kept, power, hrebase, hcanonical, hkept, -⟩ := Significand.exists_rebase (show 0 < 10 by decide) le_rfl
        hne literal.exponent
      obtain ⟨hlength, hexponent⟩ := le_of_flag_eq_normal hflag hdigits
      obtain ⟨hbits, hpower⟩ := Significand.bitLength_rebase_le (by decide) hne hrebase (toNat_significand_mul_lt hten)
      rw [toNumber_of_rebase hflag hdigits hrebase] at h
      rw [← Except.ok.inj h]
      refine ⟨⟨hcanonical, fun _ => ?_, fun hzero => ?_⟩, ⟨?_, ?_⟩⟩
      · show kept.toNat % 2 = 1
        omega
      · exact absurd (Nat.dvd_zero 2) (hzero ▸ hkept)
      · show kept.bitLength < 2 ^ 62
        omega
      · show power.natAbs < 2 ^ 62
        omega
  · rw [toNumber_of_flag hflag] at h
    rw [← Except.ok.inj h]
    exact ⟨Number.isReduced_flagged _ _, Number.fitsWords_flagged _ _⟩

end Literal

namespace Number

variable {number : Number}

/-! ### All numbers -/

/-- The number of a text is reduced, and it fits into words. -/
theorem isReduced_of_ofText {text : List Char} (h : ofText text = .ok number) :
    number.IsReduced ∧ number.FitsWords := by
  rw [ofText] at h
  split at h
  · rw [← Except.ok.inj h]
    exact ⟨isReduced_flagged _ _, fitsWords_flagged _ _⟩
  · cases hread : Literal.read text with
    | error =>
      rw [hread] at h
      cases h
    | ok literal =>
      rw [hread] at h
      exact Literal.isReduced_of_toNumber (Literal.lt_ten_of_read hread) h

namespace IsObtained

theorem fitsWords (h : number.IsObtained) : number.FitsWords := by
  induction h with
  | ofText h => exact (isReduced_of_ofText h).2
  | ofWord word =>
    refine ⟨?_, show (0 : Int).natAbs < 2 ^ 62 by decide⟩
    have hsize : word.toNat.size ≤ 64 := Nat.size_le.2 word.toNat_lt
    show (Significand.ofNat word.toNat).bitLength < 2 ^ 62
    rw [Significand.bitLength_eq_size (Significand.isCanonical_ofNat _), Significand.toNat_ofNat]
    omega
  | negate _ ih => exact ⟨ih.length_lt, ih.exponent_lt⟩

/-- A number of a word need not be reduced, but has no binary places. -/
private theorem isReduced_or (h : number.IsObtained) :
    number.IsReduced ∨ number.significand.IsCanonical ∧ number.exponent = 0 := by
  induction h with
  | ofText h => exact .inl (isReduced_of_ofText h).1
  | ofWord word => exact .inr ⟨Significand.isCanonical_ofNat _, rfl⟩
  | negate _ ih => exact ih.imp (fun h => ⟨h.canonical, h.odd, h.zero⟩) id

theorem isCanonical (h : number.IsObtained) : number.significand.IsCanonical :=
  h.isReduced_or.elim (·.canonical) (·.1)

/-- A number is whole if and only if it has no binary places. -/
theorem exponent_nonneg_iff (h : number.IsObtained) : 0 ≤ number.exponent ↔ ∃ z : ℤ, (z : ℚ) = number.value := by
  constructor
  · exact fun hexponent => ⟨_, (value_eq_wholeValue hexponent).symm⟩
  · rintro ⟨z, hz⟩
    rcases h.isReduced_or with hreduced | ⟨-, hzero⟩
    · exact hreduced.exponent_nonneg_of_value hz
    · exact hzero.ge

end IsObtained

end Number

end ExprLang
