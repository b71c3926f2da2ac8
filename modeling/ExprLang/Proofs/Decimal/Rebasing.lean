import ExprLang.Proofs.Decimal.Bits
import ExprLang.Proofs.Decimal.Division
import ExprLang.Decimal.Number
import Mathlib.Algebra.Order.Field.Power

/-!
# Changing the base

A number times a power of a base becomes a significand without factors of the new base, times a power of that.  Only
the division of a negative power can change the value (`exists_rebase`), and it makes it larger by a small factor
(`rebase_bounds`).  The result depends on the value alone (`rebase_eq_rebase`).
-/

namespace ExprLang

namespace Number

/-- The magnitude of a number that has a value. -/
def magnitude (number : Number) : ℚ :=
  number.significand.toNat * 2 ^ number.exponent

/-- The form in which numbers are kept: an odd significand, or zero times one. -/
structure IsReduced (number : Number) : Prop where
  canonical : number.significand.IsCanonical
  odd : number.significand.toNat ≠ 0 → number.significand.toNat % 2 = 1
  zero : number.significand.toNat = 0 → number.exponent = 0

end Number

/-! ### The factors of a base -/

/-- A number loses all the factors of a base that it has, if there are as many rounds as it has binary digits. -/
private theorem exists_removeFactors {factor : Nat} (hfactor : 2 ≤ factor) {limit value : Nat} (hpos : 0 < value)
    (hlimit : value < 2 ^ limit) (count : Nat) :
    ∃ kept removed, removeFactors factor limit value count = (kept, count + removed) ∧
      kept * factor ^ removed = value ∧ ¬factor ∣ kept := by
  induction limit generalizing value count with
  | zero => omega
  | succ limit ih =>
    rw [removeFactors]
    by_cases hdvd : factor ∣ value
    · have hround : value ≠ 0 ∧ value % factor = 0 := ⟨hpos.ne', Nat.mod_eq_zero_of_dvd hdvd⟩
      have hless : value / factor < 2 ^ limit := by
        rw [Nat.div_lt_iff_lt_mul (by omega)]
        calc value < 2 ^ limit * 2 := by rwa [← pow_succ]
          _ ≤ 2 ^ limit * factor := Nat.mul_le_mul_left _ hfactor
      obtain ⟨kept, removed, hrun, hvalue, hkept⟩ :=
        ih (Nat.div_pos (Nat.le_of_dvd hpos hdvd) (by omega)) hless (count + 1)
      refine ⟨kept, removed + 1, ?_, ?_, hkept⟩
      · rw [if_pos hround, hrun, Nat.add_assoc, Nat.add_comm 1]
      · rw [pow_succ, ← mul_assoc, hvalue, Nat.div_mul_cancel hdvd]
    · have hlast : ¬(value ≠ 0 ∧ value % factor = 0) := fun h => hdvd (Nat.dvd_of_mod_eq_zero h.2)
      exact ⟨value, 0, if_neg hlast, by rw [pow_zero, mul_one], hdvd⟩

/-- A number is trimmed to a significand without factors of the base, by moving bits or by dividing. -/
theorem exists_trimFactors {base value : Nat} (hbase : 2 ≤ base) (hpos : 0 < value) :
    ∃ kept removed, trimFactors base value = (kept, removed) ∧ kept.IsCanonical ∧
      kept.toNat * base ^ removed = value ∧ ¬base ∣ kept.toNat := by
  rw [trimFactors]
  split
  · rename_i htwo
    subst htwo
    have hcanonical := Significand.isCanonical_ofNat value
    have hne : (Significand.ofNat value).toNat ≠ 0 := by rw [Significand.toNat_ofNat]; exact hpos.ne'
    refine ⟨_, _, rfl, Significand.isCanonical_shiftRight _ _, ?_, ?_⟩
    · rw [Significand.toNat_shiftRight, Nat.div_mul_cancel (Significand.two_pow_trailingZeroBits_dvd hcanonical hne),
        Significand.toNat_ofNat]
    · have hodd := Significand.odd_shiftRight_trailingZeroBits hcanonical hne
      omega
  · obtain ⟨kept, removed, hrun, hvalue, hkept⟩ := exists_removeFactors hbase hpos Nat.lt_log2_self 0
    rw [Nat.zero_add] at hrun
    refine ⟨.ofNat kept, removed, by rw [hrun], Significand.isCanonical_ofNat kept, ?_, ?_⟩
    · rw [Significand.toNat_ofNat, hvalue]
    · rwa [Significand.toNat_ofNat]

theorem trimFactors_zero (base : Nat) : trimFactors base 0 = (.zero, 0) := by
  have hzero : Significand.ofNat 0 = .zero := by rw [Significand.ofNat, bytesOf]; rfl
  rw [trimFactors]
  split
  · rw [hzero]
    rfl
  · rw [removeFactors, if_neg fun h => h.1 rfl]
    exact congrArg (·, 0) hzero

/-! ### The division -/

/-- The division that a change of the base starts with. -/
def Significand.division (s : Significand) (exponent : Int) (source : Nat) : Division where
  value := multiplyPower s.toNat source exponent.toNat
  left := (-exponent).toNat
  scaled := 0

/-- The division that a change of the base ends with. -/
def Significand.divided (s : Significand) (exponent : Int) (source target : Nat) : Division :=
  (s.division exponent source).run source target (s.division exponent source).stepLimit

theorem multiplyPower_eq (value base exponent : Nat) :
    multiplyPower value base exponent = value * base ^ exponent := by
  rw [multiplyPower]
  split
  · rename_i h
    rw [h, Nat.zero_mul]
  · rfl

namespace Significand

variable {source target : Nat}

theorem magnitude_division (hs : 0 < source) (s : Significand) (exponent : Int) :
    (s.division exponent source).magnitude source target = s.toNat * (source : ℚ) ^ exponent := by
  have hs' : (source : ℚ) ≠ 0 := by exact_mod_cast hs.ne'
  simp only [Division.magnitude, division, multiplyPower_eq, pow_zero, mul_one]
  push_cast
  rw [mul_div_assoc, ← zpow_natCast, ← zpow_natCast, ← zpow_sub₀ hs']
  congr 2
  omega

theorem value_division_pos (hs : 0 < source) {s : Significand} (h : s.toNat ≠ 0)
    (exponent : Int) : 0 < (s.division exponent source).value := by
  simp only [division, multiplyPower_eq]
  exact Nat.mul_pos (Nat.pos_of_ne_zero h) (Nat.pow_pos hs)

/-- A power that is not negative, or divides the significand, can be divided out exactly. -/
private theorem pow_left_dvd_value_division {s : Significand} {exponent : Int}
    (h : 0 ≤ exponent ∨ source ^ exponent.natAbs ∣ s.toNat) :
    source ^ (s.division exponent source).left ∣ (s.division exponent source).value := by
  simp only [division, multiplyPower_eq]
  rcases h with hnonneg | hdvd
  · rw [show (-exponent).toNat = 0 by omega, pow_zero]
    exact Nat.one_dvd _
  · exact ((Nat.pow_dvd_pow _ (by omega)).trans hdvd).mul_right _

private theorem left_divided (hs : 0 < source) (ht : 2 ≤ target) {s : Significand} (h : s.toNat ≠ 0) (exponent : Int) :
    (s.divided exponent source target).left = 0 :=
  Division.left_run hs ht (value_division_pos hs h exponent)

/-- There is nothing to divide out of zero. -/
private theorem divided_of_eq_zero {s : Significand} (h : s.toNat = 0) (exponent : Int) (source target : Nat) :
    s.divided exponent source target = s.division exponent source := by
  have hvalue : (s.division exponent source).value = 0 := if_pos h
  have hfinished : (s.division exponent source).isFinished = true := by
    rw [Division.isFinished, hvalue, decide_eq_true rfl, Bool.or_true]
  exact Division.run_of_isFinished hfinished _

/-- The number that a change of the base makes: what the division leaves, without the factors of the new base. -/
theorem rebase_eq (hs : 0 < source) (ht : 0 < target) (s : Significand) (exponent : Int) :
    s.rebase exponent source target = .ok
      ((trimFactors target (s.divided exponent source target).value).1,
        (trimFactors target (s.divided exponent source target).value).2
          - ((s.divided exponent source target).scaled : Int)) := by
  simp [rebase, divided, division, hs.ne', ht.ne']
  rfl

private theorem rebase_of_eq_zero (hs : 0 < source) (ht : 0 < target) {s : Significand} (h : s.toNat = 0)
    (exponent : Int) :
    s.rebase exponent source target = .ok (.zero, 0) := by
  have hvalue : (s.division exponent source).value = 0 := if_pos h
  rw [rebase_eq hs ht, divided_of_eq_zero h, hvalue, trimFactors_zero]
  rfl

/-- Changing the base gives a significand without factors of the new base, and the magnitude that the division
leaves. -/
theorem exists_rebase (hs : 0 < source) (ht : 2 ≤ target) {s : Significand} (h : s.toNat ≠ 0) (exponent : Int) :
    ∃ kept power, s.rebase exponent source target = .ok (kept, power) ∧ kept.IsCanonical ∧ ¬target ∣ kept.toNat ∧
      (kept.toNat : ℚ) * (target : ℚ) ^ power = (s.divided exponent source target).magnitude source target := by
  have ht' : (target : ℚ) ≠ 0 := by
    have : target ≠ 0 := by omega
    exact_mod_cast this
  have hpos : 0 < (s.divided exponent source target).value :=
    Division.value_run_pos hs (by omega) _ (value_division_pos hs h exponent)
  obtain ⟨kept, removed, htrim, hcanonical, hvalue, hkept⟩ := exists_trimFactors ht hpos
  refine ⟨kept, _, rebase_eq hs (by omega) s exponent |>.trans (by rw [htrim]), hcanonical, hkept, ?_⟩
  rw [Division.magnitude_of_left_eq_zero (left_divided hs ht h exponent), ← hvalue, zpow_sub₀ ht', zpow_natCast,
    zpow_natCast, ← mul_div_assoc]
  push_cast
  rfl

/-! ### The value -/

/-- The result depends on the value alone, and not on how it is written as a significand and an exponent. -/
theorem rebase_eq_rebase (hs : 0 < source) (ht : 2 ≤ target) {a b : Significand} {m n : Int}
    (h : (a.toNat : ℚ) * (source : ℚ) ^ m = b.toNat * (source : ℚ) ^ n) :
    a.rebase m source target = b.rebase n source target := by
  have hs' : (source : ℚ) ≠ 0 := by exact_mod_cast hs.ne'
  by_cases hzero : a.toNat = 0
  · have hother : b.toNat = 0 := by
      rw [hzero, Nat.cast_zero, zero_mul, eq_comm, mul_eq_zero] at h
      exact_mod_cast h.resolve_right (zpow_ne_zero n hs')
    rw [rebase_of_eq_zero hs (by omega) hzero, rebase_of_eq_zero hs (by omega) hother]
  · have hdivided : a.divided m source target = b.divided n source target := by
      refine Division.run_stepLimit_eq hs ht (value_division_pos hs hzero m) rfl ?_
      rw [magnitude_division hs, magnitude_division hs, h]
    rw [rebase_eq hs (by omega), rebase_eq hs (by omega), hdivided]

/-- The bounds on a number whose base is changed.  It is zero only if it was, and otherwise has no factor of the new
base.  Its value stays the same if the power can be divided out exactly; in any case it does not become smaller, and
grows by no more than a small factor for each division. -/
theorem rebase_bounds (hs : 2 ≤ source) (ht : 2 ≤ target) (s : Significand) (exponent : Int) :
    ∃ kept power, s.rebase exponent source target = .ok (kept, power) ∧ kept.IsCanonical ∧
      (kept.toNat = 0 ↔ s.toNat = 0) ∧
      (0 ≤ exponent ∨ source ^ exponent.natAbs ∣ s.toNat →
        (kept.toNat : ℚ) * (target : ℚ) ^ power = s.toNat * (source : ℚ) ^ exponent) ∧
      (s.toNat : ℚ) * (source : ℚ) ^ exponent ≤ kept.toNat * (target : ℚ) ^ power ∧
      (kept.toNat : ℚ) * (target : ℚ) ^ power
        ≤ s.toNat * (source : ℚ) ^ exponent * (1 + (source - 1) / 2 ^ 63) ^ exponent.natAbs ∧
      (kept.toNat ≠ 0 → ¬target ∣ kept.toNat) := by
  have hs' : 0 < source := by omega
  by_cases hzero : s.toNat = 0
  · have hkept : Significand.zero.toNat = 0 := rfl
    refine ⟨.zero, 0, rebase_of_eq_zero hs' (by omega) hzero exponent, by decide, by simp [hkept, hzero], ?_⟩
    simp [hkept, hzero]
  · obtain ⟨kept, power, hrebase, hcanonical, hkept, hvalue⟩ := exists_rebase hs' ht hzero exponent
    have hstart : (s.division exponent source).magnitude source target = s.toNat * (source : ℚ) ^ exponent :=
      magnitude_division hs' s exponent
    have hne : kept.toNat ≠ 0 := fun h => hkept (h ▸ Nat.dvd_zero target)
    refine ⟨kept, power, hrebase, hcanonical, by simp [hne, hzero], fun hexact => ?_, ?_, ?_, fun _ => hkept⟩
    · rw [hvalue, divided, Division.magnitude_run_of_dvd hs' _ (pow_left_dvd_value_division hexact), hstart]
    · rw [hvalue, ← hstart]
      exact Division.le_magnitude_run hs' (by omega) _ _
    · have hlevel : 0 = 0 ∨ 2 ^ 63 * source ^ 0 ≤ (s.division exponent source).value := .inl rfl
      have hleft : (s.division exponent source).left ≤ exponent.natAbs := show (-exponent).toNat ≤ _ by omega
      rw [hvalue, ← hstart]
      refine (Division.magnitude_run_le_growth hs' (by omega) _ hlevel).trans ?_
      refine mul_le_mul_of_nonneg_left ?_ (Division.magnitude_nonneg _)
      rw [Division.growth, Finset.prod_range_zero, one_mul, Nat.sub_zero]
      exact pow_le_pow_right₀ (le_add_of_nonneg_right (Division.roundingError_nonneg hs')) hleft

/-- One third is rounded up in the seventh digit of base 1000. -/
theorem rebase_bounds_third :
    2 ≤ 3 ∧ 2 ≤ 1000 ∧ ∃ kept power, (ofNat 1).rebase (-1) 3 1000 = .ok (kept, power) ∧
      kept.toNat = 333333333333333333334 ∧ power = -7 ∧ ¬1000 ∣ kept.toNat ∧
      (3 : ℚ) ^ (-1 : ℤ) ≤ kept.toNat * 1000 ^ power ∧
      (kept.toNat * 1000 ^ power : ℚ) ≤ 3 ^ (-1 : ℤ) * (1 + (3 - 1) / 2 ^ 63) := by
  have hdivided : (ofNat 1).divided (-1) 3 1000 = ⟨333333333333333333334, 0, 7⟩ := by cbv
  have htrim : trimFactors 1000 333333333333333333334 = (.ofNat 333333333333333333334, 0) := by
    rw [trimFactors, if_neg (by decide), removeFactors, if_neg (by decide)]
  have hresult : (ofNat 1).rebase (-1) 3 1000 = .ok (.ofNat 333333333333333333334, -7) := by
    rw [rebase_eq (by decide) (by decide), hdivided, htrim]
    rfl
  obtain ⟨kept, power, hrebase, -, -, -, hlow, hhigh, hkept⟩ :=
    rebase_bounds (show 2 ≤ 3 by decide) (show 2 ≤ 1000 by decide) (ofNat 1) (-1)
  have hpair := Prod.mk.inj (Except.ok.inj (hrebase.symm.trans hresult))
  have hvalue : kept.toNat = 333333333333333333334 := by rw [hpair.1, toNat_ofNat]
  rw [toNat_ofNat, Nat.cast_one, one_mul] at hlow hhigh
  exact ⟨by decide, by decide, kept, power, hrebase, hvalue, hpair.2, hkept (by rw [hvalue]; decide), hlow,
    by simpa using hhigh⟩

end Significand

end ExprLang
