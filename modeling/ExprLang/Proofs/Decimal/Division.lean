import ExprLang.Decimal.Rebase
import Mathlib.Algebra.BigOperators.Fin
import Mathlib.Algebra.Order.BigOperators.Ring.Finset
import Mathlib.Algebra.Order.Floor.Ring
import Mathlib.Data.Rat.Floor
import Mathlib.Data.Nat.Log
import Mathlib.Data.Rat.Defs
import Mathlib.Tactic.FieldSimp
import Mathlib.Tactic.GCongr
import Mathlib.Tactic.Linarith
import Mathlib.Tactic.Positivity
import Mathlib.Tactic.Ring

/-!
# Dividing out a power

What one step of a division does to the number it stands for (`step_cases`), and from it what all steps
together do: nothing is lost if the power divides the number, and otherwise the number only grows, by a small
factor for each division that rounds (`magnitude_run_le_growth`) and never past a whole number
(`ceil_magnitude_run`).  The steps that are granted suffice (`isFinished_run`), and divisions that stand for one
number end alike (`run_stepLimit_eq`).
-/

namespace ExprLang

namespace Division

variable {source target : Nat}

/-- The number that a division stands for. -/
def magnitude (source target : Nat) (division : Division) : ℚ :=
  division.value / (source ^ division.left * target ^ division.scaled)

theorem not_isFinished_iff {division : Division} :
    division.isFinished = false ↔ 0 < division.left ∧ 0 < division.value := by
  simp [isFinished, Nat.pos_iff_ne_zero]

/-- A step divides exactly, scales up a number that is short, or rounds a number that is long away from
zero. -/
theorem step_cases (hs : 0 < source) (target : Nat) (division : Division) :
    (source ∣ division.value ∧ division.step source target =
      { division with value := division.value / source, left := division.left - 1 }) ∨
    (¬source ∣ division.value ∧ division.value < 2 ^ 63 ∧ division.step source target =
      { division with value := division.value * target, scaled := division.scaled + 1 }) ∨
    (¬source ∣ division.value ∧ 2 ^ 63 ≤ division.value ∧ division.step source target =
      { division with value := division.value / source + 1, left := division.left - 1 }) := by
  by_cases hdvd : source ∣ division.value
  · left
    exact ⟨hdvd, by simp [step, Nat.mod_eq_zero_of_dvd hdvd]⟩
  · right
    have hmod : division.value % source ≠ 0 := fun h => hdvd (Nat.dvd_of_mod_eq_zero h)
    by_cases hlong : 2 ^ 63 ≤ division.value
    · right
      refine ⟨hdvd, hlong, ?_⟩
      have hround : (division.value + (source - division.value % source)) / source
          = division.value / source + 1 := by
        have hlt := Nat.mod_lt division.value hs
        have hdiv := Nat.div_add_mod division.value source
        rw [show division.value + (source - division.value % source)
            = source * (division.value / source + 1) by rw [Nat.mul_succ]; omega,
          Nat.mul_div_cancel_left _ hs]
      have hprecise : division.isPrecise = true := decide_eq_true hlong
      simp [step, hmod, hprecise, hround]
    · left
      have hprecise : division.isPrecise = false := decide_eq_false hlong
      exact ⟨hdvd, by omega, by simp [step, hmod, hprecise]⟩

/-! ### All steps -/

/-- What every step of an unfinished division keeps is kept by all steps together. -/
private theorem run_invariant {P : Division → Prop}
    (hstep : ∀ division, division.isFinished = false → P division → P (division.step source target))
    (steps : Nat) {division : Division} (h : P division) : P (division.run source target steps) := by
  induction steps generalizing division with
  | zero => exact h
  | succ steps ih =>
    rw [run]
    by_cases hfinished : division.isFinished = true
    · rw [if_pos hfinished]
      exact h
    · rw [if_neg hfinished]
      exact ih (hstep division (by simpa using hfinished) h)

theorem run_of_isFinished {division : Division} (h : division.isFinished = true) (steps : Nat) :
    division.run source target steps = division := by
  cases steps with
  | zero => rfl
  | succ steps => rw [run, if_pos h]

private theorem run_add (first second : Nat) (division : Division) :
    division.run source target (first + second) = (division.run source target first).run source target second := by
  induction first generalizing division with
  | zero => rw [Nat.zero_add, run]
  | succ first ih =>
    rw [Nat.succ_add, run, run]
    by_cases hfinished : division.isFinished = true
    · rw [if_pos hfinished, if_pos hfinished, run_of_isFinished hfinished]
    · rw [if_neg hfinished, if_neg hfinished, ih]

/-- Any two numbers of steps that suffice lead to the same end. -/
theorem run_eq_of_isFinished {first second : Nat} {division : Division}
    (hfirst : (division.run source target first).isFinished = true)
    (hsecond : (division.run source target second).isFinished = true) :
    division.run source target first = division.run source target second := by
  rcases Nat.le_total first second with hle | hle
  · obtain ⟨more, rfl⟩ := Nat.exists_eq_add_of_le hle
    rw [run_add, run_of_isFinished hfirst]
  · obtain ⟨more, rfl⟩ := Nat.exists_eq_add_of_le hle
    rw [run_add, run_of_isFinished hsecond]

/-- A bound on the steps that are left: each division follows at most 63 times of scaling up. -/
def cost (division : Division) : Nat :=
  if division.isFinished then 0 else (division.left - 1) * 64 + (63 - division.value.log2) + 1

private theorem cost_le_stepLimit (division : Division) : division.cost ≤ division.stepLimit := by
  rw [cost, stepLimit, precisionBits]
  split
  · exact Nat.zero_le _
  · rename_i h
    have := (not_isFinished_iff.1 (by simpa using h)).1
    omega

private theorem value_step_pos (hs : 0 < source) (ht : 0 < target) {division : Division} (hpos : 0 < division.value) :
    0 < (division.step source target).value := by
  rcases step_cases hs target division with ⟨hdvd, hnext⟩ | ⟨-, -, hnext⟩ | ⟨-, -, hnext⟩ <;> rw [hnext]
  · exact Nat.div_pos (Nat.le_of_dvd hpos hdvd) (Nat.pos_of_dvd_of_pos hdvd hpos)
  · exact Nat.mul_pos hpos ht
  · exact Nat.succ_pos _

private theorem cost_of_left_lt {division next : Division} (h : division.isFinished = false)
    (hleft : next.left = division.left - 1) : next.cost < division.cost := by
  have hpos := not_isFinished_iff.1 h
  rw [cost, cost, h]
  split <;> rename_i hnext
  · simp
  · have := (not_isFinished_iff.1 (by simpa using hnext)).1
    simp
    omega

theorem cost_step_lt (hs : 0 < source) (ht : 2 ≤ target) {division : Division} (h : division.isFinished = false) :
    (division.step source target).cost < division.cost := by
  have hpos := not_isFinished_iff.1 h
  rcases step_cases hs target division with ⟨-, hnext⟩ | ⟨-, hshort, hnext⟩ | ⟨-, -, hnext⟩
  · exact cost_of_left_lt h (by rw [hnext])
  -- Scaling up leaves the divisions as they are, but makes the number longer.
  · have hlong : division.value.log2 < 63 := (Nat.log2_lt hpos.2.ne').2 hshort
    have hmore : division.value.log2 + 1 ≤ (division.value * target).log2 := by
      rw [Nat.le_log2 (by have := Nat.mul_pos hpos.2 (show 0 < target by omega); omega), Nat.pow_succ]
      exact Nat.mul_le_mul (Nat.log2_self_le hpos.2.ne') ht
    rw [cost, cost, h, hnext]
    split
    · simp
    · simp
      omega
  · exact cost_of_left_lt h (by rw [hnext])

private theorem isFinished_run_of_cost_le (hs : 0 < source) (ht : 2 ≤ target) {steps : Nat} {division : Division}
    (h : division.cost ≤ steps) : (division.run source target steps).isFinished = true := by
  induction steps generalizing division with
  | zero =>
    rw [run]
    by_contra hfinished
    rw [cost, if_neg hfinished] at h
    omega
  | succ steps ih =>
    rw [run]
    by_cases hfinished : division.isFinished = true
    · rwa [if_pos hfinished]
    · rw [if_neg hfinished]
      have := cost_step_lt hs ht (by simpa using hfinished)
      exact ih (by omega)

/-- The steps that are granted suffice. -/
theorem isFinished_run (hs : 0 < source) (ht : 2 ≤ target) (division : Division) :
    (division.run source target division.stepLimit).isFinished = true :=
  isFinished_run_of_cost_le hs ht division.cost_le_stepLimit

theorem value_run_pos (hs : 0 < source) (ht : 0 < target) (steps : Nat) {division : Division}
    (hpos : 0 < division.value) : 0 < (division.run source target steps).value :=
  run_invariant (P := fun d => 0 < d.value) (fun _ _ h => value_step_pos hs ht h) steps hpos

/-- At the end nothing is left to divide out. -/
theorem left_run (hs : 0 < source) (ht : 2 ≤ target) {division : Division} (hpos : 0 < division.value) :
    (division.run source target division.stepLimit).left = 0 := by
  have hfinished := isFinished_run hs ht division
  have := value_run_pos hs (show 0 < target by omega) division.stepLimit hpos
  rw [isFinished, Bool.or_eq_true] at hfinished
  simp only [decide_eq_true_eq] at hfinished
  omega

/-! ### The number a division stands for -/

theorem magnitude_of_left_eq_zero {division : Division} (h : division.left = 0) :
    division.magnitude source target = division.value / target ^ division.scaled := by
  rw [magnitude, h, pow_zero, one_mul]

private theorem magnitude_exact (hs : 0 < source) {division : Division} (hleft : 0 < division.left)
    (hdvd : source ∣ division.value) :
    magnitude source target { division with value := division.value / source, left := division.left - 1 }
      = division.magnitude source target := by
  obtain ⟨k, hk⟩ := hdvd
  obtain ⟨left, hl⟩ := Nat.exists_eq_succ_of_ne_zero hleft.ne'
  have hs' : (source : ℚ) ≠ 0 := by exact_mod_cast hs.ne'
  simp only [magnitude, hk, hl, Nat.mul_div_cancel_left _ hs, Nat.succ_eq_add_one, Nat.add_sub_cancel, pow_succ]
  push_cast
  rw [mul_right_comm, mul_comm (source : ℚ) (k : ℚ), mul_div_mul_right _ _ hs']

private theorem magnitude_scaled (ht : 0 < target) (division : Division) :
    magnitude source target { division with value := division.value * target, scaled := division.scaled + 1 }
      = division.magnitude source target := by
  have ht' : (target : ℚ) ≠ 0 := by exact_mod_cast ht.ne'
  simp only [magnitude, pow_succ]
  push_cast
  rw [← mul_assoc, mul_div_mul_right _ _ ht']

/-- Rounding away from zero adds less than one to the quotient. -/
private theorem magnitude_rounded (hs : 0 < source) (ht : 0 < target) {division : Division} (hleft : 0 < division.left)
    (hdvd : ¬source ∣ division.value) :
    division.magnitude source target ≤ magnitude source target
        { division with value := division.value / source + 1, left := division.left - 1 } ∧
      magnitude source target { division with value := division.value / source + 1, left := division.left - 1 }
        ≤ division.magnitude source target * (1 + (source - 1) / division.value) := by
  obtain ⟨left, hl⟩ := Nat.exists_eq_succ_of_ne_zero hleft.ne'
  have hs' : (0 : ℚ) < source := by exact_mod_cast hs
  have ht' : (0 : ℚ) < target := by exact_mod_cast ht
  have hmod : 0 < division.value % source := Nat.pos_of_ne_zero fun h => hdvd (Nat.dvd_of_mod_eq_zero h)
  have hlt := Nat.mod_lt division.value hs
  have hdiv := Nat.div_add_mod division.value source
  have hv : 0 < division.value := by
    rcases Nat.eq_zero_or_pos division.value with h | h
    · rw [h] at hdvd
      exact absurd (Nat.dvd_zero source) hdvd
    · exact h
  have hv' : (0 : ℚ) < division.value := by exact_mod_cast hv
  have hlow : (division.value : ℚ) ≤ source * (division.value / source + 1 : ℕ) := by
    have : division.value ≤ source * (division.value / source + 1) := by rw [Nat.mul_succ]; omega
    exact_mod_cast this
  have hhigh : (source * (division.value / source + 1 : ℕ) : ℚ) ≤ division.value + (source - 1) := by
    have : source * (division.value / source + 1) + 1 ≤ division.value + source := by rw [Nat.mul_succ]; omega
    have : (source * (division.value / source + 1 : ℕ) + 1 : ℚ) ≤ division.value + source := by exact_mod_cast this
    linarith
  -- over the denominator of the old number, the new numerator is the old one rounded up to a multiple
  have hnext : magnitude source target
      { division with value := division.value / source + 1, left := division.left - 1 }
      = source * (division.value / source + 1 : ℕ) / (source ^ division.left * target ^ division.scaled) := by
    simp only [magnitude, hl, Nat.succ_eq_add_one, Nat.add_sub_cancel, pow_succ]
    rw [mul_right_comm, mul_comm (source : ℚ), mul_div_mul_right _ _ hs'.ne']
  have hden : (0 : ℚ) < source ^ division.left * target ^ division.scaled := by positivity
  rw [hnext, magnitude]
  constructor
  · exact (div_le_div_iff_of_pos_right hden).2 hlow
  · rw [div_mul_eq_mul_div, mul_add, mul_one, mul_div_cancel₀ _ hv'.ne']
    exact (div_le_div_iff_of_pos_right hden).2 hhigh

/-! ### All steps together -/

theorem magnitude_nonneg (division : Division) : 0 ≤ division.magnitude source target := by
  rw [magnitude]
  positivity

private theorem le_magnitude_step (hs : 0 < source) (ht : 0 < target) {division : Division}
    (h : division.isFinished = false) :
    division.magnitude source target ≤ (division.step source target).magnitude source target := by
  have hleft := (not_isFinished_iff.1 h).1
  rcases step_cases hs target division with ⟨hdvd, hnext⟩ | ⟨-, -, hnext⟩ | ⟨hdvd, -, hnext⟩ <;> rw [hnext]
  · exact (magnitude_exact hs hleft hdvd).ge
  · exact (magnitude_scaled ht division).ge
  · exact (magnitude_rounded hs ht hleft hdvd).1

theorem le_magnitude_run (hs : 0 < source) (ht : 0 < target) (steps : Nat) (division : Division) :
    division.magnitude source target ≤ (division.run source target steps).magnitude source target :=
  run_invariant (P := fun d => division.magnitude source target ≤ d.magnitude source target)
    (fun _ hfinished h => h.trans (le_magnitude_step hs ht hfinished)) steps le_rfl

/-- Nothing is lost if the power divides the number. -/
theorem magnitude_run_of_dvd (hs : 0 < source) (steps : Nat) {division : Division}
    (hdvd : source ^ division.left ∣ division.value) :
    (division.run source target steps).magnitude source target = division.magnitude source target := by
  refine (run_invariant (P := fun d => source ^ d.left ∣ d.value ∧
    d.magnitude source target = division.magnitude source target) ?_ steps ⟨hdvd, rfl⟩).2
  intro d hfinished ⟨hpower, hmagnitude⟩
  have hleft := (not_isFinished_iff.1 hfinished).1
  have hone : source ∣ d.value := (dvd_pow_self source hleft.ne').trans hpower
  rcases step_cases hs target d with ⟨-, hnext⟩ | ⟨hnot, -, -⟩ | ⟨hnot, -, -⟩
  · rw [hnext, magnitude_exact hs hleft hone]
    refine ⟨?_, hmagnitude⟩
    obtain ⟨left, hl⟩ := Nat.exists_eq_succ_of_ne_zero hleft.ne'
    rw [hl, pow_succ] at hpower
    rw [hl]
    exact Nat.dvd_div_of_mul_dvd (by rwa [mul_comm])
  · exact absurd hone hnot
  · exact absurd hone hnot

/-- Powers of the base that a number has are divided out before anything else is done. -/
private theorem run_pow_mul (hs : 0 < source) (count : Nat) {value : Nat} (hpos : 0 < value) (left scaled : Nat) :
    run source target count { value := source ^ count * value, left := left + count, scaled }
      = { value, left, scaled } := by
  induction count with
  | zero => rw [run, pow_zero, one_mul, Nat.add_zero]
  | succ count ih =>
    have hvalue : source ^ (count + 1) * value = source * (source ^ count * value) := by
      rw [pow_succ', mul_assoc]
    have hunfinished : isFinished { value := source ^ (count + 1) * value, left := left + (count + 1), scaled } = false :=
      not_isFinished_iff.2 ⟨Nat.succ_pos _, Nat.mul_pos (Nat.pow_pos hs) hpos⟩
    rw [run, hunfinished, if_neg Bool.false_ne_true, ← ih]
    congr 1
    simp only [step, hvalue, Nat.mul_mod_right, if_true, Nat.mul_div_cancel_left _ hs]
    rfl

/-- Of two divisions that stand for one number, what one has more to divide out it has more in its number. -/
private theorem value_mul_pow_of_magnitude_eq (hs : 0 < source) (ht : 0 < target) {first second : Division}
    (hscaled : first.scaled = second.scaled) (h : first.magnitude source target = second.magnitude source target) :
    first.value * source ^ second.left = second.value * source ^ first.left := by
  have hs' : (0 : ℚ) < source := by exact_mod_cast hs
  have ht' : (0 : ℚ) < target := by exact_mod_cast ht
  rw [magnitude, magnitude, hscaled, div_eq_div_iff (by positivity) (by positivity), ← mul_assoc, ← mul_assoc] at h
  exact_mod_cast mul_right_cancel₀ (pow_pos ht' second.scaled).ne' h

/-- Divisions that stand for one number end alike: the one with more to divide out does so exactly, until it has caught
up with the other. -/
theorem run_stepLimit_eq (hs : 0 < source) (ht : 2 ≤ target) {first second : Division} (hpos : 0 < first.value)
    (hscaled : first.scaled = second.scaled)
    (h : first.magnitude source target = second.magnitude source target) :
    first.run source target first.stepLimit = second.run source target second.stepLimit := by
  have hvalues := value_mul_pow_of_magnitude_eq hs (by omega) hscaled h
  have hpos' : 0 < second.value :=
    Nat.pos_of_mul_pos_right (hvalues ▸ Nat.mul_pos hpos (Nat.pow_pos hs) : 0 < second.value * source ^ first.left)
  wlog hleft : second.left ≤ first.left generalizing first second with hsymm
  · exact (hsymm hpos' hscaled.symm h.symm hvalues.symm hpos (by omega)).symm
  obtain ⟨count, hcount⟩ := Nat.exists_eq_add_of_le hleft
  have hvalue : first.value = source ^ count * second.value := by
    rw [hcount, Nat.add_comm, pow_add, mul_comm second.value, mul_right_comm] at hvalues
    exact Nat.eq_of_mul_eq_mul_right (Nat.pow_pos hs) hvalues
  have hfirst : first = ⟨source ^ count * second.value, second.left + count, second.scaled⟩ := by
    rw [← hvalue, ← hcount, ← hscaled]
  have hcaught : first.run source target (count + second.stepLimit) = second.run source target second.stepLimit := by
    rw [run_add, hfirst, run_pow_mul hs count hpos']
  have hfinished := isFinished_run hs ht second
  rw [← hcaught] at hfinished ⊢
  exact run_eq_of_isFinished (isFinished_run hs ht first) hfinished

private theorem magnitude_le_intCast_iff (hs : 0 < source) (ht : 0 < target) (division : Division) (z : ℤ) :
    division.magnitude source target ≤ z ↔
      (division.value : ℤ) ≤ z * (source ^ division.left * target ^ division.scaled : ℕ) := by
  have hden : (0 : ℚ) < (source ^ division.left * target ^ division.scaled : ℕ) := by
    exact_mod_cast Nat.mul_pos (Nat.pow_pos hs) (Nat.pow_pos ht)
  rw [magnitude, ← Nat.cast_pow, ← Nat.cast_pow, ← Nat.cast_mul, div_le_iff₀ hden]
  exact_mod_cast Iff.rfl

/-- A step does not pass a whole number: what the quotient is rounded up by is less than what is missing. -/
private theorem magnitude_step_le_intCast_iff (hs : 0 < source) (ht : 0 < target) {division : Division}
    (h : division.isFinished = false) (z : ℤ) :
    (division.step source target).magnitude source target ≤ z ↔ division.magnitude source target ≤ z := by
  have hleft := (not_isFinished_iff.1 h).1
  rcases step_cases hs target division with ⟨hdvd, hnext⟩ | ⟨-, -, hnext⟩ | ⟨hdvd, -, hnext⟩
  · rw [hnext, magnitude_exact hs hleft hdvd]
  · rw [hnext, magnitude_scaled ht division]
  -- Both sides are compared over the greater denominator, where the bound is a multiple of `source`.
  · rw [hnext, magnitude_le_intCast_iff hs ht, magnitude_le_intCast_iff hs ht]
    obtain ⟨left, hl⟩ := Nat.exists_eq_succ_of_ne_zero hleft.ne'
    simp only [hl, Nat.succ_eq_add_one, Nat.add_sub_cancel]
    have hsplit : z * (source ^ (left + 1) * target ^ division.scaled : ℕ)
        = source * (z * (source ^ left * target ^ division.scaled : ℕ)) := by
      push_cast
      ring
    rw [hsplit]
    generalize z * (source ^ left * target ^ division.scaled : ℕ) = bound
    have hs' : (0 : ℤ) < source := by exact_mod_cast hs
    have hmod : 0 < division.value % source := Nat.pos_of_ne_zero fun h => hdvd (Nat.dvd_of_mod_eq_zero h)
    have hdiv : (source : ℤ) * (division.value / source : ℕ) + (division.value % source : ℕ) = division.value := by
      exact_mod_cast Nat.div_add_mod division.value source
    have hlt : ((division.value % source : ℕ) : ℤ) < source := by exact_mod_cast Nat.mod_lt division.value hs
    have hpos : (0 : ℤ) < (division.value % source : ℕ) := by exact_mod_cast hmod
    constructor
    · intro hle
      have := mul_le_mul_of_nonneg_left hle hs'.le
      push_cast at this
      rw [mul_add, mul_one] at this
      push_cast at hdiv hlt
      linarith
    · intro hle
      by_contra hgt
      have : bound ≤ (division.value / source : ℕ) := by push_cast at hgt ⊢; omega
      have := mul_le_mul_of_nonneg_left this hs'.le
      linarith

/-- The next whole number stays the same. -/
theorem ceil_magnitude_run (hs : 0 < source) (ht : 0 < target) (steps : Nat) (division : Division) :
    ⌈(division.run source target steps).magnitude source target⌉ = ⌈division.magnitude source target⌉ := by
  refine run_invariant (P := fun d => ⌈d.magnitude source target⌉ = ⌈division.magnitude source target⌉)
    ?_ steps rfl
  intro d hfinished h
  rw [← h]
  exact eq_of_forall_ge_iff fun z => by
    rw [Int.ceil_le, Int.ceil_le, magnitude_step_le_intCast_iff hs ht hfinished]

/-- The most by which rounding a number of 64 bits makes it larger, as a part of the number. -/
def roundingError (source : Nat) : ℚ :=
  (source - 1) / 2 ^ 63

/-- A bound on the growth in `left` divisions of a number of at least `2 ^ 63 * source ^ level`.  The first
`level` of them work on longer numbers and round less. -/
def growth (source left level : Nat) : ℚ :=
  (∏ i ∈ Finset.range level, (1 + roundingError source / source ^ (i + 1)))
    * (1 + roundingError source) ^ (left - level)

theorem roundingError_nonneg (hs : 0 < source) : 0 ≤ roundingError source := by
  have : (1 : ℚ) ≤ source := by exact_mod_cast hs
  rw [roundingError]
  exact div_nonneg (by linarith) (by positivity)

private theorem one_le_growth (hs : 0 < source) (left level : Nat) : 1 ≤ growth source left level := by
  have he := roundingError_nonneg hs
  have hprod : 1 ≤ ∏ i ∈ Finset.range level, (1 + roundingError source / source ^ (i + 1)) := by
    refine Finset.prod_induction _ (1 ≤ ·) (fun _ _ => one_le_mul_of_one_le_of_one_le) le_rfl fun i _ => ?_
    have : 0 ≤ roundingError source / source ^ (i + 1) := by positivity
    linarith
  exact one_le_mul_of_one_le_of_one_le hprod (one_le_pow₀ (by linarith))

private theorem growth_step {left : Nat} (hleft : 0 < left) (level : Nat) :
    growth source (left - 1) (level - 1) * (1 + roundingError source / source ^ level)
      = growth source left level := by
  obtain ⟨left, rfl⟩ := Nat.exists_eq_succ_of_ne_zero hleft.ne'
  cases level with
  | zero => simp [growth, pow_succ]
  | succ level =>
    rw [growth, growth, Finset.prod_range_succ, show left.succ - 1 - (level + 1 - 1) = left.succ - (level + 1)
      by omega, Nat.add_sub_cancel]
    ring

/-- A division rounds by at most the error of its level, whether it is exact or not. -/
private theorem magnitude_divided_le (hs : 0 < source) (ht : 0 < target) {division : Division} {level : Nat}
    (hlong : 2 ^ 63 * source ^ level ≤ division.value) (hleft : 0 < division.left) (hdvd : ¬source ∣ division.value) :
    magnitude source target { division with value := division.value / source + 1, left := division.left - 1 }
      ≤ division.magnitude source target * (1 + roundingError source / source ^ level) := by
  refine (magnitude_rounded hs ht hleft hdvd).2.trans ?_
  have hs' : (1 : ℚ) ≤ source := by exact_mod_cast hs
  have hlong' : (2 ^ 63 * source ^ level : ℚ) ≤ division.value := by exact_mod_cast hlong
  refine mul_le_mul_of_nonneg_left ?_ division.magnitude_nonneg
  rw [roundingError, div_div]
  gcongr

/-- The number stays below a bound while it grows in the divisions that are left. -/
def StaysBelow (source target : Nat) (bound : ℚ) (division : Division) : Prop :=
  ∃ level, (level = 0 ∨ 2 ^ 63 * source ^ level ≤ division.value) ∧
    division.magnitude source target * growth source division.left level ≤ bound

private theorem level_pred (hs : 0 < source) {value level : Nat}
    (h : level = 0 ∨ 2 ^ 63 * source ^ level ≤ value) :
    level - 1 = 0 ∨ 2 ^ 63 * source ^ (level - 1) ≤ value / source := by
  cases level with
  | zero => exact .inl rfl
  | succ level =>
    right
    rw [Nat.add_sub_cancel, Nat.le_div_iff_mul_le hs, mul_assoc, ← pow_succ]
    exact h.resolve_left (Nat.succ_ne_zero level)

private theorem StaysBelow.step (hs : 0 < source) (ht : 0 < target) {bound : ℚ} {division : Division}
    (hfinished : division.isFinished = false) (h : division.StaysBelow source target bound) :
    (division.step source target).StaysBelow source target bound := by
  obtain ⟨level, hlevel, hbound⟩ := h
  have hleft := (not_isFinished_iff.1 hfinished).1
  have hgrowth := one_le_growth hs (division.left - 1) (level - 1)
  rcases step_cases hs target division with ⟨hdvd, hnext⟩ | ⟨-, hshort, hnext⟩ | ⟨hdvd, hprecise, hnext⟩
  · refine ⟨level - 1, ?_, ?_⟩ <;> rw [hnext]
    · exact level_pred hs hlevel
    · refine le_trans ?_ hbound
      rw [magnitude_exact hs hleft hdvd, ← growth_step hleft level]
      refine mul_le_mul_of_nonneg_left ?_ division.magnitude_nonneg
      refine le_mul_of_one_le_right (by linarith) ?_
      have := roundingError_nonneg hs
      have : 0 ≤ roundingError source / source ^ level := by positivity
      linarith
  -- A number that is scaled up is short, so there is no level left.
  · refine ⟨0, .inl rfl, ?_⟩
    have hzero : level = 0 := by
      rcases hlevel with hlevel | hlevel
      · exact hlevel
      · have := Nat.le_mul_of_pos_right (2 ^ 63) (Nat.pow_pos (n := level) hs)
        omega
    rw [hnext, magnitude_scaled ht]
    rwa [hzero] at hbound
  · have hlong : 2 ^ 63 * source ^ level ≤ division.value := by
      rcases hlevel with rfl | hlevel
      · simpa using hprecise
      · exact hlevel
    refine ⟨level - 1, ?_, ?_⟩ <;> rw [hnext]
    · exact (level_pred hs hlevel).imp_right fun h => h.trans (Nat.le_succ _)
    · refine le_trans ?_ hbound
      rw [← growth_step hleft level, mul_comm (growth source _ _), ← mul_assoc]
      exact mul_le_mul_of_nonneg_right (magnitude_divided_le hs ht hlong hleft hdvd) (by linarith)

/-- All steps together let the number grow no more than the divisions that are to come. -/
theorem magnitude_run_le_growth (hs : 0 < source) (ht : 0 < target) (steps : Nat) {division : Division}
    {level : Nat} (hlong : level = 0 ∨ 2 ^ 63 * source ^ level ≤ division.value) :
    (division.run source target steps).magnitude source target
      ≤ division.magnitude source target * growth source division.left level := by
  obtain ⟨last, -, hlast⟩ := run_invariant (fun _ hfinished h => StaysBelow.step hs ht hfinished h) steps
    (⟨level, hlong, le_rfl⟩ : division.StaysBelow source target _)
  exact le_trans (le_mul_of_one_le_right (magnitude_nonneg _) (one_le_growth hs _ _)) hlast

private theorem prod_growth_le (hs : 3 ≤ source) (he : roundingError source ≤ 1) (level : Nat) :
    ∏ i ∈ Finset.range level, (1 + roundingError source / source ^ (i + 1))
      ≤ 1 + roundingError source - roundingError source / source ^ level := by
  have hs' : (3 : ℚ) ≤ source := by exact_mod_cast hs
  have he0 := roundingError_nonneg (show 0 < source by omega)
  induction level with
  | zero => simp
  | succ level ih =>
    rw [Finset.prod_range_succ]
    generalize roundingError source = e at *
    have hpow : (0 : ℚ) < (source : ℚ) ^ (level + 1) := by positivity
    have hx : e / (source : ℚ) ^ level = source * (e / source ^ (level + 1)) := by
      rw [pow_succ]
      field_simp
    have hx0 : 0 ≤ e / (source : ℚ) ^ (level + 1) := by positivity
    generalize e / (source : ℚ) ^ (level + 1) = x at *
    rw [hx] at ih
    calc _ ≤ (1 + e - source * x) * (1 + x) := mul_le_mul_of_nonneg_right ih (by linarith)
      _ = 1 + e - source * x + (1 + e) * x - source * x * x := by ring
      _ ≤ 1 + e - 3 * x + (1 + 1) * x - 0 := by gcongr; positivity
      _ = 1 + e - x := by ring

/-- The growth in divisions of which only those of short numbers count in full. -/
theorem growth_le (hs : 3 ≤ source) (he : roundingError source ≤ 1) {left : Nat} (hleft : 0 < left)
    (level : Nat) : growth source left level ≤ (1 + roundingError source) ^ min left (left - level + 1) := by
  have he0 := roundingError_nonneg (show 0 < source by omega)
  -- The divisions of longer numbers round by less than one of a short number, all together.
  cases level with
  | zero => simp [growth]
  | succ level =>
    have hprod := prod_growth_le hs he (level + 1)
    have hrest : 0 ≤ roundingError source / source ^ (level + 1) := by positivity
    rw [show min left (left - (level + 1) + 1) = left - (level + 1) + 1 by omega, pow_succ', growth]
    exact mul_le_mul_of_nonneg_right (by linarith) (by positivity)

end Division

end ExprLang
