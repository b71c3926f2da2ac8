import ExprLang.Proofs.Decimal.Rebasing
import ExprLang.Proofs.Decimal.Words

/-!
# The loops of a change of the base

A change of the base can be carried out on the bytes of a significand, in three loops: a positive power is multiplied
out, a negative one is divided out, and the factors of the new base are taken out.  Each of them comes to an end, and
what they end in is the changed number (`Significand.rebase_ends`).  The rounds of the second loop are counted by what
they leave to divide out and, in between, by the bits that a short number lacks (`Division.cost`).
-/

namespace ExprLang

/-- The rounds of a loop that goes on as long as its body has a next state, and how many they are. -/
inductive Rounds {σ : Type} (body : σ → Except Fault (Option σ)) : Nat → σ → σ → Prop
  | last {state} (h : body state = .ok none) : Rounds body 0 state state
  | round {count state next final} (h : body state = .ok (some next)) (hrest : Rounds body count next final) :
      Rounds body (count + 1) state final

/-- A significand whose base is being changed. -/
structure Rebasing where
  significand : Significand
  /-- The power of the old base that is left. -/
  exponent : Int
  /-- The power of the new base. -/
  power : Int

namespace Rebasing

/-- A round of multiplying out a positive power. -/
def multiplyOut (source : Nat) (state : Rebasing) : Except Fault (Option Rebasing) :=
  if 0 < state.exponent then
    .ok (some { state with
      significand := state.significand.multiplySmall source, exponent := state.exponent - 1 })
  else
    .ok none

/-- A round of dividing out a negative power. -/
def divideOut (source target : Nat) (state : Rebasing) : Except Fault (Option Rebasing) :=
  if state.exponent < 0 ∧ state.significand.isZero = false then do
    let remainder ← state.significand.modulusSmall source
    if remainder = 0 then
      let (quotient, _) ← state.significand.divideSmall source
      return some { state with significand := quotient, exponent := state.exponent + 1 }
    else if state.significand.bitLength < precisionBits then
      return some { state with significand := state.significand.multiplySmall target, power := state.power - 1 }
    else
      let (quotient, _) ← (state.significand.addSmall (source - remainder)).divideSmall source
      return some { state with significand := quotient, exponent := state.exponent + 1 }
  else
    .ok none

/-- A round of taking out a factor of the new base. -/
def takeOut (target : Nat) (state : Rebasing) : Except Fault (Option Rebasing) :=
  if state.significand.isZero = false then do
    if (← state.significand.modulusSmall target) = 0 then
      let (quotient, _) ← state.significand.divideSmall target
      return some { state with significand := quotient, power := state.power + 1 }
    else
      return none
  else
    .ok none

end Rebasing

/-! ### Bytes and numbers -/

namespace Significand

private theorem eq_ofNat {s : Significand} {n : Nat} (h : s.IsCanonical) (hvalue : s.toNat = n) : s = ofNat n := by
  rw [← hvalue, ofNat_toNat h]

private theorem multiplySmall_ofNat (n factor : Nat) : (ofNat n).multiplySmall factor = ofNat (n * factor) :=
  eq_ofNat (getLast?_trimBytes _) (by simp [toNat, multiplySmall, ofNat])

private theorem addSmall_ofNat (n addend : Nat) : (ofNat n).addSmall addend = ofNat (n + addend) :=
  eq_ofNat (getLast?_absorb (isCanonical_ofNat n) _) (by simp [toNat, addSmall, ofNat])

private theorem divideSmall_ofNat (n : Nat) {divisor : Nat} (hpos : 0 < divisor) :
    (ofNat n).divideSmall divisor = .ok (ofNat (n / divisor), n % divisor) := by
  obtain ⟨hquotient, hremainder⟩ := divideBytes_spec hpos (ofNat n).bytes
  rw [divideSmall, if_neg hpos.ne']
  refine congrArg Except.ok (Prod.ext (eq_ofNat (getLast?_trimBytes _) ?_) ?_)
  · show bytesValue (trimBytes _) = _
    rw [bytesValue_trimBytes, hquotient]
    exact congrArg (· / divisor) (toNat_ofNat n)
  · exact hremainder.trans (congrArg (· % divisor) (toNat_ofNat n))

private theorem modulusSmall_ofNat (n : Nat) {divisor : Nat} (hpos : 0 < divisor) :
    (ofNat n).modulusSmall divisor = .ok (n % divisor) := by
  rw [modulusSmall, if_neg hpos.ne', foldr_mod_eq]
  exact congrArg (fun n => Except.ok (n % divisor)) (toNat_ofNat n)

private theorem isZero_ofNat_eq_false_iff (n : Nat) : (ofNat n).isZero = false ↔ n ≠ 0 := by
  rw [← Bool.not_eq_true, not_iff_not, isZero_iff (isCanonical_ofNat n), toNat_ofNat]

private theorem bitLength_ofNat_lt_iff (division : Division) :
    (ofNat division.value).bitLength < precisionBits ↔ division.isPrecise = false := by
  rw [bitLength_eq_size (isCanonical_ofNat _), toNat_ofNat, Division.isPrecise, decide_eq_false_iff_not, not_le,
    ← Nat.size_le, precisionBits]
  omega

end Significand

/-! ### The loops -/

variable {source target : Nat}

namespace Division

/-- What a division stands for on bytes. -/
def state (division : Division) : Rebasing where
  significand := .ofNat division.value
  exponent := -division.left
  power := -division.scaled

private theorem cost_le (division : Division) : division.cost ≤ 64 * division.left := by
  rw [cost]
  split
  · exact Nat.zero_le _
  · rename_i h
    have := (not_isFinished_iff.1 (by simpa using h)).1
    omega

end Division

namespace Rebasing

private theorem rounds_multiplyOut (source value : Nat) (exponent power : Int) :
    Rounds (multiplyOut source) exponent.toNat ⟨.ofNat value, exponent, power⟩
      ⟨.ofNat (value * source ^ exponent.toNat), min exponent 0, power⟩ := by
  induction hcount : exponent.toNat generalizing value exponent with
  | zero =>
    rw [pow_zero, mul_one, min_eq_left (by omega)]
    exact .last (if_neg (by dsimp only; omega))
  | succ count ih =>
    have hrest := ih (value * source) (exponent - 1) (by omega)
    rw [mul_assoc, ← pow_succ', show min (exponent - 1) 0 = min exponent 0 by omega] at hrest
    refine .round ?_ hrest
    rw [multiplyOut, if_pos (by dsimp only; omega), Significand.multiplySmall_ofNat]

/-- A round on bytes takes the step that the division takes on numbers. -/
private theorem divideOut_state (hs : 0 < source) (target : Nat) (division : Division) :
    divideOut source target division.state
      = .ok (if division.isFinished then none else some (division.step source target).state) := by
  have hgoesOn : division.state.exponent < 0 ∧ division.state.significand.isZero = false ↔
      division.isFinished = false := by
    rw [Division.not_isFinished_iff, Division.state, Significand.isZero_ofNat_eq_false_iff]
    dsimp only
    omega
  rw [divideOut]
  cases hfinished : division.isFinished with
  | true => rw [if_neg (by rw [hgoesOn, hfinished]; exact Bool.noConfusion), if_pos rfl]
  | false =>
    have hleft := (Division.not_isFinished_iff.1 hfinished).1
    have hnext : (-(division.left : Int)) + 1 = -((division.left - 1 : Nat) : Int) := by omega
    rw [if_pos (hgoesOn.2 hfinished), if_neg Bool.false_ne_true, Division.state]
    dsimp only
    rw [Significand.modulusSmall_ofNat _ hs, Division.step]
    show (if division.value % source = 0 then _ else _) = _
    split
    · rw [Significand.divideSmall_ofNat _ hs, hnext]
      rfl
    · by_cases hshort : division.isPrecise = false
      · rw [if_pos ((Significand.bitLength_ofNat_lt_iff division).2 hshort), if_pos (by rw [hshort]; rfl),
          Significand.multiplySmall_ofNat, Division.state]
        have hpower : -(division.scaled : Int) - 1 = -((division.scaled + 1 : Nat) : Int) := by omega
        rw [hpower]
        rfl
      · rw [if_neg (mt (Significand.bitLength_ofNat_lt_iff division).1 hshort),
          if_neg (by simpa using hshort), Significand.addSmall_ofNat, Significand.divideSmall_ofNat _ hs, hnext]
        rfl

/-- Dividing out ends after no more rounds than the division costs, in what the division ends in. -/
private theorem exists_rounds_divideOut (hs : 0 < source) (ht : 2 ≤ target) (division : Division) :
    ∃ count ≤ division.cost,
      Rounds (divideOut source target) count division.state (division.run source target division.stepLimit).state := by
  suffices hends : ∃ count ≤ division.cost,
      Rounds (divideOut source target) count division.state (division.run source target count).state ∧
        (division.run source target count).isFinished = true by
    obtain ⟨count, hle, hrounds, hfinished⟩ := hends
    refine ⟨count, hle, ?_⟩
    rwa [← Division.run_eq_of_isFinished hfinished (Division.isFinished_run hs ht division)]
  induction hcost : division.cost using Nat.strongRecOn generalizing division with
  | ind cost ih =>
    have hbody := divideOut_state hs target division
    by_cases hfinished : division.isFinished = true
    · rw [if_pos hfinished] at hbody
      exact ⟨0, Nat.zero_le _, .last hbody, hfinished⟩
    · rw [if_neg hfinished] at hbody
      have hless := Division.cost_step_lt hs ht (by simpa using hfinished)
      obtain ⟨count, hle, hrounds, hend⟩ := ih _ (hcost ▸ hless) (division.step source target) rfl
      rw [hcost] at hless
      refine ⟨count + 1, by omega, ?_⟩
      rw [Division.run, if_neg hfinished]
      exact ⟨.round hbody hrounds, hend⟩

private theorem takeOut_ofNat (ht : 0 < target) (value : Nat) (exponent power : Int) :
    takeOut target ⟨.ofNat value, exponent, power⟩
      = .ok (if value ≠ 0 ∧ value % target = 0 then some ⟨.ofNat (value / target), exponent, power + 1⟩ else none) := by
  rw [takeOut]
  dsimp only
  by_cases hzero : value = 0
  · rw [if_neg (mt (Significand.isZero_ofNat_eq_false_iff value).1 (not_not.2 hzero)), if_neg fun h => h.1 hzero]
  · rw [if_pos ((Significand.isZero_ofNat_eq_false_iff value).2 hzero), Significand.modulusSmall_ofNat _ ht]
    show (if value % target = 0 then _ else _) = _
    by_cases hdvd : value % target = 0
    · rw [if_pos hdvd, if_pos ⟨hzero, hdvd⟩, Significand.divideSmall_ofNat _ ht]
      rfl
    · rw [if_neg hdvd, if_neg fun h => hdvd h.2]
      rfl

private theorem rounds_takeOut (ht : 2 ≤ target) {kept : Nat} (hkept : ¬target ∣ kept) (count : Nat)
    (exponent power : Int) :
    Rounds (takeOut target) count ⟨.ofNat (kept * target ^ count), exponent, power⟩
      ⟨.ofNat kept, exponent, power + count⟩ := by
  have hpos : 0 < kept := Nat.pos_of_ne_zero fun h => hkept (h ▸ Nat.dvd_zero target)
  induction count generalizing power with
  | zero =>
    rw [pow_zero, mul_one, Nat.cast_zero, add_zero]
    refine .last ?_
    rw [takeOut_ofNat (by omega), if_neg fun h => hkept (Nat.dvd_of_mod_eq_zero h.2)]
  | succ count ih =>
    have hvalue : kept * target ^ (count + 1) = kept * target ^ count * target := by rw [pow_succ, mul_assoc]
    have hne : kept * target ^ count * target ≠ 0 :=
      Nat.mul_ne_zero (Nat.mul_pos hpos (Nat.pow_pos (by omega))).ne' (by omega)
    have hrest := ih (power + 1)
    rw [show power + 1 + (count : Int) = power + (count + 1 : Nat) by omega] at hrest
    refine .round ?_ hrest
    rw [hvalue, takeOut_ofNat (by omega), if_pos ⟨hne, Nat.mul_mod_left _ _⟩, Nat.mul_div_cancel _ (by omega)]

/-- The factors that are moved or divided out of a number can be taken out in as many rounds. -/
private theorem rounds_takeOut_trimFactors (ht : 2 ≤ target) (value : Nat) (exponent power : Int) :
    Rounds (takeOut target) (trimFactors target value).2 ⟨.ofNat value, exponent, power⟩
        ⟨(trimFactors target value).1, exponent, power + (trimFactors target value).2⟩ ∧
      (trimFactors target value).2 ≤ (Significand.ofNat value).bitLength := by
  rcases Nat.eq_zero_or_pos value with rfl | hpos
  · have hzero : Significand.zero = .ofNat 0 := Significand.eq_ofNat (by decide) rfl
    rw [trimFactors_zero, hzero, Nat.cast_zero, add_zero]
    refine ⟨.last ?_, Nat.zero_le _⟩
    rw [takeOut_ofNat (by omega), if_neg fun h => h.1 rfl]
  · obtain ⟨kept, removed, htrim, hcanonical, hvalue, hkept⟩ := exists_trimFactors ht hpos
    have hrounds := rounds_takeOut ht hkept removed exponent power
    rw [hvalue, Significand.ofNat_toNat hcanonical] at hrounds
    rw [htrim]
    refine ⟨hrounds, ?_⟩
    -- Each factor that is removed halves the number at least.
    have hfactors : 2 ^ removed ≤ value := by
      calc 2 ^ removed ≤ target ^ removed := Nat.pow_le_pow_left ht removed
        _ ≤ kept.toNat * target ^ removed := Nat.le_mul_of_pos_left _ (Nat.pos_of_ne_zero fun h => by simp [h] at hkept)
        _ = value := hvalue
    rw [Significand.bitLength_eq_size (Significand.isCanonical_ofNat value), Significand.toNat_ofNat]
    exact (Nat.lt_size.2 hfactors).le

end Rebasing

namespace Significand

/-- The loops of a change of the base come to an end, and the result is what the last of them ends in.  There are as
many rounds of multiplying out as the power says, at most 64 of dividing out for each factor of a negative power, and no
more of taking out than the number has binary digits. -/
theorem rebase_ends (hs : 1 ≤ source) (ht : 2 ≤ target) {s : Significand} (h : s.IsCanonical) (exponent : Int) :
    ∃ (product quotient result : Rebasing) (divisions removals : Nat),
      Rounds (Rebasing.multiplyOut source) exponent.toNat ⟨s, exponent, 0⟩ product ∧
      Rounds (Rebasing.divideOut source target) divisions product quotient ∧ divisions ≤ 64 * (-exponent).toNat ∧
      Rounds (Rebasing.takeOut target) removals quotient result ∧ removals ≤ quotient.significand.bitLength ∧
      s.rebase exponent source target = .ok (result.significand, result.power) := by
  have hproduct : (s.division exponent source).state
      = ⟨.ofNat (s.toNat * source ^ exponent.toNat), min exponent 0, 0⟩ := by
    have hleft : -((-exponent).toNat : Int) = min exponent 0 := by omega
    rw [Division.state, division, multiplyPower_eq, hleft, Nat.cast_zero, neg_zero]
  have hmultiplied := Rebasing.rounds_multiplyOut source s.toNat exponent 0
  rw [ofNat_toNat h, ← hproduct] at hmultiplied
  obtain ⟨divisions, hle, hdivided⟩ := Rebasing.exists_rounds_divideOut hs ht (s.division exponent source)
  obtain ⟨htaken, hremovals⟩ := Rebasing.rounds_takeOut_trimFactors ht (s.divided exponent source target).value
    (-(s.divided exponent source target).left) (-(s.divided exponent source target).scaled)
  refine ⟨_, _, _, divisions, _, hmultiplied, hdivided, hle.trans (Division.cost_le _), htaken, hremovals, ?_⟩
  rw [rebase_eq hs (by omega), Int.sub_eq_add_neg, Int.add_comm]

/-- One tenth in base two: the number is scaled up to 64 bits before it is divided once. -/
theorem rebase_ends_tenth :
    1 ≤ 10 ∧ 2 ≤ 2 ∧ (ofNat 1).IsCanonical ∧ ∃ (product quotient result : Rebasing) (divisions removals : Nat),
      Rounds (Rebasing.multiplyOut 10) 0 ⟨ofNat 1, -1, 0⟩ product ∧
      Rounds (Rebasing.divideOut 10 2) divisions product quotient ∧ divisions ≤ 64 ∧
      Rounds (Rebasing.takeOut 2) removals quotient result ∧ removals ≤ quotient.significand.bitLength ∧
      result.significand = ofNat 922337203685477581 ∧ result.power = -63 := by
  obtain ⟨product, quotient, result, divisions, removals, hproduct, hquotient, hdivisions, hresult, hremovals,
      hrebase⟩ := rebase_ends (show 1 ≤ 10 by decide) (show 2 ≤ 2 by decide) (isCanonical_ofNat 1) (-1)
  have hdivided : (ofNat 1).divided (-1) 10 2 = ⟨922337203685477581, 0, 63⟩ := by cbv
  have htrim : trimFactors 2 922337203685477581 = (ofNat 922337203685477581, 0) := by cbv
  rw [rebase_eq (by decide) (by decide), hdivided, htrim] at hrebase
  obtain ⟨hsignificand, hpower⟩ := Prod.mk.inj (Except.ok.inj hrebase)
  exact ⟨by decide, by decide, isCanonical_ofNat 1, product, quotient, result, divisions, removals, hproduct, hquotient,
    hdivisions, hresult, hremovals, hsignificand.symm, hpower.symm⟩

end Significand

end ExprLang
