import ExprLang.Proofs.Decimal.Evaluation
import ExprLang.Proofs.Decimal.Integers
import ExprLang.Proofs.Decimal.Rounding

/-!
# Values of their types

The value that a number has in a type is one of that type: an integer is in range, and a float is a zero or finite and
normal (`Number.isOf_of_convert`).  All it takes is a canonical significand.
-/

namespace ExprLang

/-- Whether bits are those of a zero, or of a finite float with a leading digit that is not written. -/
def FloatFormat.IsZeroOrNormal (format : FloatFormat) (bits : Nat) : Prop :=
  (format.biasedOf bits = 0 ∧ format.mantissaOf bits = 0) ∨
    (0 < format.biasedOf bits ∧ (format.biasedOf bits : Int) ≤ format.maxBiased)

/-- Whether a value is one of a type of numbers. -/
def Value.IsOf : Value → ArithmeticType → Prop
  | signed z, .integer kind => kind.isUnsigned = false ∧ kind.Contains z
  | unsigned n, .integer kind => kind.isUnsigned = true ∧ kind.Contains n
  | single bits, .float .f32 => FloatType.f32.format.IsZeroOrNormal bits.toNat
  | double bits, .float .f64 => FloatType.f64.format.IsZeroOrNormal bits.toNat
  | _, _ => False

/-! ### Integers -/

private theorem IntegerType.isOf_valueOf {kind : IntegerType} {z : ℤ} (h : kind.Contains z) :
    (kind.valueOf z).IsOf (.integer kind) := by
  rw [valueOf]
  cases hsign : kind.isUnsigned with
  | false => exact ⟨hsign, h⟩
  | true =>
    have hnonneg := h.1
    rw [minimum_of_isUnsigned hsign] at hnonneg
    rw [← Int.toNat_of_nonneg hnonneg] at h
    exact ⟨hsign, h⟩

/-! ### Floats -/

namespace FloatFormat

variable {format : FloatFormat} {bits : Nat}

private theorem isZeroOrNormal_zero (format : FloatFormat) (negative : Bool) :
    format.IsZeroOrNormal (format.assemble negative 0 0) := by
  have hpos : ∀ width, 0 < 2 ^ width := fun width => Nat.pow_pos (by decide)
  exact .inl ⟨biasedOf_assemble (hpos _) (hpos _), mantissaOf_assemble (hpos _)⟩

/-- A float without a leading digit is less than every normal one. -/
private theorem decodeMagnitude_lt_smallestNormal (h : format.biasedOf bits = 0) :
    format.decodeMagnitude bits < format.smallestNormal := by
  have hmantissa : (format.mantissaOf bits : ℚ) < 2 ^ format.mantissaWidth := by
    exact_mod_cast Nat.mod_lt bits (Nat.pow_pos (by decide))
  rw [decodeMagnitude, if_pos h, smallestNormal]
  calc (format.mantissaOf bits : ℚ) * 2 ^ (1 - format.bias - format.mantissaWidth)
      < 2 ^ format.mantissaWidth * 2 ^ (1 - format.bias - format.mantissaWidth) := by gcongr
    _ = 2 ^ (1 - format.bias) := by
      rw [← zpow_natCast, ← zpow_add₀ two_ne_zero]
      congr 1
      ring

private theorem isZeroOrNormal_of_decode? {negative : Bool} {x : ℚ} (hx : format.smallestNormal ≤ x)
    (hsign : format.signOf bits = negative) (h : format.decode? bits = some (if negative then -x else x)) :
    format.IsZeroOrNormal bits := by
  rw [decode?, hsign] at h
  split at h
  · cases h
  · rename_i hfinite
    have hmagnitude : format.decodeMagnitude bits = x := by
      cases negative with
      | false => exact Option.some.inj h
      | true => exact neg_inj.1 (Option.some.inj h)
    refine .inr ⟨Nat.pos_of_ne_zero fun hzero => ?_, not_lt.1 hfinite⟩
    exact absurd hx (not_le.2 (hmagnitude ▸ decodeMagnitude_lt_smallestNormal hzero))

end FloatFormat

namespace Number

variable {number : Number}

/-- What encodes a number are the bits of a zero or of a normal float. -/
private theorem isZeroOrNormal_of_encode (hcanonical : number.significand.IsCanonical) {target : FloatType} {bits : Nat}
    (h : number.encode target = .ok bits) : target.format.IsZeroOrNormal bits ∧
      bits < 2 ^ (target.format.mantissaWidth + target.format.exponentWidth + 1) := by
  have hzero : target.format.IsZeroOrNormal (target.format.assemble number.negative 0 0) ∧
      target.format.assemble number.negative 0 0
        < 2 ^ (target.format.mantissaWidth + target.format.exponentWidth + 1) :=
    ⟨target.format.isZeroOrNormal_zero _,
      FloatFormat.assemble_lt (Nat.pow_pos (by decide)) (Nat.pow_pos (by decide))⟩
  cases hflag : number.flag with
  | zero =>
    rw [encode, hflag] at h
    rwa [← Except.ok.inj h]
  | infinite =>
    rw [encode, hflag] at h
    cases h
  | tooPrecise =>
    rw [encode, hflag] at h
    cases h
  | normal =>
    by_cases hne : number.significand.toNat = 0
    · rw [encode, hflag] at h
      simp only [(Significand.isZero_iff hcanonical).2 hne, if_true] at h
      rwa [← Except.ok.inj h]
    · rw [encode_of_normal hcanonical hflag hne] at h
      rcases encodeNonzero_cases hcanonical hne target with
        ⟨-, herror⟩ | ⟨-, herror⟩ | ⟨hlow, -, _, hok, hlt, hsign, hvalue⟩
      · rw [herror] at h
        cases h
      · rw [herror] at h
        cases h
      · rw [hok] at h
        rw [← Except.ok.inj h]
        exact ⟨FloatFormat.isZeroOrNormal_of_decode? hlow hsign hvalue, hlt⟩

/-! ### Conversions -/

/-- The value of a number in a type is one of that type. -/
theorem isOf_of_convert (hcanonical : number.significand.IsCanonical) {target : ArithmeticType} {value : Value}
    (h : number.convert target = .ok value) : value.IsOf target := by
  cases target with
  | integer kind =>
    have h : number.toIntegerType kind = .ok value := h
    have hflag : number.flag = .normal := by
      cases hflag : number.flag with
      | normal => rfl
      | _ =>
        rw [toIntegerType, hflag] at h
        cases h
    obtain ⟨-, hin, rfl⟩ := (toIntegerType_eq_ok_iff hcanonical hflag).1 h
    exact IntegerType.isOf_valueOf hin
  | float kind =>
    have h : number.toFloat kind = .ok value := h
    cases hencode : number.encode kind with
    | error =>
      rw [toFloat, hencode] at h
      cases h
    | ok bits =>
      obtain ⟨hbits, hlt⟩ := isZeroOrNormal_of_encode hcanonical hencode
      rw [toFloat, hencode] at h
      cases kind with
      | f32 =>
        rw [← Except.ok.inj h]
        show FloatFormat.IsZeroOrNormal _ (UInt32.ofNat bits).toNat
        rwa [UInt32.toNat_ofNat_of_lt' hlt]
      | f64 =>
        rw [← Except.ok.inj h]
        show FloatFormat.IsZeroOrNormal _ (UInt64.ofNat bits).toNat
        rwa [UInt64.toNat_ofNat_of_lt' hlt]

end Number

end ExprLang
