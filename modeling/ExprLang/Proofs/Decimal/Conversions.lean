import ExprLang.Proofs.Decimal.Order

/-!
# Numbers as integers, in words

A whole number is brought into a word of 64 bits by copying its bytes and shifting them, and a negative value is the
negated word.  Here this is done with checked words, indices and shifts (`Number.toIntegerTypeInWords`).  None of the
checks fails for a number that can be obtained, and the result is exact: it is the value of the number, or the first
reason why the type has no such value (`Number.toIntegerType_is_exact`).
-/

namespace ExprLang

/-! ### Words -/

/-- The word whose lowest bytes are given; the others are zero. -/
def wordOfBytes (bytes : List UInt8) : Except Fault UInt64 :=
  if 8 < bytes.length then .error .index
  else .ok (.ofNat (bytesValue (bytes ++ List.replicate (8 - bytes.length) 0)))

/-- A word shifted up by fewer places than it has. -/
def shiftWord (word : UInt64) (places : Int) : Except Fault UInt64 :=
  if 0 ≤ places ∧ places < 64 then .ok (word <<< .ofNat places.toNat) else .error .overflow

/-- The bits of a word as a signed word, negated if need be.  One past the largest signed word is the smallest. -/
def signedOfWord (word : UInt64) (negative : Bool) : Int :=
  (if negative then -word.toInt64 else word.toInt64).toInt

private theorem wordOfBytes_eq {bytes : List UInt8} (h : bytes.length ≤ 8) :
    wordOfBytes bytes = .ok (.ofNat (bytesValue bytes)) := by
  rw [wordOfBytes, if_neg (not_lt.2 h), bytesValue_append, bytesValue_replicate_zero, Nat.mul_zero, Nat.add_zero]

private theorem shiftWord_eq {n : Nat} {places : Int} (hplaces : 0 ≤ places ∧ places < 64)
    (h : n * 2 ^ places.toNat < 2 ^ 64) :
    shiftWord (.ofNat n) places = .ok (.ofNat (n * 2 ^ places.toNat)) := by
  have hn : n < 2 ^ 64 := lt_of_le_of_lt (Nat.le_mul_of_pos_right n (Nat.two_pow_pos _)) h
  have hfew : places.toNat < 64 := by omega
  have hword : places.toNat < UInt64.size := hfew.trans (by decide)
  rw [shiftWord, if_pos hplaces, Except.ok.injEq, ← UInt64.toNat_inj, UInt64.toNat_shiftLeft,
    UInt64.toNat_ofNat_of_lt' hn, UInt64.toNat_ofNat_of_lt' hword, Nat.mod_eq_of_lt hfew, Nat.shiftLeft_eq,
    Nat.mod_eq_of_lt h, UInt64.toNat_ofNat_of_lt' h]

private theorem signedOfWord_eq {magnitude : Nat} {negative : Bool} (h : magnitude ≤ 2 ^ 63)
    (hpositive : negative = false → magnitude < 2 ^ 63) :
    signedOfWord (.ofNat magnitude) negative = if negative then -(magnitude : Int) else magnitude := by
  cases negative with
  | false => exact Int64.toInt_ofNat_of_lt (hpositive rfl)
  | true =>
    show (-Int64.ofNat magnitude).toInt = -(magnitude : Int)
    rw [← Int64.ofInt_eq_ofNat, ← Int64.ofInt_neg]
    exact Int64.toInt_ofInt_of_le (by omega) (by omega)

/-- A canonical significand of 64 binary digits has 8 bytes at most. -/
private theorem Significand.length_bytes_le {s : Significand} (h : s.IsCanonical) (hlength : s.bitLength ≤ 64) :
    s.bytes.length ≤ 8 := by
  by_contra hlong
  have hne : s.bytes ≠ [] := fun hnil => by simp [hnil] at hlong
  have hlow : 256 ^ (s.bytes.length - 1) ≤ s.toNat := le_bytesValue h hne
  have hhigh : s.toNat < 2 ^ 64 := (toNat_lt_two_pow h).trans_le (Nat.pow_le_pow_right (by decide) hlength)
  have hpower : 256 ^ 8 ≤ 256 ^ (s.bytes.length - 1) := Nat.pow_le_pow_right (by decide) (by omega)
  omega

namespace Number

variable {number : Number} {target : IntegerType}

/-! ### Conversions -/

/-- The whole number below `2 ^ 64` that a number stands for, in words. -/
def toIntegerInWords (number : Number) : Except Fault (Option UInt64) :=
  if !number.isInteger then .ok none
  else do
    let length ← number.significand.bitLengthInWords
    if length = 0 then return some 0
    else if 64 < (← inWord 64 (length + number.exponent.toNat)) then return none
    else return some (← shiftWord (← wordOfBytes number.significand.bytes) number.exponent)

/-- The unsigned value of a whole number, in words. -/
def toUnsignedInWords (number : Number) (target : IntegerType) : Except Fault (Except ConversionError Value) :=
  if number.negative && !number.significand.isZero then .ok (.error (.notUnsigned target))
  else do
    if (← number.compareMagnitudeInWords (.ofNat target.maximum)) = .gt then return .error (.outOfBounds target)
    else match ← number.toIntegerInWords with
      | some magnitude => return .ok (.unsigned magnitude.toNat)
      | none => return .error (.outOfBounds target)

/-- The signed value of a whole number, in words. -/
def toSignedInWords (number : Number) (target : IntegerType) : Except Fault (Except ConversionError Value) := do
  let bound ← inWord 64 (target.maximum + 1)
  match ← number.compareMagnitudeInWords (.ofNat bound), number.negative with
  | .gt, _ => return .error (.outOfBounds target)
  | .eq, false => return .error (.outOfBounds target)
  | _, negative =>
    match ← number.toIntegerInWords with
    | some magnitude => return .ok (.signed (signedOfWord magnitude negative))
    | none => return .error (.outOfBounds target)

/-- The integer that a number is, in words. -/
def toIntegerTypeInWords (number : Number) (target : IntegerType) : Except Fault (Except ConversionError Value) :=
  match number.flag with
  | .tooPrecise => .ok (.error .tooPrecise)
  | .infinite => .ok (.error (.outOfBounds target))
  | .zero => .ok (.error (.notInteger target))
  | .normal =>
    if !number.isInteger then .ok (.error (.notInteger target))
    else if target.isUnsigned then number.toUnsignedInWords target
    else number.toSignedInWords target

/-- No word is too small for a whole number, and no byte or bit is moved out of one. -/
private theorem toIntegerInWords_eq (hcanonical : number.significand.IsCanonical) (hfits : number.FitsWords) :
    number.toIntegerInWords = .ok (number.toInteger.map UInt64.ofNat) := by
  rw [toIntegerInWords, toInteger]
  cases hinteger : number.isInteger with
  | false => rfl
  | true =>
    have hexponent := (isInteger_iff.1 hinteger).2
    have hlengthLt := hfits.length_lt
    have hexponentLt := hfits.exponent_lt
    rw [if_neg (by decide), if_neg (by decide), Significand.bitLengthInWords_eq (by omega), ok_bind]
    by_cases hlength : number.significand.bitLength = 0
    · rw [if_pos hlength, if_pos hlength]
      rfl
    · rw [if_neg hlength, if_neg hlength, inWord_eq_ok (by omega), ok_bind]
      by_cases hlong : (64 : Int) < number.significand.bitLength + number.exponent
      · rw [if_pos hlong, if_pos (by omega)]
        rfl
      · have hbytes := Significand.length_bytes_le hcanonical (by omega)
        have hvalue : number.significand.toNat * 2 ^ number.exponent.toNat < 2 ^ 64 := by
          calc number.significand.toNat * 2 ^ number.exponent.toNat
              < 2 ^ number.significand.bitLength * 2 ^ number.exponent.toNat :=
                Nat.mul_lt_mul_of_pos_right (Significand.toNat_lt_two_pow hcanonical) (Nat.two_pow_pos _)
            _ = 2 ^ (number.significand.bitLength + number.exponent.toNat) := (Nat.pow_add _ _ _).symm
            _ ≤ 2 ^ 64 := Nat.pow_le_pow_right (by decide) (by omega)
        rw [if_neg hlong, if_neg (by omega), wordOfBytes_eq hbytes, ok_bind]
        show (shiftWord (.ofNat number.significand.toNat) number.exponent >>= fun word => Except.ok (some word)) = _
        rw [shiftWord_eq ⟨hexponent, by omega⟩ hvalue]
        rfl

private theorem compareMagnitudeInWords_ofNat (h : number.IsObtained) {n : Nat} (hn : n < 2 ^ 64) :
    number.compareMagnitudeInWords (.ofNat n) = .ok (number.compareMagnitude (.ofNat n)) := by
  have hword : (ofNat n).IsObtained := by
    have := IsObtained.ofWord (.ofNat n)
    rwa [UInt64.toNat_ofNat_of_lt' hn] at this
  exact compareMagnitudeInWords_eq h.isCanonical hword.isCanonical h.fitsWords hword.fitsWords

private theorem toUnsignedInWords_eq (h : number.IsObtained) (hinteger : number.isInteger = true) :
    number.toUnsignedInWords target = .ok (number.toUnsigned target) := by
  rw [toUnsignedInWords, toUnsigned]
  split
  · rfl
  · rw [compareMagnitudeInWords_ofNat h target.maximum_lt, ok_bind, toIntegerInWords_eq h.isCanonical h.fitsWords,
      ok_bind, toInteger_eq h.isCanonical hinteger]
    by_cases hgt : number.compareMagnitude (.ofNat target.maximum) = .gt
    · rw [if_pos hgt, if_pos hgt]
      rfl
    · rw [if_neg hgt, if_neg hgt]
      by_cases hword : number.wholeMagnitude < 2 ^ 64
      · rw [if_pos hword]
        show Except.ok (Except.ok (Value.unsigned (UInt64.ofNat number.wholeMagnitude).toNat)) = _
        rw [UInt64.toNat_ofNat_of_lt' hword]
      · rw [if_neg hword]
        rfl

private theorem toSignedInWords_eq (h : number.IsObtained) (hinteger : number.isInteger = true)
    (hsigned : target.isUnsigned = false) : number.toSignedInWords target = .ok (number.toSigned target) := by
  have hexponent := (isInteger_iff.1 hinteger).2
  have hmaximum : target.maximum + 1 ≤ 2 ^ 63 := by
    cases target <;> first | decide | exact absurd hsigned (by decide)
  have hvalue : ∀ {negative : Bool}, number.wholeMagnitude ≤ target.maximum + 1 →
      (negative = false → number.wholeMagnitude < target.maximum + 1) →
      signedOfWord (.ofNat number.wholeMagnitude) negative
        = if negative then -(number.wholeMagnitude : Int) else number.wholeMagnitude := fun hle hlt =>
    signedOfWord_eq (hle.trans hmaximum) fun hpositive => (hlt hpositive).trans_le hmaximum
  rw [toSignedInWords, toSigned, inWord_eq_ok (IntegerType.maximum_succ_lt hsigned), ok_bind,
    compareMagnitudeInWords_ofNat h (IntegerType.maximum_succ_lt hsigned), ok_bind,
    toIntegerInWords_eq h.isCanonical h.fitsWords, compareMagnitude_ofNat h.isCanonical hexponent,
    toInteger_eq h.isCanonical hinteger]
  have hword : number.wholeMagnitude ≤ target.maximum + 1 → number.wholeMagnitude < 2 ^ 64 :=
    fun hle => hle.trans_lt (IntegerType.maximum_succ_lt hsigned)
  rcases Nat.lt_trichotomy number.wholeMagnitude (target.maximum + 1) with hlt | heq | hgt
  · rw [Nat.compare_eq_lt.2 hlt, if_pos (hword hlt.le)]
    show Except.ok (Except.ok (Value.signed (signedOfWord (.ofNat number.wholeMagnitude) number.negative))) = _
    rw [hvalue hlt.le fun _ => hlt]
  · rw [Nat.compare_eq_eq.2 heq, if_pos (hword heq.le)]
    cases number.negative
    · rfl
    · show Except.ok (Except.ok (Value.signed (signedOfWord (.ofNat number.wholeMagnitude) true))) = _
      rw [hvalue heq.le fun hpositive => absurd hpositive (by decide)]
  · rw [Nat.compare_eq_gt.2 hgt]
    rfl

/-- No check fails while a number is turned into an integer. -/
private theorem toIntegerTypeInWords_eq (h : number.IsObtained) (target : IntegerType) :
    number.toIntegerTypeInWords target = .ok (number.toIntegerType target) := by
  rw [toIntegerTypeInWords, toIntegerType]
  cases number.flag with
  | normal =>
    cases hinteger : number.isInteger with
    | false => rfl
    | true =>
      cases hsign : target.isUnsigned with
      | false => exact toSignedInWords_eq h hinteger hsign
      | true => exact toUnsignedInWords_eq h hinteger
  | _ => rfl

/-- A number is a word if it is whole and below `2 ^ 64`. -/
private theorem IsObtained.toInteger_eq_some_iff (h : number.IsObtained) {magnitude : Nat} :
    number.toInteger = some magnitude ↔
      number.flag = .normal ∧ (magnitude : ℚ) = number.magnitude ∧ magnitude < 2 ^ 64 := by
  by_cases hinteger : number.isInteger = true
  · obtain ⟨hflag, hexponent⟩ := isInteger_iff.1 hinteger
    rw [toInteger_eq h.isCanonical hinteger, magnitude_eq_wholeMagnitude hexponent, Nat.cast_inj]
    split
    case isTrue hword =>
      rw [Option.some.injEq]
      exact ⟨fun heq => ⟨hflag, heq.symm, heq ▸ hword⟩, fun heq => heq.2.1.symm⟩
    case isFalse hword =>
      refine iff_of_false (Option.some_ne_none magnitude).symm fun heq => hword ?_
      rw [← heq.2.1]
      exact heq.2.2
  · have hnone : number.toInteger = none := by
      rw [toInteger, if_pos (by simpa using hinteger)]
    rw [hnone]
    refine iff_of_false (Option.some_ne_none magnitude).symm ?_
    rintro ⟨hflag, hmagnitude, -⟩
    refine hinteger (isInteger_iff.2 ⟨hflag, h.exponent_nonneg_iff.2 ?_⟩)
    refine ⟨if number.negative then -magnitude else magnitude, ?_⟩
    rw [value, ← hmagnitude]
    split <;> push_cast <;> rfl

/-- Turning a number into an integer is exact, and no step of it goes wrong.  The first of these that fails is why a
number is refused: it has few enough digits, it is not too large to be worked out, it is whole, not below zero if its
type is unsigned, and in range. -/
theorem toIntegerType_is_exact (h : number.IsObtained) (target : IntegerType) :
    number.toIntegerTypeInWords target = .ok (number.convert (.integer target)) ∧
    number.toIntegerInWords = .ok (number.toInteger.map UInt64.ofNat) ∧
    (number.flag = .tooPrecise → number.convert (.integer target) = .error .tooPrecise) ∧
    (number.flag = .infinite → number.convert (.integer target) = .error (.outOfBounds target)) ∧
    (number.flag = .zero → number.convert (.integer target) = .error (.notInteger target)) ∧
    (number.flag = .normal →
      ((¬∃ z : ℤ, (z : ℚ) = number.value) → number.convert (.integer target) = .error (.notInteger target)) ∧
      ∀ z : ℤ, (z : ℚ) = number.value → number.convert (.integer target) =
        if target.isUnsigned = true ∧ z < 0 then .error (.notUnsigned target)
        else if target.Contains z then .ok (target.valueOf z)
        else .error (.outOfBounds target)) ∧
    ∀ magnitude : Nat, number.toInteger = some magnitude ↔
      number.flag = .normal ∧ (magnitude : ℚ) = number.magnitude ∧ magnitude < 2 ^ 64 := by
  have hconvert : number.convert (.integer target) = number.toIntegerType target := rfl
  rw [hconvert]
  refine ⟨toIntegerTypeInWords_eq h target, toIntegerInWords_eq h.isCanonical h.fitsWords, fun hflag => ?_,
    fun hflag => ?_, fun hflag => ?_, fun hflag => ?_, fun magnitude => h.toInteger_eq_some_iff⟩
  · rw [toIntegerType, hflag]
  · rw [toIntegerType, hflag]
  · rw [toIntegerType, hflag]
  · rw [toIntegerType_eq h.isCanonical hflag]
    refine ⟨fun hfraction => if_neg fun hexponent => hfraction (h.exponent_nonneg_iff.1 hexponent), fun z hz => ?_⟩
    have hexponent := h.exponent_nonneg_iff.2 ⟨z, hz⟩
    rw [value_eq_wholeValue hexponent, Int.cast_inj] at hz
    rw [if_pos hexponent, hz]

/-- The negative of 128 is the smallest of the signed bytes, and 128 is not one. -/
theorem toIntegerType_is_exact_smallest :
    ∃ number, ofText ['1', '2', '8'] = .ok number ∧ number.negate.IsObtained ∧ number.negate.negate.IsObtained ∧
      number.negate.convert (.integer .i8) = .ok (.signed (-128)) ∧
      number.negate.toIntegerTypeInWords .i8 = .ok (.ok (.signed (-128))) ∧
      number.negate.negate.convert (.integer .i8) = .error (.outOfBounds .i8) := by
  have hnumber : ofText ['1', '2', '8'] = .ok ⟨⟨[1]⟩, 7, false, .normal⟩ := by cbv
  have hnegated := (IsObtained.ofText hnumber).negate
  have hvalue : ((-128 : ℤ) : ℚ) = (⟨⟨[1]⟩, 7, true, .normal⟩ : Number).value := by
    rw [value_eq_wholeValue (by decide)]
    rfl
  have hpositive : ((128 : ℤ) : ℚ) = (⟨⟨[1]⟩, 7, false, .normal⟩ : Number).value := by
    rw [value_eq_wholeValue (by decide)]
    rfl
  refine ⟨_, hnumber, hnegated, hnegated.negate, ?_⟩
  obtain ⟨hwords, -, -, -, -, hnormal, -⟩ := toIntegerType_is_exact hnegated .i8
  have hleast : _ = Except.ok (Value.signed (-128)) := (hnormal rfl).2 (-128) hvalue
  rw [hleast] at hwords
  exact ⟨hleast, hwords, ((toIntegerType_is_exact hnegated.negate .i8).2.2.2.2.2.1 rfl).2 128 hpositive⟩

end Number

end ExprLang
