import ExprLang.Decimal.Literal
import ExprLang.Proofs.Lexeme.Chunks
import Mathlib.Data.List.TakeWhile
import Mathlib.Data.Rat.Cast.Order
import Mathlib.Algebra.Order.Field.Power
import Mathlib.Tactic.FieldSimp
import Mathlib.Tactic.Positivity
import Mathlib.Tactic.Ring

/-!
# The grammar of decimals

A decimal is digits with a point and an exponent, of which only the digits before the point are required, and
a sign may stand in front (`DecimalText`).  It has an exact value, a rational number.  Reading the spelling of
a decimal gives its digits and its exponent (`read_spelling`), and the numbers that are split off a text are
spelled like this (`exists_decimalText`).
-/

namespace ExprLang

/-! ### Digits -/

/-- Digits, with gaps after the first. -/
structure DigitRun where
  first : Char
  rest : List Char
  first_isDigit : first.isDigit = true
  rest_isDigitOrGap : ∀ c ∈ rest, isDigitOrGap c = true

namespace DigitRun

/-- The digit zero. -/
def zero : DigitRun :=
  ⟨'0', [], rfl, by simp⟩

/-- The characters of a run. -/
def spelling (run : DigitRun) : List Char :=
  run.first :: run.rest

/-- The values of the digits of a run. -/
def digits (run : DigitRun) : List Nat :=
  digitValues run.spelling

theorem isDigitOrGap_of_mem (run : DigitRun) {c : Char} (h : c ∈ run.spelling) : isDigitOrGap c = true := by
  rcases List.mem_cons.1 h with rfl | h
  · simp [isDigitOrGap, run.first_isDigit]
  · exact run.rest_isDigitOrGap c h

end DigitRun

/-- The characters that may stand before the exponent of a decimal. -/
def isMantissaChar (c : Char) : Bool :=
  isDigitOrGap c || c = '+' || c = '-' || c = '.'

private theorem ne_of_isDigitOrGap {c other : Char} (h : isDigitOrGap c = true)
    (hother : isDigitOrGap other = false) : c ≠ other := by
  rintro rfl
  rw [h] at hother
  exact absurd hother (by decide)

private theorem isMantissaChar_of_isDigitOrGap {c : Char} (h : isDigitOrGap c = true) : isMantissaChar c = true := by
  simp [isMantissaChar, h]

private theorem not_isExponentMark {c : Char} (h : isMantissaChar c = true) : isExponentMark c = false := by
  have he : c ≠ 'e' := by
    rintro rfl
    exact absurd h (by decide)
  have hE : c ≠ 'E' := by
    rintro rfl
    exact absurd h (by decide)
  simp [isExponentMark, he, hE]

private theorem digitValues_append (a b : List Char) : digitValues (a ++ b) = digitValues a ++ digitValues b := by
  simp [digitValues]

theorem digitValues_lt {text : List Char} {digit : Nat} (h : digit ∈ digitValues text) : digit < 10 := by
  obtain ⟨c, hc, rfl⟩ := List.mem_map.1 h
  have hdigit := (List.mem_filter.1 hc).2
  simp only [Char.isDigit, Bool.and_eq_true, decide_eq_true_eq] at hdigit
  have hupper : c.toNat ≤ '9'.toNat := hdigit.2
  have hnine : '9'.toNat = 57 := rfl
  have hzero : '0'.toNat = 48 := rfl
  omega

private theorem digitsValue_append (a b : List Nat) :
    digitsValue (a ++ b) = digitsValue a * 10 ^ b.length + digitsValue b := by
  induction b using List.reverseRecOn with
  | nil => simp [digitsValue]
  | append_singleton b digit ih =>
    rw [← List.append_assoc]
    simp only [digitsValue, List.foldl_append, List.foldl_cons, List.foldl_nil, List.length_append,
      List.length_singleton] at ih ⊢
    rw [ih]
    ring

theorem digitsValue_lt {digits : List Nat} (h : ∀ digit ∈ digits, digit < 10) :
    digitsValue digits < 10 ^ digits.length := by
  induction digits using List.reverseRecOn with
  | nil => decide
  | append_singleton digits digit ih =>
    have hinit := ih fun d hd => h d (List.mem_append_left _ hd)
    have hlast := h digit (List.mem_append_right _ (List.mem_singleton_self _))
    have hsingle : digitsValue [digit] = digit := by simp [digitsValue]
    rw [digitsValue_append, hsingle, List.length_append, List.length_singleton, pow_one, pow_succ]
    omega

theorem digitsValue_dropWhile (digits : List Nat) :
    digitsValue (digits.dropWhile (· = 0)) = digitsValue digits := by
  induction digits with
  | nil => rfl
  | cons digit digits ih =>
    rw [List.dropWhile_cons]
    split
    · rename_i h
      rw [ih, show digit = 0 by simpa using h]
      simp [digitsValue]
    · rfl

/-- The first digit is not zero, so the number is as long as its digits. -/
theorem le_digitsValue_dropWhile {digits : List Nat} (h : digits.dropWhile (· = 0) ≠ []) :
    10 ^ ((digits.dropWhile (· = 0)).length - 1) ≤ digitsValue digits := by
  rw [← digitsValue_dropWhile]
  obtain ⟨digit, rest, hrest⟩ := List.exists_cons_of_ne_nil h
  have hpos : digit ≠ 0 := by
    have := List.head_dropWhile_not (p := fun d => decide (d = 0)) h
    simpa [hrest] using this
  rw [hrest, ← List.singleton_append, digitsValue_append, List.length_append, List.length_singleton,
    Nat.add_sub_cancel_left]
  have hsingle : digitsValue [digit] = digit := by simp [digitsValue]
  calc 10 ^ rest.length = 1 * 10 ^ rest.length := (Nat.one_mul _).symm
    _ ≤ digitsValue [digit] * 10 ^ rest.length := Nat.mul_le_mul_right _ (by omega)
    _ ≤ digitsValue [digit] * 10 ^ rest.length + digitsValue rest := Nat.le_add_right _ _

/-! ### Decimals -/

/-- A sign in front of digits. -/
inductive Sign where
  | plus
  | minus
  deriving DecidableEq, Repr

/-- The characters of a sign, if there is one. -/
def Sign.spelling : Option Sign → List Char
  | none => []
  | some plus => ['+']
  | some minus => ['-']

/-- An exponent with its mark. -/
structure ExponentText where
  mark : Char
  sign : Option Sign
  run : DigitRun
  mark_isExponentMark : isExponentMark mark = true

namespace ExponentText

/-- The characters after the mark. -/
def tail (exponent : ExponentText) : List Char :=
  Sign.spelling exponent.sign ++ exponent.run.spelling

/-- The value of an exponent. -/
def value (exponent : ExponentText) : Int :=
  if exponent.sign = some .minus then -digitsValue exponent.run.digits else digitsValue exponent.run.digits

/-- The value of an exponent as far as large ones are told apart. -/
def capped (exponent : ExponentText) : Int :=
  if exponent.sign = some .minus then -cappedValue exponent.run.digits else cappedValue exponent.run.digits

end ExponentText

/-- A number written with digits, a point and an exponent. -/
structure DecimalText where
  sign : Option Sign
  whole : DigitRun
  fraction : Option DigitRun
  exponent : Option ExponentText

namespace DecimalText

variable (text : DecimalText)

/-- The characters of the fraction, with the point. -/
def fractionSpelling : List Char :=
  match text.fraction with
  | none => []
  | some run => '.' :: run.spelling

/-- The characters of the exponent, with its mark. -/
def exponentSpelling : List Char :=
  match text.exponent with
  | none => []
  | some exponent => exponent.mark :: exponent.tail

/-- The characters before the exponent. -/
def front : List Char :=
  Sign.spelling text.sign ++ text.whole.spelling ++ text.fractionSpelling

/-- The characters of a decimal. -/
def spelling : List Char :=
  text.front ++ text.exponentSpelling

/-- Whether there is a minus in front. -/
def isNegative : Bool :=
  text.sign = some .minus

/-- The digits after the point. -/
def fractionDigits : List Nat :=
  digitValues text.fractionSpelling

/-- The digits before the exponent. -/
def digits : List Nat :=
  text.whole.digits ++ text.fractionDigits

/-- The power of ten that is written after the mark. -/
def power : Int :=
  match text.exponent with
  | none => 0
  | some exponent => exponent.value

/-- The power of ten that the last digit counts. -/
def netExponent : Int :=
  text.power - text.fractionDigits.length

/-- The exact value without its sign. -/
def magnitude : ℚ :=
  (digitsValue text.whole.digits + digitsValue text.fractionDigits / 10 ^ text.fractionDigits.length)
    * 10 ^ text.power

/-- The exact value. -/
def value : ℚ :=
  if text.isNegative then -text.magnitude else text.magnitude

/-- Whether there are no more digits and no larger exponents than are worked out. -/
structure IsWithinLimits : Prop where
  digits : text.digits.length ≤ digitLimit
  exponent : text.netExponent.natAbs ≤ exponentLimit

/-- What the spelling of a decimal says when it is read. -/
def literal : Literal where
  negative := text.isNegative
  digits := text.digits
  exponent := (match text.exponent with
    | none => 0
    | some exponent => exponent.capped) - text.fractionDigits.length

theorem magnitude_eq : text.magnitude = digitsValue text.digits * 10 ^ text.netExponent := by
  rw [magnitude, digits, digitsValue_append, netExponent, zpow_sub₀ (by norm_num), zpow_natCast]
  push_cast
  field_simp

theorem magnitude_nonneg : 0 ≤ text.magnitude := by
  rw [magnitude_eq]
  positivity

/-! ### Reading -/

private theorem not_isDigit_of_sign {sign : Option Sign} {c : Char} (h : c ∈ Sign.spelling sign) :
    c = '+' ∨ c = '-' := by
  match sign with
  | none => exact absurd h List.not_mem_nil
  | some .plus => exact .inl (List.mem_singleton.1 h)
  | some .minus => exact .inr (List.mem_singleton.1 h)

private theorem digitValues_sign (sign : Option Sign) : digitValues (Sign.spelling sign) = [] := by
  match sign with
  | none => rfl
  | some .plus => rfl
  | some .minus => rfl

private theorem mem_sign_iff (sign : Option Sign) : '-' ∈ Sign.spelling sign ↔ sign = some .minus := by
  match sign with
  | none => decide
  | some .plus => decide
  | some .minus => decide

private theorem minus_notMem_run (run : DigitRun) : '-' ∉ run.spelling := by
  intro h
  exact absurd (run.isDigitOrGap_of_mem h) (by decide)

private theorem mem_fractionSpelling {c : Char} (h : c ∈ text.fractionSpelling) : c = '.' ∨ isDigitOrGap c = true := by
  rw [fractionSpelling] at h
  split at h
  · exact absurd h List.not_mem_nil
  · rename_i run _
    rcases List.mem_cons.1 h with h | h
    · exact .inl h
    · exact .inr (run.isDigitOrGap_of_mem h)

theorem isMantissaChar_of_mem_front {c : Char} (h : c ∈ text.front) : isMantissaChar c = true := by
  simp only [front, List.mem_append] at h
  rcases h with (h | h) | h
  · rcases not_isDigit_of_sign h with rfl | rfl <;> decide
  · exact isMantissaChar_of_isDigitOrGap (text.whole.isDigitOrGap_of_mem h)
  · rcases text.mem_fractionSpelling h with rfl | h
    · decide
    · exact isMantissaChar_of_isDigitOrGap h

theorem mantissa_spelling : Literal.mantissa text.spelling = text.front := by
  rw [Literal.mantissa, spelling, List.takeWhile_append_of_pos fun c hc => by
    simp [not_isExponentMark (text.isMantissaChar_of_mem_front hc)]]
  conv_rhs => rw [← List.append_nil text.front]
  congr 1
  rw [exponentSpelling]
  split
  · rfl
  · rename_i exponent _
    simp [exponent.mark_isExponentMark]

private theorem dropWhile_spelling : text.spelling.dropWhile (!isExponentMark ·) = text.exponentSpelling := by
  rw [spelling, List.dropWhile_append_of_pos fun c hc => by
    simp [not_isExponentMark (text.isMantissaChar_of_mem_front hc)]]
  rw [exponentSpelling]
  split
  · rfl
  · rename_i exponent _
    simp [exponent.mark_isExponentMark]

theorem digitValues_front : digitValues text.front = text.digits := by
  rw [front, digitValues_append, digitValues_append, digitValues_sign, List.nil_append]
  rfl

private theorem minus_mem_front_iff : '-' ∈ text.front ↔ text.isNegative = true := by
  have hfraction : '-' ∉ text.fractionSpelling := by
    intro h
    rcases text.mem_fractionSpelling h with h | h <;> exact absurd h (by decide)
  simp [front, mem_sign_iff, minus_notMem_run, hfraction, isNegative]

private theorem digitValues_dropWhile_front : digitValues (text.front.dropWhile (· ≠ '.')) = text.fractionDigits := by
  rw [front, List.dropWhile_append_of_pos, fractionDigits]
  · rw [fractionSpelling]
    split <;> simp
  · intro c hc
    rcases List.mem_append.1 hc with hc | hc
    · rcases not_isDigit_of_sign hc with rfl | rfl <;> decide
    · exact decide_eq_true (ne_of_isDigitOrGap (text.whole.isDigitOrGap_of_mem hc) (by decide))

private theorem readExponent_tail (exponent : ExponentText) :
    Literal.readExponent exponent.tail = .ok exponent.capped := by
  have hfind : exponent.tail.find? (fun c => !(c.isDigit || c = '_' || c = '+' || c = '-')) = none := by
    rw [List.find?_eq_none]
    intro c hc
    rcases List.mem_append.1 hc with hc | hc
    · rcases not_isDigit_of_sign hc with rfl | rfl <;> decide
    · have := exponent.run.isDigitOrGap_of_mem hc
      rw [isDigitOrGap, Bool.or_eq_true] at this
      rcases this with h | h <;> simp [h]
  have hminus : '-' ∈ exponent.tail ↔ exponent.sign = some .minus := by
    simp [ExponentText.tail, mem_sign_iff, minus_notMem_run]
  have hdigits : digitValues exponent.tail = exponent.run.digits := by
    rw [ExponentText.tail, digitValues_append, digitValues_sign, List.nil_append]
    rfl
  rw [Literal.readExponent]
  simp only [hfind, hdigits, ExponentText.capped]
  by_cases h : exponent.sign = some .minus
  · rw [if_pos h, if_pos (hminus.2 h)]
  · rw [if_neg h, if_neg fun hmem => h (hminus.1 hmem)]

/-- The spelling of a decimal is read as what it says. -/
theorem read_spelling : Literal.read text.spelling = .ok text.literal := by
  have hfind : text.front.find?
      (fun c => !(c.isDigit || c = '_' || c = '+' || c = '-' || c = '.')) = none := by
    rw [List.find?_eq_none]
    intro c hc
    have := text.isMantissaChar_of_mem_front hc
    simp only [isMantissaChar, isDigitOrGap] at this
    rw [this]
    decide
  have hminus : decide ('-' ∈ text.front) = text.isNegative := by
    rw [Bool.eq_iff_iff, decide_eq_true_eq]
    exact text.minus_mem_front_iff
  unfold Literal.read
  simp only [mantissa_spelling, hfind, digitValues_dropWhile_front, dropWhile_spelling, digitValues_front, hminus]
  unfold literal exponentSpelling
  cases text.exponent with
  | none => rfl
  | some exponent =>
    show (Literal.readExponent exponent.tail >>= _) = _
    rw [readExponent_tail]
    rfl

/-! ### Splitting off a text -/

end DecimalText

private theorem exists_run_of_splitDigits? {text digits rest : List Char}
    (h : splitDigits? text = some (digits, rest)) :
    ∃ run : DigitRun, digits = run.spelling := by
  rw [splitDigits?.eq_def] at h
  split at h
  · exact absurd h (by simp)
  · rename_i c rest
    split at h
    · rename_i hc
      simp only [Option.some.injEq, Prod.mk.injEq] at h
      exact ⟨⟨c, rest.takeWhile isDigitOrGap, hc, fun _ => List.mem_takeWhile_imp⟩, h.1.symm⟩
    · exact absurd h (by simp)

private theorem exists_fraction (text : List Char) :
    (splitFraction text).1 = [] ∨ ∃ run : DigitRun, (splitFraction text).1 = '.' :: run.spelling := by
  rw [splitFraction.eq_def]
  split
  · split
    · rename_i h
      obtain ⟨run, rfl⟩ := exists_run_of_splitDigits? h
      exact .inr ⟨run, rfl⟩
    · exact .inl rfl
  · exact .inl rfl

private theorem exists_sign (text : List Char) : ∃ sign, (splitSign text).1 = Sign.spelling sign := by
  rw [splitSign.eq_def]
  split
  · exact ⟨some .plus, rfl⟩
  · exact ⟨some .minus, rfl⟩
  · exact ⟨none, rfl⟩

private theorem exists_exponent (text : List Char) :
    (splitExponent text).1 = [] ∨
      ∃ exponent : ExponentText, (splitExponent text).1 = exponent.mark :: exponent.tail := by
  rw [splitExponent.eq_def]
  split
  · exact .inl rfl
  · rename_i c rest
    split
    · rename_i hmark
      split
      · rename_i h
        obtain ⟨run, rfl⟩ := exists_run_of_splitDigits? h
        obtain ⟨sign, hsign⟩ := exists_sign rest
        refine .inr ⟨⟨c, sign, run, by simpa [isExponentMark] using hmark⟩, ?_⟩
        simp [ExponentText.tail, hsign]
      · exact .inl rfl
    · exact .inl rfl

/-- A number that is split off a text is the spelling of a decimal without a sign. -/
theorem exists_decimalText {text number rest : List Char} (h : splitDecimal? text = some (number, rest)) :
    ∃ decimal : DecimalText, decimal.sign = none ∧ number = decimal.spelling := by
  rw [splitDecimal?] at h
  obtain ⟨⟨whole, after⟩, hwhole, h⟩ := Option.map_eq_some_iff.1 h
  simp only [Prod.mk.injEq] at h
  obtain ⟨rfl, -⟩ := h
  obtain ⟨run, rfl⟩ := exists_run_of_splitDigits? hwhole
  obtain ⟨fraction, hfraction⟩ : ∃ fraction : Option DigitRun,
      (splitFraction after).1 = DecimalText.fractionSpelling ⟨none, run, fraction, none⟩ := by
    rcases exists_fraction after with h | ⟨fraction, h⟩
    · exact ⟨none, h⟩
    · exact ⟨some fraction, h⟩
  obtain ⟨exponent, hexponent⟩ : ∃ exponent : Option ExponentText,
      (splitExponent (splitFraction after).2).1
        = DecimalText.exponentSpelling ⟨none, run, fraction, exponent⟩ := by
    rcases exists_exponent (splitFraction after).2 with h | ⟨exponent, h⟩
    · exact ⟨none, h⟩
    · exact ⟨some exponent, h⟩
  refine ⟨⟨none, run, fraction, exponent⟩, rfl, ?_⟩
  rw [hfraction, hexponent]
  rfl

end ExprLang
