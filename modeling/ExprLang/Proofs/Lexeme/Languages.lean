import ExprLang.Proofs.Decimal.Spelling
import Mathlib.Computability.Language
import Mathlib.Data.Char
import Mathlib.Order.Interval.Set.Defs

/-!
# The lexical grammar

Layout, words and decimals as regular languages over classes of characters.  Membership is read off the characters for
words (`mem_words_iff`), and the decimals are the spellings of numbers without a sign (`mem_decimals_iff`).
-/

namespace ExprLang

namespace Lexical

open scoped Computability

/-! ### Classes of characters -/

/-- Spaces, tabs, newlines and carriage returns. -/
def blanks : Set Char := {' ', '\t', '\n', '\r'}

/-- The ASCII letters and the underscore. -/
def letters : Set Char := Set.Icc 'A' 'Z' ∪ Set.Icc 'a' 'z' ∪ {'_'}

/-- The ASCII digits. -/
def digits : Set Char := Set.Icc '0' '9'

theorem mem_blanks_iff {c : Char} : c ∈ blanks ↔ isBlank c = true := by
  simp [blanks, isBlank, or_assoc]

theorem mem_digits_iff {c : Char} : c ∈ digits ↔ c.isDigit = true := by
  simp only [digits, Set.mem_Icc, Char.isDigit, Bool.and_eq_true, decide_eq_true_eq]
  rfl

theorem mem_letters_iff {c : Char} : c ∈ letters ↔ isWordStart c = true := by
  rw [letters, isWordStart]
  delta Char.isAlpha Char.isUpper Char.isLower
  simp only [Set.mem_union, Set.mem_Icc, Set.mem_singleton_iff, Bool.or_eq_true, Bool.and_eq_true, decide_eq_true_eq]
  rfl

private theorem mem_letters_union_digits_iff {c : Char} : c ∈ letters ∪ digits ↔ isWordChar c = true := by
  rw [Set.mem_union, mem_letters_iff, mem_digits_iff]
  simp only [isWordStart, isWordChar, Char.isAlphanum, Bool.or_eq_true]
  tauto

private theorem mem_digits_union_gap_iff {c : Char} : c ∈ digits ∪ {'_'} ↔ isDigitOrGap c = true := by
  rw [Set.mem_union, mem_digits_iff]
  simp [isDigitOrGap]

theorem notMem_letters_of_mem_digits {c : Char} (h : c ∈ digits) : c ∉ letters := by
  have hupper : ('9' : Char) < 'A' := by decide
  have hlower : ('9' : Char) < 'a' := by decide
  rintro ((hc | hc) | rfl)
  · exact absurd (hc.1.trans h.2) (not_le_of_gt hupper)
  · exact absurd (hc.1.trans h.2) (not_le_of_gt hlower)
  · exact absurd h.2 (by decide)

/-! ### Languages -/

/-- The texts of one character of a class. -/
def oneOf (chars : Set Char) : Language Char := {text | ∃ c ∈ chars, text = [c]}

/-- A letter, and more letters and digits. -/
def words : Language Char := oneOf letters * (oneOf (letters ∪ digits))∗

/-- A digit, and more digits with underscores. -/
def numerals : Language Char := oneOf digits * (oneOf (digits ∪ {'_'}))∗

/-- A point and digits. -/
def fractions : Language Char := oneOf {'.'} * numerals

/-- A mark, perhaps a sign, and digits. -/
def exponents : Language Char := oneOf {'e', 'E'} * ((1 + oneOf {'+', '-'}) * numerals)

/-- Digits, perhaps a fraction and perhaps an exponent. -/
def decimals : Language Char := numerals * (1 + fractions) * (1 + exponents)

/-- Two slashes and what else is on their line. -/
def comments : Language Char := {['/', '/']} * (oneOf {'\n'}ᶜ)∗

/-- Blanks, and comments with the newline that ends them. -/
def layout : Language Char := (oneOf blanks + comments * oneOf {'\n'})∗

variable {text front rest : List Char} {chars : Set Char}

private theorem mem_oneOf : text ∈ oneOf chars ↔ ∃ c ∈ chars, text = [c] := Iff.rfl

theorem mem_kstar_oneOf : text ∈ (oneOf chars)∗ ↔ ∀ c ∈ text, c ∈ chars := by
  rw [Language.mem_kstar]
  constructor
  · rintro ⟨parts, rfl, hparts⟩ c hc
    obtain ⟨part, hpart, hc⟩ := List.mem_flatten.1 hc
    obtain ⟨d, hd, rfl⟩ := hparts part hpart
    rwa [List.mem_singleton.1 hc]
  · intro h
    refine ⟨text.map ([·]), (List.flatMap_singleton' text).symm, fun part hpart => ?_⟩
    obtain ⟨c, hc, rfl⟩ := List.mem_map.1 hpart
    exact ⟨c, h c hc, rfl⟩

private theorem mem_oneOf_mul_iff {l : Language Char} :
    text ∈ oneOf chars * l ↔ ∃ c ∈ chars, ∃ rest ∈ l, text = c :: rest := by
  rw [Language.mem_mul]
  constructor
  · rintro ⟨_, ⟨c, hc, rfl⟩, rest, hrest, rfl⟩
    exact ⟨c, hc, rest, hrest, rfl⟩
  · rintro ⟨c, hc, rest, hrest, rfl⟩
    exact ⟨[c], ⟨c, hc, rfl⟩, rest, hrest, rfl⟩

private theorem mem_one_add_iff {l : Language Char} : text ∈ 1 + l ↔ text = [] ∨ text ∈ l := by
  rw [Language.mem_add, Language.mem_one]

/-! ### Words -/

theorem mem_words_iff :
    text ∈ words ↔ ∃ c rest, text = c :: rest ∧ isWordStart c = true ∧ ∀ d ∈ rest, isWordChar d = true := by
  simp only [words, mem_oneOf_mul_iff, mem_kstar_oneOf, mem_letters_iff, mem_letters_union_digits_iff]
  constructor
  · rintro ⟨c, hc, rest, hrest, rfl⟩
    exact ⟨c, rest, rfl, hc, hrest⟩
  · rintro ⟨c, rest, rfl, hc, hrest⟩
    exact ⟨c, hc, rest, hrest, rfl⟩

/-! ### Decimals -/

private theorem mem_numerals_iff : text ∈ numerals ↔ ∃ run : DigitRun, text = run.spelling := by
  simp only [numerals, mem_oneOf_mul_iff, mem_kstar_oneOf, mem_digits_iff, mem_digits_union_gap_iff]
  constructor
  · rintro ⟨c, hc, rest, hrest, rfl⟩
    exact ⟨⟨c, rest, hc, hrest⟩, rfl⟩
  · rintro ⟨run, rfl⟩
    exact ⟨run.first, run.first_isDigit, run.rest, run.rest_isDigitOrGap, rfl⟩

private theorem mem_one_add_fractions_iff :
    text ∈ 1 + fractions ↔ ∃ fraction : Option DigitRun, text = fraction.elim [] ('.' :: ·.spelling) := by
  simp only [mem_one_add_iff, fractions, mem_oneOf_mul_iff, mem_numerals_iff, Set.mem_singleton_iff]
  constructor
  · rintro (rfl | ⟨_, rfl, _, ⟨run, rfl⟩, rfl⟩)
    · exact ⟨none, rfl⟩
    · exact ⟨some run, rfl⟩
  · rintro ⟨_ | run, rfl⟩
    · exact .inl rfl
    · exact .inr ⟨'.', rfl, run.spelling, ⟨run, rfl⟩, rfl⟩

private theorem mem_signs_iff : text ∈ 1 + oneOf {'+', '-'} ↔ ∃ sign : Option Sign, text = Sign.spelling sign := by
  simp only [mem_one_add_iff, mem_oneOf, Set.mem_insert_iff, Set.mem_singleton_iff]
  constructor
  · rintro (rfl | ⟨_, rfl | rfl, rfl⟩)
    · exact ⟨none, rfl⟩
    · exact ⟨some .plus, rfl⟩
    · exact ⟨some .minus, rfl⟩
  · rintro ⟨_ | _ | _, rfl⟩
    · exact .inl rfl
    · exact .inr ⟨'+', .inl rfl, rfl⟩
    · exact .inr ⟨'-', .inr rfl, rfl⟩

private theorem mem_one_add_exponents_iff : text ∈ 1 + exponents ↔
    ∃ exponent : Option ExponentText, text = exponent.elim [] fun exponent => exponent.mark :: exponent.tail := by
  rw [mem_one_add_iff, exponents, mem_oneOf_mul_iff]
  simp only [Language.mem_mul, mem_signs_iff, mem_numerals_iff]
  constructor
  · rintro (rfl | ⟨mark, hmark, _, ⟨_, ⟨sign, rfl⟩, _, ⟨run, rfl⟩, rfl⟩, rfl⟩)
    · exact ⟨none, rfl⟩
    · have hmark : isExponentMark mark = true := by simpa [isExponentMark] using hmark
      exact ⟨some ⟨mark, sign, run, hmark⟩, rfl⟩
  · rintro ⟨_ | exponent, rfl⟩
    · exact .inl rfl
    · have hmark : exponent.mark ∈ ({'e', 'E'} : Set Char) := by
        simpa [isExponentMark] using exponent.mark_isExponentMark
      exact .inr ⟨_, hmark, _, ⟨_, ⟨exponent.sign, rfl⟩, _, ⟨exponent.run, rfl⟩, rfl⟩, rfl⟩

/-- A decimal is the spelling of a number without a sign. -/
theorem mem_decimals_iff :
    text ∈ decimals ↔ ∃ decimal : DecimalText, decimal.sign = none ∧ text = decimal.spelling := by
  rw [decimals]
  simp only [Language.mem_mul, mem_numerals_iff, mem_one_add_fractions_iff, mem_one_add_exponents_iff]
  constructor
  · rintro ⟨_, ⟨_, ⟨whole, rfl⟩, _, ⟨fraction, rfl⟩, rfl⟩, _, ⟨exponent, rfl⟩, rfl⟩
    refine ⟨⟨none, whole, fraction, exponent⟩, rfl, ?_⟩
    cases fraction <;> cases exponent <;> rfl
  · rintro ⟨⟨_, whole, fraction, exponent⟩, rfl, rfl⟩
    refine ⟨_, ⟨_, ⟨whole, rfl⟩, _, ⟨fraction, rfl⟩, rfl⟩, _, ⟨exponent, rfl⟩, ?_⟩
    cases fraction <;> cases exponent <;> rfl

end Lexical

end ExprLang
