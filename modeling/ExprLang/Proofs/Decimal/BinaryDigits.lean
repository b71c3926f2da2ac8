import ExprLang.Proofs.Decimal.Order

/-!
# Binary digits

The operations on single bits and on all bits of a significand are those of its number: the digits, how many there are,
how many zeros are below the lowest one, and what moving them up and down comes to (`Significand.bits_are_exact`).  The
numbers of bits are summed up in words of 64 bits, which are wide enough for them unless there are `2 ^ 64` bits.
-/

namespace ExprLang

namespace Significand

/-- The number of binary zeros below the lowest one, counted in words of 64 bits. -/
def trailingZeroBitsInWords (s : Significand) : Except Fault Nat :=
  let whole := (s.bytes.takeWhile (· = 0)).length
  match s.bytes[whole]? with
  | some b => do
    let low ← inWord 64 (whole * 8)
    inWord 64 (low + ((List.range 8).takeWhile (!b.toNat.testBit ·)).length)
  | none => .ok 0

variable {s : Significand}

/-! ### How many digits there are -/

private theorem bit_of_bitLength_le (h : s.IsCanonical) {index : Nat} (hle : s.bitLength ≤ index) :
    s.bit index = false := by
  rw [bit_eq_testBit]
  apply Nat.testBit_lt_two_pow
  calc s.toNat < 2 ^ s.bitLength := toNat_lt_two_pow h
    _ ≤ 2 ^ index := Nat.pow_le_pow_right (by decide) hle

/-- Of a number that is not zero, the number of digits is told by the two powers around it. -/
private theorem bitLength_eq_iff (h : s.IsCanonical) (hne : s.toNat ≠ 0) {length : Nat} :
    s.bitLength = length ↔ 2 ^ (length - 1) ≤ s.toNat ∧ s.toNat < 2 ^ length := by
  constructor
  · rintro rfl
    exact ⟨two_pow_le_toNat h hne, toNat_lt_two_pow h⟩
  · rintro ⟨hlow, hhigh⟩
    have hpos : length ≠ 0 := by
      rintro rfl
      omega
    rw [← Nat.lt_size] at hlow
    rw [← Nat.size_le] at hhigh
    rw [bitLength_eq_size h]
    omega

private theorem bitLength_of_toNat_eq_zero (h : s.IsCanonical) (hzero : s.toNat = 0) : s.bitLength = 0 := by
  rw [bitLength_eq_size h, hzero, Nat.size_zero]

/-! ### How many zeros are at the end -/

/-- The powers of two that divide a number are those up to the one at its lowest digit. -/
private theorem two_pow_dvd_iff (h : s.IsCanonical) (hne : s.toNat ≠ 0) {places : Nat} :
    2 ^ places ∣ s.toNat ↔ places ≤ s.trailingZeroBits := by
  constructor
  · rintro ⟨quotient, hquotient⟩
    by_contra hlt
    have hbit := (testBit_trailingZeroBits h hne).1
    rw [hquotient, Nat.testBit_two_pow_mul] at hbit
    simp at hbit
    omega
  · intro hle
    exact (Nat.pow_dvd_pow 2 hle).trans (two_pow_trailingZeroBits_dvd h hne)

private theorem trailingZeroBits_of_toNat_eq_zero (h : s.IsCanonical) (hzero : s.toNat = 0) :
    s.trailingZeroBits = 0 := by
  have hnil : s.bytes = [] := eq_nil_of_bytesValue_eq_zero h hzero
  rw [trailingZeroBits, hnil]
  rfl

private theorem trailingZeroBits_le_bitLength (h : s.IsCanonical) : s.trailingZeroBits ≤ s.bitLength := by
  by_cases hzero : s.toNat = 0
  · rw [trailingZeroBits_of_toNat_eq_zero h hzero]
    exact Nat.zero_le _
  · have hle : 2 ^ s.trailingZeroBits ≤ s.toNat :=
      Nat.le_of_dvd (Nat.pos_of_ne_zero hzero) (two_pow_trailingZeroBits_dvd h hzero)
    have hlt := Nat.lt_of_le_of_lt hle (toNat_lt_two_pow h)
    exact Nat.le_of_lt ((Nat.pow_lt_pow_iff_right (by decide)).1 hlt)

/-! ### Counts in words -/

private theorem trailingZeroBitsInWords_eq (hfits : s.trailingZeroBits < 2 ^ 64) :
    s.trailingZeroBitsInWords = .ok s.trailingZeroBits := by
  rw [trailingZeroBits] at hfits ⊢
  rw [trailingZeroBitsInWords]
  cases htop : s.bytes[(s.bytes.takeWhile (· = 0)).length]? with
  | some top =>
    rw [htop] at hfits
    have hwhole : (s.bytes.takeWhile (· = 0)).length * 8 < 2 ^ 64 := Nat.lt_of_le_of_lt (Nat.le_add_right _ _) hfits
    show (inWord 64 _ >>= _) = _
    rw [inWord_eq_ok hwhole]
    exact inWord_eq_ok hfits
  | none => rfl

/-! ### Moving the digits -/

private theorem isOf_shiftLeft (h : s.IsCanonical) (places : Nat) : (s.shiftLeft places).IsOf (s.toNat * 2 ^ places) :=
  ⟨isCanonical_shiftLeft h places, toNat_shiftLeft s places⟩

private theorem isOf_shiftRight (s : Significand) (places : Nat) : (s.shiftRight places).IsOf (s.toNat / 2 ^ places) :=
  ⟨isCanonical_shiftRight s places, toNat_shiftRight s places⟩

/-- What has been moved up is moved back. -/
private theorem shiftRight_shiftLeft (h : s.IsCanonical) (places : Nat) :
    (s.shiftLeft places).shiftRight places = s := by
  have hsame : ((s.shiftLeft places).shiftRight places).toNat = s.toNat := by
    rw [toNat_shiftRight, toNat_shiftLeft, Nat.mul_div_cancel _ (Nat.two_pow_pos places)]
  rw [← ofNat_toNat (isCanonical_shiftRight (s.shiftLeft places) places), hsame, ofNat_toNat h]

/-- The loops that move bytes in words come to what moving the digits does. -/
private theorem shiftsInWords_eq (s : Significand) (places : UInt64) :
    Arithmetic.inWords.shiftLeft s places = .ok (s.shiftLeft places.toNat) ∧
      Arithmetic.inWords.shiftRight s places = .ok (s.shiftRight places.toNat) :=
  ⟨(Arithmetic.inWords_agrees_significand.shiftLeft rfl places).eq_ok,
    (Arithmetic.inWords_agrees_significand.shiftRight rfl places).eq_ok⟩

/-! ### All operations -/

/-- The operations on the bits of a canonical significand are those on the binary digits of its number. -/
theorem bits_are_exact (h : s.IsCanonical) :
    (∀ index, s.bit index = s.toNat.testBit index) ∧ (∀ index, s.bitLength ≤ index → s.bit index = false) ∧
    (s.toNat = 0 → s.bitLength = 0 ∧ s.trailingZeroBits = 0) ∧
    (s.toNat ≠ 0 →
      (∀ length, s.bitLength = length ↔ 2 ^ (length - 1) ≤ s.toNat ∧ s.toNat < 2 ^ length) ∧
      (∀ places, 2 ^ places ∣ s.toNat ↔ places ≤ s.trailingZeroBits) ∧
      (s.shiftRight s.trailingZeroBits).toNat % 2 = 1) ∧
    (s.bitLength < 2 ^ 64 →
      s.bitLengthInWords = .ok s.bitLength ∧ s.trailingZeroBitsInWords = .ok s.trailingZeroBits) ∧
    (∀ places, (s.shiftLeft places).IsOf (s.toNat * 2 ^ places) ∧ (s.shiftRight places).IsOf (s.toNat / 2 ^ places) ∧
      (s.shiftLeft places).shiftRight places = s) ∧
    ∀ places : UInt64, Arithmetic.inWords.shiftLeft s places = .ok (s.shiftLeft places.toNat) ∧
      Arithmetic.inWords.shiftRight s places = .ok (s.shiftRight places.toNat) := by
  refine ⟨bit_eq_testBit s, fun _ => bit_of_bitLength_le h, fun hzero => ?_, fun hne => ?_, fun hfits => ?_,
    fun places => ?_, shiftsInWords_eq s⟩
  · exact ⟨bitLength_of_toNat_eq_zero h hzero, trailingZeroBits_of_toNat_eq_zero h hzero⟩
  · exact ⟨fun _ => bitLength_eq_iff h hne, fun _ => two_pow_dvd_iff h hne, odd_shiftRight_trailingZeroBits h hne⟩
  · have hzeros := Nat.lt_of_le_of_lt (trailingZeroBits_le_bitLength h) hfits
    exact ⟨bitLengthInWords_eq hfits, trailingZeroBitsInWords_eq hzeros⟩
  · exact ⟨isOf_shiftLeft h places, isOf_shiftRight s places, shiftRight_shiftLeft h places⟩

/-- Three times the sixteenth power of two. -/
theorem bits_are_exact_threeBytes :
    let s : Significand := ⟨[0, 0, 3]⟩
    s.IsCanonical ∧ s.toNat ≠ 0 ∧ s.bitLength < 2 ^ 64 ∧ 2 ^ (s.bitLength - 1) ≤ s.toNat ∧
      s.toNat < 2 ^ s.bitLength ∧ 2 ^ 16 ∣ s.toNat ∧ ¬2 ^ 17 ∣ s.toNat ∧ s.bitLengthInWords = .ok 18 ∧
      s.bit 64 = false ∧ (s.shiftLeft 9).IsOf (s.toNat * 2 ^ 9) ∧ (s.shiftLeft 9).shiftRight 9 = s ∧
      (s.shiftRight s.trailingZeroBits).toNat % 2 = 1 := by
  intro s
  have hs : s.IsCanonical := by decide
  have hne : s.toNat ≠ 0 := by decide
  have hfits : s.bitLength < 2 ^ 64 := by decide
  obtain ⟨-, hbeyond, -, hnonzero, hwords, hshifts, -⟩ := bits_are_exact hs
  obtain ⟨hlength, hdvd, hodd⟩ := hnonzero hne
  obtain ⟨hlow, hhigh⟩ := (hlength s.bitLength).1 rfl
  exact ⟨hs, hne, hfits, hlow, hhigh, (hdvd 16).2 (by decide), mt (hdvd 17).1 (by decide), (hwords hfits).1,
    hbeyond 64 (by decide), (hshifts 9).1, (hshifts 9).2.2, hodd⟩

end Significand

end ExprLang
