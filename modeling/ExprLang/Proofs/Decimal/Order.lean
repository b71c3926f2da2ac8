import ExprLang.Proofs.Decimal.Origins
import ExprLang.Proofs.Decimal.Registers
import Mathlib

/-!
# The order of magnitudes

Numbers are compared by their tops, and by significands that are shifted to one exponent if the tops are the same.  Here
this is also done with checked words (`Number.compareMagnitudeInWords`), none of which is too small.  Either way the
result is the order of the magnitudes, and two numbers of texts have one magnitude only if they are written alike
(`Number.compareMagnitude_is_order`).
-/

namespace ExprLang

/-- A number that must fit into a signed word of 64 bits. -/
def inSignedWord (z : Int) : Except Fault Int :=
  if -2 ^ 63 ≤ z ∧ z < 2 ^ 63 then .ok z else .error .overflow

private theorem inSignedWord_eq_ok {z : Int} (h : z.natAbs < 2 ^ 63) : inSignedWord z = .ok z :=
  if_pos (by omega)

/-- Sums and differences of two numbers that leave one bit of a word unused are words. -/
private theorem inSignedWord_add_and_sub {m n : Int} (hm : m.natAbs < 2 ^ 62) (hn : n.natAbs < 2 ^ 62) :
    inSignedWord (m + n) = .ok (m + n) ∧ inSignedWord (m - n) = .ok (m - n) :=
  ⟨inSignedWord_eq_ok (by omega), inSignedWord_eq_ok (by omega)⟩

/-- A computation goes on with the result of its first step. -/
theorem ok_bind {α β : Type} (result : α) (next : α → Except Fault β) : (Except.ok result >>= next) = next result :=
  rfl

/-! ### Comparing in words -/

/-- The number of binary digits, in words of 64 bits. -/
def Significand.bitLengthInWords (s : Significand) : Except Fault Nat :=
  match s.bytes.getLast? with
  | some top => do
    let below ← inWord 64 ((s.bytes.length - 1) * 8)
    inWord 64 (below + if top = 0 then 0 else top.toNat.log2 + 1)
  | none => .ok 0

theorem Significand.bitLengthInWords_eq {s : Significand} (h : s.bitLength < 2 ^ 64) :
    s.bitLengthInWords = .ok s.bitLength := by
  rw [bitLengthInWords, bitLength] at *
  cases htop : s.bytes.getLast? with
  | none => rfl
  | some top =>
    rw [htop] at h
    have hbelow : (s.bytes.length - 1) * 8 < 2 ^ 64 := lt_of_le_of_lt (Nat.le_add_right _ _) h
    show (inWord 64 _ >>= fun below => inWord 64 (below + _)) = _
    rw [inWord_eq_ok hbelow, ok_bind, inWord_eq_ok h]

/-- A shift by nothing leaves a significand as it is. -/
private theorem Significand.shiftLeft_zero {s : Significand} (h : s.IsCanonical) : s.shiftLeft 0 = s := by
  rw [← ofNat_toNat (isCanonical_shiftLeft h 0), toNat_shiftLeft, Nat.pow_zero, Nat.mul_one, ofNat_toNat h]

/-- The places that a significand is shifted by are a word. -/
private theorem Arithmetic.shiftLeft_inWords (s : Significand) {places : Nat} (h : places < 2 ^ 64) :
    inWords.shiftLeft s (.ofNat places) = .ok (s.shiftLeft places) := by
  have hagree : Agree Eq (inWords.shiftLeft s (.ofNat places)) (.ok (s.shiftLeft (UInt64.ofNat places).toNat)) :=
    inWords_agrees_significand.shiftLeft rfl _
  rw [UInt64.toNat_ofNat_of_lt' h] at hagree
  exact hagree.eq_ok

namespace Number

/-- The place above the highest binary digit, in signed words. -/
def topInWords (number : Number) : Except Fault Int := do
  let length ← number.significand.bitLengthInWords
  inSignedWord ((← inSignedWord length) + number.exponent)

/-- Compares two numbers of one top: the significand with the larger exponent is shifted to the smaller one. -/
def compareAlignedInWords (a b : Number) : Except Fault Ordering :=
  if b.exponent < a.exponent then do
    let places ← inSignedWord (a.exponent - b.exponent)
    return (← Arithmetic.inWords.shiftLeft a.significand (.ofNat places.toNat)).compare b.significand
  else if a.exponent < b.exponent then do
    let places ← inSignedWord (b.exponent - a.exponent)
    return a.significand.compare (← Arithmetic.inWords.shiftLeft b.significand (.ofNat places.toNat))
  else
    return a.significand.compare b.significand

/-- Compares the magnitudes of two numbers, in words. -/
def compareMagnitudeInWords (a b : Number) : Except Fault Ordering :=
  match a.significand.isZero, b.significand.isZero with
  | true, true => .ok .eq
  | true, false => .ok .lt
  | false, true => .ok .gt
  | false, false => do
    let top ← a.topInWords
    let other ← b.topInWords
    if top = other then a.compareAlignedInWords b else return compare top other

variable {a b c : Number}

private theorem FitsWords.topInWords_eq (h : a.FitsWords) : a.topInWords = .ok a.top := by
  have hlength : inSignedWord a.significand.bitLength = .ok (a.significand.bitLength : Int) :=
    inSignedWord_eq_ok (h.length_lt.trans (by norm_num))
  have htop := (inSignedWord_add_and_sub (m := a.significand.bitLength) h.length_lt h.exponent_lt).1
  rw [topInWords, top, Significand.bitLengthInWords_eq (h.length_lt.trans (by norm_num)), ok_bind, hlength, ok_bind,
    htop]

private theorem compareAlignedInWords_eq (ha : a.significand.IsCanonical) (hb : b.significand.IsCanonical)
    (hafits : a.FitsWords) (hbfits : b.FitsWords) : a.compareAlignedInWords b = .ok (a.compareAligned b) := by
  have hword := (inSignedWord_add_and_sub hafits.exponent_lt hbfits.exponent_lt).2
  have hword' := (inSignedWord_add_and_sub hbfits.exponent_lt hafits.exponent_lt).2
  have haexponent := hafits.exponent_lt
  have hbexponent := hbfits.exponent_lt
  rw [compareAlignedInWords, compareAligned]
  rcases Int.lt_trichotomy a.exponent b.exponent with hlt | heq | hgt
  · rw [if_neg (not_lt.2 hlt.le), if_pos hlt, hword',
      show (a.exponent - b.exponent).toNat = 0 by omega, Significand.shiftLeft_zero ha]
    rw [ok_bind, Arithmetic.shiftLeft_inWords _ (by omega)]
    rfl
  · rw [if_neg heq.not_gt, if_neg heq.not_lt, heq, Int.sub_self]
    rw [Int.toNat_zero, Significand.shiftLeft_zero ha, Significand.shiftLeft_zero hb]
    rfl
  · rw [if_pos hgt, hword, show (b.exponent - a.exponent).toNat = 0 by omega,
      Significand.shiftLeft_zero hb]
    rw [ok_bind, Arithmetic.shiftLeft_inWords _ (by omega)]
    rfl

/-- No word is too small for comparing numbers that fit into words. -/
theorem compareMagnitudeInWords_eq (ha : a.significand.IsCanonical) (hb : b.significand.IsCanonical)
    (hafits : a.FitsWords) (hbfits : b.FitsWords) : a.compareMagnitudeInWords b = .ok (a.compareMagnitude b) := by
  rw [compareMagnitudeInWords, compareMagnitude]
  cases a.significand.isZero <;> cases b.significand.isZero
  · show (a.topInWords >>= fun top => b.topInWords >>= fun other =>
      if top = other then a.compareAlignedInWords b else .ok (compare top other)) = _
    rw [hafits.topInWords_eq, hbfits.topInWords_eq, ok_bind, ok_bind]
    show (if a.top = b.top then _ else _) = Except.ok (if a.top = b.top then _ else _)
    by_cases htop : a.top = b.top
    · rw [if_pos htop, if_pos htop, compareAlignedInWords_eq ha hb hafits hbfits]
    · rw [if_neg htop, if_neg htop]
  all_goals rfl

/-! ### Magnitudes and fields -/

/-- If the tops of two numbers are the same, the one with the larger exponent is shorter by as much. -/
private theorem compareMagnitude_of_top_eq (ha : a.significand.IsCanonical) (hb : b.significand.IsCanonical)
    (hane : a.significand.toNat ≠ 0) (hbne : b.significand.toNat ≠ 0) (htop : a.top = b.top) :
    a.exponent - b.exponent = b.significand.bitLength - a.significand.bitLength ∧
      a.compareMagnitude b =
        (a.significand.shiftLeft (b.significand.bitLength - a.significand.bitLength)).compare
          (b.significand.shiftLeft (a.significand.bitLength - b.significand.bitLength)) := by
  have hdifference : a.exponent - b.exponent = b.significand.bitLength - a.significand.bitLength := by
    rw [top, top] at htop
    omega
  refine ⟨hdifference, ?_⟩
  have hazero : a.significand.isZero = false := by simpa using mt (Significand.isZero_iff ha).1 hane
  have hbzero : b.significand.isZero = false := by simpa using mt (Significand.isZero_iff hb).1 hbne
  rw [compareMagnitude, hazero, hbzero]
  show (if a.top = b.top then a.compareAligned b else _) = _
  rw [if_pos htop, compareAligned]
  congr 2 <;> omega

private theorem IsReduced.exponent_le (ha : a.IsReduced) (hane : a.significand.toNat ≠ 0)
    (h : a.magnitude = b.magnitude) : b.exponent ≤ a.exponent := by
  by_contra hless
  obtain ⟨k, hk⟩ : ∃ k : ℕ, b.exponent = a.exponent + (k + 1 : ℕ) :=
    ⟨(b.exponent - a.exponent).toNat - 1, by omega⟩
  have hpower : (2 : ℚ) ^ a.exponent ≠ 0 := zpow_ne_zero _ two_ne_zero
  rw [magnitude, magnitude, hk, zpow_add₀ two_ne_zero, mul_comm ((2 : ℚ) ^ a.exponent), ← mul_assoc,
    zpow_natCast] at h
  have hnat : a.significand.toNat = b.significand.toNat * 2 ^ (k + 1) := by
    exact_mod_cast mul_right_cancel₀ hpower h
  have hodd := ha.odd hane
  rw [pow_succ, ← mul_assoc] at hnat
  omega

/-- Reduced numbers of one magnitude have the same fields. -/
private theorem IsReduced.magnitude_eq_iff (ha : a.IsReduced) (hb : b.IsReduced) :
    a.magnitude = b.magnitude ↔ a.significand = b.significand ∧ a.exponent = b.exponent := by
  constructor
  · intro h
    have hfields : a.significand.toNat = b.significand.toNat ∧ a.exponent = b.exponent := by
      by_cases hane : a.significand.toNat = 0
      · have hbne : b.significand.toNat = 0 := by
          rwa [← magnitude_eq_zero_iff, ← h, magnitude_eq_zero_iff]
        exact ⟨hane.trans hbne.symm, (ha.zero hane).trans (hb.zero hbne).symm⟩
      · have hbne : b.significand.toNat ≠ 0 := by
          rwa [Ne, ← magnitude_eq_zero_iff, ← h, magnitude_eq_zero_iff]
        have hexponent := le_antisymm (hb.exponent_le hbne h.symm) (ha.exponent_le hane h)
        have hpower : (2 : ℚ) ^ b.exponent ≠ 0 := zpow_ne_zero _ two_ne_zero
        rw [magnitude, magnitude, hexponent] at h
        exact ⟨by exact_mod_cast mul_right_cancel₀ hpower h, hexponent⟩
    refine ⟨?_, hfields.2⟩
    rw [← Significand.ofNat_toNat ha.canonical, hfields.1, Significand.ofNat_toNat hb.canonical]
  · rintro ⟨hsignificand, hexponent⟩
    rw [magnitude, magnitude, hsignificand, hexponent]

/-- Comparing is the order of the magnitudes, in whatever form numbers are.  Where significands are shifted, it is by
the difference of their lengths.  Numbers of texts are equal in this order only if their fields are. -/
theorem compareMagnitude_is_order (ha : a.IsObtained) (hb : b.IsObtained) (hc : c.IsObtained) :
    a.compareMagnitudeInWords b = .ok (a.compareMagnitude b) ∧
    a.compareMagnitude b = compare a.magnitude b.magnitude ∧
    (a.significand.toNat ≠ 0 → b.significand.toNat ≠ 0 → a.top = b.top →
      a.exponent - b.exponent = b.significand.bitLength - a.significand.bitLength ∧
      a.compareMagnitude b =
        (a.significand.shiftLeft (b.significand.bitLength - a.significand.bitLength)).compare
          (b.significand.shiftLeft (a.significand.bitLength - b.significand.bitLength))) ∧
    b.compareMagnitude a = (a.compareMagnitude b).swap ∧
    ((a.compareMagnitude b).isLE → (b.compareMagnitude c).isLE → (a.compareMagnitude c).isLE) ∧
    ∀ text other, ofText text = .ok a → ofText other = .ok b →
      (a.compareMagnitude b = .eq ↔ a.significand = b.significand ∧ a.exponent = b.exponent) := by
  have hab := compareMagnitude_eq_compare ha.isCanonical hb.isCanonical
  refine ⟨compareMagnitudeInWords_eq ha.isCanonical hb.isCanonical ha.fitsWords hb.fitsWords, hab,
    compareMagnitude_of_top_eq ha.isCanonical hb.isCanonical, ?_, ?_, ?_⟩
  · rw [hab, compareMagnitude_eq_compare hb.isCanonical ha.isCanonical]
    exact Std.OrientedCmp.eq_swap
  · rw [hab, compareMagnitude_eq_compare hb.isCanonical hc.isCanonical,
      compareMagnitude_eq_compare ha.isCanonical hc.isCanonical]
    exact Std.TransCmp.isLE_trans
  · intro text other htext hother
    rw [hab, compare_eq_iff_eq]
    exact (isReduced_of_ofText htext).1.magnitude_eq_iff (isReduced_of_ofText hother).1

/-- Ten is five times two and twelve is three times four where they are read, and twelve of a word is written out. -/
theorem compareMagnitude_is_order_ten_twelve :
    ∃ ten twelve, ofText ['1', 'e', '1'] = .ok ten ∧ ofText ['1', '2'] = .ok twelve ∧
      ten.IsObtained ∧ twelve.IsObtained ∧ (ofNat 12).IsObtained ∧
      ten.exponent - twelve.exponent = twelve.significand.bitLength - ten.significand.bitLength ∧
      (ten.compareMagnitude (.ofNat 12)).isLE ∧ ten.compareMagnitude twelve ≠ .eq := by
  have hten : ofText ['1', 'e', '1'] = .ok ⟨⟨[5]⟩, 1, false, .normal⟩ := by cbv
  have htwelve : ofText ['1', '2'] = .ok ⟨⟨[3]⟩, 2, false, .normal⟩ := by cbv
  have hobtained := IsObtained.ofText hten
  have hobtained' := IsObtained.ofText htwelve
  have hword : (ofNat 12).IsObtained := .ofWord 12
  refine ⟨_, _, hten, htwelve, hobtained, hobtained', hword, ?_⟩
  obtain ⟨-, -, haligned, -, htrans, htexts⟩ := compareMagnitude_is_order hobtained hobtained' hword
  refine ⟨(haligned (by decide) (by decide) (by decide)).1, htrans (by cbv) (by cbv), ?_⟩
  rw [Ne, htexts _ _ hten htwelve]
  decide

end Number

end ExprLang
