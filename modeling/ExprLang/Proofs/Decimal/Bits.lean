import ExprLang.Decimal.Significand
import Mathlib.Data.Nat.Bitwise
import Mathlib.Data.Nat.Size
import Mathlib.Tactic.ByContra
import Mathlib.Tactic.Ring

/-!
# Bits of significands

A canonical significand is determined by its number: `ofNat` and `toNat` are inverse to each other.  Its length
in bits is the size of the number, its bits are the bits of the number, and moving the bits multiplies or
divides by a power of two.  Comparing canonical significands compares their numbers.
-/

namespace ExprLang

/-! ### Bytes -/

theorem bytesValue_append (low high : List UInt8) :
    bytesValue (low ++ high) = bytesValue low + 256 ^ low.length * bytesValue high := by
  induction low with
  | nil => simp [bytesValue]
  | cons b low ih =>
    rw [List.cons_append, bytesValue, bytesValue, ih, List.length_cons, Nat.pow_succ']
    rw [Nat.mul_add, Nat.mul_assoc, Nat.add_assoc]

theorem bytesValue_lt (bytes : List UInt8) : bytesValue bytes < 256 ^ bytes.length := by
  induction bytes with
  | nil => simp [bytesValue]
  | cons b bytes ih =>
    have := b.toNat_lt
    rw [bytesValue, List.length_cons, Nat.pow_succ']
    omega

@[simp] theorem bytesValue_replicate_zero (count : Nat) : bytesValue (List.replicate count 0) = 0 := by
  induction count with
  | zero => rfl
  | succ count ih => rw [List.replicate_succ, bytesValue, ih]; rfl

private theorem bytesValue_drop (bytes : List UInt8) (count : Nat) :
    bytesValue (bytes.drop count) = bytesValue bytes / 256 ^ count := by
  induction bytes generalizing count with
  | nil => simp [bytesValue]
  | cons b bytes ih =>
    cases count with
    | zero => simp
    | succ count =>
      have := b.toNat_lt
      rw [List.drop_succ_cons, ih, bytesValue, Nat.pow_succ', ← Nat.div_div_eq_div_mul,
        show (b.toNat + 256 * bytesValue bytes) / 256 = bytesValue bytes by omega]

/-- Bytes whose most significant one is not zero. -/
private theorem exists_top {bytes : List UInt8} (h : bytes.getLast? ≠ some 0) (hne : bytes ≠ []) :
    ∃ low top, bytes = low ++ [top] ∧ 0 < top.toNat := by
  refine ⟨bytes.dropLast, bytes.getLast hne, (List.dropLast_concat_getLast hne).symm, ?_⟩
  refine Nat.pos_of_ne_zero fun hzero => h ?_
  rw [List.getLast?_eq_some_getLast hne, UInt8.toNat_inj.1 (hzero.trans UInt8.toNat_zero.symm)]

theorem le_bytesValue {bytes : List UInt8} (h : bytes.getLast? ≠ some 0) (hne : bytes ≠ []) :
    256 ^ (bytes.length - 1) ≤ bytesValue bytes := by
  obtain ⟨low, top, rfl, htop⟩ := exists_top h hne
  have := Nat.le_mul_of_pos_right (256 ^ low.length) htop
  rw [bytesValue_append, bytesValue, bytesValue, Nat.mul_zero, Nat.add_zero, List.length_append,
    List.length_singleton, Nat.add_sub_cancel]
  omega

theorem bytesValue_pos {bytes : List UInt8} (h : bytes.getLast? ≠ some 0) (hne : bytes ≠ []) :
    0 < bytesValue bytes :=
  Nat.lt_of_lt_of_le (Nat.pow_pos (by decide)) (le_bytesValue h hne)

private theorem getLast?_cons_of_ne_nil (b : UInt8) {bytes : List UInt8} (h : bytes ≠ []) :
    (b :: bytes).getLast? = bytes.getLast? := by
  cases bytes with
  | nil => exact absurd rfl h
  | cons c bytes => rw [List.getLast?_cons_cons]

theorem getLast?_bytesOf (n : Nat) : (bytesOf n).getLast? ≠ some 0 := by
  fun_induction bytesOf n with
  | case1 => simp
  | case2 n hn ih =>
    by_cases hrest : n / 256 = 0
    · rw [hrest, bytesOf, if_pos rfl, List.getLast?_singleton]
      intro h
      have := congrArg UInt8.toNat (Option.some.inj h)
      rw [UInt8.toNat_ofNat', UInt8.toNat_zero] at this
      omega
    · rw [getLast?_cons_of_ne_nil]
      · exact ih
      · rw [bytesOf, if_neg hrest]
        exact List.cons_ne_nil _ _

theorem getLast?_trimBytes (bytes : List UInt8) : (trimBytes bytes).getLast? ≠ some 0 := by
  fun_induction trimBytes bytes with
  | case1 => simp
  | case2 => simp
  | case3 b bytes _ hb => simpa using hb
  | case4 b bytes hkept ih =>
    rw [getLast?_cons_of_ne_nil b hkept]
    exact ih

/-- Scaling by a positive number keeps the most significant byte from being zero. -/
private theorem getLast?_scaleBytes {factor : Nat} (hfactor : 0 < factor) {bytes : List UInt8}
    (h : bytes.getLast? ≠ some 0) (carry : Nat) : (scaleBytes factor bytes carry).getLast? ≠ some 0 := by
  fun_induction scaleBytes factor bytes carry with
  | case1 carry => exact getLast?_bytesOf carry
  | case2 b bytes carry ih =>
    by_cases hnil : scaleBytes factor bytes ((b.toNat * factor + carry) / 256) = []
    · have hvalue := bytesValue_scaleBytes factor bytes ((b.toNat * factor + carry) / 256)
      rw [hnil, bytesValue] at hvalue
      have hbytes : bytes = [] := by
        by_contra hne
        have hpos := bytesValue_pos (by rwa [getLast?_cons_of_ne_nil b hne] at h) hne
        have := Nat.mul_pos hpos hfactor
        omega
      subst hbytes
      have hb : 0 < b.toNat := by
        refine Nat.pos_of_ne_zero fun hzero => h ?_
        rw [List.getLast?_singleton, UInt8.toNat_inj.1 (hzero.trans UInt8.toNat_zero.symm)]
      rw [hnil, List.getLast?_singleton]
      intro hzero
      have hzero := congrArg UInt8.toNat (Option.some.inj hzero)
      rw [UInt8.toNat_ofNat', UInt8.toNat_zero] at hzero
      have := Nat.mul_pos hb hfactor
      omega
    · rw [getLast?_cons_of_ne_nil _ hnil]
      refine ih fun hlast => h ?_
      rwa [getLast?_cons_of_ne_nil]
      rintro rfl
      simp at hlast

/-- Bytes without a most significant zero are determined by their number. -/
theorem bytesOf_bytesValue {bytes : List UInt8} (h : bytes.getLast? ≠ some 0) :
    bytesOf (bytesValue bytes) = bytes := by
  induction bytes with
  | nil => simp [bytesValue, bytesOf]
  | cons b bytes ih =>
    have hlt := b.toNat_lt
    have hpos := bytesValue_pos h (List.cons_ne_nil _ _)
    have htail : bytes.getLast? ≠ some 0 := by
      intro hz
      refine h ?_
      rwa [getLast?_cons_of_ne_nil]
      rintro rfl
      simp at hz
    rw [bytesOf, if_neg (by omega), bytesValue, show (b.toNat + 256 * bytesValue bytes) / 256 = bytesValue bytes
      by omega, ih htail]
    congr 1
    apply UInt8.toNat_inj.1
    rw [UInt8.toNat_ofNat']
    omega

private theorem bytesValue_lowerBytes {places : Nat} (hplaces : places ≤ 8) (bytes : List UInt8) :
    bytesValue (lowerBytes places bytes) = bytesValue bytes / 2 ^ places := by
  have hsplit : (256 : Nat) = 2 ^ places * 2 ^ (8 - places) := by
    rw [← Nat.pow_add, show places + (8 - places) = 8 by omega]
  have hpos := Nat.two_pow_pos places
  fun_induction lowerBytes places bytes with
  | case1 => simp [bytesValue]
  | case2 b =>
    have hlt := b.toNat_lt
    have hle := Nat.div_le_self b.toNat (2 ^ places)
    rw [bytesValue, bytesValue, bytesValue, bytesValue, UInt8.toNat_ofNat']
    simp only [Nat.mul_zero, Nat.add_zero]
    exact Nat.mod_eq_of_lt (by omega)
  | case3 b next bytes ih =>
    have hlt := b.toNat_lt
    rw [bytesValue, ih, UInt8.toNat_ofNat', bytesValue, bytesValue]
    -- the bits of all bytes above `next` come in whole multiples of the byte that is kept
    generalize hr : bytesValue bytes = r
    have hlow : (b.toNat + 256 * next.toNat) / 2 ^ places % 2 ^ 8
        = (b.toNat + 256 * (next.toNat + 256 * r)) / 2 ^ places % 2 ^ 8 := by
      rw [show b.toNat + 256 * (next.toNat + 256 * r)
          = b.toNat + 256 * next.toNat + 2 ^ places * (2 ^ (8 - places) * (256 * r)) by
        rw [← Nat.mul_assoc, ← hsplit]; ring, Nat.add_mul_div_left _ _ hpos]
      rw [show 2 ^ (8 - places) * (256 * r) = 2 ^ 8 * (2 ^ (8 - places) * r) by ring, Nat.add_mul_mod_self_left]
    have hhigh : (next.toNat + 256 * r) / 2 ^ places
        = (b.toNat + 256 * (next.toNat + 256 * r)) / 2 ^ places / 2 ^ 8 := by
      rw [Nat.div_div_eq_div_mul, Nat.mul_comm (2 ^ places), ← Nat.div_div_eq_div_mul]
      congr 1
      omega
    rw [hlow, hhigh, bytesValue, hr]
    exact Nat.mod_add_div _ _

private theorem testBit_bytesValue (bytes : List UInt8) (index : Nat) :
    (bytes[index / 8]?.any fun b => b.toNat.testBit (index % 8)) = (bytesValue bytes).testBit index := by
  induction bytes generalizing index with
  | nil => simp [bytesValue]
  | cons b bytes ih =>
    rw [bytesValue, Nat.add_comm, show (256 : Nat) = 2 ^ 8 from rfl,
      Nat.testBit_two_pow_mul_add _ b.toNat_lt index]
    split
    · rename_i hlt
      rw [Nat.div_eq_of_lt hlt, Nat.mod_eq_of_lt hlt]
      rfl
    · rename_i hge
      rw [← ih, show index / 8 = (index - 8) / 8 + 1 by omega, show index % 8 = (index - 8) % 8 by omega,
        List.getElem?_cons_succ]

/-- The digit of the higher weight decides, unless it is the same in both numbers. -/
private theorem compare_add_mul {a b : Nat} (ha : a < 256) (hb : b < 256) (x y : Nat) :
    compare (a + 256 * x) (b + 256 * y) = (compare x y).then (compare a b) := by
  rcases Nat.lt_trichotomy x y with hlt | rfl | hgt
  · rw [Nat.compare_eq_lt.2 hlt, Ordering.lt_then, Nat.compare_eq_lt]
    omega
  · rw [Nat.compare_eq_eq.2 rfl, Ordering.eq_then]
    rcases Nat.lt_trichotomy a b with hlt | rfl | hgt
    · rw [Nat.compare_eq_lt.2 hlt, Nat.compare_eq_lt]
      omega
    · rw [Nat.compare_eq_eq.2 rfl, Nat.compare_eq_eq.2 rfl]
    · rw [Nat.compare_eq_gt.2 hgt, Nat.compare_eq_gt]
      omega
  · rw [Nat.compare_eq_gt.2 hgt, Ordering.gt_then, Nat.compare_eq_gt]
    omega

/-- Of two byte lists of one length the comparison is that of their numbers. -/
private theorem compareBytes_eq_compare {as bs : List UInt8} (h : as.length = bs.length) :
    compareBytes as bs = compare (bytesValue as) (bytesValue bs) := by
  induction as generalizing bs with
  | nil =>
    obtain rfl := List.length_eq_zero_iff.1 h.symm
    simp [compareBytes, bytesValue]
  | cons a as ih =>
    cases bs with
    | nil => simp at h
    | cons b bs =>
      rw [compareBytes, ih (by simpa using h), bytesValue, bytesValue, compare_add_mul a.toNat_lt b.toNat_lt]

namespace Significand

/-! ### Canonical significands -/

@[simp] theorem toNat_ofNat (n : Nat) : (ofNat n).toNat = n :=
  bytesValue_bytesOf n

theorem isCanonical_ofNat (n : Nat) : (ofNat n).IsCanonical :=
  getLast?_bytesOf n

theorem ofNat_toNat {s : Significand} (h : s.IsCanonical) : ofNat s.toNat = s :=
  congrArg Significand.mk (bytesOf_bytesValue h)

theorem isZero_iff {s : Significand} (h : s.IsCanonical) : s.isZero = true ↔ s.toNat = 0 := by
  rw [isZero, List.isEmpty_iff]
  constructor
  · intro hnil
    rw [toNat, hnil]
    rfl
  · intro hzero
    by_contra hne
    have := bytesValue_pos h hne
    rw [toNat] at hzero
    omega

/-! ### Single bits and the number of bits -/

theorem bit_eq_testBit (s : Significand) (index : Nat) : s.bit index = s.toNat.testBit index :=
  testBit_bytesValue s.bytes index

theorem bitLength_eq_size {s : Significand} (h : s.IsCanonical) : s.bitLength = s.toNat.size := by
  by_cases hnil : s.bytes = []
  · rw [bitLength, toNat, hnil]
    rfl
  · obtain ⟨low, top, hbytes, htop⟩ := exists_top h hnil
    have hlast : s.bytes.getLast? = some top := by rw [hbytes, List.getLast?_concat]
    have hne : top ≠ 0 := by
      rintro rfl
      exact absurd htop (by decide)
    have hvalue : s.toNat = bytesValue low + 2 ^ (8 * low.length) * top.toNat := by
      rw [toNat, hbytes, bytesValue_append, bytesValue, bytesValue, Nat.pow_mul]
      rfl
    have hlow : bytesValue low < 2 ^ (8 * low.length) := by
      rw [Nat.pow_mul]
      exact bytesValue_lt low
    have hlength : s.bitLength = 8 * low.length + top.toNat.log2 + 1 := by
      rw [bitLength, hlast, hbytes]
      simp [hne]
      omega
    have hlo := Nat.log2_self_le htop.ne'
    have hhi := Nat.lt_log2_self (n := top.toNat)
    rw [hlength]
    refine Nat.le_antisymm ?_ ?_
    · rw [Nat.succ_le_iff, Nat.lt_size, hvalue, Nat.pow_add]
      have := Nat.mul_le_mul_left (2 ^ (8 * low.length)) hlo
      omega
    · rw [Nat.size_le, hvalue, Nat.add_assoc, Nat.pow_add]
      have := Nat.mul_le_mul_left (2 ^ (8 * low.length)) (Nat.succ_le_of_lt hhi)
      rw [Nat.mul_succ] at this
      omega

theorem two_pow_le_toNat {s : Significand} (h : s.IsCanonical) (hne : s.toNat ≠ 0) :
    2 ^ (s.bitLength - 1) ≤ s.toNat := by
  have := Nat.size_pos.2 (Nat.pos_of_ne_zero hne)
  rw [bitLength_eq_size h, ← Nat.lt_size]
  omega

theorem toNat_lt_two_pow {s : Significand} (h : s.IsCanonical) : s.toNat < 2 ^ s.bitLength := by
  rw [bitLength_eq_size h]
  exact Nat.lt_size_self _

/-! ### Order -/

private theorem toNat_lt_of_length_lt {a b : Significand} (hb : b.IsCanonical)
    (h : a.bytes.length < b.bytes.length) : a.toNat < b.toNat := by
  have hne : b.bytes ≠ [] := by
    intro hnil
    rw [hnil] at h
    simp at h
  calc a.toNat < 256 ^ a.bytes.length := bytesValue_lt _
    _ ≤ 256 ^ (b.bytes.length - 1) := Nat.pow_le_pow_right (by decide) (by omega)
    _ ≤ b.toNat := le_bytesValue hb hne

/-- Comparing canonical significands compares their numbers. -/
theorem compare_eq_compare {a b : Significand} (ha : a.IsCanonical) (hb : b.IsCanonical) :
    a.compare b = Ord.compare a.toNat b.toNat := by
  rw [compare]
  rcases Nat.lt_trichotomy a.bytes.length b.bytes.length with hlt | heq | hgt
  · rw [Nat.compare_eq_lt.2 hlt, Nat.compare_eq_lt.2 (toNat_lt_of_length_lt hb hlt), Ordering.lt_then]
  · rw [Nat.compare_eq_eq.2 heq, Ordering.eq_then]
    exact compareBytes_eq_compare heq
  · rw [Nat.compare_eq_gt.2 hgt, Nat.compare_eq_gt.2 (toNat_lt_of_length_lt ha hgt), Ordering.gt_then]

/-! ### Moving bits -/

@[simp] theorem toNat_shiftLeft (s : Significand) (places : Nat) :
    (s.shiftLeft places).toNat = s.toNat * 2 ^ places := by
  rw [shiftLeft]
  split
  · rename_i hzero
    have hnil := List.isEmpty_iff.1 hzero
    rw [toNat, hnil]
    simp [bytesValue]
  · rw [toNat, bytesValue_append, bytesValue_replicate_zero, bytesValue_scaleBytes, List.length_replicate,
      Nat.zero_add, Nat.add_zero, show (256 : Nat) = 2 ^ 8 from rfl, ← Nat.pow_mul, Nat.mul_left_comm,
      ← Nat.pow_add, Nat.div_add_mod]
    rfl

theorem isCanonical_shiftLeft {s : Significand} (h : s.IsCanonical) (places : Nat) :
    (s.shiftLeft places).IsCanonical := by
  rw [shiftLeft]
  split
  · exact h
  · rename_i hzero
    have hne : s.bytes ≠ [] := fun hnil => hzero (List.isEmpty_iff.2 hnil)
    have hscaled := getLast?_scaleBytes (Nat.two_pow_pos (places % 8)) h 0
    have hcons : scaleBytes (2 ^ (places % 8)) s.bytes 0 ≠ [] := by
      intro hnil
      have hvalue := bytesValue_scaleBytes (2 ^ (places % 8)) s.bytes 0
      rw [hnil, bytesValue] at hvalue
      have := Nat.mul_pos (bytesValue_pos h hne) (Nat.two_pow_pos (places % 8))
      omega
    rw [List.getLast?_eq_some_getLast hcons] at hscaled
    rwa [IsCanonical, List.getLast?_append, List.getLast?_eq_some_getLast hcons, Option.some_or]

@[simp] theorem toNat_shiftRight (s : Significand) (places : Nat) :
    (s.shiftRight places).toNat = s.toNat / 2 ^ places := by
  rw [shiftRight, toNat, bytesValue_trimBytes, bytesValue_lowerBytes (by omega), bytesValue_drop,
    Nat.div_div_eq_div_mul, show (256 : Nat) = 2 ^ 8 from rfl, ← Nat.pow_mul, ← Nat.pow_add, Nat.div_add_mod]
  rfl

theorem isCanonical_shiftRight (s : Significand) (places : Nat) : (s.shiftRight places).IsCanonical :=
  getLast?_trimBytes _

/-! ### The lowest bit that is set -/

private theorem takeWhile_spec {α : Type} (p : α → Bool) (l : List α) :
    (∀ i a, i < (l.takeWhile p).length → l[i]? = some a → p a = true) ∧
      ∀ a, l[(l.takeWhile p).length]? = some a → p a = false := by
  induction l with
  | nil => simp
  | cons b l ih =>
    by_cases hb : p b = true
    · rw [List.takeWhile_cons_of_pos hb, List.length_cons]
      refine ⟨fun i a hi ha => ?_, fun a ha => ih.2 a (by simpa using ha)⟩
      cases i with
      | zero => simp_all
      | succ i => exact ih.1 i a (by omega) (by simpa using ha)
    · rw [List.takeWhile_cons_of_neg hb]
      refine ⟨fun i a hi => absurd hi (by simp), fun a ha => ?_⟩
      simp_all

private theorem lowestBit_lt {b : UInt8} (hb : b ≠ 0) :
    ((List.range 8).takeWhile (!b.toNat.testBit ·)).length < 8 := by
  by_contra hge
  refine hb (UInt8.toNat_inj.1 ?_)
  rw [UInt8.toNat_zero]
  apply Nat.zero_of_testBit_eq_false
  intro i
  by_cases hi : i < 8
  · have := (takeWhile_spec (!b.toNat.testBit ·) (List.range 8)).1 i i (by omega) (List.getElem?_range hi)
    simpa using this
  · exact Nat.testBit_lt_two_pow (Nat.lt_of_lt_of_le b.toNat_lt (Nat.pow_le_pow_right (by decide) (by omega)))

theorem testBit_trailingZeroBits {s : Significand} (h : s.IsCanonical) (hne : s.toNat ≠ 0) :
    s.toNat.testBit s.trailingZeroBits = true ∧ ∀ i < s.trailingZeroBits, s.toNat.testBit i = false := by
  have hwhole := takeWhile_spec (· = 0) s.bytes
  obtain ⟨b, hb⟩ : ∃ b, s.bytes[(s.bytes.takeWhile (· = 0)).length]? = some b := by
    by_contra hnone
    have hlast : s.bytes ≠ [] := fun hnil => hne (by rw [toNat, hnil]; rfl)
    have hlen : s.bytes.length ≤ (s.bytes.takeWhile (· = 0)).length := by
      rw [← List.getElem?_eq_none_iff]
      exact Option.eq_none_iff_forall_ne_some.2 fun b hb => hnone ⟨b, hb⟩
    have htop : s.bytes[s.bytes.length - 1]? = some (s.bytes.getLast hlast) := by
      rw [← List.getLast?_eq_getElem?, List.getLast?_eq_some_getLast]
    have hpos := List.length_pos_iff.2 hlast
    have hzero := hwhole.1 _ _ (by omega) htop
    refine h ?_
    rw [List.getLast?_eq_some_getLast hlast]
    simpa using hzero
  have hb0 : b ≠ 0 := by simpa using hwhole.2 b hb
  have hlow := takeWhile_spec (!b.toNat.testBit ·) (List.range 8)
  have hlt := lowestBit_lt hb0
  have hcount : s.trailingZeroBits = (s.bytes.takeWhile (· = 0)).length * 8
      + ((List.range 8).takeWhile (!b.toNat.testBit ·)).length := by
    rw [trailingZeroBits]
    simp only [hb]
  rw [hcount]
  generalize ((List.range 8).takeWhile (!b.toNat.testBit ·)).length = low at *
  generalize (s.bytes.takeWhile (· = 0)).length = whole at *
  constructor
  · rw [← bit_eq_testBit, bit, show (whole * 8 + low) / 8 = whole by omega,
      show (whole * 8 + low) % 8 = low by omega, hb]
    simpa using hlow.2 low (List.getElem?_range hlt)
  · intro i hi
    rw [← bit_eq_testBit, bit]
    by_cases hi8 : i / 8 < whole
    · have hlength : i / 8 < s.bytes.length := by
        have := (List.getElem?_eq_some_iff.1 hb).1
        omega
      have hzero := hwhole.1 _ _ hi8 (List.getElem?_eq_getElem hlength)
      rw [List.getElem?_eq_getElem hlength, of_decide_eq_true hzero]
      simp
    · rw [show i / 8 = whole by omega, hb]
      simpa using hlow.1 (i % 8) (i % 8) (by omega) (List.getElem?_range (by omega))

/-- The bits below the lowest one that is set are all zero. -/
theorem two_pow_trailingZeroBits_dvd {s : Significand} (h : s.IsCanonical) (hne : s.toNat ≠ 0) :
    2 ^ s.trailingZeroBits ∣ s.toNat := by
  rw [Nat.dvd_iff_mod_eq_zero]
  apply Nat.zero_of_testBit_eq_false
  intro i
  rw [Nat.testBit_mod_two_pow]
  by_cases hi : i < s.trailingZeroBits
  · rw [(testBit_trailingZeroBits h hne).2 i hi, Bool.and_false]
  · simp [hi]

theorem odd_shiftRight_trailingZeroBits {s : Significand} (h : s.IsCanonical) (hne : s.toNat ≠ 0) :
    (s.shiftRight s.trailingZeroBits).toNat % 2 = 1 := by
  have hbit := (testBit_trailingZeroBits h hne).1
  rw [Nat.testBit_eq_decide_div_mod_eq] at hbit
  rw [toNat_shiftRight]
  exact of_decide_eq_true hbit

end Significand

end ExprLang
