import ExprLang.Proofs.Decimal.Bits
import Mathlib.Data.Nat.ModEq

/-!
# Arithmetic in words

The loops over the bytes of a significand keep their sums in words of a fixed width: sums of bytes in 16 bits, the
carry of a small addend and the cells of a product in 64, products and remainders with small numbers in 128, shifted
bytes in 16.  Here the loops are written with checked words and, for products, with one row added to the bytes of the
product after the other.  No sum is too large for its word and no place lies outside the product, so the loops come to
what the operations on significands are (`addInWords_eq`, `addSmallInWords_eq`, `multiplyInWords_eq`,
`multiplySmallInWords_eq`, `divideInWords_eq`, `modulusInWords_eq`, `raiseInWords_eq`, `lowerInWords_eq`).
-/

namespace ExprLang

/-- A number that must fit into a word with the given number of bits. -/
def inWord (width n : Nat) : Except Fault Nat :=
  if n < 2 ^ width then .ok n else .error .overflow

theorem inWord_eq_ok {width n : Nat} (h : n < 2 ^ width) : inWord width n = .ok n :=
  if_pos h

/-! ### Bytes in canonical form -/

private theorem getLast?_cons_ne {b : UInt8} {bytes : List UInt8} (h : bytes.getLast? ≠ some 0)
    (hb : bytes = [] → b ≠ 0) :
    (b :: bytes).getLast? ≠ some 0 := by
  cases bytes with
  | nil =>
    rw [List.getLast?_singleton]
    exact fun heq => hb rfl (Option.some.inj heq)
  | cons c bytes =>
    rwa [List.getLast?_cons_cons]

private theorem getLast?_of_cons {b : UInt8} {bytes : List UInt8} (h : (b :: bytes).getLast? ≠ some 0) :
    bytes.getLast? ≠ some 0 := by
  cases bytes with
  | nil => simp
  | cons c bytes => rwa [List.getLast?_cons_cons] at h

/-- Canonical bytes with the number zero are none. -/
theorem eq_nil_of_bytesValue_eq_zero {bytes : List UInt8} (h : bytes.getLast? ≠ some 0) (hzero : bytesValue bytes = 0) :
    bytes = [] := by
  by_contra hne
  have := bytesValue_pos h hne
  omega

/-- Canonical bytes with one number are the same. -/
private theorem eq_of_bytesValue_eq {as bs : List UInt8} (ha : as.getLast? ≠ some 0) (hb : bs.getLast? ≠ some 0)
    (h : bytesValue as = bytesValue bs) : as = bs := by
  rw [← bytesOf_bytesValue ha, h, bytesOf_bytesValue hb]

private theorem trimBytes_eq_of_bytesValue_eq {as bs : List UInt8} (h : bytesValue as = bytesValue bs) :
    trimBytes as = trimBytes bs :=
  eq_of_bytesValue_eq (getLast?_trimBytes as) (getLast?_trimBytes bs) (by simp [h])

private theorem ofNat_ne_zero {n : Nat} (hpos : 0 < n) (hlt : n < 256) : UInt8.ofNat n ≠ 0 := by
  intro h
  have := congrArg UInt8.toNat h
  rw [UInt8.toNat_ofNat', UInt8.toNat_zero] at this
  omega

private theorem toNat_pos_of_getLast?_singleton {b : UInt8} (h : [b].getLast? ≠ some 0) : 0 < b.toNat := by
  refine Nat.pos_of_ne_zero fun hzero => h ?_
  rw [List.getLast?_singleton, UInt8.toNat_inj.1 (hzero.trans UInt8.toNat_zero.symm)]

theorem getLast?_absorb {bytes : List UInt8} (h : bytes.getLast? ≠ some 0) (carry : Nat) :
    (absorb bytes carry).getLast? ≠ some 0 := by
  fun_induction absorb bytes carry with
  | case1 carry => exact getLast?_bytesOf carry
  | case2 => exact h
  | case3 b bytes carry hcarry ih =>
    have hrest := ih (getLast?_of_cons h)
    refine getLast?_cons_ne hrest fun hnil => ?_
    -- Nothing is carried on, so the sum is in this byte.
    have hvalue := bytesValue_absorb bytes ((b.toNat + carry) / 256)
    rw [hnil, bytesValue] at hvalue
    exact ofNat_ne_zero (by omega) (by omega)

theorem getLast?_addBytes {as bs : List UInt8} (ha : as.getLast? ≠ some 0) (hb : bs.getLast? ≠ some 0) (carry : Nat) :
    (addBytes as bs carry).getLast? ≠ some 0 := by
  fun_induction addBytes as bs carry with
  | case1 bs carry => exact getLast?_absorb hb carry
  | case2 as carry => exact getLast?_absorb ha carry
  | case3 a as b bs carry ih =>
    have hrest := ih (getLast?_of_cons ha) (getLast?_of_cons hb)
    refine getLast?_cons_ne hrest fun hnil => ?_
    have hvalue := bytesValue_addBytes as bs ((a.toNat + b.toNat + carry) / 256)
    rw [hnil, bytesValue] at hvalue
    obtain rfl := eq_nil_of_bytesValue_eq_zero (getLast?_of_cons ha) (by omega)
    have := toNat_pos_of_getLast?_singleton ha
    exact ofNat_ne_zero (by omega) (by omega)

/-! ### Sums -/

/-- Adds bytes and a carry to bytes, in words of 16 bits.  Bytes that are missing in the first summand are zero; past
the second one the loop ends as soon as nothing is carried. -/
def addInWords : List UInt8 → List UInt8 → Nat → Except Fault (List UInt8)
  | [], [], carry => .ok (if carry = 0 then [] else [UInt8.ofNat carry])
  | a :: as, [], carry => do
    let sum ← inWord 16 (a.toNat + carry)
    if sum / 256 = 0 then
      return UInt8.ofNat sum :: as
    else
      return UInt8.ofNat sum :: (← addInWords as [] (sum / 256))
  | [], b :: bs, carry => do
    let sum ← inWord 16 (b.toNat + carry)
    return UInt8.ofNat sum :: (← addInWords [] bs (sum / 256))
  | a :: as, b :: bs, carry => do
    let sum ← inWord 16 (a.toNat + b.toNat + carry)
    return UInt8.ofNat sum :: (← addInWords as bs (sum / 256))

private theorem absorb_zero (bytes : List UInt8) : absorb bytes 0 = bytes := by
  cases bytes with
  | nil => rw [absorb, bytesOf, if_pos rfl]
  | cons b bytes => rw [absorb, if_pos rfl]

private theorem absorb_cons (b : UInt8) (bytes : List UInt8) (carry : Nat) :
    absorb (b :: bytes) carry = UInt8.ofNat (b.toNat + carry) :: absorb bytes ((b.toNat + carry) / 256) := by
  rw [absorb]
  split
  · rename_i hzero
    have hlt := b.toNat_lt
    rw [hzero, Nat.add_zero, Nat.div_eq_of_lt hlt, absorb_zero, UInt8.ofNat_toNat]
  · rfl

private theorem bytesOf_of_le_one {carry : Nat} (h : carry ≤ 1) :
    bytesOf carry = if carry = 0 then [] else [UInt8.ofNat carry] := by
  rw [bytesOf, Nat.div_eq_of_lt (by omega), bytesOf, if_pos rfl]

private theorem addBytes_nil (bytes : List UInt8) (carry : Nat) : addBytes bytes [] carry = absorb bytes carry := by
  cases bytes <;> simp [addBytes]

/-- No sum of two bytes and a carry of at most one is too large. -/
theorem addInWords_eq (as bs : List UInt8) {carry : Nat} (h : carry ≤ 1) :
    addInWords as bs carry = .ok (addBytes as bs carry) := by
  fun_induction addInWords as bs carry with
  | case1 carry => rw [addBytes, absorb, bytesOf_of_le_one h]
  | case2 a as carry ih =>
    have hlt := a.toNat_lt
    have hrest := ih (a.toNat + carry) (by omega)
    rw [inWord_eq_ok (by omega), addBytes_nil, absorb_cons]
    show (if (a.toNat + carry) / 256 = 0 then _ else _) = _
    split
    · rename_i hzero
      rw [hzero, absorb_zero]
      rfl
    · rw [hrest, addBytes_nil]
      rfl
  | case3 b bs carry ih =>
    have hlt := b.toNat_lt
    have hrest := ih (b.toNat + carry) (by omega)
    rw [inWord_eq_ok (by omega), addBytes, absorb_cons]
    rw [addBytes] at hrest
    show (do return UInt8.ofNat (b.toNat + carry) :: (← addInWords [] bs ((b.toNat + carry) / 256))) = _
    rw [hrest]
    rfl
  | case4 a as b bs carry ih =>
    have ha := a.toNat_lt
    have hb := b.toNat_lt
    have hrest := ih (a.toNat + b.toNat + carry) (by omega)
    rw [inWord_eq_ok (by omega), addBytes]
    show (do return UInt8.ofNat (a.toNat + b.toNat + carry)
      :: (← addInWords as bs ((a.toNat + b.toNat + carry) / 256))) = _
    rw [hrest]
    rfl

/-- What is carried on when the lowest byte of a number has been added to the next byte. -/
def nextCarry (bytes : List UInt8) (carry : Nat) : Nat :=
  carry / 256 + ((bytes.headD 0).toNat + carry % 256) / 256

private theorem nextCarry_eq (bytes : List UInt8) (carry : Nat) :
    nextCarry bytes carry = ((bytes.headD 0).toNat + carry) / 256 := by
  rw [nextCarry]
  omega

private theorem length_add_nextCarry_lt (bytes : List UInt8) {carry : Nat} (h : carry ≠ 0) :
    bytes.tail.length + nextCarry bytes carry < bytes.length + carry := by
  rw [nextCarry_eq]
  cases bytes with
  | nil => simp; omega
  | cons b bytes =>
    have := b.toNat_lt
    simp only [List.tail_cons, List.headD_cons, List.length_cons]
    omega

/-- Adds a number to bytes, in words of 64 bits: its lowest byte is added to the next byte, and what is over is added
to the rest of the number. -/
def addSmallInWords (bytes : List UInt8) (carry : Nat) : Except Fault (List UInt8) :=
  if carry = 0 then
    .ok bytes
  else do
    let sum ← inWord 64 ((bytes.headD 0).toNat + carry % 256)
    let _ ← inWord 64 (nextCarry bytes carry)
    return UInt8.ofNat sum :: (← addSmallInWords bytes.tail (nextCarry bytes carry))
termination_by bytes.length + carry
decreasing_by exact length_add_nextCarry_lt bytes ‹_›

theorem addSmallInWords_eq {bytes : List UInt8} {carry : Nat} (h : carry < 2 ^ 64) :
    addSmallInWords bytes carry = .ok (absorb bytes carry) := by
  fun_induction addSmallInWords bytes carry with
  | case1 bytes => rw [absorb_zero]
  | case2 bytes carry hcarry ih =>
    have hhead := (bytes.headD 0).toNat_lt
    have hnext : nextCarry bytes carry < 2 ^ 64 := by
      rw [nextCarry_eq]
      omega
    rw [inWord_eq_ok (by omega), inWord_eq_ok hnext]
    show (do return UInt8.ofNat _ :: (← addSmallInWords bytes.tail (nextCarry bytes carry))) = _
    rw [ih hnext, nextCarry_eq]
    have hbyte : ∀ b : UInt8, UInt8.ofNat (b.toNat + carry % 256) = UInt8.ofNat (b.toNat + carry) := by
      intro b
      apply UInt8.toNat_inj.1
      rw [UInt8.toNat_ofNat', UInt8.toNat_ofNat']
      omega
    cases bytes with
    | nil =>
      rw [List.headD_nil, List.tail_nil, hbyte, UInt8.toNat_zero, Nat.zero_add, absorb, absorb, bytesOf.eq_def carry,
        if_neg hcarry]
      rfl
    | cons b bytes =>
      rw [List.headD_cons, List.tail_cons, hbyte, absorb_cons]
      rfl

/-! ### Products -/

/-- Adds a carry to the bytes of a product, in words of 64 bits. -/
def carryInWords : List UInt8 → Nat → Except Fault (List UInt8)
  | product, 0 => .ok product
  | [], _ + 1 => .error .index
  | p :: product, carry + 1 => do
    let cell ← inWord 64 (p.toNat + (carry + 1))
    return UInt8.ofNat cell :: (← carryInWords product (cell / 256))

/-- Adds a row, the product of a byte with bytes, to the bytes of a product, in words of 64 bits. -/
def rowInWords (a : UInt8) : List UInt8 → List UInt8 → Nat → Except Fault (List UInt8)
  | [], product, carry => carryInWords product carry
  | _ :: _, [], _ => .error .index
  | b :: bs, p :: product, carry => do
    let cell ← inWord 64 (p.toNat + a.toNat * b.toNat + carry)
    return UInt8.ofNat cell :: (← rowInWords a bs product (cell / 256))

/-- Adds the rows of all bytes of the first factor to the bytes of a product, each one place higher. -/
def rowsInWords : List UInt8 → List UInt8 → List UInt8 → Except Fault (List UInt8)
  | [], _, product => .ok product
  | a :: as, bs, product => do
    match ← rowInWords a bs product 0 with
    | [] => throw .index
    | low :: product => return low :: (← rowsInWords as bs product)

/-- The bytes of a product of bytes. -/
def multiplyInWords (as bs : List UInt8) : Except Fault (List UInt8) :=
  if as.isEmpty || bs.isEmpty then .ok []
  else do return trimBytes (← rowsInWords as bs (List.replicate (as.length + bs.length) 0))

/-- Multiplies bytes by a number and adds a carry, in words of 128 bits. -/
def multiplySmallInWords (factor : Nat) : List UInt8 → Nat → Except Fault (List UInt8)
  | [], carry => .ok (bytesOf carry)
  | b :: bytes, carry => do
    let cell ← inWord 128 (b.toNat * factor + carry)
    return UInt8.ofNat cell :: (← multiplySmallInWords factor bytes (cell / 256))

private theorem toNat_ofNat_add_mul_div (n : Nat) : (UInt8.ofNat n).toNat + 256 * (n / 256) = n := by
  rw [UInt8.toNat_ofNat']
  omega

/-- A carry is added within the bytes if the sum has no more of them. -/
private theorem exists_carryInWords {product : List UInt8} {carry : Nat} (hcarry : carry < 2 ^ 32)
    (h : bytesValue product + carry < 256 ^ product.length) :
    ∃ result, carryInWords product carry = .ok result ∧ result.length = product.length ∧
      bytesValue result = bytesValue product + carry := by
  fun_induction carryInWords product carry with
  | case1 product => exact ⟨product, rfl, rfl, rfl⟩
  | case2 carry =>
    rw [List.length_nil, bytesValue] at h
    omega
  | case3 p product carry ih =>
    have hp := p.toNat_lt
    have hcell := toNat_ofNat_add_mul_div (p.toNat + (carry + 1))
    rw [bytesValue, List.length_cons, Nat.pow_succ'] at h
    obtain ⟨result, hresult, hlength, hvalue⟩ := ih (p.toNat + (carry + 1)) (by omega) (by omega)
    refine ⟨UInt8.ofNat (p.toNat + (carry + 1)) :: result, ?_, by simp [hlength], ?_⟩
    · rw [inWord_eq_ok (by omega)]
      show (do return UInt8.ofNat _ :: (← carryInWords product ((p.toNat + (carry + 1)) / 256))) = _
      rw [hresult]
      rfl
    · rw [bytesValue, bytesValue, hvalue]
      omega

/-- A row is added within the bytes if the sum has no more of them. -/
private theorem exists_rowInWords (a : UInt8) {bs product : List UInt8} {carry : Nat} (hcarry : carry < 256)
    (hlength : bs.length ≤ product.length)
    (h : bytesValue product + a.toNat * bytesValue bs + carry < 256 ^ product.length) :
    ∃ result, rowInWords a bs product carry = .ok result ∧ result.length = product.length ∧
      bytesValue result = bytesValue product + a.toNat * bytesValue bs + carry := by
  fun_induction rowInWords a bs product carry with
  | case1 product carry =>
    rw [bytesValue, Nat.mul_zero, Nat.add_zero] at h ⊢
    exact exists_carryInWords (by omega) h
  | case2 => simp at hlength
  | case3 b bs p product carry ih =>
    have ha := a.toNat_lt
    have hb := b.toNat_lt
    have hp := p.toNat_lt
    have hab : a.toNat * b.toNat ≤ 255 * 255 := Nat.mul_le_mul (by omega) (by omega)
    have hcell := toNat_ofNat_add_mul_div (p.toNat + a.toNat * b.toNat + carry)
    have hexpand : a.toNat * (b.toNat + 256 * bytesValue bs)
        = a.toNat * b.toNat + 256 * (a.toNat * bytesValue bs) := by ring
    rw [bytesValue, bytesValue, List.length_cons, Nat.pow_succ', hexpand] at h
    obtain ⟨result, hresult, hlength, hvalue⟩ := ih (p.toNat + a.toNat * b.toNat + carry) (by omega)
      (by simpa using hlength) (by omega)
    refine ⟨UInt8.ofNat (p.toNat + a.toNat * b.toNat + carry) :: result, ?_, by simp [hlength], ?_⟩
    · rw [inWord_eq_ok (by omega)]
      show (do return UInt8.ofNat _ :: (← rowInWords a bs product ((p.toNat + a.toNat * b.toNat + carry) / 256))) = _
      rw [hresult]
      rfl
    · rw [bytesValue, bytesValue, bytesValue, hvalue, hexpand]
      omega

/-- All rows are added within the bytes if the sum has no more of them. -/
private theorem exists_rowsInWords {as bs product : List UInt8} (hlength : as.length + bs.length = product.length)
    (h : bytesValue product + bytesValue as * bytesValue bs < 256 ^ product.length) :
    ∃ result, rowsInWords as bs product = .ok result ∧
      bytesValue result = bytesValue product + bytesValue as * bytesValue bs := by
  induction as generalizing product with
  | nil => exact ⟨product, rfl, by simp [bytesValue]⟩
  | cons a as ih =>
    have hexpand : (a.toNat + 256 * bytesValue as) * bytesValue bs
        = a.toNat * bytesValue bs + 256 * (bytesValue as * bytesValue bs) := by ring
    rw [bytesValue, hexpand] at h
    rw [List.length_cons] at hlength
    obtain ⟨row, hrow, hrowLength, hvalue⟩ := exists_rowInWords a (by omega)
      (by omega) (by omega : bytesValue product + a.toNat * bytesValue bs + 0 < 256 ^ product.length)
    cases row with
    | nil => simp at hrowLength; omega
    | cons low row =>
      rw [List.length_cons] at hrowLength
      have hlow := low.toNat_lt
      rw [bytesValue] at hvalue
      rw [← hrowLength, Nat.pow_succ'] at h
      obtain ⟨result, hresult, hrest⟩ := ih (by omega) (by omega : bytesValue row + bytesValue as * bytesValue bs
        < 256 ^ row.length)
      refine ⟨low :: result, ?_, ?_⟩
      · rw [rowsInWords, hrow]
        show (do return low :: (← rowsInWords as bs row)) = _
        rw [hresult]
        rfl
      · rw [bytesValue, bytesValue, hrest, hexpand]
        omega

theorem multiplyInWords_eq (as bs : List UInt8) : multiplyInWords as bs = .ok (trimBytes (multiplyBytes as bs)) := by
  rw [multiplyInWords]
  split
  · rename_i hempty
    have hzero : bytesValue (multiplyBytes as bs) = 0 := by
      rw [bytesValue_multiplyBytes]
      rcases Bool.or_eq_true _ _ ▸ hempty with h | h
      · rw [List.isEmpty_iff.1 h, bytesValue, Nat.zero_mul]
      · rw [List.isEmpty_iff.1 h, bytesValue, Nat.mul_zero]
    rw [eq_nil_of_bytesValue_eq_zero (getLast?_trimBytes _) (by simp [hzero])]
  · have hlength : as.length + bs.length = (List.replicate (as.length + bs.length) (0 : UInt8)).length := by simp
    have hlt : bytesValue as * bytesValue bs < 256 ^ (as.length + bs.length) := by
      rw [Nat.pow_add]
      exact Nat.mul_lt_mul'' (bytesValue_lt as) (bytesValue_lt bs)
    obtain ⟨result, hresult, hvalue⟩ := exists_rowsInWords hlength (by simpa using hlt)
    rw [hresult]
    show Except.ok (trimBytes result) = _
    rw [trimBytes_eq_of_bytesValue_eq (show bytesValue result = bytesValue (multiplyBytes as bs) by simp [hvalue])]

theorem multiplySmallInWords_eq {factor : Nat} (hfactor : factor < 2 ^ 64) (bytes : List UInt8) {carry : Nat}
    (h : carry < 2 ^ 64) : multiplySmallInWords factor bytes carry = .ok (scaleBytes factor bytes carry) := by
  fun_induction multiplySmallInWords factor bytes carry with
  | case1 carry => rw [scaleBytes]
  | case2 b bytes carry ih =>
    have hb := b.toNat_lt
    have hcell : b.toNat * factor ≤ 255 * (2 ^ 64 - 1) := Nat.mul_le_mul (by omega) (by omega)
    rw [inWord_eq_ok (by omega), scaleBytes]
    show (do return UInt8.ofNat _ :: (← multiplySmallInWords factor bytes ((b.toNat * factor + carry) / 256))) = _
    rw [ih (b.toNat * factor + carry) (by omega)]
    rfl

/-! ### Quotients -/

/-- Divides bytes by a number, from the most significant byte down, in words of 128 bits. -/
def divideInWords (divisor : Nat) : List UInt8 → Except Fault (List UInt8 × Nat)
  | [] => .ok ([], 0)
  | b :: bytes => do
    let (quotient, remainder) ← divideInWords divisor bytes
    let cell ← inWord 128 (remainder * 256 + b.toNat)
    return (UInt8.ofNat (cell / divisor) :: quotient, cell % divisor)

/-- The remainder of bytes by a number, in words of 128 bits. -/
def modulusInWords (divisor : Nat) : List UInt8 → Except Fault Nat
  | [] => .ok 0
  | b :: bytes => do
    let remainder ← modulusInWords divisor bytes
    let cell ← inWord 128 (remainder * 256 + b.toNat)
    return cell % divisor

/-- Dividing bytes leaves the quotient and the remainder of their number. -/
theorem divideBytes_spec {divisor : Nat} (hpos : 0 < divisor) (bytes : List UInt8) :
    bytesValue (divideBytes divisor bytes).1 = bytesValue bytes / divisor ∧
      (divideBytes divisor bytes).2 = bytesValue bytes % divisor := by
  induction bytes with
  | nil => simp [divideBytes, bytesValue]
  | cons b bytes ih =>
    have hb := b.toNat_lt
    have hlt := Nat.mod_lt (bytesValue bytes) hpos
    have hdivision := Nat.div_add_mod (bytesValue bytes) divisor
    rw [divideBytes]
    simp only [ih.2]
    rw [bytesValue, ih.1, bytesValue]
    generalize bytesValue bytes / divisor = q at *
    generalize bytesValue bytes % divisor = r at *
    have hvalue : b.toNat + 256 * bytesValue bytes = divisor * (256 * q) + (r * 256 + b.toNat) := by
      rw [← hdivision]
      ring
    have hcell : (r * 256 + b.toNat) / divisor < 256 := by
      rw [Nat.div_lt_iff_lt_mul hpos]
      omega
    rw [hvalue, Nat.mul_add_div hpos, Nat.mul_add_mod, UInt8.toNat_ofNat', Nat.mod_eq_of_lt hcell]
    exact ⟨Nat.add_comm _ _, rfl⟩

theorem divideInWords_eq {divisor : Nat} (hpos : 0 < divisor) (hdivisor : divisor < 2 ^ 64) (bytes : List UInt8) :
    divideInWords divisor bytes = .ok (divideBytes divisor bytes) := by
  induction bytes with
  | nil => rfl
  | cons b bytes ih =>
    have hb := b.toNat_lt
    have hlt := Nat.mod_lt (bytesValue bytes) hpos
    rw [← (divideBytes_spec hpos bytes).2] at hlt
    rw [divideInWords, ih, divideBytes]
    show (do let cell ← inWord 128 ((divideBytes divisor bytes).2 * 256 + b.toNat); _) = _
    rw [inWord_eq_ok (by omega)]
    rfl

theorem foldr_mod_eq (divisor : Nat) (bytes : List UInt8) :
    bytes.foldr (fun b remainder => (remainder * 256 + b.toNat) % divisor) 0 = bytesValue bytes % divisor := by
  induction bytes with
  | nil => simp [bytesValue]
  | cons b bytes ih =>
    rw [List.foldr_cons, ih, bytesValue, Nat.add_comm b.toNat, Nat.mul_comm 256]
    exact Nat.ModEq.add_right b.toNat ((Nat.mod_modEq _ _).mul_right 256)

theorem modulusInWords_eq {divisor : Nat} (hpos : 0 < divisor) (hdivisor : divisor < 2 ^ 64) (bytes : List UInt8) :
    modulusInWords divisor bytes = .ok (bytesValue bytes % divisor) := by
  induction bytes with
  | nil => simp [modulusInWords, bytesValue]
  | cons b bytes ih =>
    have hb := b.toNat_lt
    have hlt := Nat.mod_lt (bytesValue bytes) hpos
    rw [← foldr_mod_eq, List.foldr_cons, foldr_mod_eq, modulusInWords, ih]
    show (do let cell ← inWord 128 (bytesValue bytes % divisor * 256 + b.toNat); _) = _
    rw [inWord_eq_ok (by omega)]
    rfl

/-! ### Shifts -/

/-- Moves the bits of bytes up by fewer than eight places, in words of 16 bits, with a carry of 8. -/
def raiseInWords (places : Nat) : List UInt8 → Nat → Except Fault (List UInt8)
  | [], carry => .ok (if carry = 0 then [] else [UInt8.ofNat carry])
  | b :: bytes, carry => do
    let shifted ← inWord 16 (2 ^ places * b.toNat ||| carry)
    return UInt8.ofNat shifted :: (← raiseInWords places bytes (← inWord 8 (shifted / 256)))

/-- Moves the bits of bytes down by fewer than eight places, from the most significant byte down, in words of 16 bits;
with them the bits that pass the lowest place, at the top of a byte. -/
def lowerInWords (places : Nat) : List UInt8 → Except Fault (List UInt8 × Nat)
  | [] => .ok ([], 0)
  | b :: bytes => do
    let (lowered, carry) ← lowerInWords places bytes
    let shifted ← inWord 16 (b.toNat * 2 ^ (8 - places))
    return (UInt8.ofNat (shifted / 256 ||| carry) :: lowered, shifted % 256)

private theorem two_pow_mul_two_pow_sub {places : Nat} (h : places < 8) : 2 ^ places * 2 ^ (8 - places) = 256 := by
  rw [← Nat.pow_add, show places + (8 - places) = 8 by omega]

/-- What is carried are the bits above a byte, fewer than the places moved. -/
theorem raiseInWords_eq {places : Nat} (hplaces : places < 8) (bytes : List UInt8) {carry : Nat}
    (h : carry < 2 ^ places) : raiseInWords places bytes carry = .ok (scaleBytes (2 ^ places) bytes carry) := by
  have hpower : 2 ^ places ≤ 2 ^ 7 := Nat.pow_le_pow_right (by omega) (by omega)
  fun_induction raiseInWords places bytes carry with
  | case1 carry =>
    rw [scaleBytes, bytesOf, Nat.div_eq_of_lt (by omega), bytesOf, if_pos rfl]
  | case2 b bytes carry ih =>
    have hb := b.toNat_lt
    have hsum : 2 ^ places * b.toNat + carry < 2 ^ places * 256 := by
      calc 2 ^ places * b.toNat + carry < 2 ^ places * b.toNat + 2 ^ places := by omega
        _ = 2 ^ places * (b.toNat + 1) := by ring
        _ ≤ 2 ^ places * 256 := Nat.mul_le_mul_left _ hb
    have hnext : (2 ^ places * b.toNat + carry) / 256 < 2 ^ places := by
      rwa [Nat.div_lt_iff_lt_mul (by omega)]
    rw [← Nat.two_pow_add_eq_or_of_lt h, inWord_eq_ok (by omega), scaleBytes, Nat.mul_comm b.toNat]
    show (do return UInt8.ofNat _ :: (← raiseInWords places bytes (← inWord 8 _))) = _
    rw [inWord_eq_ok (by omega)]
    show (do return UInt8.ofNat _ :: (← raiseInWords places bytes _)) = _
    rw [ih _ hnext]
    rfl

/-- What is carried into a byte fills the places that its own bits leave. -/
theorem lowerInWords_eq {places : Nat} (hplaces : places < 8) (bytes : List UInt8) :
    lowerInWords places bytes
      = .ok (lowerBytes places bytes, (bytes.headD 0).toNat * 2 ^ (8 - places) % 256) := by
  have hsplit := two_pow_mul_two_pow_sub hplaces
  have hlowest : 0 < 2 ^ (8 - places) := Nat.two_pow_pos _
  have hpower : 2 ^ (8 - places) ≤ 2 ^ 8 := Nat.pow_le_pow_right (by omega) (by omega)
  induction bytes with
  | nil => simp [lowerInWords, lowerBytes]
  | cons b bytes ih =>
    have hb := b.toNat_lt
    have hown : b.toNat * 2 ^ (8 - places) / 256 = b.toNat / 2 ^ places := by
      rw [← hsplit, Nat.mul_div_mul_right _ _ hlowest]
    have hfits : b.toNat * 2 ^ (8 - places) ≤ 255 * 2 ^ 8 := Nat.mul_le_mul (by omega) hpower
    rw [lowerInWords, ih]
    show (do let shifted ← inWord 16 (b.toNat * 2 ^ (8 - places)); _) = _
    rw [inWord_eq_ok (by omega)]
    show Except.ok (UInt8.ofNat (b.toNat * 2 ^ (8 - places) / 256 ||| _) :: _, _) = _
    rw [hown]
    cases bytes with
    | nil => simp [lowerBytes]
    | cons next bytes =>
      have hlt : b.toNat / 2 ^ places < 2 ^ (8 - places) := by
        rw [Nat.div_lt_iff_lt_mul (Nat.two_pow_pos _), Nat.mul_comm, hsplit]
        exact hb
      have hcarry : next.toNat * 2 ^ (8 - places) % 256 = 2 ^ (8 - places) * (next.toNat % 2 ^ places) := by
        rw [← hsplit, Nat.mul_mod_mul_right, Nat.mul_comm]
      have hboth : (b.toNat + 256 * next.toNat) / 2 ^ places
          = 2 ^ (8 - places) * next.toNat + b.toNat / 2 ^ places := by
        rw [← hsplit, Nat.mul_assoc, Nat.add_mul_div_left _ _ (Nat.two_pow_pos _), Nat.add_comm]
      have hbyte : UInt8.ofNat (b.toNat / 2 ^ places ||| next.toNat * 2 ^ (8 - places) % 256)
          = UInt8.ofNat ((b.toNat + 256 * next.toNat) / 2 ^ places) := by
        apply UInt8.toNat_inj.1
        rw [hcarry, Nat.or_comm, ← Nat.two_pow_add_eq_or_of_lt hlt, hboth, UInt8.toNat_ofNat', UInt8.toNat_ofNat',
          ← hcarry, Nat.mod_add_mod, Nat.mul_comm]
      rw [List.headD_cons, List.headD_cons, lowerBytes, hbyte]

end ExprLang
